import VoiceAgent.ObjectExtraction
import VoiceAgent.SessionView
import Mathlib.Data.Char
import Mathlib.Data.List.Infix
import Mathlib.Data.List.Lex

/-!
The Speaker's turn as one streamed JSON object: the field streamers that read it while it
arrives, what the whole object is reduced to, the guard against verbatim repeats, and the
texts that one turn sends to speech.
-/
namespace VoiceAgent.ActionEnvelope

open StreamingEvents JsonValues SessionView

/-- `str.lower`, `str` of a value that is no string, `\w`, `chr(int(_, 16))` and
`JSONDecoder.raw_decode`; none where Python raises a `ValueError`. -/
structure TextOps where
  lower : Text → Text
  str : Json → Text
  isWordChar : Char → Bool
  chr : Text → Option Char
  rawDecode : Text → Option Json

section Characters

instance : JsonStream.Alphabet Char where
  isSpace := isSpace
  isAlnum := Char.isAlphanum
  quote := '"'
  colon := ':'
  backslash := '\\'
  letterU := 'u'
  openBrace := '{'
  backtick := '\x60'
  escapes := [('"', '"'), ('\\', '\\'), ('/', '/'), ('b', '\x08'), ('f', '\x0C'), ('n', '\n'),
    ('r', '\r'), ('t', '\t')]

abbrev FieldStreamer := JsonStream.JsonStringFieldStreamer Char

def FieldStreamer.of (fieldName : String) : FieldStreamer where
  fieldName := fieldName.toList

end Characters

section Envelope
variable (T : TextOps)

/-- `str(value)`. -/
def TextOps.strOf : Json → Text
  | .str s => s.toList
  | v => T.str v

/-- `str(payload.get(key, ""))`, stripped. -/
def strField (payload : Fields) (key : String) : Text :=
  strip (((payload.get? key).map T.strOf).getD [])

def textJson (text : Text) : Json := .str (String.ofList text)

def turnActions : List Text :=
  ["respond", "think", "analyze_attachment", "capture_highres", "clarify"].map String.toList

def mediaActions : List Text := ["none", "new", "rerun"].map String.toList

def inputSources : List Text :=
  ["none", "live_webcam", "uploaded_attachment"].map String.toList

def actionFallbackResponse : Text := "Let me think that through carefully.".toList

def oneOf (value : Option Json) (allowed : List Text) (default : Text) : Text :=
  let candidate := T.lower (strip (if truthy value then (value.map T.strOf).getD [] else default))
  if candidate ∈ allowed then candidate else default

def normalizeMediaAnalysisAction (value : Option Json) : Text :=
  oneOf T value mediaActions "none".toList

def normalizeTurnAction (value : Option Json) : Text := oneOf T value turnActions []

def normalizeSelectedInputSource (value : Option Json) : Text :=
  oneOf T value inputSources "none".toList

/-- `text.replace(pattern, "")`; `skip` characters of an occurrence are still to be left out. -/
def eraseFrom (pattern : Text) : ℕ → Text → Text
  | _, [] => []
  | skip + 1, _ :: cs => eraseFrom pattern skip cs
  | 0, c :: cs =>
    if pattern.isPrefixOf (c :: cs) then eraseFrom pattern (pattern.length - 1) cs
    else c :: eraseFrom pattern 0 cs

/-- `re.sub(r"\s+", " ", text)`. -/
def collapseSpaces : Bool → Text → Text
  | _, [] => []
  | inRun, c :: cs =>
    if isSpace c then
      if inRun then collapseSpaces true cs else ' ' :: collapseSpaces true cs
    else c :: collapseSpaces false cs

def cleanSpokenResponseArtifacts (text : Text) : Text :=
  let cleaned := strip text
  let cleaned := eraseFrom "Answer only with the final user-facing result.".toList 0 cleaned
  let cleaned := eraseFrom "Answer only with the final user-facing result".toList 0 cleaned
  strip (collapseSpaces false cleaned)

def missingUploadedAttachmentResponse (transcript : Text) : Text :=
  if "video".toList <:+: T.lower transcript then
    "Please upload or attach the video first, then I can take a look.".toList
  else "Please upload or attach the media first, then I can take a look.".toList

def thinkingFallbackPayload (payload : Fields) : Fields :=
  (((((payload.set "turn_action" (.str "think")).set "highres_query" (.str "")).set
    "selected_input_source" (.str "none")).set "media_analysis_action" (.str "none")).set
      "media_analysis_prompt" (.str "")).set "_action_fallback" (.bool true)

/-- `payload.update` of the four fields an action owns. -/
def ownFields (payload : Fields) (source media prompt query : Text) : Fields :=
  (((payload.set "selected_input_source" (textJson source)).set
    "media_analysis_action" (textJson media)).set
      "media_analysis_prompt" (textJson prompt)).set "highres_query" (textJson query)

def analyzeAttachment : Text := "analyze_attachment".toList

def captureHighres : Text := "capture_highres".toList

/-- The end of `normalize_action_envelope`, for an action that nothing contradicts. -/
def ownAction (payload : Fields) (action media prompt query transcript recovery : Text) :
    Fields × Text :=
  let none := "none".toList
  if action = analyzeAttachment then
    let media := if media = "new".toList ∨ media = "rerun".toList then media else "new".toList
    let prompt := if prompt = [] then transcript else prompt
    ((ownFields payload "uploaded_attachment".toList media prompt []).set "turn_action"
      (textJson action), recovery)
  else if action = captureHighres then
    let query := if query = [] then transcript else query
    if query = [] then
      (thinkingFallbackPayload payload, "high-resolution capture is missing a query".toList)
    else ((ownFields payload none none [] query).set "turn_action" (textJson action), recovery)
  else ((ownFields payload none none [] []).set "turn_action" (textJson action), recovery)

def normalizeActionEnvelope (rawPayload : Fields) (transcript response : Text) : Fields × Text :=
  let payload := rawPayload.filter fun key =>
    decide (key ≠ "needs_thinking" ∧ key ≠ "request_highres_capture")
  let declared := normalizeTurnAction T (payload.get? "turn_action")
  let source := normalizeSelectedInputSource T (payload.get? "selected_input_source")
  let media := normalizeMediaAnalysisAction T (payload.get? "media_analysis_action")
  let prompt := strField T payload "media_analysis_prompt"
  let query := strField T payload "highres_query"
  let mediaRequested :=
    source = "uploaded_attachment".toList ∨ media = "new".toList ∨ media = "rerun".toList ∨
      prompt ≠ []
  let inferred := (if mediaRequested then [analyzeAttachment] else []) ++
    (if query ≠ [] then [captureHighres] else [])
  let owner : Option (Text × Text) :=
    if declared ≠ [] then some (declared, [])
    else
      match inferred with
      | [action] =>
        some (action, "inferred ".toList ++ action ++ " from argument fields".toList)
      | [] =>
        if response ≠ [] then
          some ("respond".toList, "inferred respond from response-only envelope".toList)
        else none
      | _ => none
  match owner with
  | none =>
    (thinkingFallbackPayload payload,
      "missing or invalid turn_action with ambiguous ownership".toList)
  | some (action, recovery) =>
    let conflicts := inferred.filter fun owner => owner ≠ action
    if conflicts ≠ [] then
      (thinkingFallbackPayload payload, "turn_action ".toList ++ action ++
        " contradicted arguments for ".toList ++ ", ".toList.intercalate conflicts)
    else if action ≠ captureHighres ∧ strip response = [] then
      (thinkingFallbackPayload payload,
        "turn_action ".toList ++ action ++ " is missing its spoken response".toList)
    else ownAction payload action media prompt query transcript recovery

/-- The object at the beginning of a text. -/
def TextOps.decodeObject (text : Text) : Option Fields :=
  match T.rawDecode text with
  | some (.obj fields) => some fields
  | _ => none

def extractJsonObject (text : Text) : Fields :=
  (ObjectExtraction.extractJsonObject T.decodeObject text).getD .nil

end Envelope

section RepeatGuard
variable (T : TextOps)

def bridgeFillers : List Text :=
  ["Hmm, let me look back over our conversation for a second.",
    "Let me think this through more carefully.",
    "One moment — let me reconsider that."].map String.toList

def repeatMinWords : ℕ := 4

def repeatHistory : ℕ := 4

/-- `text.split()`. -/
def splitWords (text : Text) : List Text := (text.splitOnP isSpace).filter (· ≠ [])

def normalizeText (text : Text) : Text :=
  " ".toList.intercalate (splitWords ((T.lower text).map fun c =>
    if T.isWordChar c || isSpace c then c else ' '))

/-- `RepeatGuard`. -/
structure RepeatGuard where
  recent : List Text := []
  pending : Text := []
  fillerIndex : ℕ := 0
  suppressing : Bool := false
  detected : Bool := false
  filler : Text := []
  emitted : Bool := false

def RepeatGuard.isRepeat (g : RepeatGuard) (text : Text) : Bool :=
  let normalized := normalizeText T text
  decide (repeatMinWords ≤ (splitWords normalized).length ∧ normalized ∈ g.recent)

def RepeatGuard.nextFiller (g : RepeatGuard) : Text :=
  bridgeFillers.getD (g.fillerIndex % bridgeFillers.length) []

def RepeatGuard.bridgeFiller (g : RepeatGuard) (text : Text) : Option Text × RepeatGuard :=
  if g.emitted || g.suppressing || !g.isRepeat T text then (none, g)
  else
    (some g.nextFiller,
      { g with
        suppressing := true
        detected := true
        emitted := true
        filler := g.nextFiller
        fillerIndex := g.fillerIndex + 1 })

def RepeatGuard.couldBeRepeatPrefix (g : RepeatGuard) (text : Text) : Bool :=
  let normalized := normalizeText T text
  if normalized = [] then decide (g.recent ≠ []) else g.recent.any normalized.isPrefixOf

def RepeatGuard.noteSpoken (g : RepeatGuard) (text : Text) : RepeatGuard :=
  { g with emitted := true, detected := g.detected || g.isRepeat T text }

def RepeatGuard.noteReply (g : RepeatGuard) (response : Text) (track : Bool) : RepeatGuard :=
  { g with pending := if track then normalizeText T response else [] }

def RepeatGuard.reset (g : RepeatGuard) : RepeatGuard where
  recent :=
    if g.pending = [] then g.recent
    else (g.recent ++ [g.pending]).drop (g.recent.length + 1 - repeatHistory)
  fillerIndex := g.fillerIndex

end RepeatGuard

section Turn

/-- What a turn of the Speaker meets; the correction is what `run_inference` returns, none
for an exception or an empty text. -/
structure Surroundings where
  hasUserAudio : Bool
  uploadedAttachmentAvailable : Option Bool
  correction : Option Text

/-- `SpeakerTurnResult`. -/
structure TurnResult where
  transcript : Text
  response : Text
  rawContent : Text
  payload : Fields

variable (T : TextOps) (E : Surroundings)

def isMissingUploadedAttachmentRoute (source media : Text) : Bool :=
  decide (source ≠ "live_webcam".toList ∧
    (source = "uploaded_attachment".toList ∨ media = "new".toList ∨ media = "rerun".toList) ∧
    E.uploadedAttachmentAvailable = some false)

/-- The end of `_parse_turn_result`: a missing upload takes the place of the response. -/
def finish (rawContent transcript response : Text) (payload : Fields) (recovery : Text) :
    TurnResult :=
  let source := normalizeSelectedInputSource T (payload.get? "selected_input_source")
  let media := normalizeMediaAnalysisAction T (payload.get? "media_analysis_action")
  if isMissingUploadedAttachmentRoute E source media then
    let response := missingUploadedAttachmentResponse T transcript
    { transcript := transcript
      response := response
      rawContent := rawContent
      payload := ((((payload.set "turn_action" (.str "clarify")).set
        "selected_input_source" (.str "none")).set "media_analysis_action" (.str "none")).set
          "media_analysis_prompt" (.str "")).set "response" (textJson response) }
  else
    let payload :=
      if recovery = [] then payload else payload.set "_action_recovery" (textJson recovery)
    let response := if truthy (payload.get? "_action_fallback") then [] else response
    { transcript := transcript
      response := response
      rawContent := rawContent
      payload := payload.set "response" (textJson response) }

/-- `_parse_turn_result`, from the decoded payload on. -/
def parsePayload (rawContent : Text) (rawPayload : Fields) : TurnResult :=
  let transcript := if E.hasUserAudio then strField T rawPayload "transcript" else []
  let response :=
    cleanSpokenResponseArtifacts (((rawPayload.get? "response").map T.strOf).getD [])
  let (payload, recovery) := normalizeActionEnvelope T rawPayload transcript response
  finish T E rawContent transcript response payload recovery

def parseTurnResult (rawContent : Text) : TurnResult :=
  parsePayload T E rawContent (extractJsonObject T rawContent)

def TurnResult.fallsBack (result : TurnResult) : Bool :=
  truthy (result.payload.get? "_action_fallback")

/-- `_handle_turn_result` as far as it bears on speech; it dispatches the action as well. -/
def handleTurnResult (g : RepeatGuard) (result : TurnResult) (track : Bool) : RepeatGuard :=
  let response := cleanSpokenResponseArtifacts result.response
  if strip result.transcript = [] ∧ response = [] ∧ strip result.rawContent = [] then g
  else g.noteReply T response track

def attemptActionCorrection : Option TurnResult :=
  match E.correction with
  | none => none
  | some rawCorrection =>
    let corrected := parseTurnResult T E rawCorrection
    if corrected.fallsBack ∨ truthy (corrected.payload.get? "_action_recovery") ∨
        normalizeTurnAction T (corrected.payload.get? "turn_action") = "think".toList then none
    else some corrected

/-- The envelope the Speaker owns, for an envelope that falls back. -/
def correctedTurn (result : TurnResult) : TurnResult × Bool :=
  match attemptActionCorrection T E with
  | some corrected => (corrected, true)
  | none =>
    ({ transcript := result.transcript
       response := actionFallbackResponse
       rawContent := result.rawContent
       payload := (result.payload.set "_action_fallback" (.bool false)).set "response"
         (textJson actionFallbackResponse) }, false)

def resolveTurn (g : RepeatGuard) (result : TurnResult) : TurnResult × RepeatGuard :=
  if result.fallsBack then
    let (owned, track) := correctedTurn T E result
    (owned, handleTurnResult T g owned track)
  else (result, handleTurnResult T g result true)

/-- The locals of `_stream_action_envelope`, with what the turn has told so far. -/
structure Reading where
  transcriptField : FieldStreamer := .of "transcript"
  actionField : FieldStreamer := .of "turn_action"
  responseField : FieldStreamer := .of "response"
  transcriptText : Text := []
  actionText : Text := []
  rawContent : Text := []
  spokenText : Text := []
  responseBuffer : Text := []
  streamReleased : Bool := false
  spoke : Bool := false
  gated : Bool := false
  guard : RepeatGuard
  transcript : Option Text := none

/-- The transcript and the action as far as a chunk takes them. -/
def Reading.listen (r : Reading) (content : Text) : Reading :=
  let (transcriptField, heard) := r.transcriptField.feed T.chr content
  let transcriptText := r.transcriptText ++ heard
  let (actionField, declared) := r.actionField.feed T.chr content
  { r with
    rawContent := r.rawContent ++ content
    transcriptField := transcriptField
    transcriptText := transcriptText
    transcript :=
      if r.transcriptField.done = false ∧ transcriptField.done ∧ strip transcriptText ≠ [] ∧
        E.hasUserAudio then some (strip transcriptText) else r.transcript
    actionField := actionField
    actionText := r.actionText ++ declared }

/-- The end of one turn of the loop: what the chunk carries on is spoken. -/
def Reading.speak (r : Reading) (spoken : Text) : Reading :=
  { r with spoke := r.spoke || decide (spoken ≠ []), spokenText := r.spokenText ++ spoken }

/-- Text of the response is withheld for good when no known action is declared before it. -/
def Reading.gate (r : Reading) (delta : Text) : Reading :=
  if delta ≠ [] ∧ r.gated = false ∧ r.spoke = false then
    { r with
      gated := decide (normalizeTurnAction T (some (textJson r.actionText)) ∉ turnActions) }
  else r

def Reading.release (r : Reading) (delta : Text) : Reading :=
  if r.gated then r
  else if r.streamReleased then r.speak delta
  else
    let buffer := r.responseBuffer ++ delta
    if buffer ≠ [] ∧ r.responseField.done then
      let (filler, guard) := r.guard.bridgeFiller T buffer
      { r with responseBuffer := buffer, streamReleased := true, guard := guard }.speak
        (filler.getD buffer)
    else if buffer ≠ [] ∧ r.guard.couldBeRepeatPrefix T buffer = false then
      { r with responseBuffer := buffer, streamReleased := true }.speak buffer
    else { r with responseBuffer := buffer }

def Reading.chunk (r : Reading) (content : Text) : Reading :=
  if content = [] then r
  else
    let heard := r.listen T E content
    let (responseField, delta) := heard.responseField.feed T.chr content
    ({ heard with responseField := responseField }.gate T delta).release T delta

/-- `_speak_response`. -/
def speakResponse (g : RepeatGuard) (text : Text) : Option Text × RepeatGuard :=
  let cleaned := cleanSpokenResponseArtifacts text
  if cleaned = [] then (none, g)
  else
    match g.bridgeFiller T cleaned with
    | (some filler, g) => (some filler, g)
    | (none, g) => if g.suppressing then (none, g) else (some cleaned, { g with emitted := true })

/-- What a turn sends to speech while it streams and after, and the envelope it owns. -/
structure SpokenTurn where
  streamed : Text
  spokenAfter : Option Text
  parsed : TurnResult
  owned : TurnResult
  transcript : Option Text
  guard : RepeatGuard

def streamActionEnvelope (g : RepeatGuard) (chunks : List Text) : SpokenTurn :=
  let r := chunks.foldl (Reading.chunk T E) { guard := g.reset }
  let result := parseTurnResult T E r.rawContent
  let g := if r.spokenText = [] then r.guard else r.guard.noteSpoken T r.spokenText
  let (final, g) := resolveTurn T E g result
  let transcript :=
    if final.transcript ≠ [] ∧ r.transcript = none then some final.transcript else r.transcript
  let (spokenAfter, g) :=
    if r.spoke = false ∨ result.fallsBack then speakResponse T g final.response else (none, g)
  { streamed := r.spokenText
    spokenAfter := spokenAfter
    parsed := result
    owned := final
    transcript := transcript
    guard := g }

end Turn

end VoiceAgent.ActionEnvelope
