import VoiceAgent.JsonValues
import VoiceAgent.StreamingEvents

/-!
The session of a realtime client, before and after the handoff to the pipeline. Before it
`RealtimeSession.apply_update` merges a `session.update` into the view and puts the legacy
fields over the nested ones; after it the serializer moves the legacy fields into the patch
and then merges. The resolver of voices, the server's sanitizer and the limits written as
numbers are parameters.
-/
namespace VoiceAgent.SessionView

open JsonValues

/-- What an update is rejected for, with the path of the field. -/
inductive Invalid
  | codec (param : String) (got : Option Json)
  | notFormat (param : String)
  | rateType (param : String)
  | unsupportedRate (param : String) (rate : ℤ)
  | notObject (param : String)
  | manualMode (param : String)
  | turnsNotObject (param : String)
  | turnsType (param : String)
  | turnsTuning (param : String) (got : List String)
  | selector
  | selectorModel
  | notString (param : String)
  | modalities (param : String)
  | limit (param : String)
  | toolChoice
  | unsupportedLive (fields : List String)
  deriving DecidableEq

def stripString (s : String) : String := String.ofList (StreamingEvents.strip s.toList)

section Audio

def defaultClientPcmRate : ℤ := 24000

def supportedPcmRates : List ℤ := [8000, 16000, 24000, 48000]

def supportedPcmFormatTypes : List String := ["audio/pcm", "pcm16"]

def requireSupportedPcmRate (rate : Json) (param : String) : Except Invalid ℤ :=
  match rate with
  | .int n => if n ∈ supportedPcmRates then .ok n else .error (.unsupportedRate param n)
  | _ => .error (.rateType param)

def validateFormatObject (fmt : Json) (param : String) : Except Invalid Unit :=
  match fmt with
  | .str s => if s ∈ supportedPcmFormatTypes then .ok () else .error (.codec param (some fmt))
  | .obj f =>
    match f.get? "type" with
    | some (.str t) =>
      if t ∈ supportedPcmFormatTypes then
        match f.get? "rate" with
        | none | some .null => .ok ()
        | some rate => (requireSupportedPcmRate rate (param ++ ".rate")).map fun _ => ()
      else .error (.codec (param ++ ".type") (some (.str t)))
    | got => .error (.codec (param ++ ".type") got)
  | _ => .error (.notFormat param)

/-- A format that may be missing or `null`. -/
def validateFormat (fmt : Option Json) (param : String) : Except Invalid Unit :=
  match fmt with
  | none | some .null => .ok ()
  | some fmt => validateFormatObject fmt param

/-- One side of `session.audio`. -/
def validateSide (side : Option Json) (param : String) : Except Invalid Unit :=
  match side with
  | none | some .null => .ok ()
  | some (.obj block) => validateFormat (block.get? "format") (param ++ ".format")
  | some _ => .error (.notObject param)

def validateSessionAudioConfig (patch : Fields) : Except Invalid Unit := do
  validateFormat (patch.get? "input_audio_format") "session.input_audio_format"
  validateFormat (patch.get? "output_audio_format") "session.output_audio_format"
  match patch.get? "audio" with
  | none | some .null => .ok ()
  | some (.obj audio) => do
    validateSide (audio.get? "input") "session.audio.input"
    validateSide (audio.get? "output") "session.audio.output"
  | some _ => .error (.notObject "session.audio")

def formatRate (fmt : Option Json) : Except Invalid (Option ℤ) :=
  match fmt with
  | some (.obj f) =>
    match f.get? "rate" with
    | none | some .null => .ok none
    | some rate => (requireSupportedPcmRate rate "format.rate").map some
  | _ => .ok none

def extractClientPcmRate (view : Fields) : ℤ :=
  match sub (view.get? "audio") "input" with
  | some (.obj input) =>
    match formatRate (input.get? "format") with
    | .ok (some rate) => rate
    | _ => defaultClientPcmRate
  | _ => defaultClientPcmRate

/-- Falls back to the rate of the input. -/
def extractClientOutputPcmRate (view : Fields) : ℤ :=
  match sub (view.get? "audio") "output" with
  | some (.obj output) =>
    match formatRate (output.get? "format") with
    | .ok (some rate) => rate
    | _ => extractClientPcmRate view
  | _ => defaultClientPcmRate

def extractClientInputFormatType (view : Fields) : String :=
  match sub (sub (view.get? "audio") "input") "format" with
  | some (.obj f) =>
    match f.get? "type" with
    | some (.str t) =>
      if t = "" ∨ t ∈ supportedPcmFormatTypes then "audio/pcm" else t
    | _ => "audio/pcm"
  | _ => "audio/pcm"

end Audio

section Checks

def transcriptionOf (patch : Fields) : Json :=
  match sub (sub (patch.get? "audio") "input") "transcription" with
  | none | some .null => (patch.get? "input_audio_transcription").getD .null
  | some transcription => transcription

def validateInputTranscription (patch : Fields) : Except Invalid Unit :=
  match transcriptionOf patch with
  | .null => .ok ()
  | .obj f =>
    match f.get? "model" with
    | none | some .null | some (.str _) => .ok ()
    | some _ => .error .selectorModel
  | _ => .error .selector

def checkTurnDetection (value : Option Json) (param : String) : Except Invalid Unit :=
  match value with
  | none => .ok ()
  | some .null => .error (.manualMode param)
  | some (.obj f) =>
    let unsupported := f.keys.filter (· ≠ "type")
    if f.get? "type" ≠ some (.str "server_vad") then .error (.turnsType param)
    else if unsupported ≠ [] then
      .error (.turnsTuning param (unsupported.mergeSort (fun a b => a ≤ b)))
    else .ok ()
  | some _ => .error (.turnsNotObject param)

def validateServerVad (patch : Fields) : Except Invalid Unit := do
  checkTurnDetection (patch.get? "turn_detection") "session.turn_detection"
  checkTurnDetection (sub (sub (patch.get? "audio") "input") "turn_detection")
    "session.audio.input.turn_detection"

def validateModalitiesField (raw : Option Json) (param : String) : Except Invalid Unit :=
  match raw with
  | none | some .null => .ok ()
  | some (.arr items) =>
    let isStr : Json → Bool := fun item => match item with
      | .str _ => true
      | _ => false
    if items.toList ≠ [] ∧ (items.toList).all isStr ∧
        .str "audio" ∈ items.toList then .ok ()
    else .error (.modalities param)
  | some _ => .error (.modalities param)

/-- `session.voice`, and `session.audio.output.voice`. -/
def checkVoice (voice : Option Json) (param : String) : Except Invalid Unit :=
  match voice with
  | none | some .null | some (.str _) => .ok ()
  | some _ => .error (.notString param)

def checkToolChoice (raw : Option Json) : Except Invalid Unit :=
  let named : Json → Bool := fun name => match name with
    | .str s => stripString s ≠ ""
    | _ => false
  match raw with
  | none | some .null | some (.str "") => .ok ()
  | some (.str s) =>
    if stripString s ∈ ["auto", "none", "required"] then .ok () else .error .toolChoice
  | some (.obj f) =>
    let name := match sub (f.get? "function") "name" with
      | some (.str s) => .str s
      | _ => (f.get? "name").getD .null
    if f.get? "type" = some (.str "function") ∧ named name then .ok () else .error .toolChoice
  | some _ => .error .toolChoice

/-- What `map_session_update_to_flat_config` raises for; `limits` checks the token limit and
the temperature. -/
def checkSessionUpdate (limits : Fields → Except Invalid Unit) (patch : Fields) :
    Except Invalid Unit := do
  validateModalitiesField (patch.get? "output_modalities") "session.output_modalities"
  validateModalitiesField (patch.get? "modalities") "session.modalities"
  validateInputTranscription patch
  validateServerVad patch
  validateSessionAudioConfig patch
  checkVoice (patch.get? "voice") "session.voice"
  checkVoice (sub (sub (patch.get? "audio") "output") "voice") "session.audio.output.voice"
  limits patch
  checkToolChoice (patch.get? "tool_choice")

end Checks

section Session

def nvidiaSessionKeys : List String :=
  ["asr_automatic_punctuation", "asr_id", "asr_language_code", "asr_model", "asr_settings",
    "asr_speaker_diarization", "extra_params", "llm_id", "llm_settings", "llm_streaming",
    "model_id", "pipeline_mode", "prompt_key", "tts_id", "tts_language_code", "tts_model",
    "tts_settings", "tts_synthesis_mode"]

def nvidiaPublicKeys : List String := nvidiaSessionKeys ++ ["server_tools"]

def nvidiaPublicView (nvidia : Fields) : Fields := nvidia.filter (· ∈ nvidiaPublicKeys)

def defaultPromptKey : String := "generic_assistant_without_tools"

/-- `bool(value)` -/
def truthy : Option Json → Bool
  | none | some .null | some (.bool false) | some (.int 0) | some (.str "")
  | some (.arr .nil) | some (.obj .nil) => false
  | some (.float text) => text ∉ ["0.0", "-0.0"]
  | some _ => true

structure RealtimeSession where
  id : String
  defaultPipelineMode : String
  view : Fields
  flatConfig : Fields
  deriving DecidableEq

def pcmFormat : Json :=
  .obj (.cons "type" (.str "audio/pcm") (.cons "rate" (.int defaultClientPcmRate) .nil))

def serverVad : Json := .obj (.cons "type" (.str "server_vad") .nil)

def defaultAudio : Fields :=
  .cons "input" (.obj (.cons "format" pcmFormat (.cons "turn_detection" serverVad .nil)))
    (.cons "output" (.obj (.cons "format" pcmFormat (.cons "voice" (.str "") .nil))) .nil)

def defaultNvidia (defaultPipelineMode : String) : Fields :=
  .cons "pipeline_mode" (.str defaultPipelineMode)
    (.cons "prompt_key" (.str defaultPromptKey) .nil)

def RealtimeSession.fresh (id defaultPipelineMode : String) : RealtimeSession where
  id := id
  defaultPipelineMode := defaultPipelineMode
  view :=
    .cons "id" (.str id) (.cons "object" (.str "realtime.session")
      (.cons "type" (.str "realtime") (.cons "instructions" (.str "")
        (.cons "output_modalities" (.arr (.cons (.str "audio") .nil))
          (.cons "audio" (.obj defaultAudio) (.cons "tools" (.arr .nil)
            (.cons "tool_choice" (.str "auto")
              (.cons "nvidia" (.obj (defaultNvidia defaultPipelineMode)) .nil))))))))
  flatConfig := defaultNvidia defaultPipelineMode

def mergeSessionPatch (base patch : Fields) : Fields := patch.mergeInto base

/-- One field of an object in the view, whatever was there. -/
def setNested (view : Fields) (outer key : String) (value : Json) : Fields :=
  view.set outer (.obj ((objectOr (view.get? outer)).set key value))

def setIfPresent (f : Fields) (key : String) (value : Option Json) : Fields :=
  match value with
  | none => f
  | some value => f.set key value

def legacyAudioKeys : List String :=
  ["turn_detection", "input_audio_format", "output_audio_format", "input_audio_transcription"]

/-- The legacy fields of a patch replace the nested ones of the view. -/
def applyLegacyAudio (view patch : Fields) : Fields :=
  if legacyAudioKeys.any fun key => (patch.get? key).isSome then
    let audio := objectOr (view.get? "audio")
    let input := objectOr (audio.get? "input")
    let output := objectOr (audio.get? "output")
    let input := setIfPresent input "turn_detection" (patch.get? "turn_detection")
    let input := setIfPresent input "format" (patch.get? "input_audio_format")
    let output := setIfPresent output "format" (patch.get? "output_audio_format")
    let input := setIfPresent input "transcription" (patch.get? "input_audio_transcription")
    view.set "audio" (.obj ((audio.set "input" (.obj input)).set "output" (.obj output)))
  else view

/-- The voice of the view, in both of its places. -/
def setVoice (view : Fields) (voice : Json) : Fields :=
  let audio := objectOr (view.get? "audio")
  (setNested view "audio" "output" (.obj ((objectOr (audio.get? "output")).set "voice" voice))).set
    "voice" voice

def applyNvidia (s : RealtimeSession) (view patch sanitizedFlat : Fields) : Fields :=
  let nvidia := objectOr (view.get? "nvidia")
  let nvidia := match patch.get? "nvidia" with
    | some (.obj n) => mergeSessionPatch nvidia n
    | _ => nvidia
  let nvidia := nvidiaSessionKeys.foldl (fun n key =>
    match sanitizedFlat.get? key with
    | none | some .null | some (.str "") => n
    | some value => n.set key value) nvidia
  let nvidia := match sanitizedFlat.get? "server_tools" with
    | some (.arr tools) => nvidia.set "server_tools" (.arr tools)
    | _ => nvidia
  let nvidia := nvidiaPublicView nvidia
  let nvidia := if truthy (nvidia.get? "pipeline_mode") then nvidia
    else nvidia.set "pipeline_mode" (.str s.defaultPipelineMode)
  if truthy (nvidia.get? "prompt_key") then nvidia
  else
    let key := (sanitizedFlat.get? "prompt_key").getD .null
    nvidia.set "prompt_key" (if truthy (some key) then key else .str defaultPromptKey)

/-- `instructions` are never `null` in the view, and clients have no tools. -/
def applyAgentFields (view patch : Fields) : Fields :=
  let view := match patch.get? "instructions" with
    | none | some .null => view
    | some instructions =>
      view.set "instructions" (if truthy (some instructions) then instructions else .str "")
  if (patch.get? "tools").isSome then view.set "tools" (.arr .nil) else view

def RealtimeSession.applyUpdate (s : RealtimeSession) (patch sanitizedFlat : Fields) :
    RealtimeSession :=
  let view := mergeSessionPatch s.view (patch.filter (· ≠ "nvidia"))
  let view := applyLegacyAudio view patch
  let view := view.set "id" (.str s.id)
  let view := view.set "object" (.str "realtime.session")
  let view := view.set "type" (.str "realtime")
  let view := view.set "nvidia" (.obj (applyNvidia s view patch sanitizedFlat))
  let view := applyAgentFields view patch
  let view := match sanitizedFlat.get? "tts_voice_id" with
    | some voice => if truthy (some voice) then setVoice view voice else view
    | none => view
  { s with view := view, flatConfig := sanitizedFlat }

end Session

section Live

def liveSessionKeys : List String :=
  ["type", "model", "voice", "turn_detection", "input_audio_transcription", "audio",
    "input_audio_format", "output_audio_format"]

def liveAudioKeys : List String := ["input", "output"]

def liveAudioInputKeys : List String := ["format", "turn_detection", "transcription"]

def liveAudioOutputKeys : List String := ["format", "voice"]

def turnDetection (view : Fields) : Json :=
  match sub (sub (view.get? "audio") "input") "turn_detection" with
  | some value => value
  | none => (view.get? "turn_detection").getD .null

/-- The turn detection of a patch, at `path`, must be the one in use. -/
def unsupportedTurns (current : Fields) (path : String) : Option Json → List String
  | some value => if value.same (turnDetection current) then [] else [path]
  | none => []

def unsupportedNvidia (value : Json) (current : Fields) : List String :=
  match value with
  | .obj n => n.toList.flatMap fun (key, value) =>
    if key ∉ nvidiaSessionKeys then []
    else match (objectOr (current.get? "nvidia")).get? key with
      | some old => if value.same old then [] else ["nvidia." ++ key]
      | none => ["nvidia." ++ key]
  | _ => ["nvidia"]

def unsupportedField (current : Fields) (key : String) (value : Json) : List String :=
  if key ∈ liveSessionKeys then []
  else if key = "nvidia" then unsupportedNvidia value current
  else match current.get? key with
    | some old => if value.same old then [] else [key]
    | none => [key]

/-- The keys of an object that are not among those that can change. -/
def unknownKeys (value : Option Json) (known : List String) (path : String) : List String :=
  ((objectOr value).keys.filter (· ∉ known)).map (path ++ ·)

def unsupportedAudio (patch current : Fields) : List String :=
  let audio := patch.get? "audio"
  unknownKeys audio liveAudioKeys "audio." ++
    unknownKeys (sub audio "input") liveAudioInputKeys "audio.input." ++
    unsupportedTurns current "audio.input.turn_detection"
      (sub (sub audio "input") "turn_detection") ++
    unknownKeys (sub audio "output") liveAudioOutputKeys "audio.output."

def unsupportedLiveSessionFields (patch current : Fields) : List String :=
  (unsupportedTurns current "turn_detection" (patch.get? "turn_detection") ++
    patch.toList.flatMap (fun field => unsupportedField current field.1 field.2) ++
    unsupportedAudio patch current).eraseDups

/-- The fields of one side of the audio, when it is an object. -/
def liveSide (audio : Fields) (side : String) (known : List String) (out : Fields) : Fields :=
  let block := (objectOr (audio.get? side)).filter (fun key => key ∈ known ∧ key ≠ "turn_detection")
  if block = .nil then out else out.set side (.obj block)

def liveSessionPatch (patch : Fields) : Fields :=
  let out := patch.filter fun key => key ∈ liveSessionKeys ∧ key ∉ ["audio", "turn_detection"]
  match patch.get? "audio" with
  | some (.obj audio) =>
    let audioOut := liveSide audio "output" liveAudioOutputKeys
      (liveSide audio "input" liveAudioInputKeys .nil)
    if audioOut = .nil then out else out.set "audio" (.obj audioOut)
  | _ => out

/-- A legacy format of a patch becomes the nested one. -/
def nestFormat (key side : String) (patch : Fields) : Fields :=
  match patch.get? key with
  | none => patch
  | some fmt =>
    let audio := objectOr (patch.get? "audio")
    setNested (patch.filter (· ≠ key)) "audio" side
      (.obj ((objectOr (audio.get? side)).set "format" fmt))

def requestedVoice (patch : Fields) : String :=
  let voice := match patch.get? "voice" with
    | some (.str voice) => stripString voice
    | _ => ""
  match sub (sub (patch.get? "audio") "output") "voice" with
  | some (.str voice) => stripString voice
  | _ => voice

/-- `resolve_realtime_tts_voice(...) or voice`, for a voice that is asked for. -/
def resolvedVoice (resolve : String → String) (voice : String) : String :=
  if voice = "" then "" else if resolve voice = "" then voice else resolve voice

/-- The resolved voice, wherever the patch has one. -/
def resolveInPatch (voice : String) (patch : Fields) : Fields :=
  let patch := match patch.get? "voice" with
    | some (.str _) => patch.set "voice" (.str voice)
    | _ => patch
  match sub (patch.get? "audio") "output" with
  | some (.obj output) =>
    if (output.get? "voice").isSome then
      setNested patch "audio" "output" (.obj (output.set "voice" (.str voice)))
    else patch
  | _ => patch

structure Serializer where
  view : Fields
  runtimeConfig : Fields
  deriving DecidableEq

def Serializer.clientInRate (s : Serializer) : ℤ := extractClientPcmRate s.view

def Serializer.clientOutRate (s : Serializer) : ℤ := extractClientOutputPcmRate s.view

/-- The accepted part of `_deserialize_session_update`, with the voice for the TTS. -/
def Serializer.applyLive (resolve : String → String) (s : Serializer) (patch : Fields) :
    Serializer × Option String :=
  let patch := nestFormat "output_audio_format" "output"
    (nestFormat "input_audio_format" "input" (liveSessionPatch patch))
  let voice := resolvedVoice resolve (requestedVoice patch)
  let patch := if voice = "" then patch else resolveInPatch voice patch
  let runtimeConfig := if voice = "" then s.runtimeConfig
    else s.runtimeConfig.set "tts_voice_id" (.str voice)
  let view := mergeSessionPatch s.view patch
  let view := if voice = "" then view else setVoice view (.str voice)
  let view := match view.get? "nvidia" with
    | some (.obj nvidia) => view.set "nvidia" (.obj (nvidiaPublicView nvidia))
    | _ => view
  ({ view := view, runtimeConfig := runtimeConfig }, if voice = "" then none else some voice)

def Serializer.deserializeSessionUpdate (resolve : String → String) (s : Serializer)
    (patch : Fields) : Except Invalid (Serializer × Option String) := do
  validateSessionAudioConfig patch
  validateInputTranscription patch
  validateServerVad patch
  let unsupported := unsupportedLiveSessionFields patch s.view
  if unsupported ≠ [] then .error (.unsupportedLive unsupported)
  else .ok (s.applyLive resolve patch)

end Live

end VoiceAgent.SessionView
