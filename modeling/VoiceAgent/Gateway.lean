import VoiceAgent.SessionView

/-!
The gateway of the realtime protocol. Until a `session.update` is accepted it maps each patch
to a flat configuration, has it sanitized, resolves the voice and publishes the session; from
then on the serializer of the pipeline answers. What the gateway is handed by the server
(the sanitizer, the tools of a prompt, the readiness check) is a parameter, as are the catalogs
of voices and Python's conversions of numbers and to text.
-/
namespace VoiceAgent.Gateway

open JsonValues SessionView

/-- An exception: a `ValueError` with its reason, or any other. -/
inductive Raised
  | value (why : Invalid)
  | refused (why : String)
  | other
  deriving DecidableEq

/-- `int(value)` and `float(value)`: a number, a `TypeError` or `ValueError`, or an
`OverflowError`. -/
inductive Converted (α : Type)
  | number (value : α)
  | refused
  | overflow

structure Server where
  str : Json → String
  lower : String → String
  upper : String → String
  int : Json → Converted ℤ
  float : Json → Converted String
  isInteger : String → Bool
  negative : String → Bool
  defaultTts : Fields
  ttsConfig : String → String → String → String → Fields
  defaultPipelineMode : String
  sanitize : Fields → Except Raised Fields
  serverTools : Option (Fields → Except Raised Json)
  ready : Option (Fields → Except String Unit)
  startsBot : Bool
  maxRejected : ℕ

variable (S : Server)

section Mapping

def isBlank : Json → Bool
  | .null | .str "" => true
  | _ => false

def mapMaxOutputTokens (raw : Json) : Except Raised (Option ℤ) :=
  let invalid := .error (.value (.limit "session.max_output_tokens"))
  let atLeastOne := match S.int raw with
    | .number n => if n < 1 then invalid else .ok (some n)
    | .refused => invalid
    | .overflow => .error .other
  if isBlank raw then .ok none
  else match raw with
    | .bool _ => invalid
    | .str text =>
      if S.lower (stripString text) ∈ ["inf", "infinite", "null"] then .ok none else atLeastOne
    | .float text => if S.isInteger text then atLeastOne else invalid
    | _ => atLeastOne

def mapTemperature (raw : Json) : Except Raised (Option String) :=
  let invalid := .error (.value (.limit "session.temperature"))
  if isBlank raw then .ok none
  else match raw with
    | .bool _ => invalid
    | _ => match S.float raw with
      | .number x => if S.negative x then invalid else .ok (some x)
      | .refused => invalid
      | .overflow => .error .other

def toolFunction (name : String) : Json :=
  .obj (.cons "type" (.str "function")
    (.cons "function" (.obj (.cons "name" (.str name) .nil)) .nil))

/-- A null comes out of this only for a blank string. -/
def mapToolChoice (raw : Json) : Except Raised Json :=
  match raw with
  | .null | .str "" => .ok .null
  | .str text =>
    if stripString text ∈ ["auto", "none", "required"] then .ok (.str (stripString text))
    else .error (.value .toolChoice)
  | .obj f =>
    let name := match sub (f.get? "function") "name" with
      | some (.str name) => stripString name
      | _ => match f.get? "name" with
        | some (.str name) => stripString name
        | _ => ""
    if f.get? "type" = some (.str "function") ∧ name ≠ "" then .ok (toolFunction name)
    else .error (.value .toolChoice)
  | _ => .error (.value .toolChoice)

def check (c : Except Invalid Unit) : Except Raised Unit :=
  match c with
  | .ok () => .ok ()
  | .error why => .error (.value why)

/-- The fields of `session.nvidia` that the gateway knows. -/
def flatNvidia (nvidia : Option Json) : Fields :=
  ((objectOr nvidia).filter (· ∈ nvidiaSessionKeys)).toList.foldl (fun flat (key, value) =>
    if isBlank value then flat else flat.set key value) .nil

/-- The voice a patch asks for; a nested one goes before the legacy one, if it is not blank. -/
def askedVoice (patch : Fields) : Except Raised String := do
  let voice ← match patch.get? "voice" with
    | none | some .null => .ok ""
    | some (.str voice) => .ok (stripString voice)
    | some _ => .error (.value (.notString "session.voice"))
  match sub (sub (patch.get? "audio") "output") "voice" with
  | none | some .null => .ok voice
  | some (.str nested) => .ok (if stripString nested = "" then voice else stripString nested)
  | some _ => .error (.value (.notString "session.audio.output.voice"))

/-- The text of a field, stripped; empty where it is no string. -/
def strippedField (value : Option Json) : String :=
  match value with
  | some (.str text) => stripString text
  | _ => ""

def setText (flat : Fields) (key text : String) : Fields :=
  if text = "" then flat else flat.set key (.str text)

def tokenField (patch : Fields) : Json :=
  match patch.get? "max_output_tokens" with
  | some raw => raw
  | none => (patch.get? "max_response_output_tokens").getD .null

def mapSessionUpdateToFlatConfig (patch : Fields) : Except Raised Fields := do
  check (validateModalitiesField (patch.get? "output_modalities") "session.output_modalities")
  check (validateModalitiesField (patch.get? "modalities") "session.modalities")
  check (validateInputTranscription patch)
  check (validateServerVad patch)
  check (validateSessionAudioConfig patch)
  let flat := flatNvidia (patch.get? "nvidia")
  let flat := setText flat "prompt_content" (strippedField (patch.get? "instructions"))
  let voice ← askedVoice patch
  let flat := setText flat "tts_voice_id" voice
  let flat := setText flat "prompt_key" (strippedField (sub (patch.get? "prompt") "id"))
  let tokens ← mapMaxOutputTokens S (tokenField patch)
  let flat := setIfPresent flat "max_tokens" (tokens.map .int)
  let temperature ← mapTemperature S ((patch.get? "temperature").getD .null)
  let flat := setIfPresent flat "temperature" (temperature.map .float)
  let flat ← match patch.get? "tool_choice" with
    | none | some .null => .ok flat
    | some raw => (mapToolChoice raw).map fun choice => flat.set "tool_choice" choice
  let flat := if truthy (flat.get? "pipeline_mode") then flat
    else flat.set "pipeline_mode" (.str S.defaultPipelineMode)
  .ok (if truthy (flat.get? "prompt_key") ∨ truthy (flat.get? "prompt_content") then flat
    else flat.set "prompt_key" (.str defaultPromptKey))

end Mapping

section Voices

def Server.textOr (value : Option Json) : String :=
  if truthy value then S.str (value.getD .null) else ""

/-- A field of the configuration, or of the default service. -/
def Server.textOf (config : Fields) (key default : String) : String :=
  if truthy (config.get? key) then S.textOr (config.get? key)
  else S.textOr (S.defaultTts.get? default)

def voiceIds (ttsConfig : Fields) : List String :=
  let entries := match ttsConfig.get? "voices" with
    | some (.arr items) => items.toList
    | _ => []
  (entries.filterMap fun entry => match entry with
    | .obj f => some (stripString (S.textOr (f.get? "id")))
    | _ => none).filter (· ≠ "")

def englishMark : List Char := "EN-US".toList

def pickDefaultVoice (ttsConfig : Fields) (catalogDefault : String) : String :=
  let voices := voiceIds S ttsConfig
  let defaultVoice := stripString (S.textOr (ttsConfig.get? "defaultVoiceId"))
  if catalogDefault ≠ "" ∧ catalogDefault ∈ voices then catalogDefault
  else if defaultVoice ≠ "" ∧ defaultVoice ∈ voices then defaultVoice
  else match voices.find? fun voice => (S.upper voice).toList.tails.any englishMark.isPrefixOf with
    | some voice => voice
    | none => match voices with
      | voice :: _ => voice
      | [] => if catalogDefault ≠ "" then catalogDefault else defaultVoice

def firstText (a b : String) : String := if a ≠ "" then a else b

/-- The voice that is resolved, and the configuration with it. -/
def resolveRealtimeTtsVoice (config : Fields) (voiceWasSet routingChanged : Bool) :
    Option String × Fields :=
  if voiceWasSet = false ∧ routingChanged = false then (none, config)
  else
    let catalogDefault := stripString (S.textOr (S.defaultTts.get? "voice_id"))
    let server := S.textOf config "tts_server" "server"
    let currentVoice := S.textOf config "tts_voice_id" "voice_id"
    let functionId := S.textOf config "tts_function_id" "function_id"
    let model := S.textOf config "tts_model" "model"
    let requested :=
      if voiceWasSet then stripString (S.textOr (config.get? "tts_voice_id")) else currentVoice
    let resolved :=
      if server = "" then firstText requested catalogDefault
      else
        let listVoice :=
          firstText catalogDefault (firstText requested (firstText currentVoice "default"))
        let ttsConfig := S.ttsConfig server listVoice functionId model
        let voices := voiceIds S ttsConfig
        let fallback := pickDefaultVoice S ttsConfig catalogDefault
        if voices = [] then firstText fallback (firstText catalogDefault requested)
        else if requested ≠ "" ∧ requested ∈ voices then requested
        -- a catalog with voices has a fallback
        else fallback
    if resolved = "" then (none, config)
    else (some resolved, config.set "tts_voice_id" (.str resolved))

def ttsRoutingKeys : List String := ["tts_id", "tts_server", "tts_model", "tts_function_id"]

def ttsRoutingChanged (previous current : Fields) : Bool :=
  ttsRoutingKeys.any fun key => S.textOr (previous.get? key) ≠ S.textOr (current.get? key)

end Voices

section Updates

/-- A message of type `session.update`. -/
structure Update where
  eventId : Option Json
  session : Option Json

/-- What a client is answered. -/
inductive Answer
  | invalid (why : Invalid)
  | refused (why : String)
  | noSession
  | updateFailed
  | notReady (why : String)
  | updated (session : Fields)
  deriving DecidableEq

def Answer.session : Answer → Option Fields
  | .updated session => some session
  | _ => none

/-- An answer echoes the id of the event, and may carry a voice for the TTS service. -/
structure Reply where
  echo : Option String
  answer : Answer
  voice : Option String
  deriving DecidableEq

/-- `{**base, **patch}` -/
def override (base patch : Fields) : Fields :=
  patch.toList.foldl (fun out (key, value) => out.set key value) base

/-- The fields that `sanitize` need not keep. -/
def reinstate (flat sanitized : Fields) : Fields :=
  ["tool_choice", "temperature", "max_tokens"].foldl (fun out key =>
    setIfPresent out key (flat.get? key)) sanitized

/-- The server, with a resolution of voices that may raise. -/
structure Callbacks extends Server where
  resolveVoice : Fields → Bool → Bool → Except Raised (Option String × Fields)

/-- The voices of the server are resolved against its catalogs. -/
def Server.callbacks : Callbacks where
  toServer := S
  resolveVoice config voiceWasSet routingChanged :=
    .ok (resolveRealtimeTtsVoice S config voiceWasSet routingChanged)

/-- The guarded part of `_handle_session_update`. -/
def sanitizedUpdate (C : Callbacks) (flatConfig patch : Fields) : Except Raised Fields := do
  let flat ← mapSessionUpdateToFlatConfig C.toServer patch
  let sanitized ← C.sanitize (override flatConfig flat)
  let sanitized := reinstate flat sanitized
  let sanitized ← match C.serverTools with
    | none => .ok sanitized
    | some serverTools =>
      (serverTools sanitized).map fun tools => sanitized.set "server_tools" tools
  let routingChanged := ttsRoutingChanged C.toServer flatConfig sanitized
  let resolved ← C.resolveVoice sanitized (flat.get? "tts_voice_id").isSome routingChanged
  .ok resolved.2

/-- `_handle_session_update`; the configuration is that of the pipeline that is started. -/
def handleUpdate (C : Callbacks) (s : RealtimeSession) (session : Option Json) :
    RealtimeSession × Answer × Option Fields :=
  match session with
  | some (.obj patch) =>
    match sanitizedUpdate C s.flatConfig patch with
    | .error (.value why) => (s, .invalid why, none)
    | .error (.refused why) => (s, .refused why, none)
    | .error .other => (s, .updateFailed, none)
    | .ok sanitized =>
      match C.ready.map (· sanitized) with
      | some (Except.error why) => (s, .notReady why, none)
      | _ =>
        let s := s.applyUpdate patch sanitized
        (s, .updated s.view, if C.startsBot then some sanitized else none)
  | _ => (s, .noSession, none)

def handleSessionUpdate (s : RealtimeSession) (session : Option Json) :
    RealtimeSession × Answer × Option Fields :=
  handleUpdate S.callbacks s session

/-- The configuration that the bot is started with. -/
def runnerBody (sanitized view : Fields) (id : String) : Fields :=
  ((sanitized.set "protocol" (.str "realtime")).set "realtime_session_view" (.obj view)).set
    "session_id" (.str id)

/-- The serializer resolves a voice against the service it runs with. -/
def liveVoice (runtimeConfig : Fields) (voice : String) : String :=
  let field key := (runtimeConfig.get? key).getD (.str "")
  let config := (((Fields.nil.set "tts_voice_id" (.str voice)).set "tts_server"
    (field "tts_server")).set "tts_function_id" (field "tts_function_id")).set "tts_model"
      (field "tts_model")
  (resolveRealtimeTtsVoice S config true false).1.getD ""

/-- `_deserialize_session_update`. -/
def liveSessionUpdate (s : Serializer) (session : Option Json) :
    Serializer × Answer × Option String :=
  match session with
  | some (.obj patch) =>
    match s.deserializeSessionUpdate (liveVoice S s.runtimeConfig) patch with
    | .error why => (s, .invalid why, none)
    | .ok (s, voice) => (s, .updated s.view, voice)
  | _ => (s, .noSession, none)

/-- One connection; `failedUpdates` counts the updates that started nothing. -/
inductive Connection
  | opening (session : RealtimeSession) (failedUpdates : ℕ)
  | live (serializer : Serializer)
  | closed
  deriving DecidableEq

def Connection.view : Connection → Option Fields
  | .opening s _ => some s.view
  | .live s => some s.view
  | .closed => none

def receive (c : Connection) (u : Update) : Connection × Option Reply :=
  let echo := match u.eventId with
    | some (.str id) => some id
    | _ => none
  match c with
  | .opening s failed =>
    let (s, answer, started) := handleSessionUpdate S s u.session
    let next := match started with
      | some sanitized =>
        .live { view := s.view, runtimeConfig := runnerBody sanitized s.view s.id }
      | none => if S.maxRejected ≤ failed + 1 then .closed else .opening s (failed + 1)
    (next, some { echo := echo, answer := answer, voice := none })
  | .live serializer =>
    let (serializer, answer, voice) := liveSessionUpdate S serializer u.session
    (.live serializer, some { echo := echo, answer := answer, voice := voice })
  | .closed => (.closed, none)

/-- The sessions that a step leaves and publishes. -/
def shown (step : Connection × Option Reply) : List Fields :=
  step.1.view.toList ++ (step.2.bind (·.answer.session)).toList

/-- What a connection goes through: the state after each message, and what is answered. The
server may be another one at each message. -/
def trace (c : Connection) : List (Server × Update) → List (Connection × Option Reply)
  | [] => []
  | (S, u) :: rest => receive S c u :: trace (receive S c u).1 rest

end Updates

section Handling

/-- The patch of an update, and the configuration that it is applied with. -/
def Applies (C : Callbacks) (s : RealtimeSession) (session : Option Json)
    (patch sanitized : Fields) : Prop :=
  session = some (.obj patch) ∧ sanitizedUpdate C s.flatConfig patch = .ok sanitized ∧
    ∀ why, C.ready.map (· sanitized) ≠ some (.error why)

/-- An update is applied and answered with the session it makes, or it is refused, and then the
session stays as it was. -/
theorem handleUpdate_cases (C : Callbacks) (s : RealtimeSession) (session : Option Json) :
    (∃ patch sanitized, Applies C s session patch sanitized ∧
      handleUpdate C s session = (s.applyUpdate patch sanitized,
        .updated (s.applyUpdate patch sanitized).view,
        if C.startsBot then some sanitized else none)) ∨
      ((∀ patch sanitized, ¬ Applies C s session patch sanitized) ∧
        ∃ answer : Answer, answer.session = none ∧
          handleUpdate C s session = (s, answer, none)) := by
  have hobject : (∀ patch, session ≠ some (.obj patch)) →
      ∀ patch sanitized, ¬ Applies C s session patch sanitized :=
    fun hnot patch _ happlies => hnot patch happlies.1
  cases session with
  | none => exact .inr ⟨hobject nofun, _, rfl, rfl⟩
  | some json =>
    cases json with
    | obj patch =>
      unfold handleUpdate
      dsimp only
      cases hsanitized : sanitizedUpdate C s.flatConfig patch with
      | error why =>
        refine .inr ⟨?_, ?_⟩
        · rintro _ _ ⟨hpatch, hok, -⟩
          cases hpatch
          rw [hsanitized] at hok
          cases hok
        · cases why <;> exact ⟨_, rfl, rfl⟩
      | ok sanitized =>
        dsimp only
        cases hready : C.ready.map (· sanitized) with
        | none =>
          refine .inl ⟨patch, sanitized, ⟨rfl, hsanitized, fun why hwhy => ?_⟩, rfl⟩
          rw [hready] at hwhy
          cases hwhy
        | some ready =>
          cases ready with
          | error why =>
            refine .inr ⟨?_, _, rfl, rfl⟩
            rintro _ _ ⟨hpatch, hok, hsound⟩
            cases hpatch
            cases hsanitized.symm.trans hok
            exact hsound why hready
          | ok u =>
            refine .inl ⟨patch, sanitized, ⟨rfl, hsanitized, fun why hwhy => ?_⟩, rfl⟩
            rw [hready] at hwhy
            cases hwhy
    | _ => exact .inr ⟨hobject nofun, _, rfl, rfl⟩

/-- An update that is not answered with the session it made leaves the session as it was. -/
theorem handleUpdate_session {C : Callbacks} {s : RealtimeSession} {session : Option Json}
    (h : (handleUpdate C s session).2.1.session = none) :
    (handleUpdate C s session).1 = s := by
  rcases handleUpdate_cases C s session with
    ⟨patch, sanitized, -, heq⟩ | ⟨-, answer, -, heq⟩
  · rw [heq] at h
    cases h
  · rw [heq]

end Handling

end VoiceAgent.Gateway
