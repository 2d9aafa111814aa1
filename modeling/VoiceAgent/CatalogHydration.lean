import VoiceAgent.ServiceSettings

/-!
The configuration of a session from a request body. `filter_session_config` keeps the keys of the
active slots, and for each slot whose id is in the catalog the details come from its entry. A
configuration is a table of fields by key; the catalogs, Python's `str` and the `json` module are
parameters.
-/
namespace VoiceAgent.CatalogHydration

open JsonValues SessionView ServiceSettings

section Slots

/-- A row of `_CATALOG_HYDRATION`; an empty field is one that the slot does not have. -/
structure Slot where
  idField : String
  category : String
  fieldMap : List (String × String)
  settingsField : String
  streamingField : String
  deriving DecidableEq

def catalogHydration : List Slot :=
  [{ idField := "llm_id"
     category := "llm"
     fieldMap := [("model_id", "model_id"), ("base_url", "base_url"),
      ("system_prompt", "system_prompt"), ("max_tokens", "max_tokens"),
      ("temperature", "temperature"), ("extra_params", "extra_params")]
     settingsField := "llm_settings"
     streamingField := "llm_streaming" },
   { idField := "thinker_llm_id"
     category := "thinker-llm"
     fieldMap := [("model_id", "thinker_model_id"), ("base_url", "thinker_base_url"),
      ("max_tokens", "thinker_max_tokens"), ("extra_params", "thinker_extra_params")]
     settingsField := "thinker_llm_settings"
     streamingField := "" },
   { idField := "asr_id"
     category := "asr"
     fieldMap := [("server", "asr_server"), ("model", "asr_model"),
      ("function_id", "asr_function_id"), ("language_code", "asr_language_code"),
      ("automatic_punctuation", "asr_automatic_punctuation"),
      ("speaker_diarization_supported", "asr_speaker_diarization_supported"),
      ("speaker_diarization_max_speakers", "asr_speaker_diarization_max_speakers")]
     settingsField := "asr_settings"
     streamingField := "" },
   { idField := "tts_id"
     category := "tts"
     fieldMap := [("server", "tts_server"), ("function_id", "tts_function_id"),
      ("model", "tts_model"), ("voice_id", "tts_voice_id"),
      ("synthesis_mode", "tts_synthesis_mode"), ("language_code", "tts_language_code"),
      ("zero_shot_audio_prompt_file", "tts_zero_shot_audio_prompt_file")]
     settingsField := "tts_settings"
     streamingField := "" }]

def Slot.bodyFields (slot : Slot) : List String := slot.fieldMap.map Prod.snd

def slotAgnosticKeys : List String :=
  ["pipeline_mode", "prompt_key", "prompt_content", "tool_choice"]

def catalogOnlyBodyFields : List String :=
  ["tts_zero_shot_audio_prompt_file", "asr_speaker_diarization_supported",
    "asr_speaker_diarization_max_speakers"]

def slotRequestFields (category : String) : List String :=
  if category = "asr" then ["asr_speaker_diarization"] else []

/-- The keys that a request may set for a slot. -/
def Slot.configKeys (slot : Slot) : List String :=
  ((slot.idField :: slot.bodyFields ++ [slot.settingsField, slot.streamingField]).filter
    fun key => key ≠ "" ∧ key ∉ catalogOnlyBodyFields) ++ slotRequestFields slot.category

def sessionConfigKeys : List String :=
  slotAgnosticKeys ++ catalogHydration.flatMap Slot.configKeys

def clientOverridableBodyFields : List String :=
  ["asr_language_code", "tts_language_code", "tts_voice_id", "max_tokens", "temperature"]

end Slots

section Server

/-- An entry of the catalog, with its settings where they have been attached. -/
structure Entry where
  fields : Fields
  settings : Option Schema

/-- What the server brings: the catalogs by source and merged, the slots and the capabilities of
the example, and the functions of Python that are used. -/
structure Server where
  floats : Floats
  str : Json → String
  lower : String → String
  dumps : Json → String
  compactDumps : Json → String
  loads : String → Option Json
  bySource : String → String → String → Option Entry
  effective : String → String → Option Entry
  services : Option (List String)
  streamingInput : Bool

/-- A configuration: the value of each key that it has. -/
abbrev Config := String → Option Json

def Config.set (config : Config) (key : String) (value : Json) : Config :=
  fun k => if k = key then some value else config k

def Config.pop (config : Config) (key : String) : Config :=
  fun k => if k = key then none else config k

variable (S : Server)

/-- The text before the first colon and the one after it. -/
def splitColon (id : String) : Option (String × String) :=
  if ':' ∈ id.toList then
    some (String.ofList (id.toList.takeWhile (· ≠ ':')),
      String.ofList ((id.toList.dropWhile (· ≠ ':')).drop 1))
  else none

def Entry.isEmpty (entry : Entry) : Bool :=
  decide (entry.fields = .nil) && entry.settings.isNone

/-- An entry without a field counts as none. -/
def loadServiceEntryById (category id : String) : Option Entry :=
  if id = "" ∨ "custom-".toList.isPrefixOf id.toList then none
  else
    let entry := match splitColon id with
      | some (source, key) => S.bySource source category key
      | none => S.effective category id
    entry.filter fun entry => !entry.isEmpty

def parseJsonDict (raw : Option Json) : Fields :=
  match raw with
  | some (.obj fields) => fields
  | some (.str text) => if text = "" then .nil else objectOr (S.loads text)
  | _ => .nil

end Server

section Hydration
variable (S : Server)

/-- `value in ("", None)` -/
def isBlank : Json → Bool
  | .null | .str "" => true
  | _ => false

/-- What a client may put in the place of a value of the catalog. -/
def userValue (raw : Option Json) : String :=
  match raw with
  | none | some (.bool _) | some (.obj _) | some (.arr _) => ""
  | some raw => if isBlank raw then "" else stripString (S.str raw)

/-- A field as the entry has it. -/
def setFromEntry (entry : Entry) (config : Config) (yamlField bodyField : String) : Config :=
  match entry.fields.get? yamlField with
  | none | some .null | some (.str "") => config.pop bodyField
  | some (.str text) => config.set bodyField (.str text)
  | some (.obj f) => config.set bodyField (.str (S.dumps (.obj f)))
  | some (.arr xs) => config.set bodyField (.str (S.dumps (.arr xs)))
  | some value => config.set bodyField (.str (S.str value))

def hydrateField (entry : Entry) (config : Config) (field : String × String) : Config :=
  if field.2 ∈ clientOverridableBodyFields ∧ userValue S (config field.2) ≠ "" then
    config.set field.2 (.str (userValue S (config field.2)))
  else setFromEntry S entry config field.1 field.2

/-- The settings of a slot without extra parameters: each is a field of its own. -/
def setFromSetting (fieldMap : List (String × String)) (applied : Fields) (config : Config)
    (setting : String × Setting) : Except Raised Config :=
  match fieldMap.lookup setting.2.path with
  | none => .error .keyError
  | some field =>
    match getPath (splitPath setting.2.path) applied with
    | none => .ok (config.pop field)
    | some value => .ok (config.set field (.str (S.str value)))

def hydrateSettings (slot : Slot) (schema : Schema) (userSettings : Option Json)
    (config : Config) : Except Raised Config :=
  let userValues := parseJsonDict S userSettings
  match slot.fieldMap.lookup "extra_params" with
  | some extraField => do
    let extra ← applyServiceSettings S.floats (parseJsonDict S (config extraField)) schema
      userValues
    return if extra = .nil then config
      else config.set extraField (.str (S.compactDumps (.obj extra)))
  | none => do
    let applied ← applyServiceSettings S.floats .nil schema userValues
    schema.foldlM (setFromSetting S slot.fieldMap applied) config

/-- The settings that have been attached to an entry. -/
def hydrateAttached (slot : Slot) (entry : Entry) (userSettings : Option Json)
    (config : Config) : Except Raised Config :=
  match entry.settings with
  | some schema =>
    if slot.settingsField = "" then .ok config
    else hydrateSettings S slot schema userSettings config
  | none => .ok config

def streamingRequested (raw : Option Json) : Bool :=
  (match raw with
    | some (.bool b) => b
    | some (.str text) => decide (S.lower (stripString text) = "true")
    | _ => false) && S.streamingInput

def hydrateStreaming (slot : Slot) (entry : Entry) (userStreaming : Option Json)
    (config : Config) : Except Raised Config :=
  let url := entry.fields.get? "streaming_url"
  if streamingRequested S userStreaming && truthy url then
    match slot.fieldMap.lookup "base_url" with
    | none => .error .keyError
    | some field => .ok (config.set field (url.getD .null))
  else .ok config

/-- The text of an id; ids have been checked to be texts. -/
def idText : Option Json → String
  | some (.str id) => id
  | _ => ""

def popField (config : Config) (key : String) : Config :=
  if key = "" then config else config.pop key

def readField (config : Config) (key : String) : Option Json :=
  if key = "" then none else config key

/-- One round of `hydrate_config_from_catalog`. -/
def hydrateSlot (config : Config) (slot : Slot) : Except Raised Config :=
  let userSettings := readField config slot.settingsField
  let config := popField config slot.settingsField
  let userStreaming := readField config slot.streamingField
  let config := popField config slot.streamingField
  match loadServiceEntryById S slot.category (idText (config slot.idField)) with
  | none => .ok config
  | some entry => do
    let config := slot.fieldMap.foldl (hydrateField S entry) config
    let config ← hydrateAttached S slot entry userSettings config
    hydrateStreaming S slot entry userStreaming config

def hydrateConfigFromCatalog (config : Config) : Except Raised Config :=
  catalogHydration.foldlM (hydrateSlot S) config

def isActive (slot : Slot) : Bool :=
  match S.services with
  | none => true
  | some services => decide (slot.category ∈ services)

def allowedKeys : List String :=
  match S.services with
  | none => sessionConfigKeys
  | some services => slotAgnosticKeys ++
    services.flatMap fun service =>
      (catalogHydration.filter fun slot => slot.category = service).flatMap Slot.configKeys

def keptKeys (data : Config) : Config := fun key =>
  if key ∈ sessionConfigKeys ∧ key ∈ allowedKeys S then
    (data key).bind fun value => if isBlank value then none else some value
  else none

/-- `requested is True`, or a text of "true". -/
def diarizationText (requested : Json) : String :=
  match requested with
  | .bool true => "true"
  | .str text => if S.lower (stripString text) = "true" then "true" else "false"
  | _ => "false"

def cleanDiarization (config : Config) : Config :=
  match config "asr_speaker_diarization" with
  | none => config
  | some requested => config.set "asr_speaker_diarization" (.str (diarizationText S requested))

def cleanLanguage (config : Config) : Config :=
  match config "tts_language_code" with
  | none | some .null => config
  | some (.str text) =>
    if stripString text = "" then config.pop "tts_language_code"
    else config.set "tts_language_code" (.str (stripString text))
  | some _ => config.pop "tts_language_code"

/-- A selection id is a text, where there is one. -/
def idIsText (data : Config) (slot : Slot) : Bool :=
  match data slot.idField with
  | none | some .null | some (.str _) => true
  | some _ => false

def filterSessionConfig (data : Config) : Except Raised Config :=
  if catalogHydration.all (idIsText data) then
    let filtered := (keptKeys S data).pop "tts_zero_shot_audio_prompt_file"
    hydrateConfigFromCatalog S (cleanLanguage (cleanDiarization S filtered))
  else .error .valueError

end Hydration

end VoiceAgent.CatalogHydration
