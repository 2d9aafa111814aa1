import VoiceAgent.JsonValues
import VoiceAgent.StreamingEvents
import Mathlib.Data.Char
import Mathlib.Data.List.Lex
import Mathlib.Data.List.Sort

/-!
The catalog of a TTS server: `_parse_tts_config` reads languages and voices out of the
synthesis configuration, and `get_tts_config` and `prewarm_tts` keep what was read for the next
call. A voice is named after the prefix of the voice id of the call that fetched the catalog.
-/
namespace VoiceAgent.TtsCatalog

open JsonValues
open StreamingEvents (Text strip)

inductive Loaded
  | value (json : Json)
  | malformed
  | raised (message : Text)

/-- The functions of Python that are used. -/
structure Python where
  lower : Text → Text
  upper : Text → Text
  str : Json → Text
  loads : Text → Loaded

section Names
variable (P : Python)

def normalizeLangCode (code : Text) : Text :=
  match code.splitOn '-' with
  | [language, region] => P.lower language ++ '-' :: P.upper region
  | _ => code

def parseLanguageCodesParam (raw : Text) : List Text :=
  if raw = [] ∨ P.lower (strip raw) = "auto".toList then []
  else (((raw.splitOn ',').map strip).filter (· ≠ [])).map (normalizeLangCode P)

/-- `rsplit(".", 1)[-1]` -/
def afterLastDot (text : Text) : Text := (text.reverse.takeWhile (· ≠ '.')).reverse

def beforeDot (text : Text) : Text := text.takeWhile (· ≠ '.')

/-- The voice id of a listed token, and the name that is shown. -/
def voiceDisplayId (rawId modelPrefix : Text) : Text × Text :=
  let token := strip rawId
  if token = [] then ([], [])
  else if modelPrefix ≠ [] ∧ (P.lower modelPrefix ++ ['.']).isPrefixOf (P.lower token) then
    let name := token.drop (modelPrefix.length + 1)
    if '.' ∈ name then (token, afterLastDot name) else (name, name)
  else if '.' ∈ token ∧ P.lower (beforeDot token) ∈ ["magpietts".toList, "magpie".toList] then
    (afterLastDot token, afterLastDot token)
  else (token, afterLastDot token)

/-- `f"{prefix}.{short_id}" if prefix else short_id` -/
def fullId (modelPrefix shortId : Text) : Text :=
  if modelPrefix = [] then shortId else modelPrefix ++ '.' :: shortId

end Names

section Listing
variable (P : Python)

structure Voice where
  id : Text
  name : Text
  language : Text
  deriving DecidableEq

structure Listing where
  languages : List Text := []
  seenLangs : List Text := []
  voices : List Voice := []
  seen : List Text := []

def Listing.addLanguage (l : Listing) (code : Text) : Listing :=
  let normalized := normalizeLangCode P code
  let key := P.lower normalized
  if key ∈ l.seenLangs then l
  else
    { l with
      languages := l.languages ++ [normalized]
      seenLangs := key :: l.seenLangs }

def Listing.addVoice (l : Listing) (voiceId name language : Text) : Listing :=
  let lang := normalizeLangCode P language
  let key := voiceId ++ '|' :: lang
  if voiceId = [] ∨ key ∈ l.seen then l
  else
    { l with
      voices := l.voices ++ [⟨voiceId, name, lang⟩]
      seen := key :: l.seen }

/-- The listing within the loop over one model configuration, with the languages of that one. -/
structure Scan where
  listing : Listing
  configLanguages : List Text := []
  configSeenLangs : List Text := []

def Scan.addConfigLanguage (s : Scan) (code : Text) : Scan :=
  let normalized := normalizeLangCode P code
  let key := P.lower normalized
  let listing := s.listing.addLanguage P code
  if key ∈ s.configSeenLangs then { s with listing := listing }
  else
    { s with
      listing := listing
      configLanguages := s.configLanguages ++ [normalized]
      configSeenLangs := key :: s.configSeenLangs }

def Scan.addVoice (s : Scan) (voice : Text × Text) (language : Text) : Scan :=
  { s with listing := s.listing.addVoice P voice.1 voice.2 language }

/-- A voice of every language of the model configuration. -/
def Scan.addShared (s : Scan) (voice : Text × Text) : Scan :=
  let locales := if s.configLanguages = [] then ["en-US".toList] else s.configLanguages
  locales.foldl (fun s lang => s.addVoice P voice lang) s

end Listing

section Parsing
variable (P : Python)

/-- The parameters of a model configuration that are read; one that is missing is empty. -/
structure Parameters where
  languageCode : Text := []
  voiceName : Text := []
  voicesByLanguage : Text := []
  subvoices : Text := []
  voices : Text := []

def strOf : Json → Text
  | .str s => s.toList
  | value => P.str value

/-- A loop over a value, `str` of each element; the text is that of the `TypeError`. -/
def elements : Json → Except Text (List Text)
  | .arr items => .ok (items.toList.map (strOf P))
  | .str s => .ok (s.toList.map fun c => [c])
  | .obj fields => .ok (fields.keys.map String.toList)
  | .null => .error "'NoneType' object is not iterable".toList
  | .bool _ => .error "'bool' object is not iterable".toList
  | .int _ => .error "'int' object is not iterable".toList
  | .float _ => .error "'float' object is not iterable".toList

def payloadVoices : Json → Except Text (List Text)
  | .obj payload =>
    match payload.get? "voices" with
    | some voices => elements P voices
    | none => .ok []
  | _ => .ok []

/-- The items of `voices_by_language`, none of a value that is no object. -/
def Parameters.catalog (params : Parameters) : Except Text (List (String × Json)) :=
  if params.voicesByLanguage = [] then .ok []
  else
    match P.loads params.voicesByLanguage with
    | .value (.obj catalog) => .ok catalog.toList
    | .value _ | .malformed => .ok []
    | .raised message => .error message

def scanPayload (modelPrefix : Text) (s : Scan) (item : String × Json) : Except Text Scan := do
  let lang := item.1.toList
  let s := s.addConfigLanguage P lang
  let tokens ← payloadVoices P item.2
  return tokens.foldl (fun s rawId =>
    s.addVoice P (voiceDisplayId P rawId modelPrefix) (normalizeLangCode P lang)) s

def Parameters.entries (params : Parameters) : List Text :=
  let raw := if params.subvoices = [] then params.voices else params.subvoices
  ((raw.splitOn ',').map strip).filter (· ≠ [])

/-- The entry without the index after its colon. -/
def shortId (entry : Text) : Text :=
  if ':' ∈ entry then strip (entry.takeWhile (· ≠ ':')) else entry

def scanEntry (modelPrefix : Text) (s : Scan) (entry : Text) : Scan :=
  let short := shortId entry
  if short = [] then s
  else if ':' ∈ entry then
    if '.' ∈ short then
      let lang := beforeDot short
      (s.addConfigLanguage P lang).addVoice P
        (fullId modelPrefix short, (short.dropWhile (· ≠ '.')).drop 1) (normalizeLangCode P lang)
    else s.addShared P (fullId modelPrefix short, short)
  else s.addShared P (voiceDisplayId P short modelPrefix)

/-- The prefix of the ids of one model configuration. -/
def Parameters.scope (params : Parameters) (modelPrefix : Text) : Text :=
  strip (if modelPrefix = [] then params.voiceName else modelPrefix)

def scanParameters (modelPrefix : Text) (l : Listing) (params : Parameters) :
    Except Text Listing := do
  let scope := params.scope modelPrefix
  let codes := parseLanguageCodesParam P params.languageCode
  let s : Scan := codes.foldl (Scan.addConfigLanguage P) { listing := l }
  let s ← (← params.catalog P).foldlM (scanPayload P scope) s
  return (params.entries.foldl (scanEntry P scope) s).listing

def byLanguage (v w : Voice) : Prop :=
  v.language < w.language ∨ (v.language = w.language ∧ v.name ≤ w.name)

instance : DecidableRel byLanguage := fun _ _ => inferInstanceAs (Decidable (_ ∨ _))

structure TtsConfig where
  languages : List Text := []
  voices : List Voice := []
  defaultLanguage : Option Text := none
  defaultVoiceId : Text := []
  server : Text := []
  error : Option Text := none
  deriving DecidableEq

/-- The first pass lists the languages, the second one the voices. -/
def parseTtsConfig (rawConfig : Option (List Parameters)) (modelPrefix : Text) :
    Except Text TtsConfig :=
  match rawConfig with
  | none | some [] => .ok {}
  | some allParams => do
    let listed : Listing := allParams.foldl (fun l params =>
      (parseLanguageCodesParam P params.languageCode).foldl (Listing.addLanguage P) l) {}
    let l ← allParams.foldlM (scanParameters P modelPrefix) listed
    return {
      languages := l.languages
      voices := l.voices.insertionSort byLanguage
      defaultLanguage := some (listed.languages.head?.getD "en-US".toList) }

end Parsing

section Alike
variable {P : Python} {p q : Text} {params : Parameters}

/-- The voices of a model configuration get the same ids and names under both prefixes: an entry
with an index is written with the prefix, any other token as `_voice_display_id` has it. -/
structure NamedAlike (P : Python) (params : Parameters) (p q : Text) : Prop where
  indexed : ∀ entry ∈ params.entries, ':' ∈ entry → shortId entry ≠ [] → p = q
  plain : ∀ entry ∈ params.entries, ':' ∉ entry →
    voiceDisplayId P entry p = voiceDisplayId P entry q
  catalog : ∀ items, params.catalog P = .ok items → ∀ item ∈ items, ∀ tokens,
    payloadVoices P item.2 = .ok tokens → ∀ token ∈ tokens,
      voiceDisplayId P token p = voiceDisplayId P token q

theorem NamedAlike.refl (P : Python) (params : Parameters) (p : Text) :
    NamedAlike P params p p :=
  ⟨fun _ _ _ _ => rfl, fun _ _ _ => rfl, fun _ _ _ _ _ _ _ _ => rfl⟩

theorem scanEntry_alike (h : NamedAlike P params p q) {entry : Text}
    (hentry : entry ∈ params.entries) (s : Scan) :
    scanEntry P p s entry = scanEntry P q s entry := by
  by_cases hcolon : ':' ∈ entry
  · by_cases hshort : shortId entry = []
    · simp [scanEntry, hshort]
    · rw [h.indexed entry hentry hcolon hshort]
  · have hself : shortId entry = entry := if_neg hcolon
    simp only [scanEntry, hself, if_neg hcolon, h.plain entry hentry hcolon]

theorem scanPayload_alike (h : NamedAlike P params p q) {items : List (String × Json)}
    (hitems : params.catalog P = .ok items) {item : String × Json} (hitem : item ∈ items)
    (s : Scan) : scanPayload P p s item = scanPayload P q s item := by
  unfold scanPayload
  cases htokens : payloadVoices P item.2 with
  | error message => rfl
  | ok tokens =>
    have hfold := List.foldl_ext
      (fun s rawId => Scan.addVoice P s (voiceDisplayId P rawId p)
        (normalizeLangCode P item.1.toList))
      (fun s rawId => Scan.addVoice P s (voiceDisplayId P rawId q)
        (normalizeLangCode P item.1.toList))
      (s.addConfigLanguage P item.1.toList) fun s token htoken => by
        rw [h.catalog items hitems item hitem tokens htokens token htoken]
    exact congrArg Except.ok hfold

theorem foldlM_alike {σ τ : Type} {f g : σ → τ → Except Text σ} {l : List τ}
    (h : ∀ x ∈ l, ∀ s, f s x = g s x) (s : σ) : l.foldlM f s = l.foldlM g s := by
  induction l generalizing s with
  | nil => rfl
  | cons x l ih =>
    have hhead := h x List.mem_cons_self s
    have htail := fun s => ih (fun y hy => h y (List.mem_cons_of_mem x hy)) s
    simp only [List.foldlM_cons, hhead, htail]

theorem scanParameters_alike (h : NamedAlike P params (params.scope p) (params.scope q))
    (l : Listing) : scanParameters P p l params = scanParameters P q l params := by
  unfold scanParameters
  cases hitems : params.catalog P with
  | error message => rfl
  | ok items =>
    have hcatalog := foldlM_alike fun item hitem s => scanPayload_alike h hitems hitem s
    have hentries := fun s : Scan => List.foldl_ext (scanEntry P (params.scope p))
      (scanEntry P (params.scope q)) s fun s entry hentry => scanEntry_alike h hentry s
    simp only [bind, Except.bind, hcatalog, hentries]

/-- Prefixes that name every voice alike make the same catalog. -/
theorem parseTtsConfig_alike {allParams : List Parameters}
    (h : ∀ params ∈ allParams, NamedAlike P params (params.scope p) (params.scope q)) :
    parseTtsConfig P (some allParams) p = parseTtsConfig P (some allParams) q := by
  have hscan := foldlM_alike fun params hparams l => scanParameters_alike (h params hparams) l
  cases allParams with
  | nil => rfl
  | cons params rest => simp only [parseTtsConfig, hscan]

end Alike

end VoiceAgent.TtsCatalog
