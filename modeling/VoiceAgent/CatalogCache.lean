import VoiceAgent.Memo
import VoiceAgent.TtsCatalog

/-!
Runs of `get_tts_config` and `prewarm_tts` over one cache. The key of an entry has the server, the
function and the model of a call, but not its voice id, after whose prefix the voices of the entry
are named; and it joins the three with colons. A call gets the catalog that an empty cache would
give where the call that filled its entry asked the same server and names the voices alike.
-/
namespace VoiceAgent.TtsCatalog

open StreamingEvents (Text)

section Cache

structure Call where
  server : Text
  voiceId : Text := []
  functionId : Text := []
  model : Text := []

/-- What the calls run against: the synthesis configurations that the servers list, by server,
function and model, and the text of the timeout. -/
structure Site where
  python : Python
  rawConfig : Text → Text → Text → Option (List Parameters)
  timeoutMessage : Text

/-- How the server takes a request for its configuration. -/
inductive Answer
  | answered
  | timedOut
  | raised (message : Text)

abbrev Store := Text → Option TtsConfig

def Store.empty : Store := fun _ => none

def Store.set (store : Store) (key : Text) (config : TtsConfig) : Store :=
  Function.update store key (some config)

def ttsCacheKey (c : Call) : Text :=
  "tts:".toList ++ (c.server ++ ':' :: (c.functionId ++ ':' :: c.model))

/-- The key of the last catalog that was given out. -/
def ttsKey : Text := "tts".toList

def modelPrefix (voiceId : Text) : Text := if '.' ∈ voiceId then beforeDot voiceId else []

variable (S : Site)

def fetchTtsConfig (c : Call) : Answer → Except Text TtsConfig
  | .answered =>
    (parseTtsConfig S.python (S.rawConfig c.server c.functionId c.model)
      (modelPrefix c.voiceId)).map fun config =>
        { config with defaultVoiceId := c.voiceId, server := c.server }
  | .timedOut => .error S.timeoutMessage
  | .raised message => .error message

/-- The copy of an entry that a call is given. -/
def TtsConfig.givenTo (cached : TtsConfig) (voiceId : Text) : TtsConfig :=
  if voiceId = [] then cached else { cached with defaultVoiceId := voiceId }

def peekCachedTtsConfig (store : Store) (c : Call) : Option TtsConfig :=
  (store (ttsCacheKey c)).map (TtsConfig.givenTo · c.voiceId)

/-- What was fetched is cached, a failure is not. -/
def Store.adopt (store : Store) (c : Call) : Except Text TtsConfig → TtsConfig × Store
  | .ok config => (config, (store.set (ttsCacheKey c) config).set ttsKey config)
  | .error message =>
    ({ defaultVoiceId := c.voiceId, server := c.server, error := some message }, store)

def prewarmTts (store : Store) (c : Call) (answer : Answer) : TtsConfig × Store :=
  match peekCachedTtsConfig store c with
  | some cached => (cached, store.set ttsKey cached)
  | none => store.adopt c (fetchTtsConfig S c answer)

def getTtsConfig (store : Store) (c : Call) (answer : Answer) : TtsConfig × Store :=
  match peekCachedTtsConfig store c with
  | some cached => (cached, store.set ttsKey cached)
  | none => prewarmTts S store c answer

inductive Op
  | getTtsConfig
  | prewarmTts

structure Event where
  op : Op
  call : Call
  answer : Answer := .answered

def Event.key (e : Event) : Text := ttsCacheKey e.call

def Event.fetched (e : Event) : Option TtsConfig := (fetchTtsConfig S e.call e.answer).toOption

def step (store : Store) (e : Event) : TtsConfig × Store :=
  match e.op with
  | .getTtsConfig => getTtsConfig S store e.call e.answer
  | .prewarmTts => prewarmTts S store e.call e.answer

def storeAfter (events : List Event) : Store :=
  events.foldl (fun store e => (step S store e).2) Store.empty

end Cache

section Step
variable {S : Site} {store : Store} {e : Event}

theorem step_eq (S : Site) (store : Store) (e : Event) :
    step S store e = prewarmTts S store e.call e.answer := by
  unfold step
  cases e.op with
  | prewarmTts => rfl
  | getTtsConfig =>
    unfold getTtsConfig prewarmTts
    cases peekCachedTtsConfig store e.call <;> rfl

/-- No catalog is kept under the key of the last one. -/
theorem set_ttsKey (store : Store) (config : TtsConfig) (c : Call) :
    store.set ttsKey config (ttsCacheKey c) = store (ttsCacheKey c) := by
  refine Function.update_of_ne ?_ _ _
  simp [ttsCacheKey, ttsKey]

theorem givenTo_voices (cached : TtsConfig) (voiceId : Text) :
    (cached.givenTo voiceId).languages = cached.languages ∧
      (cached.givenTo voiceId).voices = cached.voices := by
  unfold TtsConfig.givenTo
  split <;> exact ⟨rfl, rfl⟩

theorem step_hit {cached : TtsConfig} (h : store e.key = some cached) :
    step S store e = (cached.givenTo e.call.voiceId,
      store.set ttsKey (cached.givenTo e.call.voiceId)) := by
  have hpeek : peekCachedTtsConfig store e.call = some (cached.givenTo e.call.voiceId) := by
    rw [peekCachedTtsConfig, show store (ttsCacheKey e.call) = some cached from h]
    rfl
  rw [step_eq, prewarmTts, hpeek]

theorem step_miss (h : store e.key = none) :
    step S store e = store.adopt e.call (fetchTtsConfig S e.call e.answer) := by
  have hpeek : peekCachedTtsConfig store e.call = none := by
    rw [peekCachedTtsConfig, show store (ttsCacheKey e.call) = none from h]
    rfl
  rw [step_eq, prewarmTts, hpeek]

/-- Under the keys of the catalogs a call fills the store as it fills a table. -/
theorem step_fills (table : Text → Option TtsConfig)
    (h : ∀ c : Call, store (ttsCacheKey c) = table (ttsCacheKey c)) (c : Call) :
    (step S store e).2 (ttsCacheKey c) =
      Memo.fill Event.key (Event.fetched S) table e (ttsCacheKey c) := by
  have htable : table e.key = store e.key := (h e.call).symm
  unfold Memo.fill
  rw [htable]
  cases hentry : store e.key with
  | some cached =>
    rw [step_hit hentry, Option.some_or]
    refine (set_ttsKey store (cached.givenTo e.call.voiceId) c).trans ?_
    by_cases hkey : ttsCacheKey c = e.key
    · rw [hkey, hentry, Function.update_self]
    · rw [Function.update_of_ne hkey, h]
  | none =>
    rw [step_miss hentry, Option.none_or, Event.fetched]
    cases fetchTtsConfig S e.call e.answer with
    | ok config =>
      refine (set_ttsKey (store.set e.key config) config c).trans ?_
      by_cases hkey : ttsCacheKey c = e.key
      · rw [hkey, Function.update_self]
        exact Function.update_self ..
      · rw [Function.update_of_ne hkey, ← h]
        exact Function.update_of_ne hkey ..
    | error message =>
      by_cases hkey : ttsCacheKey c = e.key
      · rw [hkey, Function.update_self]
        exact hentry
      · rw [Function.update_of_ne hkey, ← h]
        rfl

theorem storeAfter_key (S : Site) (events : List Event) (c : Call) :
    storeAfter S events (ttsCacheKey c) =
      Memo.filled Event.key (Event.fetched S) events (ttsCacheKey c) := by
  induction events using List.reverseRecOn generalizing c with
  | nil => rfl
  | append_singleton events e ih =>
    rw [storeAfter, List.foldl_append, Memo.filled_snoc]
    exact step_fills _ ih c

end Step

section Runs
variable {S : Site} {before : List Event} {e f : Event}

/-- The call that filled the entry of a key. -/
def filledBy (S : Site) (before : List Event) (key : Text) : Option Event :=
  Memo.filler Event.key (Event.fetched S) before key

/-- The entry that the call finds, if it finds one, is from a call for the same server, function
and model with a voice id whose prefix names the listed voices alike; and the server would
answer the call itself. -/
def Coherent (S : Site) (before : List Event) (e : Event) : Prop :=
  ∀ f, filledBy S before e.key = some f →
    (f.call.server = e.call.server ∧ f.call.functionId = e.call.functionId ∧
      f.call.model = e.call.model) ∧
    (∀ allParams, S.rawConfig e.call.server e.call.functionId e.call.model = some allParams →
      ∀ params ∈ allParams, NamedAlike S.python params
        (params.scope (modelPrefix f.call.voiceId)) (params.scope (modelPrefix e.call.voiceId))) ∧
    e.answer = .answered

/-- A call gets the languages and voices that an empty cache would give. -/
def AsIfEmpty (S : Site) (before : List Event) (e : Event) : Prop :=
  (step S (storeAfter S before) e).1.languages = (step S Store.empty e).1.languages ∧
    (step S (storeAfter S before) e).1.voices = (step S Store.empty e).1.voices

theorem fetched_answered {config : TtsConfig} (h : f.fetched S = some config) :
    fetchTtsConfig S f.call .answered = .ok config := by
  unfold Event.fetched at h
  cases hanswer : f.answer with
  | answered =>
    rw [hanswer] at h
    cases hfetch : fetchTtsConfig S f.call .answered with
    | ok c =>
      rw [hfetch] at h
      exact congrArg Except.ok (Option.some.inj h)
    | error message =>
      rw [hfetch] at h
      cases h
  | timedOut =>
    rw [hanswer] at h
    cases h
  | raised message =>
    rw [hanswer] at h
    cases h

theorem parse_coherent (h : Coherent S before e) (hf : filledBy S before e.key = some f) :
    parseTtsConfig S.python (S.rawConfig f.call.server f.call.functionId f.call.model)
        (modelPrefix f.call.voiceId) =
      parseTtsConfig S.python (S.rawConfig e.call.server e.call.functionId e.call.model)
        (modelPrefix e.call.voiceId) := by
  obtain ⟨⟨hserver, hfunction, hmodel⟩, halike, -⟩ := h f hf
  rw [hserver, hfunction, hmodel]
  cases hraw : S.rawConfig e.call.server e.call.functionId e.call.model with
  | none => rfl
  | some allParams => exact parseTtsConfig_alike (halike allParams hraw)

theorem fetch_ok {c : Call} {config : TtsConfig}
    (h : fetchTtsConfig S c .answered = .ok config) :
    ∃ parsed, parseTtsConfig S.python (S.rawConfig c.server c.functionId c.model)
      (modelPrefix c.voiceId) = .ok parsed ∧
        config = { parsed with defaultVoiceId := c.voiceId, server := c.server } := by
  unfold fetchTtsConfig at h
  cases hparse : parseTtsConfig S.python (S.rawConfig c.server c.functionId c.model)
    (modelPrefix c.voiceId) with
  | error message =>
    rw [hparse] at h
    cases h
  | ok parsed =>
    rw [hparse] at h
    exact ⟨parsed, rfl, (Except.ok.inj h).symm⟩

theorem coherent_asIfEmpty (h : Coherent S before e) : AsIfEmpty S before e := by
  have hempty : step S Store.empty e = _ := step_miss rfl
  have hentry : storeAfter S before e.key =
      (filledBy S before e.key).bind (Event.fetched S) := by
    rw [Event.key, storeAfter_key, Memo.filled_eq]
    rfl
  cases hfiller : filledBy S before e.key with
  | none =>
    rw [hfiller] at hentry
    unfold AsIfEmpty
    rw [step_miss hentry, hempty]
    cases fetchTtsConfig S e.call e.answer <;> exact ⟨rfl, rfl⟩
  | some f =>
    obtain ⟨cached, hcached⟩ := Option.isSome_iff_exists.mp (Memo.filler_fetched hfiller).2
    rw [hfiller, Option.bind_some, hcached] at hentry
    obtain ⟨parsed, hparsed, rfl⟩ := fetch_ok (fetched_answered hcached)
    have hown : fetchTtsConfig S e.call e.answer =
        .ok { parsed with defaultVoiceId := e.call.voiceId, server := e.call.server } := by
      rw [(h f hfiller).2.2, fetchTtsConfig, ← parse_coherent h hfiller, hparsed]
      rfl
    unfold AsIfEmpty
    rw [step_hit hentry, hempty, hown]
    exact givenTo_voices _ e.call.voiceId

/-- Calls for one server, function and model with voice ids of one prefix are coherent. -/
theorem coherent_of_same (hanswer : e.answer = .answered)
    (hroute : ∀ f ∈ before, f.call.server = e.call.server ∧
      f.call.functionId = e.call.functionId ∧ f.call.model = e.call.model)
    (hvoice : ∀ f ∈ before, modelPrefix f.call.voiceId = modelPrefix e.call.voiceId) :
    Coherent S before e := by
  intro f hf
  have hmem := Memo.filler_mem hf
  refine ⟨hroute f hmem, fun allParams _ params _ => ?_, hanswer⟩
  rw [hvoice f hmem]
  exact NamedAlike.refl _ _ _

/-- In a run whose calls all find coherent entries, no call sees what came before it. -/
theorem catalog_of_calls (S : Site) (run : List Event)
    (h : ∀ before e, before ++ [e] <+: run → Coherent S before e) :
    ∀ before e, before ++ [e] <+: run → AsIfEmpty S before e :=
  fun before e hrun => coherent_asIfEmpty (h before e hrun)

end Runs

section Sample

def asciiPython : Python where
  lower := List.map Char.toLower
  upper := List.map Char.toUpper
  str _ := []
  loads _ := .malformed

/-- A server with one voice of two languages. -/
def magpie : Site where
  python := asciiPython
  rawConfig _ _ _ := some [{
    languageCode := "en-US,es-US".toList
    voiceName := "Magpie-Multilingual".toList
    subvoices := "EN-US.Aria:0,ES-US.Aria:1".toList }]
  timeoutMessage := "TTS catalog list timed out after 20.0s".toList

def callWith (voiceId : String) : Event where
  op := .getTtsConfig
  call := { server := "tts-service:50051".toList, voiceId := voiceId.toList }

def sameCatalog : List Event :=
  [callWith "Magpie-Multilingual.EN-US.Aria", callWith "Magpie-Multilingual.ES-US.Aria"]

theorem sameCatalog_coherent (before : List Event) (e : Event)
    (hrun : before ++ [e] <+: sameCatalog) : Coherent magpie before e := by
  have hcalls : ∀ f ∈ before ++ [e], ∃ voiceId : String, f = callWith voiceId ∧
      modelPrefix voiceId.toList = "Magpie-Multilingual".toList := by
    intro f hf
    have hmem := hrun.subset hf
    simp only [sameCatalog, List.mem_cons, List.not_mem_nil, or_false] at hmem
    rcases hmem with rfl | rfl
    · exact ⟨_, rfl, by decide +kernel⟩
    · exact ⟨_, rfl, by decide +kernel⟩
  obtain ⟨last, rfl, hlast⟩ := hcalls e (by simp)
  have hearlier := fun f hf => hcalls f (List.mem_append_left [callWith last] hf)
  refine coherent_of_same rfl (fun f hf => ?_) fun f hf => ?_
  · obtain ⟨voiceId, rfl, -⟩ := hearlier f hf
    exact ⟨rfl, rfl, rfl⟩
  · obtain ⟨voiceId, rfl, hvoice⟩ := hearlier f hf
    exact hvoice.trans hlast.symm

/-- Another voice of the same catalog makes no difference. -/
theorem sameCatalog_asIfEmpty :
    AsIfEmpty magpie [] (callWith "Magpie-Multilingual.EN-US.Aria") ∧
      AsIfEmpty magpie [callWith "Magpie-Multilingual.EN-US.Aria"]
        (callWith "Magpie-Multilingual.ES-US.Aria") := by
  have hrun := catalog_of_calls magpie sameCatalog sameCatalog_coherent
  exact ⟨hrun [] _ (by simp [sameCatalog]), hrun [_] _ (by simp [sameCatalog])⟩

/-- The catalog is listed first for a voice of another model: a voice of the server's own then
gets ids that the server does not have. -/
theorem otherModel_remembered :
    ¬AsIfEmpty magpie [callWith "Magpie-ZeroShot.Female"]
      (callWith "Magpie-Multilingual.EN-US.Aria") := by
  unfold AsIfEmpty
  decide +kernel

end Sample

end VoiceAgent.TtsCatalog
