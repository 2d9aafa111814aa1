import VoiceAgent.CatalogHydration

/-!
The fields that the catalog owns. Where the id of each active slot is in the catalog, a request
that sets such a field gets the same configuration as one that does not: the slots are hydrated
one after the other, and the requests can differ only in what is still to be overwritten.
-/
namespace VoiceAgent.CatalogIsolation

open JsonValues SessionView ServiceSettings CatalogHydration

section Agreement
variable {P Q : String → Prop} {c c' : Config} {key : String}

/-- Two configurations that are the same but for some keys. -/
def AgreeOff (P : String → Prop) (c c' : Config) : Prop := ∀ key, ¬P key → c key = c' key

/-- The same exception, or two such configurations. -/
inductive Agreeing (P : String → Prop) : Except Raised Config → Except Raised Config → Prop
  | error (e : Raised) : Agreeing P (.error e) (.error e)
  | ok {c c' : Config} (h : AgreeOff P c c') : Agreeing P (.ok c) (.ok c')

theorem AgreeOff.mono (h : AgreeOff P c c') (hPQ : ∀ key, P key → Q key) : AgreeOff Q c c' :=
  fun key hkey => h key fun hP => hkey (hPQ key hP)

/-- A key that is set in both is one less to differ in. -/
theorem AgreeOff.set (h : AgreeOff P c c') (key : String) (value : Json) :
    AgreeOff (fun k => P k ∧ k ≠ key) (c.set key value) (c'.set key value) := by
  intro k hk
  unfold Config.set
  by_cases heq : k = key
  · rw [if_pos heq, if_pos heq]
  · rw [if_neg heq, if_neg heq]
    exact h k fun hP => hk ⟨hP, heq⟩

theorem AgreeOff.pop (h : AgreeOff P c c') (key : String) :
    AgreeOff (fun k => P k ∧ k ≠ key) (c.pop key) (c'.pop key) := by
  intro k hk
  unfold Config.pop
  by_cases heq : k = key
  · rw [if_pos heq, if_pos heq]
  · rw [if_neg heq, if_neg heq]
    exact h k fun hP => hk ⟨hP, heq⟩

theorem Agreeing.mono {x x' : Except Raised Config} (h : Agreeing P x x')
    (hPQ : ∀ key, P key → Q key) : Agreeing Q x x' := by
  cases h with
  | error e => exact .error e
  | ok h => exact .ok (h.mono hPQ)

theorem Agreeing.bind {x x' : Except Raised Config} {f f' : Config → Except Raised Config}
    (h : Agreeing P x x') (hf : ∀ c c', AgreeOff P c c' → Agreeing Q (f c) (f' c')) :
    Agreeing Q (x >>= f) (x' >>= f') := by
  cases h with
  | error e => exact .error e
  | ok h => exact hf _ _ h

end Agreement

section Entries
variable {S : Server} {P : String → Prop} {c c' : Config} (entry : Entry)

theorem agree_setFromEntry (h : AgreeOff P c c') (yamlField bodyField : String) :
    AgreeOff (fun k => P k ∧ k ≠ bodyField) (setFromEntry S entry c yamlField bodyField)
      (setFromEntry S entry c' yamlField bodyField) := by
  unfold setFromEntry
  split
  · exact h.pop bodyField
  · exact h.pop bodyField
  · exact h.pop bodyField
  · exact h.set bodyField _
  · exact h.set bodyField _
  · exact h.set bodyField _
  · exact h.set bodyField _

/-- A field of the catalog is overwritten; one that a client may set is the same in both. -/
theorem agree_hydrateField (h : AgreeOff P c c') (field : String × String)
    (hfree : field.2 ∈ clientOverridableBodyFields → ¬P field.2) :
    AgreeOff (fun k => P k ∧ k ≠ field.2) (hydrateField S entry c field)
      (hydrateField S entry c' field) := by
  unfold hydrateField
  by_cases hmine : field.2 ∈ clientOverridableBodyFields
  · rw [h field.2 (hfree hmine)]
    split
    · exact h.set field.2 _
    · exact agree_setFromEntry entry h field.1 field.2
  · rw [if_neg fun hboth => hmine hboth.1, if_neg fun hboth => hmine hboth.1]
    exact agree_setFromEntry entry h field.1 field.2

theorem agree_hydrateFields (fields : List (String × String)) (h : AgreeOff P c c')
    (hfree : ∀ field ∈ fields, field.2 ∈ clientOverridableBodyFields → ¬P field.2) :
    AgreeOff (fun k => P k ∧ k ∉ fields.map Prod.snd) (fields.foldl (hydrateField S entry) c)
      (fields.foldl (hydrateField S entry) c') := by
  induction fields generalizing c c' P with
  | nil => exact h.mono fun k hk => ⟨hk, by simp⟩
  | cons field rest ih =>
    have hfirst := agree_hydrateField (S := S) entry h field
      (hfree field List.mem_cons_self)
    have hrest := ih hfirst fun g hg hmine hP =>
      hfree g (List.mem_cons_of_mem field hg) hmine hP.1
    refine hrest.mono fun k hk => ⟨hk.1.1, ?_⟩
    rw [List.map_cons, List.mem_cons, not_or]
    exact ⟨hk.1.2, hk.2⟩

theorem agree_set (h : AgreeOff P c c') (key : String) (value : Json) :
    AgreeOff P (c.set key value) (c'.set key value) :=
  (h.set key value).mono fun _ hk => hk.1

theorem agree_pop (h : AgreeOff P c c') (key : String) : AgreeOff P (c.pop key) (c'.pop key) :=
  (h.pop key).mono fun _ hk => hk.1

theorem agree_setFromSetting (fieldMap : List (String × String)) (applied : Fields)
    (setting : String × Setting) (h : AgreeOff P c c') :
    Agreeing P (setFromSetting S fieldMap applied c setting)
      (setFromSetting S fieldMap applied c' setting) := by
  unfold setFromSetting
  split
  · exact .error _
  · split
    · exact .ok (agree_pop h _)
    · exact .ok (agree_set h _ _)

theorem agree_setFromSettings (fieldMap : List (String × String)) (applied : Fields)
    (schema : Schema) (h : AgreeOff P c c') :
    Agreeing P (schema.foldlM (setFromSetting S fieldMap applied) c)
      (schema.foldlM (setFromSetting S fieldMap applied) c') := by
  induction schema generalizing c c' with
  | nil => exact .ok h
  | cons setting rest ih =>
    rw [List.foldlM_cons, List.foldlM_cons]
    exact (agree_setFromSetting fieldMap applied setting h).bind fun _ _ hnext => ih hnext

theorem mem_snd_of_lookup {fieldMap : List (String × String)} {name field : String}
    (h : fieldMap.lookup name = some field) : field ∈ fieldMap.map Prod.snd := by
  obtain ⟨before, behind, rfl, -⟩ := List.lookup_eq_some_iff.mp h
  simp

/-- The extra parameters that the settings go into are those of the entry by then. -/
theorem agree_hydrateSettings (slot : Slot) (schema : Schema) (userSettings : Option Json)
    (h : AgreeOff P c c') (hextra : ∀ field ∈ slot.bodyFields, ¬P field) :
    Agreeing P (hydrateSettings S slot schema userSettings c)
      (hydrateSettings S slot schema userSettings c') := by
  unfold hydrateSettings
  dsimp only
  split
  · rename_i extraField hlookup
    have hmem : extraField ∈ slot.bodyFields := mem_snd_of_lookup hlookup
    rw [h extraField (hextra extraField hmem)]
    cases applyServiceSettings S.floats (parseJsonDict S (c' extraField)) schema
        (parseJsonDict S userSettings) with
    | error e => exact .error e
    | ok extra =>
      refine .ok ?_
      split
      · exact h
      · exact agree_set h _ _
  · cases applyServiceSettings S.floats .nil schema (parseJsonDict S userSettings) with
    | error e => exact .error e
    | ok applied => exact agree_setFromSettings _ _ _ h

theorem agree_hydrateAttached (slot : Slot) (userSettings : Option Json)
    (h : AgreeOff P c c') (hextra : ∀ field ∈ slot.bodyFields, ¬P field) :
    Agreeing P (hydrateAttached S slot entry userSettings c)
      (hydrateAttached S slot entry userSettings c') := by
  unfold hydrateAttached
  split
  · split
    · exact .ok h
    · exact agree_hydrateSettings slot _ _ h hextra
  · exact .ok h

theorem agree_hydrateStreaming (slot : Slot) (userStreaming : Option Json)
    (h : AgreeOff P c c') :
    Agreeing P (hydrateStreaming S slot entry userStreaming c)
      (hydrateStreaming S slot entry userStreaming c') := by
  unfold hydrateStreaming
  dsimp only
  split
  · split
    · exact .error _
    · exact .ok (agree_set h _ _)
  · exact .ok h

end Entries

section Slots
variable {S : Server} {c c' : Config} {slot : Slot} {rest : List Slot}

/-- What the catalog owns of a slot. -/
def Owns (slot : Slot) (key : String) : Prop :=
  key ∈ slot.bodyFields ∧ key ∉ clientOverridableBodyFields

instance (slot : Slot) (key : String) : Decidable (Owns slot key) :=
  inferInstanceAs (Decidable (_ ∧ _))

/-- What is still to be overwritten: the fields of the active slots that are left. -/
def Pending (S : Server) (slots : List Slot) (key : String) : Prop :=
  ∃ slot ∈ slots, isActive S slot = true ∧ Owns slot key

/-- What a slot reads besides the fields of its entry is owned by no slot, and not written by
another one. -/
theorem unowned : ∀ slot ∈ catalogHydration, ∀ other ∈ catalogHydration,
    slot.idField ∉ other.bodyFields ∧ slot.settingsField ∉ other.bodyFields ∧
      slot.streamingField ∉ other.bodyFields ∧ slot.idField ≠ other.settingsField ∧
        slot.idField ≠ other.streamingField := by
  decide

theorem not_pending {slots : List Slot} {key : String} (hslots : slots ⊆ catalogHydration)
    (hkey : ∀ other ∈ catalogHydration, key ∉ other.bodyFields) : ¬Pending S slots key :=
  fun ⟨other, hother, _, howns⟩ => hkey other (hslots hother) howns.1

theorem agree_popField {P : String → Prop} (h : AgreeOff P c c') (key : String) :
    AgreeOff P (popField c key) (popField c' key) := by
  unfold popField
  split
  · exact h
  · exact agree_pop h key

theorem agree_readField {P : String → Prop} (h : AgreeOff P c c') {key : String}
    (hkey : ¬P key) : readField c key = readField c' key := by
  unfold readField
  rw [h key hkey]

theorem popField_of_ne {key k : String} (hk : k ≠ key) : popField c key k = c k := by
  unfold popField
  split
  · rfl
  · exact if_neg hk

/-- One slot: if it is active its fields are no longer pending, if not they never were. -/
theorem agree_hydrateSlot (hslots : slot :: rest ⊆ catalogHydration)
    (hresolved : isActive S slot = true →
      (loadServiceEntryById S slot.category (idText (c slot.idField))).isSome)
    (h : AgreeOff (Pending S (slot :: rest)) c c') :
    Agreeing (Pending S rest) (hydrateSlot S c slot) (hydrateSlot S c' slot) := by
  have hslot : slot ∈ catalogHydration := hslots List.mem_cons_self
  have hfree := unowned slot hslot
  have hid : ¬Pending S (slot :: rest) slot.idField :=
    not_pending hslots fun other hother => (hfree other hother).1
  have hsettings : ¬Pending S (slot :: rest) slot.settingsField :=
    not_pending hslots fun other hother => (hfree other hother).2.1
  have hstreaming : ¬Pending S (slot :: rest) slot.streamingField :=
    not_pending hslots fun other hother => (hfree other hother).2.2.1
  have hself := hfree slot hslot
  have hpop := agree_popField (agree_popField h slot.settingsField) slot.streamingField
  have hidKept : ∀ d : Config,
      popField (popField d slot.settingsField) slot.streamingField slot.idField =
        d slot.idField := by
    intro d
    rw [popField_of_ne hself.2.2.2.2, popField_of_ne hself.2.2.2.1]
  unfold hydrateSlot
  dsimp only
  rw [hidKept, hidKept, ← h _ hid, agree_readField h hsettings,
    agree_readField (agree_popField h slot.settingsField) hstreaming]
  cases hentry : loadServiceEntryById S slot.category (idText (c slot.idField)) with
  | none =>
    refine .ok (hpop.mono fun k hk => ?_)
    obtain ⟨other, hother, hactive, howns⟩ := hk
    rcases List.mem_cons.mp hother with rfl | hother
    · simpa [hentry] using hresolved hactive
    · exact ⟨other, hother, hactive, howns⟩
  | some entry =>
    dsimp only
    have hmine : ∀ field ∈ slot.fieldMap, field.2 ∈ clientOverridableBodyFields →
        ¬Pending S (slot :: rest) field.2 :=
      fun field _ hmem ⟨other, _, _, howns⟩ => howns.2 hmem
    have hfields := agree_hydrateFields (S := S) entry slot.fieldMap hpop hmine
    have hleft : AgreeOff (fun k => Pending S rest k ∧ k ∉ slot.bodyFields)
        (slot.fieldMap.foldl (hydrateField S entry)
          (popField (popField c slot.settingsField) slot.streamingField))
        (slot.fieldMap.foldl (hydrateField S entry)
          (popField (popField c' slot.settingsField) slot.streamingField)) := by
      refine hfields.mono fun k hk => ⟨?_, hk.2⟩
      obtain ⟨⟨other, hother, hactive, howns⟩, hnot⟩ := hk
      rcases List.mem_cons.mp hother with rfl | hother
      · exact absurd howns.1 hnot
      · exact ⟨other, hother, hactive, howns⟩
    have hattached := agree_hydrateAttached (S := S) entry slot
      (readField c' slot.settingsField) hleft fun field hfield hk => hk.2 hfield
    have hdone := hattached.bind fun _ _ hnext =>
      agree_hydrateStreaming (S := S) entry slot
        (readField (popField c' slot.settingsField) slot.streamingField) hnext
    exact hdone.mono fun k hk => hk.1

theorem set_kept {d : Config} {key k : String} (hk : k ≠ key) (value : Json) :
    d.set key value k = d k := if_neg hk

theorem pop_kept {d : Config} {key k : String} (hk : k ≠ key) : d.pop key k = d k := if_neg hk

theorem setFromEntry_cases (entry : Entry) (d : Config) (yamlField bodyField : String) :
    setFromEntry S entry d yamlField bodyField = d.pop bodyField ∨
      ∃ value, setFromEntry S entry d yamlField bodyField = d.set bodyField value := by
  unfold setFromEntry
  split
  · exact .inl rfl
  · exact .inl rfl
  · exact .inl rfl
  · exact .inr ⟨_, rfl⟩
  · exact .inr ⟨_, rfl⟩
  · exact .inr ⟨_, rfl⟩
  · exact .inr ⟨_, rfl⟩

theorem hydrateField_kept {entry : Entry} {d : Config} {field : String × String} {k : String}
    (hk : k ≠ field.2) : hydrateField S entry d field k = d k := by
  unfold hydrateField
  split
  · exact set_kept hk _
  · rcases setFromEntry_cases (S := S) entry d field.1 field.2 with h | ⟨value, h⟩
    · rw [h]
      exact pop_kept hk
    · rw [h]
      exact set_kept hk _

theorem hydrateFields_kept {entry : Entry} {fields : List (String × String)} {d : Config}
    {k : String} (hk : k ∉ fields.map Prod.snd) :
    fields.foldl (hydrateField S entry) d k = d k := by
  induction fields generalizing d with
  | nil => rfl
  | cons field rest ih =>
    rw [List.map_cons, List.mem_cons, not_or] at hk
    exact (ih hk.2).trans (hydrateField_kept hk.1)

theorem setFromSettings_kept {fieldMap : List (String × String)} {applied : Fields}
    {schema : Schema} {d d' : Config} {k : String} (hk : k ∉ fieldMap.map Prod.snd)
    (h : schema.foldlM (setFromSetting S fieldMap applied) d = .ok d') : d' k = d k := by
  induction schema generalizing d with
  | nil => exact congrFun (Except.ok.inj h).symm k
  | cons setting rest ih =>
    rw [List.foldlM_cons] at h
    cases hfirst : setFromSetting S fieldMap applied d setting with
    | error e =>
      rw [hfirst] at h
      cases h
    | ok d₁ =>
      rw [hfirst] at h
      refine (ih h).trans ?_
      unfold setFromSetting at hfirst
      split at hfirst
      · cases hfirst
      · rename_i field hlookup
        have hne : k ≠ field := fun heq => hk (heq ▸ mem_snd_of_lookup hlookup)
        split at hfirst
        · rw [← Except.ok.inj hfirst]
          exact pop_kept hne
        · rw [← Except.ok.inj hfirst]
          exact set_kept hne _

theorem hydrateAttached_kept {entry : Entry} {userSettings : Option Json} {d d' : Config}
    {k : String} (hk : k ∉ slot.bodyFields)
    (h : hydrateAttached S slot entry userSettings d = .ok d') : d' k = d k := by
  unfold hydrateAttached at h
  split at h
  · split at h
    · exact congrFun (Except.ok.inj h).symm k
    · unfold hydrateSettings at h
      dsimp only at h
      split at h
      · rename_i field hlookup
        have hne : k ≠ field := fun heq => hk (heq ▸ mem_snd_of_lookup hlookup)
        generalize applyServiceSettings _ _ _ _ = applied at h
        cases applied with
        | error e => cases h
        | ok extra =>
          have hd := Except.ok.inj h
          rw [← hd]
          split
          · rfl
          · exact set_kept hne _
      · generalize applyServiceSettings _ _ _ _ = applied at h
        cases applied with
        | error e => cases h
        | ok extra => exact setFromSettings_kept hk h
  · exact congrFun (Except.ok.inj h).symm k

theorem hydrateStreaming_kept {entry : Entry} {userStreaming : Option Json} {d d' : Config}
    {k : String} (hk : k ∉ slot.bodyFields)
    (h : hydrateStreaming S slot entry userStreaming d = .ok d') : d' k = d k := by
  unfold hydrateStreaming at h
  dsimp only at h
  split at h
  · split at h
    · cases h
    · rename_i field hlookup
      have hne : k ≠ field := fun heq => hk (heq ▸ mem_snd_of_lookup hlookup)
      rw [← Except.ok.inj h]
      exact set_kept hne _
  · exact congrFun (Except.ok.inj h).symm k

/-- The keys that a slot does not write. -/
theorem hydrateSlot_kept {d d' : Config} {key : String} (h : hydrateSlot S d slot = .ok d')
    (hfields : key ∉ slot.bodyFields) (hsettings : key ≠ slot.settingsField)
    (hstreaming : key ≠ slot.streamingField) : d' key = d key := by
  have hpop : popField (popField d slot.settingsField) slot.streamingField key = d key := by
    rw [popField_of_ne hstreaming, popField_of_ne hsettings]
  unfold hydrateSlot at h
  dsimp only at h
  split at h
  · rw [← Except.ok.inj h, hpop]
  · rename_i entry _
    cases hattached : hydrateAttached S slot entry (readField d slot.settingsField)
        (slot.fieldMap.foldl (hydrateField S entry)
          (popField (popField d slot.settingsField) slot.streamingField)) with
    | error e =>
      rw [hattached] at h
      cases h
    | ok d₁ =>
      rw [hattached] at h
      rw [hydrateStreaming_kept hfields h, hydrateAttached_kept hfields hattached,
        hydrateFields_kept hfields, hpop]

theorem agree_hydrateSlots {slots : List Slot} (hslots : slots ⊆ catalogHydration)
    (hresolved : ∀ slot ∈ slots, isActive S slot = true →
      (loadServiceEntryById S slot.category (idText (c slot.idField))).isSome)
    (h : AgreeOff (Pending S slots) c c') :
    Agreeing (Pending S []) (slots.foldlM (hydrateSlot S) c) (slots.foldlM (hydrateSlot S) c') := by
  induction slots generalizing c c' with
  | nil => exact .ok h
  | cons slot rest ih =>
    have hslot := agree_hydrateSlot hslots (hresolved slot List.mem_cons_self) h
    rw [List.foldlM_cons, List.foldlM_cons]
    generalize hd : hydrateSlot S c slot = x at hslot
    generalize hydrateSlot S c' slot = x' at hslot
    cases hslot with
    | error e => exact .error e
    | @ok d d' hnext =>
      refine ih (fun other hother => hslots (List.mem_cons_of_mem _ hother)) ?_ hnext
      intro other hother hactive
      have hin := hslots (List.mem_cons_of_mem slot hother)
      have hfree := unowned other hin slot (hslots List.mem_cons_self)
      rw [hydrateSlot_kept hd hfree.1 hfree.2.2.2.1 hfree.2.2.2.2]
      exact hresolved other (List.mem_cons_of_mem slot hother) hactive

end Slots

section Requests
variable {S : Server} {data data' : Config}

/-- The fields of the catalog that no client may set, among them the path of the zero-shot
audio. -/
def catalogOwned (key : String) : Prop := ∃ slot ∈ catalogHydration, Owns slot key

theorem owned_keys : ∀ slot ∈ catalogHydration, ∀ key ∈ slot.bodyFields,
    key ∉ clientOverridableBodyFields → key ∉ slotAgnosticKeys ∧
      ∀ other ∈ catalogHydration, key ∈ other.configKeys → key ∈ other.bodyFields := by
  decide

/-- What is not one of these is kept or dropped in both. What is one is kept only for an active
slot. -/
theorem agree_keptKeys (hsame : ∀ key, ¬catalogOwned key → data key = data' key) :
    AgreeOff (Pending S catalogHydration) (keptKeys S data) (keptKeys S data') := by
  intro key hkey
  by_cases howned : catalogOwned key
  · -- the field of a slot that is not active is not allowed
    obtain ⟨slot, hslot, hbody, hmine⟩ := howned
    obtain ⟨hagnostic, hother⟩ := owned_keys slot hslot key hbody hmine
    have hdropped : key ∉ allowedKeys S := by
      intro hallowed
      unfold allowedKeys at hallowed
      split at hallowed
      · rename_i hservices
        exact hkey ⟨slot, hslot, by rw [isActive, hservices], hbody, hmine⟩
      · rename_i services hservices
        rcases List.mem_append.mp hallowed with hallowed | hallowed
        · exact hagnostic hallowed
        · obtain ⟨service, hservice, hallowed⟩ := List.mem_flatMap.mp hallowed
          obtain ⟨other, hmem, hconfig⟩ := List.mem_flatMap.mp hallowed
          obtain ⟨hin, hcategory⟩ := List.mem_filter.mp hmem
          have hactive : isActive S other = true := by
            rw [isActive, hservices]
            simpa [of_decide_eq_true hcategory] using hservice
          exact hkey ⟨other, hin, hactive, hother other hin hconfig, hmine⟩
    have hnone : ∀ d : Config, keptKeys S d key = none :=
      fun d => if_neg fun hboth => hdropped hboth.2
    rw [hnone, hnone]
  · unfold keptKeys
    rw [hsame key howned]

theorem agree_clean {P : String → Prop} {c c' : Config} (h : AgreeOff P c c')
    (hdiarization : ¬P "asr_speaker_diarization") (hlanguage : ¬P "tts_language_code") :
    AgreeOff P (cleanLanguage (cleanDiarization S c)) (cleanLanguage (cleanDiarization S c')) := by
  have hfirst : AgreeOff P (cleanDiarization S c) (cleanDiarization S c') := by
    unfold cleanDiarization
    rw [h _ hdiarization]
    split
    · exact h
    · exact agree_set h _ _
  unfold cleanLanguage
  rw [hfirst _ hlanguage]
  split
  · exact hfirst
  · exact hfirst
  · split
    · exact agree_pop hfirst _
    · exact agree_set hfirst _ _
  · exact agree_pop hfirst _

theorem clean_kept {c : Config} {key : String} (hdiarization : key ≠ "asr_speaker_diarization")
    (hlanguage : key ≠ "tts_language_code") :
    cleanLanguage (cleanDiarization S c) key = c key := by
  have hfirst : cleanDiarization S c key = c key := by
    unfold cleanDiarization
    cases c "asr_speaker_diarization" with
    | none => rfl
    | some requested => exact set_kept hdiarization _
  rw [← hfirst]
  unfold cleanLanguage
  generalize cleanDiarization S c = d
  cases d "tts_language_code" with
  | none => rfl
  | some value =>
    cases value with
    | null => rfl
    | str text =>
      dsimp only
      split
      · exact pop_kept hlanguage
      · exact set_kept hlanguage _
    | _ => exact pop_kept hlanguage

theorem Agreeing.eq {x x' : Except Raised Config} (h : Agreeing (Pending S []) x x') :
    x = x' := by
  cases h with
  | error e => rfl
  | ok h => exact congrArg _ (funext fun key => h key fun ⟨_, hmem, _⟩ => by cases hmem)

/-- An id that is in the catalog is a text with something in it. -/
theorem resolved_id {category : String} {value : Option Json}
    (h : (loadServiceEntryById S category (idText value)).isSome) :
    ∃ id, value = some (.str id) ∧ id ≠ "" := by
  have hne : idText value ≠ "" := by
    intro hempty
    rw [loadServiceEntryById, if_pos (.inl hempty)] at h
    cases h
  cases value with
  | none => exact absurd rfl hne
  | some v =>
    cases v with
    | str id => exact ⟨id, rfl, hne⟩
    | _ => exact absurd rfl hne

theorem id_keys : ∀ slot ∈ catalogHydration, slot.idField ≠ "asr_speaker_diarization" ∧
    slot.idField ≠ "tts_language_code" ∧ slot.idField ≠ "tts_zero_shot_audio_prompt_file" ∧
      slot.idField ∈ sessionConfigKeys := by
  decide

theorem id_allowed {slot : Slot} (hslot : slot ∈ catalogHydration) (hactive : isActive S slot) :
    slot.idField ∈ allowedKeys S := by
  have hconfig : ∀ slot ∈ catalogHydration, slot.idField ∈ slot.configKeys := by decide
  unfold allowedKeys
  unfold isActive at hactive
  split
  · exact (id_keys slot hslot).2.2.2
  · rename_i services hservices
    rw [hservices] at hactive
    apply List.mem_append_right
    refine List.mem_flatMap.mpr ⟨slot.category, of_decide_eq_true hactive, ?_⟩
    refine List.mem_flatMap.mpr ⟨slot, List.mem_filter.mpr ⟨hslot, ?_⟩, hconfig slot hslot⟩
    exact decide_eq_true rfl

/-- The fields that the catalog owns make no difference. -/
theorem catalogOwned_ignored (S : Server) (data data' : Config)
    (hsame : ∀ key, ¬catalogOwned key → data key = data' key)
    (hresolved : ∀ slot ∈ catalogHydration, isActive S slot = true →
      (loadServiceEntryById S slot.category (idText (data slot.idField))).isSome) :
    filterSessionConfig S data = filterSessionConfig S data' := by
  have hids : ∀ slot ∈ catalogHydration, data slot.idField = data' slot.idField := by
    intro slot hslot
    refine hsame _ fun howned => ?_
    obtain ⟨other, hother, howns⟩ := howned
    exact (unowned slot hslot other hother).1 howns.1
  have hchecked : catalogHydration.all (idIsText data) = catalogHydration.all (idIsText data') := by
    rw [Bool.eq_iff_iff, List.all_eq_true, List.all_eq_true]
    refine forall_congr' fun slot => forall_congr' fun hslot => ?_
    rw [idIsText, idIsText, hids slot hslot]
  unfold filterSessionConfig
  rw [hchecked]
  split
  · have hfiltered := agree_pop (agree_keptKeys (S := S) hsame) "tts_zero_shot_audio_prompt_file"
    have hclean := agree_clean (S := S) hfiltered
      (not_pending (List.Subset.refl _) (by decide)) fun hpending => by
        obtain ⟨other, -, -, howns⟩ := hpending
        exact howns.2 (by decide)
    have hresolved' : ∀ slot ∈ catalogHydration, isActive S slot = true →
        (loadServiceEntryById S slot.category (idText ((cleanLanguage (cleanDiarization S
          ((keptKeys S data).pop "tts_zero_shot_audio_prompt_file"))) slot.idField))).isSome := by
      intro slot hslot hactive
      obtain ⟨id, hid, hne⟩ := resolved_id (hresolved slot hslot hactive)
      obtain ⟨hdiarization, hlanguage, hpath, hsession⟩ := id_keys slot hslot
      have hkept : keptKeys S data slot.idField = data slot.idField := by
        have hblank : isBlank (.str id) = false := by simp [isBlank, hne]
        unfold keptKeys
        rw [if_pos ⟨hsession, id_allowed hslot hactive⟩, hid]
        simp [hblank]
      rw [clean_kept hdiarization hlanguage, pop_kept hpath, hkept]
      exact hresolved slot hslot hactive
    have hagree := agree_hydrateSlots (List.Subset.refl _) hresolved' hclean
    exact hagree.eq
  · rfl

def nanoEntry : Entry where
  fields := (Fields.nil.set "model_id" (.str "nano-9b")).set "base_url" (.str "http://llm:8000")
  settings := none

/-- A server with one model in its catalog. -/
def oneModel : Server where
  floats :=
    { worth := fun _ => .nan, ofInt := fun _ => none, parseInt := fun _ => none
      parseFloat := fun _ => none, sub := fun a _ => a, lower := id }
  str value := match value with
    | .str text => text
    | _ => ""
  lower := id
  dumps _ := ""
  compactDumps _ := ""
  loads _ := none
  bySource _ _ _ := none
  effective category key := if category = "llm" ∧ key = "nano" then some nanoEntry else none
  services := some ["llm"]
  streamingInput := false

def askForModel (url : String) : Config := fun key =>
  if key = "llm_id" then some (.str "nano")
  else if key = "base_url" then some (.str url)
  else none

/-- The endpoint that a client asks for is not the one it gets. -/
theorem base_url_ignored :
    filterSessionConfig oneModel (askForModel "http://a") =
      filterSessionConfig oneModel (askForModel "http://b") ∧
    (filterSessionConfig oneModel (askForModel "http://a")).toOption.bind (fun c => c "base_url") =
      some (.str "http://llm:8000") := by
  refine ⟨catalogOwned_ignored oneModel _ _ ?_ (by decide +kernel), by decide +kernel⟩
  intro key hkey
  have hne : key ≠ "base_url" := by
    rintro rfl
    exact hkey ⟨_, List.mem_cons_self, by decide⟩
  unfold askForModel
  rw [if_neg hne, if_neg hne]

end Requests

end VoiceAgent.CatalogIsolation
