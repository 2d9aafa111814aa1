import VoiceAgent.SettingsSchema
import VoiceAgent.CatalogIsolation

/-!
The settings of a service are applied twice: `_attach_settings` bakes their defaults into the
extra parameters of an entry, and the hydration of a request applies the client's values to what
has been baked. At the paths of the settings this is the same as once, but for one case: extra
parameters that would end up empty are left as they were baked.
-/
namespace VoiceAgent.TwoStageSettings

open JsonValues SessionView ServiceSettings SettingsSchema CatalogHydration CatalogIsolation

section Paths
variable {p q : List String} {f g : Fields}

/-- The same stands at a path of two objects. -/
def SameAt (p : List String) (f g : Fields) : Prop := getPath p f = getPath p g

theorem sameAt_cons {a : String} {rest : List String} (hrest : rest ≠ []) :
    SameAt (a :: rest) f g ↔ SameAt rest (objectOr (f.get? a)) (objectOr (g.get? a)) := by
  rw [SameAt, SameAt, getPath_under hrest, getPath_under hrest]

/-- What is done at a path leaves two objects the same wherever they are. -/
theorem SameAt.atPath {op : List String → Fields → Fields} (hop : AtPath op) (hp : p ≠ [])
    (hq : q ≠ []) (h : SameAt p f g) : SameAt p (op q f) (op q g) := by
  induction q generalizing p f g with
  | nil => exact absurd rfl hq
  | cons b later ih =>
    obtain ⟨a, rest, rfl⟩ := List.exists_cons_of_ne_nil hp
    by_cases hrest : rest = []
    · subst hrest
      change f.get? a = g.get? a at h
      change (op (b :: later) f).get? a = (op (b :: later) g).get? a
      by_cases hab : a = b
      · subst hab
        exact hop.field a later f g fun _ => h
      · rw [hop.aside hab, hop.aside hab]
        exact h
    · rw [sameAt_cons hrest] at h ⊢
      by_cases hab : a = b
      · subst hab
        by_cases hlater : later = []
        · subst hlater
          rw [hop.field a [] f g fun hne => absurd rfl hne]
          exact rfl
        · rw [hop.below hlater, hop.below hlater]
          exact ih hrest hlater h
      · rw [hop.aside hab, hop.aside hab]
        exact h

end Paths

section Applied
variable {F : Floats} {resolved : Resolved} {schema : Schema} {values f g out : Fields}

theorem sameAt_writing {p : List String} (hp : p ≠ []) (h : SameAt p f g)
    (s : String × Setting) : SameAt p (written resolved f s) (written resolved g s) := by
  unfold written
  split
  · exact h.atPath (atPath_setPath _) hp (splitPath_ne_nil _)
  · exact h.atPath atPath_popPath hp (splitPath_ne_nil _)

theorem sameAt_foldl {p : List String} (hp : p ≠ []) (h : SameAt p f g) :
    SameAt p (schema.foldl (written resolved) f) (schema.foldl (written resolved) g) := by
  induction schema generalizing f g with
  | nil => exact h
  | cons s rest ih => exact ih (sameAt_writing hp h s)

/-- What stands at the path of a setting does not depend on what was there before. -/
theorem sameAt_written {s : String × Setting} (hs : s ∈ schema) (f g : Fields) :
    SameAt (pathOf s) (schema.foldl (written resolved) f)
      (schema.foldl (written resolved) g) := by
  obtain ⟨before, after, rfl⟩ := List.append_of_mem hs
  have hp : pathOf s ≠ [] := splitPath_ne_nil _
  have hown : ∀ f g, SameAt (pathOf s) (written resolved f s) (written resolved g s) := by
    intro f g
    unfold written
    split
    · exact (getPath_setPath hp f).trans (getPath_setPath hp g).symm
    · exact (getPath_popPath hp f).trans (getPath_popPath hp g).symm
  rw [List.foldl_append, List.foldl_append, List.foldl_cons, List.foldl_cons]
  exact sameAt_foldl hp (hown _ _)

/-- Whether settings can be applied does not depend on what they are applied to, and nor does
what then stands at their paths. -/
theorem applied_sameAt (hout : applyServiceSettings F f schema values = .ok out) (g : Fields) :
    ∃ once, applyServiceSettings F g schema values = .ok once ∧
      ∀ s ∈ schema, SameAt (pathOf s) out once := by
  unfold applyServiceSettings at hout ⊢
  cases hresolved : resolve F schema values with
  | error e =>
    rw [hresolved] at hout
    cases hout
  | ok resolved =>
    rw [hresolved] at hout
    obtain ⟨hanswers, rfl⟩ := foldlM_writeSetting.mp hout
    exact ⟨_, foldlM_writeSetting.mpr ⟨hanswers, rfl⟩, fun s hs => sameAt_written hs f g⟩

end Applied

section Baking
variable (S : Server)

/-- What `_attach_settings` raises: a `RuntimeError`, or what comes of the settings. -/
inductive AttachError
  | runtime
  | raised (why : ServiceSettings.Raised)
  deriving DecidableEq

/-- `_entry_settings_schema` -/
def entrySettingsSchema (profile : Schema) (extraParams : Fields) : Schema :=
  profile.map fun setting => match getPath (pathOf setting) extraParams with
    | none => setting
    | some value => (setting.1, { setting.2 with default := value })

/-- The defaults of the registry go before those of the entry. -/
def withOverrides (overrides : Fields) (schema : Schema) : Schema :=
  schema.map fun setting => match overrides.get? setting.1 with
    | some value => (setting.1, { setting.2 with default := value })
    | none => setting

/-- The schema of an entry. -/
def bakedSchema (entry : Fields) (profile : Schema) (overrides : Fields) : Schema :=
  withOverrides overrides
    (entrySettingsSchema profile (parseJsonDict S (entry.get? "extra_params")))

/-- The extra parameters of an entry with its defaults. -/
def bakedParams (entry : Fields) (profile : Schema) (overrides : Fields) :
    Except ServiceSettings.Raised Fields :=
  applyServiceSettings S.floats (parseJsonDict S (entry.get? "extra_params"))
    (bakedSchema S entry profile overrides) .nil

/-- `_attach_settings`, for an entry with a profile in a category with extra parameters. -/
def attachSettings (entry : Fields) (profile : Schema) (overrides : Fields) :
    Except AttachError Entry :=
  if overrides.keys.any fun name => decide (name ∉ profile.map Prod.fst) then .error .runtime
  else
    match bakedParams S entry profile overrides with
    | .error why => .error (.raised why)
    | .ok applied => .ok
      { fields := (entry.filter (· ≠ "settings")).set "extra_params"
          (.str (S.compactDumps (.obj applied)))
        settings := some (bakedSchema S entry profile overrides) }

end Baking

section Hydrated
variable {S : Server} {slot : Slot} {extraField : String} {entry : Entry} {c d : Config}
  {baked : Fields} {schema : Schema}

/-- Python reads back the object that it has written. -/
def ReadsBack (S : Server) (f : Fields) : Prop :=
  S.compactDumps (.obj f) ≠ "" ∧ S.loads (S.compactDumps (.obj f)) = some (.obj f)

theorem parseJsonDict_text {f : Fields} (h : ReadsBack S f) :
    parseJsonDict S (some (.str (S.compactDumps (.obj f)))) = f := by
  change (if S.compactDumps (.obj f) = "" then Fields.nil
    else objectOr (S.loads (S.compactDumps (.obj f)))) = f
  rw [if_neg h.1, h.2]
  rfl

/-- Where a slot with extra parameters stands among the others, and what it shares with them. -/
structure ExtraSlot (slot : Slot) (extraField : String) (before after : List Slot) : Prop where
  order : catalogHydration = before ++ slot :: after
  last : ∃ front, slot.fieldMap = front ++ [("extra_params", extraField)]
  lookup : slot.fieldMap.lookup "extra_params" = some extraField
  own : extraField ∉ clientOverridableBodyFields
  endpoint : slot.fieldMap.lookup "base_url" ≠ some extraField
  settings : slot.settingsField ≠ ""
  id : slot.idField ≠ slot.settingsField ∧ slot.idField ≠ slot.streamingField
  separate : slot.settingsField ≠ slot.streamingField
  earlier : ∀ other ∈ before, ∀ key ∈ [slot.idField, slot.settingsField],
    key ∉ other.bodyFields ∧ key ≠ other.settingsField ∧ key ≠ other.streamingField
  later : ∀ other ∈ after,
    extraField ∉ other.bodyFields ∧ extraField ≠ other.settingsField ∧
      extraField ≠ other.streamingField

/-- The slots of the two language models are the ones with extra parameters. -/
theorem exists_extraSlot (hslot : slot ∈ catalogHydration)
    (h : slot.fieldMap.lookup "extra_params" = some extraField) :
    ∃ before after, ExtraSlot slot extraField before after := by
  simp only [catalogHydration, List.mem_cons, List.not_mem_nil, or_false] at hslot
  rcases hslot with rfl | rfl | rfl | rfl
  · obtain rfl : "extra_params" = extraField := Option.some.inj h
    refine ⟨[], catalogHydration.tail,
      ⟨rfl, ⟨[("model_id", "model_id"), ("base_url", "base_url"),
        ("system_prompt", "system_prompt"), ("max_tokens", "max_tokens"),
        ("temperature", "temperature")], rfl⟩, rfl, ?_, ?_, ?_, ?_, ?_, ?_, ?_⟩⟩ <;> decide
  · obtain rfl : "thinker_extra_params" = extraField := Option.some.inj h
    refine ⟨catalogHydration.take 1, catalogHydration.drop 2,
      ⟨rfl, ⟨[("model_id", "thinker_model_id"), ("base_url", "thinker_base_url"),
        ("max_tokens", "thinker_max_tokens")], rfl⟩, rfl, ?_, ?_, ?_, ?_, ?_, ?_, ?_⟩⟩ <;> decide
  · cases h
  · cases h

theorem setFromEntry_text {text yamlField : String}
    (h : entry.fields.get? yamlField = some (.str text)) (hne : text ≠ "") (bodyField : String) :
    setFromEntry S entry c yamlField bodyField = c.set bodyField (.str text) := by
  simp [setFromEntry, h]

/-- The extra parameters of the entry, whatever the client has put there. -/
theorem hydrateFields_extra {before after : List Slot}
    (hextra : ExtraSlot slot extraField before after)
    {text : String} (h : entry.fields.get? "extra_params" = some (.str text)) (hne : text ≠ "") :
    slot.fieldMap.foldl (hydrateField S entry) c extraField = some (.str text) := by
  obtain ⟨front, hfront⟩ := hextra.last
  rw [hfront, List.foldl_append, List.foldl_cons, List.foldl_nil]
  unfold hydrateField
  rw [if_neg fun hown => hextra.own hown.1, setFromEntry_text h hne]
  exact if_pos rfl

theorem hydrateStreaming_extra {before after : List Slot}
    (hextra : ExtraSlot slot extraField before after) {userStreaming : Option Json}
    (h : hydrateStreaming S slot entry userStreaming c = .ok d) : d extraField = c extraField := by
  unfold hydrateStreaming at h
  dsimp only at h
  split at h
  · split at h
    · cases h
    · rename_i field hlookup
      have hne : extraField ≠ field := fun heq => hextra.endpoint (heq ▸ hlookup)
      rw [← Except.ok.inj h]
      exact set_kept hne _
  · rw [Except.ok.inj h]

/-- The hydration of a slot: the settings are applied to the extra parameters of the entry, and
what comes of it is written unless it is empty. -/
theorem hydrateSlot_extra {before after : List Slot}
    (hextra : ExtraSlot slot extraField before after)
    (hload : loadServiceEntryById S slot.category (idText (c slot.idField)) = some entry)
    (hsettings : entry.settings = some schema)
    (hfield : entry.fields.get? "extra_params" = some (.str (S.compactDumps (.obj baked))))
    (hbaked : ReadsBack S baked) (h : hydrateSlot S c slot = .ok d) :
    ∃ extra, applyServiceSettings S.floats baked schema
        (parseJsonDict S (c slot.settingsField)) = .ok extra ∧
      d extraField =
        some (.str (S.compactDumps (.obj (if extra = .nil then baked else extra)))) := by
  have hid : popField (popField c slot.settingsField) slot.streamingField slot.idField =
      c slot.idField := by
    rw [popField_of_ne hextra.id.2, popField_of_ne hextra.id.1]
  have hread : readField c slot.settingsField = c slot.settingsField := if_neg hextra.settings
  have hfields := hydrateFields_extra (S := S) hextra hfield hbaked.1
    (c := popField (popField c slot.settingsField) slot.streamingField)
  unfold hydrateSlot at h
  dsimp only at h
  rw [hid, hload, hread] at h
  dsimp only at h
  unfold hydrateAttached at h
  rw [hsettings] at h
  dsimp only at h
  rw [if_neg hextra.settings] at h
  unfold hydrateSettings at h
  dsimp only at h
  rw [hextra.lookup] at h
  dsimp only at h
  rw [hfields, parseJsonDict_text hbaked] at h
  cases happlied : applyServiceSettings S.floats baked schema
      (parseJsonDict S (c slot.settingsField)) with
  | error e =>
    rw [happlied] at h
    cases h
  | ok extra =>
    rw [happlied] at h
    refine ⟨extra, rfl, ?_⟩
    rw [hydrateStreaming_extra hextra h]
    by_cases hempty : extra = .nil
    · rw [if_pos hempty, if_pos hempty, hfields]
    · rw [if_neg hempty, if_neg hempty]
      exact if_pos rfl

/-- Slots that do not write a key leave it alone. -/
theorem hydrateSlots_kept {slots : List Slot} {key : String}
    (hkey : ∀ other ∈ slots,
      key ∉ other.bodyFields ∧ key ≠ other.settingsField ∧ key ≠ other.streamingField)
    (h : slots.foldlM (hydrateSlot S) c = .ok d) : d key = c key := by
  induction slots generalizing c with
  | nil => rw [Except.ok.inj h]
  | cons other rest ih =>
    rw [List.foldlM_cons] at h
    obtain ⟨hfields, hsettings, hstreaming⟩ := hkey other List.mem_cons_self
    cases hfirst : hydrateSlot S c other with
    | error e =>
      rw [hfirst] at h
      cases h
    | ok c' =>
      rw [hfirst] at h
      rw [ih (fun other hother => hkey other (List.mem_cons_of_mem _ hother)) h,
        hydrateSlot_kept hfirst hfields hsettings hstreaming]

/-- The same over all slots. -/
theorem hydrateConfig_extra {before after : List Slot}
    (hextra : ExtraSlot slot extraField before after)
    (hload : loadServiceEntryById S slot.category (idText (c slot.idField)) = some entry)
    (hsettings : entry.settings = some schema)
    (hfield : entry.fields.get? "extra_params" = some (.str (S.compactDumps (.obj baked))))
    (hbaked : ReadsBack S baked) (h : hydrateConfigFromCatalog S c = .ok d) :
    ∃ extra, applyServiceSettings S.floats baked schema
        (parseJsonDict S (c slot.settingsField)) = .ok extra ∧
      d extraField =
        some (.str (S.compactDumps (.obj (if extra = .nil then baked else extra)))) := by
  unfold hydrateConfigFromCatalog at h
  rw [hextra.order, List.foldlM_append] at h
  cases hfirst : before.foldlM (hydrateSlot S) c with
  | error e =>
    rw [hfirst] at h
    cases h
  | ok c₁ =>
    rw [hfirst] at h
    have hrest : (slot :: after).foldlM (hydrateSlot S) c₁ = .ok d := h
    rw [List.foldlM_cons] at hrest
    have hid : c₁ slot.idField = c slot.idField :=
      hydrateSlots_kept (fun other hother => hextra.earlier other hother _ (by simp)) hfirst
    have hclient : c₁ slot.settingsField = c slot.settingsField :=
      hydrateSlots_kept (fun other hother => hextra.earlier other hother _ (by simp)) hfirst
    cases hown : hydrateSlot S c₁ slot with
    | error e =>
      rw [hown] at hrest
      cases hrest
    | ok c₂ =>
      rw [hown] at hrest
      have hlater : d extraField = c₂ extraField := hydrateSlots_kept hextra.later hrest
      rw [← hid] at hload
      obtain ⟨extra, happlied, hwritten⟩ :=
        hydrateSlot_extra hextra hload hsettings hfield hbaked hown
      rw [hclient] at happlied
      exact ⟨extra, happlied, hlater.trans hwritten⟩

/-- What `_attach_settings` bakes into an entry. -/
theorem attachSettings_baked {fields overrides : Fields} {profile : Schema}
    (h : attachSettings S fields profile overrides = .ok entry) :
    ∃ baked, bakedParams S fields profile overrides = .ok baked ∧
      entry.settings = some (bakedSchema S fields profile overrides) ∧
      entry.fields.get? "extra_params" = some (.str (S.compactDumps (.obj baked))) := by
  unfold attachSettings at h
  by_cases hunknown :
      (overrides.keys.any fun name => decide (name ∉ profile.map Prod.fst)) = true
  · rw [if_pos hunknown] at h
    cases h
  · rw [if_neg hunknown] at h
    cases happlied : bakedParams S fields profile overrides with
    | error why =>
      rw [happlied] at h
      cases h
    | ok baked =>
      rw [happlied] at h
      rw [← Except.ok.inj h]
      exact ⟨baked, rfl, rfl, get?_set_self _ _ _⟩

/-- The values of a client, applied to what is baked into an entry, give at the paths of the
settings what they give when they are applied once, exactly if they leave something of it or
nothing is baked at these paths. -/
theorem two_stages {fields overrides : Fields} {profile : Schema} (hslot : slot ∈ catalogHydration)
    (hlookup : slot.fieldMap.lookup "extra_params" = some extraField)
    (hattach : attachSettings S fields profile overrides = .ok entry)
    (hload : loadServiceEntryById S slot.category (idText (c slot.idField)) = some entry)
    (hhydrated : hydrateConfigFromCatalog S c = .ok d)
    (hbaked : ∀ baked, bakedParams S fields profile overrides = .ok baked → ReadsBack S baked)
    (happlied : ∀ baked extra, bakedParams S fields profile overrides = .ok baked →
      applyServiceSettings S.floats baked (bakedSchema S fields profile overrides)
        (parseJsonDict S (c slot.settingsField)) = .ok extra → ReadsBack S extra) :
    ∃ baked once, bakedParams S fields profile overrides = .ok baked ∧
      applyServiceSettings S.floats (parseJsonDict S (fields.get? "extra_params"))
        (bakedSchema S fields profile overrides) (parseJsonDict S (c slot.settingsField)) =
          .ok once ∧
      ((∀ s ∈ bakedSchema S fields profile overrides,
          getPath (pathOf s) (parseJsonDict S (d extraField)) = getPath (pathOf s) once) ↔
        applyServiceSettings S.floats baked (bakedSchema S fields profile overrides)
            (parseJsonDict S (c slot.settingsField)) ≠ .ok .nil ∨
          ∀ s ∈ bakedSchema S fields profile overrides, getPath (pathOf s) baked = none) := by
  obtain ⟨before, after, hextra⟩ := exists_extraSlot hslot hlookup
  obtain ⟨baked, hparams, hsettings, hfield⟩ := attachSettings_baked hattach
  obtain ⟨extra, hout, hwritten⟩ :=
    hydrateConfig_extra hextra hload hsettings hfield (hbaked baked hparams) hhydrated
  obtain ⟨once, honce, hsame⟩ := applied_sameAt hout (parseJsonDict S (fields.get? "extra_params"))
  refine ⟨baked, once, hparams, honce, ?_⟩
  rw [hout, hwritten]
  by_cases hempty : extra = .nil
  · -- the baked extra parameters stay
    rw [if_pos hempty, parseJsonDict_text (hbaked baked hparams)]
    have hnone : ∀ s ∈ bakedSchema S fields profile overrides,
        getPath (pathOf s) once = none := by
      intro s hs
      have hnil := hsame s hs
      rw [hempty] at hnil
      exact hnil.symm.trans (getPath_nil (splitPath_ne_nil _))
    have hrest : (∀ s ∈ bakedSchema S fields profile overrides,
        getPath (pathOf s) baked = getPath (pathOf s) once) ↔
        ∀ s ∈ bakedSchema S fields profile overrides, getPath (pathOf s) baked = none :=
      forall₂_congr fun s hs => by rw [hnone s hs]
    rw [hrest, hempty]
    exact ⟨.inr, fun h => h.resolve_left (fun hne => hne rfl)⟩
  · rw [if_neg hempty, parseJsonDict_text (happlied baked extra hparams hout)]
    refine ⟨fun _ => .inl fun heq => hempty (Except.ok.inj heq), fun _ => hsame⟩

end Hydrated

section Emptied

/-- A budget that stays under a limit. The limit is only sent with thinking, which has no
default. -/
def budgetProfile : Schema :=
  [("thinking", { kind := .bool, path := "thinking" }),
   ("limit", { kind := .int, default := .int 10000, requires := .str "thinking", path := "limit" }),
   ("budget", { kind := .int, default := .int 1000, min := some (.int 100), below := some "limit"
                path := "budget" })]

def budgetParams : Fields := Fields.nil.set "budget" (.int 1000)

def budgetText : String := "\x7b\"budget\":1000\x7d"

def nanoFields : Fields := Fields.nil.set "model_id" (.str "nano-9b")

def budgetEntry : Entry where
  fields := nanoFields.set "extra_params" (.str budgetText)
  settings := some budgetProfile

/-- A server with one model, which has the profile. -/
def budgetServer : Server :=
  { oneModel with
    floats := { oneModel.floats with ofInt := fun _ => some "" }
    compactDumps := fun value => if value = .obj budgetParams then budgetText else "\x7b\x7d"
    loads := fun text => some (.obj (if text = budgetText then budgetParams else .nil))
    effective := fun category key =>
      if category = "llm" ∧ key = "nano" then some budgetEntry else none }

/-- A request with a limit below the least budget. -/
def lowLimit : Config := fun key =>
  if key = "llm_id" then some (.str "nano")
  else if key = "llm_settings" then some (.obj (Fields.nil.set "limit" (.int 10)))
  else none

/-- The budget is off when the settings are applied once, and stays when they are applied to
what is baked. -/
theorem budget_kept :
    (attachSettings budgetServer nanoFields budgetProfile .nil).toOption.map Entry.fields =
        some budgetEntry.fields ∧
      (hydrateConfigFromCatalog budgetServer lowLimit).toOption.map
          (fun d => getPath ["budget"] (parseJsonDict budgetServer (d "extra_params"))) =
        some (some (.int 1000)) ∧
      (applyServiceSettings budgetServer.floats .nil budgetProfile
          (Fields.nil.set "limit" (.int 10))).toOption = some .nil := by
  decide +kernel

theorem two_stages_budget :
    ∃ d, hydrateConfigFromCatalog budgetServer lowLimit = .ok d ∧
      ∃ baked once, bakedParams budgetServer nanoFields budgetProfile .nil = .ok baked ∧
        applyServiceSettings budgetServer.floats
          (parseJsonDict budgetServer (nanoFields.get? "extra_params"))
          (bakedSchema budgetServer nanoFields budgetProfile .nil)
          (parseJsonDict budgetServer (lowLimit "llm_settings")) = .ok once ∧
        ((∀ s ∈ bakedSchema budgetServer nanoFields budgetProfile .nil,
            getPath (pathOf s) (parseJsonDict budgetServer (d "extra_params")) =
              getPath (pathOf s) once) ↔
          applyServiceSettings budgetServer.floats baked
              (bakedSchema budgetServer nanoFields budgetProfile .nil)
              (parseJsonDict budgetServer (lowLimit "llm_settings")) ≠ .ok .nil ∨
            ∀ s ∈ bakedSchema budgetServer nanoFields budgetProfile .nil,
              getPath (pathOf s) baked = none) := by
  have hbaked : bakedParams budgetServer nanoFields budgetProfile .nil = .ok budgetParams := by
    rfl
  have hextra : applyServiceSettings budgetServer.floats budgetParams
      (bakedSchema budgetServer nanoFields budgetProfile .nil)
      (parseJsonDict budgetServer (lowLimit "llm_settings")) = .ok .nil := by
    rfl
  have hattach : attachSettings budgetServer nanoFields budgetProfile .nil = .ok budgetEntry := by
    rfl
  cases hhydrated : hydrateConfigFromCatalog budgetServer lowLimit with
  | error why =>
    have hok : (hydrateConfigFromCatalog budgetServer lowLimit).toOption.isSome = true := by
      decide +kernel
    rw [hhydrated] at hok
    cases hok
  | ok d =>
    have hslot : catalogHydration.head (by decide) ∈ catalogHydration := List.head_mem _
    refine ⟨d, rfl, two_stages (S := budgetServer) (c := lowLimit) (d := d) hslot rfl hattach
      rfl hhydrated ?_ ?_⟩
    · intro baked h
      rw [hbaked] at h
      rw [← Except.ok.inj h]
      exact ⟨by decide, by decide⟩
    · intro baked extra h hout
      rw [hbaked] at h
      rw [← Except.ok.inj h] at hout
      rw [← Except.ok.inj (hextra.symm.trans hout)]
      exact ⟨by decide, by decide⟩

end Emptied

end VoiceAgent.TwoStageSettings
