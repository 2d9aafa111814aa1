import VoiceAgent.Negotiation
import VoiceAgent.EndpointIsolation
import VoiceAgent.CatalogIsolation
import VoiceAgent.SessionSound
import Mathlib.Data.List.Induction

/-!
The `nvidia` object of a published session, against the configuration that the pipeline is
started with. The object is merged from what clients send and then overwritten with what the
sanitized configuration has, so a detail that the configuration lacks stays as it was.
-/
namespace VoiceAgent.NvidiaView

open JsonValues SessionView Gateway Negotiation EndpointIsolation SessionSound

section Details

/-- The public keys whose values come from the catalog. -/
def detailKeys : List String :=
  nvidiaSessionKeys.filter fun key =>
    key ∈ CatalogHydration.catalogHydration.flatMap CatalogHydration.Slot.bodyFields

/-- What the object shows under a key. -/
def shownDetail (s : RealtimeSession) (key : String) : Option Json :=
  sub (s.view.get? "nvidia") key

/-- Every detail that is shown is the one of the configuration. -/
def Truthful (s : RealtimeSession) : Prop :=
  ∀ key ∈ detailKeys, ∀ value, shownDetail s key = some value →
    s.flatConfig.get? key = some value

/-- The value of a key in a configuration, if it is not blank. -/
def given (config : Fields) (key : String) : Option Json :=
  match config.get? key with
  | none | some .null | some (.str "") => none
  | some value => some value

/-- The configuration has a value for every detail that the object has when the patch has been
merged into it. -/
def Covers (s : RealtimeSession) (patch config : Fields) : Prop :=
  ∀ key ∈ detailKeys, ∀ value, (mergedNvidia s.view patch).get? key = some value →
    (given config key).isSome = true ∨ config.get? key = some value

variable {s : RealtimeSession} {patch config view n : Fields} {key k : String} {keys : List String}

theorem detail_public (h : key ∈ detailKeys) :
    key ∈ nvidiaSessionKeys ∧ key ∈ nvidiaPublicKeys ∧
      key ≠ "pipeline_mode" ∧ key ≠ "prompt_key" ∧ key ≠ "server_tools" := by
  have hall : ∀ key ∈ detailKeys, key ∈ nvidiaSessionKeys ∧ key ∈ nvidiaPublicKeys ∧
      key ≠ "pipeline_mode" ∧ key ≠ "prompt_key" ∧ key ≠ "server_tools" := by decide
  exact hall key h

theorem given_eq_some {value : Json} (h : given config key = some value) :
    config.get? key = some value := by
  unfold given at h
  split at h <;> simp_all

theorem keepSanitized_eq (config n : Fields) (key : String) :
    keepSanitized config n key = setIfPresent n key (given config key) := by
  cases hvalue : config.get? key with
  | none => simp [keepSanitized, given, hvalue, setIfPresent]
  | some value =>
    cases value with
    | str text =>
      by_cases hempty : text = ""
      · simp [keepSanitized, given, hvalue, hempty, setIfPresent]
      · simp [keepSanitized, given, hvalue, hempty, setIfPresent]
    | _ => simp [keepSanitized, given, hvalue, setIfPresent]

theorem get?_keepSanitized (config n : Fields) (key k : String) :
    (keepSanitized config n key).get? k =
      if key = k then (given config k).or (n.get? k) else n.get? k := by
  rw [keepSanitized_eq]
  by_cases hk : key = k
  · subst hk
    rw [if_pos rfl]
    cases given config key <;> simp [setIfPresent]
  · have hk' : k ≠ key := fun heq => hk heq.symm
    rw [if_neg hk]
    cases given config key <;> simp [setIfPresent, hk']

/-- Of the keys that are copied, a given value replaces what was there. -/
theorem get?_keepAll (hk : k ∈ keys) (n : Fields) :
    (keys.foldl (keepSanitized config) n).get? k = (given config k).or (n.get? k) := by
  have hstays : ∀ (keys : List String) (n : Fields), n.get? k = (given config k).or (n.get? k) →
      (keys.foldl (keepSanitized config) n).get? k = n.get? k := by
    intro keys
    induction keys with
    | nil => exact fun n _ => rfl
    | cons key rest ih =>
      intro n hn
      have hkept : (keepSanitized config n key).get? k = n.get? k := by
        rw [get?_keepSanitized]
        split
        · exact hn.symm
        · rfl
      rw [List.foldl_cons, ih _ (by rw [hkept]; exact hn), hkept]
  induction keys generalizing n with
  | nil => cases hk
  | cons key rest ih =>
    rw [List.foldl_cons]
    by_cases hkey : key = k
    · have hset : (keepSanitized config n key).get? k = (given config k).or (n.get? k) := by
        rw [get?_keepSanitized, if_pos hkey]
      rw [hstays rest _ (by rw [hset]; cases given config k <;> rfl), hset]
    · have hrest : k ∈ rest := (List.mem_cons.mp hk).resolve_left fun heq => hkey heq.symm
      rw [ih hrest, get?_keepSanitized, if_neg hkey]

theorem get?_applyNvidia (hkey : key ∈ detailKeys) (s : RealtimeSession)
    (view patch config : Fields) :
    (applyNvidia s view patch config).get? key =
      (given config key).or ((mergedNvidia view patch).get? key) := by
  obtain ⟨hsession, hpublic, hmode, hprompt, htools⟩ := detail_public hkey
  have hkeepTools : ∀ n, (keepTools config n).get? key = n.get? key := by
    intro n
    unfold keepTools
    split
    · exact get?_set_ne n _ htools
    · rfl
  rw [applyNvidia_eq]
  unfold withDefaults
  dsimp only
  rw [get?_setUnless hprompt, get?_setUnless hmode, nvidiaPublicView, get?_filter,
    if_pos (by simpa using hpublic), hkeepTools, get?_keepAll hsession]

/-- A merge leaves alone what the patch does not have. -/
theorem get?_mergeInto_absent (h : k ∉ patch.keys) (base : Fields) :
    (patch.mergeInto base).get? k = base.get? k := by
  induction patch using Fields.listInduction generalizing base with
  | nil => rfl
  | cons key value rest ih =>
    have hne : k ≠ key := fun heq => h (heq ▸ List.mem_cons_self)
    have hrest : k ∉ rest.keys := fun hk => h (List.mem_cons_of_mem _ hk)
    rw [Fields.mergeInto, ih hrest, get?_set_ne base _ hne]

theorem get?_applyLegacyAudio_nvidia (view patch : Fields) :
    (applyLegacyAudio view patch).get? "nvidia" = view.get? "nvidia" := by
  unfold applyLegacyAudio
  split <;> simp

/-- An update changes the object in one place. -/
theorem nvidia_applyUpdate_eq (s : RealtimeSession) (patch config : Fields) :
    ∃ view, view.get? "nvidia" = s.view.get? "nvidia" ∧
      (s.applyUpdate patch config).view.get? "nvidia" =
        some (.obj (applyNvidia s view patch config)) := by
  have hmerged : (mergeSessionPatch s.view (patch.filter (· ≠ "nvidia"))).get? "nvidia" =
      s.view.get? "nvidia" := by
    refine get?_mergeInto_absent (get?_eq_none_iff.mp ?_) _
    rw [get?_filter, if_neg (by simp)]
  have hagent : ∀ view : Fields,
      (applyAgentFields view patch).get? "nvidia" = view.get? "nvidia" := fun view =>
    get?_applyAgentFields view patch (by decide)
  unfold RealtimeSession.applyUpdate
  dsimp only
  generalize hview : (((applyLegacyAudio (mergeSessionPatch s.view
    (patch.filter (· ≠ "nvidia"))) patch).set "id" (.str s.id)).set "object"
      (.str "realtime.session")).set "type" (.str "realtime") = view
  refine ⟨view, ?_, ?_⟩
  · rw [← hview, get?_set_ne _ _ (by decide), get?_set_ne _ _ (by decide),
      get?_set_ne _ _ (by decide), get?_applyLegacyAudio_nvidia, hmerged]
  · split
    · split
      · rw [get?_setVoice _ _ (by decide), hagent, get?_set_self]
      · rw [hagent, get?_set_self]
    · rw [hagent, get?_set_self]

theorem shownDetail_applyUpdate (hkey : key ∈ detailKeys) (s : RealtimeSession)
    (patch config : Fields) :
    shownDetail (s.applyUpdate patch config) key =
      (given config key).or ((mergedNvidia s.view patch).get? key) := by
  obtain ⟨view, hview, hnvidia⟩ := nvidia_applyUpdate_eq s patch config
  have hmerged : mergedNvidia view patch = mergedNvidia s.view patch := by
    unfold mergedNvidia
    rw [hview]
  rw [shownDetail, hnvidia, ← hmerged]
  exact get?_applyNvidia hkey s view patch config

/-- One update leaves the object truthful exactly if its configuration covers it. -/
theorem truthful_applyUpdate (s : RealtimeSession) (patch config : Fields) :
    Truthful (s.applyUpdate patch config) ↔ Covers s patch config := by
  have hflat : (s.applyUpdate patch config).flatConfig = config := rfl
  constructor
  · intro h key hkey value hvalue
    cases hgiven : given config key with
    | some own => exact .inl rfl
    | none =>
      have hshown := shownDetail_applyUpdate hkey s patch config
      rw [hgiven, Option.none_or, hvalue] at hshown
      exact .inr (h key hkey value hshown)
  · intro h key hkey value hvalue
    rw [shownDetail_applyUpdate hkey] at hvalue
    rw [hflat]
    cases hgiven : given config key with
    | some own =>
      rw [hgiven, Option.some_or] at hvalue
      rw [given_eq_some hgiven, hvalue]
    | none =>
      rw [hgiven, Option.none_or] at hvalue
      rcases h key hkey value hvalue with hsome | heq
      · rw [hgiven] at hsome
        cases hsome
      · exact heq

end Details

section Runs

/-- The patch and the configuration of an update that is accepted. -/
def accepted (C : Callbacks) (s : RealtimeSession) (session : Option Json) :
    Option (Fields × Fields) :=
  match session with
  | some (.obj patch) =>
    match sanitizedUpdate C s.flatConfig patch with
    | .ok sanitized =>
      match C.ready.map (· sanitized) with
      | some (Except.error _) => none
      | _ => some (patch, sanitized)
    | .error _ => none
  | _ => none

/-- The session after some updates, each with what the server is like when it comes. -/
def sessionAfter (s : RealtimeSession) (updates : List (Callbacks × Option Json)) :
    RealtimeSession :=
  updates.foldl (fun s update => (handleUpdate update.1 s update.2).1) s

variable {C : Callbacks} {s : RealtimeSession} {session : Option Json}

theorem accepted_eq_some {patch config : Fields} :
    accepted C s session = some (patch, config) ↔ Applies C s session patch config := by
  constructor
  · intro h
    unfold accepted at h
    split at h
    · rename_i asked
      split at h
      · rename_i sanitized hsanitized
        split at h
        · cases h
        · rename_i hready
          obtain ⟨rfl, rfl⟩ := Prod.mk.inj (Option.some.inj h)
          exact ⟨rfl, hsanitized, fun why hwhy => hready why hwhy⟩
      · cases h
    · cases h
  · rintro ⟨rfl, hsanitized, hready⟩
    simp only [accepted, hsanitized]

/-- An update is answered with a session exactly if it is accepted, and then it is applied. -/
theorem handleUpdate_accepted {patch config : Fields}
    (h : accepted C s session = some (patch, config)) :
    (handleUpdate C s session).1 = s.applyUpdate patch config ∧
      (handleUpdate C s session).2.1 = .updated (s.applyUpdate patch config).view := by
  rcases handleUpdate_cases C s session with
    ⟨asked, sanitized, happlies, heq⟩ | ⟨hrefused, -⟩
  · rw [accepted_eq_some.mpr happlies] at h
    obtain ⟨rfl, rfl⟩ := Prod.mk.inj (Option.some.inj h)
    rw [heq]
    exact ⟨rfl, rfl⟩
  · exact absurd (accepted_eq_some.mp h) (hrefused patch config)

theorem handleUpdate_rejected (h : accepted C s session = none) :
    (handleUpdate C s session).1 = s ∧ (handleUpdate C s session).2.1.session = none := by
  rcases handleUpdate_cases C s session with
    ⟨patch, sanitized, happlies, -⟩ | ⟨-, answer, hanswer, heq⟩
  · rw [accepted_eq_some.mpr happlies] at h
    cases h
  · rw [heq]
    exact ⟨rfl, hanswer⟩

theorem truthful_fresh (id mode : String) : Truthful (.fresh id mode) := by
  intro key hkey value hvalue
  obtain ⟨-, -, hmode, hprompt, -⟩ := detail_public hkey
  have hshown : shownDetail (.fresh id mode) key = (defaultNvidia mode).get? key := rfl
  rw [hshown] at hvalue
  simp [defaultNvidia, Fields.get?, hmode.symm, hprompt.symm] at hvalue

theorem sessionAfter_append (s : RealtimeSession) (before : List (Callbacks × Option Json))
    (C : Callbacks) (session : Option Json) :
    sessionAfter s (before ++ [(C, session)]) =
      (handleUpdate C (sessionAfter s before) session).1 := by
  simp [sessionAfter]

/-- The object is truthful after each of some updates exactly if each that is accepted has a
configuration that covers it. -/
theorem view_truthful (id mode : String) (updates : List (Callbacks × Option Json)) :
    (∀ before, before <+: updates → Truthful (sessionAfter (.fresh id mode) before)) ↔
      ∀ before C session, before ++ [(C, session)] <+: updates → ∀ patch config,
        accepted C (sessionAfter (.fresh id mode) before) session = some (patch, config) →
          Covers (sessionAfter (.fresh id mode) before) patch config := by
  constructor
  · intro h before C session hbefore patch config haccepted
    have htruthful := h _ hbefore
    rw [sessionAfter_append, (handleUpdate_accepted haccepted).1] at htruthful
    exact (truthful_applyUpdate _ _ _).mp htruthful
  · intro h before
    induction before using List.reverseRecOn with
    | nil => exact fun _ => truthful_fresh id mode
    | append_singleton before update ih =>
      intro hbefore
      obtain ⟨C, session⟩ := update
      have hearlier := ih ((List.prefix_append _ _).trans hbefore)
      rw [sessionAfter_append]
      cases haccepted : accepted C (sessionAfter (.fresh id mode) before) session with
      | none =>
        rw [(handleUpdate_rejected haccepted).1]
        exact hearlier
      | some applied =>
        obtain ⟨patch, config⟩ := applied
        rw [(handleUpdate_accepted haccepted).1]
        exact (truthful_applyUpdate _ _ _).mpr (h before C session hbefore patch config haccepted)

/-- The keys that a configuration can have. -/
def configKeys : List String :=
  CatalogHydration.sessionConfigKeys ++ CatalogHydration.catalogOnlyBodyFields

/-- `filter_session_config`, as the gateway is handed it. -/
def sanitizeFrom (S : CatalogHydration.Server) (data : Fields) : Except Raised Fields :=
  match CatalogHydration.filterSessionConfig S data.get? with
  | .ok config => .ok (configKeys.foldl (fun out key => setIfPresent out key (config key)) .nil)
  | .error .valueError => .error (.refused "a service selection id must be a string")
  | .error _ => .error .other

/-- A server with one model, which has no extra parameters in the catalog. -/
def oneModelGateway : Callbacks where
  toServer := { plainServer with sanitize := sanitizeFrom CatalogIsolation.oneModel }
  resolveVoice config _ _ := .ok (none, config)

/-- A client asks for the model and for extra parameters. -/
def extraParams : Option Json :=
  some (.obj (Fields.nil.set "nvidia" (.obj
    ((Fields.nil.set "llm_id" (.str "nano")).set "extra_params" (.str "custom")))))

def extraParamsSession : RealtimeSession :=
  sessionAfter (.fresh "sess_1" "generic_assistant") [(oneModelGateway, extraParams)]

/-- They are shown, and are not in the configuration. -/
theorem extraParams_shown :
    shownDetail extraParamsSession "extra_params" = some (.str "custom") ∧
      extraParamsSession.flatConfig.get? "model_id" = some (.str "nano-9b") ∧
      extraParamsSession.flatConfig.get? "extra_params" = none ∧
      ¬Truthful extraParamsSession := by
  have hshown : shownDetail extraParamsSession "extra_params" = some (.str "custom") := by
    decide +kernel
  have habsent : extraParamsSession.flatConfig.get? "extra_params" = none := by decide +kernel
  refine ⟨hshown, by decide +kernel, habsent, fun h => ?_⟩
  have hflat := h "extra_params" (by decide) _ hshown
  rw [habsent] at hflat
  cases hflat

end Runs

end VoiceAgent.NvidiaView
