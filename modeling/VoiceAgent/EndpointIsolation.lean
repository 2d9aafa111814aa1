import VoiceAgent.Gateway
import VoiceAgent.SessionSound

/-!
What a client can say in `session.nvidia`. A field that the gateway does not know changes nothing:
not the flat configuration, not the published session and not what a later update is answered.
And no endpoint of a service is published there, whatever the sanitizer puts into the
configuration.
-/
namespace VoiceAgent.EndpointIsolation

open JsonValues SessionView Gateway

section Fields
variable {f : Fields} {k : String} {v : Json}

/-- A value in the place of another, where both come to the same. -/
theorem flatMap_set {β : Type} {g : String × Json → List β} {old : Json} (hk : f.get? k = some old)
    (hg : g (k, v) = g (k, old)) : (f.set k v).toList.flatMap g = f.toList.flatMap g := by
  induction f with
  | nil => cases hk
  | cons key value rest ih =>
    by_cases heq : key = k
    · subst heq
      obtain rfl : value = old := by simpa [Fields.get?] using hk
      simp [Fields.set, Fields.toList, hg]
    · have hrest : rest.get? k = some old := by simpa [Fields.get?, heq] using hk
      simp [Fields.set, Fields.toList, heq, ih hrest]

end Fields

section Patches
variable {p p' n n' : Fields}

/-- Two patches that differ only in what the gateway does not know in `nvidia`. -/
inductive SameKnown : Fields → Fields → Prop
  | same (p : Fields) : SameKnown p p
  | nvidia {p n n' : Fields} (hn : p.get? "nvidia" = some (.obj n))
      (hknown : nvidiaPublicView n = nvidiaPublicView n') :
      SameKnown p (p.set "nvidia" (.obj n'))

theorem session_public {n n' : Fields} (h : nvidiaPublicView n = nvidiaPublicView n') :
    n.filter (· ∈ nvidiaSessionKeys) = n'.filter (· ∈ nvidiaSessionKeys) := by
  have hkeys : ∀ f : Fields, f.filter (· ∈ nvidiaSessionKeys) =
      (nvidiaPublicView f).filter (· ∈ nvidiaSessionKeys) := by
    intro f
    rw [nvidiaPublicView, filter_filter]
    congr 1
    funext key
    by_cases hkey : key ∈ nvidiaSessionKeys
    · simp [nvidiaPublicKeys, hkey]
    · simp [hkey]
  rw [hkeys, h, ← hkeys]

theorem unsupportedNvidia_public (h : nvidiaPublicView n = nvidiaPublicView n')
    (current : Fields) :
    unsupportedNvidia (.obj n') current = unsupportedNvidia (.obj n) current := by
  have hfilter : ∀ f : Fields, unsupportedNvidia (.obj f) current =
      unsupportedNvidia (.obj (f.filter (· ∈ nvidiaSessionKeys))) current := by
    intro f
    unfold unsupportedNvidia
    dsimp only
    rw [toList_filter]
    induction f.toList with
    | nil => rfl
    | cons field rest ih =>
      rw [List.flatMap_cons, ih]
      by_cases hkey : field.1 ∈ nvidiaSessionKeys
      · rw [List.filter_cons_of_pos (by simpa using hkey), List.flatMap_cons]
      · rw [List.filter_cons_of_neg (by simpa using hkey), if_pos hkey, List.nil_append]
  rw [hfilter n', hfilter n, session_public h]

/-- What reads a field other than `nvidia` reads the same of both patches. -/
theorem get?_known (h : SameKnown p p') {k : String} (hk : k ≠ "nvidia") :
    p'.get? k = p.get? k := by
  cases h with
  | same => rfl
  | nvidia => exact get?_set_ne _ _ hk

theorem filter_known (h : SameKnown p p') {f : String → Bool} (hf : f "nvidia" = false) :
    p'.filter f = p.filter f := by
  cases h with
  | same => rfl
  | nvidia => exact filter_set_of_not_mem hf _ _

theorem validateServerVad_known (h : SameKnown p p') :
    validateServerVad p' = validateServerVad p := by
  unfold validateServerVad
  rw [get?_known h (by decide), get?_known h (by decide)]

theorem validateInputTranscription_known (h : SameKnown p p') :
    validateInputTranscription p' = validateInputTranscription p := by
  unfold validateInputTranscription transcriptionOf
  rw [get?_known h (by decide), get?_known h (by decide)]

theorem validateSessionAudioConfig_known (h : SameKnown p p') :
    validateSessionAudioConfig p' = validateSessionAudioConfig p := by
  unfold validateSessionAudioConfig
  rw [get?_known h (by decide), get?_known h (by decide), get?_known h (by decide)]

theorem askedVoice_known (h : SameKnown p p') : askedVoice p' = askedVoice p := by
  unfold askedVoice
  rw [get?_known h (by decide), get?_known h (by decide)]

theorem tokenField_known (h : SameKnown p p') : tokenField p' = tokenField p := by
  unfold tokenField
  rw [get?_known h (by decide), get?_known h (by decide)]

theorem flatNvidia_known (h : SameKnown p p') :
    flatNvidia (p'.get? "nvidia") = flatNvidia (p.get? "nvidia") := by
  cases h with
  | same => rfl
  | nvidia hn hknown =>
    have hobject : ∀ f : Fields, objectOr (some (.obj f)) = f := fun _ => rfl
    rw [get?_set_self, hn, flatNvidia, flatNvidia, hobject, hobject, session_public hknown]

/-- The flat configuration of a patch comes from the known fields. -/
theorem mapSessionUpdate_known (S : Server) (h : SameKnown p p') :
    mapSessionUpdateToFlatConfig S p' = mapSessionUpdateToFlatConfig S p := by
  unfold mapSessionUpdateToFlatConfig
  rw [validateServerVad_known h, validateInputTranscription_known h,
    validateSessionAudioConfig_known h, askedVoice_known h, tokenField_known h,
    flatNvidia_known h, get?_known h (by decide), get?_known h (by decide),
    get?_known h (by decide), get?_known h (by decide), get?_known h (by decide),
    get?_known h (by decide)]

theorem sanitizedUpdate_known (C : Callbacks) (flatConfig : Fields) (h : SameKnown p p') :
    sanitizedUpdate C flatConfig p' = sanitizedUpdate C flatConfig p := by
  unfold sanitizedUpdate
  rw [mapSessionUpdate_known C.toServer h]

end Patches

section Views
variable {p p' n n' base base' sanitizedFlat view : Fields}

theorem public_merge (base : Fields) (h : nvidiaPublicView n = nvidiaPublicView n') :
    nvidiaPublicView (mergeSessionPatch base n) = nvidiaPublicView (mergeSessionPatch base n') := by
  unfold nvidiaPublicView mergeSessionPatch at *
  rw [filter_mergeInto, filter_mergeInto, h]

theorem public_set (h : nvidiaPublicView n = nvidiaPublicView n') (k : String) (v : Json) :
    nvidiaPublicView (n.set k v) = nvidiaPublicView (n'.set k v) := by
  unfold nvidiaPublicView at *
  by_cases hk : k ∈ nvidiaPublicKeys
  · rw [filter_set_of_mem (by simpa using hk), filter_set_of_mem (by simpa using hk), h]
  · rw [filter_set_of_not_mem (by simpa using hk), filter_set_of_not_mem (by simpa using hk), h]

theorem public_foldl {step : Fields → String → Fields}
    (hstep : ∀ {n n'} key, nvidiaPublicView n = nvidiaPublicView n' →
      nvidiaPublicView (step n key) = nvidiaPublicView (step n' key))
    (keys : List String) (h : nvidiaPublicView n = nvidiaPublicView n') :
    nvidiaPublicView (keys.foldl step n) = nvidiaPublicView (keys.foldl step n') := by
  induction keys generalizing n n' with
  | nil => exact h
  | cons key rest ih => exact ih (hstep key h)

/-- The fields of `nvidia` that the sanitizer has taken. -/
def keepSanitized (sanitizedFlat nvidia : Fields) (key : String) : Fields :=
  match sanitizedFlat.get? key with
  | none | some .null | some (.str "") => nvidia
  | some value => nvidia.set key value

def keepTools (sanitizedFlat nvidia : Fields) : Fields :=
  match sanitizedFlat.get? "server_tools" with
  | some (.arr tools) => nvidia.set "server_tools" (.arr tools)
  | _ => nvidia

def mergedNvidia (view patch : Fields) : Fields :=
  match patch.get? "nvidia" with
  | some (.obj n) => mergeSessionPatch (objectOr (view.get? "nvidia")) n
  | _ => objectOr (view.get? "nvidia")

/-- What a published object is never without. -/
def withDefaults (s : RealtimeSession) (sanitizedFlat nvidia : Fields) : Fields :=
  let nvidia := if truthy (nvidia.get? "pipeline_mode") then nvidia
    else nvidia.set "pipeline_mode" (.str s.defaultPipelineMode)
  if truthy (nvidia.get? "prompt_key") then nvidia
  else
    let key := (sanitizedFlat.get? "prompt_key").getD .null
    nvidia.set "prompt_key" (if truthy (some key) then key else .str defaultPromptKey)

theorem applyNvidia_eq (s : RealtimeSession) (view patch sanitizedFlat : Fields) :
    applyNvidia s view patch sanitizedFlat =
      withDefaults s sanitizedFlat (nvidiaPublicView (keepTools sanitizedFlat
        (nvidiaSessionKeys.foldl (keepSanitized sanitizedFlat) (mergedNvidia view patch)))) := by
  unfold applyNvidia
  rfl

theorem public_keepSanitized (sanitizedFlat : Fields) (key : String)
    (h : nvidiaPublicView n = nvidiaPublicView n') :
    nvidiaPublicView (keepSanitized sanitizedFlat n key) =
      nvidiaPublicView (keepSanitized sanitizedFlat n' key) := by
  unfold keepSanitized
  split
  · exact h
  · exact h
  · exact h
  · exact public_set h _ _

theorem public_keepTools (sanitizedFlat : Fields)
    (h : nvidiaPublicView n = nvidiaPublicView n') :
    nvidiaPublicView (keepTools sanitizedFlat n) =
      nvidiaPublicView (keepTools sanitizedFlat n') := by
  unfold keepTools
  split
  · exact public_set h _ _
  · exact h

theorem mergedNvidia_known (view : Fields) (h : SameKnown p p') :
    nvidiaPublicView (mergedNvidia view p') = nvidiaPublicView (mergedNvidia view p) := by
  cases h with
  | same => rfl
  | nvidia hn hknown =>
    unfold mergedNvidia
    rw [get?_set_self, hn]
    exact (public_merge _ hknown).symm

theorem applyNvidia_known (s : RealtimeSession) (view sanitizedFlat : Fields)
    (h : SameKnown p p') :
    applyNvidia s view p' sanitizedFlat = applyNvidia s view p sanitizedFlat := by
  rw [applyNvidia_eq, applyNvidia_eq]
  congr 1
  apply public_keepTools
  exact public_foldl (public_keepSanitized sanitizedFlat) _ (mergedNvidia_known view h)

theorem applyLegacyAudio_known (view : Fields) (h : SameKnown p p') :
    applyLegacyAudio view p' = applyLegacyAudio view p := by
  have hany : (legacyAudioKeys.any fun key => (p'.get? key).isSome) =
      legacyAudioKeys.any fun key => (p.get? key).isSome := by
    unfold legacyAudioKeys
    simp only [List.any_cons, List.any_nil]
    rw [get?_known h (by decide), get?_known h (by decide), get?_known h (by decide),
      get?_known h (by decide)]
  unfold applyLegacyAudio
  rw [hany, get?_known h (by decide), get?_known h (by decide), get?_known h (by decide),
    get?_known h (by decide)]

theorem applyAgentFields_known (view : Fields) (h : SameKnown p p') :
    applyAgentFields view p' = applyAgentFields view p := by
  unfold applyAgentFields
  rw [get?_known h (by decide), get?_known h (by decide)]

/-- The session after an update, and with it what is published. -/
theorem applyUpdate_known (s : RealtimeSession) (sanitizedFlat : Fields) (h : SameKnown p p') :
    s.applyUpdate p' sanitizedFlat = s.applyUpdate p sanitizedFlat := by
  unfold RealtimeSession.applyUpdate
  simp only [filter_known h (f := fun key => decide (key ≠ "nvidia")) (by simp),
    applyLegacyAudio_known _ h, applyNvidia_known s _ sanitizedFlat h, applyAgentFields_known _ h]

theorem unsupportedLive_known (current : Fields) (h : SameKnown p p') :
    unsupportedLiveSessionFields p' current = unsupportedLiveSessionFields p current := by
  have hfields : p'.toList.flatMap (fun field => unsupportedField current field.1 field.2) =
      p.toList.flatMap fun field => unsupportedField current field.1 field.2 := by
    cases h with
    | same => rfl
    | nvidia hn hknown =>
      refine flatMap_set hn ?_
      have hlive : "nvidia" ∉ liveSessionKeys := by decide
      simp only [unsupportedField, if_neg hlive, if_true]
      exact unsupportedNvidia_public hknown current
  have haudio : unsupportedAudio p' current = unsupportedAudio p current := by
    unfold unsupportedAudio
    rw [get?_known h (by decide)]
  unfold unsupportedLiveSessionFields
  rw [hfields, haudio, get?_known h (by decide)]

theorem liveSessionPatch_known (h : SameKnown p p') :
    liveSessionPatch p' = liveSessionPatch p := by
  unfold liveSessionPatch
  rw [filter_known h (by decide), get?_known h (by decide)]

theorem deserializeSessionUpdate_known (resolve : String → String) (s : Serializer)
    (h : SameKnown p p') :
    s.deserializeSessionUpdate resolve p' = s.deserializeSessionUpdate resolve p := by
  unfold Serializer.deserializeSessionUpdate Serializer.applyLive
  rw [validateSessionAudioConfig_known h, validateInputTranscription_known h,
    validateServerVad_known h, unsupportedLive_known s.view h, liveSessionPatch_known h]

end Views

section Redaction
variable {S : Server} {s : RealtimeSession} {view patch sanitizedFlat : Fields} {key : String}

/-- The fields of a sanitized configuration that only the server knows. -/
def nvidiaInternalKeys : List String :=
  ["base_url", "asr_server", "asr_function_id", "tts_server", "tts_function_id"]

/-- A published session without any of them. -/
def Redacted (view : Fields) : Prop :=
  ∀ key ∈ nvidiaInternalKeys, sub (view.get? "nvidia") key = none

theorem get?_public (hkey : key ∈ nvidiaInternalKeys) (nvidia : Fields) :
    (nvidiaPublicView nvidia).get? key = none := by
  have hsecret : ∀ key ∈ nvidiaInternalKeys, key ∉ nvidiaPublicKeys := by decide
  rw [nvidiaPublicView, get?_filter, if_neg (by simpa using hsecret key hkey)]

theorem get?_setUnless {f : Fields} {k : String} {v : Json} {c : Prop} [Decidable c]
    (hk : key ≠ k) : (if c then f else f.set k v).get? key = f.get? key := by
  split
  · rfl
  · exact get?_set_ne f v hk

theorem get?_withDefaults (hkey : key ∈ nvidiaInternalKeys) (s : RealtimeSession)
    (sanitizedFlat nvidia : Fields) :
    (withDefaults s sanitizedFlat nvidia).get? key = nvidia.get? key := by
  have hothers : ∀ key ∈ nvidiaInternalKeys, key ≠ "pipeline_mode" ∧ key ≠ "prompt_key" := by
    decide
  obtain ⟨hmode, hprompt⟩ := hothers key hkey
  unfold withDefaults
  dsimp only
  rw [get?_setUnless hprompt, get?_setUnless hmode]

theorem redacted_fresh (id mode : String) : Redacted (RealtimeSession.fresh id mode).view := by
  have hothers : ∀ key ∈ nvidiaInternalKeys, key ≠ "pipeline_mode" ∧ key ≠ "prompt_key" := by
    decide
  intro key hkey
  obtain ⟨hmode, hprompt⟩ := hothers key hkey
  change (defaultNvidia mode).get? key = none
  simp [defaultNvidia, Fields.get?, hmode.symm, hprompt.symm]

theorem nvidia_applyUpdate (s : RealtimeSession) (patch sanitizedFlat : Fields) :
    ∃ view, (s.applyUpdate patch sanitizedFlat).view.get? "nvidia" =
      some (.obj (applyNvidia s view patch sanitizedFlat)) := by
  have hagent : ∀ view : Fields,
      (applyAgentFields view patch).get? "nvidia" = view.get? "nvidia" := by
    intro view
    unfold applyAgentFields
    dsimp only
    split <;> split <;> simp
  have hvoice : ∀ (view : Fields) voice,
      (setVoice view voice).get? "nvidia" = view.get? "nvidia" := by
    intro view voice
    simp [setVoice, setNested]
  unfold RealtimeSession.applyUpdate
  dsimp only
  generalize (((applyLegacyAudio (mergeSessionPatch s.view (patch.filter (· ≠ "nvidia")))
    patch).set "id" (.str s.id)).set "object" (.str "realtime.session")).set "type"
      (.str "realtime") = view
  refine ⟨view, ?_⟩
  split
  · split
    · rw [hvoice, hagent, get?_set_self]
    · rw [hagent, get?_set_self]
  · rw [hagent, get?_set_self]

theorem redacted_applyUpdate (s : RealtimeSession) (patch sanitizedFlat : Fields) :
    Redacted (s.applyUpdate patch sanitizedFlat).view := by
  intro key hkey
  obtain ⟨view, hnvidia⟩ := nvidia_applyUpdate s patch sanitizedFlat
  rw [hnvidia]
  change (applyNvidia s view patch sanitizedFlat).get? key = none
  rw [applyNvidia_eq, get?_withDefaults hkey, get?_public hkey]

theorem redacted_applyLive (resolve : String → String) (s : Serializer) (patch : Fields) :
    Redacted (s.applyLive resolve patch).1.view := by
  intro key hkey
  unfold Serializer.applyLive
  dsimp only
  split
  · rw [get?_set_self]
    exact get?_public hkey _
  · rename_i view' hnvidia
    -- what is no object has no fields
    generalize hvalue : Fields.get? _ "nvidia" = value at hnvidia ⊢
    cases value with
    | none => rfl
    | some v =>
      cases v with
      | obj n => exact absurd rfl (hnvidia n)
      | _ => rfl

end Redaction

section Runs
variable {S : Server} {c : Connection} {u u' : Update}

/-- Two messages that differ only in what the gateway does not know. -/
inductive SameUpdate : Update → Update → Prop
  | same (u : Update) : SameUpdate u u
  | session (eventId : Option Json) {p p' : Fields} (h : SameKnown p p') :
      SameUpdate ⟨eventId, some (.obj p)⟩ ⟨eventId, some (.obj p')⟩

theorem handleSessionUpdate_known (S : Server) (s : RealtimeSession) {p p' : Fields}
    (h : SameKnown p p') :
    handleSessionUpdate S s (some (.obj p')) = handleSessionUpdate S s (some (.obj p)) := by
  unfold handleSessionUpdate handleUpdate
  dsimp only
  rw [sanitizedUpdate_known S.callbacks s.flatConfig h]
  simp only [applyUpdate_known s _ h]

theorem liveSessionUpdate_known (S : Server) (s : Serializer) {p p' : Fields}
    (h : SameKnown p p') :
    liveSessionUpdate S s (some (.obj p')) = liveSessionUpdate S s (some (.obj p)) := by
  unfold liveSessionUpdate
  dsimp only
  rw [deserializeSessionUpdate_known _ s h]

/-- One message. -/
theorem receive_same (S : Server) (c : Connection) (h : SameUpdate u u') :
    receive S c u' = receive S c u := by
  cases h with
  | same => rfl
  | session eventId h =>
    cases c with
    | opening s failed =>
      unfold receive
      dsimp only
      rw [handleSessionUpdate_known S s h]
    | live serializer =>
      unfold receive
      dsimp only
      rw [liveSessionUpdate_known S serializer h]
    | closed => rfl

theorem trace_same {us us' : List (Server × Update)}
    (h : List.Forall₂ (fun x x' => x.1 = x'.1 ∧ SameUpdate x.2 x'.2) us us') (c : Connection) :
    trace c us' = trace c us := by
  induction h generalizing c with
  | nil => rfl
  | cons hx _ ih =>
    obtain ⟨hserver, hupdate⟩ := hx
    unfold trace
    rw [← hserver, receive_same _ c hupdate, ih]

theorem redacted_of_shown {step : Connection × Option Reply}
    (hview : ∀ view ∈ step.1.view, Redacted view)
    (hanswer : ∀ reply ∈ step.2, ∀ session ∈ reply.answer.session, Redacted session) :
    ∀ view ∈ shown step, Redacted view := by
  intro view hmem
  rcases List.mem_append.mp hmem with hmem | hmem
  · exact hview view (Option.mem_toList.mp hmem)
  · obtain ⟨reply, hreply, hsession⟩ := Option.bind_eq_some_iff.mp (Option.mem_toList.mp hmem)
    exact hanswer reply hreply view hsession

/-- An update before the handoff leaves the session as it is, or publishes a new one. -/
theorem handleSessionUpdate_cases (S : Server) (s : RealtimeSession) (session : Option Json) :
    ((handleSessionUpdate S s session).1 = s ∧
      (handleSessionUpdate S s session).2.1.session = none) ∨
    ∃ patch sanitized, (handleSessionUpdate S s session).1 = s.applyUpdate patch sanitized ∧
      (handleSessionUpdate S s session).2.1 = .updated (s.applyUpdate patch sanitized).view := by
  unfold handleSessionUpdate
  rcases handleUpdate_cases S.callbacks s session with
    ⟨patch, sanitized, -, heq⟩ | ⟨-, answer, hanswer, heq⟩
  · exact .inr ⟨patch, sanitized, congrArg Prod.fst heq, congrArg (·.2.1) heq⟩
  · rw [heq]
    exact .inl ⟨rfl, hanswer⟩

theorem liveSessionUpdate_cases (S : Server) (s : Serializer) (session : Option Json) :
    ((liveSessionUpdate S s session).1 = s ∧
      (liveSessionUpdate S s session).2.1.session = none) ∨
    ∃ resolve patch, (liveSessionUpdate S s session).1 = (s.applyLive resolve patch).1 ∧
      (liveSessionUpdate S s session).2.1 = .updated (s.applyLive resolve patch).1.view := by
  unfold liveSessionUpdate
  split
  · split
    · exact .inl ⟨rfl, rfl⟩
    · rename_i hok
      obtain ⟨-, -, -, -, happly⟩ := SessionSound.deserialize_ok.mp hok
      exact .inr ⟨_, _, congrArg Prod.fst happly.symm,
        congrArg (Answer.updated ·.1.view) happly.symm⟩
  · exact .inl ⟨rfl, rfl⟩

theorem redacted_receive (S : Server) (c : Connection) (u : Update)
    (hc : ∀ view ∈ c.view, Redacted view) : ∀ view ∈ shown (receive S c u), Redacted view := by
  cases c with
  | closed => exact redacted_of_shown hc (by simp [receive])
  | opening s failed =>
    have hs : Redacted s.view := hc _ rfl
    have hafter : Redacted (handleSessionUpdate S s u.session).1.view ∧
        ∀ session ∈ (handleSessionUpdate S s u.session).2.1.session, Redacted session := by
      rcases handleSessionUpdate_cases S s u.session with ⟨hstate, hnone⟩ | ⟨p, f, hstate, hnew⟩
      · rw [hstate, hnone]
        exact ⟨hs, by simp⟩
      · rw [hstate, hnew]
        refine ⟨redacted_applyUpdate s p f, fun session hsession => ?_⟩
        obtain rfl := Option.some.inj hsession
        exact redacted_applyUpdate s p f
    apply redacted_of_shown
    · intro view hview
      unfold receive at hview
      dsimp only at hview
      split at hview
      · obtain rfl := Option.some.inj hview
        exact hafter.1
      · split at hview
        · cases hview
        · obtain rfl := Option.some.inj hview
          exact hafter.1
    · intro reply hreply
      obtain rfl := Option.some.inj hreply
      exact hafter.2
  | live s =>
    have hs : Redacted s.view := hc _ rfl
    have hafter : Redacted (liveSessionUpdate S s u.session).1.view ∧
        ∀ session ∈ (liveSessionUpdate S s u.session).2.1.session, Redacted session := by
      rcases liveSessionUpdate_cases S s u.session with ⟨hstate, hnone⟩ | ⟨r, p, hstate, hnew⟩
      · rw [hstate, hnone]
        exact ⟨hs, by simp⟩
      · rw [hstate, hnew]
        refine ⟨redacted_applyLive r s p, fun session hsession => ?_⟩
        obtain rfl := Option.some.inj hsession
        exact redacted_applyLive r s p
    apply redacted_of_shown
    · intro view hview
      obtain rfl := Option.some.inj hview
      exact hafter.1
    · intro reply hreply
      obtain rfl := Option.some.inj hreply
      exact hafter.2

theorem view_of_shown {step : Connection × Option Reply}
    (h : ∀ view ∈ shown step, Redacted view) : ∀ view ∈ step.1.view, Redacted view :=
  fun view hview => h view (List.mem_append_left _ (Option.mem_toList.mpr hview))

theorem redacted_trace (us : List (Server × Update)) (c : Connection)
    (hc : ∀ view ∈ c.view, Redacted view) :
    ∀ step ∈ trace c us, ∀ view ∈ shown step, Redacted view := by
  induction us generalizing c with
  | nil => simp [trace]
  | cons x rest ih =>
    have hfirst := redacted_receive x.1 c x.2 hc
    intro step hstep
    rcases List.mem_cons.mp hstep with rfl | hstep
    · exact hfirst
    · exact ih _ (view_of_shown hfirst) step hstep

/-- What the gateway does not know in `session.nvidia` changes nothing, and what it must not tell
is never told. -/
theorem endpoints_isolated (id mode : String) :
    (∀ us us', List.Forall₂ (fun x x' => x.1 = x'.1 ∧ SameUpdate x.2 x'.2) us us' →
      trace (.opening (.fresh id mode) 0) us' = trace (.opening (.fresh id mode) 0) us) ∧
    ∀ us, ∀ step ∈ (.opening (.fresh id mode) 0, none) :: trace (.opening (.fresh id mode) 0) us,
      ∀ view ∈ shown step, Redacted view := by
  have hfresh : ∀ view ∈ (Connection.opening (.fresh id mode) 0).view, Redacted view := by
    intro view hview
    obtain rfl := Option.some.inj hview
    exact redacted_fresh id mode
  refine ⟨fun us us' h => trace_same h _, fun us step hstep => ?_⟩
  rcases List.mem_cons.mp hstep with rfl | hstep
  · exact redacted_of_shown hfresh fun reply hreply => by cases hreply
  · exact redacted_trace us _ hfresh step hstep

/-- A server whose sanitizer fills in the endpoint of the model. -/
def plainServer : Server where
  str value := match value with
    | .str text => text
    | _ => ""
  lower := id
  upper := id
  int value := match value with
    | .int n => .number n
    | _ => .refused
  float value := match value with
    | .float text => .number text
    | _ => .refused
  isInteger _ := false
  negative _ := false
  defaultTts := .nil
  ttsConfig _ _ _ _ := .nil
  defaultPipelineMode := "generic_assistant"
  sanitize merged := .ok (merged.set "base_url" (.str "http://llm:8000"))
  serverTools := none
  ready := none
  startsBot := true
  maxRejected := 5

def endpointPatch (url : String) : Fields :=
  Fields.nil.set "nvidia" (.obj ((Fields.nil.set "llm_id" (.str "nano")).set "base_url" (.str url)))

/-- A client that asks for an endpoint of its own gets the server's, and is told neither. -/
theorem endpoint_ignored :
    let start := Connection.opening (.fresh "sess_1" "generic_assistant") 0
    let run := fun url => trace start [(plainServer, ⟨none, some (.obj (endpointPatch url))⟩)]
    run "http://b" = run "http://a" ∧
      (∀ step ∈ run "http://a", ∀ view ∈ shown step, Redacted view) ∧
      (run "http://a").map (fun step => (step.2.bind (·.answer.session)).isSome) = [true] := by
  have h := endpoints_isolated "sess_1" "generic_assistant"
  have hsame : SameUpdate ⟨none, some (.obj (endpointPatch "http://a"))⟩
      ⟨none, some (.obj (endpointPatch "http://b"))⟩ := by
    apply SameUpdate.session
    have hown : nvidiaPublicView
        ((Fields.nil.set "llm_id" (.str "nano")).set "base_url" (.str "http://a")) =
      nvidiaPublicView
        ((Fields.nil.set "llm_id" (.str "nano")).set "base_url" (.str "http://b")) := by decide
    have hpatch : (endpointPatch "http://a").get? "nvidia" = some (.obj
        ((Fields.nil.set "llm_id" (.str "nano")).set "base_url" (.str "http://a"))) := rfl
    exact SameKnown.nvidia hpatch hown
  refine ⟨h.1 _ _ (.cons ⟨rfl, hsame⟩ .nil), ?_, by decide +kernel⟩
  exact fun step hstep => h.2 _ step (List.mem_cons_of_mem _ hstep)

end Runs

end VoiceAgent.EndpointIsolation
