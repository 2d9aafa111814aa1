import VoiceAgent.AudioFormats
import Mathlib.Data.List.Induction

/-!
The voice of a live session is kept in three places: twice in the view, and in the TTS service.
An update that asks for a voice puts the resolved one in all three. One that asks for none is
still merged, and what it has where a voice belongs replaces the voice of the view.
-/
namespace VoiceAgent.AdvertisedVoice

open JsonValues SessionView SessionSound SessionEcho AudioFormats

/-- The serializer, and the last voice that was sent to the TTS service. -/
structure LiveSession where
  serializer : Serializer
  spoken : String
  deriving DecidableEq

def LiveSession.view (q : LiveSession) : Fields := q.serializer.view

/-- Both places of the view have the voice that is spoken. -/
structure Agree (q : LiveSession) : Prop where
  voice : q.view.get? "voice" = some (.str q.spoken)
  output : leaf q.view "output" "voice" = some (.str q.spoken)

variable (resolve : String → String)

/-- A `session.update`: the frame that it returns tells the TTS service its voice. -/
def LiveSession.sessionUpdate (q : LiveSession) (patch : Fields) : Except Invalid LiveSession :=
  (q.serializer.deserializeSessionUpdate resolve patch).map fun r =>
    ⟨r.1, r.2.getD q.spoken⟩

/-- A refused update changes nothing. -/
def LiveSession.next (q : LiveSession) (patch : Fields) : LiveSession :=
  match q.sessionUpdate resolve patch with
  | .ok q' => q'
  | .error _ => q

def LiveSession.after (q : LiveSession) (patches : List Fields) : LiveSession :=
  patches.foldl (LiveSession.next resolve) q

/-- The update asks for a voice, or leaves the voice `v` in both places as it is. -/
def KeepsVoice (v : String) (patch : Fields) : Prop :=
  requestedVoice patch ≠ "" ∨
    (∀ x, patch.get? "voice" = some x → x = .str v) ∧
      ∀ x, leaf patch "output" "voice" = some x → x = .str v

section Step
variable {resolve : String → String} {q q' : LiveSession} {s : Serializer} {patch : Fields}
variable {v : String}

theorem sessionUpdate_ok (h : q.sessionUpdate resolve patch = .ok q') :
    validateSessionAudioConfig patch = .ok () ∧ validateServerVad patch = .ok () ∧
      q' = ⟨(q.serializer.applyLive resolve patch).1,
        (q.serializer.applyLive resolve patch).2.getD q.spoken⟩ := by
  unfold LiveSession.sessionUpdate at h
  cases hread : q.serializer.deserializeSessionUpdate resolve patch with
  | error e =>
    rw [hread] at h
    cases h
  | ok r =>
    rw [hread] at h
    obtain ⟨s', voice⟩ := r
    obtain ⟨haudio, -, hvad, -, happly⟩ := deserialize_ok.mp hread
    cases h
    exact ⟨haudio, hvad, by rw [happly]⟩

theorem applyLive_spoken (resolve : String → String) (s : Serializer) (patch : Fields) :
    (s.applyLive resolve patch).2 =
      if liveVoice resolve patch = "" then none else some (liveVoice resolve patch) := by
  unfold Serializer.applyLive
  rfl

/-- The view before its catalog fields are filtered: the merged one, with the voice asked for. -/
def merged (resolve : String → String) (s : Serializer) (patch : Fields) : Fields :=
  if liveVoice resolve patch = "" then mergeSessionPatch s.view (livePatch resolve patch)
  else setVoice (mergeSessionPatch s.view (livePatch resolve patch))
    (.str (liveVoice resolve patch))

theorem get?_applyLive_view {k : String} (hk : k ≠ "nvidia") :
    (s.applyLive resolve patch).1.view.get? k = (merged resolve s patch).get? k := by
  unfold Serializer.applyLive
  dsimp only
  split
  · exact get?_set_ne _ _ hk
  · rfl

theorem leaf_applyLive_view (side k : String) :
    leaf (s.applyLive resolve patch).1.view side k = leaf (merged resolve s patch) side k := by
  rw [leaf, leaf, get?_applyLive_view (by simp)]

theorem voice_nestedPatch (f : Fields) :
    (nestedPatch f).get? "voice" = f.get? "voice" ∧
      leaf (nestedPatch f) "output" "voice" = leaf f "output" "voice" := by
  constructor
  · rw [nestedPatch, get?_nestFormat (by simp), get?_nestFormat (by simp),
      get?_liveSessionPatch (by simp)]
    simp [liveSessionKeys]
  · rw [nestedPatch, leaf_nestFormat (by simp), leaf_nestFormat (by simp),
      (leaf_liveSessionPatch f "voice").2]
    simp [liveAudioOutputKeys]

/-- A patch leaves a text in place if it has nothing there, or the text itself. -/
theorem patched_str {o : Option Json} {v : String} :
    patched o (some (.str v)) = some (.str v) ↔ ∀ x, o = some x → x = .str v := by
  cases o with
  | none => simp [patched]
  | some x =>
    cases x with
    | obj f => simp [patched, Json.mergeInto, Json.object?]
    | _ => simp [patched, Json.mergeInto]

/-- An update that asks for a voice puts it in all places. -/
theorem agree_asked (h : requestedVoice patch ≠ "") :
    Agree ⟨(s.applyLive resolve patch).1, (s.applyLive resolve patch).2.getD v⟩ := by
  have hvoice : liveVoice resolve patch ≠ "" := by
    rw [liveVoice_self]
    exact resolvedVoice_ne h
  have hspoken : (s.applyLive resolve patch).2.getD v = liveVoice resolve patch := by
    rw [applyLive_spoken, if_neg hvoice]
    rfl
  have hmerged : merged resolve s patch =
      setVoice (mergeSessionPatch s.view (livePatch resolve patch))
        (.str (liveVoice resolve patch)) := if_neg hvoice
  rw [hspoken]
  constructor
  · rw [LiveSession.view, get?_applyLive_view (by simp), hmerged, setVoice, get?_set_self]
  · rw [LiveSession.view, leaf_applyLive_view, hmerged, leaf_setVoice, if_pos ⟨rfl, rfl⟩]

/-- Any other is merged as it is. -/
theorem agree_unasked (hgood : Good patch) (hvoice : s.view.get? "voice" = some (.str v))
    (houtput : leaf s.view "output" "voice" = some (.str v)) (h : requestedVoice patch = "") :
    Agree ⟨(s.applyLive resolve patch).1, (s.applyLive resolve patch).2.getD v⟩ ↔
      (∀ x, patch.get? "voice" = some x → x = .str v) ∧
        ∀ x, leaf patch "output" "voice" = some x → x = .str v := by
  have hnone : liveVoice resolve patch = "" := by
    rw [liveVoice_self, h]
    rfl
  have hspoken : (s.applyLive resolve patch).2.getD v = v := by
    rw [applyLive_spoken, if_pos hnone]
    rfl
  have hmerged : merged resolve s patch = mergeSessionPatch s.view (nestedPatch patch) := by
    rw [merged, if_pos hnone, livePatch, if_pos hnone]
  have hdistinct : (nestedPatch patch).Distinct := hgood.live.nestInput.nestOutput.distinct
  obtain ⟨htop, hleaf⟩ := voice_nestedPatch patch
  have hview : (s.applyLive resolve patch).1.view.get? "voice" =
      patched (patch.get? "voice") (some (.str v)) := by
    rw [get?_applyLive_view (by simp), hmerged, mergeSessionPatch, get?_mergeInto hdistinct, htop,
      hvoice]
    rfl
  have hside : leaf (s.applyLive resolve patch).1.view "output" "voice" =
      patched (leaf patch "output" "voice") (some (.str v)) := by
    rw [leaf_applyLive_view, hmerged,
      leaf_mergeSessionPatch hdistinct (objects_nestedPatch patch "output"), hleaf, houtput]
  rw [hspoken, ← patched_str, ← patched_str, ← hview, ← hside]
  exact ⟨fun hagree => ⟨hagree.voice, hagree.output⟩, fun hboth => ⟨hboth.1, hboth.2⟩⟩

/-- Step lemma: after an accepted update the voices agree exactly when it keeps them. -/
theorem agree_update (hq : Agree q) (hpatch : patch.Distinct)
    (hok : q.sessionUpdate resolve patch = .ok q') : Agree q' ↔ KeepsVoice q.spoken patch := by
  obtain ⟨haudio, hvad, rfl⟩ := sessionUpdate_ok hok
  by_cases h : requestedVoice patch = ""
  · rw [agree_unasked ((good_iff hpatch).mpr ⟨haudio, hvad⟩) hq.voice hq.output h]
    simp [KeepsVoice, h]
  · exact iff_of_true (agree_asked h) (.inl h)

end Step

section Run
variable {resolve : String → String} {q : LiveSession}

theorem after_concat (q : LiveSession) (patches : List Fields) (patch : Fields) :
    q.after resolve (patches ++ [patch]) = (q.after resolve patches).next resolve patch := by
  simp [LiveSession.after]

/-- Run lemma: the voices agree all along exactly when every accepted update keeps the voice it
finds. -/
theorem agree_along (hq : Agree q) {patches : List Fields}
    (hpatches : ∀ patch ∈ patches, patch.Distinct) :
    (∀ before, before <+: patches → Agree (q.after resolve before)) ↔
      ∀ before patch, before ++ [patch] <+: patches →
        ∀ q', (q.after resolve before).sessionUpdate resolve patch = .ok q' →
          KeepsVoice (q.after resolve before).spoken patch := by
  have hnext : ∀ before patch, before ++ [patch] <+: patches → Agree (q.after resolve before) →
      (Agree (q.after resolve (before ++ [patch])) ↔
        ∀ q', (q.after resolve before).sessionUpdate resolve patch = .ok q' →
          KeepsVoice (q.after resolve before).spoken patch) := by
    intro before patch hpart hbefore
    have hpatch : patch.Distinct := hpatches patch (hpart.subset (by simp))
    rw [after_concat, LiveSession.next]
    cases hok : (q.after resolve before).sessionUpdate resolve patch with
    | error e => simpa using hbefore
    | ok q' => simp [agree_update hbefore hpatch hok]
  constructor
  · intro hall before patch hpart
    exact (hnext before patch hpart (hall before ((List.prefix_append _ _).trans hpart))).mp
      (hall _ hpart)
  · intro hkeeps before
    induction before using List.reverseRecOn with
    | nil => exact fun _ => hq
    | append_singleton before patch ih =>
      intro hpart
      have hbefore := ih ((List.prefix_append _ _).trans hpart)
      exact (hnext before patch hpart hbefore).mpr (hkeeps before patch hpart)

def ann : LiveSession where
  serializer :=
    { view := .cons "voice" (.str "Ann") (.cons "audio" (.obj (.cons "output"
        (.obj (.cons "voice" (.str "Ann") .nil)) .nil)) .nil)
      runtimeConfig := .nil }
  spoken := "Ann"

theorem ann_agree : Agree ann := ⟨rfl, rfl⟩

def askBob : Fields := .cons "voice" (.str " Bob ") .nil

theorem agree_along_bob : Agree (ann.after (fun _ => "") [askBob]) := by
  have hdistinct : ∀ patch ∈ [askBob], patch.Distinct := by
    simp [askBob, Fields.Distinct, Json.Distinct, Fields.keys]
  have hkeeps : ∀ before patch, before ++ [patch] <+: [askBob] → ∀ q',
      (ann.after (fun _ => "") before).sessionUpdate (fun _ => "") patch = .ok q' →
        KeepsVoice (ann.after (fun _ => "") before).spoken patch := by
    intro before patch hpart q' _
    have hmem : patch ∈ [askBob] := hpart.subset (by simp)
    rw [List.mem_singleton.mp hmem]
    exact .inl (by decide +kernel)
  exact (agree_along ann_agree hdistinct).mpr hkeeps [askBob] (List.prefix_refl _)

/-- A client that takes its voice back: the TTS service goes on with the old one. -/
def askNone : Fields := .cons "voice" .null .nil

theorem voice_null : ¬ ∀ (resolve : String → String) (q : LiveSession) (patches : List Fields),
    Agree q → (∀ patch ∈ patches, patch.Distinct) → Agree (q.after resolve patches) := by
  intro h
  have hnull := h (fun _ => "") ann [askNone] ann_agree (by
    simp [askNone, Fields.Distinct, Json.Distinct, Fields.keys])
  exact absurd hnull.voice (by decide +kernel)

end Run

end VoiceAgent.AdvertisedVoice
