import VoiceAgent.SessionEcho

/-!
Updates of the audio formats, applied before the handoff and applied live. Both paths end
with the same rates as long as no legacy format without a rate meets a format that has one:
before the handoff it replaces that format, after it it is merged into it.
-/
namespace VoiceAgent.AudioFormats

open JsonValues SessionView SessionSound SessionEcho

section Rates
variable {v : Json} {o old : Option Json} {V P : Fields}

/-- The rate of a format, if it has one that is supported. -/
def rateOf (o : Option Json) : Option ℤ :=
  match formatRate o with
  | .ok rate => rate
  | .error _ => none

/-- A format object that says nothing of the rate. -/
def rateless : Json → Bool
  | .obj f => (f.get? "rate").isNone
  | _ => false

theorem rateOf_rateless (h : rateless v = true) : rateOf (some v) = none := by
  cases v with
  | obj f =>
    have hnone : f.get? "rate" = none := by simpa [rateless] using h
    simp [rateOf, formatRate, hnone]
  | _ => simp [rateless] at h

/-- A format that is merged keeps the old rate only if it says nothing of the rate. -/
theorem rateOf_merge (hd : v.Distinct) (old : Option Json) :
    rateOf (some (v.mergeInto old)) = if rateless v then rateOf old else rateOf (some v) := by
  cases v with
  | obj p =>
    obtain ⟨r, heq, hr⟩ := mergeInto_obj hd old
    have hrate := hr "rate"
    rw [heq]
    cases hp : p.get? "rate" with
    | none =>
      rw [hp] at hrate
      have hless : rateless (.obj p) = true := by simp [rateless, hp]
      rw [if_pos hless]
      cases old with
      | none => simpa [rateOf, formatRate] using by rw [hrate]; rfl
      | some w =>
        cases w with
        | obj base =>
          have hbase : r.get? "rate" = base.get? "rate" := hrate
          simp [rateOf, formatRate, hbase]
        | _ =>
          have hnone : r.get? "rate" = none := hrate
          simp [rateOf, formatRate, hnone]
    | some w =>
      rw [hp] at hrate
      have hless : ¬ rateless (.obj p) = true := by simp [rateless, hp]
      rw [if_neg hless]
      cases w with
      | obj q =>
        have hq : q.Distinct := Fields.Distinct.get? hd hp
        obtain ⟨merged, hmerged, -⟩ := mergeInto_obj hq (sub old "rate")
        have hsome : r.get? "rate" = some (.obj merged) := by rw [hrate, ← hmerged]
        simp [rateOf, formatRate, hsome, hp, requireSupportedPcmRate, Except.map]
      | _ =>
        have hsome : r.get? "rate" = p.get? "rate" := by rw [hrate, hp]; rfl
        simp [rateOf, formatRate, hsome]
  | _ => rfl

theorem rateOf_eq (f : Fields) :
    (match formatRate (f.get? "format") with
      | .ok (some rate) => some rate
      | _ => none) = rateOf (f.get? "format") := by
  unfold rateOf
  cases formatRate (f.get? "format") with
  | error e => rfl
  | ok rate => cases rate <;> rfl

theorem extractClientPcmRate_eq (V : Fields) :
    extractClientPcmRate V = (rateOf (leaf V "input" "format")).getD defaultClientPcmRate := by
  unfold extractClientPcmRate leaf
  cases sub (V.get? "audio") "input" with
  | none => rfl
  | some w =>
    cases w with
    | obj input =>
      rw [sub_obj, ← rateOf_eq]
      dsimp only
      cases formatRate (input.get? "format") with
      | error e => rfl
      | ok rate => cases rate <;> rfl
    | _ => rfl

/-- The view has an object for the output audio. -/
def outputIsObject (V : Fields) : Bool :=
  ((sub (V.get? "audio") "output").bind Json.object?).isSome

theorem extractClientOutputPcmRate_eq (V : Fields) :
    extractClientOutputPcmRate V =
      if outputIsObject V then
        (rateOf (leaf V "output" "format")).getD (extractClientPcmRate V)
      else defaultClientPcmRate := by
  unfold extractClientOutputPcmRate outputIsObject leaf
  cases sub (V.get? "audio") "output" with
  | none => rfl
  | some w =>
    cases w with
    | obj output =>
      rw [sub_obj, ← rateOf_eq]
      dsimp only
      cases formatRate (output.get? "format") with
      | error e => rfl
      | ok rate => cases rate <;> rfl
    | _ => rfl

/-- The validators let no other type in. -/
theorem extractClientInputFormatType_good (h : Good V) :
    extractClientInputFormatType V = "audio/pcm" := by
  have hformat := (h.audio.field.1.field (.inl rfl)).1
  unfold extractClientInputFormatType
  split
  · rename_i f hf
    rw [hf] at hformat
    obtain ⟨⟨t, ht, htype⟩, -⟩ := hformat
    rw [htype]
    dsimp only
    rw [if_pos (.inr ht)]
  · rfl

end Rates

section Paths
variable {V P Q : Fields} {side k : String}

/-- Where the patch has something of this side of the audio, it has objects. -/
def Objects (P : Fields) (side : String) : Prop :=
  P.get? "audio" = none ∨ ∃ audio, P.get? "audio" = some (.obj audio) ∧
    (audio.get? side = none ∨ ∃ block, audio.get? side = some (.obj block))

/-- A value with what a patch has for it. -/
def patched (patch old : Option Json) : Option Json :=
  match patch with
  | some x => some (x.mergeInto old)
  | none => old

/-- A field of the audio after a merge. -/
theorem leaf_mergeSessionPatch (hP : P.Distinct) (h : Objects P side) (k : String) :
    leaf (mergeSessionPatch V P) side k = patched (leaf P side k) (leaf V side k) := by
  cases hleaf : leaf P side k with
  | some x => exact leaf_merge hP hleaf
  | none =>
    rw [leaf, mergeSessionPatch, get?_mergeInto hP]
    obtain haudio | ⟨audio, haudio, hside⟩ := h
    · rw [haudio]
      rfl
    · have hd : audio.Distinct := hP.get? haudio
      rw [haudio]
      dsimp only
      rw [sub_mergeInto hd]
      obtain hside | ⟨block, hside⟩ := hside
      · rw [hside]
        rfl
      · have hblock : block.get? k = none := by rwa [leaf, haudio, sub_obj, hside] at hleaf
        rw [hside]
        dsimp only
        rw [sub_mergeInto (hd.get? hside), hblock]
        rfl

theorem outputIsObject_merge (hP : P.Distinct) (h : Objects P "output") :
    outputIsObject (mergeSessionPatch V P) = (outputIsObject P || outputIsObject V) := by
  unfold outputIsObject
  rw [mergeSessionPatch, get?_mergeInto hP]
  obtain haudio | ⟨audio, haudio, hside⟩ := h
  · simp [haudio]
  · have hd : audio.Distinct := hP.get? haudio
    rw [haudio]
    dsimp only
    rw [sub_mergeInto hd, sub_obj]
    obtain hside | ⟨block, hside⟩ := hside
    · simp [hside]
    · obtain ⟨r, hr, -⟩ := mergeInto_obj (hd.get? hside) (sub (V.get? "audio") "output")
      rw [hside]
      dsimp only
      rw [hr]
      rfl

theorem objects_live (f : Fields) (side : String) : Objects (liveSessionPatch f) side := by
  rw [liveSessionPatch_eq]
  dsimp only
  split
  · refine .inl ?_
    rw [get?_filter]
    simp
  · refine .inr ⟨liveAudio f, get?_set_self _ _ _, ?_⟩
    rw [get?_liveAudio]
    split
    · exact .inr ⟨_, rfl⟩
    · split
      · exact .inr ⟨_, rfl⟩
      · exact .inl rfl

theorem Objects.nest (h : Objects Q side) {key : String} (hkey : key ≠ "audio") (side' : String) :
    Objects (nestFormat key side' Q) side := by
  unfold nestFormat
  split
  · exact h
  · rename_i fmt hfmt
    have haudio : (Q.filter (· ≠ key)).get? "audio" = Q.get? "audio" := by
      rw [get?_filter, if_pos (by simp [hkey.symm])]
    refine .inr ⟨_, by rw [setNested, get?_set_self], ?_⟩
    by_cases hside : side = side'
    · subst hside
      exact .inr ⟨_, get?_set_self _ _ _⟩
    · rw [get?_set_ne _ _ hside, haudio, get?_objectOr]
      obtain hnone | ⟨audio, hsome, hblock⟩ := h
      · rw [hnone]
        exact .inl rfl
      · rw [hsome]
        exact hblock

theorem objects_nestedPatch (f : Fields) (side : String) : Objects (nestedPatch f) side :=
  ((objects_live f side).nest (by simp) _).nest (by simp) _

theorem outputIsObject_nest {key : String} (hkey : key ≠ "audio") (f : Fields) (side : String) :
    outputIsObject (nestFormat key side f) =
      (((f.get? key).isSome && side == "output") || outputIsObject f) := by
  unfold nestFormat
  split
  · rename_i hnone
    simp [hnone]
  · rename_i fmt hfmt
    have haudio : (f.filter (· ≠ key)).get? "audio" = f.get? "audio" := by
      rw [get?_filter, if_pos (by simp [hkey.symm])]
    unfold outputIsObject
    rw [setNested, get?_set_self, sub_obj, haudio, hfmt]
    by_cases hside : side = "output"
    · subst hside
      rw [get?_set_self]
      rfl
    · rw [get?_set_ne _ _ (Ne.symm hside), get?_objectOr]
      simp [hside]

/-- The legacy formats replace the nested ones. -/
theorem leaf_applyLegacyAudio (f P : Fields) :
    leaf (applyLegacyAudio f P) "input" "format" =
        (P.get? "input_audio_format").or (leaf f "input" "format") ∧
      leaf (applyLegacyAudio f P) "output" "format" =
        (P.get? "output_audio_format").or (leaf f "output" "format") := by
  unfold applyLegacyAudio
  split
  · refine ⟨?_, ?_⟩
    · rw [leaf, get?_set_self, sub_obj, get?_set_ne _ _ (by simp), get?_set_self, sub_obj]
      simp [get?_setIfPresent, leaf]
    · rw [leaf, get?_set_self, sub_obj, get?_set_self, sub_obj]
      simp [get?_setIfPresent, leaf]
  · rename_i hnone
    have hkeys : ∀ key ∈ legacyAudioKeys, P.get? key = none := by
      intro key hkey
      have hall := hnone
      rw [Bool.not_eq_true, List.any_eq_false] at hall
      simpa using hall key hkey
    rw [hkeys _ (by simp [legacyAudioKeys]), hkeys _ (by simp [legacyAudioKeys])]
    exact ⟨rfl, rfl⟩

theorem outputIsObject_applyLegacyAudio (f P : Fields) :
    outputIsObject (applyLegacyAudio f P) =
      ((legacyAudioKeys.any fun key => (P.get? key).isSome) || outputIsObject f) := by
  unfold applyLegacyAudio
  split
  · rename_i hany
    rw [hany, outputIsObject, get?_set_self, sub_obj, get?_set_self]
    rfl
  · rename_i hnone
    simp [hnone]

theorem applyAgentFields_audio (f P : Fields) :
    (applyAgentFields f P).get? "audio" = f.get? "audio" :=
  get?_applyAgentFields _ _ (by simp)

/-- The view before the handoff, as far as its audio goes. -/
theorem applyUpdate_audio (s : RealtimeSession) (P sanitized : Fields) :
    let merged := applyLegacyAudio (mergeSessionPatch s.view (P.filter (· ≠ "nvidia"))) P
    (∀ side, leaf (s.applyUpdate P sanitized).view side "format" = leaf merged side "format") ∧
      outputIsObject (s.applyUpdate P sanitized).view =
        (truthy (sanitized.get? "tts_voice_id") || outputIsObject merged) := by
  intro merged
  have hbase : ∀ nvidia : Json, (applyAgentFields ((((merged.set "id" (.str s.id)).set "object"
      (.str "realtime.session")).set "type" (.str "realtime")).set "nvidia" nvidia) P).get?
        "audio" = merged.get? "audio" := by
    intro nvidia
    rw [applyAgentFields_audio]
    simp
  have hsame : ∀ f : Fields, f.get? "audio" = merged.get? "audio" →
      (∀ side, leaf f side "format" = leaf merged side "format") ∧
        outputIsObject f = outputIsObject merged := by
    intro f hf
    refine ⟨fun side => ?_, ?_⟩
    · rw [leaf, hf, leaf]
    · rw [outputIsObject, hf, outputIsObject]
  have hvoice : ∀ (f : Fields) (v : Json), f.get? "audio" = merged.get? "audio" →
      (∀ side, leaf (setVoice f v) side "format" = leaf merged side "format") ∧
        outputIsObject (setVoice f v) = true := by
    intro f v hf
    refine ⟨fun side => ?_, ?_⟩
    · rw [leaf_setVoice]
      simp only [String.reduceEq, and_false, if_false]
      exact (hsame f hf).1 side
    · rw [outputIsObject, setVoice, get?_set_ne _ _ (by simp), setNested, get?_set_self, sub_obj,
        get?_set_self]
      rfl
  unfold RealtimeSession.applyUpdate
  dsimp only
  split
  · rename_i voice heq
    rw [heq]
    split
    · rename_i htruthy
      obtain ⟨hleaf, hobject⟩ := hvoice _ voice (hbase _)
      exact ⟨hleaf, by rw [hobject, htruthy]; rfl⟩
    · rename_i hfalsy
      obtain ⟨hleaf, hobject⟩ := hsame _ (hbase _)
      exact ⟨hleaf, by rw [hobject]; simp [hfalsy]⟩
  · rename_i hnone
    obtain ⟨hleaf, hobject⟩ := hsame _ (hbase _)
    exact ⟨hleaf, by rw [hobject, hnone]; rfl⟩

end Paths

section Patches
variable {limits : Fields → Except Invalid Unit} {resolve : String → String}
variable {V W P sanitized : Fields} {s : RealtimeSession} {q : Serializer}

/-- A patch of audio formats: nested ones, legacy ones, or both. -/
structure FormatPatch (P : Fields) : Prop where
  distinct : P.Distinct
  keys : ∀ k ∈ P.keys, k ∈ ["audio", "input_audio_format", "output_audio_format"]
  audio : ∀ a, P.get? "audio" = some a → ∃ audio, a = .obj audio ∧
    (∀ k ∈ audio.keys, k ∈ ["input", "output"]) ∧
      ∀ side w, audio.get? side = some w → ∃ fmt, w = .obj (.cons "format" fmt .nil)

theorem FormatPatch.get?_none (h : FormatPatch P) {k : String}
    (hk : k ∉ ["audio", "input_audio_format", "output_audio_format"]) : P.get? k = none :=
  get?_eq_none_iff.mpr fun hmem => hk (h.keys k hmem)

theorem FormatPatch.filter_nvidia (h : FormatPatch P) : P.filter (· ≠ "nvidia") = P := by
  refine filter_eq_self fun k hk => ?_
  have hmem := h.keys k hk
  simp only [List.mem_cons, List.not_mem_nil, or_false] at hmem
  rcases hmem with rfl | rfl | rfl
  · decide
  · decide
  · decide

theorem FormatPatch.objects (h : FormatPatch P) (side : String) : Objects P side := by
  cases hcase : P.get? "audio" with
  | none => exact .inl hcase
  | some a =>
    obtain ⟨audio, rfl, -, hsides⟩ := h.audio a hcase
    refine .inr ⟨audio, hcase, ?_⟩
    cases hside : audio.get? side with
    | none => exact .inl rfl
    | some w =>
      obtain ⟨fmt, rfl⟩ := hsides side w hside
      exact .inr ⟨_, rfl⟩

theorem FormatPatch.leaf_voice (h : FormatPatch P) : leaf P "output" "voice" = none := by
  cases hcase : leaf P "output" "voice" with
  | none => rfl
  | some x =>
    obtain ⟨block, hblock, hx⟩ := sub_eq_some hcase
    obtain ⟨audio, haudio, hside⟩ := sub_eq_some hblock
    obtain ⟨audio', heq, -, hsides⟩ := h.audio _ haudio
    obtain rfl : audio = audio' := by simpa using heq
    obtain ⟨fmt, hfmt⟩ := hsides _ _ hside
    obtain rfl : block = .cons "format" fmt .nil := by simpa using hfmt
    simp [Fields.get?] at hx

theorem FormatPatch.liveVoice (h : FormatPatch P) : liveVoice resolve P = "" := by
  have hrequested : requestedVoice P = "" := by
    have hleaf := h.leaf_voice
    unfold leaf at hleaf
    simp only [requestedVoice, hleaf, h.get?_none (k := "voice") (by simp)]
  rw [liveVoice_self, hrequested]
  rfl

/-- The format that a patch gives a side, on the live path. -/
theorem leaf_nestedPatch_format (P : Fields) :
    leaf (nestedPatch P) "input" "format" =
        (P.get? "input_audio_format").or (leaf P "input" "format") ∧
      leaf (nestedPatch P) "output" "format" =
        (P.get? "output_audio_format").or (leaf P "output" "format") := by
  obtain ⟨hin, hout⟩ := leaf_liveSessionPatch P "format"
  refine ⟨?_, ?_⟩
  · rw [nestedPatch, leaf_nestFormat (by simp), if_neg (by simp), leaf_nestFormat (by simp),
      if_pos ⟨rfl, rfl⟩, get?_liveSessionPatch (by simp), if_pos (by simp [liveSessionKeys]), hin,
      if_pos (by simp [liveAudioInputKeys])]
  · rw [nestedPatch, leaf_nestFormat (by simp), if_pos ⟨rfl, rfl⟩, get?_nestFormat (by simp),
      if_neg (by simp), get?_liveSessionPatch (by simp), if_pos (by simp [liveSessionKeys]),
      leaf_nestFormat (by simp), if_neg (by simp), hout, if_pos (by simp [liveAudioOutputKeys])]

theorem FormatPatch.outputIsObject_nested (h : FormatPatch P) :
    outputIsObject (nestedPatch P) =
      ((P.get? "output_audio_format").isSome || outputIsObject P) := by
  have hlive : outputIsObject (liveSessionPatch P) = outputIsObject P := by
    rw [outputIsObject, sub_liveSessionPatch, get?_liveAudio, outputIsObject]
    cases hside : sub (P.get? "audio") "output" with
    | none =>
      have hnil : liveBlock P "output" liveAudioOutputKeys = .nil := by
        rw [liveBlock, hside]
        rfl
      simp [hnil]
    | some w =>
      obtain ⟨audio, haudio, hw⟩ := sub_eq_some hside
      obtain ⟨audio', heq, -, hsides⟩ := h.audio _ haudio
      obtain rfl : audio = audio' := by simpa using heq
      obtain ⟨fmt, rfl⟩ := hsides _ _ hw
      have hne : liveBlock P "output" liveAudioOutputKeys ≠ .nil := by
        rw [liveBlock, hside]
        simp [objectOr, Json.object?, Fields.filter, liveAudioOutputKeys]
      rw [if_pos ⟨rfl, hne⟩]
      rfl
  rw [nestedPatch, outputIsObject_nest (by simp), outputIsObject_nest (by simp), hlive,
    get?_nestFormat (by simp), if_neg (by simp), get?_liveSessionPatch (by simp),
    if_pos (by simp [liveSessionKeys])]
  simp

/-- What is compared of the two paths. -/
structure Agree (V W : Fields) : Prop where
  input : extractClientPcmRate V = extractClientPcmRate W
  output : rateOf (leaf V "output" "format") = rateOf (leaf W "output" "format")
  object : outputIsObject V = outputIsObject W

theorem Agree.outputRate (h : Agree V W) :
    extractClientOutputPcmRate V = extractClientOutputPcmRate W := by
  rw [extractClientOutputPcmRate_eq, extractClientOutputPcmRate_eq, h.object, h.output, h.input]

/-- The update does not set a rate that was given before against one that is left out: a
legacy format without a rate finds none (for the input, none but the default), and nothing
but the patch itself makes an object of the output audio. -/
structure KeepsRates (W P sanitized : Fields) : Prop where
  input : ∀ fmt, P.get? "input_audio_format" = some fmt → rateless fmt →
    extractClientPcmRate W = defaultClientPcmRate
  output : ∀ fmt, P.get? "output_audio_format" = some fmt → rateless fmt →
    rateOf (leaf W "output" "format") = none
  object : outputIsObject W ∨ outputIsObject P ∨ (P.get? "output_audio_format").isSome ∨
    (P.get? "input_audio_format" = none ∧ ¬ truthy (sanitized.get? "tts_voice_id"))

/-- A side of the audio after a patch: the legacy format replaces the old one, or is merged
into it. Read through `g`, the rates stay the same. -/
theorem rate_patched {α : Type} (g : Option ℤ → α) {legacy nested old old' : Option Json}
    (hlegacy : ∀ w ∈ legacy, w.Distinct) (hnested : ∀ w ∈ nested, w.Distinct)
    (hagree : g (rateOf old) = g (rateOf old'))
    (hkeeps : ∀ fmt, legacy = some fmt → rateless fmt → g (rateOf old') = g none) :
    g (rateOf (legacy.or (patched nested old))) =
      g (rateOf (patched (legacy.or nested) old')) := by
  cases legacy with
  | none =>
    cases nested with
    | none => exact hagree
    | some x =>
      simp only [Option.none_or, patched]
      rw [rateOf_merge (hnested x rfl), rateOf_merge (hnested x rfl)]
      split
      · exact hagree
      · rfl
  | some x =>
    simp only [Option.some_or, patched]
    rw [rateOf_merge (hlegacy x rfl)]
    split
    · rename_i hless
      rw [rateOf_rateless hless, hkeeps x rfl hless]
    · rfl

/-- One update on both paths. -/
theorem Agree.step (h : Agree s.view q.view) (hq : Sound q.view) (hP : FormatPatch P)
    (hgood : Good P) (hkeeps : KeepsRates q.view P sanitized) (resolve : String → String) :
    Agree (s.applyUpdate P sanitized).view (q.applyLive resolve P).1.view := by
  obtain ⟨hleaf, hobject⟩ := applyUpdate_audio s P sanitized
  rw [hP.filter_nvidia] at hleaf hobject
  obtain ⟨hlegacyIn, hlegacyOut⟩ := leaf_applyLegacyAudio (mergeSessionPatch s.view P) P
  obtain ⟨hnestedIn, hnestedOut⟩ := leaf_nestedPatch_format P
  have hlive : (q.applyLive resolve P).1.view = mergeSessionPatch q.view (nestedPatch P) := by
    rw [hq.applyLive_view hgood resolve, livePatch, if_pos hP.liveVoice, if_pos hP.liveVoice]
  have hdistinct : (nestedPatch P).Distinct := hgood.live.nestInput.nestOutput.distinct
  have hfield : ∀ k, ∀ w ∈ P.get? k, w.Distinct := fun k => hgood.field_distinct k
  have hnested : ∀ side k, ∀ w ∈ leaf P side k, w.Distinct := fun side k =>
    sub_distinct (hgood.side_distinct side) k
  have hmerged := fun side => leaf_mergeSessionPatch (V := s.view) hP.distinct (hP.objects side)
    "format"
  have hmerged' := fun side => leaf_mergeSessionPatch (V := q.view) hdistinct
    (objects_nestedPatch P side) "format"
  refine ⟨?_, ?_, ?_⟩
  · rw [extractClientPcmRate_eq, extractClientPcmRate_eq, hleaf, hlegacyIn, hlive, hmerged,
      hmerged', hnestedIn]
    refine rate_patched (·.getD defaultClientPcmRate) (hfield _) (hnested _ _) ?_ ?_
    · rw [← extractClientPcmRate_eq, ← extractClientPcmRate_eq]
      exact h.input
    · intro fmt hfmt hless
      rw [← extractClientPcmRate_eq]
      exact hkeeps.input fmt hfmt hless
  · rw [hleaf, hlegacyOut, hlive, hmerged, hmerged', hnestedOut]
    exact rate_patched id (hfield _) (hnested _ _) h.output hkeeps.output
  · have hany : (legacyAudioKeys.any fun key => (P.get? key).isSome) =
        ((P.get? "input_audio_format").isSome || (P.get? "output_audio_format").isSome) := by
      simp [legacyAudioKeys, hP.get?_none]
    rw [hobject, outputIsObject_applyLegacyAudio, hany,
      outputIsObject_merge hP.distinct (hP.objects _), hlive,
      outputIsObject_merge hdistinct (objects_nestedPatch P _), hP.outputIsObject_nested, h.object]
    obtain hobj | hobj | hobj | ⟨hnone, hvoice⟩ := hkeeps.object
    · simp [hobj]
    · simp [hobj]
    · simp [hobj]
    · simp [hnone, hvoice, Bool.or_assoc]

end Patches

section Runs
variable {limits : Fields → Except Invalid Unit} {resolve : String → String}

/-- Updates before the handoff, each with the sanitized config it leads to. -/
def configureAll (s : RealtimeSession) (updates : List (Fields × Fields)) : RealtimeSession :=
  updates.foldl (fun s update => s.applyUpdate update.1 update.2) s

/-- Updates after the handoff. -/
def updateAll (resolve : String → String) (q : Serializer) :
    List Fields → Except Invalid Serializer
  | [] => .ok q
  | patch :: rest => do
    let (q, _) ← q.deserializeSessionUpdate resolve patch
    updateAll resolve q rest

/-- Each update of the run keeps the rates, in the state it finds. -/
def KeepsRatesAlong (resolve : String → String) (q : Serializer) :
    List (Fields × Fields) → Prop
  | [] => True
  | (patch, sanitized) :: rest => KeepsRates q.view patch sanitized ∧
    ∀ q' voice, q.deserializeSessionUpdate resolve patch = .ok (q', voice) →
      KeepsRatesAlong resolve q' rest

theorem Agree.run {s : RealtimeSession} {q q' : Serializer} {updates : List (Fields × Fields)}
    (h : Agree s.view q.view) (hs : Sound s.view) (hq : Sound q.view)
    (hupdates : ∀ u ∈ updates, FormatPatch u.1 ∧ u.2.Distinct ∧
      checkSessionUpdate limits u.1 = .ok ())
    (hlive : updateAll resolve q (updates.map Prod.fst) = .ok q')
    (hkeeps : KeepsRatesAlong resolve q updates) :
    Agree (configureAll s updates).view q'.view ∧ Sound (configureAll s updates).view ∧
      Sound q'.view := by
  induction updates generalizing s q with
  | nil =>
    obtain rfl : q = q' := by simpa [updateAll] using hlive
    exact ⟨h, hs, hq⟩
  | cons update rest ih =>
    obtain ⟨patch, sanitized⟩ := update
    obtain ⟨hP, hsanitized, hok⟩ := hupdates (patch, sanitized) (by simp)
    have hgood := good_of_check hP.distinct hok
    cases hstep : q.deserializeSessionUpdate resolve patch with
    | error e =>
      simp [updateAll, hstep, bind, Except.bind] at hlive
    | ok result =>
      obtain ⟨q₁, voice⟩ := result
      obtain ⟨-, -, -, -, happly⟩ := deserialize_ok.mp hstep
      have hagree := h.step hq hP hgood hkeeps.1 resolve
      have hsound := hq.applyLive hgood resolve
      rw [happly] at hagree hsound
      have hrest : updateAll resolve q₁ (rest.map Prod.fst) = .ok q' := by
        simpa [updateAll, hstep, bind, Except.bind] using hlive
      exact ih hagree (hs.applyUpdate hgood hsanitized) hsound
        (fun u hu => hupdates u (List.mem_cons_of_mem _ hu)) hrest (hkeeps.2 q₁ voice hstep)

/-- Before the handoff and live, from the same session, updates of the audio formats that keep
the rates end in the same type of the client's audio and the same rates. -/
theorem formats_agree {s : RealtimeSession} (h : Configured limits s)
    (updates : List (Fields × Fields))
    (hupdates : ∀ u ∈ updates, FormatPatch u.1 ∧ u.2.Distinct ∧
      checkSessionUpdate limits u.1 = .ok ())
    (q : Serializer)
    (hlive : updateAll resolve ⟨s.view, s.flatConfig⟩ (updates.map Prod.fst) = .ok q)
    (hkeeps : KeepsRatesAlong resolve ⟨s.view, s.flatConfig⟩ updates) :
    extractClientInputFormatType (configureAll s updates).view =
        extractClientInputFormatType q.view ∧
      extractClientPcmRate (configureAll s updates).view = q.clientInRate ∧
      extractClientOutputPcmRate (configureAll s updates).view = q.clientOutRate := by
  have hstart : Agree s.view s.view := ⟨rfl, rfl, rfl⟩
  obtain ⟨hagree, hsound, hsound'⟩ := Agree.run (q := ⟨s.view, s.flatConfig⟩) hstart h.sound
    h.sound hupdates hlive hkeeps
  refine ⟨?_, hagree.input, hagree.outputRate⟩
  rw [extractClientInputFormatType_good hsound.good,
    extractClientInputFormatType_good hsound'.good]

/-- A legacy name for the input, then a nested rate for the output. -/
theorem formats_agree_on_two_updates :
    let session := RealtimeSession.fresh "sess_0" "generic-assistant"
    let input := Fields.cons "input_audio_format" (.str "pcm16") .nil
    let output := Fields.cons "audio" (.obj (.cons "output" (.obj (.cons "format"
      (.obj (.cons "type" (.str "audio/pcm") (.cons "rate" (.int 8000) .nil))) .nil)) .nil)) .nil
    let sanitized := defaultNvidia "generic-assistant"
    let updates := [(input, sanitized), (output, sanitized)]
    extractClientOutputPcmRate (configureAll session updates).view = 8000 ∧
      (updateAll id ⟨session.view, session.flatConfig⟩ [input, output]).map
        Serializer.clientOutRate = .ok 8000 := by
  intro session input output sanitized updates
  have hsanitized : sanitized.Distinct := by
    simp [sanitized, defaultNvidia, Fields.Distinct, Fields.keys]
  have hinput : FormatPatch input := by
    refine ⟨by simp [input, Fields.Distinct, Fields.keys], by simp [input, Fields.keys], ?_⟩
    intro a ha
    simp [input, Fields.get?] at ha
  have houtput : FormatPatch output := by
    refine ⟨by simp [output, Fields.Distinct, Fields.keys, Json.Distinct],
      by simp [output, Fields.keys], fun a ha => ?_⟩
    obtain rfl := Option.some.inj ha
    refine ⟨_, rfl, by simp [Fields.keys], fun side w hw => ?_⟩
    by_cases hside : "output" = side
    · subst hside
      obtain rfl := Option.some.inj hw
      exact ⟨_, rfl⟩
    · simp [Fields.get?, hside] at hw
  cases hlive : updateAll id ⟨session.view, session.flatConfig⟩ [input, output] with
  | error e =>
    have hok : (updateAll id ⟨session.view, session.flatConfig⟩ [input, output]).isOk = true := by
      decide +kernel
    rw [hlive] at hok
    cases hok
  | ok q =>
    have hfirst : KeepsRates session.view input sanitized := by
      refine ⟨fun fmt hfmt hless => ?_, fun fmt hfmt => ?_, .inl (by decide +kernel)⟩
      · obtain rfl := Option.some.inj hfmt
        cases hless
      · simp [input, Fields.get?] at hfmt
    have hsecond : ∀ view, KeepsRates view output sanitized := by
      intro view
      refine ⟨fun fmt hfmt => ?_, fun fmt hfmt => ?_, .inr (.inl (by decide +kernel))⟩
      · simp [output, Fields.get?] at hfmt
      · simp [output, Fields.get?] at hfmt
    have hfresh : Configured (fun _ => .ok ()) session := .fresh "sess_0" "generic-assistant"
    have hupdates : ∀ u ∈ updates, FormatPatch u.1 ∧ u.2.Distinct ∧
        checkSessionUpdate (fun _ => .ok ()) u.1 = .ok () := by
      intro u hu
      rcases List.mem_pair.mp hu with rfl | rfl
      · exact ⟨hinput, hsanitized, by decide +kernel⟩
      · exact ⟨houtput, hsanitized, by decide +kernel⟩
    obtain ⟨-, -, hrate⟩ := formats_agree hfresh updates hupdates q hlive
      ⟨hfirst, fun q' voice _ => ⟨hsecond q'.view, fun _ _ _ => trivial⟩⟩
    have hconfigured : extractClientOutputPcmRate (configureAll session updates).view = 8000 := by
      decide +kernel
    exact ⟨hconfigured, congrArg Except.ok (hrate.symm.trans hconfigured)⟩

/-- A legacy format without a rate, after one with a rate: the rate is the default before the
handoff, and stays after it. -/
theorem rateless_format_splits_paths :
    let session := RealtimeSession.fresh "sess_0" "generic-assistant"
    let rated := Fields.cons "input_audio_format"
      (.obj (.cons "type" (.str "audio/pcm") (.cons "rate" (.int 16000) .nil))) .nil
    let unrated := Fields.cons "input_audio_format" (.obj (.cons "type" (.str "pcm16") .nil)) .nil
    let sanitized := defaultNvidia "generic-assistant"
    let limits : Fields → Except Invalid Unit := fun _ => .ok ()
    checkSessionUpdate limits rated = .ok () ∧ checkSessionUpdate limits unrated = .ok () ∧
      extractClientPcmRate
        (configureAll session [(rated, sanitized), (unrated, sanitized)]).view = 24000 ∧
      (updateAll id ⟨session.view, session.flatConfig⟩ [rated, unrated]).map
        Serializer.clientInRate = .ok 16000 := by
  decide +kernel

end Runs

end VoiceAgent.AudioFormats
