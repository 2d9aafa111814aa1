import VoiceAgent.SessionView

/-!
What the validators of a `session.update` accept, in the words of lookups, is kept by every
step that builds a view or a patch from accepted ones. So every view that can be reached
before or after the handoff is one the validators accept.
-/
namespace VoiceAgent.SessionSound

open JsonValues SessionView

section Good
variable {f g : Fields} {v : Json} {o old : Option Json}

/-- A format that is accepted: a name, or an object with a name and a supported rate. -/
def GoodFormat : Option Json → Prop
  | none | some .null => True
  | some (.str s) => s ∈ supportedPcmFormatTypes
  | some (.obj f) =>
    (∃ t ∈ supportedPcmFormatTypes, f.get? "type" = some (.str t)) ∧
      (f.get? "rate" = none ∨ f.get? "rate" = some .null ∨
        ∃ n ∈ supportedPcmRates, f.get? "rate" = some (.int n))
  | some _ => False

def GoodTurns (o : Option Json) : Prop := o = none ∨ o = some serverVad

/-- A side of the audio is an object if it is anything; `turns` is for its turn detection. -/
def GoodSide (turns : Option Json → Prop) : Option Json → Prop
  | none | some .null => True
  | some (.obj f) => GoodFormat (f.get? "format") ∧ turns (f.get? "turn_detection")
  | some _ => False

def AnyTurns (_ : Option Json) : Prop := True

def GoodAudio : Option Json → Prop
  | none | some .null => True
  | some (.obj f) => GoodSide GoodTurns (f.get? "input") ∧ GoodSide AnyTurns (f.get? "output")
  | some _ => False

/-- The audio, the legacy formats and the turn detection are accepted. -/
structure Good (f : Fields) : Prop where
  distinct : f.Distinct
  audio : GoodAudio (f.get? "audio")
  inputFormat : GoodFormat (f.get? "input_audio_format")
  outputFormat : GoodFormat (f.get? "output_audio_format")
  turns : GoodTurns (f.get? "turn_detection")

theorem validateFormat_ok (param : String) : validateFormat o param = .ok () ↔ GoodFormat o := by
  cases o with
  | none => simp [validateFormat, GoodFormat]
  | some v =>
    cases v with
    | str s => simp [validateFormat, validateFormatObject, GoodFormat]
    | obj f =>
      simp only [validateFormat, validateFormatObject, GoodFormat]
      cases htype : f.get? "type" with
      | none => simp
      | some t =>
        cases t with
        | str t =>
          by_cases ht : t ∈ supportedPcmFormatTypes
          · cases hrate : f.get? "rate" with
            | none => simp [ht]
            | some rate =>
              cases rate with
              | int n =>
                by_cases hn : n ∈ supportedPcmRates
                · simp [ht, hn, requireSupportedPcmRate, Except.map]
                · simp [ht, hn, requireSupportedPcmRate, Except.map]
              | _ => simp [ht, requireSupportedPcmRate, Except.map]
          · simp [ht]
        | _ => simp
    | _ => simp [validateFormat, validateFormatObject, GoodFormat]

theorem validateSide_ok (param : String) : validateSide o param = .ok () ↔ GoodSide AnyTurns o := by
  cases o with
  | none => simp [validateSide, GoodSide]
  | some v =>
    cases v with
    | obj f => simp [validateSide, GoodSide, AnyTurns, validateFormat_ok]
    | _ => simp [validateSide, GoodSide]

theorem checkTurnDetection_ok (param : String) (h : ∀ v ∈ o, v.Distinct) :
    checkTurnDetection o param = .ok () ↔ GoodTurns o := by
  cases o with
  | none => simp [checkTurnDetection, GoodTurns]
  | some v =>
    cases v with
    | obj f =>
      have hf : f.Distinct := h (.obj f) rfl
      simp only [checkTurnDetection, GoodTurns, serverVad]
      constructor
      · intro hok
        split at hok
        · cases hok
        · rename_i htype
          split at hok
          · cases hok
          · rename_i hkeys
            have htype' : f.get? "type" = some (.str "server_vad") := by simpa using htype
            have hkeys' : ∀ key ∈ f.keys, key = "type" := by simpa using hkeys
            simp [eq_single hf hkeys' htype']
      · intro hgood
        have heq : f = .cons "type" (.str "server_vad") .nil := by simpa using hgood
        subst heq
        simp [Fields.get?, Fields.keys]
    | _ => simp [checkTurnDetection, GoodTurns, serverVad]

/-- Two checks, one after the other. -/
theorem then_ok (x y : Except Invalid Unit) :
    (x >>= fun _ => y) = .ok () ↔ x = .ok () ∧ y = .ok () := by
  cases x with
  | error e => simp [bind, Except.bind]
  | ok u => simp [bind, Except.bind]

theorem validateSessionAudioConfig_ok :
    validateSessionAudioConfig f = .ok () ↔
      GoodFormat (f.get? "input_audio_format") ∧ GoodFormat (f.get? "output_audio_format") ∧
        ∀ a, f.get? "audio" = some a → a = .null ∨ ∃ audio, a = .obj audio ∧
          GoodSide AnyTurns (audio.get? "input") ∧ GoodSide AnyTurns (audio.get? "output") := by
  rw [validateSessionAudioConfig, then_ok, then_ok, validateFormat_ok, validateFormat_ok]
  refine and_congr_right fun _ => and_congr_right fun _ => ?_
  cases f.get? "audio" with
  | none => simp
  | some a =>
    cases a with
    | obj audio => simp [then_ok, validateSide_ok]
    | _ => simp

theorem validateServerVad_ok (h : f.Distinct) :
    validateServerVad f = .ok () ↔ GoodTurns (f.get? "turn_detection") ∧
      GoodTurns (sub (sub (f.get? "audio") "input") "turn_detection") := by
  have hfield : ∀ k, ∀ w ∈ f.get? k, w.Distinct := fun _ _ hw => h.get? hw
  rw [validateServerVad, then_ok, checkTurnDetection_ok _ (hfield _),
    checkTurnDetection_ok _ (sub_distinct (sub_distinct (hfield _) _) _)]

/-- What the validators accept. -/
theorem good_iff (h : f.Distinct) :
    Good f ↔ validateSessionAudioConfig f = .ok () ∧ validateServerVad f = .ok () := by
  rw [validateSessionAudioConfig_ok, validateServerVad_ok h]
  constructor
  · rintro ⟨-, haudio, hin, hout, hturns⟩
    cases hcase : f.get? "audio" with
    | none => exact ⟨⟨hin, hout, by simp⟩, hturns, .inl rfl⟩
    | some a =>
      rw [hcase] at haudio
      cases a with
      | null => exact ⟨⟨hin, hout, by simp⟩, hturns, .inl rfl⟩
      | obj audio =>
        obtain ⟨hinput, houtput⟩ := haudio
        have hside : GoodSide AnyTurns (audio.get? "input") ∧
            GoodTurns (sub (audio.get? "input") "turn_detection") := by
          cases hi : audio.get? "input" with
          | none => exact ⟨trivial, .inl rfl⟩
          | some b =>
            rw [hi] at hinput
            cases b with
            | null => exact ⟨trivial, .inl rfl⟩
            | obj block => exact ⟨⟨hinput.1, trivial⟩, hinput.2⟩
            | _ => exact hinput.elim
        exact ⟨⟨hin, hout, by simpa using ⟨hside.1, houtput⟩⟩, hturns, hside.2⟩
      | _ => exact haudio.elim
  · rintro ⟨⟨hin, hout, haudio⟩, hturns, hnested⟩
    refine ⟨h, ?_, hin, hout, hturns⟩
    cases hcase : f.get? "audio" with
    | none => trivial
    | some a =>
      rw [hcase] at hnested
      obtain rfl | ⟨audio, rfl, hinput, houtput⟩ := haudio a hcase
      · trivial
      · refine ⟨?_, houtput⟩
        rw [sub_obj] at hnested
        cases hi : audio.get? "input" with
        | none => trivial
        | some b =>
          rw [hi] at hinput hnested
          cases b with
          | null => trivial
          | obj block => exact ⟨hinput.1, hnested⟩
          | _ => exact hinput.elim

end Good

section Merge
variable {v : Json} {old : Option Json} {turns : Option Json → Prop}

theorem GoodTurns.closed : MergeClosed GoodTurns := by
  intro v old _ hv hold
  obtain rfl : v = serverVad := by simpa [GoodTurns] using hv
  rcases hold with rfl | rfl
  · exact .inr rfl
  · exact .inr rfl

theorem AnyTurns.closed : MergeClosed AnyTurns := fun _ _ _ _ _ => trivial

theorem GoodFormat.closed : MergeClosed GoodFormat := by
  intro v old hd hv hold
  cases v with
  | obj p =>
    obtain ⟨r, heq, hr⟩ := mergeInto_obj hd old
    obtain ⟨⟨t, ht, htype⟩, hrate⟩ := hv
    rw [heq]
    refine ⟨⟨t, ht, ?_⟩, ?_⟩
    · rw [hr, htype]
      rfl
    · rw [hr]
      rcases hrate with hrate | hrate | ⟨n, hn, hrate⟩
      · rw [hrate]
        -- the rate is the one that was there
        cases old with
        | none => exact .inl rfl
        | some w =>
          cases w with
          | obj base => exact hold.2
          | _ => exact .inl rfl
      · rw [hrate]
        exact .inr (.inl rfl)
      · rw [hrate]
        exact .inr (.inr ⟨n, hn, rfl⟩)
  | _ => exact hv

theorem GoodSide.field (h : GoodSide turns old) (hnone : turns none) :
    GoodFormat (sub old "format") ∧ turns (sub old "turn_detection") := by
  cases old with
  | none => exact ⟨trivial, hnone⟩
  | some w =>
    cases w with
    | obj base => exact h
    | _ => exact ⟨trivial, hnone⟩

theorem GoodSide.closed (hturns : MergeClosed turns) (hnone : turns none) :
    MergeClosed (GoodSide turns) := by
  intro v old hd hv hold
  cases v with
  | obj p =>
    obtain ⟨r, heq, hr⟩ := mergeInto_obj hd old
    obtain ⟨hformat, hturn⟩ := hold.field hnone
    rw [heq]
    refine ⟨?_, ?_⟩
    · rw [hr]
      exact GoodFormat.closed.field hd hv.1 hformat
    · rw [hr]
      exact hturns.field hd hv.2 hturn
  | _ => exact hv

theorem GoodAudio.field (h : GoodAudio old) :
    GoodSide GoodTurns (sub old "input") ∧ GoodSide AnyTurns (sub old "output") := by
  cases old with
  | none => exact ⟨trivial, trivial⟩
  | some w =>
    cases w with
    | obj base => exact h
    | _ => exact ⟨trivial, trivial⟩

theorem GoodAudio.closed : MergeClosed GoodAudio := by
  intro v old hd hv hold
  cases v with
  | obj p =>
    obtain ⟨r, heq, hr⟩ := mergeInto_obj hd old
    obtain ⟨hinput, houtput⟩ := hold.field
    rw [heq]
    refine ⟨?_, ?_⟩
    · rw [hr]
      exact (GoodSide.closed GoodTurns.closed (.inl rfl)).field hd hv.1 hinput
    · rw [hr]
      exact (GoodSide.closed AnyTurns.closed trivial).field hd hv.2 houtput
  | _ => exact hv

/-- A view that is patched: both are accepted, so the result is. -/
theorem Good.merge {base patch : Fields} (hpatch : Good patch) (hbase : Good base) :
    Good (mergeSessionPatch base patch) where
  distinct := hpatch.distinct.mergeInto hbase.distinct
  audio := by
    rw [mergeSessionPatch, get?_mergeInto hpatch.distinct]
    exact GoodAudio.closed.field hpatch.distinct hpatch.audio hbase.audio
  inputFormat := by
    rw [mergeSessionPatch, get?_mergeInto hpatch.distinct]
    exact GoodFormat.closed.field hpatch.distinct hpatch.inputFormat hbase.inputFormat
  outputFormat := by
    rw [mergeSessionPatch, get?_mergeInto hpatch.distinct]
    exact GoodFormat.closed.field hpatch.distinct hpatch.outputFormat hbase.outputFormat
  turns := by
    rw [mergeSessionPatch, get?_mergeInto hpatch.distinct]
    exact GoodTurns.closed.field hpatch.distinct hpatch.turns hbase.turns

end Merge

section Steps
variable {f patch : Fields} {v : Json}

theorem Good.field_distinct (h : Good f) (k : String) : ∀ w ∈ f.get? k, w.Distinct :=
  fun _ hw => h.distinct.get? hw

/-- The fields that no validator reads. -/
theorem Good.set (h : Good f) (hv : v.Distinct) {k : String}
    (hk : k ∉ ["audio", "input_audio_format", "output_audio_format", "turn_detection"]) :
    Good (f.set k v) := by
  simp only [List.mem_cons, List.not_mem_nil, or_false, not_or] at hk
  obtain ⟨h1, h2, h3, h4⟩ := hk
  refine ⟨h.distinct.set hv k, ?_, ?_, ?_, ?_⟩
  · rw [get?_set_ne f v (Ne.symm h1)]
    exact h.audio
  · rw [get?_set_ne f v (Ne.symm h2)]
    exact h.inputFormat
  · rw [get?_set_ne f v (Ne.symm h3)]
    exact h.outputFormat
  · rw [get?_set_ne f v (Ne.symm h4)]
    exact h.turns

theorem Good.setAudio (h : Good f) {audio : Fields} (hd : audio.Distinct)
    (haudio : GoodAudio (some (.obj audio))) : Good (f.set "audio" (.obj audio)) := by
  refine ⟨h.distinct.set (v := .obj audio) hd _, ?_, ?_, ?_, ?_⟩
  · simpa using haudio
  · simpa using h.inputFormat
  · simpa using h.outputFormat
  · simpa using h.turns

theorem Good.filter (h : Good f) (p : String → Bool) : Good (f.filter p) := by
  refine ⟨h.distinct.filter p, ?_, ?_, ?_, ?_⟩
  · rw [get?_filter]
    split
    · exact h.audio
    · trivial
  · rw [get?_filter]
    split
    · exact h.inputFormat
    · trivial
  · rw [get?_filter]
    split
    · exact h.outputFormat
    · trivial
  · rw [get?_filter]
    split
    · exact h.turns
    · exact .inl rfl

theorem Good.setInput (h : Good f) {block : Fields} (hd : block.Distinct)
    (hblock : GoodSide GoodTurns (some (.obj block))) :
    Good (setNested f "audio" "input" (.obj block)) := by
  have haudio := objectOr_distinct (h.field_distinct "audio")
  refine h.setAudio (haudio.set (v := .obj block) hd _) ⟨?_, ?_⟩
  · simpa using hblock
  · simpa using h.audio.field.2

theorem Good.setOutput (h : Good f) {block : Fields} (hd : block.Distinct)
    (hblock : GoodSide AnyTurns (some (.obj block))) :
    Good (setNested f "audio" "output" (.obj block)) := by
  have haudio := objectOr_distinct (h.field_distinct "audio")
  refine h.setAudio (haudio.set (v := .obj block) hd _) ⟨?_, ?_⟩
  · simpa using h.audio.field.1
  · simpa using hblock

theorem Good.side_distinct (h : Good f) (side : String) :
    ∀ w ∈ sub (f.get? "audio") side, w.Distinct := sub_distinct (h.field_distinct "audio") side

theorem Good.setVoice (h : Good f) (hv : v.Distinct) : Good (setVoice f v) := by
  have hblock := objectOr_distinct (h.side_distinct "output")
  refine (h.setOutput ?_ ⟨?_, trivial⟩).set hv (by simp)
  · simpa using hblock.set hv "voice"
  · simpa using (h.audio.field.2.field trivial).1

theorem get?_setIfPresent (f : Fields) (k : String) (o : Option Json) (k' : String) :
    (setIfPresent f k o).get? k' = if k' = k then o.or (f.get? k') else f.get? k' := by
  cases o with
  | none => simp [setIfPresent]
  | some w =>
    by_cases hk : k' = k
    · subst hk
      simp [setIfPresent]
    · simp [setIfPresent, hk]

theorem setIfPresent_distinct (h : f.Distinct) (k : String) {o : Option Json}
    (ho : ∀ w ∈ o, w.Distinct) : (setIfPresent f k o).Distinct := by
  cases o with
  | none => exact h
  | some w => exact h.set (ho w rfl) k

theorem GoodFormat.or {o old : Option Json} (h : GoodFormat o) (hold : GoodFormat old) :
    GoodFormat (o.or old) := by
  cases o with
  | none => exact hold
  | some w => exact h

theorem GoodTurns.or {o old : Option Json} (h : GoodTurns o) (hold : GoodTurns old) :
    GoodTurns (o.or old) := by
  cases o with
  | none => exact hold
  | some w => exact h

theorem Good.legacy (h : Good f) (hpatch : Good patch) : Good (applyLegacyAudio f patch) := by
  unfold applyLegacyAudio
  split
  · have haudio := objectOr_distinct (h.field_distinct "audio")
    have hside : ∀ side, (objectOr ((objectOr (f.get? "audio")).get? side)).Distinct := by
      intro side
      simpa using objectOr_distinct (h.side_distinct side)
    obtain ⟨hinput, houtput⟩ := h.audio.field
    obtain ⟨hformat, hturns⟩ := hinput.field (.inl rfl)
    obtain ⟨houtFormat, -⟩ := houtput.field trivial
    refine h.setAudio ?_ ⟨?_, ?_⟩
    · refine (haudio.set ?_ _).set ?_ _
      · exact setIfPresent_distinct (setIfPresent_distinct (setIfPresent_distinct (hside _) _
          (hpatch.field_distinct _)) _ (hpatch.field_distinct _)) _ (hpatch.field_distinct _)
      · exact setIfPresent_distinct (hside _) _ (hpatch.field_distinct _)
    · simp only [ne_eq, String.reduceEq, not_false_eq_true, get?_set_ne, get?_set_self]
      refine ⟨?_, ?_⟩
      · simpa [get?_setIfPresent] using hpatch.inputFormat.or hformat
      · simpa [get?_setIfPresent] using hpatch.turns.or hturns
    · simp only [get?_set_self]
      refine ⟨?_, trivial⟩
      simpa [get?_setIfPresent] using hpatch.outputFormat.or houtFormat
  · exact h

end Steps

section Reach
variable {limits : Fields → Except Invalid Unit} {resolve : String → String}
variable {f patch sanitized : Fields} {s : RealtimeSession}

/-- A view: the validators accept it, and clients may see all of its catalog fields. -/
structure Sound (view : Fields) : Prop where
  good : Good view
  nvidia : ∃ n, view.get? "nvidia" = some (.obj n) ∧ ∀ k ∈ n.keys, k ∈ nvidiaPublicKeys

theorem nvidiaPublicView_eq_self (h : ∀ k ∈ f.keys, k ∈ nvidiaPublicKeys) :
    nvidiaPublicView f = f :=
  filter_eq_self fun k hk => decide_eq_true (h k hk)

theorem mem_keys_nvidiaPublicView {k : String} (h : k ∈ (nvidiaPublicView f).keys) :
    k ∈ nvidiaPublicKeys := by
  rw [nvidiaPublicView, keys_filter, List.mem_filter] at h
  exact of_decide_eq_true h.2

theorem mem_keys_set_public {k key : String} {v : Json} (h : ∀ k ∈ f.keys, k ∈ nvidiaPublicKeys)
    (hkey : key ∈ nvidiaPublicKeys) (hk : k ∈ (f.set key v).keys) : k ∈ nvidiaPublicKeys := by
  rcases (mem_keys_set f key v).mp hk with rfl | hk
  · exact hkey
  · exact h k hk

theorem foldl_nvidia_distinct (hs : sanitized.Distinct) (keys : List String) (h : f.Distinct) :
    (keys.foldl (fun n key =>
      match sanitized.get? key with
      | none | some .null | some (.str "") => n
      | some value => n.set key value) f).Distinct := by
  induction keys generalizing f with
  | nil => exact h
  | cons key keys ih =>
    refine ih ?_
    dsimp only
    split
    · exact h
    · exact h
    · exact h
    · rename_i value hvalue
      exact h.set (hs.get? hvalue) key

theorem applyNvidia_sound (hf : f.Distinct) (hpatch : patch.Distinct) (hs : sanitized.Distinct) :
    (applyNvidia s f patch sanitized).Distinct ∧
      ∀ k ∈ (applyNvidia s f patch sanitized).keys, k ∈ nvidiaPublicKeys := by
  have hold : (objectOr (f.get? "nvidia")).Distinct := objectOr_distinct fun _ hw => hf.get? hw
  unfold applyNvidia
  extract_lets nvidia merged filled tools visible withMode
  have hmerged : merged.Distinct := by
    simp only [merged]
    split
    · rename_i n hn
      have hdistinct : n.Distinct := hpatch.get? hn
      exact hdistinct.mergeInto hold
    · exact hold
  have htools : tools.Distinct := by
    have hfilled : filled.Distinct := foldl_nvidia_distinct hs nvidiaSessionKeys hmerged
    simp only [tools]
    split
    · rename_i items hitems
      exact hfilled.set (hs.get? hitems) _
    · exact hfilled
  have hvisible : visible.Distinct ∧ ∀ k ∈ visible.keys, k ∈ nvidiaPublicKeys :=
    ⟨htools.filter _, fun k hk => mem_keys_nvidiaPublicView hk⟩
  have hmode : withMode.Distinct ∧ ∀ k ∈ withMode.keys, k ∈ nvidiaPublicKeys := by
    simp only [withMode]
    split
    · exact hvisible
    · exact ⟨hvisible.1.set (v := .str _) trivial _,
        fun k hk => mem_keys_set_public hvisible.2 (by decide) hk⟩
  have hkey : ((sanitized.get? "prompt_key").getD .null).Distinct := by
    cases hcase : sanitized.get? "prompt_key" with
    | none => trivial
    | some w => exact hs.get? hcase
  split
  · exact hmode
  · refine ⟨hmode.1.set ?_ _, fun k hk => mem_keys_set_public hmode.2 (by decide) hk⟩
    split
    · exact hkey
    · trivial

theorem Good.agentFields (h : Good f) (hpatch : patch.Distinct) :
    Good (applyAgentFields f patch) := by
  unfold applyAgentFields
  extract_lets view
  have hview : Good view := by
    simp only [view]
    split
    · exact h
    · exact h
    · rename_i instructions _ heq
      refine h.set ?_ (by simp)
      split
      · exact hpatch.get? heq
      · trivial
  split
  · exact hview.set (v := .arr .nil) trivial (by simp)
  · exact hview

/-- `setVoice` and the agent fields leave the catalog fields alone. -/
theorem get?_setVoice (f : Fields) (v : Json) {k : String} (h : k ∉ ["audio", "voice"]) :
    (setVoice f v).get? k = f.get? k := by
  simp only [List.mem_cons, List.not_mem_nil, or_false, not_or] at h
  simp [setVoice, setNested, get?_set_ne _ _ h.1, get?_set_ne _ _ h.2]

theorem get?_applyAgentFields (f patch : Fields) {k : String} (h : k ∉ ["instructions", "tools"]) :
    (applyAgentFields f patch).get? k = f.get? k := by
  simp only [List.mem_cons, List.not_mem_nil, or_false, not_or] at h
  unfold applyAgentFields
  extract_lets view
  have hview : view.get? k = f.get? k := by
    simp only [view]
    split
    · rfl
    · rfl
    · exact get?_set_ne _ _ h.1
  split
  · rw [get?_set_ne _ _ h.2, hview]
  · exact hview

/-- An accepted update before the handoff. -/
theorem Sound.applyUpdate (h : Sound s.view) (hpatch : Good patch) (hs : sanitized.Distinct) :
    Sound (s.applyUpdate patch sanitized).view := by
  have hlegacy := ((hpatch.filter (· ≠ "nvidia")).merge h.good).legacy hpatch
  have hid := hlegacy.set (v := .str s.id) trivial (k := "id") (by simp)
  have hobject := hid.set (v := .str "realtime.session") trivial (k := "object") (by simp)
  have htype := hobject.set (v := .str "realtime") trivial (k := "type") (by simp)
  obtain ⟨hnvidia, hpublic⟩ := applyNvidia_sound (s := s) htype.distinct hpatch.distinct hs
  have hset := htype.set (v := .obj _) hnvidia (k := "nvidia") (by simp)
  have hagent := hset.agentFields hpatch.distinct
  have hfield : ∀ view : Fields, (applyAgentFields (view.set "nvidia" (.obj
      (applyNvidia s view patch sanitized))) patch).get? "nvidia" =
        some (.obj (applyNvidia s view patch sanitized)) := by
    intro view
    rw [get?_applyAgentFields _ _ (by simp), get?_set_self]
  unfold RealtimeSession.applyUpdate
  dsimp only
  split
  · rename_i voice hvoice
    split
    · refine ⟨hagent.setVoice (hs.get? hvoice), _, ?_, hpublic⟩
      rw [get?_setVoice _ _ (by simp), hfield]
    · exact ⟨hagent, _, hfield _, hpublic⟩
  · exact ⟨hagent, _, hfield _, hpublic⟩

end Reach

section Live
variable {resolve : String → String} {f patch : Fields} {s : Serializer}

/-- The part of one side of the audio that can change. -/
def liveBlock (f : Fields) (side : String) (known : List String) : Fields :=
  (objectOr (sub (f.get? "audio") side)).filter fun key => key ∈ known ∧ key ≠ "turn_detection"

theorem get?_liveBlock (f : Fields) (side : String) (known : List String) (k : String) :
    (liveBlock f side known).get? k =
      if k ∈ known ∧ k ≠ "turn_detection" then sub (sub (f.get? "audio") side) k else none := by
  simp [liveBlock, get?_filter]

theorem get?_liveSide (audio : Fields) (side : String) (known : List String) (out : Fields)
    (k : String) :
    (liveSide audio side known out).get? k =
      if k = side ∧ (objectOr (audio.get? side)).filter
          (fun key => key ∈ known ∧ key ≠ "turn_detection") ≠ .nil then
        some (.obj ((objectOr (audio.get? side)).filter
          fun key => key ∈ known ∧ key ≠ "turn_detection"))
      else out.get? k := by
  unfold liveSide
  dsimp only
  generalize (objectOr (audio.get? side)).filter
    (fun key => key ∈ known ∧ key ≠ "turn_detection") = block
  by_cases hb : block = .nil
  · simp [hb]
  · by_cases hk : k = side
    · subst hk
      simp [hb]
    · simp [hb, hk]

/-- The audio of a live patch: its two sides, less what cannot change. -/
def liveAudio (f : Fields) : Fields :=
  liveSide (objectOr (f.get? "audio")) "output" liveAudioOutputKeys
    (liveSide (objectOr (f.get? "audio")) "input" liveAudioInputKeys .nil)

theorem get?_liveAudio (f : Fields) (k : String) :
    (liveAudio f).get? k =
      if k = "output" ∧ liveBlock f "output" liveAudioOutputKeys ≠ .nil then
        some (.obj (liveBlock f "output" liveAudioOutputKeys))
      else if k = "input" ∧ liveBlock f "input" liveAudioInputKeys ≠ .nil then
        some (.obj (liveBlock f "input" liveAudioInputKeys))
      else none := by
  rw [liveAudio, get?_liveSide, get?_liveSide]
  simp only [get?_objectOr, get?_nil]
  rfl

theorem liveSessionPatch_eq (f : Fields) :
    liveSessionPatch f =
      let out := f.filter fun key => key ∈ liveSessionKeys ∧ key ∉ ["audio", "turn_detection"]
      if liveAudio f = .nil then out else out.set "audio" (.obj (liveAudio f)) := by
  have hnil : ∀ v : Json, v.object? = none → f.get? "audio" = some v → liveAudio f = .nil := by
    intro v hv hf
    have hempty : objectOr (f.get? "audio") = .nil := by simp [objectOr, hf, hv]
    rw [liveAudio, hempty]
    rfl
  unfold liveSessionPatch
  cases hcase : f.get? "audio" with
  | none =>
    have hempty : liveAudio f = .nil := by
      rw [liveAudio, hcase]
      rfl
    simp [hempty]
  | some v =>
    cases v with
    | obj audio => simp [liveAudio, hcase, objectOr, Json.object?]
    | _ => simp [hnil _ rfl hcase]

theorem Good.liveBlock_input (h : Good f) :
    GoodSide GoodTurns (some (.obj (liveBlock f "input" liveAudioInputKeys))) := by
  obtain ⟨hformat, hturns⟩ := h.audio.field.1.field (.inl rfl)
  refine ⟨?_, ?_⟩
  · rw [get?_liveBlock]
    split
    · exact hformat
    · trivial
  · rw [get?_liveBlock]
    simp [GoodTurns]

theorem Good.liveBlock_output (h : Good f) :
    GoodSide AnyTurns (some (.obj (liveBlock f "output" liveAudioOutputKeys))) := by
  refine ⟨?_, trivial⟩
  rw [get?_liveBlock]
  split
  · exact (h.audio.field.2.field trivial).1
  · trivial

theorem liveAudio_distinct (h : Good f) : (liveAudio f).Distinct := by
  have hblock : ∀ side known, (liveBlock f side known).Distinct := fun side known =>
    (objectOr_distinct (h.side_distinct side)).filter _
  have hside : ∀ side known (out : Fields), out.Distinct →
      (liveSide (objectOr (f.get? "audio")) side known out).Distinct := by
    intro side known out hout
    unfold liveSide
    dsimp only
    split
    · exact hout
    · refine hout.set (v := .obj _) ?_ _
      simpa [liveBlock] using hblock side known
  exact hside _ _ _ (hside _ _ _ trivial)

theorem Good.live (h : Good f) : Good (liveSessionPatch f) := by
  rw [liveSessionPatch_eq]
  dsimp only
  split
  · exact h.filter _
  · refine (h.filter _).setAudio (liveAudio_distinct h) ⟨?_, ?_⟩
    · rw [get?_liveAudio]
      simp only [String.reduceEq, false_and, if_false, true_and]
      split
      · exact h.liveBlock_input
      · trivial
    · rw [get?_liveAudio]
      simp only [String.reduceEq, false_and, if_false, true_and]
      split
      · exact h.liveBlock_output
      · trivial

theorem Good.nestInput (h : Good f) : Good (nestFormat "input_audio_format" "input" f) := by
  unfold nestFormat
  split
  · exact h
  · rename_i fmt hfmt
    have hblock := objectOr_distinct (h.side_distinct "input")
    have hside := h.audio.field.1.field (.inl rfl)
    refine (h.filter _).setInput ?_ ⟨?_, ?_⟩
    · simpa using hblock.set (h.field_distinct _ fmt hfmt) "format"
    · simpa [hfmt] using h.inputFormat
    · simpa using hside.2

theorem Good.nestOutput (h : Good f) : Good (nestFormat "output_audio_format" "output" f) := by
  unfold nestFormat
  split
  · exact h
  · rename_i fmt hfmt
    have hblock := objectOr_distinct (h.side_distinct "output")
    refine (h.filter _).setOutput ?_ ⟨?_, trivial⟩
    · simpa using hblock.set (h.field_distinct _ fmt hfmt) "format"
    · simpa [hfmt] using h.outputFormat

theorem Good.resolveInPatch (h : Good f) (voice : String) : Good (resolveInPatch voice f) := by
  unfold SessionView.resolveInPatch
  extract_lets patch
  have hpatch : Good patch := by
    simp only [patch]
    split
    · exact h.set (v := .str voice) trivial (by simp)
    · exact h
  split
  · rename_i output houtput
    split
    · have hd : output.Distinct := hpatch.side_distinct "output" (.obj output) houtput
      have hside := hpatch.audio.field.2
      rw [houtput] at hside
      refine hpatch.setOutput (hd.set (v := .str voice) trivial _) ⟨?_, trivial⟩
      simpa using hside.1
    · exact hpatch
  · exact hpatch

/-- What of an update can change, with its legacy formats in their new places. -/
def nestedPatch (f : Fields) : Fields :=
  nestFormat "output_audio_format" "output"
    (nestFormat "input_audio_format" "input" (liveSessionPatch f))

/-- The voice that a live update asks for, as the resolver gives it. -/
def liveVoice (resolve : String → String) (patch : Fields) : String :=
  resolvedVoice resolve (requestedVoice (nestedPatch patch))

/-- The patch that is merged after the handoff. -/
def livePatch (resolve : String → String) (patch : Fields) : Fields :=
  if liveVoice resolve patch = "" then nestedPatch patch
  else resolveInPatch (liveVoice resolve patch) (nestedPatch patch)

theorem Good.livePatch (h : Good f) (resolve : String → String) :
    Good (livePatch resolve f) := by
  unfold SessionSound.livePatch
  split
  · exact h.live.nestInput.nestOutput
  · exact h.live.nestInput.nestOutput.resolveInPatch _

/-- No patch of a live update touches the catalog fields. -/
theorem get?_livePatch_nvidia : (livePatch resolve f).get? "nvidia" = none := by
  have hlive : (liveSessionPatch f).get? "nvidia" = none := by
    rw [liveSessionPatch_eq]
    dsimp only
    split
    · simp [get?_filter, liveSessionKeys]
    · simp [get?_filter, liveSessionKeys]
  have hnest : ∀ key side (g : Fields), g.get? "nvidia" = none →
      (nestFormat key side g).get? "nvidia" = none := by
    intro key side g hg
    unfold nestFormat
    split
    · exact hg
    · simp [setNested, get?_filter, hg]
  have hnested : (nestedPatch f).get? "nvidia" = none :=
    hnest "output_audio_format" "output" _ (hnest "input_audio_format" "input" _ hlive)
  unfold livePatch
  split
  · exact hnested
  · unfold resolveInPatch
    extract_lets patch
    have hpatch : patch.get? "nvidia" = none := by
      simp only [patch]
      split
      · simpa using hnested
      · exact hnested
    split
    · split
      · simpa [setNested] using hpatch
      · exact hpatch
    · exact hpatch

theorem get?_merge_nvidia (hpatch : Good patch) :
    (mergeSessionPatch s.view (livePatch resolve patch)).get? "nvidia" =
      s.view.get? "nvidia" := by
  rw [mergeSessionPatch, get?_mergeInto (hpatch.livePatch resolve).distinct, get?_livePatch_nvidia]

/-- The view after a live update: the patch is merged, and the voice put in both places. -/
theorem Sound.applyLive_view (h : Sound s.view) (hpatch : Good patch)
    (resolve : String → String) :
    (s.applyLive resolve patch).1.view =
      if liveVoice resolve patch = "" then mergeSessionPatch s.view (livePatch resolve patch)
      else setVoice (mergeSessionPatch s.view (livePatch resolve patch))
        (.str (liveVoice resolve patch)) := by
  obtain ⟨n, hn, hpublic⟩ := h.nvidia
  have hget : (if liveVoice resolve patch = ""
      then mergeSessionPatch s.view (livePatch resolve patch)
      else setVoice (mergeSessionPatch s.view (livePatch resolve patch))
        (.str (liveVoice resolve patch))).get? "nvidia" = some (.obj n) := by
    split
    · rwa [get?_merge_nvidia hpatch]
    · rwa [get?_setVoice _ _ (by simp), get?_merge_nvidia hpatch]
  generalize hview : (s.applyLive resolve patch).1.view = view
  unfold Serializer.applyLive at hview
  dsimp only at hview
  split at hview
  · next nvidia heq =>
    cases hget.symm.trans heq
    rw [nvidiaPublicView_eq_self hpublic] at hview
    exact hview.symm.trans (set_get? hget)
  · next hno => exact (hno n hget).elim

/-- An accepted update after the handoff. -/
theorem Sound.applyLive (h : Sound s.view) (hpatch : Good patch) (resolve : String → String) :
    Sound (s.applyLive resolve patch).1.view := by
  have hmerged : Good (mergeSessionPatch s.view (livePatch resolve patch)) :=
    (hpatch.livePatch resolve).merge h.good
  obtain ⟨n, hn, hpublic⟩ := h.nvidia
  rw [h.applyLive_view hpatch resolve]
  split
  · exact ⟨hmerged, n, by rwa [get?_merge_nvidia hpatch], hpublic⟩
  · refine ⟨hmerged.setVoice (distinct_str _), n, ?_, hpublic⟩
    rwa [get?_setVoice _ _ (by simp), get?_merge_nvidia hpatch]

end Live

section Runs
variable {limits : Fields → Except Invalid Unit} {resolve : String → String}

/-- The sessions before the handoff: fresh, or after accepted updates. -/
inductive Configured (limits : Fields → Except Invalid Unit) : RealtimeSession → Prop
  | fresh (id defaultPipelineMode : String) : Configured limits (.fresh id defaultPipelineMode)
  | update {s : RealtimeSession} (h : Configured limits s) (patch sanitized : Fields)
      (hpatch : patch.Distinct) (hsanitized : sanitized.Distinct)
      (hok : checkSessionUpdate limits patch = .ok ()) :
      Configured limits (s.applyUpdate patch sanitized)

/-- The serializers after the handoff, and after accepted live updates. -/
inductive Serving (limits : Fields → Except Invalid Unit) (resolve : String → String) :
    Serializer → Prop
  | handoff {s : RealtimeSession} (h : Configured limits s) :
      Serving limits resolve ⟨s.view, s.flatConfig⟩
  | update {s s' : Serializer} (h : Serving limits resolve s) (patch : Fields)
      (hpatch : patch.Distinct) (voice : Option String)
      (hok : s.deserializeSessionUpdate resolve patch = .ok (s', voice)) :
      Serving limits resolve s'

theorem good_of_check {patch : Fields} (hd : patch.Distinct)
    (h : checkSessionUpdate limits patch = .ok ()) : Good patch := by
  simp only [checkSessionUpdate, then_ok] at h
  exact (good_iff hd).mpr ⟨h.2.2.2.2.1, h.2.2.2.1⟩

/-- A live update is accepted if it passes the validators and changes nothing that is fixed. -/
theorem deserialize_ok {s s' : Serializer} {patch : Fields} {voice : Option String} :
    s.deserializeSessionUpdate resolve patch = .ok (s', voice) ↔
      validateSessionAudioConfig patch = .ok () ∧ validateInputTranscription patch = .ok () ∧
        validateServerVad patch = .ok () ∧ unsupportedLiveSessionFields patch s.view = [] ∧
        s.applyLive resolve patch = (s', voice) := by
  have hseq : ∀ (x : Except Invalid Unit) (y : Except Invalid (Serializer × Option String)),
      (x >>= fun _ => y) = .ok (s', voice) ↔ x = .ok () ∧ y = .ok (s', voice) := by
    intro x y
    cases x with
    | error e => simp [bind, Except.bind]
    | ok u => simp [bind, Except.bind]
  rw [Serializer.deserializeSessionUpdate, hseq, hseq, hseq]
  refine and_congr_right fun _ => and_congr_right fun _ => and_congr_right fun _ => ?_
  dsimp only
  split
  · rename_i hne
    simp [hne]
  · rename_i hnil
    have hempty : unsupportedLiveSessionFields patch s.view = [] := by simpa using hnil
    simp [hempty]

theorem Configured.sound {s : RealtimeSession} (h : Configured limits s) : Sound s.view := by
  induction h with
  | fresh id mode =>
    refine ⟨(good_iff ?_).mpr ⟨?_, ?_⟩, defaultNvidia mode, ?_, ?_⟩
    · simp [RealtimeSession.fresh, Fields.Distinct, Json.Distinct, Items.Distinct, Fields.keys,
        defaultAudio, pcmFormat, serverVad, defaultNvidia]
    · rfl
    · rfl
    · rfl
    · intro k hk
      rcases List.mem_pair.mp hk with rfl | rfl
      · decide
      · decide
  | update _ patch sanitized hpatch hsanitized hok ih =>
    exact ih.applyUpdate (good_of_check hpatch hok) hsanitized

/-- Every view that can be reached is sound. -/
theorem Serving.sound {s : Serializer} (h : Serving limits resolve s) : Sound s.view := by
  induction h with
  | handoff h => exact h.sound
  | update _ patch hpatch voice hok ih =>
    obtain ⟨haudio, -, hvad, -, happly⟩ := deserialize_ok.mp hok
    have hsound := ih.applyLive ((good_iff hpatch).mpr ⟨haudio, hvad⟩) resolve
    rw [happly] at hsound
    exact hsound

end Runs

end VoiceAgent.SessionSound
