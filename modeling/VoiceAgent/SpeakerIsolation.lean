import VoiceAgent.SpeakerTurn

/-!
One speaker. The first who is tagged in a final is the primary speaker, and from then on the words
that are pushed are the words tagged as that speaker. Only the end of a cut word may be tagged as
another: it goes to the speaker of the final before, and is pushed if the word it ends was.
-/
namespace VoiceAgent.SpeakerIsolation

open StreamingEvents Diarization SpeakerText SpeakerRuns

section FirstWord
variable {u x z : Text}

theorem tokens_partitionSpace (x : Text) :
    tokens (partitionSpace x).1 ++ tokens (partitionSpace x).2 = tokens x := by
  obtain hx | ⟨u, v, hu, rfl⟩ := space_cases x
  · rw [partitionSpace_word hx, tokens_nil, List.append_nil]
  · rw [partitionSpace_append hu, tokens_append_space]

/-- White space after a text adds nothing to the first word of it. -/
theorem tokens_first_append (hz : ∀ c ∈ z, isSpace c = true) (x : Text) :
    tokens (partitionSpace (x ++ z)).1 = tokens (partitionSpace x).1 := by
  obtain hx | ⟨u, v, hu, rfl⟩ := space_cases x
  · rw [partitionSpace_word hx]
    obtain hblank | ⟨u, v, hu, rfl⟩ := space_cases z
    · rw [partitionSpace_word (by simp [hx, hblank])]
      exact tokens_append_blank hz x
    · rw [← List.append_assoc, partitionSpace_append (by simp [hx, hu])]
      exact tokens_append_blank (fun c hc => hz c (by simp [hc])) x
  · rw [List.append_assoc, List.cons_append, partitionSpace_append hu, partitionSpace_append hu]

theorem tokens_first_spaced (u : Text) (ws : List Text) :
    (partitionSpace (u ++ spaced ws)).1 = (partitionSpace u).1 := by
  obtain hu | ⟨u, v, hu, rfl⟩ := space_cases u
  · cases ws with
    | nil => rw [spaced_nil, List.append_nil]
    | cons w ws => rw [spaced_cons, partitionSpace_append hu, partitionSpace_word hu]
  · rw [List.append_assoc, List.cons_append, partitionSpace_append hu, partitionSpace_append hu]

/-- A text that is not blank begins, once stripped, with a character of a token. -/
theorem lstrip_cons {c : Char} (hmem : c ∈ x) (hc : isSpace c = false) :
    ∃ d rest, x.dropWhile isSpace = d :: rest ∧ isSpace d = false := by
  cases hcase : x.dropWhile isSpace with
  | nil =>
    rw [List.dropWhile_eq_nil_iff] at hcase
    rw [hcase c hmem] at hc
    cases hc
  | cons d rest =>
    have hhead := List.head?_dropWhile_not isSpace x
    rw [hcase] at hhead
    exact ⟨d, rest, rfl, by simpa using hhead⟩

theorem tokens_ne_nil_iff : tokens x ≠ [] ↔ ∃ c ∈ x, isSpace c = false := by
  constructor
  · intro h
    by_contra hnone
    push Not at hnone
    have hblank := tokens_blank_append (z := x) (fun c hc => by simpa using hnone c hc) []
    rw [List.append_nil, tokens_nil] at hblank
    exact h hblank
  · rintro ⟨c, hmem, hc⟩
    obtain ⟨d, rest, hlstrip, hd⟩ := lstrip_cons hmem hc
    rw [← tokens_lstrip, hlstrip]
    exact tokens_ne_nil hd rest

/-- The first word of a run of words lies in the first of them. -/
theorem tokens_first {w : Text} (ws : List Text) (hw : tokens w ≠ []) :
    tokens (partitionSpace (strip (unwords (w :: ws)))).1 <+: tokens w ∧
      tokens (partitionSpace (strip (unwords (w :: ws)))).1 ≠ [] := by
  obtain ⟨d, hmem, hd⟩ := tokens_ne_nil_iff.mp hw
  obtain ⟨c, rest, hlstrip, hc⟩ := lstrip_cons hmem hd
  have hne : c ≠ ' ' := by
    rintro rfl
    rw [isSpace_space] at hc
    cases hc
  have hfirst : tokens (partitionSpace (strip (unwords (w :: ws)))).1 =
      tokens (partitionSpace (c :: rest)).1 := by
    have htext : (unwords (w :: ws)).dropWhile isSpace = c :: rest ++ spaced ws := by
      rw [unwords_cons, List.dropWhile_append, hlstrip]
      rfl
    obtain ⟨z, hz, heq⟩ := rstrip_append (c :: rest ++ spaced ws)
    have hblank := tokens_first_append hz (rstrip (c :: rest ++ spaced ws))
    rw [strip, htext, ← hblank, ← heq, tokens_first_spaced]
  rw [hfirst]
  constructor
  · rw [← tokens_lstrip w, hlstrip, ← tokens_partitionSpace (c :: rest)]
    exact List.prefix_append _ _
  · rw [partitionSpace, List.takeWhile_cons_of_pos (by simpa using hne)]
    exact tokens_ne_nil hc _

/-- What stands after the first word of a stripped text is not blank. -/
theorem tokens_others_ne_nil (x : Text) (h : (partitionSpace (strip x)).2 ≠ []) :
    tokens (partitionSpace (strip x)).2 ≠ [] := by
  obtain hx | ⟨u, v, hu, heq⟩ := space_cases (strip x)
  · rw [partitionSpace_word hx] at h
    exact absurd rfl h
  · rw [heq, partitionSpace_append hu] at h ⊢
    obtain ⟨v, c, rfl⟩ := List.eq_nil_or_concat v |>.resolve_left h
    refine tokens_ne_nil_iff.mpr ⟨c, by simp, ?_⟩
    have hhead := List.head?_dropWhile_not isSpace (x.dropWhile isSpace).reverse
    have hreverse : (x.dropWhile isSpace).reverse.dropWhile isSpace =
        c :: (u ++ ' ' :: v).reverse := by
      rw [← List.reverse_reverse (List.dropWhile _ _)]
      exact (congrArg List.reverse heq).trans (by simp)
    rw [hreverse] at hhead
    simpa using hhead

end FirstWord

section Runs
variable {τ : Type} {runs : List (τ × Text)}

/-- The words of some texts, each with the speaker of its text. -/
def perWord (runs : List (τ × Text)) : List (τ × Text) :=
  runs.flatMap fun run => (tokens run.2).map fun w => (run.1, w)

@[simp] theorem perWord_nil : perWord ([] : List (τ × Text)) = [] := rfl

@[simp] theorem perWord_cons (run : τ × Text) (runs : List (τ × Text)) :
    perWord (run :: runs) = (tokens run.2).map (fun w => (run.1, w)) ++ perWord runs := by
  simp [perWord]

@[simp] theorem perWord_append (runs more : List (τ × Text)) :
    perWord (runs ++ more) = perWord runs ++ perWord more := by simp [perWord]

theorem map_snd_perWord (runs : List (τ × Text)) :
    (perWord runs).map Prod.snd = runs.flatMap fun run => tokens run.2 := by
  induction runs with
  | nil => rfl
  | cons run runs ih => simp [ih, Function.comp_def]

theorem perWord_filter (q : τ → Bool) (runs : List (τ × Text)) :
    perWord (runs.filter fun run => q run.1) = (perWord runs).filter fun w => q w.1 := by
  induction runs with
  | nil => rfl
  | cons run runs ih =>
    have hrun : ((tokens run.2).map fun w => (run.1, w)).filter (fun w => q w.1) =
        if q run.1 then (tokens run.2).map fun w => (run.1, w) else [] := by
      cases hq : q run.1 <;> simp [List.filter_map, Function.comp_def, hq]
    rw [perWord_cons, List.filter_append, hrun, List.filter_cons, ← ih]
    split <;> simp

/-- The runs of some words hold them, in their order. -/
theorem perWord_grouped {ω : Type} [DecidableEq ω] (number : ω → τ) (ws : List (ω × Text)) :
    perWord ((grouped ws).map fun run => (number run.1, strip (unwords run.2))) =
      (perWord ws).map fun w => (number w.1, w.2) := by
  have hexpand : ∀ runs : List (ω × List Text),
      perWord (runs.map fun run => (number run.1, strip (unwords run.2))) =
        (perWord (expand runs)).map fun w => (number w.1, w.2) := by
    intro runs
    induction runs with
    | nil => rfl
    | cons run runs ih =>
      have hwords : perWord (run.2.map fun w => (run.1, w)) =
          (run.2.flatMap tokens).map fun w => (run.1, w) := by
        rw [perWord, List.flatMap_map, List.map_flatMap]
      rw [List.map_cons, perWord_cons, ih, expand_cons, perWord_append, hwords, tokens_strip,
        tokens_unwords]
      simp [Function.comp_def]
  rw [hexpand, expand_grouped]

/-- No run is blank. -/
def Visible (runs : List (τ × Text)) : Prop := ∀ run ∈ runs, tokens run.2 ≠ []

theorem visible_grouped {ω : Type} [DecidableEq ω] (number : ω → τ) {ws : List (ω × Text)}
    (h : Visible ws) :
    Visible ((grouped ws).map fun run => (number run.1, strip (unwords run.2))) := by
  intro run hrun
  obtain ⟨⟨t, us⟩, hmem, rfl⟩ := List.mem_map.mp hrun
  obtain ⟨u, us, rfl⟩ := List.exists_cons_of_ne_nil (grouped_ne_nil ws _ hmem)
  have hu : (t, u) ∈ ws := by
    rw [← expand_grouped ws]
    exact List.mem_flatMap.mpr ⟨_, hmem, by simp⟩
  rw [tokens_strip, tokens_unwords]
  simp [h _ hu]

/-- Some runs end with the last word of the last of them. -/
theorem getLast_tokens (init : List (τ × Text)) {run : τ × Text} (h : tokens run.2 ≠ []) :
    ((init ++ [run]).flatMap fun run => tokens run.2).getLast? = (tokens run.2).getLast? := by
  rw [List.flatMap_append, List.flatMap_singleton]
  exact List.getLast?_append_of_ne_nil _ h

theorem perWord_mergeRun (merged : List (Option ℕ × Text)) (run : Option ℕ × Text) :
    perWord (mergeRun merged run) = perWord merged ++ perWord [run] := by
  cases merged using List.reverseRecOn with
  | nil => rfl
  | append_singleton init last =>
    obtain ⟨speaker, words⟩ := last
    by_cases hs : speaker = run.1
    · simp [mergeRun, hs, tokens_append_space]
    · simp [mergeRun, hs]

theorem perWord_foldl_mergeRun (runs merged : List (Option ℕ × Text)) :
    perWord (runs.foldl mergeRun merged) = perWord merged ++ perWord runs := by
  induction runs generalizing merged with
  | nil => simp
  | cons run runs ih =>
    rw [List.foldl_cons, ih, perWord_mergeRun, List.append_assoc, ← perWord_append,
      List.singleton_append]

theorem Visible.mergeRun {merged : List (Option ℕ × Text)} {run : Option ℕ × Text}
    (h : Visible merged) (hrun : tokens run.2 ≠ []) : Visible (mergeRun merged run) := by
  cases merged using List.reverseRecOn with
  | nil => simpa [Diarization.mergeRun, Visible] using hrun
  | append_singleton init last =>
    obtain ⟨speaker, words⟩ := last
    intro r hr
    by_cases hs : speaker = run.1
    · have hcases : r ∈ init ∨ r = (speaker, words ++ ' ' :: run.2) := by
        simpa [Diarization.mergeRun, hs] using hr
      rcases hcases with hr | rfl
      · exact h r (by simp [hr])
      · simp [tokens_append_space, hrun]
    · have hcases : r ∈ init ++ [(speaker, words)] ∨ r = run := by
        simpa [Diarization.mergeRun, hs, or_assoc] using hr
      rcases hcases with hr | rfl
      · exact h r hr
      · exact hrun

theorem Visible.foldl_mergeRun {runs merged : List (Option ℕ × Text)} (hmerged : Visible merged)
    (h : Visible runs) : Visible (runs.foldl Diarization.mergeRun merged) := by
  induction runs generalizing merged with
  | nil => exact hmerged
  | cons run runs ih =>
    exact ih (hmerged.mergeRun (h run (by simp))) fun r hr => h r (List.mem_cons_of_mem _ hr)

/-- Only the first word changes hands. -/
theorem perWord_reassignFirstWord (t : Option ℕ) (x : Text) (rest : List (Option ℕ × Text))
    (s : Option ℕ) :
    perWord (reassignFirstWord ((t, x) :: rest) s) =
      (tokens (partitionSpace x).1).map (fun w => (s, w)) ++
        ((tokens (partitionSpace x).2).map (fun w => (t, w)) ++ perWord rest) := by
  simp only [reassignFirstWord]
  rw [perWord_foldl_mergeRun]
  by_cases hothers : (partitionSpace x).2 = []
  · simp [hothers, tokens_nil]
  · simp [hothers]

theorem visible_reassignFirstWord {t : Option ℕ} {x : Text} {rest : List (Option ℕ × Text)}
    (h : Visible rest) (hfirst : tokens (partitionSpace x).1 ≠ [])
    (hothers : (partitionSpace x).2 ≠ [] → tokens (partitionSpace x).2 ≠ []) (s : Option ℕ) :
    Visible (reassignFirstWord ((t, x) :: rest) s) := by
  simp only [reassignFirstWord]
  refine Visible.foldl_mergeRun (by simp [Visible]) fun run hrun => ?_
  rcases List.mem_cons.mp hrun with rfl | hrun
  · exact hfirst
  · rcases List.mem_append.mp hrun with hrun | hrun
    · split at hrun
      · cases hrun
      · obtain rfl := List.mem_singleton.mp hrun
        exact hothers (by assumption)
    · exact h run hrun

end Runs

section Finals
variable {p : Processor} {f : Frame} {result : Option Alternative} {a : Alternative}

def resultWords (result : Option Alternative) : List Word := (result.map Alternative.words).getD []

/-- A final with a result whose words are all tagged, and that has no tag of its own. -/
structure TaggedFinal (f : Frame) (result : Option Alternative) : Prop where
  final : f.final = true
  upstream : f.speakerTag = none
  carries : f.result = some result
  tagged : ∀ w ∈ resultWords result, w.tag ≠ none
  visible : ∀ w ∈ resultWords result, tokens w.text ≠ []

instance (f : Frame) (result : Option Alternative) : Decidable (TaggedFinal f result) :=
  decidable_of_iff (f.final = true ∧ f.speakerTag = none ∧ f.result = some result ∧
      (∀ w ∈ resultWords result, w.tag ≠ none) ∧ ∀ w ∈ resultWords result, tokens w.text ≠ [])
    ⟨fun ⟨h₁, h₂, h₃, h₄, h₅⟩ => ⟨h₁, h₂, h₃, h₄, h₅⟩,
      fun h => ⟨h.final, h.upstream, h.carries, h.tagged, h.visible⟩⟩

/-- What the recogniser said of a result, word by word. -/
def said (result : Option Alternative) : List (ℤ × Text) :=
  perWord ((result.map wordsOf).getD [])

/-- The words of a final with words, before any of them is given away. -/
theorem TaggedFinal.wordsOf_eq (h : TaggedFinal f (some a)) {w : Word} {rest : List Word}
    (ha : a.words = w :: rest) :
    ∃ t more, wordsOf a = (t, w.text) :: more := by
  have htexts := texts_wordsOf (a := a) h.tagged
  have hw : w.text ≠ [] := by
    intro hnil
    have hvisible := h.visible w (by simp [resultWords, ha])
    rw [hnil] at hvisible
    exact hvisible tokens_nil
  rw [ha, List.map_cons, List.filter_cons_of_pos (by simpa using hw)] at htexts
  obtain ⟨u, more, hwords, htext, -⟩ := List.map_eq_cons_iff.mp htexts
  exact ⟨u.1, more, by rw [hwords, ← htext]⟩

theorem TaggedFinal.texts_eq (h : TaggedFinal f (some a)) :
    (wordsOf a).map Prod.snd = a.words.map Word.text := by
  rw [texts_wordsOf h.tagged, List.filter_eq_self]
  intro x hx
  obtain ⟨w, hw, rfl⟩ := List.mem_map.mp hx
  have hvisible := h.visible w hw
  simp only [decide_eq_true_eq]
  intro hnil
  rw [hnil] at hvisible
  exact hvisible tokens_nil

theorem TaggedFinal.visible_wordsOf (h : TaggedFinal f (some a)) : Visible (wordsOf a) := by
  intro w hw
  have hmem : w.2 ∈ a.words.map Word.text := by
    rw [← h.texts_eq]
    exact List.mem_map.mpr ⟨w, hw, rfl⟩
  obtain ⟨word, hword, htext⟩ := List.mem_map.mp hmem
  rw [← htext]
  exact h.visible word hword

theorem TaggedFinal.texts_said (h : TaggedFinal f result) :
    (said result).map Prod.snd = (resultWords result).flatMap fun w => tokens w.text := by
  cases result with
  | none => rfl
  | some a =>
    change (perWord (wordsOf a)).map Prod.snd = a.words.flatMap fun w => tokens w.text
    have hflat : ∀ ws : List (ℤ × Text), (ws.flatMap fun w => tokens w.2) =
        (ws.map Prod.snd).flatMap tokens := fun ws => (List.flatMap_map ..).symm
    rw [map_snd_perWord, hflat, h.texts_eq, List.flatMap_map]

theorem TaggedFinal.runsOf_eq (h : TaggedFinal f (some a)) (hne : wordsOf a ≠ []) :
    (p.runsOf f (some a)).1 = (grouped (wordsOf a)).map (fun run =>
        (some ((p.runsOf f (some a)).2.idxOf run.1), strip (unwords run.2))) ∧
      ∀ w ∈ wordsOf a, w.1 ∈ (p.runsOf f (some a)).2 := by
  have hruns := numberSpeakers_map p.speakerNumbers
    ((grouped (wordsOf a)).map fun run => (run.1, strip (unwords run.2))) (List.prefix_refl _)
  simp only [Processor.runsOf, h.upstream, splitTranscriptBySpeaker_words h.tagged hne]
  simp only [List.map_map, Function.comp_def] at hruns
  refine ⟨hruns.1, fun w hw => ?_⟩
  rw [← expand_grouped (wordsOf a)] at hw
  obtain ⟨run, hrun, hmem⟩ := List.mem_flatMap.mp hw
  obtain ⟨u, -, rfl⟩ := List.mem_map.mp hmem
  exact hruns.2 (run.1, strip (unwords run.2)) (List.mem_map.mpr ⟨run, hrun, rfl⟩)

/-- The runs of a final once a piece of a cut word has gone to the speaker before it. -/
def cutRuns (fits : ℤ → ℤ → Bool) (p : Processor) (f : Frame) (result : Option Alternative) :
    List (Option ℕ × Text) :=
  if continuesPreviousWord fits result p.previousFinalEnd then
    reassignFirstWord (p.runsOf f result).1 p.previousFinalSpeakerId
  else (p.runsOf f result).1

/-- What is said in a final is a piece of its first word, if that goes on with a word before,
and words of the speakers they are tagged with. -/
theorem TaggedFinal.perWord_cutRuns (fits : ℤ → ℤ → Bool) (h : TaggedFinal f (some a))
    {w : Word} {rest : List Word} (hwords : a.words = w :: rest) :
    cutRuns fits p f (some a) ≠ [] ∧ Visible (cutRuns fits p f (some a)) ∧
      ∃ cut more, said (some a) = cut ++ more ∧
        perWord (cutRuns fits p f (some a)) = cut.map (fun v => (p.previousFinalSpeakerId, v.2)) ++
          more.map (fun v => (some ((p.runsOf f (some a)).2.idxOf v.1), v.2)) ∧
        (cut = [] ∨ continuesPreviousWord fits (some a) p.previousFinalEnd = true ∧
          cut.map Prod.snd <+: tokens w.text) := by
  obtain ⟨t, ws, hspoken⟩ := h.wordsOf_eq hwords
  obtain ⟨hruns, -⟩ := h.runsOf_eq (p := p) (by simp [hspoken])
  have hvisible : Visible (p.runsOf f (some a)).1 := by
    rw [hruns]
    exact visible_grouped (fun tag => some ((p.runsOf f (some a)).2.idxOf tag)) h.visible_wordsOf
  have hsaid : perWord (p.runsOf f (some a)).1 = (said (some a)).map
      fun v => (some ((p.runsOf f (some a)).2.idxOf v.1), v.2) := by
    rw [hruns]
    exact perWord_grouped (fun tag => some ((p.runsOf f (some a)).2.idxOf tag)) (wordsOf a)
  rw [hspoken, grouped_cons, List.map_cons] at hruns
  generalize hN : (p.runsOf f (some a)).2 = N at hruns hsaid ⊢
  generalize (runsFrom (some t) ws).1 = us at hruns
  generalize (runsFrom (some t) ws).2.map (fun run =>
    (some (N.idxOf run.1), strip (unwords run.2))) = others at hruns
  unfold cutRuns
  rw [hruns] at hvisible hsaid ⊢
  cases hcont : continuesPreviousWord fits (some a) p.previousFinalEnd with
  | false => exact ⟨by simp, hvisible, [], said (some a), rfl, by simpa using hsaid, .inl rfl⟩
  | true =>
    obtain ⟨hfirst, hne⟩ := tokens_first us (h.visible w (by simp [resultWords, hwords]))
    have hreassigned := perWord_reassignFirstWord (some (N.idxOf t))
      (strip (unwords (w.text :: us))) others p.previousFinalSpeakerId
    have hshown := visible_reassignFirstWord (t := some (N.idxOf t))
      (fun run hrun => hvisible run (List.mem_cons_of_mem _ hrun)) hne
      (tokens_others_ne_nil (unwords (w.text :: us))) p.previousFinalSpeakerId
    simp only [if_true]
    generalize hfirstRuns : reassignFirstWord ((some (N.idxOf t), strip (unwords (w.text :: us))) ::
      others) p.previousFinalSpeakerId = runs at hreassigned hshown ⊢
    rw [perWord_cons, ← tokens_partitionSpace, List.map_append, List.append_assoc,
      eq_comm] at hsaid
    obtain ⟨cut, more, hsplit, hcut, hmore⟩ := List.map_eq_append_iff.mp hsaid
    have hpiece : cut.map Prod.snd =
        tokens (partitionSpace (strip (unwords (w.text :: us)))).1 := by
      have hsnd := congrArg (List.map Prod.snd) hcut
      simpa [Function.comp_def] using hsnd
    refine ⟨?_, hshown, cut, more, hsplit, ?_, .inr ⟨trivial, by rw [hpiece]; exact hfirst⟩⟩
    · rintro rfl
      simp [hne] at hreassigned
    · rw [hreassigned, ← hmore, ← hpiece, List.map_map]
      rfl

end Finals

section Process
variable (fits : ℤ → ℤ → Bool) {p : Processor} {f : Frame} {result : Option Alternative}

/-- Two states that tell apart the same speaker. -/
def SameSpeaker (p q : Processor) : Prop :=
  q.multiSpeakerSupport = p.multiSpeakerSupport ∧ q.primarySpeakerId = p.primarySpeakerId ∧
    q.previousFinalEnd = p.previousFinalEnd ∧ q.previousFinalSpeakerId = p.previousFinalSpeakerId

theorem record_sameSpeaker (p : Processor) (result : Option Alternative)
    (runs : List (Option ℕ × Text)) (glue : Bool) :
    SameSpeaker p (p.record result runs glue) := by
  have hbegin : SameSpeaker p (beginTurn p) := by
    unfold beginTurn
    split <;> exact ⟨rfl, rfl, rfl, rfl⟩
  simp only [Processor.record, ← beginTurn.eq_1]
  split
  · split <;> exact hbegin
  · exact hbegin

/-- With one speaker all runs are pushed as one text. -/
theorem push_single (hp : p.multiSpeakerSupport = false) (runs : List (Option ℕ × Text))
    (glue : Bool) :
    p.push f runs glue =
      (p, [setLlmSpacing { f with text := unwords (runs.map Prod.snd) } glue]) := by
  simp [Processor.push, Processor.prefixFinalForLlm, hp]

theorem tokens_setLlmSpacing (f : Frame) (glued : Bool) :
    tokens (setLlmSpacing f glued).text = tokens f.text := by
  unfold setLlmSpacing
  split
  · rfl
  · cases glued with
    | true => exact tokens_lstrip f.text
    | false =>
      exact (tokens_blank_append (z := [' ']) (by simp [isSpace_space]) _).trans
        (tokens_lstrip f.text)

/-- The runs of a final that go on: those of the primary speaker, once there is one. -/
def keptRuns (primary : Option ℕ) (runs : List (Option ℕ × Text)) : List (Option ℕ × Text) :=
  if primary = none then runs else runs.filter fun run => run.1 = primary

/-- A latch changes nothing but the primary speaker, and that only where there was none. -/
theorem latchPrimary_keeps (p : Processor) (f : Frame) (runs : List (Option ℕ × Text)) :
    (p.latchPrimary f runs).multiSpeakerSupport = p.multiSpeakerSupport ∧
      (p.latchPrimary f runs).previousFinalEnd = p.previousFinalEnd ∧
      (p.latchPrimary f runs).previousFinalSpeakerId = p.previousFinalSpeakerId ∧
      (p.primarySpeakerId = none ∨
        (p.latchPrimary f runs).primarySpeakerId = p.primarySpeakerId) := by
  rw [Processor.latchPrimary]
  split
  · rename_i hnone
    exact ⟨rfl, rfl, rfl, .inl hnone.2⟩
  · exact ⟨rfl, rfl, rfl, .inr rfl⟩

theorem isolate_single (hp : p.multiSpeakerSupport = false) (hfinal : f.final = true)
    (runs : List (Option ℕ × Text)) :
    p.isolate f runs = keptRuns p.primarySpeakerId runs := by
  unfold Processor.isolate keptRuns
  by_cases hnone : p.primarySpeakerId = none
  · simp [hnone]
  · simp [hnone, hp, hfinal]

/-- A final in a processor of one speaker. -/
theorem process_single (hp : p.multiSpeakerSupport = false) (h : TaggedFinal f result)
    (hruns : (p.runsOf f result).1 ≠ []) :
    let runs := cutRuns fits p f result
    let q := (p.process fits f result).1
    q.multiSpeakerSupport = false ∧ q.previousFinalEnd = lastWordEnd result ∧
      q.previousFinalSpeakerId = runs.getLast?.bind Prod.fst ∧
      (p.primarySpeakerId = none ∨ q.primarySpeakerId = p.primarySpeakerId) ∧
      (p.process fits f result).2.map (fun g => tokens g.text) =
        if keptRuns q.primarySpeakerId runs = [] then []
        else [(keptRuns q.primarySpeakerId runs).flatMap fun run => tokens run.2] := by
  intro runs q
  have hcall : f.final = true ∧ f.speakerTag = none := ⟨h.final, h.upstream⟩
  let r : Processor := { p with
    speakerNumbers := (p.runsOf f result).2
    previousFinalEnd := lastWordEnd result
    previousFinalSpeakerId := runs.getLast?.bind Prod.fst }
  have hcut : ({ p with speakerNumbers := (p.runsOf f result).2 } : Processor).cutWord fits f
      result (p.runsOf f result).1 =
        (r, runs, continuesPreviousWord fits result p.previousFinalEnd) := by
    simp only [Processor.cutWord, if_pos hcall]
    rfl
  obtain ⟨hmulti, hstop, hspeaker, hprimary⟩ := latchPrimary_keeps r f runs
  generalize hl : r.latchPrimary f runs = l at hmulti hstop hspeaker hprimary
  have hmulti : l.multiSpeakerSupport = false := hmulti.trans hp
  have hisolate : l.isolate f runs = keptRuns l.primarySpeakerId runs :=
    isolate_single hmulti h.final runs
  have hprocess : p.process fits f result =
      if keptRuns l.primarySpeakerId runs = [] then (l, [])
      else
        let glue := continuesPreviousWord fits result p.previousFinalEnd &&
          (keptRuns l.primarySpeakerId runs).head?.bind Prod.fst = p.previousFinalSpeakerId
        (l.record result (keptRuns l.primarySpeakerId runs) glue).push f
          (keptRuns l.primarySpeakerId runs) glue := by
    simp only [Processor.process]
    rw [if_neg hruns, hcut]
    simp only [hl, hisolate, if_pos h.final, if_pos hcall]
  have hkept : q = (p.process fits f result).1 := rfl
  rw [hprocess] at hkept ⊢
  split at hkept
  · rename_i hnil
    rw [if_pos hnil]
    subst hkept
    exact ⟨hmulti, hstop, hspeaker, hprimary, by rw [if_pos hnil]; rfl⟩
  · rename_i hne
    obtain ⟨hmulti', hprimary', hstop', hspeaker'⟩ := record_sameSpeaker l result
      (keptRuns l.primarySpeakerId runs) (continuesPreviousWord fits result p.previousFinalEnd &&
        (keptRuns l.primarySpeakerId runs).head?.bind Prod.fst = p.previousFinalSpeakerId)
    simp only [push_single (hmulti'.trans hmulti)] at hkept
    rw [if_neg hne, hkept, hprimary', if_neg hne]
    simp only [push_single (hmulti'.trans hmulti)]
    refine ⟨hmulti'.trans hmulti, hstop'.trans hstop, hspeaker'.trans hspeaker, hprimary, ?_⟩
    simp [tokens_setLlmSpacing, tokens_unwords, List.flatMap_map]

theorem continuesPreviousWord_wordless (h : resultWords result = []) (stop : Option ℤ) :
    continuesPreviousWord fits result stop = false := by
  cases result with
  | none => cases stop <;> rfl
  | some a =>
    obtain ⟨transcript, words⟩ := a
    obtain rfl : words = [] := h
    cases stop with
    | none => rfl
    | some stop => cases transcript <;> rfl

theorem TaggedFinal.runsOf_wordless (h : TaggedFinal f result) (hwords : resultWords result = []) :
    p.runsOf f result =
      (if strip f.text = [] then [] else [(none, strip f.text)], p.speakerNumbers) := by
  have hwords' : (result.map Alternative.words).getD [] = [] := hwords
  simp only [Processor.runsOf, h.upstream, splitTranscriptBySpeaker, extractSpeakerId, hwords']
  by_cases htext : strip f.text = []
  · simp [htext, numberSpeakers]
  · simp [htext, numberSpeakers, mostCommon]

end Process

section Runs
variable (fits : ℤ → ℤ → Bool) {p : Processor} {f : Frame} {result : Option Alternative}
  {a : Alternative}

/-- A final that is heard, or the end of a turn, at which its fragments are taken. -/
inductive Input
  | heard (f : Frame)
  | taken

def step (fits : ℤ → ℤ → Bool) (p : Processor) : Input → Processor
  | .heard f => (p.processFrame fits f).1
  | .taken => p.takeTurnFragments.2

/-- A processor of one speaker, after some inputs. -/
def after (fits : ℤ → ℤ → Bool) (inputs : List Input) : Processor :=
  inputs.foldl (step fits) { multiSpeakerSupport := false }

/-- A final that says nothing. -/
def Silent (i : Input) : Prop :=
  ∃ f result, i = .heard f ∧ f.result = some result ∧ strip f.text = [] ∧ resultWords result = []

/-- `word` is the last one that was heard, in the final `earlier`. -/
def HeardLast (inputs before : List Input) (earlier : Frame) (word : Word) : Prop :=
  ∃ quiet result, inputs = before ++ .heard earlier :: quiet ∧ (∀ i ∈ quiet, Silent i) ∧
    earlier.result = some result ∧ (resultWords result).getLast? = some word

/-- A frame that ends with the word was pushed for the final. -/
def Kept (fits : ℤ → ℤ → Bool) (before : List Input) (earlier : Frame) (word : Word) : Prop :=
  ∃ g ∈ ((after fits before).processFrame fits earlier).2,
    (tokens g.text).getLast? = (tokens word.text).getLast?

/-- What the processor remembers of the final before: when its last word ended, and whose it
was. -/
structure Remembers (fits : ℤ → ℤ → Bool) (inputs : List Input) (p : Processor) : Prop where
  single : p.multiSpeakerSupport = false
  last : ∀ stop, p.previousFinalEnd = some stop →
    ∃ before earlier word, HeardLast inputs before earlier word ∧ word.stop = stop ∧
      (p.primarySpeakerId = none ∨ p.previousFinalSpeakerId = p.primarySpeakerId →
        Kept fits before earlier word)

theorem Remembers.silent {inputs : List Input} {i : Input} (h : Remembers fits inputs p)
    (hi : Silent i) : Remembers fits (inputs ++ [i]) p where
  single := h.single
  last stop hstop := by
    obtain ⟨before, earlier, word, ⟨quiet, r, rfl, hquiet, hr, hword⟩, hkept⟩ := h.last stop hstop
    refine ⟨before, earlier, word, ⟨quiet ++ [i], r, by simp, fun j hj => ?_, hr, hword⟩, hkept⟩
    rcases List.mem_append.mp hj with hj | hj
    · exact hquiet j hj
    · obtain rfl := List.mem_singleton.mp hj
      exact hi

theorem TaggedFinal.processFrame_eq (h : TaggedFinal f result) (p : Processor) :
    p.processFrame fits f = p.process fits f result := by
  rw [Processor.processFrame, h.carries]

/-- A final without runs goes on as it is. -/
theorem process_nil (h : (p.runsOf f result).1 = [])
    (hN : (p.runsOf f result).2 = p.speakerNumbers) :
    p.process fits f result = (p, [f]) := by
  simp only [Processor.process]
  rw [if_pos h, hN]

theorem TaggedFinal.runsOf_ne_nil (h : TaggedFinal f (some a)) {w : Word} {rest : List Word}
    (hwords : a.words = w :: rest) : (p.runsOf f (some a)).1 ≠ [] := by
  obtain ⟨t, ws, hspoken⟩ := h.wordsOf_eq hwords
  rw [(h.runsOf_eq (by simp [hspoken])).1]
  simp [grouped_eq_nil, hspoken]

/-- A final whose last word is the speaker's is pushed up to its end. -/
theorem TaggedFinal.kept (h : TaggedFinal f (some a)) (hp : p.multiSpeakerSupport = false)
    {word : Word} (hword : a.words.getLast? = some word)
    (hspeaker : (p.process fits f (some a)).1.primarySpeakerId = none ∨
      (p.process fits f (some a)).1.previousFinalSpeakerId =
        (p.process fits f (some a)).1.primarySpeakerId) :
    ∃ g ∈ (p.process fits f (some a)).2,
      (tokens g.text).getLast? = (tokens word.text).getLast? := by
  obtain ⟨init, hinit⟩ : ∃ init, a.words = init ++ [word] := by
    exact ⟨_, (List.dropLast_append_getLast? word hword).symm⟩
  obtain ⟨w, rest, hwords⟩ := List.exists_cons_of_ne_nil (by simp [hinit] : a.words ≠ [])
  obtain ⟨hruns, hvisible, cut, more, hsaid, hperWord, -⟩ :=
    h.perWord_cutRuns (p := p) fits hwords
  obtain ⟨-, -, hprevious, -, hpushed⟩ :=
    process_single fits hp h (h.runsOf_ne_nil hwords)
  generalize p.process fits f (some a) = out at hspeaker hprevious hpushed ⊢
  cases hlast : cutRuns fits p f (some a) using List.reverseRecOn with
  | nil => exact absurd hlast hruns
  | append_singleton runs run =>
    have hrun : tokens run.2 ≠ [] := hvisible run (by simp [hlast])
    rw [hlast, List.getLast?_concat, Option.bind_some] at hprevious
    obtain ⟨kept, hkept⟩ : ∃ kept,
        keptRuns out.1.primarySpeakerId (runs ++ [run]) = kept ++ [run] := by
      unfold keptRuns
      split
      · exact ⟨runs, rfl⟩
      · rename_i hsome
        have heq : run.1 = out.1.primarySpeakerId := by
          rw [← hprevious]
          exact hspeaker.resolve_left hsome
        exact ⟨runs.filter fun run => run.1 = out.1.primarySpeakerId, by simp [heq]⟩
    rw [hlast, hkept, if_neg (by simp)] at hpushed
    obtain ⟨g, hg, htext⟩ := List.map_eq_singleton_iff.mp hpushed
    refine ⟨g, by simp [hg], ?_⟩
    -- the last word of the runs is the last word of the final
    have htokens : ((runs ++ [run]).flatMap fun run => tokens run.2) =
        a.words.flatMap fun w => tokens w.text := by
      rw [← hlast, ← map_snd_perWord, hperWord, List.map_append, List.map_map, List.map_map]
      have hpieces := (congrArg (List.map Prod.snd) hsaid).trans (List.map_append ..)
      exact hpieces.symm.trans h.texts_said
    have hend := congrArg List.getLast? htokens
    rw [getLast_tokens runs hrun, hinit, List.flatMap_append, List.flatMap_singleton,
      List.getLast?_append_of_ne_nil _ (h.visible word (by simp [resultWords, hinit]))] at hend
    rw [htext, getLast_tokens kept hrun, hend]

theorem Remembers.heard {inputs : List Input} (h : Remembers fits inputs (after fits inputs))
    (hf : TaggedFinal f result) :
    Remembers fits (inputs ++ [.heard f]) ((after fits inputs).processFrame fits f).1 := by
  have hframe := hf.processFrame_eq fits (after fits inputs)
  cases hwords : resultWords result with
  | nil =>
    have hrunsOf := hf.runsOf_wordless (p := after fits inputs) hwords
    by_cases htext : strip f.text = []
    · rw [if_pos htext] at hrunsOf
      rw [hframe, process_nil fits (by rw [hrunsOf]) (by rw [hrunsOf])]
      exact h.silent fits ⟨f, result, rfl, hf.carries, htext, hwords⟩
    · rw [if_neg htext] at hrunsOf
      obtain ⟨hsingle, hstop, -⟩ := process_single fits h.single hf (by simp [hrunsOf])
      have hwords' : (result.map Alternative.words).getD [] = [] := hwords
      rw [hframe]
      refine ⟨hsingle, fun stop hsome => ?_⟩
      rw [hstop, lastWordEnd, hwords'] at hsome
      cases hsome
  | cons w rest =>
    cases result with
    | none => cases hwords
    | some a =>
      obtain ⟨hsingle, hstop, -⟩ := process_single fits h.single hf
        (hf.runsOf_ne_nil hwords)
      refine ⟨by rw [hframe]; exact hsingle, fun stop hsome => ?_⟩
      rw [hframe, hstop] at hsome
      obtain ⟨word, hword, rfl⟩ := Option.map_eq_some_iff.mp hsome
      refine ⟨inputs, f, word, ⟨[], some a, rfl, by simp, hf.carries, hword⟩, rfl, ?_⟩
      intro hspeaker
      rw [hframe] at hspeaker
      unfold Kept
      rw [hframe]
      exact hf.kept fits h.single hword hspeaker

/-- What is remembered over any sequence of finals and turns. -/
theorem remembers_after {inputs : List Input}
    (h : ∀ f, .heard f ∈ inputs → ∃ result, TaggedFinal f result) :
    Remembers fits inputs (after fits inputs) := by
  induction inputs using List.reverseRecOn with
  | nil => exact ⟨rfl, fun stop hstop => by cases hstop⟩
  | append_singleton inputs i ih =>
    have hbefore := ih fun f hf => h f (List.mem_append.mpr (.inl hf))
    have hafter : after fits (inputs ++ [i]) = step fits (after fits inputs) i := by
      rw [after, List.foldl_append, List.foldl_cons, List.foldl_nil]
      rfl
    rw [hafter]
    cases i with
    | taken => exact ⟨hbefore.single, fun stop hstop => by cases hstop⟩
    | heard f =>
      obtain ⟨result, hf⟩ := h f (by simp)
      exact hbefore.heard fits hf

/-- The words of a final have numbers in the table. -/
theorem TaggedFinal.said_mem (h : TaggedFinal f (some a)) (hne : wordsOf a ≠ []) :
    ∀ w ∈ said (some a), w.1 ∈ (p.runsOf f (some a)).2 := by
  intro w hw
  obtain ⟨v, hv, hmem⟩ := List.mem_flatMap.mp hw
  obtain ⟨u, -, rfl⟩ := List.mem_map.mp hmem
  exact (h.runsOf_eq hne).2 v hv

/-- The words of the runs that go on are a piece given to the primary speaker, and words tagged
as that speaker. -/
theorem filter_given {N : List ℤ} {n : ℕ} {prev : Option ℕ} (cut more : List (ℤ × Text)) :
    ((cut.map (fun v => (prev, v.2)) ++ more.map fun v => (some (N.idxOf v.1), v.2)).filter
        fun v => v.1 = some n).map Prod.snd =
      ((if prev = some n then cut else []) ++ more.filter fun v => N.idxOf v.1 = n).map
        Prod.snd := by
  have hcut : (cut.map (fun v => (prev, v.2))).filter (fun v => v.1 = some n) =
      if prev = some n then cut.map (fun v => (prev, v.2)) else [] := by
    by_cases h : prev = some n <;> simp [List.filter_map, Function.comp_def, h]
  rw [List.filter_append, hcut, List.filter_map]
  split <;> simp [Function.comp_def]

/-- Without words nothing of a final goes on but white space. -/
theorem TaggedFinal.pushed_wordless (h : TaggedFinal f result)
    (hp : p.multiSpeakerSupport = false) (hwords : resultWords result = []) {n : ℕ}
    (hprimary : (p.process fits f result).1.primarySpeakerId = some n) :
    ∀ g ∈ (p.process fits f result).2, tokens g.text = [] := by
  intro g hg
  have hrunsOf := h.runsOf_wordless (p := p) hwords
  by_cases htext : strip f.text = []
  · rw [if_pos htext] at hrunsOf
    rw [process_nil fits (by rw [hrunsOf]) (by rw [hrunsOf])] at hg
    obtain rfl := List.mem_singleton.mp hg
    rw [← tokens_strip, htext, tokens_nil]
  · rw [if_neg htext] at hrunsOf
    obtain ⟨-, -, -, -, hpushed⟩ := process_single fits hp h (by simp [hrunsOf])
    have hkept : keptRuns (some n) (cutRuns fits p f result) = [] := by
      rw [cutRuns, continuesPreviousWord_wordless fits hwords, hrunsOf]
      simp [keptRuns]
    rw [hprimary, hkept, if_pos rfl] at hpushed
    rw [List.map_eq_nil_iff.mp hpushed] at hg
    cases hg

/-- One final: the words that go on are tagged as the primary speaker, after a piece of a word
that was the speaker's. -/
theorem TaggedFinal.pushed (h : TaggedFinal f result) (hp : p.multiSpeakerSupport = false) {n : ℕ}
    (hprimary : (p.process fits f result).1.primarySpeakerId = some n) :
    ∀ g ∈ (p.process fits f result).2,
      ∃ cut own, tokens g.text = (cut ++ own).map Prod.snd ∧ (cut ++ own).Sublist (said result) ∧
        (∀ w ∈ own, (p.process fits f result).1.speakerNumbers[n]? = some w.1) ∧
        (cut = [] ∨ p.previousFinalSpeakerId = some n ∧
          continuesPreviousWord fits result p.previousFinalEnd = true ∧
            ∃ w ∈ (resultWords result).head?, cut.map Prod.snd <+: tokens w.text) := by
  intro g hg
  cases hwords : resultWords result with
  | nil =>
    have hnone := h.pushed_wordless fits hp hwords hprimary g hg
    exact ⟨[], [], hnone, List.nil_sublist _, by simp, .inl rfl⟩
  | cons w rest =>
    cases result with
    | none => cases hwords
    | some a =>
      obtain ⟨t, ws, hspoken⟩ := h.wordsOf_eq hwords
      have hknown := h.said_mem (p := p) (by simp [hspoken])
      obtain ⟨-, -, -, -, hpushed⟩ :=
        process_single fits hp h (h.runsOf_ne_nil hwords)
      obtain ⟨-, -, cut, more, hsaid, hperWord, hcut⟩ :=
        h.perWord_cutRuns (p := p) fits hwords
      rw [process_speakerNumbers]
      generalize (p.runsOf f (some a)).2 = N at hknown hperWord ⊢
      have hmem : tokens g.text ∈ (p.process fits f (some a)).2.map fun g => tokens g.text :=
        List.mem_map.mpr ⟨g, hg, rfl⟩
      have hkept : keptRuns (some n) (cutRuns fits p f (some a)) =
          (cutRuns fits p f (some a)).filter fun run => run.1 = some n :=
        if_neg (by simp)
      rw [hpushed, hprimary, hkept] at hmem
      have htext : tokens g.text = ((if p.previousFinalSpeakerId = some n then cut else []) ++
          more.filter fun v => N.idxOf v.1 = n).map Prod.snd := by
        rw [← filter_given, ← hperWord, ← perWord_filter (fun s => s = some n), map_snd_perWord]
        split at hmem
        · cases hmem
        · exact List.mem_singleton.mp hmem
      refine ⟨_, _, htext, ?_, ?_, ?_⟩
      · rw [hsaid]
        refine List.Sublist.append ?_ List.filter_sublist
        split
        · exact List.Sublist.refl _
        · exact List.nil_sublist _
      · intro v hv
        obtain ⟨hv, hnumber⟩ := List.mem_filter.mp hv
        have hv' : v.1 ∈ N := hknown v (by simp [hsaid, hv])
        rw [← of_decide_eq_true hnumber]
        exact List.getElem?_idxOf hv'
      · split
        · rename_i hprevious
          rcases hcut with hcut | ⟨hcont, hfirst⟩
          · exact .inl hcut
          · exact .inr ⟨hprevious, hcont, w, by simp, hfirst⟩
        · exact .inl rfl

theorem TaggedFinal.latched (h : TaggedFinal f result) (hp : p.multiSpeakerSupport = false) :
    p.primarySpeakerId = none ∨
      (p.process fits f result).1.primarySpeakerId = p.primarySpeakerId := by
  by_cases hruns : (p.runsOf f result).1 = []
  · refine .inr ?_
    simp only [Processor.process]
    rw [if_pos hruns]
  · exact (process_single fits hp h hruns).2.2.2.1

/-- Once there is a primary speaker, every word that is pushed was tagged as that speaker, or is
a piece of a word whose beginning was the last word pushed before. -/
theorem only_primary_pushed (fits : ℤ → ℤ → Bool) (inputs : List Input) (f : Frame)
    (result : Option Alternative) (n : ℕ)
    (hinputs : ∀ g, .heard g ∈ inputs → ∃ r, TaggedFinal g r) (hf : TaggedFinal f result)
    (hprimary : ((after fits inputs).processFrame fits f).1.primarySpeakerId = some n) :
    ∀ g ∈ ((after fits inputs).processFrame fits f).2,
      ∃ cut own, tokens g.text = (cut ++ own).map Prod.snd ∧ (cut ++ own).Sublist (said result) ∧
        (∀ w ∈ own, ((after fits inputs).processFrame fits f).1.speakerNumbers[n]? = some w.1) ∧
        (cut = [] ∨ (∃ w ∈ (resultWords result).head?, cut.map Prod.snd <+: tokens w.text) ∧
          ∃ before earlier word, HeardLast inputs before earlier word ∧
            continuesPreviousWord fits result (some word.stop) = true ∧
            Kept fits before earlier word) := by
  intro g hg
  have hremembers := remembers_after fits hinputs
  rw [hf.processFrame_eq] at hg hprimary ⊢
  obtain ⟨cut, own, htext, hsaid, hown, hcut⟩ := hf.pushed fits hremembers.single hprimary g hg
  refine ⟨cut, own, htext, hsaid, hown, ?_⟩
  rcases hcut with hcut | ⟨hprevious, hcont, hfirst⟩
  · exact .inl hcut
  · refine .inr ⟨hfirst, ?_⟩
    cases hstop : (after fits inputs).previousFinalEnd with
    | none =>
      rw [hstop] at hcont
      cases hcont
    | some stop =>
      obtain ⟨before, earlier, word, hlast, rfl, hkept⟩ := hremembers.last stop hstop
      rw [hstop] at hcont
      refine ⟨before, earlier, word, hlast, hcont, hkept ?_⟩
      -- the speaker of the word before is the primary one, or there was none yet
      rcases hf.latched fits hremembers.single with hnone | hsame
      · exact .inl hnone
      · exact .inr (hprevious.trans (hprimary.symm.trans hsame))

/-- The end of a word, tagged as another speaker. -/
theorem only_primary_pushed_at_a_cut :
    let fits : ℤ → ℤ → Bool := fun start stop => 0 ≤ start - stop ∧ start - stop ≤ 1000
    let first : Alternative := ⟨"Hello col".toList,
      [⟨"Hello".toList, some 4, 1000, 1000⟩, ⟨"col".toList, some 4, 1300, 1300⟩]⟩
    let second : Alternative := ⟨"ors no yes".toList,
      [⟨"ors".toList, some 2, 1500, 1500⟩, ⟨"no".toList, some 2, 1700, 1700⟩,
        ⟨"yes".toList, some 4, 1900, 1900⟩]⟩
    let final : Alternative → Frame := fun a => ⟨true, a.transcript, some (some a), none, false⟩
    ((after fits [.heard (final first)]).processFrame fits (final second)).2.map Frame.text =
        ["ors yes".toList] ∧
      ∀ g ∈ ((after fits [.heard (final first)]).processFrame fits (final second)).2,
        ∃ cut own : List (ℤ × Text), tokens g.text = (cut ++ own).map Prod.snd ∧
          (cut ++ own).Sublist (said (some second)) ∧
          ∀ w ∈ own, ((after fits [.heard (final first)]).processFrame fits
            (final second)).1.speakerNumbers[0]? = some w.1 := by
  intro fits first second final
  have hpushed := only_primary_pushed fits [.heard (final first)] (final second) (some second) 0
    (by
      intro g hg
      obtain rfl : g = final first := by simpa using hg
      exact ⟨some first, by decide +kernel⟩)
    (by decide +kernel) (by decide +kernel)
  refine ⟨by decide +kernel, fun g hg => ?_⟩
  obtain ⟨cut, own, htext, hsaid, hown, -⟩ := hpushed g hg
  exact ⟨cut, own, htext, hsaid, hown⟩

end Runs

end VoiceAgent.SpeakerIsolation
