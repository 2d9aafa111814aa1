import VoiceAgent.SpeakerText

/-!
Runs of words of one speaker, through each step of the processor: they are numbered, the
first word of them may go to another speaker, they are recorded as fragments and pushed as
text with speaker prefixes.
-/
namespace VoiceAgent.SpeakerRuns

open StreamingEvents Diarization SpeakerText

section Attribution

/-- Words that were said: the speaker of each, and the pieces it came in. -/
abbrev Said : Type := List (ℤ × List Text)

/-- The words of one alternative, each with its tag. -/
def wordsOf (a : Alternative) : List (ℤ × Text) :=
  a.words.filterMap fun w => if w.text = [] then none else w.tag.map fun tag => (tag, w.text)

/-- The first word is one more piece of the last word before it. -/
def joinPiece (said : Said) (ws : List (ℤ × Text)) : Said :=
  match said.getLast?, ws with
  | some (tag, pieces), (_, piece) :: rest =>
    said.dropLast ++ (tag, pieces ++ [piece]) :: rest.map fun w => (w.1, [w.2])
  | _, _ => said ++ ws.map fun w => (w.1, [w.2])

/-- The words after one more transcript, and when the last of them ended. -/
def hear (fits : ℤ → ℤ → Bool) (heard : Said × Option ℤ) (a : Alternative) : Said × Option ℤ :=
  (if continuesPreviousWord fits (some a) heard.2 then joinPiece heard.1 (wordsOf a)
    else heard.1 ++ (wordsOf a).map fun w => (w.1, [w.2]),
    lastWordEnd (some a))

def attribution (fits : ℤ → ℤ → Bool) (transcripts : List Alternative) : Said :=
  (transcripts.foldl (hear fits) ([], none)).1

/-- The words, their pieces side by side. -/
def plain (said : Said) : List (ℤ × Text) := said.map fun w => (w.1, w.2.flatten)

/-- The pieces of a word, without the punctuation at each cut. -/
def mend (pieces : List Text) : Text := pieces.foldl (fun word piece => trimCut word ++ piece) []

def mended (said : Said) : List (ℤ × Text) := said.map fun w => (w.1, mend w.2)

def withoutPunctuation (text : Text) : Text := text.filter (! isCutPunctuation ·)

/-- The text of some frames; one that does not bring its own spaces gets one before it. -/
def frameText (frames : List Frame) : Text :=
  frames.flatMap fun f => if f.spaced then f.text else ' ' :: f.text

/-- A final transcript whose words are all tagged. -/
structure Tagged (a : Alternative) : Prop where
  tagged : ∀ w ∈ a.words, w.tag ≠ none
  word : ∀ w ∈ a.words, ∀ c ∈ w.text, isSpace c = false
  some_word : ∃ w ∈ a.words, w.text ≠ []

instance (a : Alternative) : Decidable (Tagged a) :=
  decidable_of_iff ((a.words.all fun w => w.tag.isSome && w.text.all fun c => !isSpace c) = true ∧
      (a.words.any fun w => w.text ≠ []) = true) <| by
    simp only [List.all_eq_true, Bool.and_eq_true, Option.isSome_iff_ne_none, List.any_eq_true,
      Bool.not_eq_true', decide_eq_true_eq]
    constructor
    · intro h
      exact ⟨fun w hw => (h.1 w hw).1, fun w hw => (h.1 w hw).2, h.2⟩
    · intro h
      exact ⟨fun w hw => ⟨h.tagged w hw, h.word w hw⟩, h.some_word⟩

/-- The final of a turn that carries an alternative. -/
def Carries (f : Frame) (a : Alternative) : Prop :=
  f.final = true ∧ f.speakerTag = none ∧ f.result = some (some a)

end Attribution

section Words
variable {a : Alternative}

theorem isWord_wordsOf (h : Tagged a) : ∀ w ∈ wordsOf a, IsWord w.2 := by
  intro w hw
  obtain ⟨word, hmem, hword⟩ := List.mem_filterMap.mp hw
  split at hword
  · cases hword
  · rename_i hne
    obtain ⟨tag, -, rfl⟩ := Option.map_eq_some_iff.mp hword
    exact ⟨hne, h.word word hmem⟩

theorem wordsOf_ne_nil (h : Tagged a) : wordsOf a ≠ [] := by
  obtain ⟨word, hmem, hne⟩ := h.some_word
  obtain ⟨tag, htag⟩ := Option.ne_none_iff_exists'.mp (h.tagged word hmem)
  have hword : (tag, word.text) ∈ wordsOf a :=
    List.mem_filterMap.mpr ⟨word, hmem, by simp [hne, htag]⟩
  exact List.ne_nil_of_mem hword

/-- A tagged alternative loses only its empty words. -/
theorem texts_wordsOf (h : ∀ w ∈ a.words, w.tag ≠ none) :
    (wordsOf a).map Prod.snd = (a.words.map Word.text).filter (· ≠ []) := by
  obtain ⟨transcript, words⟩ := a
  simp only [wordsOf] at h ⊢
  induction words with
  | nil => rfl
  | cons w words ih =>
    obtain ⟨tag, htag⟩ := Option.ne_none_iff_exists'.mp (h w (by simp))
    have htail := ih fun u hu => h u (List.mem_cons_of_mem _ hu)
    by_cases hne : w.text = []
    · simpa [hne] using htail
    · simpa [hne, htag] using htail

/-- The runs of the code, before its speakers are numbered. -/
theorem foldl_addWord (words : List Word) (h : ∀ w ∈ words, w.tag ≠ none)
    (runs : List (ℤ × List Text)) :
    words.foldl addWord (runs.map fun run => (some run.1, run.2)) =
      ((wordsOf ⟨[], words⟩).foldl extend runs).map fun run => (some run.1, run.2) := by
  simp only [wordsOf]
  induction words generalizing runs with
  | nil => rfl
  | cons w words ih =>
    obtain ⟨tag, htag⟩ := Option.ne_none_iff_exists'.mp (h w (by simp))
    have htail := ih fun u hu => h u (List.mem_cons_of_mem _ hu)
    by_cases hne : w.text = []
    · simpa [addWord, hne] using htail runs
    · have hstep : addWord (runs.map fun run => (some run.1, run.2)) w =
          (extend runs (tag, w.text)).map fun run => (some run.1, run.2) := by
        cases runs using List.reverseRecOn with
        | nil => simp [addWord, extend, hne, htag]
        | append_singleton runs run =>
          obtain ⟨t, ws⟩ := run
          rw [extend_snoc]
          by_cases ht : t = tag
          · subst ht
            simp [addWord, hne, htag]
          · have ht' : tag ≠ t := fun heq => ht heq.symm
            simp [addWord, hne, htag, ht, ht']
      rw [List.foldl_cons, hstep, htail]
      simp [hne, htag]

/-- Words of one run are words of the grouped list. -/
theorem isWord_grouped {τ : Type} [DecidableEq τ] {ws : List (τ × Text)}
    (h : ∀ w ∈ ws, IsWord w.2) : ∀ run ∈ grouped ws, ∀ w ∈ run.2, IsWord w := by
  intro run hrun w hw
  have hmem : (run.1, w) ∈ expand (grouped ws) :=
    List.mem_flatMap.mpr ⟨run, hrun, List.mem_map.mpr ⟨w, hw, rfl⟩⟩
  rw [expand_grouped] at hmem
  exact h _ hmem

theorem grouped_eq_nil {τ : Type} [DecidableEq τ] {ws : List (τ × Text)} :
    grouped ws = [] ↔ ws = [] := by
  refine ⟨fun h => ?_, fun h => by simp [h, grouped]⟩
  have hexpand := expand_grouped ws
  rw [h] at hexpand
  exact hexpand.symm

theorem splitTranscriptBySpeaker_words (h : ∀ w ∈ a.words, w.tag ≠ none) (hne : wordsOf a ≠ [])
    (text : Text) :
    splitTranscriptBySpeaker (some a) text =
      (grouped (wordsOf a)).map fun run => (some run.1, strip (unwords run.2)) := by
  have hruns : a.words.foldl addWord [] =
      (grouped (wordsOf a)).map fun run => (some run.1, run.2) :=
    foldl_addWord a.words h []
  have hwords : a.words ≠ [] := by
    rintro hnil
    simp [wordsOf, hnil] at hne
  have hne' : (grouped (wordsOf a)).map (fun run => ((some run.1 : Option ℤ), run.2)) ≠ [] := by
    simpa [grouped_eq_nil] using hne
  simp only [splitTranscriptBySpeaker, Option.map_some, Option.getD_some, hruns]
  rw [if_neg (by simp only [hwords, hne', or_self, not_false_eq_true]), List.map_map]
  rfl

theorem splitTranscriptBySpeaker_tagged (h : Tagged a) (text : Text) :
    splitTranscriptBySpeaker (some a) text =
      (grouped (wordsOf a)).map fun run => (some run.1, unwords run.2) := by
  rw [splitTranscriptBySpeaker_words h.tagged (wordsOf_ne_nil h)]
  refine List.map_congr_left fun run hrun => ?_
  rw [strip_unwords (isWord_grouped (isWord_wordsOf h) run hrun)]

end Words

section Numbers
variable {N : List ℤ}

/-- Some runs as the processor holds them, their speakers numbered by the table `N`. -/
def numbered (N : List ℤ) (runs : List (ℤ × List Text)) : List (Option ℕ × Text) :=
  runs.map fun run => (some (N.idxOf run.1), unwords run.2)

@[simp] theorem numbered_nil : numbered N [] = [] := rfl

@[simp] theorem numbered_cons (run : ℤ × List Text) (runs : List (ℤ × List Text)) :
    numbered N (run :: runs) = (some (N.idxOf run.1), unwords run.2) :: numbered N runs := rfl

@[simp] theorem numbered_append (runs more : List (ℤ × List Text)) :
    numbered N (runs ++ more) = numbered N runs ++ numbered N more := by simp [numbered]

theorem prefix_numberOf (numbers : List ℤ) (tag : ℤ) :
    numbers <+: numberOf numbers tag ∧ tag ∈ numberOf numbers tag := by
  unfold numberOf
  split
  · exact ⟨List.prefix_refl _, by assumption⟩
  · exact ⟨List.prefix_append _ _, by simp⟩

theorem prefix_numberSpeakers (numbers : List ℤ) (runs : List (Option ℤ × Text)) :
    numbers <+: (numberSpeakers numbers runs).2 := by
  induction runs generalizing numbers with
  | nil => exact List.prefix_refl _
  | cons run runs ih =>
    obtain ⟨tag, text⟩ := run
    cases tag with
    | none => exact ih numbers
    | some tag => exact (prefix_numberOf numbers tag).1.trans (ih _)

/-- Later speakers leave the numbers given so far. -/
theorem numberSpeakers_map (numbers : List ℤ) (runs : List (ℤ × Text))
    (h : (numberSpeakers numbers (runs.map fun run => (some run.1, run.2))).2 <+: N) :
    (numberSpeakers numbers (runs.map fun run => (some run.1, run.2))).1 =
        (runs.map fun run => (some (N.idxOf run.1), run.2)) ∧ ∀ run ∈ runs, run.1 ∈ N := by
  induction runs generalizing numbers with
  | nil => exact ⟨rfl, by simp⟩
  | cons run runs ih =>
    obtain ⟨tag, text⟩ := run
    obtain ⟨hruns, hmem⟩ := ih (numberOf numbers tag) h
    have hgrown : numberOf numbers tag <+: N := (prefix_numberSpeakers _ _).trans h
    have htag : tag ∈ numberOf numbers tag := (prefix_numberOf numbers tag).2
    have hnumber : (numberOf numbers tag).idxOf tag = N.idxOf tag :=
      hgrown.idxOf_eq_of_mem htag
    refine ⟨?_, ?_⟩
    · simp only [List.map_cons, numberSpeakers]
      rw [hruns, hnumber]
    · intro run hrun
      rcases List.mem_cons.mp hrun with rfl | hrun
      · exact hgrown.subset htag
      · exact hmem run hrun

theorem numberSpeakers_runs (numbers : List ℤ) (runs : List (ℤ × List Text))
    (h : (numberSpeakers numbers (runs.map fun run => (some run.1, unwords run.2))).2 <+: N) :
    (numberSpeakers numbers (runs.map fun run => (some run.1, unwords run.2))).1 =
        numbered N runs ∧ ∀ run ∈ runs, run.1 ∈ N := by
  have htexts : runs.map (fun run => ((some run.1 : Option ℤ), unwords run.2)) =
      (runs.map fun run => (run.1, unwords run.2)).map fun run => (some run.1, run.2) := by
    simp [Function.comp_def]
  rw [htexts] at h ⊢
  obtain ⟨hruns, hmem⟩ := numberSpeakers_map numbers _ h
  refine ⟨by rw [hruns, List.map_map]; rfl, fun run hrun => ?_⟩
  exact hmem (run.1, unwords run.2) (List.mem_map.mpr ⟨run, hrun, rfl⟩)

theorem known_of_expand {runs : List (ℤ × List Text)} (hne : ∀ run ∈ runs, run.2 ≠ [])
    (h : ∀ w ∈ expand runs, w.1 ∈ N) : ∀ run ∈ runs, run.1 ∈ N := by
  intro run hrun
  obtain ⟨w, ws, hws⟩ := List.exists_cons_of_ne_nil (hne run hrun)
  exact h (run.1, w) (List.mem_flatMap.mpr ⟨run, hrun, by simp [hws]⟩)

/-- A run of text joins as its words do. -/
theorem mergeRun_numbered {runs : List (ℤ × List Text)} (hN : ∀ run ∈ runs, run.1 ∈ N)
    (hne : ∀ run ∈ runs, run.2 ≠ []) (t : ℤ) (w : Text) (ws : List Text) :
    mergeRun (numbered N runs) (some (N.idxOf t), unwords (w :: ws)) =
      numbered N (((w :: ws).map fun w => (t, w)).foldl extend runs) := by
  rw [foldl_extend_run]
  cases runs using List.reverseRecOn with
  | nil => rfl
  | append_singleton runs run =>
    obtain ⟨u, us⟩ := run
    obtain ⟨v, us, rfl⟩ : ∃ v vs, us = v :: vs :=
      List.exists_cons_of_ne_nil (hne (u, us) (by simp))
    have hu : u ∈ N := hN (u, v :: us) (by simp)
    have hnumber : N.idxOf u = N.idxOf t ↔ u = t := List.idxOf_inj hu
    by_cases ht : u = t
    · subst ht
      have htext :
          unwords ((v :: us) ++ w :: ws) = unwords (v :: us) ++ ' ' :: unwords (w :: ws) := by
        rw [unwords_append, spaced_of_ne_nil (by simp)]
      simp only [List.getLast?_append, List.getLast?_singleton, Option.some_or, if_true,
        List.dropLast_concat, numbered_append, numbered_cons, numbered_nil, htext]
      simp [mergeRun]
    · have hne' : N.idxOf u ≠ N.idxOf t := fun heq => ht (hnumber.mp heq)
      simp [mergeRun, ht, hne']

/-- Merging runs of text is the same as joining their words. -/
theorem foldl_mergeRun (runs more : List (ℤ × List Text))
    (hN : ∀ w ∈ expand (runs ++ more), w.1 ∈ N)
    (hruns : ∀ run ∈ runs, run.2 ≠ []) (hmore : ∀ run ∈ more, run.2 ≠ []) :
    (numbered N more).foldl mergeRun (numbered N runs) =
      numbered N ((expand more).foldl extend runs) := by
  induction more generalizing runs with
  | nil => rfl
  | cons run more ih =>
    obtain ⟨t, ws⟩ := run
    obtain ⟨w, ws, rfl⟩ : ∃ v vs, ws = v :: vs :=
      List.exists_cons_of_ne_nil (hmore (t, ws) (by simp))
    have hknown : ∀ run ∈ runs, run.1 ∈ N :=
      known_of_expand hruns fun u hu => hN u (by simp [hu])
    rw [numbered_cons, List.foldl_cons, mergeRun_numbered hknown hruns, expand_cons,
      List.foldl_append]
    refine ih _ ?_ (foldl_extend_ne_nil hruns _) fun run hrun => hmore run (by simp [hrun])
    intro u hu
    rw [expand_append, expand_foldl] at hu
    exact hN u (by simpa [or_assoc] using hu)

/-- What is left of a run without its first word: a run, or nothing. -/
theorem exists_kept (t : ℤ) {us : List Text} (h : ∀ u ∈ us, IsWord u) :
    ∃ kept : List (ℤ × List Text),
      (if unwords us = [] then [] else [(some (N.idxOf t), unwords us)]) = numbered N kept ∧
        expand kept = us.map (fun u => (t, u)) ∧ ∀ run ∈ kept, run.2 ≠ [] := by
  cases us with
  | nil => exact ⟨[], by simp [unwords], rfl, by simp⟩
  | cons u us =>
    have htext : unwords (u :: us) ≠ [] := unwords_ne_nil (by simp) h
    exact ⟨[(t, u :: us)], by simp [htext], by simp, by simp⟩

/-- The first word goes to `s`; the rest of its run stays where it was. -/
theorem reassignFirstWord_numbered {s t : ℤ} {w : Text} {ws : List (ℤ × Text)} (hs : s ∈ N)
    (hN : ∀ u ∈ (t, w) :: ws, u.1 ∈ N) (hword : ∀ u ∈ (t, w) :: ws, IsWord u.2) :
    reassignFirstWord (numbered N (grouped ((t, w) :: ws))) (some (N.idxOf s)) =
      numbered N (grouped ((s, w) :: ws)) := by
  have hexpand := expand_grouped ((t, w) :: ws)
  have hne := grouped_ne_nil ((t, w) :: ws)
  have hwords := isWord_grouped hword
  rw [grouped_cons] at hexpand hne hwords ⊢
  generalize (runsFrom (some t) ws).1 = us at hexpand hne hwords
  generalize (runsFrom (some t) ws).2 = rest at hexpand hne hwords
  have hus : ∀ u ∈ us, IsWord u := fun u hu => hwords (t, w :: us) (by simp) u (by simp [hu])
  have hrest : us.map (fun u => (t, u)) ++ expand rest = ws := by simpa using hexpand
  obtain ⟨kept, htext, hwordsKept, hneKept⟩ := exists_kept (N := N) t hus
  have hall : expand ((s, [w]) :: (kept ++ rest)) = (s, w) :: ws := by
    simp [hwordsKept, ← hrest]
  have hfold := foldl_mergeRun (N := N) [] ((s, [w]) :: (kept ++ rest))
    (by
      intro u hu
      rw [List.nil_append, hall] at hu
      rcases List.mem_cons.mp hu with rfl | hu
      · exact hs
      · exact hN u (List.mem_cons_of_mem _ hu))
    (by simp)
    (by
      intro run hrun
      rcases List.mem_cons.mp hrun with rfl | hrun
      · simp
      · rcases List.mem_append.mp hrun with hrun | hrun
        · exact hneKept run hrun
        · exact hne run (List.mem_cons_of_mem _ hrun))
  rw [hall] at hfold
  have hpart : partitionSpace (unwords (w :: us)) = (w, unwords us) :=
    partitionSpace_unwords (hword (t, w) (by simp)) us
  have hw : unwords [w] = w := by simp [unwords]
  rw [numbered_cons, numbered_append, hw] at hfold
  rw [numbered_cons, reassignFirstWord, hpart]
  simp only [htext]
  exact hfold

end Numbers

section Pushed
variable {N : List ℤ} {p : Processor} {f : Frame} {last : Option ℤ}

/-- The text so far is of several speakers, and `last` is the one it named last. -/
structure Names (N : List ℤ) (p : Processor) (last : Option ℤ) : Prop where
  multi : p.multiSpeakerSupport = true
  hasText : p.hasFinalText = last.isSome
  speaker : p.lastFinalSpeakerId = last.map N.idxOf
  known : ∀ t ∈ last, t ∈ N

/-- Two states that differ only in what the text of the turn has named. -/
def SameTurn (p q : Processor) : Prop :=
  q.turnFragments = p.turnFragments ∧ q.previousFinalEnd = p.previousFinalEnd ∧
    q.previousFinalSpeakerId = p.previousFinalSpeakerId ∧ q.speakerNumbers = p.speakerNumbers

/-- Words with a space before each, or before each but the first. -/
def spacing (glued : Bool) (ws : List Text) : Text := if glued then unwords ws else spaced ws

theorem spacing_append (glued : Bool) (w : Text) (us ws : List Text) :
    spacing glued (w :: us ++ ws) = spacing glued (w :: us) ++ spaced ws := by
  cases glued with
  | true => exact unwords_append w us ws
  | false => exact spaced_append (w :: us) ws

/-- The tokens of one run after `last`. -/
def runTokens (N : List ℤ) (last : Option ℤ) (t : ℤ) (ws : List Text) : List Text :=
  (if last = some t then [] else [speakerWord, label (N.idxOf t)]) ++ ws

theorem labelled_run (last : Option ℤ) (t : ℤ) (w : Text) (ws : List Text)
    (rest : List (ℤ × Text)) :
    labelled (N.idxOf ·) last ((w :: ws).map (fun w => (t, w)) ++ rest) =
      runTokens N last t (w :: ws) ++ labelled (N.idxOf ·) (some t) rest := by
  have hmore : ∀ ws : List Text, labelled (N.idxOf ·) (some t) (ws.map (fun w => (t, w)) ++ rest) =
      ws ++ labelled (N.idxOf ·) (some t) rest := by
    intro ws
    induction ws with
    | nil => rfl
    | cons u ws ih => simp [labelled, ih]
  rw [List.map_cons, List.cons_append, labelled, hmore, runTokens]
  simp

theorem runTokens_words (last : Option ℤ) {t : ℤ} {w : Text} {ws : List Text}
    (h : ∀ u ∈ w :: ws, IsWord u) :
    ∃ v vs, runTokens N last t (w :: ws) = v :: vs ∧ IsWord v := by
  unfold runTokens
  split
  · exact ⟨w, ws, rfl, h w (by simp)⟩
  · exact ⟨speakerWord, _, rfl, isWord_speakerWord⟩

/-- The speaker is named if it is not the one named last. -/
theorem prefixFinalForLlm_text (hf : f.final = true) (hp : Names N p last) (t : ℤ) (w : Text)
    (ws : List Text) (htext : f.text = unwords (w :: ws)) :
    (p.prefixFinalForLlm f (some (N.idxOf t))).2 =
      { f with text := unwords (runTokens N last t (w :: ws)) } := by
  have hstarts : (¬ p.hasFinalText = true ∨ (some (N.idxOf t) ≠ none ∧
      some (N.idxOf t) ≠ p.lastFinalSpeakerId)) ↔ last ≠ some t := by
    rw [hp.hasText, hp.speaker]
    cases last with
    | none => simp
    | some u =>
      have hu : N.idxOf u = N.idxOf t ↔ u = t := List.idxOf_inj (hp.known u rfl)
      have hne : N.idxOf t ≠ N.idxOf u ↔ u ≠ t := by rw [ne_eq, eq_comm, hu]
      simpa using hne
  have hcall : ¬ (¬ p.multiSpeakerSupport = true ∨ ¬ f.final = true) := by simp [hp.multi, hf]
  simp only [Processor.prefixFinalForLlm]
  rw [if_neg hcall]
  simp only [hstarts, runTokens]
  by_cases hlast : last = some t
  · simp [hlast, htext]
  · have hlabel : speakerPrefix (N.idxOf t) ++ unwords (w :: ws) =
        unwords (speakerWord :: label (N.idxOf t) :: w :: ws) := by
      rw [speakerPrefix_eq, unwords_cons, unwords_cons]
      simp
    simp [hlast, htext, hlabel]

theorem prefixFinalForLlm_names (hf : f.final = true) (hp : Names N p last) {t : ℤ} (ht : t ∈ N) :
    Names N (p.prefixFinalForLlm f (some (N.idxOf t))).1 (some t) ∧
      SameTurn p (p.prefixFinalForLlm f (some (N.idxOf t))).1 := by
  have hcall : ¬ (¬ p.multiSpeakerSupport = true ∨ ¬ f.final = true) := by simp [hp.multi, hf]
  simp only [Processor.prefixFinalForLlm]
  rw [if_neg hcall]
  exact ⟨⟨hp.multi, rfl, rfl, by simpa using ht⟩, rfl, rfl, rfl, rfl⟩

theorem setLlmSpacing_words {w : Text} {ws : List Text} (hf : f.final = true)
    (htext : f.text = unwords (w :: ws)) (hw : IsWord w) (glued : Bool) :
    setLlmSpacing f glued = { f with text := spacing glued (w :: ws), spaced := true } := by
  have hstrip : f.text.dropWhile isSpace = unwords (w :: ws) := by
    rw [htext, unwords_cons]
    exact lstrip_word hw _
  have hcall : ¬ ¬ f.final = true := by simp [hf]
  simp only [setLlmSpacing]
  rw [if_neg hcall, hstrip]
  cases glued with
  | true => rfl
  | false => simp [spacing, spaced_of_ne_nil]

/-- One run that is pushed: its text, and the speaker it names. -/
theorem pushed_run (hf : f.final = true) (hp : Names N p last) {t : ℤ} {w : Text}
    {ws : List Text} (hw : ∀ u ∈ w :: ws, IsWord u) (htext : f.text = unwords (w :: ws))
    (glued : Bool) :
    frameText [setLlmSpacing (p.prefixFinalForLlm f (some (N.idxOf t))).2 glued] =
      spacing glued (runTokens N last t (w :: ws)) := by
  obtain ⟨v, vs, htokens, hv⟩ := runTokens_words (N := N) last (t := t) hw
  rw [prefixFinalForLlm_text hf hp t w ws htext, htokens,
    setLlmSpacing_words (by exact hf) rfl hv]
  simp [frameText]

theorem SameTurn.trans {q r : Processor} (h : SameTurn p q) (h' : SameTurn q r) :
    SameTurn p r :=
  ⟨h'.1.trans h.1, h'.2.1.trans h.2.1, h'.2.2.1.trans h.2.2.1, h'.2.2.2.trans h.2.2.2⟩

theorem frameText_cons (f : Frame) (frames : List Frame) :
    frameText (f :: frames) = frameText [f] ++ frameText frames := by simp [frameText]

theorem pushRuns_text {runs : List (ℤ × List Text)} (hf : f.final = true) (hp : Names N p last)
    (hN : ∀ run ∈ runs, run.1 ∈ N) (hne : ∀ run ∈ runs, run.2 ≠ [])
    (hw : ∀ run ∈ runs, ∀ u ∈ run.2, IsWord u) (glued : Bool) :
    frameText (p.pushRuns f glued (numbered N runs)).2 =
        spacing glued (labelled (N.idxOf ·) last (expand runs)) ∧
      Names N (p.pushRuns f glued (numbered N runs)).1 ((runs.getLast?.map Prod.fst).or last) ∧
      SameTurn p (p.pushRuns f glued (numbered N runs)).1 := by
  induction runs generalizing p last glued with
  | nil =>
    refine ⟨?_, hp, rfl, rfl, rfl, rfl⟩
    cases glued with
    | true => rfl
    | false => rfl
  | cons run rest ih =>
    obtain ⟨t, ws⟩ := run
    obtain ⟨w, ws, rfl⟩ : ∃ v vs, ws = v :: vs :=
      List.exists_cons_of_ne_nil (hne (t, ws) (by simp))
    have hwords : ∀ u ∈ w :: ws, IsWord u := hw (t, w :: ws) (by simp)
    have ht : t ∈ N := hN (t, w :: ws) (by simp)
    let copied : Frame := { f with
      text := unwords (w :: ws), speakerTag := some (N.idxOf t) }
    have hcopied : copied.final = true := hf
    have htext := pushed_run hcopied hp (t := t) hwords rfl glued
    obtain ⟨hnames, hsame⟩ := prefixFinalForLlm_names hcopied hp ht
    obtain ⟨hrest, hnames', hsame'⟩ := ih hnames
      (fun run hrun => hN run (List.mem_cons_of_mem _ hrun))
      (fun run hrun => hne run (List.mem_cons_of_mem _ hrun))
      (fun run hrun => hw run (List.mem_cons_of_mem _ hrun)) false
    have hlast : (((t, w :: ws) :: rest).getLast?.map Prod.fst).or last =
        (rest.getLast?.map Prod.fst).or (some t) := by
      cases rest using List.reverseRecOn with
      | nil => simp
      | append_singleton rest run => simp [List.getLast?_cons]
    obtain ⟨v, vs, htokens, -⟩ := runTokens_words (N := N) last (t := t) hwords
    rw [hlast]
    refine ⟨?_, hnames', hsame.trans hsame'⟩
    rw [expand_cons, labelled_run, htokens, spacing_append, ← htokens, ← htext]
    simp only [numbered_cons, Processor.pushRuns]
    rw [frameText_cons, hrest]
    rfl

/-- One run or several: the text that is pushed. -/
theorem push_text {runs : List (ℤ × List Text)} (hf : f.final = true) (htag : f.speakerTag = none)
    (hp : Names N p last) (hN : ∀ run ∈ runs, run.1 ∈ N) (hne : ∀ run ∈ runs, run.2 ≠ [])
    (hw : ∀ run ∈ runs, ∀ u ∈ run.2, IsWord u) (hruns : runs ≠ []) (glued : Bool) :
    frameText (p.push f (numbered N runs) glued).2 =
        spacing glued (labelled (N.idxOf ·) last (expand runs)) ∧
      Names N (p.push f (numbered N runs) glued).1 ((runs.getLast?.map Prod.fst).or last) ∧
      SameTurn p (p.push f (numbered N runs) glued).1 := by
  unfold Processor.push
  split
  · exact pushRuns_text hf hp hN hne hw glued
  · rename_i hone
    obtain ⟨run, rfl⟩ : ∃ run, runs = [run] := by
      cases runs with
      | nil => exact absurd rfl hruns
      | cons run rest =>
        cases rest with
        | nil => exact ⟨run, rfl⟩
        | cons next rest => exact absurd ⟨hp.multi, htag, by simp⟩ hone
    obtain ⟨t, ws⟩ := run
    obtain ⟨w, ws, rfl⟩ : ∃ v vs, ws = v :: vs :=
      List.exists_cons_of_ne_nil (hne (t, ws) (by simp))
    have hwords : ∀ u ∈ w :: ws, IsWord u := hw (t, w :: ws) (by simp)
    have ht : t ∈ N := hN (t, w :: ws) (by simp)
    have htext : unwords ((numbered N [(t, w :: ws)]).map Prod.snd) = unwords (w :: ws) := by
      simp [unwords]
    have hpushed := pushed_run (f := { f with text := unwords (w :: ws) }) hf hp (t := t) hwords
      rfl glued
    obtain ⟨hnames, hsame⟩ :=
      prefixFinalForLlm_names (f := { f with text := unwords (w :: ws) }) hf hp ht
    have hspeaker : (if (numbered N [(t, w :: ws)]).length = 1 then
        ((numbered N [(t, w :: ws)]).head?.bind Prod.fst) else f.speakerTag) =
          some (N.idxOf t) := rfl
    simp only [hspeaker, htext]
    refine ⟨?_, by simpa using hnames, hsame⟩
    have hrun := labelled_run (N := N) last t w ws []
    rw [hpushed]
    simp only [List.append_nil, labelled] at hrun
    simp [← hrun]

end Pushed

section Recorded
variable {N : List ℤ} {p : Processor} {last : Option ℤ}

/-- The fragments of the turn, without their times. -/
def texts (p : Processor) : List (Option ℕ × Text) :=
  p.turnFragments.map fun f => (f.speakerId, f.text)

/-- Two states that differ only in the fragments of the turn and the speaker seen last. -/
def SameText (p q : Processor) : Prop :=
  q.multiSpeakerSupport = p.multiSpeakerSupport ∧ q.hasFinalText = p.hasFinalText ∧
    q.lastFinalSpeakerId = p.lastFinalSpeakerId ∧ q.previousFinalEnd = p.previousFinalEnd ∧
    q.previousFinalSpeakerId = p.previousFinalSpeakerId ∧ q.speakerNumbers = p.speakerNumbers

theorem Names.of_sameText {q : Processor} {last : Option ℤ} (h : Names N p last)
    (hq : SameText p q) : Names N q last :=
  ⟨hq.1.trans h.multi, hq.2.1.trans h.hasText, hq.2.2.1.trans h.speaker, h.known⟩

theorem addRuns_texts (span : Option (ℤ × ℤ)) (runs : List (Option ℕ × Text)) :
    texts (p.addRuns span runs) = texts p ++ runs ∧ SameText p (p.addRuns span runs) := by
  refine ⟨?_, rfl, rfl, rfl, rfl, rfl, rfl⟩
  simp [texts, Processor.addRuns, Function.comp_def]

/-- The state in which a final is recorded: a turn begins with its first one. -/
def beginTurn (p : Processor) : Processor :=
  if p.turnFragments = [] then p.startTranscriptTurn else p

theorem beginTurn_names (hmulti : p.multiSpeakerSupport = true)
    (hnone : p.turnFragments = [] → last = none)
    (hnames : p.turnFragments ≠ [] → Names N p last) : Names N (beginTurn p) last := by
  unfold beginTurn
  split
  · rename_i hempty
    obtain rfl := hnone hempty
    exact ⟨hmulti, rfl, rfl, by simp⟩
  · rename_i hfull
    exact hnames hfull

theorem record_apart (result : Option Alternative) (runs : List (Option ℕ × Text)) :
    texts (p.record result runs false) = texts p ++ runs ∧
      SameText (beginTurn p) (p.record result runs false) := by
  have hsame : texts (beginTurn p) = texts p := by
    unfold beginTurn
    split <;> rfl
  rw [← hsame]
  exact addRuns_texts (extractWordSpan result) runs

/-- The first word of a glued run ends the last word of the fragments. -/
theorem record_glued (result : Option Alternative) {fs : List (ℤ × List Text)} {s : ℤ}
    {us : List Text} {v w : Text} {ws : List Text} (rest : List (ℤ × List Text))
    (hp : texts p = numbered N (fs ++ [(s, us ++ [v])])) (hv : IsWord v)
    (hw : ∀ u ∈ w :: ws, IsWord u) :
    ∃ kept, expand kept = ws.map (fun u => (s, u)) ∧ (∀ run ∈ kept, run.2 ≠ []) ∧
      texts (p.record result (numbered N ((s, w :: ws) :: rest)) true) =
        numbered N (fs ++ (s, us ++ [trimCut v ++ w]) :: (kept ++ rest)) ∧
      SameText (beginTurn p) (p.record result (numbered N ((s, w :: ws) :: rest)) true) := by
  obtain ⟨kept, hkept, hwords, hne⟩ := exists_kept (N := N) s
    (fun u hu => hw u (List.mem_cons_of_mem _ hu) : ∀ u ∈ ws, IsWord u)
  refine ⟨kept, hwords, hne, ?_⟩
  -- the fragments end with one of the speaker of the piece
  obtain ⟨init, previous, hinit⟩ : ∃ init previous, p.turnFragments = init ++ [previous] := by
    cases hcase : p.turnFragments using List.reverseRecOn with
    | nil => simp [texts, hcase] at hp
    | append_singleton init previous => exact ⟨init, previous, rfl⟩
  have hne' : p.turnFragments ≠ [] := by simp [hinit]
  have hbegin : beginTurn p = p := if_neg hne'
  have htexts : init.map (fun f => (f.speakerId, f.text)) = numbered N fs ∧
      (previous.speakerId, previous.text) = (some (N.idxOf s), unwords (us ++ [v])) := by
    have heq : init.map (fun f => (f.speakerId, f.text)) ++ [(previous.speakerId, previous.text)] =
        numbered N fs ++ [(some (N.idxOf s), unwords (us ++ [v]))] := by
      simpa [texts, hinit] using hp
    exact ⟨(List.append_inj' heq rfl).1, by simpa using (List.append_inj' heq rfl).2⟩
  obtain ⟨hprevious, hlast⟩ := htexts
  have hspeaker : previous.speakerId = some (N.idxOf s) := congrArg Prod.fst hlast
  have htext : previous.text = unwords (us ++ [v]) := congrArg Prod.snd hlast
  have hpart : partitionSpace (unwords (w :: ws)) = (w, unwords ws) :=
    partitionSpace_unwords (hw w (by simp)) ws
  have hjoin : joinCutWord previous.text w = unwords (us ++ [trimCut v ++ w]) := by
    rw [htext]
    exact joinCutWord_unwords us hv w
  have hend : p.turnFragments.getLast? = some previous := by simp [hinit]
  have hdrop : p.turnFragments.dropLast = init := by simp [hinit]
  rw [hbegin]
  simp only [Processor.record, if_neg hne', numbered_cons, hend, hdrop, hspeaker, if_true, hpart,
    hkept]
  refine ⟨?_, rfl, rfl, rfl, rfl, rfl, rfl⟩
  rw [(addRuns_texts _ _).1]
  simp [texts, hprevious, hjoin]

/-- The runs that group the fragments of a turn. -/
theorem groupFragments_texts {fs : List (ℤ × List Text)} (hp : texts p = numbered N fs)
    (hN : ∀ w ∈ expand fs, w.1 ∈ N) (hne : ∀ run ∈ fs, run.2 ≠ [])
    (hw : ∀ w ∈ expand fs, IsWord w.2) :
    (groupFragmentsBySpeaker p.turnFragments).map (fun run => (run.speakerId, run.text)) =
      numbered N (grouped (expand fs)) := by
  have hmerge : ∀ (fragments : List TranscriptFragment) (runs : List SpeakerRun),
      (∀ f ∈ fragments, strip f.text = f.text ∧ f.text ≠ []) →
      (fragments.foldl addFragment runs).map (fun run => (run.speakerId, run.text)) =
        (fragments.map fun f => (f.speakerId, f.text)).foldl mergeRun
          (runs.map fun run => (run.speakerId, run.text)) := by
    intro fragments
    induction fragments with
    | nil => intro runs _; rfl
    | cons f fragments ih =>
      intro runs hf
      obtain ⟨hstrip, htext⟩ := hf f (by simp)
      have hstep : (addFragment runs f).map (fun run => (run.speakerId, run.text)) =
          mergeRun (runs.map fun run => (run.speakerId, run.text)) (f.speakerId, f.text) := by
        cases runs using List.reverseRecOn with
        | nil => simp [addFragment, mergeRun, hstrip, htext]
        | append_singleton runs run =>
          by_cases hspeaker : f.speakerId = run.speakerId
          · simp [addFragment, mergeRun, hstrip, htext, hspeaker]
          · have hspeaker' : run.speakerId ≠ f.speakerId := fun heq => hspeaker heq.symm
            simp [addFragment, mergeRun, hstrip, htext, hspeaker, hspeaker']
      rw [List.foldl_cons, ih _ fun f hmem => hf f (by simp [hmem]), hstep]
      rfl
  have hclean : ∀ f ∈ p.turnFragments, strip f.text = f.text ∧ f.text ≠ [] := by
    intro f hf
    have hmem : (f.speakerId, f.text) ∈ numbered N fs := by
      rw [← hp]
      exact List.mem_map.mpr ⟨f, hf, rfl⟩
    obtain ⟨run, hrun, heq⟩ := List.mem_map.mp hmem
    have htext : unwords run.2 = f.text := congrArg Prod.snd heq
    have hwords : ∀ u ∈ run.2, IsWord u := fun u hu =>
      hw (run.1, u) (List.mem_flatMap.mpr ⟨run, hrun, by simp [hu]⟩)
    rw [← htext]
    exact ⟨strip_unwords hwords, unwords_ne_nil (hne run hrun) hwords⟩
  rw [groupFragmentsBySpeaker, hmerge _ _ hclean]
  have hfold := foldl_mergeRun [] fs hN (by simp) hne
  rw [← hp] at hfold
  exact hfold

end Recorded

section Grouped
variable {τ : Type}

theorem expand_eq_nil {runs : List (τ × List Text)} (hne : ∀ run ∈ runs, run.2 ≠ [])
    (h : expand runs = []) : runs = [] := by
  cases runs with
  | nil => rfl
  | cons run runs =>
    obtain ⟨w, ws, hws⟩ := List.exists_cons_of_ne_nil (hne run (by simp))
    simp [hws] at h

/-- The last run of some words that end with `w`. -/
theorem expand_eq_concat {runs : List (τ × List Text)} (hne : ∀ run ∈ runs, run.2 ≠ [])
    {ws : List (τ × Text)} {t : τ} {w : Text} (h : expand runs = ws ++ [(t, w)]) :
    ∃ init us, runs = init ++ [(t, us ++ [w])] ∧ expand init ++ us.map (fun u => (t, u)) = ws := by
  cases runs using List.reverseRecOn with
  | nil => simp at h
  | append_singleton init run =>
    obtain ⟨u, vs⟩ := run
    cases vs using List.reverseRecOn with
    | nil => exact absurd rfl (hne (u, []) (by simp))
    | append_singleton us v =>
      have hsplit : (expand init ++ us.map (fun w => (u, w))) ++ [(u, v)] = ws ++ [(t, w)] := by
        simpa using h
      obtain ⟨hwords, hlast⟩ := List.append_inj' hsplit rfl
      obtain ⟨rfl, rfl⟩ : u = t ∧ v = w := by simpa using hlast
      exact ⟨init, us, rfl, hwords⟩

theorem getLast_grouped [DecidableEq τ] (ws : List (τ × Text)) :
    (grouped ws).getLast?.map Prod.fst = (ws.map Prod.fst).getLast? := by
  cases ws using List.reverseRecOn with
  | nil => rfl
  | append_singleton ws w =>
    rw [grouped, List.foldl_append, List.foldl_cons, List.foldl_nil]
    cases ws.foldl extend [] using List.reverseRecOn with
    | nil => simp [extend]
    | append_singleton runs run =>
      obtain ⟨t, us⟩ := run
      rw [extend_snoc]
      split
      · rename_i ht
        simp [ht]
      · simp

end Grouped

section Table
variable {fits : ℤ → ℤ → Bool} {p : Processor} {f : Frame}

theorem prefixFinalForLlm_speakerNumbers (p : Processor) (f : Frame) (speakerId : Option ℕ) :
    (p.prefixFinalForLlm f speakerId).1.speakerNumbers = p.speakerNumbers := by
  unfold Processor.prefixFinalForLlm
  split <;> rfl

theorem pushRuns_speakerNumbers (p : Processor) (f : Frame) (glued : Bool)
    (runs : List (Option ℕ × Text)) :
    (p.pushRuns f glued runs).1.speakerNumbers = p.speakerNumbers := by
  induction runs generalizing p glued with
  | nil => rfl
  | cons run runs ih =>
    simp only [Processor.pushRuns]
    rw [ih, prefixFinalForLlm_speakerNumbers]

theorem push_speakerNumbers (p : Processor) (f : Frame) (runs : List (Option ℕ × Text))
    (glue : Bool) : (p.push f runs glue).1.speakerNumbers = p.speakerNumbers := by
  unfold Processor.push
  split
  · exact pushRuns_speakerNumbers p f glue runs
  · exact prefixFinalForLlm_speakerNumbers ..

theorem record_speakerNumbers (p : Processor) (result : Option Alternative)
    (runs : List (Option ℕ × Text)) (glue : Bool) :
    (p.record result runs glue).speakerNumbers = p.speakerNumbers := by
  have hbegin : (beginTurn p).speakerNumbers = p.speakerNumbers := by
    unfold beginTurn
    split <;> rfl
  rw [← hbegin]
  simp only [Processor.record, ← beginTurn.eq_1]
  split
  · split
    · rfl
    · rfl
  · rfl

theorem cutWord_speakerNumbers (fits : ℤ → ℤ → Bool) (p : Processor) (f : Frame)
    (result : Option Alternative) (runs : List (Option ℕ × Text)) :
    (p.cutWord fits f result runs).1.speakerNumbers = p.speakerNumbers := by
  unfold Processor.cutWord
  split <;> rfl

theorem latchPrimary_speakerNumbers (p : Processor) (f : Frame) (runs : List (Option ℕ × Text)) :
    (p.latchPrimary f runs).speakerNumbers = p.speakerNumbers := by
  unfold Processor.latchPrimary
  split <;> rfl

/-- Only the numbering of the runs touches the table. -/
theorem process_speakerNumbers (fits : ℤ → ℤ → Bool) (p : Processor) (f : Frame)
    (result : Option Alternative) :
    (p.process fits f result).1.speakerNumbers = (p.runsOf f result).2 := by
  simp only [Processor.process]
  split
  · rfl
  · split
    · rw [latchPrimary_speakerNumbers, cutWord_speakerNumbers]
    · rw [push_speakerNumbers]
      split <;> simp only [record_speakerNumbers, latchPrimary_speakerNumbers,
        cutWord_speakerNumbers]

theorem prefix_processFrame (fits : ℤ → ℤ → Bool) (p : Processor) (f : Frame) :
    p.speakerNumbers <+: (p.processFrame fits f).1.speakerNumbers := by
  unfold Processor.processFrame
  split
  · exact List.prefix_refl _
  · rw [process_speakerNumbers, Processor.runsOf]
    split
    · exact List.prefix_refl _
    · exact prefix_numberSpeakers _ _

/-- The table only grows. -/
theorem prefix_processAll (fits : ℤ → ℤ → Bool) (p : Processor) (frames : List Frame) :
    p.speakerNumbers <+: (p.processAll fits frames).1.speakerNumbers := by
  induction frames generalizing p with
  | nil => exact List.prefix_refl _
  | cons f rest ih => exact (prefix_processFrame fits p f).trans (ih _)

end Table

end VoiceAgent.SpeakerRuns
