import VoiceAgent.SpeakerRuns

/-!
One turn with several speakers. What the recogniser attributes to each speaker, what is
pushed with speaker prefixes and what the fragments of the turn hold are the same runs; a
word cut in two at the end of a transcript is one word of its first speaker.
-/
namespace VoiceAgent.SpeakerTurn

open StreamingEvents Diarization SpeakerText SpeakerRuns

section Process
variable {fits : ℤ → ℤ → Bool} {N : List ℤ} {p : Processor} {f : Frame} {a : Alternative}

/-- The words of a final, the first of them given to `s` if it is a piece of a cut word. -/
def given (s : ℤ) (continues : Bool) : List (ℤ × Text) → List (ℤ × Text)
  | (t, w) :: ws => (if continues then s else t, w) :: ws
  | [] => []

theorem cutWord_given (h : Tagged a) (hc : Carries f a) {s : ℤ}
    (hs : continuesPreviousWord fits (some a) p.previousFinalEnd = true →
      s ∈ N ∧ p.previousFinalSpeakerId = some (N.idxOf s))
    (hN : ∀ w ∈ wordsOf a, w.1 ∈ N) :
    let continues := continuesPreviousWord fits (some a) p.previousFinalEnd
    p.cutWord fits f (some a) (numbered N (grouped (wordsOf a))) =
      ({ p with
          previousFinalEnd := lastWordEnd (some a)
          previousFinalSpeakerId :=
            ((grouped (given s continues (wordsOf a))).getLast?.map fun run => N.idxOf run.1) },
        numbered N (grouped (given s continues (wordsOf a))), continues) := by
  intro continues
  have hcall : f.final = true ∧ f.speakerTag = none := ⟨hc.1, hc.2.1⟩
  have hruns : (if continues then
      reassignFirstWord (numbered N (grouped (wordsOf a))) p.previousFinalSpeakerId
        else numbered N (grouped (wordsOf a))) =
      numbered N (grouped (given s continues (wordsOf a))) := by
    cases hcont : continues with
    | false => cases wordsOf a <;> rfl
    | true =>
      obtain ⟨hs, hprevious⟩ := hs hcont
      have hword := isWord_wordsOf h
      cases hws : wordsOf a with
      | nil => exact absurd hws (wordsOf_ne_nil h)
      | cons w ws =>
        obtain ⟨t, w⟩ := w
        rw [hws] at hN hword
        rw [hprevious]
        exact reassignFirstWord_numbered hs hN hword
  have hlast : ∀ runs : List (ℤ × List Text), (numbered N runs).getLast?.bind Prod.fst =
      runs.getLast?.map fun run => N.idxOf run.1 := by
    intro runs
    cases runs using List.reverseRecOn with
    | nil => rfl
    | append_singleton runs run => simp
  simp only [Processor.cutWord, if_pos hcall]
  rw [hruns, hlast]

/-- The runs of a tagged final are those of its words, with numbers from the table. -/
theorem runsOf_tagged (h : Tagged a) (hc : Carries f a)
    (hN : (p.process fits f (some a)).1.speakerNumbers <+: N) :
    (p.runsOf f (some a)).1 = numbered N (grouped (wordsOf a)) ∧ ∀ w ∈ wordsOf a, w.1 ∈ N := by
  rw [process_speakerNumbers] at hN
  simp only [Processor.runsOf, hc.2.1, splitTranscriptBySpeaker_tagged h] at hN ⊢
  obtain ⟨hnumbered, hknown⟩ := numberSpeakers_runs p.speakerNumbers (grouped (wordsOf a)) hN
  refine ⟨hnumbered, fun w hw => ?_⟩
  rw [← expand_grouped (wordsOf a)] at hw
  obtain ⟨run, hrun, hmem⟩ := List.mem_flatMap.mp hw
  obtain ⟨u, -, rfl⟩ := List.mem_map.mp hmem
  exact hknown run hrun

/-- A tagged final: its words go to their speakers, and the runs of them are recorded and
pushed. -/
theorem process_tagged (h : Tagged a) (hc : Carries f a) {s : ℤ}
    (hmulti : p.multiSpeakerSupport = true)
    (hs : continuesPreviousWord fits (some a) p.previousFinalEnd = true →
      s ∈ N ∧ p.previousFinalSpeakerId = some (N.idxOf s))
    (hN : (p.process fits f (some a)).1.speakerNumbers <+: N) :
    let continues := continuesPreviousWord fits (some a) p.previousFinalEnd
    let ws := given s continues (wordsOf a)
    ∃ q : Processor, q.multiSpeakerSupport = true ∧ q.turnFragments = p.turnFragments ∧
      q.hasFinalText = p.hasFinalText ∧ q.lastFinalSpeakerId = p.lastFinalSpeakerId ∧
      q.previousFinalEnd = lastWordEnd (some a) ∧
      q.previousFinalSpeakerId = ((grouped ws).getLast?.map fun run => N.idxOf run.1) ∧
      p.process fits f (some a) =
        (q.record (some a) (numbered N (grouped ws)) continues).push f
          (numbered N (grouped ws)) continues := by
  intro continues ws
  obtain ⟨hrunsOf, hwords⟩ := runsOf_tagged h hc hN
  have hne : numbered N (grouped (wordsOf a)) ≠ [] := by
    simpa [numbered, grouped_eq_nil] using wordsOf_ne_nil h
  have hne' : numbered N (grouped ws) ≠ [] := by
    have hws : ws ≠ [] := by
      cases hcase : wordsOf a with
      | nil => exact absurd hcase (wordsOf_ne_nil h)
      | cons w rest => simp [ws, hcase, given]
    simpa [numbered, grouped_eq_nil] using hws
  let r : Processor := { p with
    speakerNumbers := (p.runsOf f (some a)).2
    previousFinalEnd := lastWordEnd (some a)
    previousFinalSpeakerId := ((grouped ws).getLast?.map fun run => N.idxOf run.1) }
  have hlatch : ∀ runs, ∃ primary,
      r.latchPrimary f runs = { r with primarySpeakerId := primary } := by
    intro runs
    unfold Processor.latchPrimary
    split
    · exact ⟨_, rfl⟩
    · exact ⟨r.primarySpeakerId, rfl⟩
  obtain ⟨primary, hprimary⟩ := hlatch (numbered N (grouped ws))
  refine ⟨{ r with primarySpeakerId := primary }, hmulti, rfl, rfl, rfl, rfl, rfl, ?_⟩
  have hcut := cutWord_given (p := { p with speakerNumbers := r.speakerNumbers }) h hc hs hwords
  have hglue : (continues && decide ((numbered N (grouped ws)).head?.bind Prod.fst =
      p.previousFinalSpeakerId)) = continues := by
    cases hcont : continues with
    | false => rfl
    | true =>
      cases hcase : wordsOf a with
      | nil => exact absurd hcase (wordsOf_ne_nil h)
      | cons w rest =>
        obtain ⟨t, w⟩ := w
        have hws : ws = (s, w) :: rest := by simp [ws, hcase, given, hcont]
        rw [hws, grouped_cons, (hs hcont).2]
        simp
  have hfinal : f.final = true ∧ f.speakerTag = none := ⟨hc.1, hc.2.1⟩
  have hisolate : ({ r with primarySpeakerId := primary } : Processor).isolate f
      (numbered N (grouped ws)) = numbered N (grouped ws) :=
    if_neg (by simp [r, hmulti])
  simp only [Processor.process, hrunsOf]
  rw [if_neg hne, hcut]
  change (if (r.latchPrimary f (numbered N (grouped ws))).isolate f
    (numbered N (grouped ws)) = [] then _ else _) = _
  rw [hprimary, hisolate, if_neg hne', if_pos hc.1, if_pos hfinal]
  change (Processor.record _ _ _ (continues && decide ((numbered N (grouped ws)).head?.bind
    Prod.fst = p.previousFinalSpeakerId))).push f _ (continues && decide
      ((numbered N (grouped ws)).head?.bind Prod.fst = p.previousFinalSpeakerId)) = _
  rw [hglue]

end Process

section Mended
variable {said : Said} {w : Text} {pieces : List Text}

theorem mem_trimCut {c : Char} {text : Text} (h : c ∈ trimCut text) : c ∈ text := by
  have hsub := (List.dropWhile_suffix isCutPunctuation).subset (List.mem_reverse.mp h)
  exact List.mem_reverse.mp hsub

theorem mend_concat (pieces : List Text) (w : Text) :
    mend (pieces ++ [w]) = trimCut (mend pieces) ++ w := by simp [mend]

theorem mend_singleton (w : Text) : mend [w] = w := rfl

theorem isWord_mend (h : pieces ≠ []) (hw : ∀ piece ∈ pieces, IsWord piece) :
    IsWord (mend pieces) := by
  induction pieces using List.reverseRecOn with
  | nil => exact absurd rfl h
  | append_singleton pieces w ih =>
    have hlast : IsWord w := hw w (by simp)
    rw [mend_concat]
    refine IsWord.append (fun c hc => ?_) hlast
    cases pieces with
    | nil => cases hc
    | cons piece pieces =>
      exact (ih (by simp) fun u hu => hw u (List.mem_append.mpr (.inl hu))).2 c
        (mem_trimCut hc)

theorem isWord_flatten (h : pieces ≠ []) (hw : ∀ piece ∈ pieces, IsWord piece) :
    IsWord pieces.flatten := by
  induction pieces using List.reverseRecOn with
  | nil => exact absurd rfl h
  | append_singleton pieces w ih =>
    have hlast : IsWord w := hw w (by simp)
    rw [List.flatten_concat]
    refine IsWord.append (fun c hc => ?_) hlast
    obtain ⟨piece, hpiece, hmem⟩ := List.mem_flatten.mp hc
    exact (hw piece (by simp [hpiece])).2 c hmem

theorem withoutPunctuation_trimCut (text : Text) :
    withoutPunctuation (trimCut text) = withoutPunctuation text := by
  have hdrop : ∀ l : List Char,
      (l.dropWhile isCutPunctuation).filter (! isCutPunctuation ·) =
        l.filter (! isCutPunctuation ·) := by
    intro l
    induction l with
    | nil => rfl
    | cons c l ih =>
      by_cases hc : isCutPunctuation c = true
      · simpa [hc] using ih
      · simp [hc]
  rw [withoutPunctuation, withoutPunctuation, trimCut, List.filter_reverse, hdrop,
    List.filter_reverse, List.reverse_reverse]

/-- A mended word is the word, up to punctuation. -/
theorem withoutPunctuation_mend (pieces : List Text) :
    withoutPunctuation (mend pieces) = withoutPunctuation pieces.flatten := by
  induction pieces using List.reverseRecOn with
  | nil => rfl
  | append_singleton pieces w ih =>
    rw [mend_concat, List.flatten_concat]
    simp only [withoutPunctuation, List.filter_append] at ih ⊢
    rw [← ih]
    congr 1
    exact withoutPunctuation_trimCut (mend pieces)

end Mended

section Turn
variable {fits : ℤ → ℤ → Bool} {N : List ℤ} {p : Processor} {f : Frame} {a : Alternative}
variable {text : Text} {said : Said} {stop : Option ℤ}

/-- The speaker of the last word. -/
def lastTag (said : Said) : Option ℤ := said.getLast?.map Prod.fst

theorem lastOf_plain (said : Said) : lastOf none (plain said) = lastTag said := by
  simp [lastOf, lastTag, plain]
  rfl

/-- What was heard of a turn is what was pushed, and what the fragments hold. -/
structure Heard (N : List ℤ) (p : Processor) (text : Text) (said : Said) (stop : Option ℤ) :
    Prop where
  multi : p.multiSpeakerSupport = true
  names : said ≠ [] → Names N p (lastTag said)
  text_eq : text = spaced (labelled (N.idxOf ·) none (plain said))
  runs : ∃ fs, texts p = numbered N fs ∧ (∀ run ∈ fs, run.2 ≠ []) ∧ expand fs = mended said
  stop_eq : p.previousFinalEnd = stop
  speaker : ∀ t ∈ lastTag said, p.previousFinalSpeakerId = some (N.idxOf t)
  tags : ∀ w ∈ said, w.1 ∈ N
  started : stop ≠ none → said ≠ []
  words : ∀ w ∈ said, w.2 ≠ [] ∧ ∀ piece ∈ w.2, IsWord piece

theorem Heard.start (hmulti : p.multiSpeakerSupport = true) (hturn : p.turnFragments = [])
    (hstop : p.previousFinalEnd = none) : Heard N p [] [] none where
  multi := hmulti
  names h := absurd rfl h
  text_eq := rfl
  runs := ⟨[], by simp [texts, hturn], by simp, rfl⟩
  stop_eq := hstop
  speaker := by simp [lastTag]
  tags := by simp
  started h := absurd rfl h
  words := by simp

/-- Nothing is recorded before something is said. -/
theorem Heard.said_eq_nil (h : Heard N p text said stop) (hp : p.turnFragments = []) :
    said = [] := by
  obtain ⟨fs, htexts, -, hexpand⟩ := h.runs
  have hfs : fs = [] := by simpa [texts, hp, numbered] using htexts.symm
  simpa [hfs, mended] using hexpand.symm

theorem Heard.beginTurn_names {q : Processor} (h : Heard N p text said stop)
    (hq : q.multiSpeakerSupport = true ∧ q.turnFragments = p.turnFragments ∧
      q.hasFinalText = p.hasFinalText ∧ q.lastFinalSpeakerId = p.lastFinalSpeakerId) :
    Names N (beginTurn q) (lastTag said) := by
  obtain ⟨hmulti, hturn, htext, hspeaker⟩ := hq
  refine SpeakerRuns.beginTurn_names hmulti (fun hempty => ?_) fun hfull => ?_
  · rw [h.said_eq_nil (hturn.symm.trans hempty)]
    rfl
  · have hsaid : said ≠ [] := by
      rintro rfl
      obtain ⟨fs, htexts, hne, hexpand⟩ := h.runs
      rw [expand_eq_nil hne hexpand] at htexts
      exact hfull (by simpa [texts, hturn] using htexts)
    obtain ⟨-, hhas, hlast, hknown⟩ := h.names hsaid
    exact ⟨hmulti, htext.trans hhas, hspeaker.trans hlast, hknown⟩

theorem continuesPreviousWord_none : continuesPreviousWord fits (some a) none = false := rfl

/-- The words of a final that is not glued follow those before it. -/
theorem spaced_apart (last : Option ℤ) (said ws : List (ℤ × Text)) :
    spaced (labelled (N.idxOf ·) last said) ++
        spacing false (labelled (N.idxOf ·) (lastOf last said) ws) =
      spaced (labelled (N.idxOf ·) last (said ++ ws)) := by
  rw [labelled_append, spaced_append]
  rfl

/-- The first word of a final that is glued ends the last word before it. -/
theorem spaced_glued (said ws : List (ℤ × Text)) (s : ℤ) (v w : Text) :
    spaced (labelled (N.idxOf ·) none (said ++ [(s, v)])) ++
        spacing true (labelled (N.idxOf ·) (some s) ((s, w) :: ws)) =
      spaced (labelled (N.idxOf ·) none (said ++ (s, v ++ w) :: ws)) := by
  have hlabel : ∀ (u : Text) (rest : List (ℤ × Text)),
      labelled (N.idxOf ·) (lastOf none said) ((s, u) :: rest) =
        (if lastOf none said = some s then [] else [speakerWord, label (N.idxOf s)]) ++
          u :: labelled (N.idxOf ·) (some s) rest := fun _ _ => rfl
  rw [labelled_append, labelled_append, hlabel, hlabel]
  simp [labelled, spacing, unwords_cons]

theorem plain_append (said more : Said) : plain (said ++ more) = plain said ++ plain more := by
  simp [plain]

theorem mended_append (said more : Said) : mended (said ++ more) = mended said ++ mended more := by
  simp [mended]

theorem plain_single (ws : List (ℤ × Text)) : plain (ws.map fun w => (w.1, [w.2])) = ws := by
  simp [plain, Function.comp_def]

theorem mended_single (ws : List (ℤ × Text)) : mended (ws.map fun w => (w.1, [w.2])) = ws := by
  simp [mended, Function.comp_def, mend_singleton]

/-- What is left to show of a final, once its runs are recorded: the fragments and the text
hold the words said so far. -/
theorem Heard.of_push {r : Processor} {said' : Said} {ws : List (ℤ × Text)}
    {fs : List (ℤ × List Text)} {glued : Bool} (hc : Carries f a)
    (hnames : Names N r (lastTag said)) (hend : r.previousFinalEnd = stop) (hstop : said' ≠ [])
    (hprevious : r.previousFinalSpeakerId = (grouped ws).getLast?.map fun run => N.idxOf run.1)
    (htexts : texts r = numbered N fs) (hne : ∀ run ∈ fs, run.2 ≠ [])
    (hexpand : expand fs = mended said') (hws : ∀ w ∈ ws, w.1 ∈ N ∧ IsWord w.2)
    (hlast : lastTag said' = (ws.map Prod.fst).getLast?) (hempty : ws ≠ [])
    (htags : ∀ w ∈ said', w.1 ∈ N)
    (hwords : ∀ w ∈ said', w.2 ≠ [] ∧ ∀ piece ∈ w.2, IsWord piece)
    (htext : text ++ spacing glued (labelled (N.idxOf ·) (lastTag said) ws) =
      spaced (labelled (N.idxOf ·) none (plain said'))) :
    Heard N (r.push f (numbered N (grouped ws)) glued).1
      (text ++ frameText (r.push f (numbered N (grouped ws)) glued).2) said' stop := by
  have hknown : ∀ run ∈ grouped ws, run.1 ∈ N :=
    known_of_expand (grouped_ne_nil ws) (by
      rw [expand_grouped]
      exact fun w hw => (hws w hw).1)
  obtain ⟨hpushed, hnames', hturn, hend', hprevious', -⟩ :=
    push_text hc.1 hc.2.1 hnames hknown (grouped_ne_nil ws)
      (isWord_grouped fun w hw => (hws w hw).2) (by simpa [grouped_eq_nil] using hempty) glued
  rw [getLast_grouped, ← hlast] at hnames'
  have hsome : (lastTag said').or (lastTag said) = lastTag said' := by
    cases hcase : lastTag said' with
    | some t => rfl
    | none => exact absurd (by simpa [lastTag] using hcase) hstop
  rw [hsome] at hnames'
  rw [expand_grouped] at hpushed
  exact {
    multi := hnames'.multi
    names := fun _ => hnames'
    text_eq := by rw [hpushed, htext]
    runs := ⟨fs, by rw [← htexts, texts, texts, hturn], hne, hexpand⟩
    stop_eq := hend'.trans hend
    speaker := by
      intro t ht
      have hmap : (grouped ws).getLast?.map (fun run => N.idxOf run.1) =
          ((grouped ws).getLast?.map Prod.fst).map N.idxOf := by simp [Function.comp_def]
      rw [hprevious', hprevious, hmap, getLast_grouped, ← hlast, Option.mem_def.mp ht]
      rfl
    tags := htags
    started := fun _ => hstop
    words := hwords }

/-- The processor with a final's words given to their speakers, before they are recorded. -/
structure Ready (N : List ℤ) (p q : Processor) (a : Alternative) (ws : List (ℤ × Text)) :
    Prop where
  multi : q.multiSpeakerSupport = true
  turn : q.turnFragments = p.turnFragments
  hasText : q.hasFinalText = p.hasFinalText
  last : q.lastFinalSpeakerId = p.lastFinalSpeakerId
  stop : q.previousFinalEnd = lastWordEnd (some a)
  speaker : q.previousFinalSpeakerId = (grouped ws).getLast?.map fun run => N.idxOf run.1

section Finals
variable {q : Processor} {ws : List (ℤ × Text)} {init : Said} {s : ℤ} {pieces : List Text}
  {w : Text}

theorem Ready.texts_eq (hq : Ready N p q a ws) : texts q = texts p := by
  rw [texts, hq.turn, texts]

theorem Ready.names (hq : Ready N p q a ws) (h : Heard N p text said stop) :
    Names N (beginTurn q) (lastTag said) :=
  h.beginTurn_names ⟨hq.multi, hq.turn, hq.hasText, hq.last⟩

theorem Ready.begun (hq : Ready N p q a ws) :
    (beginTurn q).previousFinalEnd = lastWordEnd (some a) ∧
      (beginTurn q).previousFinalSpeakerId =
        (grouped ws).getLast?.map fun run => N.idxOf run.1 := by
  unfold beginTurn
  split
  · exact ⟨hq.stop, hq.speaker⟩
  · exact ⟨hq.stop, hq.speaker⟩

/-- A final whose first word is one of its own. -/
theorem Heard.apart (h : Heard N p text said stop) (hc : Carries f a) (hq : Ready N p q a ws)
    (hempty : ws ≠ []) (hws : ∀ w ∈ ws, w.1 ∈ N ∧ IsWord w.2) :
    Heard N ((q.record (some a) (numbered N (grouped ws)) false).push f
        (numbered N (grouped ws)) false).1
      (text ++ frameText ((q.record (some a) (numbered N (grouped ws)) false).push f
        (numbered N (grouped ws)) false).2)
      (said ++ ws.map fun w => (w.1, [w.2])) (lastWordEnd (some a)) := by
  obtain ⟨fs, hfs, hne, hexpand⟩ := h.runs
  obtain ⟨hrecord, hsame⟩ := record_apart (p := q) (some a) (numbered N (grouped ws))
  have hrecorded : texts (q.record (some a) (numbered N (grouped ws)) false) =
      numbered N (fs ++ grouped ws) := by
    rw [hrecord, hq.texts_eq, hfs, numbered_append]
  refine Heard.of_push hc ((hq.names h).of_sameText hsame) (hsame.2.2.2.1.trans hq.begun.1)
    (by simp [hempty]) (hsame.2.2.2.2.1.trans hq.begun.2) hrecorded ?_ ?_ hws ?_ hempty ?_ ?_ ?_
  · intro run hrun
    rcases List.mem_append.mp hrun with hrun | hrun
    · exact hne run hrun
    · exact grouped_ne_nil _ run hrun
  · rw [expand_append, expand_grouped, hexpand, mended_append, mended_single]
  · rw [lastTag, List.getLast?_append_of_ne_nil _ (by simpa using hempty)]
    simp [Function.comp_def]
  · intro w hw
    rcases List.mem_append.mp hw with hw | hw
    · exact h.tags w hw
    · obtain ⟨u, hu, rfl⟩ := List.mem_map.mp hw
      exact (hws u hu).1
  · intro w hw
    rcases List.mem_append.mp hw with hw | hw
    · exact h.words w hw
    · obtain ⟨u, hu, rfl⟩ := List.mem_map.mp hw
      exact ⟨by simp, by simpa using (hws u hu).2⟩
  · rw [h.text_eq, plain_append, plain_single, ← spaced_apart, lastOf_plain]

theorem lastTag_concat : lastTag (init ++ [(s, pieces)]) = some s := by simp [lastTag]

theorem mended_glued : mended (init ++ (s, pieces ++ [w]) :: ws.map fun w => (w.1, [w.2])) =
    mended init ++ (s, trimCut (mend pieces) ++ w) :: ws := by
  rw [mended_append, ← mend_concat]
  exact congrArg (mended init ++ (s, mend (pieces ++ [w])) :: ·) (mended_single ws)

theorem plain_glued : plain (init ++ (s, pieces ++ [w]) :: ws.map fun w => (w.1, [w.2])) =
    plain init ++ (s, pieces.flatten ++ w) :: ws := by
  rw [plain_append, ← List.flatten_concat]
  exact congrArg (plain init ++ (s, (pieces ++ [w]).flatten) :: ·) (plain_single ws)

theorem lastTag_glued : lastTag (init ++ (s, pieces ++ [w]) :: ws.map fun w => (w.1, [w.2])) =
    (((s, w) :: ws).map Prod.fst).getLast? := by
  have hfst : (init ++ (s, pieces ++ [w]) :: ws.map fun w => (w.1, [w.2])).map Prod.fst =
      init.map Prod.fst ++ ((s, w) :: ws).map Prod.fst := by
    simp [Function.comp_def]
  rw [lastTag, ← List.getLast?_map, hfst]
  exact List.getLast?_append_of_ne_nil _ (by simp)

/-- A final whose first word ends the last one before it. -/
theorem Heard.glued (h : Heard N p text (init ++ [(s, pieces)]) stop) (hc : Carries f a)
    (hq : Ready N p q a ((s, w) :: ws)) (hws : ∀ u ∈ (s, w) :: ws, u.1 ∈ N ∧ IsWord u.2) :
    Heard N ((q.record (some a) (numbered N (grouped ((s, w) :: ws))) true).push f
        (numbered N (grouped ((s, w) :: ws))) true).1
      (text ++ frameText ((q.record (some a) (numbered N (grouped ((s, w) :: ws))) true).push f
        (numbered N (grouped ((s, w) :: ws))) true).2)
      (init ++ (s, pieces ++ [w]) :: ws.map fun w => (w.1, [w.2])) (lastWordEnd (some a)) := by
  obtain ⟨fs, hfs, hne, hexpand⟩ := h.runs
  obtain ⟨hpieces, hpiece⟩ := h.words (s, pieces) (by simp)
  obtain ⟨hs, hw⟩ := hws (s, w) List.mem_cons_self
  obtain ⟨old, us, rfl, hold⟩ := expand_eq_concat hne
    (hexpand.trans (mended_append init [(s, pieces)]))
  have hruns := isWord_grouped fun u hu => (hws u hu).2
  have hjoined := expand_grouped ((s, w) :: ws)
  have hneRuns := grouped_ne_nil ((s, w) :: ws)
  have hcons := grouped_cons s w ws
  generalize (runsFrom (some s) ws).1 = more at hcons
  generalize (runsFrom (some s) ws).2 = rest at hcons
  rw [hcons] at hruns hjoined hneRuns
  have hrest : more.map (fun u => (s, u)) ++ expand rest = ws := by simpa using hjoined
  obtain ⟨kept, hkept, hneKept, hrecord, hsame⟩ :=
    record_glued (p := q) (some a) rest (hq.texts_eq.trans hfs) (isWord_mend hpieces hpiece)
      (hruns (s, w :: more) (by simp))
  rw [← hcons] at hrecord hsame
  refine Heard.of_push hc ((hq.names h).of_sameText hsame) (hsame.2.2.2.1.trans hq.begun.1)
    (by simp) (hsame.2.2.2.2.1.trans hq.begun.2) hrecord ?_ ?_ hws lastTag_glued (by simp) ?_ ?_ ?_
  · intro run hrun
    rcases List.mem_append.mp hrun with hrun | hrun
    · exact hne run (by simp [hrun])
    · rcases List.mem_cons.mp hrun with rfl | hrun
      · simp
      · rcases List.mem_append.mp hrun with hrun | hrun
        · exact hneKept run hrun
        · exact hneRuns run (List.mem_cons_of_mem _ hrun)
  · rw [mended_glued, ← hold, ← hrest, ← hkept]
    simp
  · intro u hu
    rcases List.mem_append.mp hu with hu | hu
    · exact h.tags u (by simp [hu])
    · rcases List.mem_cons.mp hu with rfl | hu
      · exact hs
      · obtain ⟨v, hv, rfl⟩ := List.mem_map.mp hu
        exact (hws v (List.mem_cons_of_mem _ hv)).1
  · intro u hu
    rcases List.mem_append.mp hu with hu | hu
    · exact h.words u (by simp [hu])
    · rcases List.mem_cons.mp hu with rfl | hu
      · refine ⟨by simp, fun piece hmem => ?_⟩
        rcases List.mem_append.mp hmem with hmem | hmem
        · exact hpiece piece hmem
        · obtain rfl := List.mem_singleton.mp hmem
          exact hw
      · obtain ⟨v, hv, rfl⟩ := List.mem_map.mp hu
        exact ⟨by simp, by simpa using (hws v (List.mem_cons_of_mem _ hv)).2⟩
  · rw [h.text_eq, plain_glued, lastTag_concat, plain_append]
    exact spaced_glued (plain init) ws s pieces.flatten w

end Finals

/-- One more final of the turn keeps the three in step. -/
theorem Heard.process (h : Heard N p text said stop) (ha : Tagged a) (hc : Carries f a)
    (hN : (p.process fits f (some a)).1.speakerNumbers <+: N) :
    Heard N (p.process fits f (some a)).1 (text ++ frameText (p.process fits f (some a)).2)
      (hear fits (said, stop) a).1 (hear fits (said, stop) a).2 := by
  obtain ⟨-, hknown⟩ := runsOf_tagged ha hc hN
  have hword := isWord_wordsOf ha
  have hempty := wordsOf_ne_nil ha
  -- a word goes on only after a word that was said
  have hsaid : continuesPreviousWord fits (some a) p.previousFinalEnd = true →
      ∃ init s pieces, said = init ++ [(s, pieces)] := by
    intro hcont
    have hstarted : said ≠ [] := h.started fun hnone => by
      rw [h.stop_eq, hnone, continuesPreviousWord_none] at hcont
      cases hcont
    cases said using List.reverseRecOn with
    | nil => exact absurd rfl hstarted
    | append_singleton init w => exact ⟨init, w.1, w.2, rfl⟩
  obtain ⟨q, hmulti, hturn, hhas, hlast, hend, hprevious, heq⟩ :=
    process_tagged (N := N) (s := (lastTag said).getD 0) ha hc h.multi (by
      intro hcont
      obtain ⟨init, s, pieces, rfl⟩ := hsaid hcont
      rw [lastTag_concat]
      exact ⟨h.tags (s, pieces) (by simp), h.speaker s lastTag_concat⟩) hN
  rw [heq]
  cases hcont : continuesPreviousWord fits (some a) p.previousFinalEnd with
  | false =>
    have hgiven : given ((lastTag said).getD 0) false (wordsOf a) = wordsOf a := by
      cases wordsOf a <;> rfl
    have hhear : hear fits (said, stop) a =
        (said ++ (wordsOf a).map fun w => (w.1, [w.2]), lastWordEnd (some a)) := by
      simp [hear, ← h.stop_eq, hcont]
    rw [hcont, hgiven] at hprevious
    rw [hgiven, hhear]
    exact h.apart hc ⟨hmulti, hturn, hhas, hlast, hend, hprevious⟩ hempty
      fun w hw => ⟨hknown w hw, hword w hw⟩
  | true =>
    obtain ⟨init, s, pieces, rfl⟩ := hsaid hcont
    obtain ⟨⟨t, w⟩, ws, hws⟩ := List.exists_cons_of_ne_nil hempty
    have hhear : hear fits (init ++ [(s, pieces)], stop) a =
        (init ++ (s, pieces ++ [w]) :: ws.map fun w => (w.1, [w.2]), lastWordEnd (some a)) := by
      simp [hear, ← h.stop_eq, hcont, joinPiece, hws]
    rw [hws] at hword hknown
    have hwords : ∀ u ∈ (s, w) :: ws, u.1 ∈ N ∧ IsWord u.2 := by
      intro u hu
      rcases List.mem_cons.mp hu with rfl | hu
      · exact ⟨h.tags (s, pieces) (by simp), hword (t, w) List.mem_cons_self⟩
      · exact ⟨hknown u (List.mem_cons_of_mem _ hu), hword u (List.mem_cons_of_mem _ hu)⟩
    rw [hcont, lastTag_concat, hws] at hprevious
    rw [lastTag_concat, hws, hhear]
    exact h.glued hc ⟨hmulti, hturn, hhas, hlast, hend, hprevious⟩ hwords

/-- The finals of a turn, one after the other. -/
theorem Heard.processAll {frames : List Frame} {transcripts : List Alternative}
    (h : Heard N p text said stop) (hframes : List.Forall₂ Carries frames transcripts)
    (htagged : ∀ a ∈ transcripts, Tagged a)
    (hN : (p.processAll fits frames).1.speakerNumbers <+: N) :
    Heard N (p.processAll fits frames).1 (text ++ frameText (p.processAll fits frames).2)
      (transcripts.foldl (hear fits) (said, stop)).1
      (transcripts.foldl (hear fits) (said, stop)).2 := by
  induction hframes generalizing p text said stop with
  | nil => simpa [Processor.processAll, frameText] using h
  | @cons f a frames transcripts hc _ ih =>
    have hframe : p.processFrame fits f = p.process fits f (some a) := by
      rw [Processor.processFrame, hc.2.2]
    simp only [Processor.processAll, hframe] at hN ⊢
    have hstep := h.process (htagged a (by simp)) hc ((prefix_processAll fits _ frames).trans hN)
    have hrest := ih hstep (fun b hb => htagged b (List.mem_cons_of_mem _ hb)) hN
    have hsplit : ∀ us vs : List Frame, frameText (us ++ vs) = frameText us ++ frameText vs := by
      intro us vs
      simp [frameText]
    rw [hsplit, ← List.append_assoc]
    exact hrest

/-- Every piece is heard once, in its place. -/
theorem pieces_foldl_hear {transcripts : List Alternative} (htagged : ∀ a ∈ transcripts, Tagged a)
    (heard : Said × Option ℤ) :
    (transcripts.foldl (hear fits) heard).1.flatMap Prod.snd =
      heard.1.flatMap Prod.snd ++
        transcripts.flatMap fun a => (a.words.map Word.text).filter (· ≠ []) := by
  induction transcripts generalizing heard with
  | nil => simp
  | cons a transcripts ih =>
    have hsingle : ∀ ws : List (ℤ × Text),
        (ws.map fun w => (w.1, [w.2])).flatMap Prod.snd = ws.map Prod.snd := by
      intro ws
      induction ws with
      | nil => rfl
      | cons w ws ih => simpa using ih
    have hstep : (hear fits heard a).1.flatMap Prod.snd =
        heard.1.flatMap Prod.snd ++ (wordsOf a).map Prod.snd := by
      rw [hear]
      split
      · obtain ⟨said, stop⟩ := heard
        cases said using List.reverseRecOn with
        | nil => simp only [joinPiece, List.getLast?_nil, List.flatMap_append, hsingle]
        | append_singleton init last =>
          obtain ⟨t, pieces⟩ := last
          cases hws : wordsOf a with
          | nil => simp [joinPiece]
          | cons w ws => simp [joinPiece, hsingle]
      · rw [List.flatMap_append, hsingle]
    rw [List.foldl_cons, ih (fun b hb => htagged b (List.mem_cons_of_mem _ hb)), hstep,
      texts_wordsOf (htagged a (by simp)).tagged, List.flatMap_cons, List.append_assoc]

end Turn

section Punctuation
variable {τ : Type} [DecidableEq τ]

theorem grouped_map (g : Text → Text) (ws : List (τ × Text)) :
    grouped (ws.map fun w => (w.1, g w.2)) =
      (grouped ws).map fun run => (run.1, run.2.map g) := by
  have hfold : ∀ runs : List (τ × List Text),
      (ws.map fun w => (w.1, g w.2)).foldl extend (runs.map fun run => (run.1, run.2.map g)) =
        (ws.foldl extend runs).map fun run => (run.1, run.2.map g) := by
    induction ws with
    | nil => exact fun runs => rfl
    | cons w ws ih =>
      intro runs
      have hstep : extend (runs.map fun run => (run.1, run.2.map g)) (w.1, g w.2) =
          (extend runs w).map fun run => (run.1, run.2.map g) := by
        cases runs using List.reverseRecOn with
        | nil => rfl
        | append_singleton runs run =>
          obtain ⟨t, us⟩ := run
          rw [extend_snoc, List.map_append, List.map_singleton, extend_snoc]
          split
          · simp
          · simp
      rw [List.map_cons, List.foldl_cons, List.foldl_cons, hstep, ih]
  exact hfold []

theorem withoutPunctuation_unwords (ws : List Text) :
    withoutPunctuation (unwords ws) = unwords (ws.map withoutPunctuation) := by
  have hspaced : ∀ ws : List Text,
      withoutPunctuation (spaced ws) = spaced (ws.map withoutPunctuation) := by
    intro ws
    induction ws with
    | nil => rfl
    | cons w ws ih =>
      have hspace : isCutPunctuation ' ' = false := by decide
      rw [withoutPunctuation] at ih ⊢
      rw [spaced_cons, List.map_cons, spaced_cons, ← ih]
      simp [hspace, withoutPunctuation]
  cases ws with
  | nil => rfl
  | cons w ws =>
    rw [unwords_cons, List.map_cons, unwords_cons, ← hspaced]
    simp [withoutPunctuation]

end Punctuation

/-- The text that is pushed splits into the runs that the fragments make, up to the
punctuation at a cut; both are the runs of the words that were said. -/
theorem runs_survive_prefixes (fits : ℤ → ℤ → Bool) (p : Processor) (frames : List Frame)
    (transcripts : List Alternative) (hmulti : p.multiSpeakerSupport = true)
    (hturn : p.turnFragments = []) (hstop : p.previousFinalEnd = none)
    (hframes : List.Forall₂ Carries frames transcripts)
    (htagged : ∀ a ∈ transcripts, Tagged a)
    (hunprefixed : Unprefixed (plain (attribution fits transcripts))) :
    let (q, pushed) := p.processAll fits frames
    let said := attribution fits transcripts
    let pushedRuns := splitAtPrefixes (frameText pushed)
    let recordedRuns :=
      (groupFragmentsBySpeaker q.turnFragments).map fun run => (run.speakerId, run.text)
    pushedRuns = numbered q.speakerNumbers (grouped (plain said)) ∧
      recordedRuns = numbered q.speakerNumbers (grouped (mended said)) ∧
      pushedRuns.map (fun run => (run.1, withoutPunctuation run.2)) =
        recordedRuns.map (fun run => (run.1, withoutPunctuation run.2)) ∧
      said.flatMap Prod.snd =
        transcripts.flatMap (fun a => (a.words.map Word.text).filter (· ≠ [])) ∧
      ∀ v ∈ said, ∀ w ∈ said,
        q.speakerNumbers.idxOf v.1 = q.speakerNumbers.idxOf w.1 → v.1 = w.1 := by
  have h := (Heard.start (N := (p.processAll fits frames).1.speakerNumbers) hmulti hturn
    hstop).processAll hframes htagged (List.prefix_refl _)
  obtain ⟨fs, hfs, hne, hexpand⟩ := h.runs
  generalize hout : p.processAll fits frames = out at h hfs
  obtain ⟨q, pushed⟩ := out
  have hwords : ∀ w ∈ plain (attribution fits transcripts), IsWord w.2 := by
    intro w hw
    obtain ⟨u, hu, rfl⟩ := List.mem_map.mp hw
    exact isWord_flatten (h.words u hu).1 (h.words u hu).2
  have hmended : ∀ w ∈ mended (attribution fits transcripts), IsWord w.2 := by
    intro w hw
    obtain ⟨u, hu, rfl⟩ := List.mem_map.mp hw
    exact isWord_mend (h.words u hu).1 (h.words u hu).2
  have hknown : ∀ w ∈ mended (attribution fits transcripts), w.1 ∈ q.speakerNumbers := by
    intro w hw
    obtain ⟨u, hu, rfl⟩ := List.mem_map.mp hw
    exact h.tags u hu
  have hpushed : splitAtPrefixes (frameText pushed) =
      numbered q.speakerNumbers (grouped (plain (attribution fits transcripts))) := by
    have htext := h.text_eq
    rw [List.nil_append] at htext
    rw [htext]
    exact splitAtPrefixes_labelled _ hwords hunprefixed
  have hrecorded : (groupFragmentsBySpeaker q.turnFragments).map
      (fun run => (run.speakerId, run.text)) =
        numbered q.speakerNumbers (grouped (mended (attribution fits transcripts))) := by
    have hgroup := groupFragments_texts hfs (by rw [hexpand]; exact hknown) hne
      (by rw [hexpand]; exact hmended)
    rwa [hexpand] at hgroup
  have hplain : (plain (attribution fits transcripts)).map
      (fun w => (w.1, withoutPunctuation w.2)) =
        (mended (attribution fits transcripts)).map fun w => (w.1, withoutPunctuation w.2) := by
    simp only [plain, mended, List.map_map]
    refine List.map_congr_left fun w _ => ?_
    simp [withoutPunctuation_mend]
  have hbare : ∀ ws : List (ℤ × Text),
      (numbered q.speakerNumbers (grouped ws)).map
          (fun run => (run.1, withoutPunctuation run.2)) =
        numbered q.speakerNumbers (grouped (ws.map fun w => (w.1, withoutPunctuation w.2))) := by
    intro ws
    rw [grouped_map]
    simp [numbered, withoutPunctuation_unwords]
  refine ⟨hpushed, hrecorded, ?_, pieces_foldl_hear htagged ([], none), ?_⟩
  · rw [hpushed, hrecorded, hbare, hbare, hplain]
  · intro v hv w _ heq
    exact (List.idxOf_inj (h.tags v hv)).mp heq

/-- A word cut in two, whose second piece is tagged as another speaker. -/
theorem runs_survive_prefixes_at_a_cut :
    let fits : ℤ → ℤ → Bool := fun start stop => 0 ≤ start - stop ∧ start - stop ≤ 1000
    let first : Alternative := ⟨"the selecti.".toList,
      [⟨"the".toList, some 4, 1000, 1000⟩, ⟨"selecti.".toList, some 4, 1300, 1300⟩]⟩
    let second : Alternative := ⟨"on what?".toList,
      [⟨"on".toList, some 7, 1500, 1500⟩, ⟨"what?".toList, some 7, 1800, 1800⟩]⟩
    let (q, pushed) := Processor.processAll fits { multiSpeakerSupport := true }
      [⟨true, first.transcript, some (some first), none, false⟩,
        ⟨true, second.transcript, some (some second), none, false⟩]
    splitAtPrefixes (frameText pushed) =
        [(some 0, "the selecti.on".toList), (some 1, "what?".toList)] ∧
      (groupFragmentsBySpeaker q.turnFragments).map (fun run => (run.speakerId, run.text)) =
        [(some 0, "the selection".toList), (some 1, "what?".toList)] := by
  intro fits first second
  have hruns := runs_survive_prefixes fits { multiSpeakerSupport := true }
    [⟨true, first.transcript, some (some first), none, false⟩,
      ⟨true, second.transcript, some (some second), none, false⟩]
    [first, second] rfl rfl rfl (.cons ⟨rfl, rfl, rfl⟩ (.cons ⟨rfl, rfl, rfl⟩ .nil))
    (by
      intro a ha
      rcases List.mem_pair.mp ha with rfl | rfl
      · decide +kernel
      · decide +kernel)
    (by unfold Unprefixed; decide +kernel)
  refine ⟨hruns.1.trans ?_, hruns.2.1.trans ?_⟩
  · decide +kernel
  · decide +kernel

end VoiceAgent.SpeakerTurn
