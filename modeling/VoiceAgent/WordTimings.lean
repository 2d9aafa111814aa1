import Mathlib.Algebra.Order.Ring.Rat
import Mathlib.Tactic.Linarith
import Mathlib.Data.List.Infix
import Mathlib.Data.List.Induction

/-!
Word timings of synthesized speech. Magpie reports them in batches, which are snapshots of the
whole turn so far or sentences with times of their own, and the service tells the one from the
other by what it has accepted. Times are exact rationals.
-/
namespace VoiceAgent.WordTimings

section Batches

/-- One timed token. -/
structure TimedWord where
  word : String
  startS : ℚ
  endS : ℚ
  deriving DecidableEq

def TimedWord.shift (offset : ℚ) (w : TimedWord) : TimedWord :=
  ⟨w.word, w.startS + offset, w.endS + offset⟩

/-- The end of the last word. -/
def endOf (words : List TimedWord) : ℚ := (words.getLast?.map TimedWord.endS).getD 0

/-- The new words of a batch: those beyond an exact prefix of at least two accepted words, or all
of them, which go on from the last accepted word if the times restart. -/
def newWordsFromMetaBatch (incoming alreadyEmitted : List TimedWord)
    (relativeRestartEps : ℚ) : List TimedWord :=
  let prefixLen := alreadyEmitted.length
  if prefixLen ≥ 2 ∧ incoming.take prefixLen = alreadyEmitted then incoming.drop prefixLen
  else if alreadyEmitted ≠ [] ∧ incoming.head?.any (·.startS ≤ relativeRestartEps) then
    incoming.map (TimedWord.shift (endOf alreadyEmitted))
  else incoming

/-- `_maybe_emit_meta_timestamps`, for what is accepted. -/
def ingest (relativeRestartEps : ℚ) (accepted incoming : List TimedWord) : List TimedWord :=
  accepted ++ newWordsFromMetaBatch incoming accepted relativeRestartEps

def acceptAll (relativeRestartEps : ℚ) (batches : List (List TimedWord)) : List TimedWord :=
  batches.foldl (ingest relativeRestartEps) []

end Batches

section Snapshots
variable {eps : ℚ} {accepted batch first : List TimedWord} {batches rest : List (List TimedWord)}

/-- A batch that begins with what is accepted takes its place. -/
theorem ingest_snapshot (hlen : 2 ≤ accepted.length) (hpre : accepted <+: batch) :
    ingest eps accepted batch = batch := by
  have htake : batch.take accepted.length = accepted := (List.prefix_iff_eq_take.mp hpre).symm
  unfold ingest newWordsFromMetaBatch
  rw [if_pos ⟨hlen, htake⟩]
  exact List.prefix_iff_eq_append.mp hpre

theorem ingest_snapshots (hlen : 2 ≤ accepted.length)
    (hgrow : (accepted :: rest).IsChain (· <+: ·)) :
    rest.foldl (ingest eps) accepted = (accepted :: rest).getLast (List.cons_ne_nil _ _) := by
  induction rest generalizing accepted with
  | nil => rfl
  | cons batch rest ih =>
    obtain ⟨hpre, hrest⟩ := List.isChain_cons_cons.mp hgrow
    rw [List.foldl_cons, ingest_snapshot hlen hpre, List.getLast_cons_cons]
    exact ih (hlen.trans hpre.length_le) hrest

/-- Growing snapshots of one word list come to the last of them. -/
theorem snapshots_accepted (eps : ℚ) (hlen : 2 ≤ first.length)
    (hgrow : (first :: rest).IsChain (· <+: ·)) :
    acceptAll eps (first :: rest) = (first :: rest).getLast (List.cons_ne_nil _ _) := by
  have hfirst : ingest eps [] first = first := by simp [ingest, newWordsFromMetaBatch]
  unfold acceptAll
  rw [List.foldl_cons, hfirst]
  exact ingest_snapshots hlen hgrow

theorem snapshots_accepted_growing :
    acceptAll (1 / 50) [[⟨"no", 0, 1⟩, ⟨"no", 1, 2⟩], [⟨"no", 0, 1⟩, ⟨"no", 1, 2⟩, ⟨"no", 2, 3⟩]] =
      [⟨"no", 0, 1⟩, ⟨"no", 1, 2⟩, ⟨"no", 2, 3⟩] :=
  snapshots_accepted (1 / 50) (by decide) (by decide +kernel)

end Snapshots

section Sentences
variable {eps : ℚ} {accepted batch : List TimedWord} {batches : List (List TimedWord)}

/-- The words of one sentence, with times of its own. -/
structure Sentence (eps : ℚ) (batch : List TimedWord) : Prop where
  restarts : ∃ first ∈ batch.head?, 0 ≤ first.startS ∧ first.startS ≤ eps
  sorted : batch.Pairwise (·.startS ≤ ·.startS)
  ends : ∀ w ∈ batch, w.startS ≤ w.endS

/-- The sentences one after the other, each shifted by the end of the last word before it. -/
def joined (batches : List (List TimedWord)) : List TimedWord :=
  batches.foldl (fun words batch => words ++ batch.map (TimedWord.shift (endOf words))) []

@[simp] theorem joined_concat (batches : List (List TimedWord)) (batch : List TimedWord) :
    joined (batches ++ [batch]) =
      joined batches ++ batch.map (TimedWord.shift (endOf (joined batches))) := by
  simp [joined]

@[simp] theorem acceptAll_concat (batches : List (List TimedWord)) (batch : List TimedWord) :
    acceptAll eps (batches ++ [batch]) = ingest eps (acceptAll eps batches) batch := by
  simp [acceptAll]

/-- A sentence begins with all the words of the sentences before it, which are at least two. -/
def Repeats (batches : List (List TimedWord)) : Prop :=
  ∃ before batch after, batches = before ++ batch :: after ∧
    2 ≤ (joined before).length ∧ joined before <+: batch

theorem shift_zero (w : TimedWord) : w.shift 0 = w := by
  simp [TimedWord.shift]

/-- A sentence that does not begin with what is accepted goes on from its end. -/
theorem ingest_sentence (hbatch : Sentence eps batch)
    (hnew : ¬(2 ≤ accepted.length ∧ accepted <+: batch)) :
    ingest eps accepted batch = accepted ++ batch.map (TimedWord.shift (endOf accepted)) := by
  obtain ⟨first, hfirst, -, hle⟩ := hbatch.restarts
  have hcond : ¬(accepted.length ≥ 2 ∧ batch.take accepted.length = accepted) := by
    rintro ⟨hlen, htake⟩
    exact hnew ⟨hlen, List.prefix_iff_eq_take.mpr htake.symm⟩
  unfold ingest newWordsFromMetaBatch
  rw [if_neg hcond]
  by_cases hnil : accepted = []
  · rw [if_neg (by simp [hnil]), hnil]
    have hend : endOf [] = 0 := rfl
    have hshift : TimedWord.shift 0 = id := funext shift_zero
    rw [hend, hshift, List.map_id]
  · have hrestart : batch.head?.any (·.startS ≤ eps) = true := by
      rw [Option.mem_def.mp hfirst]
      exact decide_eq_true hle
    rw [if_pos ⟨hnil, hrestart⟩]

/-- A sentence adds no more than its words, and fewer if it is taken for a snapshot. -/
theorem length_ingest_le (eps : ℚ) (accepted batch : List TimedWord) :
    (ingest eps accepted batch).length ≤ accepted.length + batch.length := by
  have hnew : (newWordsFromMetaBatch batch accepted eps).length ≤ batch.length := by
    unfold newWordsFromMetaBatch
    dsimp only
    split_ifs <;> simp
  unfold ingest
  rw [List.length_append]
  omega

theorem length_ingest_lt (hlen : 2 ≤ accepted.length) (hpre : accepted <+: batch) :
    (ingest eps accepted batch).length < accepted.length + batch.length := by
  rw [ingest_snapshot hlen hpre]
  omega

theorem length_joined (batches : List (List TimedWord)) :
    (joined batches).length = (batches.map List.length).sum := by
  induction batches using List.reverseRecOn with
  | nil => rfl
  | append_singleton batches batch ih => simp [ih]

theorem repeats_concat : Repeats (batches ++ [batch]) ↔
    Repeats batches ∨ (2 ≤ (joined batches).length ∧ joined batches <+: batch) := by
  constructor
  · rintro ⟨before, found, after, hsplit, hlen, hpre⟩
    rcases List.eq_nil_or_concat after with rfl | ⟨middle, last, rfl⟩
    · obtain ⟨hbefore, hbatch⟩ := List.append_inj' hsplit rfl
      rw [List.singleton_inj] at hbatch
      rw [hbefore, hbatch]
      exact .inr ⟨hlen, hpre⟩
    · refine .inl ⟨before, found, middle, ?_, hlen, hpre⟩
      have hsplit' : batches ++ [batch] = (before ++ found :: middle) ++ [last] := by
        simpa using hsplit
      exact (List.append_inj' hsplit' rfl).1
  · rintro (⟨before, found, after, rfl, hlen, hpre⟩ | ⟨hlen, hpre⟩)
    · exact ⟨before, found, after ++ [batch], by simp, hlen, hpre⟩
    · exact ⟨batches, batch, [], rfl, hlen, hpre⟩

/-- Without a repetition every sentence is taken whole. -/
theorem acceptAll_joined (hsentences : ∀ batch ∈ batches, Sentence eps batch)
    (hnew : ¬Repeats batches) : acceptAll eps batches = joined batches := by
  induction batches using List.reverseRecOn with
  | nil => rfl
  | append_singleton batches batch ih =>
    rw [repeats_concat, not_or] at hnew
    have hbefore := ih (fun b hb => hsentences b (List.mem_append_left _ hb)) hnew.1
    rw [acceptAll_concat, joined_concat, hbefore]
    exact ingest_sentence (hsentences batch (by simp)) hnew.2

/-- A repetition loses words, and those that follow do not bring them back. -/
theorem length_acceptAll_lt (hsentences : ∀ batch ∈ batches, Sentence eps batch)
    (hrepeats : Repeats batches) :
    (acceptAll eps batches).length < (batches.map List.length).sum := by
  induction batches using List.reverseRecOn with
  | nil =>
    obtain ⟨before, batch, after, hsplit, -⟩ := hrepeats
    simp at hsplit
  | append_singleton batches batch ih =>
    have hbefore : ∀ b ∈ batches, Sentence eps b :=
      fun b hb => hsentences b (List.mem_append_left _ hb)
    rw [acceptAll_concat, List.map_append, List.sum_append, List.map_singleton, List.sum_singleton]
    by_cases hearlier : Repeats batches
    · have hlt := ih hbefore hearlier
      have hle := length_ingest_le eps (acceptAll eps batches) batch
      omega
    · obtain ⟨hlen, hpre⟩ := (repeats_concat.mp hrepeats).resolve_left hearlier
      rw [acceptAll_joined hbefore hearlier, ← length_joined]
      exact length_ingest_lt hlen hpre

@[simp] theorem endOf_concat (words : List TimedWord) (w : TimedWord) :
    endOf (words ++ [w]) = w.endS := by
  simp [endOf]

theorem Sentence.start_nonneg (h : Sentence eps batch) {w : TimedWord} (hw : w ∈ batch) :
    0 ≤ w.startS := by
  obtain ⟨first, hfirst, hnonneg, -⟩ := h.restarts
  cases batch with
  | nil => cases hw
  | cons head rest =>
    obtain rfl := Option.some.inj hfirst
    rcases List.mem_cons.mp hw with rfl | hw
    · exact hnonneg
    · exact hnonneg.trans ((List.pairwise_cons.mp h.sorted).1 w hw)

/-- The last word of a sentence starts last. -/
theorem Sentence.exists_last (h : Sentence eps batch) :
    ∃ words last, batch = words ++ [last] ∧ ∀ w ∈ batch, w.startS ≤ last.startS := by
  obtain ⟨first, hfirst, -⟩ := h.restarts
  rcases List.eq_nil_or_concat' batch with rfl | ⟨words, last, rfl⟩
  · cases hfirst
  · refine ⟨words, last, rfl, ?_⟩
    intro w hw
    rcases List.mem_append.mp hw with hw | hw
    · exact (List.pairwise_append.mp h.sorted).2.2 w hw last (List.mem_singleton_self last)
    · rw [List.mem_singleton.mp hw]

/-- The joined words start in order, and none after their end. -/
theorem joined_sorted (hsentences : ∀ batch ∈ batches, Sentence eps batch) :
    (joined batches).Pairwise (·.startS ≤ ·.startS) ∧
      0 ≤ endOf (joined batches) ∧ ∀ w ∈ joined batches, w.startS ≤ endOf (joined batches) := by
  induction batches using List.reverseRecOn with
  | nil => exact ⟨List.Pairwise.nil, le_refl _, by simp [joined]⟩
  | append_singleton batches batch ih =>
    obtain ⟨hsorted, hend, hbefore⟩ := ih fun b hb => hsentences b (List.mem_append_left _ hb)
    have hbatch := hsentences batch (by simp)
    obtain ⟨words, last, hsplit, hlast⟩ := hbatch.exists_last
    have hlastmem : last ∈ batch := by
      rw [hsplit]
      exact List.mem_append_right _ (List.mem_singleton_self last)
    have hlastEnd := hbatch.ends last hlastmem
    have hlastStart := hbatch.start_nonneg hlastmem
    have hendNew : endOf (joined (batches ++ [batch])) = last.endS + endOf (joined batches) := by
      rw [joined_concat, hsplit, List.map_append, ← List.append_assoc, List.map_singleton,
        endOf_concat]
      rfl
    rw [hendNew, joined_concat]
    refine ⟨List.pairwise_append.mpr ⟨hsorted, ?_, ?_⟩, by linarith, ?_⟩
    · rw [List.pairwise_map]
      exact hbatch.sorted.imp fun h => add_le_add_left h _
    · intro a ha b hb
      obtain ⟨w, hw, rfl⟩ := List.mem_map.mp hb
      have hstart := hbatch.start_nonneg hw
      have haend := hbefore a ha
      change a.startS ≤ w.startS + endOf (joined batches)
      linarith
    · intro a ha
      rcases List.mem_append.mp ha with ha | ha
      · have haend := hbefore a ha
        linarith
      · obtain ⟨w, hw, rfl⟩ := List.mem_map.mp ha
        have hstart := hlast w hw
        change w.startS + endOf (joined batches) ≤ last.endS + endOf (joined batches)
        linarith

/-- The sentences are accepted whole and in order exactly if none begins with all the words that
came before it. -/
theorem sentences_accepted (hsentences : ∀ batch ∈ batches, Sentence eps batch) :
    (acceptAll eps batches = joined batches ∧
      (acceptAll eps batches).Pairwise (·.startS ≤ ·.startS)) ↔ ¬Repeats batches := by
  constructor
  · rintro ⟨heq, -⟩ hrepeats
    have hlt := length_acceptAll_lt hsentences hrepeats
    rw [heq, length_joined] at hlt
    exact lt_irrefl _ hlt
  · intro hnew
    rw [acceptAll_joined hsentences hnew]
    exact ⟨rfl, (joined_sorted hsentences).1⟩

def hello : List TimedWord := [⟨"hello", 0, 1⟩]

def helloYou : List TimedWord := [⟨"hello", 0, 1⟩, ⟨"you", 1, 2⟩]

theorem sentences_accepted_two :
    acceptAll (1 / 50) [hello, helloYou] =
      [⟨"hello", 0, 1⟩, ⟨"hello", 1, 2⟩, ⟨"you", 2, 3⟩] := by
  have hsentences : ∀ batch ∈ [hello, helloYou], Sentence (1 / 50) batch := by
    intro batch hbatch
    rcases List.mem_cons.mp hbatch with rfl | hbatch
    · exact ⟨⟨_, rfl, by decide +kernel, by decide +kernel⟩, by decide +kernel, by decide +kernel⟩
    · obtain rfl := List.mem_singleton.mp hbatch
      exact ⟨⟨_, rfl, by decide +kernel, by decide +kernel⟩, by decide +kernel, by decide +kernel⟩
  have hnew : ¬Repeats (([] ++ [hello]) ++ [helloYou]) := by
    rw [repeats_concat, repeats_concat]
    rintro ((⟨before, batch, after, hsplit, -⟩ | ⟨hlen, -⟩) | ⟨hlen, -⟩)
    · simp at hsplit
    · revert hlen
      decide
    · revert hlen
      decide
  exact ((sentences_accepted hsentences).mpr hnew).1.trans (by decide +kernel)

/-- The second of two equal sentences is lost. -/
theorem repeated_sentence_lost :
    (∀ batch ∈ [helloYou, helloYou], Sentence (1 / 50) batch) ∧
      acceptAll (1 / 50) [helloYou, helloYou] ≠ joined [helloYou, helloYou] := by
  constructor
  · intro batch hbatch
    have hsame : batch = helloYou := by simpa using hbatch
    rw [hsame]
    exact ⟨⟨_, rfl, by decide +kernel, by decide +kernel⟩, by decide +kernel, by decide +kernel⟩
  · decide +kernel

end Sentences

end VoiceAgent.WordTimings
