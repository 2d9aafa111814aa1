import Mathlib.Data.List.DropRight
import Mathlib.Data.List.Induction
import Mathlib.Data.List.TakeDrop

/-!
Text that arrives in chunks. A reader that splits its input as it likes, `feed`, has read the
whole text however it was cut. A search that may have seen the beginning of its pattern holds
back a tail of what it has read, and finds the same place as a search through the whole text.
-/
namespace VoiceAgent.Chunks

section Feeding
variable {α β σ : Type} (feed : σ → List α → σ × List β)

/-- The reader after some chunks, with all that it has put out. -/
def feedAll (s : σ) (chunks : List (List α)) : σ × List β :=
  chunks.foldl (fun p chunk => ((feed p.1 chunk).1, p.2 ++ (feed p.1 chunk).2)) (s, [])

/-- To read two chunks is to read them as one. -/
def Additive : Prop :=
  ∀ s a b, feed s (a ++ b) =
    ((feed (feed s a).1 b).1, (feed s a).2 ++ (feed (feed s a).1 b).2)

variable {feed}

theorem feedAll_concat (s : σ) (chunks : List (List α)) (chunk : List α) :
    feedAll feed s (chunks ++ [chunk]) =
      ((feed (feedAll feed s chunks).1 chunk).1,
        (feedAll feed s chunks).2 ++ (feed (feedAll feed s chunks).1 chunk).2) := by
  simp [feedAll, List.foldl_append]

/-- Run lemma: the chunks of a text do not matter. -/
theorem feedAll_eq (h : Additive feed) {s : σ} (hs : feed s [] = (s, []))
    (chunks : List (List α)) : feedAll feed s chunks = feed s chunks.flatten := by
  induction chunks using List.reverseRecOn with
  | nil => exact hs.symm
  | append_singleton chunks chunk ih =>
    rw [feedAll_concat, ih, List.flatten_append, List.flatten_singleton, h]

end Feeding

section Search
variable {α : Type} [DecidableEq α] {needle a b x y before after : List α}

/-- What is before and what is after the first occurrence of `needle`. -/
def splitFirst (needle : List α) : List α → Option (List α × List α)
  | [] => if needle = [] then some ([], []) else none
  | c :: cs =>
    if needle <+: c :: cs then some ([], (c :: cs).drop needle.length)
    else (splitFirst needle cs).map fun found => (c :: found.1, found.2)

theorem splitFirst_eq_some (h : splitFirst needle a = some (before, after)) :
    a = before ++ needle ++ after := by
  induction a generalizing before with
  | nil =>
    unfold splitFirst at h
    split at h
    · cases h
      simp [*]
    · cases h
  | cons c cs ih =>
    unfold splitFirst at h
    split at h
    · rename_i hprefix
      cases h
      obtain ⟨rest, hrest⟩ := hprefix
      rw [← hrest, List.drop_left, List.nil_append]
    · simp only [Option.map_eq_some_iff, Prod.mk.injEq, Prod.exists] at h
      obtain ⟨before', after', hfound, rfl, rfl⟩ := h
      rw [List.cons_append, List.cons_append, ← ih hfound]

/-- What was found is found again when more text arrives. -/
theorem splitFirst_append (h : splitFirst needle a = some (before, after)) (b : List α) :
    splitFirst needle (a ++ b) = some (before, after ++ b) := by
  induction a generalizing before with
  | nil =>
    unfold splitFirst at h
    split at h
    · rename_i hneedle
      cases h
      subst needle
      cases b <;> simp [splitFirst]
    · cases h
  | cons c cs ih =>
    have hall := splitFirst_eq_some h
    unfold splitFirst at h
    rw [List.cons_append]
    unfold splitFirst
    split at h
    · rename_i hprefix
      cases h
      have hlong : needle <+: c :: (cs ++ b) := by
        rw [← List.cons_append]
        exact hprefix.trans (List.prefix_append _ _)
      rw [if_pos hlong, ← List.cons_append, List.drop_append_of_le_length hprefix.length_le]
    · rename_i hprefix
      simp only [Option.map_eq_some_iff, Prod.mk.injEq, Prod.exists] at h
      obtain ⟨before', after', hfound, rfl, rfl⟩ := h
      have hlen : needle.length ≤ (c :: cs).length := by
        rw [hall]
        simp only [List.length_append]
        omega
      have hnot : ¬ needle <+: c :: (cs ++ b) := by
        rw [← List.cons_append]
        exact fun hp => hprefix (List.prefix_of_prefix_length_le hp (List.prefix_append _ _) hlen)
      rw [if_neg hnot, ih hfound]
      rfl

/-- An occurrence that ends in new text begins in a tail that is one shorter than the pattern. -/
theorem splitFirst_tail (h : splitFirst needle (x ++ y) = none)
    (hy : x = [] ∨ needle.length ≤ y.length + 1) (b : List α) :
    splitFirst needle (x ++ y ++ b) =
      (splitFirst needle (y ++ b)).map fun found => (x ++ found.1, found.2) := by
  induction x with
  | nil => simp
  | cons c cs ih =>
    have hlen : needle.length ≤ y.length + 1 := hy.resolve_left (by simp)
    rw [List.cons_append, splitFirst] at h
    split at h
    · cases h
    · rename_i hprefix
      simp only [Option.map_eq_none_iff] at h
      have hnot : ¬ needle <+: c :: (cs ++ y ++ b) := by
        intro hp
        refine hprefix (List.prefix_of_prefix_length_le hp ?_ ?_)
        · exact ⟨b, by simp⟩
        · simp only [List.length_cons, List.length_append]
          omega
      rw [List.cons_append, List.cons_append, splitFirst, if_neg hnot, ih h (.inr hlen),
        Option.map_map]
      rfl

end Search

section Skipping
variable {α : Type} {p : α → Bool} {a : List α}

theorem dropWhile_more (h : a.dropWhile p ≠ []) (b : List α) :
    (a ++ b).dropWhile p = a.dropWhile p ++ b := by
  rw [List.dropWhile_append, if_neg (by simpa using h)]

theorem dropWhile_none (h : a.dropWhile p = []) (b : List α) :
    (a ++ b).dropWhile p = b.dropWhile p := by
  rw [List.dropWhile_append, if_pos (by simp [h])]

/-- What has been skipped is not skipped again. -/
theorem dropWhile_again (h : a.dropWhile p ≠ []) (b : List α) :
    (a.dropWhile p ++ b).dropWhile p = a.dropWhile p ++ b := by
  have hidem : (a.dropWhile p).dropWhile p = a.dropWhile p := List.dropWhile_idempotent _ _
  rw [dropWhile_more (by rwa [hidem]), hidem]

end Skipping

section HoldBack
variable {α : Type} {k : ℕ} {a b x y : List α}

/-- All but the last `k` items, and these. -/
def holdBack (k : ℕ) (a : List α) : List α × List α :=
  (a.take (a.length - k), a.drop (a.length - k))

theorem holdBack_eq (k : ℕ) (a : List α) : (holdBack k a).1 ++ (holdBack k a).2 = a :=
  List.take_append_drop _ _

theorem holdBack_short (k : ℕ) (a : List α) :
    (holdBack k a).1 = [] ∨ (holdBack k a).2.length = k := by
  by_cases h : a.length ≤ k
  · exact .inl (by simp [holdBack, h])
  · refine .inr ?_
    simp only [holdBack, List.length_drop]
    omega

theorem holdBack_ne_nil (hk : 0 < k) (h : a ≠ []) : (holdBack k a).2 ≠ [] := by
  have hpos : 0 < a.length := List.length_pos_of_ne_nil h
  refine List.ne_nil_of_length_pos ?_
  simp only [holdBack, List.length_drop]
  omega

/-- To hold back a tail of a tail and new text is to hold back a tail of the whole. -/
theorem holdBack_append (k : ℕ) (a b : List α) :
    holdBack k (a ++ b) =
      ((holdBack k a).1 ++ (holdBack k ((holdBack k a).2 ++ b)).1,
        (holdBack k ((holdBack k a).2 ++ b)).2) := by
  have hlen : (a ++ b).length - k =
      (a.take (a.length - k)).length + ((a.drop (a.length - k) ++ b).length - k) := by
    simp only [List.length_append, List.length_take, List.length_drop]
    omega
  have hsplit : a ++ b = a.take (a.length - k) ++ (a.drop (a.length - k) ++ b) := by
    rw [← List.append_assoc, List.take_append_drop]
  simp only [holdBack, Prod.mk.injEq]
  rw [hlen]
  refine ⟨?_, ?_⟩
  · conv_lhs => rw [hsplit]
    rw [List.take_length_add_append]
  · conv_lhs => rw [hsplit]
    rw [List.drop_length_add_append]

/-- A search goes on with the held tail, when that is long enough, as through the whole text. -/
theorem splitFirst_held [DecidableEq α] {needle : List α} (h : splitFirst needle a = none)
    (hk : needle.length ≤ k + 1) (b : List α) :
    splitFirst needle (a ++ b) =
      (splitFirst needle ((holdBack k a).2 ++ b)).map fun found =>
        ((holdBack k a).1 ++ found.1, found.2) := by
  have hall := holdBack_eq k a
  have hlong : (holdBack k a).1 = [] ∨ needle.length ≤ (holdBack k a).2.length + 1 :=
    (holdBack_short k a).imp id fun hlen => by rwa [hlen]
  have htail := splitFirst_tail (by rw [hall]; exact h) hlong b
  rwa [hall] at htail

end HoldBack

end VoiceAgent.Chunks
