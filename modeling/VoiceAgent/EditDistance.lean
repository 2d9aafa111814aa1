import Mathlib.Data.List.Basic

/-!
The Levenshtein distance of two lists: the least number of letters that are replaced, deleted or
inserted to make one list of the other. Scripts of such edits can be read from either end, so the
distance has a recursion at its last letters too; from it comes the table that is filled row by
row.
-/
namespace VoiceAgent.EditDistance

variable {α : Type*} {a b : List α} {n m : ℕ}

section Scripts

/-- A script of `n` edits that makes `b` of `a`, letter by letter. -/
inductive Edits : List α → List α → ℕ → Prop
  | nil : Edits [] [] 0
  | keep (x : α) {a b : List α} {n : ℕ} (h : Edits a b n) : Edits (x :: a) (x :: b) n
  | replace (x y : α) {a b : List α} {n : ℕ} (h : Edits a b n) : Edits (x :: a) (y :: b) (n + 1)
  | delete (x : α) {a b : List α} {n : ℕ} (h : Edits a b n) : Edits (x :: a) b (n + 1)
  | insert (y : α) {a b : List α} {n : ℕ} (h : Edits a b n) : Edits a (y :: b) (n + 1)

namespace Edits

theorem refl (a : List α) : Edits a a 0 := by
  induction a with
  | nil => exact .nil
  | cons x a ih => exact .keep x ih

theorem inserted (b : List α) : Edits [] b b.length := by
  induction b with
  | nil => exact .nil
  | cons y b ih => exact .insert y ih

theorem deleted (a : List α) : Edits a [] a.length := by
  induction a with
  | nil => exact .nil
  | cons x a ih => exact .delete x ih

/-- Each edit changes the length by one at most. -/
theorem length_le (h : Edits a b n) : a.length ≤ b.length + n ∧ b.length ≤ a.length + n := by
  induction h with
  | nil => simp
  | keep _ _ ih | replace _ _ _ ih | delete _ _ ih | insert _ _ ih =>
    simp only [List.length_cons]
    omega

theorem append {c d : List α} (h : Edits a b n) (h' : Edits c d m) :
    Edits (a ++ c) (b ++ d) (n + m) := by
  induction h with
  | nil => simpa using h'
  | keep x _ ih => exact .keep x ih
  | replace x y _ ih => rw [Nat.add_right_comm]; exact .replace x y ih
  | delete x _ ih => rw [Nat.add_right_comm]; exact .delete x ih
  | insert y _ ih => rw [Nat.add_right_comm]; exact .insert y ih

/-- A script serves from the other end as well. -/
theorem reverse (h : Edits a b n) : Edits a.reverse b.reverse n := by
  induction h with
  | nil => exact .nil
  | keep x _ ih => simpa using ih.append (.keep x .nil)
  | replace x y _ ih => simpa using ih.append (.replace x y .nil)
  | delete x _ ih => simpa using ih.append (.delete x .nil)
  | insert y _ ih => simpa using ih.append (.insert y .nil)

end Edits

end Scripts

section Distance

variable [DecidableEq α]

def levenshtein : List α → List α → ℕ
  | [], b => b.length
  | x :: a, [] => (x :: a).length
  | x :: a, y :: b => min (min (levenshtein (x :: a) b + 1) (levenshtein a (y :: b) + 1))
      (levenshtein a b + if x = y then 0 else 1)
termination_by a b => a.length + b.length

@[simp] theorem levenshtein_nil_left (b : List α) : levenshtein [] b = b.length := by
  rw [levenshtein]

@[simp] theorem levenshtein_nil_right (a : List α) : levenshtein a [] = a.length := by
  cases a <;> rw [levenshtein]

theorem levenshtein_cons_cons (x y : α) (a b : List α) :
    levenshtein (x :: a) (y :: b) =
      min (min (levenshtein (x :: a) b + 1) (levenshtein a (y :: b) + 1))
        (levenshtein a b + if x = y then 0 else 1) := by
  rw [levenshtein]

theorem min_min_cases (p q r : ℕ) :
    min (min p q) r = p ∨ min (min p q) r = q ∨ min (min p q) r = r := by omega

/-- The distance is reached by a script. -/
theorem edits_levenshtein (a b : List α) : Edits a b (levenshtein a b) := by
  fun_induction levenshtein a b with
  | case1 b => exact .inserted b
  | case2 x a => exact .deleted (x :: a)
  | case3 x a y b hinsert hdelete hboth =>
    rcases min_min_cases (levenshtein (x :: a) b + 1) (levenshtein a (y :: b) + 1)
      (levenshtein a b + if x = y then 0 else 1) with h | h | h
    · rw [h]
      exact .insert y hinsert
    · rw [h]
      exact .delete x hdelete
    · rw [h]
      split
      · next heq =>
        subst heq
        exact .keep x hboth
      · exact .replace x y hboth

/-- No script is shorter. -/
theorem levenshtein_le (h : Edits a b n) : levenshtein a b ≤ n := by
  induction h with
  | nil => simp
  | @keep x a b n _ ih =>
    have hcell := levenshtein_cons_cons x x a b
    simp only [if_true] at hcell
    omega
  | @replace x y a b n _ ih =>
    have hcell := levenshtein_cons_cons x y a b
    split at hcell <;> omega
  | @delete x a b n _ ih =>
    cases b with
    | nil => simpa using ih
    | cons y b =>
      have hcell := levenshtein_cons_cons x y a b
      omega
  | @insert y a b n _ ih =>
    cases a with
    | nil => simpa using ih
    | cons x a =>
      have hcell := levenshtein_cons_cons x y a b
      omega

@[simp] theorem levenshtein_self (a : List α) : levenshtein a a = 0 :=
  Nat.le_zero.mp (levenshtein_le (.refl a))

theorem length_le_levenshtein (a b : List α) :
    a.length ≤ b.length + levenshtein a b ∧ b.length ≤ a.length + levenshtein a b :=
  (edits_levenshtein a b).length_le

theorem levenshtein_reverse (a b : List α) :
    levenshtein a.reverse b.reverse = levenshtein a b := by
  apply Nat.le_antisymm
  · exact levenshtein_le (edits_levenshtein a b).reverse
  · have hback := (edits_levenshtein a.reverse b.reverse).reverse
    rw [List.reverse_reverse, List.reverse_reverse] at hback
    exact levenshtein_le hback

/-- The recursion at the last letters. -/
theorem levenshtein_concat_concat (a b : List α) (x y : α) :
    levenshtein (a ++ [x]) (b ++ [y]) =
      min (min (levenshtein (a ++ [x]) b + 1) (levenshtein a (b ++ [y]) + 1))
        (levenshtein a b + if x = y then 0 else 1) := by
  have hcell := levenshtein_cons_cons x y a.reverse b.reverse
  have hconcat : ∀ (l : List α) (z : α), z :: l.reverse = (l ++ [z]).reverse := by simp
  rw [hconcat, hconcat] at hcell
  simpa only [levenshtein_reverse] using hcell

end Distance

section Table

variable [DecidableEq α]

/-- The distances from `a` to `done` and to what `done` grows to, letter by letter. -/
def distances (a done : List α) : List α → List ℕ
  | [] => [levenshtein a done]
  | y :: rest => levenshtein a done :: distances a (done ++ [y]) rest

theorem distances_eq_cons (a done rest : List α) :
    distances a done rest = levenshtein a done :: (distances a done rest).tail := by
  cases rest <;> rfl

theorem getLast?_distances (a : List α) (rest : List α) : ∀ done : List α,
    (distances a done rest).getLast? = some (levenshtein a (done ++ rest)) := by
  induction rest with
  | nil => simp [distances]
  | cons y rest ih =>
    intro done
    have hnext := ih (done ++ [y])
    rw [distances_eq_cons] at hnext
    rw [distances, distances_eq_cons, List.getLast?_cons_cons, hnext]
    simp

theorem distances_nil (rest : List α) : ∀ done : List α,
    distances [] done rest = List.range' done.length (rest.length + 1) := by
  induction rest with
  | nil => simp [distances]
  | cons y rest ih =>
    intro done
    rw [distances, ih, levenshtein_nil_left, List.length_append]
    rfl

end Table

end VoiceAgent.EditDistance
