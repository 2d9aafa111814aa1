import Mathlib.Data.List.Induction
import Mathlib.Logic.Function.Basic

/-!
A table that calls fill as they come. A call that finds nothing under its key fetches a value,
which may fail, and leaves it there; no entry is ever replaced. An entry is therefore what the
first call of its key that got a value fetched.
-/
namespace VoiceAgent.Memo

variable {α κ β : Type} [DecidableEq κ] (key : α → κ) (fetch : α → Option β)

def fill (table : κ → Option β) (a : α) : κ → Option β :=
  Function.update table (key a) ((table (key a)).or (fetch a))

def filled (calls : List α) : κ → Option β := calls.foldl (fill key fetch) fun _ => none

/-- The first call of a key that gets a value. -/
def filler (calls : List α) (k : κ) : Option α :=
  calls.find? fun a => key a = k ∧ (fetch a).isSome

variable {key fetch} {calls : List α} {a : α} {k : κ}

theorem filled_snoc : filled key fetch (calls ++ [a]) =
    fill key fetch (filled key fetch calls) a := by
  rw [filled, List.foldl_append]
  rfl

theorem filler_snoc : filler key fetch (calls ++ [a]) k =
    (filler key fetch calls k).or
      (if key a = k ∧ (fetch a).isSome then some a else none) := by
  simp only [filler, List.find?_append, List.find?_singleton, decide_eq_true_eq]

theorem filler_fetched (h : filler key fetch calls k = some a) :
    key a = k ∧ (fetch a).isSome := by
  simpa using List.find?_some h

theorem filler_mem (h : filler key fetch calls k = some a) : a ∈ calls :=
  List.mem_of_find?_eq_some h

/-- What is under a key is what its first call with a value fetched. -/
theorem filled_eq (calls : List α) (k : κ) :
    filled key fetch calls k = (filler key fetch calls k).bind fetch := by
  induction calls using List.reverseRecOn with
  | nil => rfl
  | append_singleton calls a ih =>
    rw [filled_snoc, filler_snoc, fill]
    by_cases hk : key a = k
    · subst hk
      rw [Function.update_self, ih]
      cases hfiller : filler key fetch calls (key a) with
      | none => cases hfetch : fetch a <;> simp [hfetch]
      | some b =>
        obtain ⟨v, hv⟩ := Option.isSome_iff_exists.mp (filler_fetched hfiller).2
        simp [hv]
    · rw [Function.update_of_ne (Ne.symm hk), ih, if_neg fun h => hk h.1, Option.or_none]

end VoiceAgent.Memo
