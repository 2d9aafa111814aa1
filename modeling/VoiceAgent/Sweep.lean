import Mathlib.Data.List.Basic

/-!
Letters deleted in one pass, each for what it is and for the letter after it in the text as it
stood. The pass does not see what its own deletions bring together, so its output may hold a
letter that a second pass would delete. When it does is said here by the text alone.
-/
namespace VoiceAgent.Sweep

variable {α : Type} (drop : α → Option α → Bool)

/-- One pass: a letter goes when `drop` holds of it and of the next letter of the text. -/
def sweep : List α → List α
  | [] => []
  | c :: cs => if drop c cs.head? then sweep cs else c :: sweep cs

/-- A pass deletes nothing. -/
def Clean : List α → Prop
  | [] => True
  | c :: cs => drop c cs.head? = false ∧ Clean cs

/-- All of `mid` goes where `post` is after it. -/
def Cleared : List α → List α → Prop
  | [], _ => True
  | c :: mid, post => drop c (mid ++ post).head? = true ∧ Cleared mid post

/-- The first letter of the text stays, if there is one. -/
def Kept (text : List α) : Prop := ∀ c cs, text = c :: cs → drop c cs.head? = false

/-- A letter stays, all letters up to `post` go, and it would have gone before `post`. -/
structure Uncovered (c : α) (mid post : List α) : Prop where
  stays : drop c (mid ++ post).head? = false
  cleared : Cleared drop mid post
  kept : Kept drop post
  drops : drop c post.head? = true

/-- Somewhere in the text a deletion uncovers a letter to delete. -/
def Uncovers (text : List α) : Prop :=
  ∃ pre c mid post, text = pre ++ c :: (mid ++ post) ∧ Uncovered drop c mid post

variable {drop} {c : α} {cs mid post text : List α}

theorem sweep_cons_of_drop (h : drop c cs.head? = true) :
    sweep drop (c :: cs) = sweep drop cs := by
  rw [sweep, if_pos h]

theorem sweep_cons_of_keep (h : drop c cs.head? = false) :
    sweep drop (c :: cs) = c :: sweep drop cs := by
  rw [sweep, if_neg (by simp [h])]

/-- A pass leaves a text as it is exactly when it deletes nothing of it. -/
theorem sweep_eq_self_iff : sweep drop text = text ↔ Clean drop text := by
  induction text with
  | nil => exact ⟨fun _ => trivial, fun _ => rfl⟩
  | cons c cs ih =>
    cases hd : drop c cs.head? with
    | true =>
      rw [sweep_cons_of_drop hd]
      refine ⟨fun h => ?_, fun h => by simp [h.1] at hd⟩
      -- what is left of `cs` is no longer than `cs`
      have hlen : (sweep drop cs).length ≤ cs.length := by
        clear ih h hd
        induction cs with
        | nil => exact Nat.le_refl _
        | cons d ds ih =>
          unfold sweep
          split <;> simp only [List.length_cons] <;> omega
      rw [h, List.length_cons] at hlen
      omega
    | false =>
      rw [sweep_cons_of_keep hd, List.cons.injEq, ih]
      exact ⟨fun h => ⟨hd, h.2⟩, fun h => ⟨rfl, h.2⟩⟩

theorem sweep_cleared (h : Cleared drop mid post) :
    sweep drop (mid ++ post) = sweep drop post := by
  induction mid with
  | nil => rfl
  | cons c mid ih => rw [List.cons_append, sweep_cons_of_drop h.1, ih h.2]

theorem Kept.head?_sweep (h : Kept drop post) : (sweep drop post).head? = post.head? := by
  cases post with
  | nil => rfl
  | cons c cs => rw [sweep_cons_of_keep (h c cs rfl), List.head?_cons, List.head?_cons]

/-- Every text is a part that goes and a part whose first letter stays. -/
theorem exists_cleared (drop : α → Option α → Bool) (text : List α) :
    ∃ mid post, text = mid ++ post ∧ Cleared drop mid post ∧ Kept drop post := by
  induction text with
  | nil => exact ⟨[], [], rfl, trivial, by simp [Kept]⟩
  | cons c cs ih =>
    cases hd : drop c cs.head? with
    | true =>
      obtain ⟨mid, post, rfl, hmid, hpost⟩ := ih
      exact ⟨c :: mid, post, rfl, ⟨hd, hmid⟩, hpost⟩
    | false =>
      refine ⟨[], c :: cs, rfl, trivial, fun d ds h => ?_⟩
      cases h
      exact hd

theorem uncovers_cons :
    Uncovers drop (c :: cs) ↔
      (∃ mid post, cs = mid ++ post ∧ Uncovered drop c mid post) ∨ Uncovers drop cs := by
  constructor
  · rintro ⟨pre, d, mid, post, heq, h⟩
    cases pre with
    | nil =>
      cases heq
      exact .inl ⟨mid, post, rfl, h⟩
    | cons e pre =>
      cases heq
      exact .inr ⟨pre, d, mid, post, rfl, h⟩
  · rintro (⟨mid, post, rfl, h⟩ | ⟨pre, d, mid, post, rfl, h⟩)
    · exact ⟨[], c, mid, post, rfl, h⟩
    · exact ⟨c :: pre, d, mid, post, rfl, h⟩

/-- A letter that stays is clean in the output exactly when nothing uncovers it. -/
theorem drop_head?_sweep (h : drop c cs.head? = false) :
    drop c (sweep drop cs).head? = true ↔
      ∃ mid post, cs = mid ++ post ∧ Uncovered drop c mid post := by
  constructor
  · intro hd
    obtain ⟨mid, post, rfl, hmid, hpost⟩ := exists_cleared drop cs
    rw [sweep_cleared hmid, hpost.head?_sweep] at hd
    exact ⟨mid, post, rfl, h, hmid, hpost, hd⟩
  · rintro ⟨mid, post, rfl, hu⟩
    rw [sweep_cleared hu.cleared, hu.kept.head?_sweep]
    exact hu.drops

/-- The output of a pass is clean exactly when no deletion uncovers a letter to delete. -/
theorem clean_sweep_iff : Clean drop (sweep drop text) ↔ ¬Uncovers drop text := by
  induction text with
  | nil => simp [sweep, Clean, Uncovers]
  | cons c cs ih =>
    rw [uncovers_cons]
    cases hd : drop c cs.head? with
    | true =>
      rw [sweep_cons_of_drop hd, ih]
      refine not_congr ⟨.inr, fun h => h.resolve_left ?_⟩
      rintro ⟨mid, post, rfl, hu⟩
      rw [hu.stays] at hd
      cases hd
    | false =>
      rw [sweep_cons_of_keep hd, Clean, ih, ← drop_head?_sweep hd, not_or, Bool.not_eq_true]

end VoiceAgent.Sweep
