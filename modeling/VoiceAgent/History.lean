import Mathlib.Data.List.Induction

/-!
Properties of a growing history that look back: every event is judged together
with what came before it. What is appended later never changes an earlier verdict.
-/
namespace VoiceAgent.History

variable {α : Type*} {P : List α → α → Prop} {log es : List α} {e : α}

/-- `P` holds of every event of the history and the events before it. -/
def Along (P : List α → α → Prop) (log : List α) : Prop :=
  ∀ pre e post, log = pre ++ e :: post → P pre e

@[simp] theorem along_nil : Along P [] := by
  intro pre e post h
  simp at h

theorem along_concat : Along P (log ++ [e]) ↔ Along P log ∧ P log e := by
  constructor
  · intro h
    refine ⟨fun pre e' post hlog => h pre e' (post ++ [e]) ?_, h log e [] rfl⟩
    simp [hlog]
  · rintro ⟨hlog, he⟩ pre e' post heq
    rcases List.eq_nil_or_concat post with rfl | ⟨init, last, rfl⟩
    · obtain ⟨rfl, rfl⟩ : log = pre ∧ e = e' := by simpa using heq
      exact he
    · have hinit : log ++ [e] = (pre ++ e' :: init) ++ [last] := by simpa using heq
      exact hlog pre e' init (List.append_inj_left' hinit rfl)

/-- Events that are right after any history may be appended together. -/
theorem Along.append (h : Along P log) (hes : ∀ pre, ∀ e ∈ es, P pre e) :
    Along P (log ++ es) := by
  induction es using List.reverseRecOn with
  | nil => simpa using h
  | append_singleton es e ih =>
    rw [← List.append_assoc, along_concat]
    exact ⟨ih fun pre e' he' => hes pre e' (List.mem_append_left _ he'), hes _ e (by simp)⟩

end VoiceAgent.History
