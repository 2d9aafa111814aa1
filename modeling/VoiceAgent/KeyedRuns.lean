import Mathlib.Data.List.Forall2
import Mathlib.Data.List.Induction
import Mathlib.Logic.Function.Basic

/-!
Calls on states that are kept under keys. A call reads and writes the state of its own key, and
may take a number from a counter that all keys share. What a key's calls return and leave is what
they would if no other key were ever called, but for the numbers; and these only grow.
-/
namespace VoiceAgent.KeyedRuns

section Runs
variable {ι κ σ ρ : Type} [DecidableEq κ]

/-- What a call does under its key: the state it leaves, what it returns, and whether it has taken
the number offered to it. -/
structure Outcome (σ ρ : Type) where
  state : σ
  reply : ρ
  counted : Bool

structure Machine (ι κ σ ρ : Type) where
  key : ι → κ
  init : σ
  act : ι → ℕ → σ → Outcome σ ρ

/-- The counter, the states and the replies so far, each with its call. -/
structure Table (ι κ σ ρ : Type) where
  next : ℕ
  states : κ → σ
  replies : List (ι × ρ)

variable (M : Machine ι κ σ ρ)

def start : Table ι κ σ ρ := ⟨1, fun _ => M.init, []⟩

def perform (t : Table ι κ σ ρ) (i : ι) : Table ι κ σ ρ :=
  let done := M.act i t.next (t.states (M.key i))
  { next := if done.counted then t.next + 1 else t.next
    states := Function.update t.states (M.key i) done.state
    replies := t.replies ++ [(i, done.reply)] }

def run (calls : List ι) : Table ι κ σ ρ := calls.foldl (perform M) (start M)

/-- The replies to the calls of a key. -/
def repliesOf (k : κ) (t : Table ι κ σ ρ) : List ρ :=
  (t.replies.filter fun r => M.key r.1 = k).map Prod.snd

def callsOf (k : κ) (calls : List ι) : List ι := calls.filter fun i => M.key i = k

variable {M} {k : κ} {i : ι} {t : Table ι κ σ ρ} {calls : List ι}

theorem run_snoc : run M (calls ++ [i]) = perform M (run M calls) i := by
  rw [run, List.foldl_append]
  rfl

theorem perform_states_self : (perform M t i).states (M.key i) =
    (M.act i t.next (t.states (M.key i))).state :=
  Function.update_self ..

theorem perform_states_other (h : M.key i ≠ k) : (perform M t i).states k = t.states k :=
  Function.update_of_ne (Ne.symm h) ..

theorem repliesOf_self : repliesOf M (M.key i) (perform M t i) =
    repliesOf M (M.key i) t ++ [(M.act i t.next (t.states (M.key i))).reply] := by
  simp [repliesOf, perform, List.filter_append]

theorem repliesOf_other (h : M.key i ≠ k) : repliesOf M k (perform M t i) = repliesOf M k t := by
  simp [repliesOf, perform, List.filter_append, h]

/-- Rule for invariants that know the counter. -/
theorem run_counted {P : ℕ → σ → Prop} (hinit : P 1 M.init)
    (hmono : ∀ n s, P n s → P (n + 1) s)
    (hact : ∀ i n s, P n s → P (if (M.act i n s).counted then n + 1 else n) (M.act i n s).state)
    (calls : List ι) (k : κ) : P (run M calls).next ((run M calls).states k) := by
  induction calls using List.reverseRecOn with
  | nil => exact hinit
  | append_singleton calls i ih =>
    rw [run_snoc]
    by_cases hk : M.key i = k
    · subst hk
      rw [perform_states_self]
      exact hact i _ _ ih
    · rw [perform_states_other hk, perform]
      dsimp only
      split
      · exact hmono _ _ ih
      · exact ih

/-- Isolation: a key's state and its replies are those of a run of its own calls, up to relations
that do not look at the numbers. -/
theorem run_isolated {R : σ → σ → Prop} {Q : ρ → ρ → Prop} (hinit : R M.init M.init)
    (hact : ∀ i n n' s s', R s s' → R (M.act i n s).state (M.act i n' s').state ∧
      Q (M.act i n s).reply (M.act i n' s').reply) (calls : List ι) (k : κ) :
    R ((run M calls).states k) ((run M (callsOf M k calls)).states k) ∧
      List.Forall₂ Q (repliesOf M k (run M calls))
        (repliesOf M k (run M (callsOf M k calls))) := by
  induction calls using List.reverseRecOn with
  | nil => exact ⟨hinit, .nil⟩
  | append_singleton calls i ih =>
    by_cases hk : M.key i = k
    · subst hk
      have hcalls : callsOf M (M.key i) (calls ++ [i]) = callsOf M (M.key i) calls ++ [i] := by
        simp [callsOf, List.filter_append]
      rw [hcalls, run_snoc, run_snoc, perform_states_self, perform_states_self, repliesOf_self,
        repliesOf_self]
      obtain ⟨hstate, hreply⟩ := hact i (run M calls).next
        (run M (callsOf M (M.key i) calls)).next _ _ ih.1
      exact ⟨hstate, List.rel_append ih.2 (.cons hreply .nil)⟩
    · have hcalls : callsOf M k (calls ++ [i]) = callsOf M k calls := by
        simp [callsOf, List.filter_append, hk]
      rw [hcalls, run_snoc, perform_states_other hk, repliesOf_other hk]
      exact ih

end Runs

section Since
variable {α : Type} {P Q : α → Prop} {h : List α} {y : α}

/-- Something with `P` has happened, and only what `Q` allows since then. -/
def Since (P Q : α → Prop) (h : List α) : Prop :=
  ∃ before x after, h = before ++ x :: after ∧ P x ∧ ∀ y ∈ after, Q y

theorem not_since_nil : ¬Since P Q [] := by
  rintro ⟨before, x, after, heq, -⟩
  cases before <;> cases heq

theorem since_snoc : Since P Q (h ++ [y]) ↔ P y ∨ Since P Q h ∧ Q y := by
  constructor
  · rintro ⟨before, x, after, heq, hx, hafter⟩
    rcases List.eq_nil_or_concat after with rfl | ⟨after', z, rfl⟩
    · obtain ⟨-, hlast⟩ := List.append_inj' heq rfl
      cases hlast
      exact .inl hx
    · have hinit : h ++ [y] = (before ++ x :: after') ++ [z] := by simpa using heq
      obtain ⟨hfront, hlast⟩ := List.append_inj' hinit rfl
      cases hlast
      exact .inr ⟨⟨before, x, after', hfront, hx, fun w hw => hafter w (by simp [hw])⟩,
        hafter y (by simp)⟩
  · rintro (hy | ⟨⟨before, x, after, rfl, hx, hafter⟩, hy⟩)
    · exact ⟨h, y, [], rfl, hy, by simp⟩
    · refine ⟨before, x, after ++ [y], by simp, hx, fun w hw => ?_⟩
      rcases List.mem_append.mp hw with hw | hw
      · exact hafter w hw
      · rw [List.mem_singleton.mp hw]
        exact hy

end Since

end VoiceAgent.KeyedRuns
