import VoiceAgent.Coroutine
import Mathlib.Logic.Relation

/-!
A pool of coroutines that take turns at their awaits. Every task is an endless
loop: at its head it awaits the next piece of work, and its body ends by saying
where the loop stands. `Contract.invariant` is the rule by which a contract kept
by every segment of every body holds in every state any interleaving reaches.
-/
namespace VoiceAgent.Interleaving

open Coroutine

/-- `β` is what a loop remembers from one turn to the next. -/
structure System (ε σ Λ ι τ β : Type) where
  head : τ → β → Λ
  body : τ → β → ι → Coro ε σ Λ ι β
  crash : τ → ε → β

/-- A stopped task: its await site and what it does with the reply. -/
abbrev Suspended (ε σ Λ ι β : Type) := Λ × (ι → Coro ε σ Λ ι β)

structure Pool (ε σ Λ ι τ β : Type) where
  shared : σ
  task : τ → Suspended ε σ Λ ι β

variable {ε σ Λ ι τ β : Type}

namespace Pool

def view (p : Pool ε σ Λ ι τ β) : View τ Λ σ := ⟨p.shared, fun t => (p.task t).1⟩

end Pool

namespace System

variable (S : System ε σ Λ ι τ β)

def atHead (t : τ) (b : β) : Suspended ε σ Λ ι β := (S.head t b, S.body t b)

def settle (t : τ) : Coro.Outcome ε σ Λ ι β → Suspended ε σ Λ ι β
  | .returned b => S.atHead t b
  | .raised e => S.atHead t (S.crash t e)
  | .paused l k => (l, k)

def start (s : σ) (b : τ → β) : Pool ε σ Λ ι τ β := ⟨s, fun t => S.atHead t (b t)⟩

variable [DecidableEq τ]

/-- Hand reply `i` to task `t`, which runs to its next await. -/
def resume (p : Pool ε σ Λ ι τ β) (t : τ) (i : ι) : Pool ε σ Λ ι τ β :=
  let r := ((p.task t).2 i).run p.shared
  ⟨r.1, Function.update p.task t (S.settle t r.2)⟩

/-- One turn of a task, or one change made from outside the pool. -/
inductive Step (allowed : View τ Λ σ → τ → ι → Prop) (env : View τ Λ σ → σ → Prop) :
    Pool ε σ Λ ι τ β → Pool ε σ Λ ι τ β → Prop
  | turn (p : Pool ε σ Λ ι τ β) (t : τ) (i : ι) (h : allowed p.view t i) :
      Step allowed env p (S.resume p t i)
  | outside (p : Pool ε σ Λ ι τ β) (s : σ) (h : env p.view s) :
      Step allowed env p ⟨s, p.task⟩

def Reach (allowed : View τ Λ σ → τ → ι → Prop) (env : View τ Λ σ → σ → Prop)
    (p q : Pool ε σ Λ ι τ β) : Prop :=
  Relation.ReflTransGen (S.Step allowed env) p q

variable {S} {allowed allowed' : View τ Λ σ → τ → ι → Prop} {env env' : View τ Λ σ → σ → Prop}

theorem Step.mono {p q : Pool ε σ Λ ι τ β} (h : S.Step allowed env p q)
    (ht : ∀ t i, allowed p.view t i → allowed' p.view t i)
    (he : ∀ s, env p.view s → env' p.view s) : S.Step allowed' env' p q := by
  cases h with
  | turn t i h => exact .turn p t i (ht t i h)
  | outside s h => exact .outside p s (he s h)

theorem Reach.mono {p q : Pool ε σ Λ ι τ β} (h : S.Reach allowed env p q)
    (ht : ∀ v t i, allowed v t i → allowed' v t i) (he : ∀ v s, env v s → env' v s) :
    S.Reach allowed' env' p q := by
  induction h with
  | refl => exact .refl
  | tail _ hs ih => exact ih.tail (hs.mono (ht _) (he _))

/-- What holds of the states that a run reaches may be used of its outside changes. -/
theorem Reach.mono_reached {p q : Pool ε σ Λ ι τ β} (h : S.Reach allowed env p q)
    (he : ∀ r, S.Reach allowed env p r → ∀ s, env r.view s → env' r.view s) :
    S.Reach allowed env' p q := by
  induction h with
  | refl => exact .refl
  | tail hr hs ih => exact ih.tail (hs.mono (fun _ _ ha => ha) (he _ hr))

/-- A turn or an outside change, written down. -/
inductive Act (σ ι τ : Type)
  | turn (t : τ) (i : ι)
  | outside (s : σ → σ)

variable (S)

def play (p : Pool ε σ Λ ι τ β) : List (Act σ ι τ) → Pool ε σ Λ ι τ β
  | [] => p
  | .turn t i :: rest => play (S.resume p t i) rest
  | .outside f :: rest => play ⟨f p.shared, p.task⟩ rest

/-- A task that a script gives no turn stays where it is. -/
theorem play_task {p : Pool ε σ Λ ι τ β} {t : τ} {script : List (Act σ ι τ)}
    (h : ∀ i, .turn t i ∉ script) : (S.play p script).task t = p.task t := by
  induction script generalizing p with
  | nil => rfl
  | cons a rest ih =>
    have hrest : ∀ i, .turn t i ∉ rest := fun i hi => h i (List.mem_cons_of_mem _ hi)
    cases a with
    | turn u i =>
      have htu : t ≠ u := by
        rintro rfl
        exact h i List.mem_cons_self
      rw [play, ih hrest]
      simp [resume, htu]
    | outside f => exact ih hrest

/-- Every act of the script is open to the scheduler when its turn comes. -/
def Playable (allowed : View τ Λ σ → τ → ι → Prop) (env : View τ Λ σ → σ → Prop)
    (p : Pool ε σ Λ ι τ β) : List (Act σ ι τ) → Prop
  | [] => True
  | .turn t i :: rest => allowed p.view t i ∧ Playable allowed env (S.resume p t i) rest
  | .outside f :: rest => env p.view (f p.shared) ∧
      Playable allowed env ⟨f p.shared, p.task⟩ rest

/-- Whether a script can be played is settled by playing it. -/
instance decidablePlayable [∀ v t i, Decidable (allowed v t i)] [∀ v s, Decidable (env v s)] :
    ∀ (script : List (Act σ ι τ)) (p : Pool ε σ Λ ι τ β),
      Decidable (Playable S allowed env p script)
  | [], _ => .isTrue trivial
  | .turn t i :: rest, p =>
    have := decidablePlayable rest (S.resume p t i)
    inferInstanceAs (Decidable (_ ∧ _))
  | .outside f :: rest, p =>
    have := decidablePlayable rest (⟨f p.shared, p.task⟩ : Pool ε σ Λ ι τ β)
    inferInstanceAs (Decidable (_ ∧ _))

variable {S}

theorem reach_play {p : Pool ε σ Λ ι τ β} {script : List (Act σ ι τ)}
    (h : S.Playable allowed env p script) : S.Reach allowed env p (S.play p script) := by
  induction script generalizing p with
  | nil => exact .refl
  | cons a rest ih =>
    cases a with
    | turn t i => exact .head (.turn p t i h.1) (ih h.2)
    | outside f => exact .head (.outside p _ h.1) (ih h.2)

end System

section Soundness
variable [DecidableEq τ] (C : Contract τ Λ σ ι) (S : System ε σ Λ ι τ β)

/-- Where task `t` may leave its body. -/
def Ends (t : τ) (b : β) (v : View τ Λ σ) (s : σ) : Prop := C.Stops t (S.head t b) v s

/-- The obligations of a contract over a system. -/
structure Keeps (env : View τ Λ σ → σ → Prop) : Prop where
  refl : ∀ t v, C.rely t v v
  trans : ∀ t u v w, C.rely t u v → C.rely t v w → C.rely t u w
  outside : ∀ v s, C.inv v → env v s →
    C.inv ⟨s, v.site⟩ ∧ ∀ t, C.rely t v ⟨s, v.site⟩
  body : ∀ t b i v, C.inv v → v.site t = S.head t b → C.allowed v t i →
    Wp C t (fun b v s => Ends C S t b v s) (fun e v s => Ends C S t (S.crash t e) v s)
      (S.body t b i) v v.shared

/-- The suspended task is safe to resume from any view its rely leads to. -/
def Safe (t : τ) (c : Suspended ε σ Λ ι β) (v : View τ Λ σ) : Prop :=
  ∀ v' i, C.rely t v v' → C.inv v' → v'.site t = c.1 → C.allowed v' t i →
    Wp C t (fun b v s => Ends C S t b v s) (fun e v s => Ends C S t (S.crash t e) v s)
      (c.2 i) v' v'.shared

variable {C S} {env : View τ Λ σ → σ → Prop}

theorem safe_atHead (hK : Keeps C S env) (t : τ) (b : β) (v : View τ Λ σ) :
    Safe C S t (S.atHead t b) v :=
  fun v' i _ hi hl ha => hK.body t b i v' hi hl ha

/-- Running a coroutine that meets its obligations ends at a safe stop. -/
theorem run_safe (hK : Keeps C S env) (t : τ) {c : Coro ε σ Λ ι β} {v : View τ Λ σ} {s : σ}
    (h : Wp C t (fun b v s => Ends C S t b v s)
      (fun e v s => Ends C S t (S.crash t e) v s) c v s) :
    C.Stops t (S.settle t (c.run s).2).1 v (c.run s).1 ∧
      Safe C S t (S.settle t (c.run s).2)
        (v.stop t (S.settle t (c.run s).2).1 (c.run s).1) := by
  induction c generalizing s with
  | ret b => exact ⟨h, safe_atHead hK t b _⟩
  | raise e => exact ⟨h, safe_atHead hK t _ _⟩
  | read k ih => exact ih s h
  | write s' k ih => exact ih h
  | await l k => exact ⟨h.1, h.2⟩

theorem view_resume (p : Pool ε σ Λ ι τ β) (t : τ) (i : ι) :
    (S.resume p t i).view = p.view.stop t (S.settle t (((p.task t).2 i).run p.shared).2).1
      (((p.task t).2 i).run p.shared).1 := by
  simp only [System.resume, Pool.view, View.stop, View.mk.injEq, true_and]
  funext u
  by_cases hu : u = t
  · subst u
    simp
  · simp [hu]

/-- What holds between two turns: the invariant, and every task is safe. -/
def Good (C : Contract τ Λ σ ι) (S : System ε σ Λ ι τ β) (p : Pool ε σ Λ ι τ β) : Prop :=
  C.inv p.view ∧ ∀ t, Safe C S t (p.task t) p.view

/-- A turn keeps what holds between turns, and gives the other tasks what they rely on. -/
theorem Good.turn (hK : Keeps C S env) {p : Pool ε σ Λ ι τ β} (hp : Good C S p) {t : τ} {i : ι}
    (ha : C.allowed p.view t i) :
    Good C S (S.resume p t i) ∧ ∀ u, u ≠ t → C.rely u p.view (S.resume p t i).view := by
  obtain ⟨hstop, hsafe⟩ := run_safe hK t (hp.2 t p.view i (hK.refl t _) hp.1 rfl ha)
  change C.Stops t _ p.view _ at hstop
  refine ⟨⟨by rw [view_resume]; exact hstop.1, fun u => ?_⟩, fun u hu => ?_⟩
  · rw [view_resume]
    by_cases hu : u = t
    · subst u
      have hnew : (S.resume p t i).task t = S.settle t (((p.task t).2 i).run p.shared).2 := by
        simp [System.resume]
      rw [hnew]
      exact hsafe
    · have hsame : (S.resume p t i).task u = p.task u := by simp [System.resume, hu]
      rw [hsame]
      intro v' j hr hi hl hj
      exact hp.2 u v' j (hK.trans u _ _ _ (hstop.2 u hu) hr) hi hl hj
  · rw [view_resume]
    exact hstop.2 u hu

theorem good_step (hK : Keeps C S env) {p q : Pool ε σ Λ ι τ β} (hp : Good C S p)
    (h : S.Step C.allowed env p q) : Good C S q := by
  cases h with
  | turn t i ha => exact (hp.turn hK ha).1
  | outside s he =>
    obtain ⟨hinv, hrely⟩ := hK.outside p.view s hp.1 he
    refine ⟨hinv, fun u v' j hr hi hl hj => ?_⟩
    exact hp.2 u v' j (hK.trans u _ _ _ (hrely u) hr) hi hl hj

theorem Keeps.good (hK : Keeps C S env) {s : σ} {b : τ → β} (h0 : C.inv (S.start s b).view) :
    Good C S (S.start s b) :=
  ⟨h0, fun t => safe_atHead hK t (b t) _⟩

/-- A kept contract is an invariant of every interleaving. -/
theorem Keeps.invariant (hK : Keeps C S env) {s : σ} {b : τ → β}
    (h0 : C.inv (S.start s b).view) {p : Pool ε σ Λ ι τ β}
    (h : S.Reach C.allowed env (S.start s b) p) : C.inv p.view := by
  have hgood : Good C S p := by
    induction h with
    | refl => exact hK.good h0
    | tail _ hs ih => exact good_step hK ih hs
  exact hgood.1

end Soundness

end VoiceAgent.Interleaving
