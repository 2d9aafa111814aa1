import Mathlib.Logic.Function.Basic

/-!
Coroutines of a cooperative scheduler as resumption trees. A coroutine reads
and writes one shared state and gives up control only at an `await`, which
names the site where it stops; the scheduler hands a reply back when it resumes.
Between two awaits a coroutine is deterministic and atomic.
Exceptions are part of the tree, so `attempt` gives catch and finally.
-/
namespace VoiceAgent.Coroutine

/-- `ε` exceptions, `σ` shared state, `Λ` await sites, `ι` replies. -/
inductive Coro (ε σ Λ ι α : Type) : Type
  | ret (a : α)
  | raise (e : ε)
  | read (k : σ → Coro ε σ Λ ι α)
  | write (s : σ) (k : Coro ε σ Λ ι α)
  | await (l : Λ) (k : ι → Coro ε σ Λ ι α)

variable {ε σ Λ ι α β : Type}

namespace Coro

def bind : Coro ε σ Λ ι α → (α → Coro ε σ Λ ι β) → Coro ε σ Λ ι β
  | ret a, f => f a
  | raise e, _ => raise e
  | read k, f => read fun s => (k s).bind f
  | write s k, f => write s (k.bind f)
  | await l k, f => await l fun i => (k i).bind f

/-- An exception becomes a value, so that the caller can go on. -/
def attempt : Coro ε σ Λ ι α → Coro ε σ Λ ι (Except ε α)
  | ret a => ret (.ok a)
  | raise e => ret (.error e)
  | read k => read fun s => (k s).attempt
  | write s k => write s k.attempt
  | await l k => await l fun i => (k i).attempt

instance : Monad (Coro ε σ Λ ι) where
  pure := ret
  bind := bind

instance : MonadStateOf σ (Coro ε σ Λ ι) where
  get := read ret
  set s := write s (ret ())
  modifyGet f := read fun s => write (f s).2 (ret (f s).1)

/-- Stop at site `l` until the scheduler replies. -/
def pause (l : Λ) : Coro ε σ Λ ι ι := await l ret

def handle (c : Coro ε σ Λ ι α) (h : ε → Coro ε σ Λ ι α) : Coro ε σ Λ ι α :=
  c.attempt.bind fun r => match r with
    | .ok a => ret a
    | .error e => h e

/-- Run `last` on every way out of `c`; an exception of `last` replaces that of `c`. -/
def ensure (c : Coro ε σ Λ ι α) (last : Coro ε σ Λ ι Unit) : Coro ε σ Λ ι α :=
  c.attempt.bind fun r => last.bind fun _ => match r with
    | .ok a => ret a
    | .error e => raise e

/-- Where a coroutine stands when it gives up control. -/
inductive Outcome (ε σ Λ ι α : Type)
  | returned (a : α)
  | raised (e : ε)
  | paused (l : Λ) (k : ι → Coro ε σ Λ ι α)

/-- Run up to the next await. -/
def run : Coro ε σ Λ ι α → σ → σ × Outcome ε σ Λ ι α
  | ret a, s => (s, .returned a)
  | raise e, s => (s, .raised e)
  | read k, s => (k s).run s
  | write s k, _ => k.run s
  | await l k, s => (s, .paused l k)

end Coro

/-- The shared state, and the await site at which each task is stopped. -/
structure View (τ Λ σ : Type) where
  shared : σ
  site : τ → Λ

namespace View

variable {τ : Type} [DecidableEq τ]

/-- Task `t` has left the shared state `s` and stopped at `l`. -/
def stop (v : View τ Λ σ) (t : τ) (l : Λ) (s : σ) : View τ Λ σ :=
  ⟨s, Function.update v.site t l⟩

@[simp] theorem stop_shared (v : View τ Λ σ) (t : τ) (l : Λ) (s : σ) :
    (v.stop t l s).shared = s := rfl

@[simp] theorem stop_site_self (v : View τ Λ σ) (t : τ) (l : Λ) (s : σ) :
    (v.stop t l s).site t = l := by simp [stop]

@[simp] theorem stop_stop (v : View τ Λ σ) (t : τ) (l l' : Λ) (s s' : σ) :
    (v.stop t l s).stop t l' s' = v.stop t l' s' := by simp [stop]

theorem stop_self {v : View τ Λ σ} {t : τ} {l : Λ} (h : v.site t = l) :
    v.stop t l v.shared = v := by
  subst h
  simp [stop]

theorem stop_site_of_ne (v : View τ Λ σ) {t u : τ} (h : u ≠ t) (l : Λ) (s : σ) :
    (v.stop t l s).site u = v.site u := by simp [stop, h]

end View

/-- What a proof about interleaved tasks assumes and keeps: the invariant at
every await, what each task relies on the others to keep while it is stopped,
and which replies the scheduler may give. -/
structure Contract (τ Λ σ ι : Type) where
  inv : View τ Λ σ → Prop
  rely : τ → View τ Λ σ → View τ Λ σ → Prop
  allowed : View τ Λ σ → τ → ι → Prop

namespace Contract

variable {τ : Type} [DecidableEq τ]

/-- Task `t`, resumed at `v`, may stop at `l` with shared state `s`. -/
def Stops (C : Contract τ Λ σ ι) (t : τ) (l : Λ) (v : View τ Λ σ) (s : σ) : Prop :=
  C.inv (v.stop t l s) ∧ ∀ u, u ≠ t → C.rely u v (v.stop t l s)

end Contract

open Coro

section Wp
variable {τ : Type} [DecidableEq τ] (C : Contract τ Λ σ ι) (t : τ)

/-- Every segment of the coroutine keeps the contract and it ends in `Q` or `E`.
`v` is the view in which task `t` was resumed last, `s` the state by now. -/
def Wp (Q : α → View τ Λ σ → σ → Prop) (E : ε → View τ Λ σ → σ → Prop) :
    Coro ε σ Λ ι α → View τ Λ σ → σ → Prop
  | .ret a, v, s => Q a v s
  | .raise e, v, s => E e v s
  | .read k, v, s => Wp Q E (k s) v s
  | .write s k, v, _ => Wp Q E k v s
  | .await l k, v, s => C.Stops t l v s ∧
      ∀ v' i, C.rely t (v.stop t l s) v' → C.inv v' → v'.site t = l → C.allowed v' t i →
        Wp Q E (k i) v' v'.shared

variable {C t} {Q : α → View τ Λ σ → σ → Prop} {E : ε → View τ Λ σ → σ → Prop}
  {v : View τ Λ σ} {s : σ}

@[simp] theorem wp_pure (a : α) : Wp C t Q E (pure a) v s ↔ Q a v s := Iff.rfl

theorem wp_bind' (c : Coro ε σ Λ ι β) (f : β → Coro ε σ Λ ι α) :
    Wp C t Q E (c.bind f) v s ↔ Wp C t (fun b v s => Wp C t Q E (f b) v s) E c v s := by
  induction c generalizing v s with
  | ret b => exact Iff.rfl
  | raise e => exact Iff.rfl
  | read k ih => exact ih s
  | write s k ih => exact ih
  | await l k ih =>
    simp only [Coro.bind, Wp]
    refine and_congr_right fun _ => ?_
    exact forall_congr' fun v' => forall_congr' fun i =>
      imp_congr_right fun _ => imp_congr_right fun _ => imp_congr_right fun _ =>
        imp_congr_right fun _ => ih i

@[simp] theorem wp_bind (c : Coro ε σ Λ ι β) (f : β → Coro ε σ Λ ι α) :
    Wp C t Q E (c >>= f) v s ↔ Wp C t (fun b v s => Wp C t Q E (f b) v s) E c v s :=
  wp_bind' c f

theorem wp_attempt {Q : Except ε α → View τ Λ σ → σ → Prop} (c : Coro ε σ Λ ι α) :
    Wp C t Q E c.attempt v s ↔
      Wp C t (fun a v s => Q (.ok a) v s) (fun e v s => Q (.error e) v s) c v s := by
  induction c generalizing v s with
  | ret a => exact Iff.rfl
  | raise e => exact Iff.rfl
  | read k ih => exact ih s
  | write s k ih => exact ih
  | await l k ih =>
    simp only [attempt, Wp]
    refine and_congr_right fun _ => ?_
    exact forall_congr' fun v' => forall_congr' fun i =>
      imp_congr_right fun _ => imp_congr_right fun _ => imp_congr_right fun _ =>
        imp_congr_right fun _ => ih i

@[simp] theorem wp_handle (c : Coro ε σ Λ ι α) (h : ε → Coro ε σ Λ ι α) :
    Wp C t Q E (c.handle h) v s ↔ Wp C t Q (fun e v s => Wp C t Q E (h e) v s) c v s := by
  rw [handle, wp_bind', wp_attempt]
  exact Iff.rfl

@[simp] theorem wp_ensure (c : Coro ε σ Λ ι α) (last : Coro ε σ Λ ι Unit) :
    Wp C t Q E (c.ensure last) v s ↔
      Wp C t (fun a v s => Wp C t (fun _ v s => Q a v s) E last v s)
        (fun e v s => Wp C t (fun _ v s => E e v s) E last v s) c v s := by
  rw [ensure, wp_bind', wp_attempt]
  simp only [wp_bind', Wp]

@[simp] theorem wp_raise (e : ε) : Wp C t Q E (raise e) v s ↔ E e v s := Iff.rfl

@[simp] theorem wp_get {Q : σ → View τ Λ σ → σ → Prop} :
    Wp C t Q E (get : Coro ε σ Λ ι σ) v s ↔ Q s v s := Iff.rfl

@[simp] theorem wp_set {Q : PUnit → View τ Λ σ → σ → Prop} (s' : σ) :
    Wp C t Q E (set s' : Coro ε σ Λ ι PUnit) v s ↔ Q () v s' := Iff.rfl

@[simp] theorem wp_modify {Q : PUnit → View τ Λ σ → σ → Prop} (f : σ → σ) :
    Wp C t Q E (modify f : Coro ε σ Λ ι PUnit) v s ↔ Q () v (f s) := Iff.rfl

@[simp] theorem wp_modifyGet (f : σ → α × σ) :
    Wp C t Q E (modifyGet f : Coro ε σ Λ ι α) v s ↔ Q (f s).1 v (f s).2 := Iff.rfl

/-- At an await the contract is kept, and whatever the others do next is met. -/
theorem wp_pause {Q : ι → View τ Λ σ → σ → Prop} (l : Λ) :
    Wp C t Q E (pause l : Coro ε σ Λ ι ι) v s ↔ C.Stops t l v s ∧
      ∀ v' i, C.rely t (v.stop t l s) v' → C.inv v' → v'.site t = l → C.allowed v' t i →
        Q i v' v'.shared := Iff.rfl

theorem wp_mono {Q' : α → View τ Λ σ → σ → Prop} {E' : ε → View τ Λ σ → σ → Prop}
    (hQ : ∀ a v s, Q a v s → Q' a v s) (hE : ∀ e v s, E e v s → E' e v s)
    {c : Coro ε σ Λ ι α} (h : Wp C t Q E c v s) : Wp C t Q' E' c v s := by
  induction c generalizing v s with
  | ret a => exact hQ a v s h
  | raise e => exact hE e v s h
  | read k ih => exact ih s h
  | write s k ih => exact ih h
  | await l k ih =>
    exact ⟨h.1, fun v' i hr hi hl ha => ih i (h.2 v' i hr hi hl ha)⟩

end Wp

section Alone
variable {i : ι} {s : σ}

/-- Run to the end a coroutine that raises nothing and that is handed `i` at every
await, with no other task in between. -/
def alone (i : ι) : Coro Empty σ Λ ι α → σ → α × σ
  | .ret a, s => (a, s)
  | .read k, s => alone i (k s) s
  | .write s k, _ => alone i k s
  | .await _ k, s => alone i (k i) s

@[simp] theorem alone_pure (a : α) : alone i (pure a : Coro Empty σ Λ ι α) s = (a, s) := rfl

@[simp] theorem alone_bind (c : Coro Empty σ Λ ι β) (f : β → Coro Empty σ Λ ι α) :
    alone i (c >>= f) s = alone i (f (alone i c s).1) (alone i c s).2 := by
  change alone i (c.bind f) s = _
  induction c generalizing s with
  | ret b => rfl
  | raise e => exact e.elim
  | read k ih => exact ih s
  | write s' k ih => exact ih
  | await l k ih => exact ih i

@[simp] theorem alone_get : alone i (get : Coro Empty σ Λ ι σ) s = (s, s) := rfl

@[simp] theorem alone_modify (f : σ → σ) :
    alone i (modify f : Coro Empty σ Λ ι PUnit) s = ((), f s) := rfl

@[simp] theorem alone_modifyGet (f : σ → α × σ) :
    alone i (modifyGet f : Coro Empty σ Λ ι α) s = f s := rfl

@[simp] theorem alone_pause (l : Λ) :
    alone i (Coro.pause l : Coro Empty σ Λ ι ι) s = (i, s) := rfl

end Alone

section Frame
variable {R : σ → σ → Prop}

/-- Every write of the coroutine is one that `R` allows, whatever it finds after its awaits. -/
def Within (R : σ → σ → Prop) : Coro ε σ Λ ι α → σ → Prop
  | .ret _, _ => True
  | .raise _, _ => True
  | .read k, s => Within R (k s) s
  | .write s' k, s => R s s' ∧ Within R k s'
  | .await _ k, _ => ∀ i s', Within R (k i) s'

/-- The coroutine stays within `R` from every state. -/
structure Always (R : σ → σ → Prop) (c : Coro ε σ Λ ι α) : Prop where
  within : ∀ s, Within R c s

theorem Within.bind {c : Coro ε σ Λ ι β} {f : β → Coro ε σ Λ ι α} {s : σ} (hc : Within R c s)
    (hf : ∀ b, Always R (f b)) : Within R (c.bind f) s := by
  induction c generalizing s with
  | ret b => exact (hf b).within s
  | raise e => trivial
  | read k ih => exact ih s hc
  | write s' k ih => exact ⟨hc.1, ih hc.2⟩
  | await l k ih => exact fun i s' => ih i (hc i s')

theorem Always.bind {c : Coro ε σ Λ ι β} {f : β → Coro ε σ Λ ι α} (hc : Always R c)
    (hf : ∀ b, Always R (f b)) : Always R (c >>= f) := ⟨fun s => (hc.within s).bind hf⟩

theorem Within.attempt {c : Coro ε σ Λ ι α} {s : σ} (hc : Within R c s) :
    Within R c.attempt s := by
  induction c generalizing s with
  | ret a => trivial
  | raise e => trivial
  | read k ih => exact ih s hc
  | write s' k ih => exact ⟨hc.1, ih hc.2⟩
  | await l k ih => exact fun i s' => ih i (hc i s')

theorem Always.handle {c : Coro ε σ Λ ι α} {h : ε → Coro ε σ Λ ι α} (hc : Always R c)
    (hh : ∀ e, Always R (h e)) : Always R (c.handle h) := by
  refine ⟨fun s => (hc.within s).attempt.bind fun r => ?_⟩
  cases r with
  | ok a => exact ⟨fun _ => trivial⟩
  | error e => exact hh e

theorem Always.ensure {c : Coro ε σ Λ ι α} {last : Coro ε σ Λ ι Unit} (hc : Always R c)
    (hl : Always R last) : Always R (c.ensure last) := by
  refine ⟨fun s => (hc.within s).attempt.bind fun r => ⟨fun s => (hl.within s).bind fun _ => ?_⟩⟩
  cases r with
  | ok a => exact ⟨fun _ => trivial⟩
  | error e => exact ⟨fun _ => trivial⟩

theorem Always.raise (e : ε) : Always R (Coro.raise e : Coro ε σ Λ ι α) := ⟨fun _ => trivial⟩

theorem Always.pure (a : α) : Always R (pure a : Coro ε σ Λ ι α) := ⟨fun _ => trivial⟩

theorem Always.get : Always R (get : Coro ε σ Λ ι σ) := ⟨fun _ => trivial⟩

theorem Always.pause (l : Λ) : Always R (Coro.pause l : Coro ε σ Λ ι ι) :=
  ⟨fun _ _ _ => trivial⟩

theorem Always.modify {f : σ → σ} (h : ∀ s, R s (f s)) :
    Always R (modify f : Coro ε σ Λ ι PUnit) := ⟨fun s => ⟨h s, trivial⟩⟩

theorem Always.modifyGet {f : σ → α × σ} (h : ∀ s, R s (f s).2) :
    Always R (modifyGet f : Coro ε σ Λ ι α) := ⟨fun s => ⟨h s, trivial⟩⟩

theorem Always.ite {p : Prop} [Decidable p] {c d : Coro ε σ Λ ι α} (hc : Always R c)
    (hd : Always R d) : Always R (if p then c else d) := by
  split
  · exact hc
  · exact hd

variable {τ : Type} [DecidableEq τ] {C : Contract τ Λ σ ι} {t : τ}

/-- A coroutine whose writes keep `J`, where `J` lets it stop and what the others do meanwhile
keeps `J`, keeps the contract. -/
theorem wp_of_stable {J : View τ Λ σ → σ → Prop} (hstop : ∀ l v s, J v s → C.Stops t l v s)
    (hstep : ∀ v s s', J v s → R s s' → J v s')
    (hresume : ∀ l v s v', J v s → C.rely t (v.stop t l s) v' → C.inv v' → J v' v'.shared)
    {c : Coro ε σ Λ ι α} {v : View τ Λ σ} {s : σ} (hc : Within R c s) (hs : J v s) :
    Wp C t (fun _ => J) (fun _ => J) c v s := by
  induction c generalizing v s with
  | ret a => exact hs
  | raise e => exact hs
  | read k ih => exact ih s hc hs
  | write s' k ih => exact ih hc.2 (hstep v s s' hs hc.1)
  | await l k ih =>
    refine ⟨hstop l v s hs, fun v' i hr hi _ _ => ih i (hc i v'.shared) ?_⟩
    exact hresume l v s v' hs hr hi

/-- Where the invariant gives `J` back, nothing need be known of the others. -/
theorem wp_of_within {J : View τ Λ σ → σ → Prop} (hstop : ∀ l v s, J v s → C.Stops t l v s)
    (hstep : ∀ v s s', J v s → R s s' → J v s') (hresume : ∀ v, C.inv v → J v v.shared)
    {c : Coro ε σ Λ ι α} {v : View τ Λ σ} {s : σ} (hc : Within R c s) (hs : J v s) :
    Wp C t (fun _ => J) (fun _ => J) c v s :=
  wp_of_stable hstop hstep (fun _ _ _ v' _ _ hi => hresume v' hi) hc hs

end Frame

end VoiceAgent.Coroutine
