import VoiceAgent.Interleaving
import VoiceAgent.Zoom

/-!
What the tasks of a pool write, leg by leg: a leg goes from one await to the next. Where every
write of a task is one that it may make after the await and the reply its leg began with, a step
of the pool is a sequence of such moves of one task, whatever stands at the awaits in between.
-/
namespace VoiceAgent.Interleaving

open Coroutine Relation

variable {ε σ Λ ι τ β α γ : Type}

section Legs
variable {R : Λ → ι → σ → σ → Prop} {l : Λ} {i : ι} {s : σ}

/-- The writes of a leg from site `l` on reply `i`, and those of the legs after it. -/
def Leg (R : Λ → ι → σ → σ → Prop) : Coro ε σ Λ ι α → Λ → ι → σ → Prop
  | .ret _, _, _, _ => True
  | .raise _, _, _, _ => True
  | .read k, l, i, s => Leg R (k s) l i s
  | .write s' k, l, i, s => R l i s s' ∧ Leg R k l i s'
  | .await l k, _, _, _ => ∀ i s, Leg R (k i) l i s

/-- The coroutine may go on in any leg. -/
structure Legs (R : Λ → ι → σ → σ → Prop) (c : Coro ε σ Λ ι α) : Prop where
  leg : ∀ l i s, Leg R c l i s

theorem Leg.bind {c : Coro ε σ Λ ι γ} {f : γ → Coro ε σ Λ ι α} (hc : Leg R c l i s)
    (hf : ∀ b, Legs R (f b)) : Leg R (c.bind f) l i s := by
  induction c generalizing l i s with
  | ret b => exact (hf b).leg l i s
  | raise e => trivial
  | read k ih => exact ih s hc
  | write s' k ih => exact ⟨hc.1, ih hc.2⟩
  | await l k ih => exact fun i s => ih i (hc i s)

theorem Leg.attempt {c : Coro ε σ Λ ι α} (hc : Leg R c l i s) : Leg R c.attempt l i s := by
  induction c generalizing l i s with
  | ret a => trivial
  | raise e => trivial
  | read k ih => exact ih s hc
  | write s' k ih => exact ⟨hc.1, ih hc.2⟩
  | await l k ih => exact fun i s => ih i (hc i s)

theorem Legs.bind {c : Coro ε σ Λ ι γ} {f : γ → Coro ε σ Λ ι α} (hc : Legs R c)
    (hf : ∀ b, Legs R (f b)) : Legs R (c >>= f) := ⟨fun l i s => (hc.leg l i s).bind hf⟩

theorem Legs.attempt {c : Coro ε σ Λ ι α} (hc : Legs R c) : Legs R c.attempt :=
  ⟨fun l i s => (hc.leg l i s).attempt⟩

theorem Legs.raise (e : ε) : Legs R (Coro.raise e : Coro ε σ Λ ι α) := ⟨fun _ _ _ => trivial⟩

theorem Legs.pure (a : α) : Legs R (pure a : Coro ε σ Λ ι α) := ⟨fun _ _ _ => trivial⟩

theorem Legs.get : Legs R (get : Coro ε σ Λ ι σ) := ⟨fun _ _ _ => trivial⟩

@[simp] theorem leg_get {f : σ → Coro ε σ Λ ι α} : Leg R (get >>= f) l i s ↔ Leg R (f s) l i s :=
  Iff.rfl

theorem Legs.pause (l : Λ) : Legs R (Coro.pause l : Coro ε σ Λ ι ι) :=
  ⟨fun _ _ _ _ _ => trivial⟩

/-- After an await its own leg begins. -/
theorem Legs.await {f : ι → Coro ε σ Λ ι α} (h : ∀ i s, Leg R (f i) l i s) :
    Legs R (Coro.pause l >>= f) := ⟨fun _ _ _ => h⟩

theorem Legs.modify {f : σ → σ} (h : ∀ l i s, R l i s (f s)) :
    Legs R (modify f : Coro ε σ Λ ι PUnit) := ⟨fun l i s => ⟨h l i s, trivial⟩⟩

theorem Legs.modifyGet {f : σ → α × σ} (h : ∀ l i s, R l i s (f s).2) :
    Legs R (modifyGet f : Coro ε σ Λ ι α) := ⟨fun l i s => ⟨h l i s, trivial⟩⟩

theorem Legs.ite {p : Prop} [Decidable p] {c d : Coro ε σ Λ ι α} (hc : Legs R c)
    (hd : Legs R d) : Legs R (if p then c else d) := by
  split
  · exact hc
  · exact hd

theorem Legs.handle {c : Coro ε σ Λ ι α} {h : ε → Coro ε σ Λ ι α} (hc : Legs R c)
    (hh : ∀ e, Legs R (h e)) : Legs R (c.handle h) :=
  hc.attempt.bind fun r => match r with
    | .ok a => .pure a
    | .error e => hh e

/-- A coroutine that moves the same way in every leg. -/
theorem leg_within {M : σ → σ → Prop} {c : Coro ε σ Λ ι α} :
    Leg (fun _ _ => M) c l i s ↔ Within M c s := by
  induction c generalizing l i s with
  | ret a => exact Iff.rfl
  | raise e => exact Iff.rfl
  | read k ih => exact ih s
  | write s' k ih => exact and_congr_right fun _ => ih
  | await l k ih => exact forall_congr' fun i => forall_congr' fun s => ih i

theorem Leg.mono {R' : Λ → ι → σ → σ → Prop} (hR : ∀ l i s s', R l i s s' → R' l i s s')
    {c : Coro ε σ Λ ι α} (hc : Leg R c l i s) : Leg R' c l i s := by
  induction c generalizing l i s with
  | ret a => trivial
  | raise e => trivial
  | read k ih => exact ih s hc
  | write s' k ih => exact ⟨hR l i s s' hc.1, ih hc.2⟩
  | await l k ih => exact fun i s => ih i (hc i s)

theorem Legs.mono {R' : Λ → ι → σ → σ → Prop} (hR : ∀ l i s s', R l i s s' → R' l i s s')
    {c : Coro ε σ Λ ι α} (hc : Legs R c) : Legs R' c := ⟨fun l i s => (hc.leg l i s).mono hR⟩

theorem Leg.within {M : σ → σ → Prop} (hR : ∀ l i s s', R l i s s' → M s s')
    {c : Coro ε σ Λ ι α} (hc : Leg R c l i s) : Within M c s :=
  leg_within.mp (hc.mono hR)

/-- Through a zoom only the part is written. -/
theorem always_zoom {ε' σ' Λ' ι' : Type} {M : σ → σ → Prop} {Z : Zoom ε σ Λ ι ε' σ' Λ' ι'}
    (h : ∀ s x, M s (Z.put x s)) (c : Coro ε' σ' Λ' ι' α) : Always M (c.zoom Z) := by
  refine ⟨fun s => ?_⟩
  induction c generalizing s with
  | ret a => trivial
  | raise e => trivial
  | read k ih => exact ih _ s
  | write x k ih => exact ⟨h s x, ih _⟩
  | await l k ih => exact fun i s => ih _ s

/-- A run to the next await makes the moves of its leg, and what is left to do there makes
those of the next. -/
theorem run_leg {c : Coro ε σ Λ ι α} (h : Leg R c l i s) :
    ReflTransGen (R l i) s (c.run s).1 ∧
      ∀ l' k, (c.run s).2 = .paused l' k → ∀ j s', Leg R (k j) l' j s' := by
  induction c generalizing s with
  | ret a => exact ⟨.refl, fun l k hk => by cases hk⟩
  | raise e => exact ⟨.refl, fun l k hk => by cases hk⟩
  | read k ih => exact ih s h
  | write s' k ih =>
    obtain ⟨hmoves, hleft⟩ := ih h.2
    exact ⟨.head h.1 hmoves, hleft⟩
  | await l k ih =>
    refine ⟨.refl, fun l' k' hk => ?_⟩
    cases hk
    exact h

end Legs

section Pools
variable {S : System ε σ Λ ι τ β}

/-- Every stopped task goes on with the moves of its site. -/
def Paced (R : τ → Λ → ι → σ → σ → Prop) (p : Pool ε σ Λ ι τ β) : Prop :=
  ∀ t i s, Leg (R t) ((p.task t).2 i) (p.task t).1 i s

theorem paced_start {R : τ → Λ → ι → σ → σ → Prop} (hbody : ∀ t b i, Legs (R t) (S.body t b i))
    (s : σ) (b : τ → β) : Paced R (S.start s b) :=
  fun t i s' => (hbody t (b t) i).leg _ _ s'

/-- Step lemma: the task that has its turn makes the moves of its site. -/
theorem Paced.turn [DecidableEq τ] {R : τ → Λ → ι → σ → σ → Prop} {p : Pool ε σ Λ ι τ β}
    (hbody : ∀ t b i, Legs (R t) (S.body t b i)) (hp : Paced R p) (t : τ) (i : ι) :
    Paced R (S.resume p t i) ∧
      ReflTransGen (R t (p.view.site t) i) p.shared (S.resume p t i).shared := by
  obtain ⟨hmoves, hleft⟩ := run_leg (hp t i p.shared)
  refine ⟨fun u j s => ?_, hmoves⟩
  by_cases hu : u = t
  · subst hu
    have htask : (S.resume p u i).task u =
        S.settle u (((p.task u).2 i).run p.shared).2 := by simp [System.resume]
    rw [htask]
    cases hout : (((p.task u).2 i).run p.shared).2 with
    | returned b => exact (hbody u b j).leg _ _ s
    | raised e => exact (hbody u (S.crash u e) j).leg _ _ s
    | paused l k => exact hleft l k hout j s
  · have htask : (S.resume p t i).task u = p.task u := by simp [System.resume, hu]
    rw [htask]
    exact hp u j s

variable {R : τ → σ → σ → Prop} {p q : Pool ε σ Λ ι τ β}

/-- Every stopped task goes on with moves of its own. -/
def Tame (R : τ → σ → σ → Prop) (p : Pool ε σ Λ ι τ β) : Prop :=
  ∀ t i s, Within (R t) ((p.task t).2 i) s

theorem tame_start (hbody : ∀ t b i, Always (R t) (S.body t b i)) (s : σ) (b : τ → β) :
    Tame R (S.start s b) :=
  fun t i s' => (hbody t (b t) i).within s'

variable [DecidableEq τ] {allowed : View τ Λ σ → τ → ι → Prop} {env : View τ Λ σ → σ → Prop}

/-- Step lemma: one task moves, or somebody outside does. -/
theorem Tame.step (hbody : ∀ t b i, Always (R t) (S.body t b i)) (hp : Tame R p)
    (h : S.Step allowed env p q) :
    Tame R q ∧ ((∃ t, ReflTransGen (R t) p.shared q.shared) ∨ env p.view q.shared) := by
  have hlegs : ∀ t b i, Legs (fun _ _ => R t) (S.body t b i) := fun t b i =>
    ⟨fun _ _ s => leg_within.mpr ((hbody t b i).within s)⟩
  cases h with
  | turn t i ha =>
    have hpaced : Paced (fun t _ _ => R t) p := fun t i s => leg_within.mpr (hp t i s)
    obtain ⟨hq, hmoves⟩ := hpaced.turn hlegs t i
    exact ⟨fun u j s => leg_within.mp (hq u j s), .inl ⟨t, hmoves⟩⟩
  | outside s he => exact ⟨hp, .inr he⟩

end Pools

end VoiceAgent.Interleaving
