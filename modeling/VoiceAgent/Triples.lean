import VoiceAgent.Coroutine

/-!
Hoare triples for coroutines. A condition speaks of the view in which the task was resumed last
and of the state by now. It is stable if the task may stop under it and finds it again when it
goes on, whatever the others have done meanwhile; then awaits keep it, and so do programs all of
whose parts keep it.
-/
namespace VoiceAgent.Coroutine

open Coro

variable {ε σ Λ ι τ α β : Type} [DecidableEq τ]

/-- A condition under which the task may stop anywhere and go on. -/
structure Stable (C : Contract τ Λ σ ι) (t : τ) (J : View τ Λ σ → σ → Prop) : Prop where
  stops : ∀ l v s, J v s → C.Stops t l v s
  resumes : ∀ l v s v', J v s → C.rely t (v.stop t l s) v' → C.inv v' → J v' v'.shared

/-- From `J` the program keeps the contract and ends in `Q`, or raises in `E`. -/
structure Triple (C : Contract τ Λ σ ι) (t : τ) (J : View τ Λ σ → σ → Prop)
    (c : Coro ε σ Λ ι α) (Q : α → View τ Λ σ → σ → Prop) (E : ε → View τ Λ σ → σ → Prop) :
    Prop where
  wp : ∀ v s, J v s → Wp C t Q E c v s

/-- The program keeps `J`, however it ends. -/
abbrev Kept (C : Contract τ Λ σ ι) (t : τ) (J : View τ Λ σ → σ → Prop) (c : Coro ε σ Λ ι α) :
    Prop :=
  Triple C t J c (fun _ => J) (fun _ => J)

section Rules
variable {C : Contract τ Λ σ ι} {t : τ} {J J' : View τ Λ σ → σ → Prop}
  {Q Q' : α → View τ Λ σ → σ → Prop} {E E' : ε → View τ Λ σ → σ → Prop} {c : Coro ε σ Λ ι α}

theorem Triple.bind {K : β → View τ Λ σ → σ → Prop} {c : Coro ε σ Λ ι β}
    {f : β → Coro ε σ Λ ι α} (hc : Triple C t J c K E) (hf : ∀ b, Triple C t (K b) (f b) Q E) :
    Triple C t J (c >>= f) Q E :=
  ⟨fun v s hs => (wp_bind c f).mpr
    (wp_mono (fun b v s hb => (hf b).wp v s hb) (fun _ _ _ he => he) (hc.wp v s hs))⟩

theorem Triple.conseq (h : Triple C t J c Q E) (hJ : ∀ v s, J' v s → J v s)
    (hQ : ∀ a v s, Q a v s → Q' a v s) (hE : ∀ e v s, E e v s → E' e v s) :
    Triple C t J' c Q' E' :=
  ⟨fun v s hs => wp_mono hQ hE (h.wp v s (hJ v s hs))⟩

theorem Triple.pure (a : α) (h : ∀ v s, J v s → Q a v s) :
    Triple C t J (pure a : Coro ε σ Λ ι α) Q E := ⟨h⟩

theorem Triple.raise (e : ε) (h : ∀ v s, J v s → E e v s) :
    Triple C t J (Coro.raise e : Coro ε σ Λ ι α) Q E := ⟨h⟩

/-- What has been read is known of the state. -/
theorem Triple.get {f : σ → Coro ε σ Λ ι α}
    (hf : ∀ s₀, Triple C t (fun v s => J v s ∧ s = s₀) (f s₀) Q E) :
    Triple C t J (get >>= f) Q E :=
  ⟨fun v s hs => (wp_bind _ f).mpr ((hf s).wp v s ⟨hs, rfl⟩)⟩

theorem Triple.modify {Q : PUnit → View τ Λ σ → σ → Prop} {f : σ → σ}
    (h : ∀ v s, J v s → Q () v (f s)) :
    Triple C t J (modify f : Coro ε σ Λ ι PUnit) Q E := ⟨h⟩

theorem Triple.modifyGet {f : σ → α × σ} (h : ∀ v s, J v s → Q (f s).1 v (f s).2) :
    Triple C t J (modifyGet f : Coro ε σ Λ ι α) Q E := ⟨h⟩

theorem Triple.ite {p : Prop} [Decidable p] {d : Coro ε σ Λ ι α} (hc : p → Triple C t J c Q E)
    (hd : ¬p → Triple C t J d Q E) : Triple C t J (if p then c else d) Q E := by
  split
  · next hp => exact hc hp
  · next hp => exact hd hp

theorem Triple.handle {h : ε → Coro ε σ Λ ι α} (hc : Triple C t J c Q E')
    (hh : ∀ e, Triple C t (E' e) (h e) Q E) : Triple C t J (c.handle h) Q E :=
  ⟨fun v s hs => (wp_handle c h).mpr
    (wp_mono (fun _ _ _ ha => ha) (fun e v s he => (hh e).wp v s he) (hc.wp v s hs))⟩

theorem Triple.ensure {last : Coro ε σ Λ ι Unit} (hc : Triple C t J c Q' E')
    (hok : ∀ a, Triple C t (Q' a) last (fun _ => Q a) E)
    (herr : ∀ e, Triple C t (E' e) last (fun _ => E e) E) :
    Triple C t J (c.ensure last) Q E :=
  ⟨fun v s hs => (wp_ensure c last).mpr
    (wp_mono (fun a v s ha => (hok a).wp v s ha) (fun e v s he => (herr e).wp v s he)
      (hc.wp v s hs))⟩

/-- Where nothing is raised, nothing need be said of it. -/
theorem Triple.raiseless {c : Coro Empty σ Λ ι α} {E E' : Empty → View τ Λ σ → σ → Prop}
    (h : Triple C t J c Q E) : Triple C t J c Q E' :=
  h.conseq (fun _ _ hs => hs) (fun _ _ _ hs => hs) fun e _ _ _ => e.elim

/-- An await keeps a stable condition. -/
theorem Kept.pause (hJ : Stable C t J) (l : Λ) :
    Kept C t J (Coro.pause l : Coro ε σ Λ ι ι) :=
  ⟨fun v s hs => (wp_pause l).mpr
    ⟨hJ.stops l v s hs, fun v' _ hr hi _ _ => hJ.resumes l v s v' hs hr hi⟩⟩

theorem Kept.bind {c : Coro ε σ Λ ι β} {f : β → Coro ε σ Λ ι α} (hc : Kept C t J c)
    (hf : ∀ b, Kept C t J (f b)) : Kept C t J (c >>= f) := Triple.bind hc hf

theorem Kept.get {f : σ → Coro ε σ Λ ι α} (hf : ∀ s, Kept C t J (f s)) :
    Kept C t J (Bind.bind get f) :=
  Triple.get fun s => (hf s).conseq (fun _ _ h => h.1) (fun _ _ _ h => h) fun _ _ _ h => h

theorem Kept.pure (a : α) : Kept C t J (Pure.pure a : Coro ε σ Λ ι α) :=
  Triple.pure a fun _ _ h => h

theorem Kept.ite {p : Prop} [Decidable p] {c d : Coro ε σ Λ ι α} (hc : Kept C t J c)
    (hd : Kept C t J d) : Kept C t J (if p then c else d) := Triple.ite (fun _ => hc) fun _ => hd

/-- A program all of whose writes keep a stable condition. -/
theorem Kept.of_always {R : σ → σ → Prop} (hJ : Stable C t J) (hc : Always R c)
    (hstep : ∀ v s s', J v s → R s s' → J v s') : Kept C t J c :=
  ⟨fun _ s hs => wp_of_stable hJ.stops hstep hJ.resumes (hc.within s) hs⟩

end Rules

end VoiceAgent.Coroutine
