import VoiceAgent.Coroutine

/-!
A coroutine over a part of a larger state. Its reads and writes go through the part, its sites
and exceptions are renamed, and the scheduler's replies are read as its own.
-/
namespace VoiceAgent.Coroutine

/-- Where the part of the state is, and how sites, replies and exceptions are named. -/
structure Zoom (ε σ Λ ι ε' σ' Λ' ι' : Type) where
  view : σ → σ'
  put : σ' → σ → σ
  site : Λ' → Λ
  reply : ι → ι'
  error : ε' → ε

variable {ε σ Λ ι ε' σ' Λ' ι' α β : Type}

namespace Coro

def zoom (Z : Zoom ε σ Λ ι ε' σ' Λ' ι') : Coro ε' σ' Λ' ι' α → Coro ε σ Λ ι α
  | ret a => ret a
  | raise e => raise (Z.error e)
  | read k => read fun s => (k (Z.view s)).zoom Z
  | write s' k => read fun s => write (Z.put s' s) (k.zoom Z)
  | await l k => await (Z.site l) fun i => (k (Z.reply i)).zoom Z

theorem zoom_bind (Z : Zoom ε σ Λ ι ε' σ' Λ' ι') (c : Coro ε' σ' Λ' ι' β)
    (f : β → Coro ε' σ' Λ' ι' α) : (c >>= f).zoom Z = c.zoom Z >>= fun b => (f b).zoom Z := by
  change (c.bind f).zoom Z = (c.zoom Z).bind fun b => (f b).zoom Z
  induction c with
  | ret b => rfl
  | raise e => rfl
  | read k ih => simp only [Coro.bind, zoom, ih]
  | write s k ih => simp only [Coro.bind, zoom, ih]
  | await l k ih => simp only [Coro.bind, zoom, ih]

end Coro

open Coro

section Wp
variable {τ : Type} [DecidableEq τ] {C : Contract τ Λ σ ι} {t : τ} {Q : α → View τ Λ σ → σ → Prop}
  {E : ε → View τ Λ σ → σ → Prop} {v : View τ Λ σ} {s : σ} (Z : Zoom ε σ Λ ι ε' σ' Λ' ι')

@[simp] theorem wp_zoom_bind (c : Coro ε' σ' Λ' ι' β) (f : β → Coro ε' σ' Λ' ι' α) :
    Wp C t Q E ((c >>= f).zoom Z) v s ↔
      Wp C t (fun b v s => Wp C t Q E ((f b).zoom Z) v s) E (c.zoom Z) v s := by
  rw [zoom_bind, wp_bind]

@[simp] theorem wp_zoom_pure (a : α) :
    Wp C t Q E ((pure a : Coro ε' σ' Λ' ι' α).zoom Z) v s ↔ Q a v s := Iff.rfl

@[simp] theorem wp_zoom_raise (e : ε') :
    Wp C t Q E ((raise e : Coro ε' σ' Λ' ι' α).zoom Z) v s ↔ E (Z.error e) v s := Iff.rfl

@[simp] theorem wp_zoom_get {Q : σ' → View τ Λ σ → σ → Prop} :
    Wp C t Q E ((get : Coro ε' σ' Λ' ι' σ').zoom Z) v s ↔ Q (Z.view s) v s := Iff.rfl

@[simp] theorem wp_zoom_modify {Q : PUnit → View τ Λ σ → σ → Prop} (f : σ' → σ') :
    Wp C t Q E ((modify f : Coro ε' σ' Λ' ι' PUnit).zoom Z) v s ↔
      Q ⟨⟩ v (Z.put (f (Z.view s)) s) := Iff.rfl

theorem wp_zoom_pause {Q : ι' → View τ Λ σ → σ → Prop} (l : Λ') :
    Wp C t Q E ((pause l : Coro ε' σ' Λ' ι' ι').zoom Z) v s ↔ C.Stops t (Z.site l) v s ∧
      ∀ v' i, C.rely t (v.stop t (Z.site l) s) v' → C.inv v' → v'.site t = Z.site l →
        C.allowed v' t i → Q (Z.reply i) v' v'.shared := Iff.rfl

end Wp

end VoiceAgent.Coroutine
