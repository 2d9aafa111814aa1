import VoiceAgent.Coroutine

/-!
One coroutine while others act at its awaits. What they may do to the shared state is a
relation; a run is any that meets it at every await, whatever reply it is handed there.
-/
namespace VoiceAgent.Interference

open Coroutine

variable {σ Λ ι α β : Type} {R : σ → σ → Prop}

/-- The coroutine can run from `s` to its end, with result `a` and in the state `t`. -/
def Amid (R : σ → σ → Prop) : Coro Empty σ Λ ι α → σ → α → σ → Prop
  | .ret b, s, a, t => b = a ∧ s = t
  | .read k, s, a, t => Amid R (k s) s a t
  | .write s' k, _, a, t => Amid R k s' a t
  | .await _ k, s, a, t => ∃ i s', R s s' ∧ Amid R (k i) s' a t

variable {s t : σ}

@[simp] theorem amid_pure (b a : α) :
    Amid R (pure b : Coro Empty σ Λ ι α) s a t ↔ b = a ∧ s = t := Iff.rfl

@[simp] theorem amid_bind (c : Coro Empty σ Λ ι β) (f : β → Coro Empty σ Λ ι α) (a : α) :
    Amid R (c >>= f) s a t ↔ ∃ b u, Amid R c s b u ∧ Amid R (f b) u a t := by
  change Amid R (c.bind f) s a t ↔ _
  induction c generalizing s with
  | ret b =>
    constructor
    · exact fun h => ⟨b, s, ⟨rfl, rfl⟩, h⟩
    · rintro ⟨_, _, ⟨rfl, rfl⟩, h⟩
      exact h
  | raise e => exact e.elim
  | read k ih => exact ih s
  | write s' k ih => exact ih
  | await l k ih =>
    simp only [Coro.bind, Amid, ih]
    constructor
    · rintro ⟨i, s', hR, b, u, hk, hf⟩
      exact ⟨b, u, ⟨i, s', hR, hk⟩, hf⟩
    · rintro ⟨b, u, ⟨i, s', hR, hk⟩, hf⟩
      exact ⟨i, s', hR, b, u, hk, hf⟩

@[simp] theorem amid_get (a : σ) :
    Amid R (get : Coro Empty σ Λ ι σ) s a t ↔ s = a ∧ s = t := Iff.rfl

@[simp] theorem amid_modify (f : σ → σ) (a : PUnit) :
    Amid R (modify f : Coro Empty σ Λ ι PUnit) s a t ↔ f s = t := by
  change () = a ∧ f s = t ↔ _
  simp

@[simp] theorem amid_modifyGet (f : σ → α × σ) (a : α) :
    Amid R (modifyGet f : Coro Empty σ Λ ι α) s a t ↔ (f s).1 = a ∧ (f s).2 = t := Iff.rfl

@[simp] theorem amid_pause (l : Λ) (i : ι) :
    Amid R (Coro.pause l : Coro Empty σ Λ ι ι) s i t ↔ R s t := by
  change (∃ j s', R s s' ∧ j = i ∧ s' = t) ↔ _
  simp

/-- With nobody else, a coroutine runs as it does alone. -/
theorem amid_alone (hR : ∀ s, R s s) (i : ι) (c : Coro Empty σ Λ ι α) (s : σ) :
    Amid R c s (alone i c s).1 (alone i c s).2 := by
  induction c generalizing s with
  | ret b => exact ⟨rfl, rfl⟩
  | raise e => exact e.elim
  | read k ih => exact ih s s
  | write s' k ih => exact ih s'
  | await l k ih => exact ⟨i, s, hR s, ih i s⟩

section Ends
variable {ε : Type} {r : Except ε α}

/-- The coroutine can run from `s` to its end, where it leaves the result or the exception `r`
and the state `t`. -/
def Finishes (R : σ → σ → Prop) : Coro ε σ Λ ι α → σ → Except ε α → σ → Prop
  | .ret b, s, r, t => .ok b = r ∧ s = t
  | .raise e, s, r, t => .error e = r ∧ s = t
  | .read k, s, r, t => Finishes R (k s) s r t
  | .write s' k, _, r, t => Finishes R k s' r t
  | .await _ k, s, r, t => ∃ i s', R s s' ∧ Finishes R (k i) s' r t

@[simp] theorem finishes_pure (b : α) :
    Finishes R (pure b : Coro ε σ Λ ι α) s r t ↔ .ok b = r ∧ s = t := Iff.rfl

@[simp] theorem finishes_raise (e : ε) :
    Finishes R (Coro.raise e : Coro ε σ Λ ι α) s r t ↔ .error e = r ∧ s = t := Iff.rfl

theorem finishes_bind (c : Coro ε σ Λ ι β) (f : β → Coro ε σ Λ ι α) :
    Finishes R (c >>= f) s r t ↔
      (∃ e, .error e = r ∧ Finishes R c s (.error e) t) ∨
        ∃ b u, Finishes R c s (.ok b) u ∧ Finishes R (f b) u r t := by
  change Finishes R (c.bind f) s r t ↔ _
  induction c generalizing s with
  | ret b =>
    constructor
    · exact fun h => .inr ⟨b, s, ⟨rfl, rfl⟩, h⟩
    · intro h
      rcases h with ⟨e, -, he, -⟩ | ⟨b', u, ⟨hb, rfl⟩, h⟩
      · cases he
      · cases hb
        exact h
  | raise e =>
    constructor
    · intro h
      exact .inl ⟨e, h.1, rfl, h.2⟩
    · intro h
      rcases h with ⟨e', he', he, hs⟩ | ⟨b, u, ⟨hb, -⟩, -⟩
      · cases he
        exact ⟨he', hs⟩
      · cases hb
  | read k ih => exact ih s
  | write s' k ih => exact ih
  | await l k ih =>
    simp only [Coro.bind, Finishes, ih]
    constructor
    · intro h
      obtain ⟨i, s', hR, h⟩ := h
      rcases h with ⟨e, he, h⟩ | ⟨b, u, hk, hf⟩
      · exact .inl ⟨e, he, i, s', hR, h⟩
      · exact .inr ⟨b, u, ⟨i, s', hR, hk⟩, hf⟩
    · intro h
      rcases h with ⟨e, he, i, s', hR, h⟩ | ⟨b, u, ⟨i, s', hR, hk⟩, hf⟩
      · exact ⟨i, s', hR, .inl ⟨e, he, h⟩⟩
      · exact ⟨i, s', hR, .inr ⟨b, u, hk, hf⟩⟩

theorem finishes_modify (f : σ → σ) {r : Except ε PUnit} :
    Finishes R (modify f : Coro ε σ Λ ι PUnit) s r t ↔ .ok () = r ∧ f s = t := Iff.rfl

/-- What starts by reading the state goes on with the state it finds. -/
theorem finishes_get_bind (f : σ → Coro ε σ Λ ι α) :
    Finishes R (get >>= f) s r t ↔ Finishes R (f s) s r t := Iff.rfl

theorem finishes_modify_bind (g : σ → σ) (f : PUnit → Coro ε σ Λ ι α) :
    Finishes R (modify g >>= f) s r t ↔ Finishes R (f ()) (g s) r t := Iff.rfl

/-- What every write keeps and the others keep is kept. -/
theorem Finishes.keeps {A : σ → σ → Prop} (refl : ∀ s, A s s)
    (trans : ∀ s t u, A s t → A t u → A s u) (hR : ∀ s t, R s t → A s t)
    {c : Coro ε σ Λ ι α} (hc : Within A c s) (h : Finishes R c s r t) : A s t := by
  induction c generalizing s with
  | ret b => exact h.2 ▸ refl s
  | raise e => exact h.2 ▸ refl s
  | read k ih => exact ih s hc h
  | write s' k ih => exact trans s s' t hc.1 (ih hc.2 h)
  | await l k ih =>
    obtain ⟨i, s', hs, h⟩ := h
    exact trans s s' t (hR s s' hs) (ih i (hc i s') h)

/-- The end that a coroutine comes to when it is handed `i` at every await and nobody acts. -/
def steady (i : ι) : Coro ε σ Λ ι α → σ → Except ε α × σ
  | .ret a, s => (.ok a, s)
  | .raise e, s => (.error e, s)
  | .read k, s => steady i (k s) s
  | .write s k, _ => steady i k s
  | .await _ k, s => steady i (k i) s

theorem finishes_steady (hR : ∀ s, R s s) (i : ι) (c : Coro ε σ Λ ι α) (s : σ) :
    Finishes R c s (steady i c s).1 (steady i c s).2 := by
  induction c generalizing s with
  | ret a => exact ⟨rfl, rfl⟩
  | raise e => exact ⟨rfl, rfl⟩
  | read k ih => exact ih s s
  | write s' k ih => exact ih s'
  | await l k ih => exact ⟨i, s, hR s, ih i s⟩

end Ends

end VoiceAgent.Interference
