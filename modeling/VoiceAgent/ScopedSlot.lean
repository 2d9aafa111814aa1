import Mathlib.Data.List.Nodup
import Mathlib.Logic.Function.Basic

/-!
A slot that owners fill and empty, and calls that hide its value: each puts back, when it
ends, what it found when it began. If a call ends only where it began, the latest first,
then it leaves no trace: the slot is what it would be without the call.
-/
namespace VoiceAgent.ScopedSlot

variable {κ ν α : Type}

/-- `κ` owners, `ν` calls, `α` values. -/
inductive Event (κ ν α : Type)
  | set (owner : κ) (value : Option α)
  | clear (owner : κ)
  | hide (call : ν)
  | restore (call : ν)
  deriving DecidableEq

structure Slot (ν α : Type) where
  active : Option α := none
  saved : ν → Option α := fun _ => none

/-- `inner` lists the calls still out that began in the scope of the current value, the
latest first, and `outer` those that began when there was none. -/
structure Scopes (κ ν α : Type) where
  current : Option (κ × α) := none
  inner : List ν := []
  outer : List ν := []

variable [DecidableEq ν]

def Slot.apply (s : Slot ν α) : Event κ ν α → Slot ν α
  | .set _ value => { s with active := value }
  | .clear _ => { s with active := none }
  | .hide n => { active := none, saved := Function.update s.saved n s.active }
  | .restore n => { s with active := s.saved n }

def Scopes.apply (c : Scopes κ ν α) : Event κ ν α → Scopes κ ν α
  | .set k value => { c with current := value.map fun a => (k, a), inner := [] }
  | .clear _ => { c with current := none, inner := [] }
  | .hide n =>
    if c.current.isSome then { c with inner := n :: c.inner } else { c with outer := n :: c.outer }
  | .restore n =>
    if c.inner.head? = some n then { c with inner := c.inner.tail }
    else { c with outer := c.outer.filter (· ≠ n) }

def replay (es : List (Event κ ν α)) : Slot ν α := es.foldl Slot.apply {}

def scopes (es : List (Event κ ν α)) : Scopes κ ν α := es.foldl Scopes.apply {}

/-- A call may end in the scope in which it began, when no later call of it is out. -/
def Scopes.MayEnd (c : Scopes κ ν α) (n : ν) : Prop :=
  c.inner.head? = some n ∨ (c.current = none ∧ n ∈ c.outer)

/-- What may follow `es`. -/
def Fits (es : List (Event κ ν α)) : Event κ ν α → Prop
  | .hide n => .hide n ∉ es
  | .restore n => (scopes es).MayEnd n
  | _ => True

inductive Orderly : List (Event κ ν α) → Prop
  | nil : Orderly []
  | snoc {es : List (Event κ ν α)} (h : Orderly es) (e : Event κ ν α) (he : Fits es e) :
      Orderly (es ++ [e])

def isOf (n : ν) : Event κ ν α → Bool
  | .hide m | .restore m => m = n
  | _ => false

/-- The events of the others. -/
def without (n : ν) (es : List (Event κ ν α)) : List (Event κ ν α) := es.filter (! isOf n ·)

section Basic
variable {es : List (Event κ ν α)} {e : Event κ ν α} {n : ν}

@[simp] theorem replay_snoc : replay (es ++ [e]) = (replay es).apply e := by
  simp [replay, List.foldl_append]

@[simp] theorem scopes_snoc : scopes (es ++ [e]) = (scopes es).apply e := by
  simp [scopes, List.foldl_append]

theorem without_snoc_of (h : isOf n e = true) : without n (es ++ [e]) = without n es := by
  simp [without, h]

theorem without_snoc (h : isOf n e = false) :
    without n (es ++ [e]) = without n es ++ [e] := by
  simp [without, h]

/-- A call does not change whose value is current. -/
theorem current_of_call {c : Scopes κ ν α} (h : isOf n e = true) :
    (c.apply e).current = c.current := by
  cases e with
  | set k value => cases h
  | clear k => cases h
  | hide m =>
    simp only [Scopes.apply]
    split <;> rfl
  | restore m =>
    simp only [Scopes.apply]
    split <;> rfl

/-- A call that has just begun may end at once. -/
theorem mayEnd_hide (c : Scopes κ ν α) (n : ν) : (c.apply (.hide n)).MayEnd n := by
  cases hc : c.current with
  | none =>
    right
    simp [Scopes.apply, hc]
  | some current =>
    left
    simp [Scopes.apply, hc]

theorem mem_inner_hide {c : Scopes κ ν α} {m : ν} (h : m ∈ (c.apply (.hide n)).inner) :
    m = n ∨ m ∈ c.inner := by
  simp only [Scopes.apply] at h
  split at h
  · exact List.mem_cons.mp h
  · exact .inr h

theorem mem_inner_restore {c : Scopes κ ν α} {m : ν} (h : m ∈ (c.apply (.restore n)).inner) :
    m ∈ c.inner := by
  simp only [Scopes.apply] at h
  split at h
  · exact List.mem_of_mem_tail h
  · exact h

end Basic

section Consistent
variable {es : List (Event κ ν α)} {c : Scopes κ ν α} {s : Slot ν α}

/-- The slot holds the current value unless a call hides it; the first call of a scope has
saved that value, and the others nothing. -/
structure Consistent (c : Scopes κ ν α) (s : Slot ν α) : Prop where
  active : s.active = if c.inner = [] then c.current.map Prod.snd else none
  bare : c.current = none → c.inner = []
  inner : ∀ pre n post, c.inner = pre ++ n :: post →
    s.saved n = if post = [] then c.current.map Prod.snd else none
  outer : ∀ n ∈ c.outer, s.saved n = none

theorem Consistent.set (h : Consistent c s) (k : κ) (value : Option α) :
    Consistent (c.apply (.set k value)) (s.apply (.set k value : Event κ ν α)) where
  active := by
    simp only [Slot.apply, Scopes.apply, if_pos, Option.map_map]
    cases value with
    | none => rfl
    | some a => rfl
  bare _ := rfl
  inner pre n post hsplit := by simp [Scopes.apply] at hsplit
  outer := h.outer

theorem Consistent.clear (h : Consistent c s) (k : κ) :
    Consistent (c.apply (.clear k)) (s.apply (.clear k : Event κ ν α)) where
  active := by simp [Slot.apply, Scopes.apply]
  bare _ := rfl
  inner pre n post hsplit := by simp [Scopes.apply] at hsplit
  outer := h.outer

theorem Consistent.hide (h : Consistent c s) {n : ν} (hi : n ∉ c.inner) (ho : n ∉ c.outer) :
    Consistent (c.apply (.hide n)) (s.apply (.hide n : Event κ ν α)) := by
  have hother : ∀ m, m ≠ n → (s.apply (.hide n : Event κ ν α)).saved m = s.saved m := by
    intro m hm
    simp [Slot.apply, hm]
  cases hc : c.current with
  | none =>
    have hinner : c.inner = [] := h.bare hc
    have happly : c.apply (.hide n) = { c with outer := n :: c.outer } := by
      simp [Scopes.apply, hc]
    rw [happly]
    refine ⟨by simp [Slot.apply, hinner, hc], fun _ => hinner, ?_, ?_⟩
    · intro pre m post hsplit
      simp [hinner] at hsplit
    · intro m hm
      by_cases hmn : m = n
      · subst m
        have hactive : s.active = none := by
          rw [h.active, hinner, hc]
          rfl
        simp [Slot.apply, hactive]
      · rw [hother m hmn]
        exact h.outer m ((List.mem_cons.mp hm).resolve_left hmn)
  | some current =>
    have happly : c.apply (.hide n) = { c with inner := n :: c.inner } := by
      simp [Scopes.apply, hc]
    rw [happly]
    refine ⟨by simp [Slot.apply], fun hnone => by simp [hc] at hnone, ?_, ?_⟩
    · intro pre m post hsplit
      cases pre with
      | nil =>
        obtain ⟨rfl, rfl⟩ : n = m ∧ c.inner = post := by simpa using hsplit
        simpa [Slot.apply] using h.active
      | cons first pre =>
        obtain ⟨rfl, hrest⟩ : n = first ∧ c.inner = pre ++ m :: post := by simpa using hsplit
        have hm : m ≠ n := by
          rintro rfl
          exact hi (by simp [hrest])
        rw [hother m hm]
        exact h.inner pre m post hrest
    · intro m hm
      have hmn : m ≠ n := by
        rintro rfl
        exact ho hm
      rw [hother m hmn]
      exact h.outer m hm

theorem Consistent.restore (h : Consistent c s) {n : ν} (he : c.MayEnd n) :
    Consistent (c.apply (.restore n)) (s.apply (.restore n : Event κ ν α)) := by
  by_cases hhead : c.inner.head? = some n
  · obtain ⟨rest, hrest⟩ : ∃ rest, c.inner = n :: rest := by
      cases hinner : c.inner with
      | nil => simp [hinner] at hhead
      | cons first rest =>
        obtain rfl : first = n := by simpa [hinner] using hhead
        exact ⟨rest, rfl⟩
    have happly : c.apply (.restore n) = { c with inner := rest } := by
      simp [Scopes.apply, hrest]
    rw [happly]
    refine ⟨?_, ?_, ?_, h.outer⟩
    · simpa [Slot.apply] using h.inner [] n rest hrest
    · intro hnone
      have hnil := h.bare hnone
      simp [hrest] at hnil
    · intro pre m post hsplit
      have hsplit' : c.inner = (n :: pre) ++ m :: post := by
        rw [hrest, show rest = pre ++ m :: post from hsplit]
        rfl
      exact h.inner (n :: pre) m post hsplit'
  · obtain ⟨hnone, hmem⟩ := he.resolve_left hhead
    have happly : c.apply (.restore n) = { c with outer := c.outer.filter (· ≠ n) } := by
      simp [Scopes.apply, hhead]
    have hinner : c.inner = [] := h.bare hnone
    rw [happly]
    refine ⟨?_, h.bare, h.inner, fun m hm => h.outer m (List.mem_filter.mp hm).1⟩
    simp [Slot.apply, h.outer n hmem, hnone, hinner]

/-- The calls that are out have begun, each once. -/
structure Begun (es : List (Event κ ν α)) (c : Scopes κ ν α) : Prop where
  inner : ∀ n ∈ c.inner, .hide n ∈ es
  outer : ∀ n ∈ c.outer, .hide n ∈ es
  nodup : c.inner.Nodup

theorem Orderly.begun (h : Orderly es) : Begun es (scopes es) := by
  induction h with
  | nil => exact ⟨by simp [scopes], by simp [scopes], List.nodup_nil⟩
  | @snoc es _ e he ih =>
    rw [scopes_snoc]
    have hold : ∀ n, .hide n ∈ es → .hide n ∈ es ++ [e] := fun n hn => List.mem_append_left _ hn
    cases e with
    | set k value =>
      exact ⟨by simp [Scopes.apply], fun n hn => hold n (ih.outer n hn), List.nodup_nil⟩
    | clear k => exact ⟨by simp [Scopes.apply], fun n hn => hold n (ih.outer n hn), List.nodup_nil⟩
    | hide n =>
      simp only [Scopes.apply]
      split
      · refine ⟨?_, fun m hm => hold m (ih.outer m hm), ?_⟩
        · intro m hm
          rcases List.mem_cons.mp hm with rfl | hm
          · simp
          · exact hold m (ih.inner m hm)
        · exact List.nodup_cons.mpr ⟨fun hn => he (ih.inner n hn), ih.nodup⟩
      · refine ⟨fun m hm => hold m (ih.inner m hm), ?_, ih.nodup⟩
        intro m hm
        rcases List.mem_cons.mp hm with rfl | hm
        · simp
        · exact hold m (ih.outer m hm)
    | restore n =>
      simp only [Scopes.apply]
      split
      · exact ⟨fun m hm => hold m (ih.inner m (List.mem_of_mem_tail hm)),
          fun m hm => hold m (ih.outer m hm), ih.nodup.tail⟩
      · exact ⟨fun m hm => hold m (ih.inner m hm),
          fun m hm => hold m (ih.outer m (List.mem_filter.mp hm).1), ih.nodup⟩

theorem Orderly.consistent (h : Orderly es) : Consistent (scopes es) (replay es) := by
  induction h with
  | nil => exact ⟨rfl, fun _ => rfl, by simp [scopes], by simp [scopes]⟩
  | @snoc es h e he ih =>
    rw [scopes_snoc, replay_snoc]
    cases e with
    | set k value => exact ih.set k value
    | clear k => exact ih.clear k
    | hide n => exact ih.hide (fun hn => he (h.begun.inner n hn)) fun hn => he (h.begun.outer n hn)
    | restore n => exact ih.restore he

/-- A call that has ended is no longer out. -/
theorem Orderly.not_mem_inner_restore {n : ν} (h : Orderly es) (he : (scopes es).MayEnd n) :
    n ∉ ((scopes es).apply (.restore n)).inner := by
  have hnodup := h.begun.nodup
  intro hmem
  simp only [Scopes.apply] at hmem
  split at hmem
  · rename_i hhead
    cases hinner : (scopes es).inner with
    | nil => simp [hinner] at hhead
    | cons first rest =>
      obtain rfl : first = n := by simpa [hinner] using hhead
      rw [hinner] at hmem hnodup
      exact (List.nodup_cons.mp hnodup).1 hmem
  · rename_i hhead
    have hnil := h.consistent.bare (he.resolve_left hhead).1
    simp [hnil] at hmem

theorem Orderly.hide_mem {n : ν} (h : Orderly es) (he : (scopes es).MayEnd n) :
    .hide n ∈ es := by
  rcases he with hhead | ⟨-, hmem⟩
  · exact h.begun.inner n (List.mem_of_mem_head? hhead)
  · exact h.begun.outer n hmem

end Consistent

section Without
variable {es : List (Event κ ν α)} {n : ν}

/-- The scopes without call `n`. -/
def Scopes.drop (c : Scopes κ ν α) (n : ν) : Scopes κ ν α :=
  { c with inner := c.inner.filter (· ≠ n), outer := c.outer.filter (· ≠ n) }

theorem drop_apply_of {c : Scopes κ ν α} {e : Event κ ν α} (h : isOf n e = true) :
    (c.apply e).drop n = c.drop n := by
  cases e with
  | set k value => cases h
  | clear k => cases h
  | hide m =>
    obtain rfl : m = n := by simpa [isOf] using h
    simp only [Scopes.apply]
    split
    · simp [Scopes.drop]
    · simp [Scopes.drop]
  | restore m =>
    obtain rfl : m = n := by simpa [isOf] using h
    simp only [Scopes.apply]
    split
    · rename_i hhead
      cases hinner : c.inner with
      | nil => simp [hinner] at hhead
      | cons first rest =>
        obtain rfl : first = m := by simpa [hinner] using hhead
        simp [Scopes.drop, hinner]
    · simp [Scopes.drop]

theorem drop_apply {c : Scopes κ ν α} {e : Event κ ν α} (h : isOf n e = false)
    (he : ∀ m, e = .restore m → c.MayEnd m) (hs : c.current = none → c.inner = []) :
    (c.apply e).drop n = (c.drop n).apply e := by
  cases e with
  | set k value => simp [Scopes.apply, Scopes.drop]
  | clear k => simp [Scopes.apply, Scopes.drop]
  | hide m =>
    have hm : m ≠ n := by simpa [isOf] using h
    simp only [Scopes.apply]
    have hcurrent : (c.drop n).current = c.current := rfl
    rw [hcurrent]
    split
    · simp [Scopes.drop, hm]
    · simp [Scopes.drop, hm]
  | restore m =>
    have hm : m ≠ n := by simpa [isOf] using h
    rcases he m rfl with hhead | ⟨hnone, -⟩
    · cases hinner : c.inner with
      | nil => simp [hinner] at hhead
      | cons first rest =>
        obtain rfl : first = m := by simpa [hinner] using hhead
        simp [Scopes.apply, Scopes.drop, hinner, hm]
    · have hinner := hs hnone
      simp [Scopes.apply, Scopes.drop, hinner, List.filter_filter, Bool.and_comm]

theorem Scopes.MayEnd.drop {c : Scopes κ ν α} {m : ν} (h : c.MayEnd m) (hm : m ≠ n) :
    (c.drop n).MayEnd m := by
  rcases h with hhead | ⟨hnone, hmem⟩
  · left
    cases hinner : c.inner with
    | nil => simp [hinner] at hhead
    | cons first rest =>
      obtain rfl : first = m := by simpa [hinner] using hhead
      simp [Scopes.drop, hinner, hm]
  · right
    exact ⟨hnone, List.mem_filter.mpr ⟨hmem, by simpa using hm⟩⟩

/-- The events of the others are orderly too, in the same scopes. -/
theorem Orderly.without (h : Orderly es) :
    Orderly (without n es) ∧ scopes (without n es) = (scopes es).drop n := by
  induction h with
  | nil => exact ⟨.nil, rfl⟩
  | @snoc es h e he ih =>
    obtain ⟨horderly, hscopes⟩ := ih
    cases hof : isOf n e with
    | true =>
      rw [without_snoc_of hof, scopes_snoc, drop_apply_of hof]
      exact ⟨horderly, hscopes⟩
    | false =>
      have hend : ∀ m, e = .restore m → (scopes es).MayEnd m := by
        rintro m rfl
        exact he
      rw [without_snoc hof, scopes_snoc, scopes_snoc, drop_apply hof hend h.consistent.bare,
        hscopes]
      refine ⟨horderly.snoc e ?_, rfl⟩
      cases e with
      | set k value => trivial
      | clear k => trivial
      | hide m =>
        intro hmem
        exact he (List.mem_filter.mp hmem).1
      | restore m =>
        have hm : m ≠ n := by simpa [isOf] using hof
        have hmay : (scopes es).MayEnd m := he
        change (scopes (ScopedSlot.without n es)).MayEnd m
        rw [hscopes]
        exact hmay.drop hm

/-- A call that is no longer out has left no trace. -/
theorem Orderly.active_without (h : Orderly es) (hn : n ∉ (scopes es).inner) :
    (replay (ScopedSlot.without n es)).active = (replay es).active := by
  have hfilter : (scopes es).inner.filter (· ≠ n) = (scopes es).inner := by
    refine List.filter_eq_self.mpr fun m hm => ?_
    have hmn : m ≠ n := by
      rintro rfl
      exact hn hm
    simpa using hmn
  rw [h.without.1.consistent.active, h.consistent.active, h.without.2]
  simp only [Scopes.drop, hfilter]

end Without

end VoiceAgent.ScopedSlot
