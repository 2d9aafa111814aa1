import Mathlib.Data.Int.Notation
import Mathlib.Data.List.Basic

/-!
JSON values, objects as lists of fields in their order. A patch is merged into an object
field by field: objects are merged in turn, every other value replaces the old one.
-/
namespace VoiceAgent.JsonValues

mutual
/-- A `float` holds the text of a number with a fraction or an exponent. -/
inductive Json where
  | null
  | bool (b : Bool)
  | int (n : ℤ)
  | float (text : String)
  | str (s : String)
  | arr (items : Items)
  | obj (fields : Fields)
  deriving DecidableEq

inductive Items where
  | nil
  | cons (head : Json) (tail : Items)
  deriving DecidableEq

inductive Fields where
  | nil
  | cons (key : String) (value : Json) (rest : Fields)
  deriving DecidableEq
end

namespace Fields

def get? : Fields → String → Option Json
  | .nil, _ => none
  | .cons key value rest, k => if key = k then some value else rest.get? k

/-- A new key goes to the end; an old one keeps its place. -/
def set : Fields → String → Json → Fields
  | .nil, k, v => .cons k v .nil
  | .cons key value rest, k, v =>
    if key = k then .cons key v rest else .cons key value (rest.set k v)

def keys : Fields → List String
  | .nil => []
  | .cons key _ rest => key :: rest.keys

def filter (p : String → Bool) : Fields → Fields
  | .nil => .nil
  | .cons key value rest =>
    if p key then .cons key value (rest.filter p) else rest.filter p

def toList : Fields → List (String × Json)
  | .nil => []
  | .cons key value rest => (key, value) :: rest.toList

def length : Fields → ℕ
  | .nil => 0
  | .cons _ _ rest => rest.length + 1

end Fields

def Json.object? : Json → Option Fields
  | .obj f => some f
  | _ => none

mutual
def Json.mergeInto : Json → Option Json → Json
  | .obj patch, old => match old.bind Json.object? with
    | some base => .obj (patch.mergeInto base)
    | none => .obj patch
  | v, _ => v

def Fields.mergeInto : Fields → Fields → Fields
  | .nil, base => base
  | .cons key value rest, base =>
    rest.mergeInto (base.set key (value.mergeInto (base.get? key)))
end

def Items.toList : Items → List Json
  | .nil => []
  | .cons head tail => head :: tail.toList

/-- The field of an object; `none` for any other value. -/
def sub (v : Option Json) (k : String) : Option Json :=
  (v.bind Json.object?).bind fun f => f.get? k

/-- The fields of an object; none for any other value. -/
def objectOr (v : Option Json) : Fields := (v.bind Json.object?).getD .nil

mutual
/-- Equal up to the order of fields. -/
def Json.same : Json → Json → Bool
  | .obj f, .obj g => f.length == g.length && f.sameIn g
  | .arr xs, .arr ys => xs.same ys
  | v, w => v = w

def Items.same : Items → Items → Bool
  | .nil, .nil => true
  | .cons v xs, .cons w ys => v.same w && xs.same ys
  | _, _ => false

def Fields.sameIn : Fields → Fields → Bool
  | .nil, _ => true
  | .cons key value rest, g =>
    (match g.get? key with
      | some w => value.same w
      | none => false) && rest.sameIn g
end

mutual
/-- No object has a key twice. -/
def Json.Distinct : Json → Prop
  | .obj f => f.Distinct
  | .arr xs => xs.Distinct
  | _ => True

def Items.Distinct : Items → Prop
  | .nil => True
  | .cons v xs => v.Distinct ∧ xs.Distinct

def Fields.Distinct : Fields → Prop
  | .nil => True
  | .cons key value rest => key ∉ rest.keys ∧ value.Distinct ∧ rest.Distinct
end

@[elab_as_elim, induction_eliminator]
theorem Fields.listInduction {motive : Fields → Prop} (nil : motive .nil)
    (cons : ∀ key value rest, motive rest → motive (.cons key value rest)) : ∀ f, motive f
  | .nil => nil
  | .cons key value rest => cons key value rest (Fields.listInduction nil cons rest)

section Lookup
variable {f g : Fields} {k k' : String} {v : Json}

@[simp] theorem get?_nil (k : String) : Fields.nil.get? k = none := rfl

@[simp] theorem get?_set_self (f : Fields) (k : String) (v : Json) :
    (f.set k v).get? k = some v := by
  induction f with
  | nil => simp [Fields.set, Fields.get?]
  | cons key value rest ih =>
    by_cases hk : key = k
    · simp [Fields.set, Fields.get?, hk]
    · simpa [Fields.set, Fields.get?, hk] using ih

@[simp] theorem get?_set_ne (f : Fields) (v : Json) (h : k' ≠ k) :
    (f.set k v).get? k' = f.get? k' := by
  induction f with
  | nil => simp [Fields.set, Fields.get?, h.symm]
  | cons key value rest ih =>
    by_cases hk : key = k
    · subst hk
      simp [Fields.set, Fields.get?, h.symm]
    · by_cases hk' : key = k'
      · subst hk'
        simp [Fields.set, Fields.get?, hk]
      · simpa [Fields.set, Fields.get?, hk, hk'] using ih

/-- Setting a key to the value it has changes nothing. -/
theorem set_get? (h : f.get? k = some v) : f.set k v = f := by
  induction f with
  | nil => simp [Fields.get?] at h
  | cons key value rest ih =>
    by_cases hk : key = k
    · have hv : value = v := by simpa [Fields.get?, hk] using h
      simp [Fields.set, hk, hv]
    · have hrest : rest.get? k = some v := by simpa [Fields.get?, hk] using h
      simp [Fields.set, hk, ih hrest]

theorem get?_filter (p : String → Bool) (f : Fields) (k : String) :
    (f.filter p).get? k = if p k then f.get? k else none := by
  induction f with
  | nil => simp [Fields.filter, Fields.get?]
  | cons key value rest ih =>
    by_cases hk : key = k
    · subst hk
      by_cases hp : p key = true
      · simp [Fields.filter, Fields.get?, hp]
      · simpa [Fields.filter, hp] using ih
    · by_cases hp : p key = true
      · simpa [Fields.filter, Fields.get?, hp, hk] using ih
      · simpa [Fields.filter, Fields.get?, hp, hk] using ih

theorem get?_eq_none_iff : f.get? k = none ↔ k ∉ f.keys := by
  induction f with
  | nil => simp [Fields.get?, Fields.keys]
  | cons key value rest ih =>
    by_cases hk : key = k
    · simp [Fields.get?, Fields.keys, hk]
    · have hk' : k ≠ key := fun heq => hk heq.symm
      simpa [Fields.get?, Fields.keys, hk, hk'] using ih

theorem mem_keys_iff : k ∈ f.keys ↔ ∃ v, f.get? k = some v := by
  rw [← not_iff_not, ← get?_eq_none_iff]
  simp [Option.eq_none_iff_forall_ne_some]

/-- What every field satisfies is kept by a filter that keeps them all. -/
theorem filter_eq_self {p : String → Bool} (h : ∀ k ∈ f.keys, p k = true) : f.filter p = f := by
  induction f with
  | nil => rfl
  | cons key value rest ih =>
    have hkey : p key = true := h key (by simp [Fields.keys])
    have hrest := ih fun k hk => h k (by simp [Fields.keys, hk])
    simp [Fields.filter, hkey, hrest]

theorem filter_filter (p q : String → Bool) (f : Fields) :
    (f.filter p).filter q = f.filter fun key => p key && q key := by
  induction f with
  | nil => rfl
  | cons key value rest ih =>
    by_cases hp : p key = true
    · by_cases hq : q key = true
      · simp [Fields.filter, hp, hq, ih]
      · simp [Fields.filter, hp, hq, ih]
    · simp [Fields.filter, hp, ih]

theorem filter_set_of_mem {p : String → Bool} (hk : p k = true) (f : Fields) (v : Json) :
    (f.set k v).filter p = (f.filter p).set k v := by
  induction f with
  | nil => simp [Fields.set, Fields.filter, hk]
  | cons key value rest ih =>
    by_cases heq : key = k
    · simp [Fields.set, Fields.filter, heq, hk]
    · by_cases hp : p key = true
      · simp [Fields.set, Fields.filter, heq, hp, ih]
      · simp [Fields.set, Fields.filter, heq, hp, ih]

theorem filter_set_of_not_mem {p : String → Bool} (hk : p k = false) (f : Fields) (v : Json) :
    (f.set k v).filter p = f.filter p := by
  induction f with
  | nil => simp [Fields.set, Fields.filter, hk]
  | cons key value rest ih =>
    by_cases heq : key = k
    · simp [Fields.set, Fields.filter, heq, hk]
    · by_cases hp : p key = true
      · simp [Fields.set, Fields.filter, heq, hp, ih]
      · simp [Fields.set, Fields.filter, heq, hp, ih]

/-- A merge goes key by key. -/
theorem filter_mergeInto (p : String → Bool) (patch base : Fields) :
    (patch.mergeInto base).filter p = (patch.filter p).mergeInto (base.filter p) := by
  induction patch generalizing base with
  | nil => rfl
  | cons key value rest ih =>
    rw [Fields.mergeInto, ih]
    by_cases hp : p key = true
    · rw [filter_set_of_mem hp, Fields.filter, if_pos hp, Fields.mergeInto, get?_filter, if_pos hp]
    · rw [filter_set_of_not_mem (by simpa using hp), Fields.filter, if_neg hp]

theorem toList_filter (p : String → Bool) (f : Fields) :
    (f.filter p).toList = f.toList.filter fun field => p field.1 := by
  induction f with
  | nil => rfl
  | cons key value rest ih =>
    by_cases hp : p key = true
    · simp [Fields.filter, Fields.toList, hp, ih]
    · simp [Fields.filter, Fields.toList, hp, ih]

theorem keys_filter (p : String → Bool) (f : Fields) : (f.filter p).keys = f.keys.filter p := by
  induction f with
  | nil => rfl
  | cons key value rest ih =>
    by_cases hp : p key = true
    · simp [Fields.filter, Fields.keys, hp, ih]
    · simp [Fields.filter, Fields.keys, hp, ih]

theorem mem_keys_set {key : String} (f : Fields) (k : String) (v : Json) :
    key ∈ (f.set k v).keys ↔ key = k ∨ key ∈ f.keys := by
  rw [mem_keys_iff, mem_keys_iff]
  by_cases hk : key = k
  · subst hk
    simp
  · simp [get?_set_ne f v hk, hk]

theorem mem_keys_of_toList (h : (k, v) ∈ f.toList) : k ∈ f.keys := by
  induction f with
  | nil => simp [Fields.toList] at h
  | cons key value rest ih =>
    rcases List.mem_cons.mp h with heq | hrest
    · obtain ⟨rfl, rfl⟩ := Prod.mk.inj heq
      simp [Fields.keys]
    · simp [Fields.keys, ih hrest]

end Lookup

section Distinct
variable {f g : Fields} {k : String} {v : Json}

@[simp] theorem distinct_obj : (Json.obj f).Distinct ↔ f.Distinct := Iff.rfl

@[simp] theorem distinct_str (s : String) : (Json.str s).Distinct := trivial

theorem Fields.Distinct.get? (h : f.Distinct) (hv : f.get? k = some v) : v.Distinct := by
  induction f with
  | nil => simp [Fields.get?] at hv
  | cons key value rest ih =>
    obtain ⟨-, hvalue, hrest⟩ := h
    by_cases hk : key = k
    · have heq : value = v := by simpa [Fields.get?, hk] using hv
      exact heq ▸ hvalue
    · exact ih hrest (by simpa [Fields.get?, hk] using hv)

theorem Fields.Distinct.set (h : f.Distinct) (hv : v.Distinct) (k : String) :
    (f.set k v).Distinct := by
  induction f with
  | nil => exact ⟨by simp [Fields.keys], hv, trivial⟩
  | cons key value rest ih =>
    obtain ⟨hkey, hvalue, hrest⟩ := h
    by_cases hk : key = k
    · simpa [Fields.set, Fields.Distinct, hk] using ⟨hk ▸ hkey, hv, hrest⟩
    · have hnot : key ∉ (rest.set k v).keys := by
        rw [mem_keys_set]
        simp [hk, hkey]
      simpa [Fields.set, Fields.Distinct, hk] using ⟨hnot, hvalue, ih hrest⟩

theorem Fields.Distinct.filter (h : f.Distinct) (p : String → Bool) : (f.filter p).Distinct := by
  induction f with
  | nil => trivial
  | cons key value rest ih =>
    obtain ⟨hkey, hvalue, hrest⟩ := h
    by_cases hp : p key = true
    · have hnot : key ∉ (rest.filter p).keys := by
        rw [keys_filter]
        simp [hkey]
      simpa [Fields.filter, Fields.Distinct, hp] using ⟨hnot, hvalue, ih hrest⟩
    · simpa [Fields.filter, hp] using ih hrest

theorem Fields.Distinct.of_mem_toList (h : f.Distinct) (hv : (k, v) ∈ f.toList) :
    f.get? k = some v := by
  induction f with
  | nil => simp [Fields.toList] at hv
  | cons key value rest ih =>
    obtain ⟨hkey, -, hrest⟩ := h
    rcases List.mem_cons.mp hv with heq | hmem
    · obtain ⟨rfl, rfl⟩ := Prod.mk.inj heq
      simp [Fields.get?]
    · have hne : key ≠ k := by
        rintro rfl
        exact hkey (mem_keys_of_toList hmem)
      simpa [Fields.get?, hne] using ih hrest hmem

mutual
theorem Json.Distinct.mergeInto : ∀ {v : Json} {old : Option Json}, v.Distinct →
    (∀ w ∈ old, w.Distinct) → (v.mergeInto old).Distinct
  | .obj patch, old, h, hold => by
    cases old with
    | none => exact h
    | some w =>
      cases w with
      | obj base => exact Fields.Distinct.mergeInto (f := patch) h (hold (.obj base) rfl)
      | _ => exact h
  | .null, _, h, _ => h
  | .bool _, _, h, _ => h
  | .int _, _, h, _ => h
  | .float _, _, h, _ => h
  | .str _, _, h, _ => h
  | .arr _, _, h, _ => h

theorem Fields.Distinct.mergeInto : ∀ {f base : Fields}, f.Distinct → base.Distinct →
    (f.mergeInto base).Distinct
  | .nil, _, _, hbase => hbase
  | .cons key _ rest, _, h, hbase =>
    Fields.Distinct.mergeInto (f := rest) h.2.2
      (hbase.set (Json.Distinct.mergeInto h.2.1 fun _ hw => hbase.get? hw) key)
end

end Distinct

section Merge
variable {f g base patch : Fields} {k : String} {v : Json}

/-- Field by field: what the patch has is merged, the rest stays. -/
theorem get?_mergeInto (h : patch.Distinct) (base : Fields) (k : String) :
    (patch.mergeInto base).get? k =
      match patch.get? k with
      | some v => some (v.mergeInto (base.get? k))
      | none => base.get? k := by
  induction patch generalizing base with
  | nil => rfl
  | cons key value rest ih =>
    obtain ⟨hkey, -, hrest⟩ := h
    rw [Fields.mergeInto, ih hrest]
    by_cases hk : key = k
    · subst hk
      have hnone : rest.get? key = none := get?_eq_none_iff.mpr hkey
      simp [Fields.get?, hnone]
    · have hk' : k ≠ key := fun heq => hk heq.symm
      simp [Fields.get?, hk, get?_set_ne base _ hk']

@[simp] theorem mergeInto_none (v : Json) : v.mergeInto none = v := by
  cases v with
  | obj f => rfl
  | _ => rfl

@[simp] theorem sub_none (k : String) : sub none k = none := rfl

@[simp] theorem sub_obj (f : Fields) (k : String) : sub (some (.obj f)) k = f.get? k := rfl

/-- A field of a merged object. -/
theorem sub_mergeInto (h : patch.Distinct) (old : Option Json) (k : String) :
    sub (some ((Json.obj patch).mergeInto old)) k =
      match patch.get? k with
      | some w => some (w.mergeInto (sub old k))
      | none => sub old k := by
  cases hold : old.bind Json.object? with
  | some base =>
    have hold' : sub old k = base.get? k := by simp [sub, hold]
    simp only [Json.mergeInto, hold, hold', sub_obj]
    exact get?_mergeInto h base k
  | none =>
    have hold' : sub old k = none := by simp [sub, hold]
    simp only [Json.mergeInto, hold, hold', sub_obj]
    cases patch.get? k with
    | none => rfl
    | some w => simp

@[simp] theorem get?_objectOr (v : Option Json) (k : String) : (objectOr v).get? k = sub v k := by
  cases v with
  | none => rfl
  | some w =>
    cases w with
    | obj f => rfl
    | _ => rfl

theorem objectOr_distinct {o : Option Json} (h : ∀ w ∈ o, w.Distinct) : (objectOr o).Distinct := by
  cases o with
  | none => trivial
  | some w =>
    cases w with
    | obj f => exact h (.obj f) rfl
    | _ => trivial

theorem sub_distinct {o : Option Json} (h : ∀ w ∈ o, w.Distinct) (k : String) :
    ∀ w ∈ sub o k, w.Distinct := by
  intro w hw
  rw [← get?_objectOr] at hw
  exact (objectOr_distinct h).get? hw

/-- An object that is merged stays an object, and each field of it is merged. -/
theorem mergeInto_obj (h : patch.Distinct) (old : Option Json) :
    ∃ r, (Json.obj patch).mergeInto old = .obj r ∧ ∀ k, r.get? k =
      match patch.get? k with
      | some w => some (w.mergeInto (sub old k))
      | none => sub old k := by
  have hsub := sub_mergeInto h old
  cases hold : old.bind Json.object? with
  | some base =>
    simp only [Json.mergeInto, hold] at hsub ⊢
    exact ⟨_, rfl, hsub⟩
  | none =>
    simp only [Json.mergeInto, hold] at hsub ⊢
    exact ⟨_, rfl, hsub⟩

/-- Of what a value and a patch satisfy, what the patched value satisfies. -/
def MergeClosed (Q : Option Json → Prop) : Prop :=
  ∀ v old, v.Distinct → Q (some v) → Q old → Q (some (v.mergeInto old))

theorem MergeClosed.field {Q : Option Json → Prop} (hQ : MergeClosed Q) (h : patch.Distinct)
    {k : String} (hp : Q (patch.get? k)) {old : Option Json} (hold : Q old) :
    Q (match patch.get? k with
      | some w => some (w.mergeInto old)
      | none => old) := by
  cases hk : patch.get? k with
  | none => exact hold
  | some w => exact hQ w old (h.get? hk) (hk ▸ hp) hold

/-- An object with one key. -/
theorem eq_single (h : f.Distinct) (hkeys : ∀ key ∈ f.keys, key = k) (hv : f.get? k = some v) :
    f = .cons k v .nil := by
  cases f with
  | nil => simp [Fields.get?] at hv
  | cons key value rest =>
    obtain rfl : key = k := hkeys key (by simp [Fields.keys])
    obtain ⟨hkey, -, -⟩ := h
    cases rest with
    | nil =>
      obtain rfl : value = v := by simpa [Fields.get?] using hv
      rfl
    | cons key' value' rest =>
      have hsame : key' = key := hkeys key' (by simp [Fields.keys])
      simp [Fields.keys, hsame] at hkey

/-- A patch whose fields are there already changes nothing. -/
theorem mergeInto_eq_self (h : ∀ k v, patch.get? k = some v →
    base.get? k = some (v.mergeInto (base.get? k))) (hpatch : patch.Distinct) :
    patch.mergeInto base = base := by
  induction patch with
  | nil => rfl
  | cons key value rest ih =>
    obtain ⟨hkey, -, hrest⟩ := hpatch
    have hfirst : base.get? key = some (value.mergeInto (base.get? key)) :=
      h key value (by simp [Fields.get?])
    rw [Fields.mergeInto, set_get? hfirst]
    refine ih (fun k v hv => h k v ?_) hrest
    have hk : key ≠ k := by
      rintro rfl
      exact hkey (mem_keys_iff.mpr ⟨v, hv⟩)
    simpa [Fields.get?, hk] using hv

/-- Merging the value into what is there changes nothing. -/
def Absorbed (old : Option Json) (v : Json) : Prop := old = some (v.mergeInto old)

theorem absorbed_obj (h : patch.Distinct) :
    Absorbed (some (.obj base)) (.obj patch) ↔
      ∀ k w, patch.get? k = some w → Absorbed (base.get? k) w := by
  have hobj : (Json.obj patch).mergeInto (some (.obj base)) = .obj (patch.mergeInto base) := rfl
  rw [Absorbed, hobj]
  constructor
  · intro heq k w hw
    have hbase : base = patch.mergeInto base := by simpa using heq
    have hk := get?_mergeInto h base k
    rw [← hbase, hw] at hk
    exact hk
  · intro hall
    rw [mergeInto_eq_self hall h]

mutual
theorem Json.mergeInto_self : ∀ {v : Json}, v.Distinct → v.mergeInto (some v) = v
  | .obj _, h => congrArg Json.obj (Fields.mergeInto_of_sub h fun _ _ hv => hv)
  | .null, _ => rfl
  | .bool _, _ => rfl
  | .int _, _ => rfl
  | .float _, _ => rfl
  | .str _, _ => rfl
  | .arr _, _ => rfl

theorem Fields.mergeInto_of_sub : ∀ {f base : Fields}, f.Distinct →
    (∀ k v, f.get? k = some v → base.get? k = some v) → f.mergeInto base = base
  | .nil, _, _, _ => rfl
  | .cons key value rest, base, h, hsub => by
    have hfirst : base.get? key = some value := hsub key value (by simp [Fields.get?])
    have hvalue : value.mergeInto (some value) = value := Json.mergeInto_self h.2.1
    rw [Fields.mergeInto, hfirst, hvalue, set_get? hfirst]
    refine Fields.mergeInto_of_sub h.2.2 fun k v hv => hsub k v ?_
    have hk : key ≠ k := by
      rintro rfl
      exact h.1 (mem_keys_iff.mpr ⟨v, hv⟩)
    simpa [Fields.get?, hk] using hv
end

end Merge

section Same

mutual
theorem Json.same_refl : ∀ {v : Json}, v.Distinct → v.same v = true
  | .obj f, h => by
    simp only [Json.same, beq_self_eq_true, Bool.true_and]
    exact Fields.sameIn_of_sub h fun _ _ hv => hv
  | .arr xs, h => by
    simp only [Json.same]
    exact Items.same_refl h
  | .null, _ => by simp [Json.same]
  | .bool _, _ => by simp [Json.same]
  | .int _, _ => by simp [Json.same]
  | .float _, _ => by simp [Json.same]
  | .str _, _ => by simp [Json.same]

theorem Items.same_refl : ∀ {xs : Items}, xs.Distinct → xs.same xs = true
  | .nil, _ => rfl
  | .cons _ _, h => by
    simp only [Items.same, Bool.and_eq_true]
    exact ⟨Json.same_refl h.1, Items.same_refl h.2⟩

theorem Fields.sameIn_of_sub : ∀ {f g : Fields}, f.Distinct →
    (∀ k v, f.get? k = some v → g.get? k = some v) → f.sameIn g = true
  | .nil, _, _, _ => rfl
  | .cons key value rest, g, h, hsub => by
    have hfirst : g.get? key = some value := hsub key value (by simp [Fields.get?])
    simp only [Fields.sameIn, hfirst, Bool.and_eq_true]
    refine ⟨Json.same_refl h.2.1, Fields.sameIn_of_sub h.2.2 fun k v hv => hsub k v ?_⟩
    have hk : key ≠ k := by
      rintro rfl
      exact h.1 (mem_keys_iff.mpr ⟨v, hv⟩)
    simpa [Fields.get?, hk] using hv
end

end Same

end VoiceAgent.JsonValues
