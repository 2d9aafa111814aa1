import VoiceAgent.SettingsSchema

/-!
What becomes of a client's value: it is refused for the default, or read and brought between the
bounds, and raises only where it overflows.
-/
namespace VoiceAgent.SettingsCoercion

open JsonValues SessionView ServiceSettings SettingsSchema

section Coercion
variable {F : Floats} {spec : Setting} {kind : Kind} {value raw : Json}

/-- A client's number that `int`, `float` or `math.isfinite` raises an `OverflowError` for. -/
def overflows (F : Floats) (kind : Kind) (raw : Json) : Bool :=
  match kind, raw with
  | .int, .int n | .float, .int n => (F.ofInt n).isNone
  | .int, .float text => decide (F.worth text = .posInf) || decide (F.worth text = .negInf)
  | .int, .str text => (F.parseInt text).any fun n => (F.ofInt n).isNone
  | _, _ => false

/-- The bounds of a setting are numbers, the least not above the greatest. -/
structure BoundsInOrder (F : Floats) (spec : Setting) : Prop where
  min : ∀ low ∈ spec.min, IsNumber F low
  max : ∀ high ∈ spec.max, IsNumber F high
  le : ∀ low ∈ spec.min, ∀ high ∈ spec.max, AtMost F low high

/-- A value lies between the bounds of its setting. -/
def Between (F : Floats) (spec : Setting) (value : Json) : Prop :=
  (∀ low ∈ spec.min, AtMost F low value) ∧ ∀ high ∈ spec.max, AtMost F value high

theorem BoundsInOrder.numeric (h : BoundsInOrder F spec) : NumericBounds F spec :=
  ⟨fun low hlow => (h.min low hlow).imp fun _ => And.left,
    fun high hhigh => (h.max high hhigh).imp fun _ => And.left⟩

/-- Bounds that something lies between are in order. -/
theorem Between.inOrder (h : Between F spec value) : BoundsInOrder F spec := by
  have hlow : ∀ {a b : Json}, AtMost F a b → IsNumber F a ∧ IsNumber F b := by
    intro a b hab
    obtain ⟨x, y, hx, hy, hle⟩ := atMost_elim hab
    refine ⟨⟨x, hx, ?_⟩, ⟨y, hy, ?_⟩⟩
    · rintro rfl
      cases y <;> simp [Worth.le, Worth.lt] at hle
    · rintro rfl
      cases x <;> simp [Worth.le, Worth.lt] at hle
  exact ⟨fun low hmin => (hlow (h.1 low hmin)).1, fun high hmax => (hlow (h.2 high hmax)).2,
    fun low hmin high hmax => atMost_trans (h.1 low hmin) (h.2 high hmax)⟩

theorem bound_eq {least : Option Json} (h : ∀ low ∈ least, ∃ x, F.number? low = some x) :
    bound least = least := by
  cases least with
  | none => rfl
  | some low =>
    change (if low = .null then none else some low) = some low
    rw [if_neg]
    rintro rfl
    obtain ⟨x, hx⟩ := h .null rfl
    cases hx

theorem clamp_eq (hbounds : NumericBounds F spec) : clamp F spec value =
    (spec.min.elim (.ok value) (maxOf F value)).bind fun v =>
      spec.max.elim (.ok v) (minOf F v) := by
  unfold clamp
  rw [bound_eq hbounds.1, bound_eq hbounds.2]
  cases spec.min <;> cases spec.max <;> rfl

/-- Nothing is raised between numeric bounds. -/
theorem exists_clamp (hbounds : NumericBounds F spec) (hvalue : ∃ x, F.number? value = some x) :
    ∃ out, clamp F spec value = .ok out := by
  have hraised : ∃ raised, spec.min.elim (.ok value) (maxOf F value) = .ok raised ∧
      ∃ x, F.number? raised = some x := by
    cases hmin : spec.min with
    | none => exact ⟨value, rfl, hvalue⟩
    | some low =>
      obtain ⟨x, hx⟩ := hvalue
      obtain ⟨y, hy⟩ := hbounds.1 low hmin
      change ∃ raised, maxOf F value low = .ok raised ∧ _
      unfold maxOf
      simp only [compare_eq hx hy, bind, Except.bind]
      split
      · exact ⟨low, rfl, y, hy⟩
      · exact ⟨value, rfl, x, hx⟩
  obtain ⟨raised, hok, x, hx⟩ := hraised
  rw [clamp_eq hbounds, hok]
  cases hmax : spec.max with
  | none => exact ⟨raised, rfl⟩
  | some high =>
    obtain ⟨y, hy⟩ := hbounds.2 high hmax
    change ∃ out, minOf F raised high = .ok out
    unfold minOf
    simp only [compare_eq hy hx, bind, Except.bind]
    split
    · exact ⟨high, rfl⟩
    · exact ⟨raised, rfl⟩

theorem clamp_ok (hbounds : BoundsInOrder F spec) (hvalue : IsNumber F value) :
    ∃ out, clamp F spec value = .ok out ∧ IsNumber F out ∧ Between F spec out := by
  have hraised : ∃ raised, spec.min.elim (.ok value) (maxOf F value) = .ok raised ∧
      IsNumber F raised ∧ ∀ low ∈ spec.min, AtMost F low raised := by
    cases hmin : spec.min with
    | none => exact ⟨value, rfl, hvalue, by simp⟩
    | some low =>
      obtain ⟨c, hc, hor, -, hlow⟩ := maxOf_ok hvalue (hbounds.min low hmin)
      refine ⟨c, hc, ?_, by simpa using hlow⟩
      rcases hor with rfl | rfl
      · exact hvalue
      · exact hbounds.min _ hmin
  obtain ⟨raised, hok, hnumber, hlow⟩ := hraised
  rw [clamp_eq hbounds.numeric, hok]
  cases hmax : spec.max with
  | none => exact ⟨raised, rfl, hnumber, hlow, by simp [hmax]⟩
  | some high =>
    obtain ⟨c, hc, hor, hle, hhigh⟩ := minOf_ok hnumber (hbounds.max high hmax)
    refine ⟨c, hc, ?_, ?_, by simpa [hmax] using hhigh⟩
    · rcases hor with rfl | rfl
      · exact hnumber
      · exact hbounds.max _ hmax
    · intro low hmin
      rcases hor with rfl | rfl
      · exact hlow low hmin
      · exact hbounds.le low hmin _ hmax

theorem isNumber_of_finite {text : String} (h : (F.worth text).isFinite = true) :
    IsNumber F (.float text) := by
  refine ⟨_, rfl, ?_⟩
  intro hnan
  rw [hnan] at h
  cases h

/-- What `int` makes of a client's value, where no `OverflowError` is raised. -/
theorem coerceInt_ok (hF : FloatLaws F) (hover : overflows F .int raw = false) :
    ∃ out, toInt F raw = .ok out ∧ ∀ n ∈ out, (F.ofInt n).isSome = true := by
  cases raw with
  | int n => exact ⟨_, rfl, by simpa [overflows, Option.isSome_iff_ne_none] using hover⟩
  | float text =>
    unfold toInt
    cases hworth : F.worth text with
    | nan => exact ⟨none, by simp [hworth], by simp⟩
    | finite q =>
      refine ⟨some (q.num.tdiv q.den), by simp [hworth], ?_⟩
      intro n hn
      obtain rfl := Option.some.inj hn
      exact hF.ofInt_tdiv text q hworth
    | negInf => simp [overflows, hworth] at hover
    | posInf => simp [overflows, hworth] at hover
  | str text =>
    refine ⟨_, rfl, ?_⟩
    intro n hn
    have hnone : (F.parseInt text).any (fun n => (F.ofInt n).isNone) = false := hover
    rw [Option.mem_def.mp hn] at hnone
    simpa [Option.isSome_iff_ne_none] using hnone
  | null => exact ⟨none, rfl, by simp⟩
  | bool b => exact ⟨none, rfl, by simp⟩
  | arr items => exact ⟨none, rfl, by simp⟩
  | obj fields => exact ⟨none, rfl, by simp⟩

theorem coerceFloat_ok (hover : overflows F .float raw = false) :
    ∃ out, toFloat F raw = .ok out := by
  cases raw with
  | int n =>
    unfold toFloat
    cases hof : F.ofInt n with
    | none => simp [overflows, hof] at hover
    | some text => exact ⟨some text, by simp [hof]⟩
  | null => exact ⟨none, rfl⟩
  | bool b => exact ⟨none, rfl⟩
  | float text => exact ⟨_, rfl⟩
  | str text => exact ⟨_, rfl⟩
  | arr items => exact ⟨none, rfl⟩
  | obj fields => exact ⟨none, rfl⟩

theorem coerceNumber_int (hraw : ∀ b, raw ≠ .bool b) : coerceNumber F .int raw =
    (toInt F raw).bind fun out => out.elim (.ok none) fun n =>
      if (F.ofInt n).isSome then .ok (some (.int n)) else .error .overflowError := by
  cases raw with
  | bool b => exact absurd rfl (hraw b)
  | _ =>
    change (_ >>= _) = _
    congr 1
    funext out
    cases out <;> rfl

theorem coerceNumber_float (hraw : ∀ b, raw ≠ .bool b) : coerceNumber F .float raw =
    (toFloat F raw).bind fun out => out.elim (.ok none) fun text =>
      .ok (if (F.worth text).isFinite then some (.float text) else none) := by
  cases raw with
  | bool b => exact absurd rfl (hraw b)
  | _ =>
    change (_ >>= _) = _
    congr 1
    funext out
    cases out <;> rfl

/-- A number that a client sends is read as a number or not at all. -/
theorem coerceNumber_ok (hF : FloatLaws F) (hkind : kind = .int ∨ kind = .float)
    (hover : overflows F kind raw = false) :
    ∃ out, coerceNumber F kind raw = .ok out ∧ ∀ v ∈ out, IsNumber F v := by
  by_cases hbool : ∃ b, raw = .bool b
  · obtain ⟨b, rfl⟩ := hbool
    exact ⟨none, by cases kind <;> rfl, by simp⟩
  · have hraw : ∀ b, raw ≠ .bool b := fun b hb => hbool ⟨b, hb⟩
    rcases hkind with rfl | rfl
    · obtain ⟨out, hout, hfits⟩ := coerceInt_ok hF hover
      rw [coerceNumber_int hraw, hout]
      cases out with
      | none => exact ⟨none, rfl, by simp⟩
      | some n =>
        refine ⟨some (.int n), ?_, ?_⟩
        · change (if (F.ofInt n).isSome then _ else _) = _
          rw [if_pos (hfits n rfl)]
        · intro v hv
          obtain rfl := Option.some.inj hv
          exact ⟨_, rfl, by simp⟩
    · obtain ⟨out, hout⟩ := coerceFloat_ok hover
      rw [coerceNumber_float hraw, hout]
      cases out with
      | none => exact ⟨none, rfl, by simp⟩
      | some text =>
        refine ⟨_, rfl, ?_⟩
        intro v hv
        by_cases hfinite : (F.worth text).isFinite = true
        · rw [if_pos hfinite] at hv
          obtain rfl := Option.some.inj hv
          exact isNumber_of_finite hfinite
        · rw [if_neg hfinite] at hv
          cases hv

theorem coerceNumber_overflow (h : overflows F spec.kind raw = true) :
    (spec.kind = .int ∨ spec.kind = .float) ∧ raw ≠ .null ∧
      coerceNumber F spec.kind raw = .error .overflowError := by
  cases hkind : spec.kind <;> rw [hkind] at h
  · cases raw <;> cases h
  · refine ⟨.inl rfl, ?_, ?_⟩
    · rintro rfl
      cases h
    · cases raw with
      | int n =>
        have hnone : F.ofInt n = none := by simpa [overflows] using h
        rw [coerceNumber_int (by simp)]
        simp [toInt, Except.bind, hnone]
      | float text =>
        rw [coerceNumber_int (by simp)]
        have hworth : F.worth text = .posInf ∨ F.worth text = .negInf := by
          simpa [overflows] using h
        rcases hworth with hworth | hworth <;> simp [toInt, hworth, Except.bind]
      | str text =>
        rw [coerceNumber_int (by simp)]
        obtain ⟨n, hn, hnone⟩ := (Option.any_eq_true _ _).mp h
        simp [toInt, Except.bind, hn, Option.isNone_iff_eq_none.mp hnone]
      | _ => cases h
  · refine ⟨.inr rfl, ?_, ?_⟩
    · rintro rfl
      cases h
    · cases raw with
      | int n =>
        have hnone : F.ofInt n = none := by simpa [overflows] using h
        rw [coerceNumber_float (by simp)]
        simp [toFloat, Except.bind, hnone]
      | _ => cases h
  · cases raw <;> cases h

/-- The client's value is taken, as far as the bounds allow: the default has no part in it. -/
def ClientValue (F : Floats) (spec : Setting) (raw : Option Json) (value : Json) : Prop :=
  ∀ d, coerceSetting F { spec with default := d } raw = .ok value

/-- No value of the client's is taken. -/
def TakesDefault (F : Floats) (spec : Setting) (raw : Option Json) : Prop :=
  ∀ d, coerceSetting F { spec with default := d } raw = .ok d

/-- A value that may be written: between the bounds of a number, or among the options. -/
def Within (F : Floats) (spec : Setting) (value : Json) : Prop :=
  match spec.kind with
  | .bool => ∃ b, value = .bool b
  | .enum => isOption F value spec.options = true
  | .int | .float => IsNumber F value ∧ Between F spec value

variable (F spec) in
theorem coerceSetting_number (hkind : spec.kind = .int ∨ spec.kind = .float)
    (hraw : raw ≠ .null) : coerceSetting F spec (some raw) =
      (coerceNumber F spec.kind raw).bind fun out =>
        out.elim (.ok spec.default) (clamp F spec) := by
  have hif : ∀ result, coerceNumber F spec.kind raw = result → coerceSetting F spec (some raw) =
      result.bind fun out => out.elim (.ok spec.default) (clamp F spec) := by
    rintro (e | _ | value) hresult <;> rcases hkind with hkind | hkind <;>
      rw [hkind] at hresult <;> unfold coerceSetting <;> cases raw <;>
      simp_all [bind, Except.bind]
  exact hif _ rfl

theorem isNumeric_cases (kind : Kind) : (kind = .int ∨ kind = .float) ∨ kind = .bool ∨
    kind = .enum := by
  cases kind <;> simp

/-- A setting takes its default, or a value of the client's, which may be written if the bounds
are in order. -/
theorem coerceSetting_ok (hF : FloatLaws F) (hbounds : NumericBounds F spec)
    {raw : Option Json} (hover : ∀ w ∈ raw, overflows F spec.kind w = false) :
    TakesDefault F spec raw ∨ ∃ v, ClientValue F spec raw v ∧
      ((spec.kind = .int ∨ spec.kind = .float → BoundsInOrder F spec) → Within F spec v) := by
  by_cases hnull : raw = none ∨ raw = some .null
  · refine .inl fun d => ?_
    rcases hnull with rfl | rfl <;> rfl
  · obtain ⟨w, rfl⟩ := Option.ne_none_iff_exists'.mp fun h => hnull (.inl h)
    have hw : w ≠ .null := fun h => hnull (.inr (congrArg some h))
    rcases isNumeric_cases spec.kind with hkind | hkind | hkind
    · obtain ⟨out, hout, hnumber⟩ := coerceNumber_ok hF hkind (hover w rfl)
      have hcoerce : ∀ d, coerceSetting F { spec with default := d } (some w) =
          out.elim (.ok d) (clamp F spec) := by
        intro d
        have hnumber := coerceSetting_number F { spec with default := d } hkind hw
        rw [hnumber, hout]
        rfl
      cases out with
      | none => exact .inl hcoerce
      | some value =>
        obtain ⟨v, hclamp⟩ :=
          exists_clamp hbounds ((hnumber value rfl).imp fun _ => And.left)
        refine .inr ⟨v, fun d => (hcoerce d).trans hclamp, fun horder => ?_⟩
        obtain ⟨v', hclamp', hv⟩ := clamp_ok (horder hkind) (hnumber value rfl)
        obtain rfl := Except.ok.inj (hclamp.symm.trans hclamp')
        unfold Within
        rcases hkind with hkind | hkind <;> rw [hkind] <;> exact hv
    · cases w with
      | bool b =>
        refine .inr ⟨.bool b, fun d => ?_, fun _ => ?_⟩
        · simp [coerceSetting, hkind]
        · unfold Within
          rw [hkind]
          exact ⟨b, rfl⟩
      | str text =>
        cases hread : readBool F text with
        | none => exact .inl fun d => by simp [coerceSetting, hkind, hread]
        | some b =>
          refine .inr ⟨.bool b, fun d => by simp [coerceSetting, hkind, hread], fun _ => ?_⟩
          unfold Within
          rw [hkind]
          exact ⟨b, rfl⟩
      | null => exact absurd rfl hw
      | _ => exact .inl fun d => by simp [coerceSetting, hkind]
    · have hcoerce : ∀ d, coerceSetting F { spec with default := d } (some w) =
          .ok (if isOption F w spec.options then w else d) := by
        intro d
        cases w <;> simp_all [coerceSetting]
      by_cases hoption : isOption F w spec.options = true
      · refine .inr ⟨w, fun d => by rw [hcoerce, if_pos hoption], fun _ => ?_⟩
        unfold Within
        rw [hkind]
        exact hoption
      · exact .inl fun d => by rw [hcoerce, if_neg hoption]

end Coercion

end VoiceAgent.SettingsCoercion
