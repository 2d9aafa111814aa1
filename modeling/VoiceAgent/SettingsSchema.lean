import VoiceAgent.ServiceSettings
import Mathlib.Algebra.Order.Ring.Rat

/-!
Where the settings of a schema are written, and the comparisons and the subtraction of numbers
that their limits are reckoned with.
-/
namespace VoiceAgent.SettingsSchema

open JsonValues SessionView ServiceSettings

section Order
variable {a b c : Worth}

theorem worthLe_iff : Worth.le a b = true ↔ Worth.lt a b = true ∨ (a = b ∧ a ≠ .nan) := by
  simp [Worth.le]

theorem worthLe_refl (ha : a ≠ .nan) : Worth.le a a = true := worthLe_iff.mpr (.inr ⟨rfl, ha⟩)

theorem worthLe_of_lt (h : Worth.lt a b = true) : Worth.le a b = true := worthLe_iff.mpr (.inl h)

theorem worthLe_of_not_lt (ha : a ≠ .nan) (hb : b ≠ .nan) (h : Worth.lt a b = false) :
    Worth.le b a = true := by
  cases a <;> cases b <;> simp_all [Worth.le, Worth.lt]
  exact lt_or_eq_of_le h

theorem worthLt_of_not_le (ha : a ≠ .nan) (hb : b ≠ .nan) (h : Worth.le a b = false) :
    Worth.lt b a = true := by
  by_contra hlt
  have hle := worthLe_of_not_lt hb ha (by simpa using hlt)
  rw [h] at hle
  cases hle

theorem worthLt_trans (hab : Worth.lt a b = true) (hbc : Worth.lt b c = true) :
    Worth.lt a c = true := by
  cases a <;> cases b <;> cases c <;> simp_all [Worth.lt]
  exact lt_trans hab hbc

theorem worthLe_trans (hab : Worth.le a b = true) (hbc : Worth.le b c = true) :
    Worth.le a c = true := by
  rcases worthLe_iff.mp hab with hlt | ⟨rfl, -⟩
  · rcases worthLe_iff.mp hbc with hlt' | ⟨rfl, -⟩
    · exact worthLe_of_lt (worthLt_trans hlt hlt')
    · exact hab
  · exact hbc

end Order

section Paths
variable {v : Json}

/-- Neither path leads through the other. -/
def Unrelated (p q : List String) : Prop := ¬p <+: q ∧ ¬q <+: p

theorem splitPath_ne_nil (path : String) : splitPath path ≠ [] := by
  unfold splitPath
  simp [List.splitOn_ne_nil]

theorem getPath_cons {a : String} {rest : List String} (hrest : rest ≠ []) (f : Fields) :
    getPath (a :: rest) f = ((f.get? a).bind Json.object?).bind (getPath rest) := by
  rw [getPath.eq_3 _ _ _ hrest]
  cases f.get? a with
  | none => rfl
  | some w => cases w <;> rfl

theorem setPath_cons {a : String} {rest : List String} (hrest : rest ≠ []) (f : Fields) :
    setPath v (a :: rest) f = f.set a (.obj (setPath v rest (objectOr (f.get? a)))) := by
  obtain ⟨b, rest, rfl⟩ := List.exists_cons_of_ne_nil hrest
  rfl

theorem popPath_cons {a : String} {rest : List String} (hrest : rest ≠ []) (f : Fields) :
    popPath (a :: rest) f = (((f.get? a).bind Json.object?).map fun child =>
      f.set a (.obj (popPath rest child))).getD f := by
  rw [popPath.eq_3 _ _ _ hrest]
  cases f.get? a with
  | none => rfl
  | some w => cases w <;> rfl

theorem getPath_nil {p : List String} (hp : p ≠ []) : getPath p .nil = none := by
  obtain ⟨a, rest, rfl⟩ := List.exists_cons_of_ne_nil hp
  cases rest with
  | nil => rfl
  | cons b rest => rfl

/-- What is not an object has nothing under it, as an empty one. -/
theorem getPath_objectOr {p : List String} (hp : p ≠ []) (w : Option Json) :
    getPath p (objectOr w) = (w.bind Json.object?).bind (getPath p) := by
  unfold objectOr
  cases w.bind Json.object? with
  | none => exact getPath_nil hp
  | some f => rfl

theorem getPath_setPath {p : List String} (hp : p ≠ []) (f : Fields) :
    getPath p (setPath v p f) = some v := by
  induction p generalizing f with
  | nil => exact absurd rfl hp
  | cons a rest ih =>
    by_cases hrest : rest = []
    · subst hrest
      exact get?_set_self f a v
    · rw [setPath_cons hrest, getPath_cons hrest, get?_set_self]
      exact ih hrest _

theorem getPath_popPath {p : List String} (hp : p ≠ []) (f : Fields) :
    getPath p (popPath p f) = none := by
  induction p generalizing f with
  | nil => exact absurd rfl hp
  | cons a rest ih =>
    by_cases hrest : rest = []
    · subst hrest
      change (f.filter (· ≠ a)).get? a = none
      rw [get?_filter, if_neg (by simp)]
    · rw [popPath_cons hrest]
      cases hchild : (f.get? a).bind Json.object? with
      | none => rw [Option.map_none, Option.getD_none, getPath_cons hrest, hchild, Option.bind_none]
      | some child =>
        rw [Option.map_some, Option.getD_some, getPath_cons hrest, get?_set_self]
        exact ih hrest child

theorem unrelated_tails {a : String} {p q : List String} (h : Unrelated (a :: p) (a :: q)) :
    Unrelated p q ∧ p ≠ [] ∧ q ≠ [] := by
  refine ⟨⟨fun hpq => h.1 ?_, fun hqp => h.2 ?_⟩, fun hnil => h.1 ?_, fun hnil => h.2 ?_⟩
  · exact (List.prefix_cons_inj a).mpr hpq
  · exact (List.prefix_cons_inj a).mpr hqp
  · subst hnil
    exact (List.prefix_cons_inj a).mpr List.nil_prefix
  · subst hnil
    exact (List.prefix_cons_inj a).mpr List.nil_prefix

/-- Below a field stands what stands in the object it holds. -/
theorem getPath_under {a : String} {rest : List String} (hrest : rest ≠ []) (f : Fields) :
    getPath (a :: rest) f = getPath rest (objectOr (f.get? a)) := by
  rw [getPath_cons hrest, getPath_objectOr hrest]

theorem popPath_nil {q : List String} (hq : q ≠ []) : popPath q .nil = .nil := by
  obtain ⟨a, rest, rfl⟩ := List.exists_cons_of_ne_nil hq
  cases rest with
  | nil => rfl
  | cons b rest => rfl

/-- An operation at a path leaves the other fields alone, and is the same operation below each
field on its way; what it makes of a field it makes of that field alone. -/
structure AtPath (op : List String → Fields → Fields) : Prop where
  aside : ∀ {a b : String}, a ≠ b → ∀ later f, (op (b :: later) f).get? a = f.get? a
  below : ∀ {later : List String}, later ≠ [] → ∀ a f,
    objectOr ((op (a :: later) f).get? a) = op later (objectOr (f.get? a))
  field : ∀ a later f g, (later ≠ [] → f.get? a = g.get? a) →
    (op (a :: later) f).get? a = (op (a :: later) g).get? a

theorem atPath_setPath (v : Json) : AtPath (setPath v) where
  aside := by
    intro a b hab later f
    by_cases hlater : later = []
    · subst hlater
      exact get?_set_ne f v hab
    · rw [setPath_cons hlater]
      exact get?_set_ne f _ hab
  below := by
    intro later hlater a f
    rw [setPath_cons hlater, get?_set_self]
    rfl
  field := by
    intro a later f g hsame
    by_cases hlater : later = []
    · subst hlater
      exact (get?_set_self f a v).trans (get?_set_self g a v).symm
    · rw [setPath_cons hlater, setPath_cons hlater, get?_set_self, get?_set_self, hsame hlater]

theorem atPath_popPath : AtPath popPath where
  aside := by
    intro a b hab later f
    by_cases hlater : later = []
    · subst hlater
      change (f.filter (· ≠ b)).get? a = f.get? a
      rw [get?_filter, if_pos (by simpa using hab)]
    · rw [popPath_cons hlater]
      cases (f.get? b).bind Json.object? with
      | none => rfl
      | some child => exact get?_set_ne f _ hab
  below := by
    intro later hlater a f
    rw [popPath_cons hlater]
    cases hchild : (f.get? a).bind Json.object? with
    | none =>
      have hnil : objectOr (f.get? a) = .nil := by simp [objectOr, hchild]
      rw [Option.map_none, Option.getD_none, hnil, popPath_nil hlater]
    | some child =>
      have hown : objectOr (f.get? a) = child := by simp [objectOr, hchild]
      rw [Option.map_some, Option.getD_some, get?_set_self, hown]
      rfl
  field := by
    intro a later f g hsame
    by_cases hlater : later = []
    · subst hlater
      have hpop : ∀ f, (popPath [a] f).get? a = none :=
        fun f => getPath_popPath (List.cons_ne_nil a []) f
      exact (hpop f).trans (hpop g).symm
    · rw [popPath_cons hlater, popPath_cons hlater, hsame hlater]
      cases (g.get? a).bind Json.object? with
      | none => exact hsame hlater
      | some child => exact (get?_set_self f a _).trans (get?_set_self g a _).symm

/-- What is done elsewhere changes nothing at a path. -/
theorem AtPath.getPath_of_unrelated {op : List String → Fields → Fields} (hop : AtPath op)
    {p q : List String} (h : Unrelated p q) (f : Fields) :
    getPath p (op q f) = getPath p f := by
  induction q generalizing p f with
  | nil => exact absurd List.nil_prefix h.2
  | cons b q ih =>
    cases p with
    | nil => exact absurd List.nil_prefix h.1
    | cons a p =>
      by_cases hab : a = b
      · subst hab
        obtain ⟨htails, hp, hq⟩ := unrelated_tails h
        rw [getPath_under hp, getPath_under hp, hop.below hq]
        exact ih htails _
      · by_cases hp : p = []
        · subst hp
          exact hop.aside hab q f
        · rw [getPath_under hp, getPath_under hp, hop.aside hab]

end Paths

section Written
variable {resolved : Resolved} {schema : Schema} {s : String × Setting} {out out' : Fields}

def pathOf (setting : String × Setting) : List String := splitPath setting.2.path

/-- A list or a mapping cannot be looked up; an empty one is not. -/
def unhashable : Json → Bool
  | .arr xs => decide (xs ≠ .nil)
  | .obj f => decide (f ≠ .nil)
  | _ => false

/-- What is required is on; only a text names a setting. -/
def Resolved.isTrue (resolved : Resolved) : Json → Bool
  | .str requirement => truthy (some (resolved requirement))
  | _ => false

def isOn (resolved : Resolved) (setting : String × Setting) : Bool :=
  decide (resolved setting.1 ≠ .null) &&
    (!truthy (some setting.2.requires) || Resolved.isTrue resolved setting.2.requires)

theorem isOn_iff : isOn resolved s = true ↔ resolved s.1 ≠ .null ∧
    (truthy (some s.2.requires) = true → Resolved.isTrue resolved s.2.requires = true) := by
  simp [isOn, imp_iff_not_or]

/-- A requirement is looked up only where there is a value. -/
theorem active_eq (resolved : Resolved) (s : String × Setting) :
    active resolved s.1 s.2 =
      if resolved s.1 ≠ .null ∧ unhashable s.2.requires = true then .error .typeError
      else .ok (isOn resolved s) := by
  unfold active isOn
  by_cases hnull : resolved s.1 = .null
  · rw [if_pos hnull, if_neg (by simp [hnull])]
    simp [hnull]
  rw [if_neg hnull]
  cases hrequires : s.2.requires with
  | arr xs => cases xs <;> simp [hnull, truthy, unhashable]
  | obj f => cases f <;> simp [hnull, truthy, unhashable]
  | str name =>
    cases htrue : truthy (some (.str name)) <;> simp [hnull, unhashable, Resolved.isTrue]
  | null => simp [hnull, unhashable, truthy]
  | bool b => cases b <;> simp [hnull, unhashable, Resolved.isTrue, truthy]
  | int n => cases htrue : truthy (some (.int n)) <;> simp [hnull, unhashable, Resolved.isTrue]
  | float text =>
    cases htrue : truthy (some (.float text)) <;> simp [hnull, unhashable, Resolved.isTrue]

/-- What is required of a setting with a value can be looked up. -/
def Answers (resolved : Resolved) (s : String × Setting) : Prop :=
  unhashable s.2.requires = true → resolved s.1 = .null

theorem Answers.active (h : Answers resolved s) :
    active resolved s.1 s.2 = .ok (isOn resolved s) := by
  rw [active_eq, if_neg]
  exact fun hboth => hboth.1 (h hboth.2)

theorem answers_of_active {on : Bool} (h : active resolved s.1 s.2 = .ok on) :
    Answers resolved s := by
  rw [active_eq] at h
  split at h
  · cases h
  · next hboth => exact fun hrequires => by_contra fun hvalue => hboth ⟨hvalue, hrequires⟩

/-- A setting is written if it is on, and removed if it is not. -/
def written (resolved : Resolved) (out : Fields) (setting : String × Setting) : Fields :=
  if isOn resolved setting then setPath (resolved setting.1) (pathOf setting) out
  else popPath (pathOf setting) out

theorem writeSetting_eq (h : Answers resolved s) (out : Fields) :
    writeSetting resolved out s = .ok (written resolved out s) := by
  unfold writeSetting written
  rw [h.active]
  cases isOn resolved s <;> rfl

/-- The settings are written exactly if what is required of them can be looked up. -/
theorem foldlM_writeSetting :
    schema.foldlM (writeSetting resolved) out = .ok out' ↔
      (∀ s ∈ schema, Answers resolved s) ∧ out' = schema.foldl (written resolved) out := by
  induction schema generalizing out with
  | nil => simp [List.foldlM_nil, pure, Except.pure, eq_comm]
  | cons s rest ih =>
    rw [List.foldlM_cons, List.foldl_cons, List.forall_mem_cons]
    constructor
    · intro h
      have hown : Answers resolved s := by
        cases hwrite : writeSetting resolved out s with
        | error e =>
          rw [hwrite] at h
          cases h
        | ok next =>
          unfold writeSetting at hwrite
          cases hactive : ServiceSettings.active resolved s.1 s.2 with
          | error e =>
            rw [hactive] at hwrite
            cases hwrite
          | ok on => exact answers_of_active hactive
      rw [writeSetting_eq hown] at h
      obtain ⟨hrest, hout⟩ := ih.mp h
      exact ⟨⟨hown, hrest⟩, hout⟩
    · rintro ⟨⟨hown, hrest⟩, hout⟩
      rw [writeSetting_eq hown]
      exact ih.mpr ⟨hrest, hout⟩

theorem getPath_written_of_unrelated {s t : String × Setting}
    (h : Unrelated (pathOf s) (pathOf t)) (out : Fields) :
    getPath (pathOf s) (written resolved out t) = getPath (pathOf s) out := by
  unfold written
  split
  · exact (atPath_setPath _).getPath_of_unrelated h out
  · exact atPath_popPath.getPath_of_unrelated h out

/-- A setting stands at its path if it is on, and nothing does if it is not. -/
theorem getPath_written (hpaths : schema.Pairwise fun s t => Unrelated (pathOf s) (pathOf t))
    {s : String × Setting} (hs : s ∈ schema) (out : Fields) :
    getPath (pathOf s) (schema.foldl (written resolved) out) =
      if isOn resolved s then some (resolved s.1) else none := by
  induction schema generalizing out with
  | nil => cases hs
  | cons t rest ih =>
    obtain ⟨hfirst, hrest⟩ := List.pairwise_cons.mp hpaths
    rw [List.foldl_cons]
    rcases List.mem_cons.mp hs with rfl | hs
    · have hlater : ∀ (later : Schema) (out : Fields),
          (∀ t ∈ later, Unrelated (pathOf s) (pathOf t)) →
          getPath (pathOf s) (later.foldl (written resolved) out) =
            getPath (pathOf s) out := by
        intro later
        induction later with
        | nil => exact fun _ _ => rfl
        | cons t later ih =>
          intro out hun
          rw [List.foldl_cons, ih _ fun u hu => hun u (List.mem_cons_of_mem t hu)]
          exact getPath_written_of_unrelated (hun t List.mem_cons_self) out
      rw [hlater rest _ hfirst]
      unfold written
      split
      · exact getPath_setPath (splitPath_ne_nil _) out
      · exact getPath_popPath (splitPath_ne_nil _) out
    · exact ih hrest hs _

end Written

section Numbers
variable {F : Floats} {value limit a b : Json} {spec : Setting}

/-- What the model relies on of floats: an integer that has a float has a finite one, the integer
part of a finite float has one, and a finite float may be taken away from any other. -/
structure FloatLaws (F : Floats) : Prop where
  ofInt_tdiv : ∀ text q, F.worth text = .finite q → (F.ofInt (q.num.tdiv q.den)).isSome = true
  finite_ofInt : ∀ n t, F.ofInt n = some t → (F.worth t).isFinite = true
  sub_ne_nan : ∀ a b, F.worth a ≠ .nan → (F.worth b).isFinite = true →
    F.worth (F.sub a b) ≠ .nan

/-- A number that is not a NaN. -/
def IsNumber (F : Floats) (value : Json) : Prop := ∃ x, F.number? value = some x ∧ x ≠ .nan

/-- `a <= b` -/
def AtMost (F : Floats) (a b : Json) : Prop := ServiceSettings.compare F Worth.le a b = .ok true

theorem atMost_iff {x y : Worth} (ha : F.number? a = some x) (hb : F.number? b = some y) :
    AtMost F a b ↔ Worth.le x y = true := by
  unfold AtMost ServiceSettings.compare
  rw [ha, hb]
  simp

theorem atMost_elim (h : AtMost F a b) :
    ∃ x y, F.number? a = some x ∧ F.number? b = some y ∧ Worth.le x y = true := by
  unfold AtMost ServiceSettings.compare at h
  cases ha : F.number? a with
  | none => rw [ha] at h; cases h
  | some x =>
    cases hb : F.number? b with
    | none => rw [ha, hb] at h; cases h
    | some y =>
      rw [ha, hb] at h
      exact ⟨x, y, rfl, rfl, Except.ok.inj h⟩

theorem atMost_trans {c : Json} (hab : AtMost F a b) (hbc : AtMost F b c) : AtMost F a c := by
  obtain ⟨x, y, ha, hb, hxy⟩ := atMost_elim hab
  obtain ⟨y', z, hb', hc, hyz⟩ := atMost_elim hbc
  obtain rfl := Option.some.inj (hb.symm.trans hb')
  exact (atMost_iff ha hc).mpr (worthLe_trans hxy hyz)

theorem IsNumber.atMost_self (h : IsNumber F a) : AtMost F a a := by
  obtain ⟨x, hx, hnan⟩ := h
  exact (atMost_iff hx hx).mpr (worthLe_refl hnan)

theorem compare_eq {rel : Worth → Worth → Bool} {x y : Worth} (ha : F.number? a = some x)
    (hb : F.number? b = some y) : ServiceSettings.compare F rel a b = .ok (rel x y) := by
  unfold ServiceSettings.compare
  rw [ha, hb]

/-- The greater of two numbers. -/
theorem maxOf_ok (ha : IsNumber F a) (hb : IsNumber F b) :
    ∃ c, maxOf F a b = .ok c ∧ (c = a ∨ c = b) ∧ AtMost F a c ∧ AtMost F b c := by
  obtain ⟨x, hx, hxnan⟩ := id ha
  obtain ⟨y, hy, hynan⟩ := id hb
  unfold maxOf
  simp only [compare_eq hx hy, bind, Except.bind]
  by_cases hlt : Worth.lt x y = true
  · simp only [hlt, if_true]
    exact ⟨b, rfl, .inr rfl, (atMost_iff hx hy).mpr (worthLe_of_lt hlt), hb.atMost_self⟩
  · simp only [hlt]
    have hle := worthLe_of_not_lt hxnan hynan (by simpa using hlt)
    exact ⟨a, rfl, .inl rfl, ha.atMost_self, (atMost_iff hy hx).mpr hle⟩

/-- The less of two numbers. -/
theorem minOf_ok (ha : IsNumber F a) (hb : IsNumber F b) :
    ∃ c, minOf F a b = .ok c ∧ (c = a ∨ c = b) ∧ AtMost F c a ∧ AtMost F c b := by
  obtain ⟨x, hx, hxnan⟩ := id ha
  obtain ⟨y, hy, hynan⟩ := id hb
  unfold minOf
  simp only [compare_eq hy hx, bind, Except.bind]
  by_cases hlt : Worth.lt y x = true
  · simp only [hlt, if_true]
    exact ⟨b, rfl, .inr rfl, (atMost_iff hy hx).mpr (worthLe_of_lt hlt), hb.atMost_self⟩
  · simp only [hlt]
    have hle := worthLe_of_not_lt hynan hxnan (by simpa using hlt)
    exact ⟨a, rfl, .inl rfl, ha.atMost_self, (atMost_iff hx hy).mpr hle⟩

theorem minus_ok (hF : FloatLaws F) (hlimit : IsNumber F limit) {reserve : ℕ}
    (hreserve : (F.ofInt reserve).isSome) :
    ∃ cap, minus F limit reserve = .ok cap ∧ IsNumber F cap := by
  obtain ⟨x, hx, hnan⟩ := hlimit
  cases limit with
  | int n => exact ⟨_, rfl, _, rfl, by simp⟩
  | bool b => exact ⟨_, rfl, _, rfl, by simp⟩
  | float text =>
    obtain ⟨r, hr⟩ := Option.isSome_iff_exists.mp hreserve
    obtain rfl := Option.some.inj hx
    refine ⟨.float (F.sub text r), ?_, _, rfl, ?_⟩
    · simp [minus, hr]
    · exact hF.sub_ne_nan text r hnan (hF.finite_ofInt _ _ hr)
  | _ => cases hx

theorem minus_number {reserve : ℕ} {cap : Json} (h : minus F limit reserve = .ok cap) :
    ∃ y, F.number? cap = some y := by
  cases limit with
  | int n =>
    obtain rfl := Except.ok.inj h
    exact ⟨_, rfl⟩
  | bool b =>
    obtain rfl := Except.ok.inj h
    exact ⟨_, rfl⟩
  | float text =>
    unfold minus at h
    cases hr : F.ofInt reserve with
    | none =>
      rw [hr] at h
      cases h
    | some r =>
      rw [hr] at h
      obtain rfl := Except.ok.inj h
      exact ⟨_, rfl⟩
  | _ => cases h

/-- A value can be brought under a limit: the limit is null, or they are numbers, and the reserve
can be taken from the limit. -/
def Reckons (F : Floats) (spec : Setting) (value limit : Json) : Prop :=
  limit = .null ∨ (∃ x, F.number? value = some x) ∧ ∃ cap, minus F limit spec.reserve = .ok cap

/-- The bounds of a setting are numbers. -/
def NumericBounds (F : Floats) (spec : Setting) : Prop :=
  (∀ low ∈ spec.min, ∃ x, F.number? low = some x) ∧
    ∀ high ∈ spec.max, ∃ x, F.number? high = some x

theorem exists_least (hbounds : NumericBounds F spec) :
    ∃ z, F.number? (spec.min.getD (.int 0)) = some z := by
  cases hmin : spec.min with
  | none => exact ⟨_, rfl⟩
  | some low => exact hbounds.1 low hmin

/-- The value under its limit, where nothing is raised. -/
theorem capBelow_of_reckons (hbounds : NumericBounds F spec) {cap : Json} {x y : Worth}
    (hnull : limit ≠ .null) (hcap : minus F limit spec.reserve = .ok cap)
    (hx : F.number? value = some x) (hy : F.number? cap = some y) :
    ∃ z, F.number? (spec.min.getD (.int 0)) = some z ∧
      capBelow F spec value limit =
        .ok (if Worth.le x y = true then value
          else if Worth.lt y z = true then .null else cap) := by
  obtain ⟨z, hz⟩ := exists_least hbounds
  refine ⟨z, hz, ?_⟩
  unfold capBelow
  rw [if_neg hnull, hcap]
  simp only [bind, Except.bind, compare_eq hx hy, compare_eq hy hz]
  split
  · rfl
  · split <;> rfl

theorem capBelow_ok_iff (hbounds : NumericBounds F spec) :
    (∃ out, capBelow F spec value limit = .ok out) ↔ Reckons F spec value limit := by
  by_cases hnull : limit = .null
  · exact ⟨fun _ => .inl hnull, fun _ => ⟨value, if_pos hnull⟩⟩
  constructor
  · rintro ⟨out, hout⟩
    unfold capBelow at hout
    rw [if_neg hnull] at hout
    cases hcap : minus F limit spec.reserve with
    | error e =>
      rw [hcap] at hout
      cases hout
    | ok cap =>
      rw [hcap] at hout
      refine .inr ⟨?_, cap, hcap⟩
      cases hvalue : F.number? value with
      | some x => exact ⟨x, rfl⟩
      | none =>
        simp [ServiceSettings.compare, hvalue, bind, Except.bind] at hout
  · rintro (h | ⟨⟨x, hx⟩, cap, hcap⟩)
    · exact absurd h hnull
    · obtain ⟨y, hy⟩ := minus_number hcap
      obtain ⟨z, -, hout⟩ := capBelow_of_reckons hbounds hnull hcap hx hy
      exact ⟨_, hout⟩

/-- What becomes of a value under a limit: it stays as it is, under the cap if there is one; it is
dropped; or it sinks to the cap, which is not less than the minimum. -/
theorem capBelow_cases (hbounds : NumericBounds F spec) {out : Json}
    (h : capBelow F spec value limit = .ok out) :
    out = .null ∨ (out = value ∧ limit = .null) ∨
      ∃ cap, minus F limit spec.reserve = .ok cap ∧
        (out = value ∧ AtMost F value cap ∨
          out = cap ∧ ¬AtMost F value cap ∧
            ServiceSettings.compare F Worth.lt cap (spec.min.getD (.int 0)) = .ok false) := by
  by_cases hnull : limit = .null
  · rw [capBelow, if_pos hnull] at h
    exact .inr (.inl ⟨(Except.ok.inj h).symm, hnull⟩)
  obtain ⟨⟨x, hx⟩, cap, hcap⟩ := ((capBelow_ok_iff hbounds).mp ⟨out, h⟩).resolve_left hnull
  obtain ⟨y, hy⟩ := minus_number hcap
  obtain ⟨z, hz, hout⟩ := capBelow_of_reckons hbounds hnull hcap hx hy
  obtain rfl := Except.ok.inj (h.symm.trans hout)
  by_cases hle : Worth.le x y = true
  · rw [if_pos hle]
    exact .inr (.inr ⟨cap, hcap, .inl ⟨rfl, (atMost_iff hx hy).mpr hle⟩⟩)
  · rw [if_neg hle]
    by_cases hlt : Worth.lt y z = true
    · exact .inl (if_pos hlt)
    · rw [if_neg hlt]
      refine .inr (.inr ⟨cap, hcap, .inr ⟨rfl, fun hatMost => ?_, ?_⟩⟩)
      · exact hle ((atMost_iff hx hy).mp hatMost)
      · rw [compare_eq hy hz, Bool.eq_false_iff.mpr hlt]

end Numbers

end VoiceAgent.SettingsSchema
