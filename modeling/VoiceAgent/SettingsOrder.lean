import VoiceAgent.SettingsCoercion
import Mathlib.Data.List.Nodup
import Mathlib.Data.List.Induction

/-!
The profiles that load, and the loop over the settings with a limit. A turn of the loop changes
its own setting, and what that requires if it is turned off for its limit; the settings are applied
without an exception exactly if no value overflows, what a value requires can be looked up, and
each turn can reckon with its limit.
-/
namespace VoiceAgent.SettingsOrder

open JsonValues SessionView ServiceSettings SettingsSchema SettingsCoercion

section Profiles

def isNumeric (kind : Kind) : Bool := decide (kind = .int) || decide (kind = .float)

/-- What a profile is checked for as it is loaded; a text or a negative number is no reserve to
begin with. -/
def acceptsSetting (profile : Schema) (spec : Setting) : Bool :=
  match spec.below with
  | none => decide (spec.reserve = 0)
  | some below => isNumeric spec.kind &&
    (profile.lookup below).any fun target => decide (target.kind = spec.kind)

/-- An int or a float. -/
def isNumberLiteral (value : Json) : Bool :=
  match value with
  | .int _ | .float _ => true
  | _ => false

/-- A profile that loads, with numeric bounds and unrelated paths. -/
structure Accepted (schema : Schema) : Prop where
  names : (schema.map Prod.fst).Nodup
  loads : ∀ s ∈ schema, acceptsSetting schema s.2 = true
  min : ∀ s ∈ schema, ∀ low ∈ s.2.min, isNumberLiteral low = true
  max : ∀ s ∈ schema, ∀ high ∈ s.2.max, isNumberLiteral high = true
  paths : schema.Pairwise fun s t => Unrelated (pathOf s) (pathOf t)

variable {F : Floats} {schema : Schema} {s t : String × Setting}

theorem isNumeric_iff (kind : Kind) : isNumeric kind = true ↔ kind = .int ∨ kind = .float := by
  cases kind <;> simp [isNumeric]

theorem Accepted.bounds (hacc : Accepted schema) (hs : s ∈ schema) : NumericBounds F s.2 := by
  have hnumber : ∀ value, isNumberLiteral value = true → ∃ x, F.number? value = some x := by
    intro value h
    cases value with
    | int n => exact ⟨_, rfl⟩
    | float text => exact ⟨_, rfl⟩
    | _ => cases h
  exact ⟨fun low hlow => hnumber low (hacc.min s hs low hlow),
    fun high hhigh => hnumber high (hacc.max s hs high hhigh)⟩

theorem eq_of_name (hacc : Accepted schema) (hs : s ∈ schema) (ht : t ∈ schema)
    (h : s.1 = t.1) : s = t :=
  List.inj_on_of_nodup_map hacc.names hs ht h

/-- What a setting is kept under is a setting, and both are numbers of one kind. -/
theorem exists_below (hacc : Accepted schema) (hs : s ∈ schema) {below : String}
    (hbelow : s.2.below = some below) :
    isNumeric s.2.kind = true ∧ ∃ t ∈ schema, below = t.1 ∧ t.2.kind = s.2.kind := by
  have hload := hacc.loads s hs
  unfold acceptsSetting at hload
  rw [hbelow] at hload
  obtain ⟨hnum, htarget⟩ := Bool.and_eq_true_iff.mp hload
  obtain ⟨target, hlookup, hkind⟩ := (Option.any_eq_true _ _).mp htarget
  refine ⟨hnum, (below, target), ?_, rfl, of_decide_eq_true hkind⟩
  obtain ⟨before, after, hsplit, -⟩ := List.lookup_eq_some_iff.mp hlookup
  rw [hsplit]
  exact List.mem_append_right before List.mem_cons_self

theorem below_of_limit {below : String} (h : s.2.limit? = some below) :
    s.2.below = some below ∧ below ≠ "" := by
  obtain ⟨hbelow, hne⟩ := Option.filter_eq_some_iff.mp h
  exact ⟨hbelow, of_decide_eq_true hne⟩

end Profiles

section Steps
variable {F : Floats} {r r' : Resolved} {n : String × Setting} {value : Json} {key below : String}

theorem ne_null_of_truthy {value : Json} (h : truthy (some value) = true) : value ≠ .null := by
  rintro rfl
  cases h

/-- The setting itself comes to the value, and what it requires is turned off with it. -/
theorem lower_cases (r : Resolved) (n : String × Setting) (value : Json) (key : String) :
    r.lower n.1 n.2 value key = r.set n.1 value key ∨
      (value = .null ∧ n.2.requires = .str key ∧ key ≠ "" ∧
        r.lower n.1 n.2 value key = .bool false) := by
  unfold Resolved.lower
  cases hrequires : n.2.requires with
  | str name =>
    dsimp only
    split
    · next hoff =>
      by_cases hkey : key = name
      · subst hkey
        exact .inr ⟨hoff.1, rfl, hoff.2, if_pos rfl⟩
      · exact .inl (if_neg hkey)
    · exact .inl rfl
  | _ => exact .inl rfl

/-- What a round of the loop does: it passes a setting that has no limit or is off, or brings one
under its limit. -/
theorem capStep_cases (h : capStep F r n = .ok r') :
    (r' = r ∧ (n.2.limit? = none ∨ Answers r n ∧ isOn r n = false)) ∨
      ∃ below value, n.2.limit? = some below ∧ Answers r n ∧ isOn r n = true ∧
        capBelow F n.2 (r n.1) (r below) = .ok value ∧ r' = r.lower n.1 n.2 value := by
  unfold capStep at h
  dsimp only at h
  cases hlimit : n.2.limit? with
  | none =>
    rw [hlimit] at h
    exact .inl ⟨(Except.ok.inj h).symm, .inl rfl⟩
  | some below =>
    rw [hlimit] at h
    dsimp only at h
    cases hactive : active r n.1 n.2 with
    | error e =>
      rw [hactive] at h
      cases h
    | ok on =>
      have hanswers := answers_of_active hactive
      obtain rfl := Except.ok.inj (hactive.symm.trans hanswers.active)
      rw [hactive] at h
      cases hon : isOn r n with
      | false =>
        rw [hon] at h
        exact .inl ⟨(Except.ok.inj h).symm, .inr ⟨hanswers, rfl⟩⟩
      | true =>
        rw [hon] at h
        cases hvalue : capBelow F n.2 (r n.1) (r below) with
        | error e =>
          simp [bind, Except.bind, hvalue] at h
        | ok value =>
          simp only [bind, Except.bind, hvalue, if_true] at h
          exact .inr ⟨below, value, rfl, hanswers, rfl, hvalue, (Except.ok.inj h).symm⟩

/-- A round raises nothing where the requirement can be looked up and the limit reckoned with. -/
theorem capStep_ok_iff (hbounds : NumericBounds F n.2) :
    (∃ r', capStep F r n = .ok r') ↔ ∀ below, n.2.limit? = some below →
      Answers r n ∧ (isOn r n = true → Reckons F n.2 (r n.1) (r below)) := by
  constructor
  · rintro ⟨r', h⟩ below hlimit
    rcases capStep_cases h with ⟨-, hnone | ⟨hanswers, hoff⟩⟩ |
      ⟨below', value, hlimit', hanswers, -, hvalue, -⟩
    · rw [hnone] at hlimit
      cases hlimit
    · exact ⟨hanswers, fun hon => absurd (hoff.symm.trans hon) (by simp)⟩
    · obtain rfl := Option.some.inj (hlimit.symm.trans hlimit')
      exact ⟨hanswers, fun _ => (capBelow_ok_iff hbounds).mp ⟨value, hvalue⟩⟩
  · intro h
    unfold capStep
    dsimp only
    cases hlimit : n.2.limit? with
    | none => exact ⟨r, rfl⟩
    | some below =>
      obtain ⟨hanswers, hreckons⟩ := h below hlimit
      dsimp only
      rw [hanswers.active]
      cases hon : isOn r n with
      | false => exact ⟨r, rfl⟩
      | true =>
        obtain ⟨value, hvalue⟩ := (capBelow_ok_iff hbounds).mpr (hreckons hon)
        refine ⟨r.lower n.1 n.2 value, ?_⟩
        simp [bind, Except.bind, hvalue, pure, Except.pure]

/-- Another setting is as it was, or on until now and turned off. -/
theorem capStep_other (h : capStep F r n = .ok r') (hne : key ≠ n.1) :
    r' key = r key ∨ (r' key = .bool false ∧ n.2.requires = .str key ∧
      n.2.limit? ≠ none ∧ truthy (some (r key)) = true) := by
  rcases capStep_cases h with ⟨rfl, -⟩ | ⟨below, value, hlimit, -, hon, -, rfl⟩
  · exact .inl rfl
  · rcases lower_cases r n value key with hset | ⟨-, hrequires, hkey, hfalse⟩
    · exact .inl (hset.trans (if_neg hne))
    · have hname : truthy (some n.2.requires) = true := by
        rw [hrequires]
        unfold truthy
        split <;> simp_all
      have htrue := (isOn_iff.mp hon).2 hname
      rw [hrequires] at htrue
      exact .inr ⟨hfalse, hrequires, by simp [hlimit], htrue⟩

/-- What is null stays null. -/
theorem capStep_null (h : capStep F r n = .ok r') (hnull : r key = .null) : r' key = .null := by
  by_cases hkey : key = n.1
  · subst hkey
    rcases capStep_cases h with ⟨rfl, -⟩ | ⟨below, value, -, -, hon, -, -⟩
    · exact hnull
    · exact absurd hnull (isOn_iff.mp hon).1
  · rcases capStep_other h hkey with hsame | ⟨-, -, -, htrue⟩
    · exact hsame.trans hnull
    · exact absurd hnull (ne_null_of_truthy htrue)

/-- A setting is set to null in its own turn only. -/
theorem capStep_ne_null (h : capStep F r n = .ok r') (hne : key = n.1 → n.2.limit? = none)
    (hvalue : r key ≠ .null) : r' key ≠ .null := by
  by_cases hkey : key = n.1
  · rcases capStep_cases h with ⟨rfl, -⟩ | ⟨below, value, hlimit, -⟩
    · exact hvalue
    · rw [hne hkey] at hlimit
      cases hlimit
  · rcases capStep_other h hkey with hsame | ⟨hfalse, -⟩
    · rwa [hsame]
    · simp [hfalse]

end Steps

section Runs
variable {F : Floats} {schema before rest : Schema} {values : Fields} {r r' start : Resolved}
  {n s : String × Setting} {key : String}

/-- The settings as the loop comes to the setting behind these. -/
def standing (F : Floats) (schema : Schema) (values : Fields) (before : Schema) :
    Except Raised Resolved := do
  before.foldlM (capStep F) (← coerceAll F values schema)

theorem standing_all (F : Floats) (schema : Schema) (values : Fields) :
    resolve F schema values = standing F schema values schema := rfl

theorem foldlM_concat :
    (before ++ [n]).foldlM (capStep F) start = .ok r' ↔
      ∃ r, before.foldlM (capStep F) start = .ok r ∧ capStep F r n = .ok r' := by
  rw [List.foldlM_append]
  cases before.foldlM (capStep F) start with
  | error e => simp [bind, Except.bind]
  | ok r =>
    cases hstep : capStep F r n <;>
      simp [bind, Except.bind, List.foldlM_cons, List.foldlM_nil, pure, Except.pure, hstep]

theorem standing_eq : standing F schema values before = .ok r ↔
    ∃ start, coerceAll F values schema = .ok start ∧
      before.foldlM (capStep F) start = .ok r := by
  unfold standing
  cases coerceAll F values schema with
  | error e => simp [bind, Except.bind]
  | ok start => simp [bind, Except.bind]

theorem standing_concat :
    standing F schema values (before ++ [n]) = .ok r' ↔
      ∃ r, standing F schema values before = .ok r ∧ capStep F r n = .ok r' := by
  simp only [standing_eq, foldlM_concat]
  constructor
  · rintro ⟨start, hstart, r, hr, hstep⟩
    exact ⟨r, ⟨start, hstart, hr⟩, hstep⟩
  · rintro ⟨r, ⟨start, hstart, hr⟩, hstep⟩
    exact ⟨start, hstart, r, hr, hstep⟩

/-- The loop passes each of its turns. -/
theorem standing_before (h : standing F schema values (before ++ rest) = .ok r') :
    ∃ r, standing F schema values before = .ok r ∧ rest.foldlM (capStep F) r = .ok r' := by
  obtain ⟨start, hstart, hrun⟩ := standing_eq.mp h
  rw [List.foldlM_append] at hrun
  cases hbefore : before.foldlM (capStep F) start with
  | error e =>
    rw [hbefore] at hrun
    cases hrun
  | ok r =>
    rw [hbefore] at hrun
    exact ⟨r, standing_eq.mpr ⟨start, hstart, hbefore⟩, hrun⟩

/-- What every round keeps, the loop keeps. -/
theorem foldlM_keeps {P : Resolved → Prop}
    (hstep : ∀ n ∈ before, ∀ r r', capStep F r n = .ok r' → P r → P r')
    (h : before.foldlM (capStep F) r = .ok r') (hr : P r) : P r' := by
  induction before using List.reverseRecOn generalizing r' with
  | nil =>
    rw [← Except.ok.inj h]
    exact hr
  | append_singleton before n ih =>
    obtain ⟨mid, hmid, hlast⟩ := foldlM_concat.mp h
    exact hstep n (by simp) mid r' hlast
      (ih (fun m hm => hstep m (List.mem_append_left [n] hm)) hmid)

theorem foldlM_null (h : before.foldlM (capStep F) r = .ok r') (hnull : r key = .null) :
    r' key = .null :=
  foldlM_keeps (P := fun r => r key = .null) (fun _ _ _ _ hstep => capStep_null hstep) h hnull

theorem foldlM_ne_null (h : before.foldlM (capStep F) r = .ok r')
    (hown : ∀ n ∈ before, key = n.1 → n.2.limit? = none) (hvalue : r key ≠ .null) :
    r' key ≠ .null :=
  foldlM_keeps (P := fun r => r key ≠ .null)
    (fun n hn _ _ hstep => capStep_ne_null hstep (hown n hn)) h hvalue

end Runs

section Start
variable {F : Floats} {schema : Schema} {values : Fields} {s : String × Setting}
  {start : Resolved}

/-- What the client's value, or the default, comes to before any limit is applied. -/
def Coerces (F : Floats) (values : Fields) (s : String × Setting) (value : Json) : Prop :=
  coerceSetting F s.2 (values.get? s.1) = .ok value

theorem coerces_unique {v w : Json} (hv : Coerces F values s v) (hw : Coerces F values s w) :
    v = w := Except.ok.inj (Eq.trans (Eq.symm hv) hw)

/-- The settings at the start are what their values come to; what is not declared is null. -/
theorem coerceAll_eq (hnames : (schema.map Prod.fst).Nodup)
    (h : coerceAll F values schema = .ok start) :
    (∀ s ∈ schema, Coerces F values s (start s.1)) ∧
      ∀ key, key ∉ schema.map Prod.fst → start key = .null := by
  induction schema generalizing start with
  | nil =>
    rw [← Except.ok.inj h]
    exact ⟨by simp, fun _ _ => rfl⟩
  | cons n rest ih =>
    rw [List.map_cons, List.nodup_cons] at hnames
    cases hv : coerceSetting F n.2 (values.get? n.1) with
    | error e => simp [coerceAll, hv, bind, Except.bind] at h
    | ok v =>
      cases hlater : coerceAll F values rest with
      | error e => simp [coerceAll, hv, hlater, bind, Except.bind] at h
      | ok later =>
        obtain rfl : later.set n.1 v = start := by
          simpa [coerceAll, hv, hlater, bind, Except.bind] using h
        obtain ⟨hcoerces, hundeclared⟩ := ih hnames.2 hlater
        refine ⟨?_, ?_⟩
        · intro s hs
          rcases List.mem_cons.mp hs with rfl | hs
          · have hself : (later.set s.1 v) s.1 = v := if_pos rfl
            rw [hself]
            exact hv
          · have hne : s.1 ≠ n.1 := fun heq => hnames.1 (heq ▸ List.mem_map_of_mem hs)
            have hother : (later.set n.1 v) s.1 = later s.1 := if_neg hne
            rw [hother]
            exact hcoerces s hs
        · intro key hkey
          rw [List.map_cons, List.mem_cons, not_or] at hkey
          exact (if_neg hkey.1).trans (hundeclared key hkey.2)

theorem exists_coerceAll :
    (∃ start, coerceAll F values schema = .ok start) ↔ ∀ s ∈ schema, ∃ v, Coerces F values s v := by
  induction schema with
  | nil => exact ⟨fun _ => by simp, fun _ => ⟨fun _ => .null, rfl⟩⟩
  | cons n rest ih =>
    rw [List.forall_mem_cons, ← ih]
    unfold Coerces
    cases hv : coerceSetting F n.2 (values.get? n.1) with
    | error e => simp [coerceAll, hv, bind, Except.bind]
    | ok v =>
      cases hlater : coerceAll F values rest with
      | error e => simp [coerceAll, hv, hlater, bind, Except.bind]
      | ok later => simp [coerceAll, hv, hlater, bind, Except.bind]

/-- A value is coerced unless it overflows. -/
theorem exists_coerces (hF : FloatLaws F) (hbounds : NumericBounds F s.2) :
    (∃ v, Coerces F values s v) ↔ ∀ raw ∈ values.get? s.1, overflows F s.2.kind raw = false := by
  constructor
  · rintro ⟨v, hv⟩ raw hraw
    by_contra hover
    obtain ⟨hkind, hnull, hnumber⟩ := coerceNumber_overflow (by simpa using hover)
    have herror : coerceSetting F s.2 (values.get? s.1) = .error .overflowError := by
      rw [Option.mem_def.mp hraw, coerceSetting_number F s.2 hkind hnull, hnumber]
      rfl
    rw [Coerces, herror] at hv
    cases hv
  · intro hover
    rcases coerceSetting_ok hF hbounds hover with htakes | ⟨v, hclient, -⟩
    · exact ⟨_, htakes s.2.default⟩
    · exact ⟨v, hclient s.2.default⟩

end Start

section Applied
variable {F : Floats} {schema before rest : Schema} {values : Fields} {r : Resolved}
  {n s : String × Setting}

/-- The inputs for which nothing is raised: no value of the client's overflows, what a setting
with a value requires can be looked up, and each turn can reckon with its limit. -/
structure Returns (F : Floats) (schema : Schema) (values : Fields) : Prop where
  overflow : ∀ s ∈ schema, ∀ raw ∈ values.get? s.1, overflows F s.2.kind raw = false
  hashable : ∀ s ∈ schema, unhashable s.2.requires = true → Coerces F values s .null
  reckons : ∀ before n rest r below, schema = before ++ n :: rest →
    standing F schema values before = .ok r → n.2.limit? = some below → isOn r n = true →
      Reckons F n.2 (r n.1) (r below)

/-- A setting that starts out as null stays null. -/
theorem standing_null (hacc : Accepted schema) (hs : s ∈ schema) (hnull : Coerces F values s .null)
    (h : standing F schema values before = .ok r) : r s.1 = .null := by
  obtain ⟨start, hstart, hrun⟩ := standing_eq.mp h
  exact foldlM_null hrun (coerces_unique ((coerceAll_eq hacc.names hstart).1 s hs) hnull)

theorem exists_standing (hF : FloatLaws F) (hacc : Accepted schema)
    (h : Returns F schema values) (hsplit : schema = before ++ rest) :
    ∃ r, standing F schema values before = .ok r := by
  induction before using List.reverseRecOn generalizing rest with
  | nil =>
    obtain ⟨start, hstart⟩ := exists_coerceAll.mpr fun s hs =>
      (exists_coerces hF (hacc.bounds hs)).mpr (h.overflow s hs)
    exact ⟨start, standing_eq.mpr ⟨start, hstart, rfl⟩⟩
  | append_singleton before n ih =>
    rw [List.append_assoc, List.singleton_append] at hsplit
    obtain ⟨r, hr⟩ := ih hsplit
    have hn : n ∈ schema := by
      rw [hsplit]
      exact List.mem_append_right before List.mem_cons_self
    obtain ⟨r', hstep⟩ := (capStep_ok_iff (F := F) (r := r) (hacc.bounds hn)).mpr
      fun below hlimit =>
        ⟨fun hrequires => standing_null hacc hn (h.hashable n hn hrequires) hr,
          h.reckons before n rest r below hsplit hr hlimit⟩
    exact ⟨r', standing_concat.mpr ⟨r, hr, hstep⟩⟩

/-- A setting with a value that is no name to be looked up raises sooner or later. -/
theorem hashable_of_standing (hacc : Accepted schema)
    (hr : standing F schema values schema = .ok r) (hall : ∀ s ∈ schema, Answers r s)
    (hs : s ∈ schema) (hrequires : unhashable s.2.requires = true) : Coerces F values s .null := by
  obtain ⟨before, rest, hsplit⟩ := List.append_of_mem hs
  have hnodup := hacc.names
  rw [hsplit, List.map_append, List.map_cons] at hnodup
  obtain ⟨start, hstart, hrun⟩ := standing_eq.mp hr
  have hcoerces := (coerceAll_eq hacc.names hstart).1 s hs
  by_contra hvalue
  have hne : start s.1 ≠ .null := fun hnull => hvalue (hnull ▸ hcoerces)
  have hbefore : ∀ n ∈ before, s.1 = n.1 → n.2.limit? = none := fun n hn heq =>
    absurd (heq ▸ List.mem_map_of_mem hn : s.1 ∈ before.map Prod.fst)
      fun hmem => (List.disjoint_of_nodup_append hnodup) hmem List.mem_cons_self
  have hrest : ∀ n ∈ rest, s.1 = n.1 → n.2.limit? = none := fun n hn heq =>
    absurd (heq ▸ List.mem_map_of_mem hn : s.1 ∈ rest.map Prod.fst)
      (List.nodup_cons.mp (List.Nodup.of_append_right hnodup)).1
  rw [hsplit] at hr
  obtain ⟨r₀, hr₀, hlast⟩ := standing_before hr
  obtain ⟨start', hstart', hrun₀⟩ := standing_eq.mp hr₀
  obtain rfl := Except.ok.inj (hstart.symm.trans (hsplit ▸ hstart'))
  have hr₀ne : r₀ s.1 ≠ .null := foldlM_ne_null hrun₀ hbefore hne
  rw [List.foldlM_cons] at hlast
  cases hstep : capStep F r₀ s with
  | error e =>
    rw [hstep] at hlast
    cases hlast
  | ok r₁ =>
    rw [hstep] at hlast
    rcases capStep_cases hstep with ⟨hsame, hnone | ⟨hanswers, -⟩⟩ | ⟨_, _, -, hanswers, -⟩
    · exact foldlM_ne_null hlast hrest (hsame ▸ hr₀ne) (hall s hs hrequires)
    · exact hr₀ne (hanswers hrequires)
    · exact hr₀ne (hanswers hrequires)

/-- The settings are applied without an exception exactly on these inputs. -/
theorem applied_iff (hF : FloatLaws F) (hacc : Accepted schema) {extraParams out : Fields} :
    applyServiceSettings F extraParams schema values = .ok out ↔
      Returns F schema values ∧ ∃ r, standing F schema values schema = .ok r ∧
        out = schema.foldl (written r) extraParams := by
  have happly : applyServiceSettings F extraParams schema values = .ok out ↔
      ∃ r, standing F schema values schema = .ok r ∧ (∀ s ∈ schema, Answers r s) ∧
        out = schema.foldl (written r) extraParams := by
    unfold applyServiceSettings
    rw [standing_all]
    cases hr : standing F schema values schema with
    | error e => simp [bind, Except.bind]
    | ok r =>
      change schema.foldlM (writeSetting r) extraParams = .ok out ↔ _
      rw [foldlM_writeSetting]
      simp
  rw [happly]
  constructor
  · rintro ⟨r, hr, hall, hout⟩
    refine ⟨⟨fun s hs => ?_, fun s hs => hashable_of_standing hacc hr hall hs, ?_⟩, r, hr, hout⟩
    · obtain ⟨start, hstart, -⟩ := standing_eq.mp hr
      exact (exists_coerces hF (hacc.bounds hs)).mp (exists_coerceAll.mp ⟨start, hstart⟩ s hs)
    · intro before n rest r₀ below hsplit hr₀ hlimit hon
      have hn : n ∈ schema := by
        rw [hsplit]
        exact List.mem_append_right before List.mem_cons_self
      have hwhole : standing F schema values (before ++ n :: rest) = .ok r := hsplit ▸ hr
      obtain ⟨r₀', hr₀', hlast⟩ := standing_before hwhole
      obtain rfl := Except.ok.inj (hr₀.symm.trans hr₀')
      rw [List.foldlM_cons] at hlast
      have hstep : ∃ r₁, capStep F r₀ n = .ok r₁ := by
        cases hstep : capStep F r₀ n with
        | error e =>
          rw [hstep] at hlast
          cases hlast
        | ok r₁ => exact ⟨r₁, rfl⟩
      exact ((capStep_ok_iff (hacc.bounds hn)).mp hstep below hlimit).2 hon
  · rintro ⟨hreturns, r, hr, hout⟩
    exact ⟨r, hr, fun s hs hrequires => standing_null hacc hs (hreturns.hashable s hs hrequires) hr,
      hout⟩

end Applied

end VoiceAgent.SettingsOrder
