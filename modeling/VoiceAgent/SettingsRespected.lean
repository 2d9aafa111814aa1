import VoiceAgent.SettingsOrder

/-!
A settings profile is respected: nothing is raised, and what is written keeps to its bounds, its
limit and its requirement. What the start and its own turn make of a setting is in order; so the
profile is respected exactly if what other turns have changed since, by lowering a limit or turning
a requirement off, is still in order.
-/
namespace VoiceAgent.SettingsRespected

open JsonValues SessionView ServiceSettings SettingsSchema SettingsCoercion SettingsOrder

section Written
variable {F : Floats} {schema : Schema} {values out : Fields} {r : Resolved}
  {s : String × Setting}

/-- What is written keeps to the schema: what comes of a client's value may be written, a setting
is under its limit, and none is there that requires what is off or was removed. -/
structure Respects (F : Floats) (schema : Schema) (values out : Fields) : Prop where
  client : ∀ s ∈ schema, ∀ v, ClientValue F s.2 (values.get? s.1) v →
    ∀ w, getPath (pathOf s) out = some w → Within F s.2 w
  below : ∀ s ∈ schema, ∀ t ∈ schema, s.2.below = some t.1 →
    ∀ v w, getPath (pathOf s) out = some v → getPath (pathOf t) out = some w →
      ∃ cap, minus F w s.2.reserve = .ok cap ∧ AtMost F v cap
  requires : ∀ s ∈ schema, truthy (some s.2.requires) = true →
    (∀ q ∈ schema, s.2.requires = .str q.1 → ∀ w, getPath (pathOf q) out = some w →
      truthy (some w) = false) →
    getPath (pathOf s) out = none

/-- The same of the settings that are written. -/
structure Coherent (F : Floats) (schema : Schema) (values : Fields) (r : Resolved) : Prop where
  client : ∀ s ∈ schema, isOn r s = true → ∀ v, ClientValue F s.2 (values.get? s.1) v →
    Within F s.2 (r s.1)
  below : ∀ s ∈ schema, ∀ t ∈ schema, s.2.below = some t.1 → isOn r s = true → isOn r t = true →
    ∃ cap, minus F (r t.1) s.2.reserve = .ok cap ∧ AtMost F (r s.1) cap
  requires : ∀ s ∈ schema, isOn r s = true → truthy (some s.2.requires) = true →
    ∃ q ∈ schema, s.2.requires = .str q.1 ∧ isOn r q = true ∧ truthy (some (r q.1)) = true

theorem getPath_on (hacc : Accepted schema) (hs : s ∈ schema) (extraParams : Fields) (w : Json) :
    getPath (pathOf s) (schema.foldl (written r) extraParams) = some w ↔
      isOn r s = true ∧ r s.1 = w := by
  rw [getPath_written hacc.paths hs]
  cases isOn r s <;> simp

theorem respects_iff (hacc : Accepted schema) (extraParams : Fields) :
    Respects F schema values (schema.foldl (written r) extraParams) ↔
      Coherent F schema values r := by
  constructor
  · intro h
    refine ⟨fun s hs hon v hv => ?_, fun s hs t ht hbelow hon hton => ?_,
      fun s hs hon hrequires => ?_⟩
    · exact h.client s hs v hv _ ((getPath_on hacc hs extraParams _).mpr ⟨hon, rfl⟩)
    · exact h.below s hs t ht hbelow _ _ ((getPath_on hacc hs extraParams _).mpr ⟨hon, rfl⟩)
        ((getPath_on hacc ht extraParams _).mpr ⟨hton, rfl⟩)
    · by_contra hnone
      have hoff := h.requires s hs hrequires fun q hq hname w hw => by
        obtain ⟨hqon, rfl⟩ := (getPath_on hacc hq extraParams w).mp hw
        exact Bool.eq_false_iff.mpr fun htrue => hnone ⟨q, hq, hname, hqon, htrue⟩
      rw [(getPath_on hacc hs extraParams _).mpr ⟨hon, rfl⟩] at hoff
      cases hoff
  · intro h
    refine ⟨fun s hs v hv w hw => ?_, fun s hs t ht hbelow v w hv hw => ?_,
      fun s hs hrequires hoff => ?_⟩
    · obtain ⟨hon, rfl⟩ := (getPath_on hacc hs extraParams w).mp hw
      exact h.client s hs hon v hv
    · obtain ⟨hon, rfl⟩ := (getPath_on hacc hs extraParams v).mp hv
      obtain ⟨hton, rfl⟩ := (getPath_on hacc ht extraParams w).mp hw
      exact h.below s hs t ht hbelow hon hton
    · by_contra hsome
      obtain ⟨w, hw⟩ := Option.ne_none_iff_exists'.mp hsome
      obtain ⟨hon, -⟩ := (getPath_on hacc hs extraParams w).mp hw
      obtain ⟨q, hq, hname, hqon, htrue⟩ := h.requires s hs hon hrequires
      rw [hoff q hq hname _ ((getPath_on hacc hq extraParams _).mpr ⟨hqon, rfl⟩)] at htrue
      cases htrue

end Written

section Courses
variable {F : Floats} {schema : Schema} {values : Fields} {r₀ r₁ r : Resolved}
  {s t : String × Setting} {below : String}

/-- The settings before and after the turn of one of them, and when the loop is done. -/
structure Course (F : Floats) (schema : Schema) (values : Fields) (s : String × Setting)
    (r₀ r₁ r : Resolved) : Prop where
  before : ∃ before rest, schema = before ++ s :: rest ∧ standing F schema values before = .ok r₀
  turn : capStep F r₀ s = .ok r₁
  done : standing F schema values schema = .ok r

theorem Course.mem (h : Course F schema values s r₀ r₁ r) : s ∈ schema := by
  obtain ⟨before, rest, hsplit, -⟩ := h.before
  rw [hsplit]
  exact List.mem_append_right before List.mem_cons_self

theorem exists_course (hs : s ∈ schema) (hr : standing F schema values schema = .ok r) :
    ∃ r₀ r₁, Course F schema values s r₀ r₁ r := by
  obtain ⟨before, rest, hsplit⟩ := List.append_of_mem hs
  have hwhole : standing F schema values (before ++ s :: rest) = .ok r := hsplit ▸ hr
  obtain ⟨r₀, hr₀, hlast⟩ := standing_before hwhole
  rw [List.foldlM_cons] at hlast
  cases hstep : capStep F r₀ s with
  | error e =>
    rw [hstep] at hlast
    cases hlast
  | ok r₁ => exact ⟨r₀, r₁, ⟨before, rest, hsplit, hr₀⟩, hstep, hr⟩

/-- The client's value is not refused. -/
def TakesClient (F : Floats) (values : Fields) (s : String × Setting) : Prop :=
  ¬TakesDefault F s.2 (values.get? s.1)

/-- No turn but its own has changed the setting. -/
def Undisturbed (F : Floats) (values : Fields) (s : String × Setting) (r₀ r₁ r : Resolved) :
    Prop :=
  Coerces F values s (r₀ s.1) ∧ r s.1 = r₁ s.1

/-- The setting is as its turn has left it, and that was under the limit as it still is. -/
def KeptUnder (s t : String × Setting) (r₀ r₁ r : Resolved) : Prop :=
  s.2.limit? = some t.1 ∧ isOn r₀ s = true ∧ r s.1 = r₁ s.1 ∧ r t.1 = r₀ t.1

/-- The inputs on which the settings are respected. Nothing is raised; and of the settings that are
on when the loop is done, one with a number of the client's has its bounds in order, and was not
brought under a cap that is no number; one that other turns have changed may be written as it is;
one whose limit other turns have changed is under it as it is; and what one requires requires
nothing that is off. -/
structure Orderly (F : Floats) (schema : Schema) (values : Fields) : Prop where
  returns : Returns F schema values
  bounds : ∀ s r₀ r₁ r, Course F schema values s r₀ r₁ r → isOn r s = true →
    TakesClient F values s → isNumeric s.2.kind = true → BoundsInOrder F s.2
  number : ∀ s r₀ r₁ r, Course F schema values s r₀ r₁ r → isOn r s = true →
    ∀ below cap, s.2.limit? = some below → isOn r₀ s = true → r s.1 = r₁ s.1 →
      (TakesClient F values s ∨ ∃ t ∈ schema, KeptUnder s t r₀ r₁ r ∧ isOn r t = true) →
        minus F (r₀ below) s.2.reserve = .ok cap → IsNumber F cap
  disturbed : ∀ s r₀ r₁ r, Course F schema values s r₀ r₁ r → isOn r s = true →
    TakesClient F values s → ¬Undisturbed F values s r₀ r₁ r → Within F s.2 (r s.1)
  limits : ∀ s r₀ r₁ r, Course F schema values s r₀ r₁ r → isOn r s = true →
    ∀ t ∈ schema, s.2.below = some t.1 → isOn r t = true → ¬KeptUnder s t r₀ r₁ r →
      ∃ cap, minus F (r t.1) s.2.reserve = .ok cap ∧ AtMost F (r s.1) cap
  requirements : ∀ s r₀ r₁ r, Course F schema values s r₀ r₁ r → isOn r s = true →
    truthy (some s.2.requires) = true → ∀ q ∈ schema, s.2.requires = .str q.1 →
      truthy (some q.2.requires) = true → Resolved.isTrue r q.2.requires = true

/-- The value that a setting which stays on is brought to in its turn. -/
theorem Course.capped (h : Course F schema values s r₀ r₁ r) (hon : isOn r s = true)
    (hsame : r s.1 = r₁ s.1) (hlimit : s.2.limit? = some below) (hon₀ : isOn r₀ s = true) :
    capBelow F s.2 (r₀ s.1) (r₀ below) = .ok (r s.1) := by
  rcases capStep_cases h.turn with ⟨-, hnone | ⟨-, hoff⟩⟩ |
    ⟨below', value, hlimit', -, -, hvalue, hr₁⟩
  · rw [hnone] at hlimit
    cases hlimit
  · exact absurd (hoff.symm.trans hon₀) (by simp)
  · obtain rfl := Option.some.inj (hlimit.symm.trans hlimit')
    rcases lower_cases r₀ s value s.1 with hset | ⟨-, hrequires, hne, hfalse⟩
    · have hself : r₁ s.1 = value := by
        rw [hr₁, hset]
        exact if_pos rfl
      rw [hvalue, hsame, hself]
    · -- it requires itself, and is off now
      have hname : truthy (some s.2.requires) = true := by
        rw [hrequires]
        unfold truthy
        split <;> simp_all
      have htrue := (isOn_iff.mp hon).2 hname
      rw [hrequires] at htrue
      change truthy (some (r s.1)) = true at htrue
      rw [hsame, hr₁, hfalse] at htrue
      cases htrue

/-- A setting that its turn has passed is as it was. -/
theorem Course.passed (h : Course F schema values s r₀ r₁ r)
    (hpass : s.2.limit? = none ∨ isOn r₀ s = false) : r₁ s.1 = r₀ s.1 := by
  rcases capStep_cases h.turn with ⟨hsame, -⟩ | ⟨below, value, hlimit, -, hon, -⟩
  · rw [hsame]
  · rcases hpass with hnone | hoff
    · rw [hnone] at hlimit
      cases hlimit
    · exact absurd (hoff.symm.trans hon) (by simp)

theorem within_numeric (hnum : isNumeric s.2.kind = true) (value : Json) :
    Within F s.2 value ↔ IsNumber F value ∧ Between F s.2 value := by
  unfold Within
  rcases (isNumeric_iff _).mp hnum with hkind | hkind <;> rw [hkind]

/-- A cap that is a number, and less than a value that may be written, may be written. -/
theorem between_cap {value cap : Json} (hbounds : BoundsInOrder F s.2) (hvalue : IsNumber F value)
    (hbetween : Between F s.2 value) (hcap : IsNumber F cap) (habove : ¬AtMost F value cap)
    (hleast : ServiceSettings.compare F Worth.lt cap (s.2.min.getD (.int 0)) = .ok false) :
    Between F s.2 cap := by
  obtain ⟨x, hx, hxnan⟩ := hvalue
  obtain ⟨y, hy, hynan⟩ := hcap
  have hle : AtMost F cap value := by
    refine (atMost_iff hy hx).mpr (worthLe_of_lt (worthLt_of_not_le hxnan hynan ?_))
    exact Bool.eq_false_iff.mpr fun h => habove ((atMost_iff hx hy).mpr h)
  refine ⟨fun low hlow => ?_, fun high hhigh => atMost_trans hle (hbetween.2 high hhigh)⟩
  obtain ⟨z, hz, hznan⟩ := hbounds.min low hlow
  rw [Option.mem_def.mp hlow, Option.getD_some, compare_eq hy hz] at hleast
  exact (atMost_iff hz hy).mpr (worthLe_of_not_lt hynan hznan (Except.ok.inj hleast))

/-- The client's value, once it is taken. -/
theorem within_client (hF : FloatLaws F) (hacc : Accepted schema) (hs : s ∈ schema)
    (hover : ∀ raw ∈ values.get? s.1, overflows F s.2.kind raw = false)
    (hclient : TakesClient F values s)
    (hbounds : isNumeric s.2.kind = true → BoundsInOrder F s.2) :
    ∃ v, ClientValue F s.2 (values.get? s.1) v ∧ Within F s.2 v := by
  rcases coerceSetting_ok hF (hacc.bounds hs) hover with htakes | ⟨v, hv, hwithin⟩
  · exact absurd htakes hclient
  · exact ⟨v, hv, hwithin fun hkind => hbounds ((isNumeric_iff _).mpr hkind)⟩

theorem takesClient {v : Json} (hv : ClientValue F s.2 (values.get? s.1) v) :
    TakesClient F values s := by
  intro htakes
  have hnull := Except.ok.inj ((hv .null).symm.trans (htakes .null))
  have htrue := Except.ok.inj ((hv (.bool true)).symm.trans (htakes (.bool true)))
  rw [hnull] at htrue
  cases htrue

/-- What the start and its own turn make of a client's value may be written. -/
theorem Course.within (hF : FloatLaws F) (hacc : Accepted schema)
    (hord : Orderly F schema values) (h : Course F schema values s r₀ r₁ r)
    (hon : isOn r s = true) (hclient : TakesClient F values s)
    (hundisturbed : Undisturbed F values s r₀ r₁ r) : Within F s.2 (r s.1) := by
  obtain ⟨hstart, hsame⟩ := hundisturbed
  have hbounds := hord.bounds s r₀ r₁ r h hon hclient
  obtain ⟨v, hv, hwithin⟩ := within_client hF hacc h.mem (hord.returns.overflow s h.mem) hclient
    hbounds
  obtain rfl := coerces_unique hstart (hv s.2.default)
  cases hlimit : s.2.limit? with
  | none => rwa [hsame, h.passed (.inl hlimit)]
  | some below =>
    cases hon₀ : isOn r₀ s with
    | false => rwa [hsame, h.passed (.inr hon₀)]
    | true =>
      have hnum := (exists_below hacc h.mem (below_of_limit hlimit).1).1
      have hcapped := h.capped hon hsame hlimit hon₀
      rcases capBelow_cases (hacc.bounds h.mem) hcapped with hnull | ⟨heq, -⟩ |
        ⟨cap, hcap, ⟨heq, -⟩ | ⟨heq, habove, hleast⟩⟩
      · exact absurd hnull (isOn_iff.mp hon).1
      · rwa [heq]
      · rwa [heq]
      · have hnumber := hord.number s r₀ r₁ r h hon below cap hlimit hon₀ hsame (.inl hclient) hcap
        rw [within_numeric hnum] at hwithin ⊢
        rw [heq]
        exact ⟨hnumber, between_cap (hbounds hnum) hwithin.1 hwithin.2 hnumber habove hleast⟩

/-- A setting that its turn has brought under a limit is under it. -/
theorem Course.under (hacc : Accepted schema) (hord : Orderly F schema values)
    (h : Course F schema values s r₀ r₁ r) (hon : isOn r s = true) (ht : t ∈ schema)
    (hton : isOn r t = true) (hkept : KeptUnder s t r₀ r₁ r) :
    ∃ cap, minus F (r t.1) s.2.reserve = .ok cap ∧ AtMost F (r s.1) cap := by
  obtain ⟨hlimit, hon₀, hsame, hlimitSame⟩ := id hkept
  have hcapped := h.capped hon hsame hlimit hon₀
  rcases capBelow_cases (hacc.bounds h.mem) hcapped with hnull | ⟨-, hnull⟩ |
    ⟨cap, hcap, hcases⟩
  · exact absurd hnull (isOn_iff.mp hon).1
  · exact absurd (hlimitSame.trans hnull) (isOn_iff.mp hton).1
  · refine ⟨cap, hlimitSame ▸ hcap, ?_⟩
    rcases hcases with ⟨heq, hle⟩ | ⟨heq, -⟩
    · rwa [heq]
    · rw [heq]
      exact (hord.number s r₀ r₁ r h hon t.1 cap hlimit hon₀ hsame
        (.inr ⟨t, ht, hkept, hton⟩) hcap).atMost_self

/-- A requirement that is on is written. -/
theorem Course.requirement (hacc : Accepted schema) (hord : Orderly F schema values)
    (h : Course F schema values s r₀ r₁ r) (hon : isOn r s = true)
    (hrequires : truthy (some s.2.requires) = true) :
    ∃ q ∈ schema, s.2.requires = .str q.1 ∧ isOn r q = true ∧
      truthy (some (r q.1)) = true := by
  have htrue := (isOn_iff.mp hon).2 hrequires
  cases hname : s.2.requires with
  | str name =>
    rw [hname] at htrue
    change truthy (some (r name)) = true at htrue
    have hdeclared : name ∈ schema.map Prod.fst := by
      by_contra hmissing
      obtain ⟨start, hstart, hrun⟩ := standing_eq.mp h.done
      exact ne_null_of_truthy htrue
        (foldlM_null hrun ((coerceAll_eq hacc.names hstart).2 name hmissing))
    obtain ⟨q, hq, rfl⟩ := List.mem_map.mp hdeclared
    exact ⟨q, hq, rfl, isOn_iff.mpr ⟨ne_null_of_truthy htrue,
      hord.requirements s r₀ r₁ r h hon hrequires q hq hname⟩, htrue⟩
  | _ =>
    rw [hname] at htrue
    cases htrue

theorem coherent_of_orderly (hF : FloatLaws F) (hacc : Accepted schema)
    (hord : Orderly F schema values) (hr : standing F schema values schema = .ok r) :
    Coherent F schema values r := by
  refine ⟨fun s hs hon v hv => ?_, fun s hs t ht hbelow hon hton => ?_,
    fun s hs hon hrequires => ?_⟩
  · obtain ⟨r₀, r₁, h⟩ := exists_course hs hr
    have hclient := takesClient hv
    by_cases hundisturbed : Undisturbed F values s r₀ r₁ r
    · exact h.within hF hacc hord hon hclient hundisturbed
    · exact hord.disturbed s r₀ r₁ r h hon hclient hundisturbed
  · obtain ⟨r₀, r₁, h⟩ := exists_course hs hr
    by_cases hkept : KeptUnder s t r₀ r₁ r
    · exact h.under hacc hord hon ht hton hkept
    · exact hord.limits s r₀ r₁ r h hon t ht hbelow hton hkept
  · obtain ⟨r₀, r₁, h⟩ := exists_course hs hr
    exact h.requirement hacc hord hon hrequires

/-- A value brought under a cap that is no number is none. -/
theorem Course.not_number (hacc : Accepted schema) (h : Course F schema values s r₀ r₁ r)
    (hon : isOn r s = true) (hlimit : s.2.limit? = some below) (hon₀ : isOn r₀ s = true)
    (hsame : r s.1 = r₁ s.1) {cap : Json} (hcap : minus F (r₀ below) s.2.reserve = .ok cap)
    (hnumber : ¬IsNumber F cap) : r s.1 = cap ∧ ∀ value, ¬AtMost F value cap := by
  have habove : ∀ value, ¬AtMost F value cap := by
    intro value hle
    obtain ⟨x, y, -, hy, hxy⟩ := atMost_elim hle
    refine hnumber ⟨y, hy, ?_⟩
    rintro rfl
    cases x <;> simp [Worth.le, Worth.lt] at hxy
  refine ⟨?_, habove⟩
  rcases capBelow_cases (hacc.bounds h.mem) (h.capped hon hsame hlimit hon₀) with hnull |
    ⟨-, hnull⟩ | ⟨cap', hcap', ⟨-, hle⟩ | ⟨heq, -⟩⟩
  · exact absurd hnull (isOn_iff.mp hon).1
  · rw [hnull] at hcap
    cases hcap
  · obtain rfl := Except.ok.inj (hcap.symm.trans hcap')
    exact absurd hle (habove _)
  · exact heq.trans (Except.ok.inj (hcap'.symm.trans hcap))

theorem orderly_of_coherent (hF : FloatLaws F) (hacc : Accepted schema)
    (hreturns : Returns F schema values) (hr : standing F schema values schema = .ok r)
    (hcoherent : Coherent F schema values r) : Orderly F schema values := by
  have hdone : ∀ {s r₀ r₁ r'}, Course F schema values s r₀ r₁ r' → r' = r := fun h =>
    Except.ok.inj (h.done.symm.trans hr)
  have hclient : ∀ s ∈ schema, isOn r s = true → TakesClient F values s →
      Within F s.2 (r s.1) := by
    intro s hs hon hclient
    rcases coerceSetting_ok hF (hacc.bounds hs) (hreturns.overflow s hs) with htakes | ⟨v, hv, -⟩
    · exact absurd htakes hclient
    · exact hcoherent.client s hs hon v hv
  refine ⟨hreturns, ?_, ?_, ?_, ?_, ?_⟩
  · intro s r₀ r₁ r' h hon htakes hnum
    obtain rfl := hdone h
    exact ((within_numeric hnum _).mp (hclient s h.mem hon htakes)).2.inOrder
  · intro s r₀ r₁ r' h hon below cap hlimit hon₀ hsame hcases hcap
    obtain rfl := hdone h
    by_contra hnumber
    obtain ⟨hvalue, habove⟩ := h.not_number hacc hon hlimit hon₀ hsame hcap hnumber
    rcases hcases with htakes | ⟨t, ht, ⟨hlimit', -, -, hlimitSame⟩, hton⟩
    · have hnum := (exists_below hacc h.mem (below_of_limit hlimit).1).1
      have hwithin := (within_numeric hnum _).mp (hclient s h.mem hon htakes)
      exact hnumber (hvalue ▸ hwithin.1)
    · obtain rfl := Option.some.inj (hlimit.symm.trans hlimit')
      obtain ⟨cap', hcap', hle⟩ :=
        hcoherent.below s h.mem t ht (below_of_limit hlimit).1 hon hton
      rw [hlimitSame, hcap] at hcap'
      obtain rfl := Except.ok.inj hcap'
      exact habove _ hle
  · intro s r₀ r₁ r' h hon htakes _
    obtain rfl := hdone h
    exact hclient s h.mem hon htakes
  · intro s r₀ r₁ r' h hon t ht hbelow hton _
    obtain rfl := hdone h
    exact hcoherent.below s h.mem t ht hbelow hon hton
  · intro s r₀ r₁ r' h hon hrequires q hq hname hqrequires
    obtain rfl := hdone h
    obtain ⟨q', hq', hname', hqon, -⟩ := hcoherent.requires s h.mem hon hrequires
    obtain rfl := eq_of_name hacc hq hq' (Json.str.inj (hname.symm.trans hname'))
    exact (isOn_iff.mp hqon).2 hqrequires

end Courses

section Layers
variable {F : Floats} {schema before after : Schema} {values : Fields} {r₀ r₁ r : Resolved}
  {n s t : String × Setting} {below : String}

/-- A setting that is under a limit, or is one. -/
def Reckoned (schema : Schema) (s : String × Setting) : Prop :=
  s.2.below ≠ none ∨ ∃ u ∈ schema, u.2.below = some s.1

/-- Inputs whose profile settles a limit before it is used. The numbers that limits are reckoned
from are ones, a limit that comes after what is under it has none itself, and what is required is
a bool that requires nothing. -/
structure Layered (F : Floats) (schema : Schema) (values : Fields) : Prop where
  overflow : ∀ s ∈ schema, ∀ raw ∈ values.get? s.1, overflows F s.2.kind raw = false
  bounds : ∀ s ∈ schema, isNumeric s.2.kind = true → BoundsInOrder F s.2
  default : ∀ s ∈ schema, Reckoned schema s → s.2.default = .null ∨ IsNumber F s.2.default
  reserve : ∀ s ∈ schema, s.2.below ≠ none → (F.ofInt s.2.reserve).isSome = true
  named : ∀ s ∈ schema, s.2.below ≠ some "" ∧ s.2.below ≠ some s.1
  order : schema.Pairwise fun s t => s.2.below = some t.1 → t.2.below = none
  requires : ∀ s ∈ schema, truthy (some s.2.requires) = true → ∃ q ∈ schema,
    s.2.requires = .str q.1 ∧ q.2.kind = .bool ∧ truthy (some q.2.requires) = false

theorem Layered.hashable (h : Layered F schema values) (hs : s ∈ schema) :
    unhashable s.2.requires = false := by
  cases hrequires : truthy (some s.2.requires) with
  | true =>
    obtain ⟨q, -, hname, -⟩ := h.requires s hs hrequires
    rw [hname]
    rfl
  | false =>
    cases hvalue : s.2.requires with
    | arr xs =>
      rw [hvalue] at hrequires
      cases xs with
      | nil => rfl
      | cons x xs => cases hrequires
    | obj f =>
      rw [hvalue] at hrequires
      cases f with
      | nil => rfl
      | cons key value f => cases hrequires
    | _ => rfl

theorem not_bool_of_isNumeric (h : isNumeric s.2.kind = true) : s.2.kind ≠ .bool := by
  intro hkind
  rw [hkind] at h
  cases h

/-- Only a bool is turned off. -/
theorem Layered.turned_off (hacc : Accepted schema) (h : Layered F schema values)
    (hn : n ∈ schema) (hs : s ∈ schema) (hrequires : n.2.requires = .str s.1)
    (hne : s.1 ≠ "") : s.2.kind = .bool := by
  have htruthy : truthy (some n.2.requires) = true := by
    rw [hrequires]
    unfold truthy
    split <;> simp_all
  obtain ⟨q, hq, hname, hkind, -⟩ := h.requires n hn htruthy
  obtain rfl := eq_of_name hacc hs hq (Json.str.inj (hrequires.symm.trans hname))
  exact hkind

/-- The turns of others leave all but the bools alone. -/
theorem Layered.step_other (hacc : Accepted schema) (h : Layered F schema values)
    (hn : n ∈ schema) (hs : s ∈ schema) (hkind : s.2.kind ≠ .bool) (hne : s.1 ≠ n.1)
    (hstep : capStep F r n = .ok r₁) : r₁ s.1 = r s.1 := by
  rcases capStep_other hstep hne with hsame | ⟨-, hrequires, -, htrue⟩
  · exact hsame
  · by_cases hempty : s.1 = ""
    · -- an empty name is not looked up
      rcases capStep_cases hstep with ⟨rfl, -⟩ | ⟨_, value, -, -, -, -, rfl⟩
      · rfl
      · rcases lower_cases r n value s.1 with hset | ⟨-, -, hname, -⟩
        · exact hset.trans (if_neg hne)
        · exact absurd hempty hname
    · exact absurd (h.turned_off hacc hn hs hrequires hempty) hkind

theorem Layered.run_other (hacc : Accepted schema) (h : Layered F schema values)
    (hbefore : ∀ n ∈ before, n ∈ schema ∧ s.1 ≠ n.1) (hs : s ∈ schema)
    (hkind : s.2.kind ≠ .bool) (hrun : before.foldlM (capStep F) r₀ = .ok r) :
    r s.1 = r₀ s.1 :=
  foldlM_keeps (P := fun r => r s.1 = r₀ s.1)
    (fun n hn _ _ hstep hr =>
      (h.step_other hacc (hbefore n hn).1 hs hkind (hbefore n hn).2 hstep).trans hr)
    hrun rfl

/-- A setting that has no limit is as it started, unless it is a bool. -/
theorem Layered.unlimited (hacc : Accepted schema) (h : Layered F schema values)
    (hbefore : ∀ n ∈ before, n ∈ schema) (hs : s ∈ schema) (hkind : s.2.kind ≠ .bool)
    (hnone : s.2.below = none) (hrun : before.foldlM (capStep F) r₀ = .ok r) :
    r s.1 = r₀ s.1 := by
  refine foldlM_keeps (P := fun r => r s.1 = r₀ s.1) (fun n hn r r' hstep hr => ?_) hrun rfl
  by_cases heq : s.1 = n.1
  · obtain rfl := eq_of_name hacc hs (hbefore n hn) heq
    rcases capStep_cases hstep with ⟨rfl, -⟩ | ⟨_, _, hlimit, -⟩
    · exact hr
    · rw [(below_of_limit hlimit).1] at hnone
      cases hnone
  · exact (h.step_other hacc (hbefore n hn) hs hkind heq hstep).trans hr

theorem limit_of_below (h : Layered F schema values) (hs : s ∈ schema)
    (hbelow : s.2.below = some below) : s.2.limit? = some below := by
  refine Option.filter_eq_some_iff.mpr ⟨hbelow, decide_eq_true ?_⟩
  rintro rfl
  exact (h.named s hs).1 hbelow

/-- What limits are reckoned from is null or a number, all through the loop. -/
theorem Layered.number (hF : FloatLaws F) (hacc : Accepted schema) (h : Layered F schema values)
    (hbefore : ∀ n ∈ before, n ∈ schema) (hr : standing F schema values before = .ok r) :
    ∀ s ∈ schema, Reckoned schema s → r s.1 = .null ∨ IsNumber F (r s.1) := by
  obtain ⟨start, hstart, hrun⟩ := standing_eq.mp hr
  have hnumeric : ∀ s ∈ schema, Reckoned schema s → isNumeric s.2.kind = true := by
    rintro s hs (hlimited | ⟨u, hu, hlimit⟩)
    · obtain ⟨below, hbelow⟩ := Option.ne_none_iff_exists'.mp hlimited
      exact (exists_below hacc hs hbelow).1
    · obtain ⟨hnum, t, ht, hname, hkind⟩ := exists_below hacc hu hlimit
      obtain rfl := eq_of_name hacc hs ht hname
      rwa [hkind]
  refine foldlM_keeps (P := fun r => ∀ s ∈ schema, Reckoned schema s → r s.1 = .null ∨
    IsNumber F (r s.1)) (fun n hn r r' hstep ih s hs hreckoned => ?_) hrun fun s hs hreckoned => ?_
  · by_cases heq : s.1 = n.1
    · obtain rfl := eq_of_name hacc hs (hbefore n hn) heq
      rcases capStep_cases hstep with ⟨rfl, -⟩ | ⟨below, value, hlimit, -, -, hvalue, rfl⟩
      · exact ih s hs hreckoned
      · obtain ⟨-, t, ht, rfl, -⟩ := exists_below hacc hs (below_of_limit hlimit).1
        have hself : value = .null ∨ IsNumber F value := by
          rcases capBelow_cases (hacc.bounds hs) hvalue with hnull | ⟨rfl, -⟩ |
            ⟨cap, hcap, ⟨rfl, -⟩ | ⟨rfl, -⟩⟩
          · exact .inl hnull
          · exact ih s hs hreckoned
          · exact ih s hs hreckoned
          · rcases ih t ht (.inr ⟨s, hs, (below_of_limit hlimit).1⟩) with hnull | hnumber
            · rw [hnull] at hcap
              cases hcap
            · obtain ⟨cap', hcap', hnumber'⟩ := minus_ok hF hnumber
                (h.reserve s hs (by simp [(below_of_limit hlimit).1]))
              obtain rfl := Except.ok.inj (hcap.symm.trans hcap')
              exact .inr hnumber'
        rcases lower_cases r s value s.1 with hset | ⟨-, hrequires, hne, -⟩
        · rw [hset, show (r.set s.1 value) s.1 = value from if_pos rfl]
          exact hself
        · exact absurd (h.turned_off hacc hs hs hrequires hne)
            (not_bool_of_isNumeric (hnumeric s hs hreckoned))
    · rw [h.step_other hacc (hbefore n hn) hs
        (not_bool_of_isNumeric (hnumeric s hs hreckoned)) heq hstep]
      exact ih s hs hreckoned
  · have hcoerces := (coerceAll_eq hacc.names hstart).1 s hs
    rcases coerceSetting_ok hF (hacc.bounds hs) (h.overflow s hs) with htakes | ⟨v, hv, hwithin⟩
    · rw [coerces_unique hcoerces (htakes s.2.default)]
      exact h.default s hs hreckoned
    · have hnum := hnumeric s hs hreckoned
      rw [coerces_unique hcoerces (hv s.2.default)]
      exact .inr ((within_numeric hnum v).mp (hwithin fun _ => h.bounds s hs hnum)).1

theorem Layered.reckons (hF : FloatLaws F) (hacc : Accepted schema)
    (h : Layered F schema values) (hbefore : ∀ n ∈ before, n ∈ schema) (hs : s ∈ schema)
    (hr : standing F schema values before = .ok r) (hlimit : s.2.limit? = some below)
    (hon : isOn r s = true) :
    r below = .null ∨ (∃ x, F.number? (r s.1) = some x) ∧
      ∃ cap, minus F (r below) s.2.reserve = .ok cap ∧ IsNumber F cap := by
  have hbelow := (below_of_limit hlimit).1
  obtain ⟨-, t, ht, rfl, -⟩ := exists_below hacc hs hbelow
  have hnumbers := h.number hF hacc hbefore hr
  rcases hnumbers t ht (.inr ⟨s, hs, hbelow⟩) with hnull | hnumber
  · exact .inl hnull
  · obtain ⟨x, hx, -⟩ := (hnumbers s hs (.inl (by simp [hbelow]))).resolve_left (isOn_iff.mp hon).1
    exact .inr ⟨⟨x, hx⟩, minus_ok hF hnumber (h.reserve s hs (by simp [hbelow]))⟩

/-- The loop before and after the turn of a setting, which is in neither part. -/
theorem Course.parts (hacc : Accepted schema) (h : Course F schema values s r₀ r₁ r) :
    ∃ before rest start, schema = before ++ s :: rest ∧ coerceAll F values schema = .ok start ∧
      before.foldlM (capStep F) start = .ok r₀ ∧ rest.foldlM (capStep F) r₁ = .ok r ∧
      (∀ n ∈ before, n ∈ schema ∧ s.1 ≠ n.1) ∧ ∀ n ∈ rest, n ∈ schema ∧ s.1 ≠ n.1 := by
  obtain ⟨before, rest, hsplit, hr₀⟩ := h.before
  obtain ⟨start, hstart, hrun⟩ := standing_eq.mp hr₀
  have hwhole : standing F schema values (before ++ s :: rest) = .ok r := hsplit ▸ h.done
  obtain ⟨r₀', hr₀', hlast⟩ := standing_before hwhole
  obtain rfl := Except.ok.inj (hr₀.symm.trans hr₀')
  rw [List.foldlM_cons, h.turn] at hlast
  have hnodup := hacc.names
  rw [hsplit, List.map_append, List.map_cons] at hnodup
  refine ⟨before, rest, start, hsplit, hstart, hrun, hlast, fun n hn => ⟨?_, fun heq => ?_⟩,
    fun n hn => ⟨?_, fun heq => ?_⟩⟩
  · exact hsplit ▸ List.mem_append_left _ hn
  · exact (List.disjoint_of_nodup_append hnodup) (heq ▸ List.mem_map_of_mem hn) List.mem_cons_self
  · exact hsplit ▸ List.mem_append_right before (List.mem_cons_of_mem s hn)
  · exact (List.nodup_cons.mp (List.Nodup.of_append_right hnodup)).1
      (heq ▸ List.mem_map_of_mem hn)

/-- No turn of another changes a setting that is no bool. -/
theorem Layered.undisturbed (hacc : Accepted schema) (h : Layered F schema values)
    (hcourse : Course F schema values s r₀ r₁ r) (hkind : s.2.kind ≠ .bool) :
    Undisturbed F values s r₀ r₁ r := by
  obtain ⟨before, rest, start, -, hstart, hrun₀, hrun₁, hbefore, hrest⟩ := hcourse.parts hacc
  have hr₀ := h.run_other hacc hbefore hcourse.mem hkind hrun₀
  refine ⟨?_, h.run_other hacc hrest hcourse.mem hkind hrun₁⟩
  rw [hr₀]
  exact (coerceAll_eq hacc.names hstart).1 s hcourse.mem

/-- A bool changes to what is false. -/
theorem step_bool (hacc : Accepted schema) (hn : n ∈ schema) (hs : s ∈ schema)
    (hkind : s.2.kind = .bool) (hstep : capStep F r n = .ok r₁) :
    r₁ s.1 = r s.1 ∨ r₁ s.1 = .bool false := by
  by_cases heq : s.1 = n.1
  · obtain rfl := eq_of_name hacc hs hn heq
    rcases capStep_cases hstep with ⟨rfl, -⟩ | ⟨_, _, hlimit, -⟩
    · exact .inl rfl
    · have hnum := (exists_below hacc hs (below_of_limit hlimit).1).1
      exact absurd hkind (not_bool_of_isNumeric hnum)
  · exact (capStep_other hstep heq).imp_right And.left

/-- A setting that is on in the end is on at its turn. -/
theorem Layered.on_before (hacc : Accepted schema) (h : Layered F schema values)
    (hcourse : Course F schema values s r₀ r₁ r) (hon : isOn r s = true) :
    isOn r₀ s = true := by
  obtain ⟨before, rest, start, -, -, -, hrun₁, -, hrest⟩ := hcourse.parts hacc
  refine isOn_iff.mpr ⟨fun hnull => (isOn_iff.mp hon).1 ?_, fun hrequires => ?_⟩
  · exact foldlM_null hrun₁ (capStep_null hcourse.turn hnull)
  · obtain ⟨q, hq, hname, hkind, -⟩ := h.requires s hcourse.mem hrequires
    have htrue := (isOn_iff.mp hon).2 hrequires
    rw [hname] at htrue ⊢
    change truthy (some (r q.1)) = true at htrue
    change truthy (some (r₀ q.1)) = true
    by_contra hoff
    have hkeeps : ∀ n ∈ schema, ∀ r r', capStep F r n = .ok r' →
        truthy (some (r q.1)) = false → truthy (some (r' q.1)) = false := by
      intro n hn r r' hstep hfalse
      rcases step_bool hacc hn hq hkind hstep with hsame | hturned
      · rwa [hsame]
      · rw [hturned]
        rfl
    have hoff₁ := hkeeps s hcourse.mem r₀ r₁ hcourse.turn (by simpa using hoff)
    rw [foldlM_keeps (fun n hn => hkeeps n (hrest n hn).1) hrun₁ hoff₁] at htrue
    cases htrue

/-- The limit of a setting is settled by its turn. -/
theorem Layered.keptUnder (hacc : Accepted schema) (h : Layered F schema values)
    (hcourse : Course F schema values s r₀ r₁ r) (hon : isOn r s = true) (ht : t ∈ schema)
    (hbelow : s.2.below = some t.1) : KeptUnder s t r₀ r₁ r := by
  obtain ⟨hnum, t', ht', hname, hkind⟩ := exists_below hacc hcourse.mem hbelow
  obtain rfl := eq_of_name hacc ht ht' hname
  have hnot := not_bool_of_isNumeric hnum
  have hnot' : t.2.kind ≠ .bool := hkind ▸ hnot
  refine ⟨limit_of_below h hcourse.mem hbelow, h.on_before hacc hcourse hon,
    (h.undisturbed hacc hcourse hnot).2, ?_⟩
  obtain ⟨before, rest, start, hsplit, -, -, hrun₁, -, hrest⟩ := hcourse.parts hacc
  have hrun : (s :: rest).foldlM (capStep F) r₀ = .ok r := by
    rw [List.foldlM_cons, hcourse.turn]
    exact hrun₁
  have hlater : ∀ n ∈ s :: rest, n ∈ schema := fun n hn => hsplit ▸ List.mem_append_right before hn
  have horder := h.order
  rw [hsplit, List.pairwise_append, List.pairwise_cons] at horder
  by_cases hmem : t ∈ rest
  · exact h.unlimited hacc hlater ht hnot' (horder.2.1.1 t hmem hbelow) hrun
  · refine h.run_other hacc (fun n hn => ⟨hlater n hn, fun heq => ?_⟩) ht hnot' hrun
    obtain rfl := eq_of_name hacc ht (hlater n hn) heq
    rcases List.mem_cons.mp hn with rfl | hn
    · exact (h.named t ht).2 hbelow
    · exact hmem hn

/-- A profile that settles each limit before it is used is respected. -/
theorem orderly_of_layered (hF : FloatLaws F) (hacc : Accepted schema)
    (h : Layered F schema values) : Orderly F schema values := by
  have hmem : ∀ {before rest : Schema}, schema = before ++ rest → ∀ n ∈ before, n ∈ schema :=
    fun hsplit n hn => hsplit ▸ List.mem_append_left _ hn
  refine ⟨⟨h.overflow, fun s hs hrequires => ?_, ?_⟩, ?_, ?_, ?_, ?_, ?_⟩
  · exact absurd ((h.hashable hs).symm.trans hrequires) (by simp)
  · intro before n rest r below hsplit hr hlimit hon
    have hn : n ∈ schema := hsplit ▸ List.mem_append_right before List.mem_cons_self
    rcases h.reckons hF hacc (hmem hsplit) hn hr hlimit hon with hnull | ⟨hvalue, cap, hcap, -⟩
    · exact .inl hnull
    · exact .inr ⟨hvalue, cap, hcap⟩
  · exact fun s _ _ _ hcourse _ _ hnum => h.bounds s hcourse.mem hnum
  · intro s r₀ r₁ r hcourse _ below cap hlimit hon₀ _ _ hcap
    obtain ⟨before, rest, hsplit, hr₀⟩ := hcourse.before
    rcases h.reckons hF hacc (hmem hsplit) hcourse.mem hr₀ hlimit hon₀ with
      hnull | ⟨-, cap', hcap', hnumber⟩
    · rw [hnull] at hcap
      cases hcap
    · obtain rfl := Except.ok.inj (hcap.symm.trans hcap')
      exact hnumber
  · intro s r₀ r₁ r hcourse _ htakes hdisturbed
    by_cases hkind : s.2.kind = .bool
    · obtain ⟨start, hstart, hrun⟩ := standing_eq.mp hcourse.done
      have hcoerces := (coerceAll_eq hacc.names hstart).1 s hcourse.mem
      obtain ⟨v, hv, hwithin⟩ := within_client hF hacc hcourse.mem (h.overflow s hcourse.mem)
        htakes fun hnum => absurd hkind (not_bool_of_isNumeric hnum)
      have hiff : ∀ w, Within F s.2 w ↔ ∃ b, w = .bool b := fun w => by
        unfold Within
        rw [hkind]
      rw [hiff]
      rw [hiff, ← coerces_unique hcoerces (hv s.2.default)] at hwithin
      refine foldlM_keeps (P := fun r => ∃ b, r s.1 = .bool b) (fun n hn r r' hstep hr => ?_)
        hrun hwithin
      rcases step_bool hacc hn hcourse.mem hkind hstep with hsame | hfalse
      · rwa [hsame]
      · exact ⟨false, hfalse⟩
    · exact absurd (h.undisturbed hacc hcourse hkind) hdisturbed
  · intro s r₀ r₁ r hcourse hon t ht hbelow _ hnot
    exact absurd (h.keptUnder hacc hcourse hon ht hbelow) hnot
  · intro s r₀ r₁ r hcourse _ hrequires q hq hname hqrequires
    obtain ⟨q', hq', hname', -, hnone⟩ := h.requires s hcourse.mem hrequires
    obtain rfl := eq_of_name hacc hq hq' (Json.str.inj (hname.symm.trans hname'))
    exact absurd (hnone.symm.trans hqrequires) (by simp)

end Layers

section Sample

/-- No float reaches it. -/
@[irreducible] def floatLimit : ℕ := 2 ^ 1024

/-- The whole number that a text of digits and a sign is for. -/
def readWhole (text : String) : ℤ :=
  let digits := (text.toList.takeWhile (· ≠ '.')).filter Char.isDigit
  let n : ℕ := digits.foldl (fun n c => 10 * n + (c.toNat - 48)) 0 % floatLimit
  if text.toList.head? = some '-' then -n else n

def showWhole (n : ℤ) : String := toString n ++ ".0"

/-- Floats that are whole numbers, infinite or no number at all. -/
def sampleWorth (text : String) : Worth :=
  if text = "nan" then .nan
  else if text = "inf" then .posInf
  else if text = "-inf" then .negInf
  else .finite (readWhole text)

def sampleOfInt (n : ℤ) : Option String :=
  if n.natAbs < floatLimit then some (showWhole n) else none

def sampleSub (a b : String) : String :=
  match sampleWorth a, sampleWorth b with
  | .finite p, .finite q => showWhole (p - q).floor
  | _, _ => a

def sampleFloats : Floats where
  worth := sampleWorth
  ofInt := sampleOfInt
  parseInt text := if text.toList.all Char.isDigit then some (readWhole text) else none
  parseFloat text := some text
  sub := sampleSub
  lower := String.toLower

theorem sampleWorth_showWhole (n : ℤ) : ∃ q, sampleWorth (showWhole n) = .finite q := by
  have hne : ∀ text : String, text.toList.getLast? ≠ some '0' → showWhole n ≠ text := by
    rintro text hlast rfl
    apply hlast
    unfold showWhole
    rw [String.toList_append, List.getLast?_append]
    rfl
  unfold sampleWorth
  rw [if_neg (hne _ (by decide)), if_neg (hne _ (by decide)), if_neg (hne _ (by decide))]
  exact ⟨_, rfl⟩

theorem readWhole_natAbs (text : String) : (readWhole text).natAbs < floatLimit := by
  have hpos : 0 < floatLimit := by decide +kernel
  unfold readWhole
  split
  · rw [Int.natAbs_neg, Int.natAbs_natCast]
    exact Nat.mod_lt _ hpos
  · rw [Int.natAbs_natCast]
    exact Nat.mod_lt _ hpos

theorem sampleSub_ne_nan {a b : String} (ha : sampleWorth a ≠ .nan) :
    sampleWorth (sampleSub a b) ≠ .nan := by
  unfold sampleSub
  split
  · rename_i p q _ _
    obtain ⟨w, hw⟩ := sampleWorth_showWhole (p - q).floor
    rw [hw]
    simp
  · exact ha

theorem sampleWorth_finite {text : String} {q : ℚ} (h : sampleWorth text = .finite q) :
    q = readWhole text := by
  unfold sampleWorth at h
  split_ifs at h
  exact (Worth.finite.inj h).symm

theorem sampleFloats_laws : FloatLaws sampleFloats := by
  refine ⟨?_, ?_, fun a b ha _ => sampleSub_ne_nan ha⟩
  · intro text q hq
    have hfits : (q.num.tdiv q.den).natAbs < floatLimit := by
      rw [sampleWorth_finite hq]
      simpa using readWhole_natAbs text
    change (sampleOfInt _).isSome = true
    rw [sampleOfInt, if_pos hfits]
    rfl
  · intro n text h
    change sampleOfInt n = _ at h
    unfold sampleOfInt at h
    split_ifs at h
    obtain rfl := Option.some.inj h
    obtain ⟨q, hq⟩ := sampleWorth_showWhole n
    change (sampleWorth _).isFinite = true
    rw [hq]
    rfl

/-- A limit on the answer, and the numbers and the switch that go with it. -/
def maxTokens : String × Setting where
  fst := "max_tokens"
  snd := { kind := .int, min := some (.int 1), max := some (.int 16384), path := "max_tokens" }

def enableThinking : String × Setting where
  fst := "enable_thinking"
  snd :=
    { kind := .bool, default := .bool false
      path := "extra_body.chat_template_kwargs.enable_thinking" }

def reasoningBudget : String × Setting where
  fst := "reasoning_budget"
  snd :=
    { kind := .int, default := .int 16384, min := some (.int 128), max := some (.int 32768)
      requires := .str "enable_thinking", below := some "max_tokens", reserve := 64
      path := "extra_body.reasoning_budget" }

def sampleSchema : Schema := [maxTokens, enableThinking, reasoningBudget]

def sampleValues : Fields :=
  .cons "max_tokens" (.int 1000) (.cons "enable_thinking" (.bool true)
    (.cons "reasoning_budget" (.int 5000) .nil))

def unrelatedPaths : Schema → Bool
  | [] => true
  | s :: rest =>
    rest.all (fun t => !(pathOf s).isPrefixOf (pathOf t) && !(pathOf t).isPrefixOf (pathOf s)) &&
      unrelatedPaths rest

theorem pairwise_unrelated {schema : Schema} (h : unrelatedPaths schema = true) :
    schema.Pairwise fun s t => Unrelated (pathOf s) (pathOf t) := by
  induction schema with
  | nil => exact List.Pairwise.nil
  | cons s rest ih =>
    obtain ⟨hfirst, hrest⟩ := Bool.and_eq_true_iff.mp h
    refine List.Pairwise.cons ?_ (ih hrest)
    intro t ht
    have hboth := List.all_eq_true.mp hfirst t ht
    simp only [Bool.and_eq_true, Bool.not_eq_true'] at hboth
    obtain ⟨hst, hts⟩ := hboth
    constructor
    · intro hpre
      rw [List.isPrefixOf_iff_prefix.mpr hpre] at hst
      cases hst
    · intro hpre
      rw [List.isPrefixOf_iff_prefix.mpr hpre] at hts
      cases hts

theorem sampleNumber (n : ℤ) : IsNumber sampleFloats (.int n) := ⟨_, rfl, by simp⟩

theorem bounds_int {spec : Setting} {low high : ℤ} (hmin : spec.min = some (.int low))
    (hmax : spec.max = some (.int high)) (hle : low ≤ high) :
    BoundsInOrder sampleFloats spec := by
  refine ⟨?_, ?_, ?_⟩
  · intro a ha
    obtain rfl := Option.some.inj (hmin.symm.trans ha)
    exact sampleNumber low
  · intro b hb
    obtain rfl := Option.some.inj (hmax.symm.trans hb)
    exact sampleNumber high
  · intro a ha b hb
    obtain rfl := Option.some.inj (hmin.symm.trans ha)
    obtain rfl := Option.some.inj (hmax.symm.trans hb)
    refine (atMost_iff rfl rfl).mpr (worthLe_iff.mpr ?_)
    rcases hle.lt_or_eq with h | rfl
    · exact .inl (decide_eq_true (by exact_mod_cast h))
    · exact .inr ⟨rfl, by simp⟩

theorem sampleSchema_layered : Layered sampleFloats sampleSchema sampleValues where
  overflow := by decide +kernel
  bounds := by
    intro s hs hnum
    simp only [sampleSchema, List.mem_cons, List.not_mem_nil, or_false] at hs
    rcases hs with rfl | rfl | rfl
    · exact bounds_int rfl rfl (by decide)
    · cases hnum
    · exact bounds_int rfl rfl (by decide)
  default := by
    intro s hs _
    simp only [sampleSchema, List.mem_cons, List.not_mem_nil, or_false] at hs
    rcases hs with rfl | rfl | rfl
    · exact .inl rfl
    · exact .inr ⟨_, rfl, by simp⟩
    · exact .inr (sampleNumber 16384)
  reserve := by decide +kernel
  named := by decide +kernel
  order := by decide +kernel
  requires := by decide +kernel

def answerBudget : String × Setting where
  fst := "answer_budget"
  snd := { kind := .int, below := some "reasoning_budget", path := "answer_budget" }

/-- A budget under one that has a limit itself, which comes later. -/
def staleSchema : Schema := [answerBudget, (reasoningBudget.1, { reasoningBudget.2 with
  requires := .null, path := "reasoning_budget" }), maxTokens]

def staleValues : Fields :=
  .cons "answer_budget" (.int 900) (.cons "reasoning_budget" (.int 1000)
    (.cons "max_tokens" (.int 500) .nil))

def showThinking : String × Setting where
  fst := "show_thinking"
  snd := { kind := .bool, requires := .str "stream_thinking", path := "show_thinking" }

def streamThinking : String × Setting where
  fst := "stream_thinking"
  snd := { kind := .bool, requires := .str "enable_thinking", path := "stream_thinking" }

/-- A switch that requires one that requires a third. -/
def chainSchema : Schema := [showThinking, streamThinking, enableThinking]

def chainValues : Fields :=
  .cons "show_thinking" (.bool true) (.cons "stream_thinking" (.bool true) .nil)

/-- A switch that requires a list of names. -/
def listSchema : Schema :=
  [("show_thinking",
    { kind := .bool, default := .bool true
      requires := .arr (.cons (.str "enable_thinking") .nil), path := "show_thinking" })]

theorem schemas_accepted : Accepted sampleSchema ∧ Accepted staleSchema ∧ Accepted chainSchema ∧
    Accepted listSchema := by
  refine ⟨⟨?_, ?_, ?_, ?_, pairwise_unrelated ?_⟩, ⟨?_, ?_, ?_, ?_, pairwise_unrelated ?_⟩,
    ⟨?_, ?_, ?_, ?_, pairwise_unrelated ?_⟩, ?_, ?_, ?_, ?_, pairwise_unrelated ?_⟩
  all_goals decide +kernel

theorem samples_written :
    applyServiceSettings sampleFloats .nil staleSchema staleValues =
      .ok (.cons "answer_budget" (.int 900) (.cons "reasoning_budget" (.int 436)
        (.cons "max_tokens" (.int 500) .nil))) ∧
    applyServiceSettings sampleFloats .nil chainSchema chainValues =
      .ok (.cons "show_thinking" (.bool true) (.cons "extra_body" (.obj
        (.cons "chat_template_kwargs" (.obj (.cons "enable_thinking" (.bool false) .nil)) .nil))
        .nil)) ∧
    applyServiceSettings sampleFloats .nil listSchema .nil = .error .typeError := by
  refine ⟨?_, ?_, ?_⟩ <;> decide +kernel

end Sample

section Main

end Main

end VoiceAgent.SettingsRespected
