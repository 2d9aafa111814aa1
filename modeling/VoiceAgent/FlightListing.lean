import VoiceAgent.FlightSearch

/-!
What a flight search lists and shows. Of the rows of a route it lists, for each flight and time
of day, the one that leaves first; it moves each of them to the travel date twice, and what it
shows is a function of the row and the date all the same.
-/
namespace VoiceAgent.FlightSearch

open StreamingEvents BookingFlow

section Returned
variable {ε α β γ : Type} {f : α → Except ε β} {xs : List α}

theorem mapM_eq_ok {ys : List β} (h : xs.mapM f = .ok ys) :
    (∀ x ∈ xs, ∃ y ∈ ys, f x = .ok y) ∧ ∀ y ∈ ys, ∃ x ∈ xs, f x = .ok y := by
  induction xs generalizing ys with
  | nil =>
    cases h
    exact ⟨by simp, by simp⟩
  | cons x xs ih =>
    rw [List.mapM_cons] at h
    cases hx : f x with
    | error e => simp [hx, bind, Except.bind] at h
    | ok y =>
      cases hxs : xs.mapM f with
      | error e => simp [hx, hxs, bind, Except.bind] at h
      | ok rest =>
        simp only [hx, hxs, bind, Except.bind, pure, Except.pure, Except.ok.injEq] at h
        obtain ⟨hleft, hright⟩ := ih hxs
        rw [← h]
        refine ⟨List.forall_mem_cons.mpr ⟨⟨y, List.mem_cons_self, hx⟩, fun x' hx' => ?_⟩,
          List.forall_mem_cons.mpr ⟨⟨x, List.mem_cons_self, hx⟩, fun y' hy' => ?_⟩⟩
        · obtain ⟨y', hy', hfx⟩ := hleft x' hx'
          exact ⟨y', List.mem_cons_of_mem y hy', hfx⟩
        · obtain ⟨x', hx', hfx⟩ := hright y' hy'
          exact ⟨x', List.mem_cons_of_mem x hx', hfx⟩

theorem mapM_eq_error {e : ε} (h : xs.mapM f = .error e) : ∃ x ∈ xs, f x = .error e := by
  induction xs with
  | nil => cases h
  | cons x xs ih =>
    rw [List.mapM_cons] at h
    cases hx : f x with
    | error e' =>
      simp only [hx, bind, Except.bind, Except.error.injEq] at h
      exact ⟨x, List.mem_cons_self, h ▸ hx⟩
    | ok y =>
      cases hxs : xs.mapM f with
      | error e' =>
        simp only [hx, hxs, bind, Except.bind, Except.error.injEq] at h
        obtain ⟨z, hz, hfz⟩ := ih (h ▸ hxs)
        exact ⟨z, List.mem_cons_of_mem x hz, hfz⟩
      | ok rest => simp [hx, hxs, bind, Except.bind, pure, Except.pure] at h

/-- What holds of everything a loop returns, the loop raising or not. -/
theorem forall_mapM (P : β → Prop) :
    (∀ y ∈ (xs.mapM f).toOption.getD [], P y) ↔
      (∃ x ∈ xs, ∃ e, f x = .error e) ∨ ∀ x ∈ xs, ∀ y, f x = .ok y → P y := by
  cases hxs : xs.mapM f with
  | error e =>
    obtain ⟨x, hx, hfx⟩ := mapM_eq_error hxs
    exact iff_of_true (by simp [Except.toOption]) (.inl ⟨x, hx, e, hfx⟩)
  | ok ys =>
    obtain ⟨hleft, hright⟩ := mapM_eq_ok hxs
    constructor
    · intro h
      refine .inr fun x hx y hy => ?_
      obtain ⟨y', hy', hfx⟩ := hleft x hx
      rw [hy] at hfx
      exact Except.ok.inj hfx ▸ h y' hy'
    · rintro (⟨x, hx, e, hfx⟩ | h)
      · obtain ⟨y, -, hy⟩ := hleft x hx
        rw [hfx] at hy
        cases hy
      · intro y hy
        obtain ⟨x, hx, hfx⟩ := hright y hy
        exact h x hx y hfx

theorem toOption_bind (x : Except ε α) (k : α → Except ε β) :
    (x >>= k).toOption = x.toOption.bind fun a => (k a).toOption := by
  cases x <;> rfl

theorem toOption_mapM_cons (x : α) : ((x :: xs).mapM f).toOption =
    (f x).toOption.bind fun y => (xs.mapM f).toOption.map (y :: ·) := by
  rw [List.mapM_cons]
  cases hx : f x with
  | error e => rfl
  | ok y => cases hxs : xs.mapM f <;> rfl

/-- Two loops, one over what the other returns, return what one loop does. -/
theorem toOption_mapM_bind (g : β → Except ε γ) :
    (xs.mapM f >>= List.mapM g).toOption = (xs.mapM fun x => f x >>= g).toOption := by
  induction xs with
  | nil => rfl
  | cons x xs ih =>
    rw [toOption_bind] at ih
    rw [toOption_bind, toOption_mapM_cons, toOption_mapM_cons, toOption_bind, ← ih]
    cases (f x).toOption with
    | none => rfl
    | some y =>
      cases (xs.mapM f).toOption with
      | none => cases hz : (g y).toOption <;> simp [hz]
      | some ys => exact toOption_mapM_cons y

end Returned

section Listed
variable {T : TextOps} {C : Datetimes} {db : Database} {rows : List FlightRow} {u : FlightRow}

theorem mem_byDeparture : u ∈ byDeparture rows ↔ u ∈ rows := List.mem_insertionSort _

theorem pairwise_byDeparture (rows : List FlightRow) :
    (byDeparture rows).Pairwise fun f g => f.departure ≤ g.departure := by
  have htotal : Std.Total fun f g : FlightRow => f.departure ≤ g.departure :=
    ⟨fun f g => le_total f.departure g.departure⟩
  have htrans : IsTrans FlightRow fun f g => f.departure ≤ g.departure :=
    ⟨fun _ _ _ => le_trans⟩
  exact List.pairwise_insertionSort _ rows

theorem Database.slot_unique {f g : FlightRow} (hf : f ∈ db.flights) (hg : g ∈ db.flights)
    (h : SameSlot f g) : f = g := by
  by_contra hne
  have hsymm : Std.Symm fun f g : FlightRow => ¬SameSlot f g :=
    ⟨fun a b hab hba => hab ⟨hba.1.symm, hba.2.symm⟩⟩
  exact db.unique.forall hf hg hne h

/-- The first row of a kind, in the order of departure, is the one that leaves first. -/
theorem find_eq_some_iff {p : FlightRow → Bool}
    (hsorted : rows.Pairwise fun f g => f.departure ≤ g.departure)
    (hone : ∀ f ∈ rows, ∀ g ∈ rows, p f = true → p g = true → f.departure = g.departure → f = g) :
    rows.find? p = some u ↔
      u ∈ rows ∧ p u = true ∧ ∀ f ∈ rows, p f = true → u.departure ≤ f.departure := by
  have hleast : ∀ {v}, rows.find? p = some v →
      v ∈ rows ∧ p v = true ∧ ∀ f ∈ rows, p f = true → v.departure ≤ f.departure := by
    intro v h
    obtain ⟨hv, before, after, rfl, hbefore⟩ := List.find?_eq_some_iff_append.mp h
    refine ⟨by simp, hv, fun f hf hpf => ?_⟩
    rcases List.mem_append.mp hf with hearly | hlate
    · have hno := hbefore f hearly
      simp [hpf] at hno
    · rcases List.mem_cons.mp hlate with rfl | hafter
      · exact le_rfl
      · exact (List.pairwise_cons.mp (List.pairwise_append.mp hsorted).2.1).1 f hafter
  refine ⟨hleast, fun ⟨hu, hpu, hfirst⟩ => ?_⟩
  obtain ⟨v, hv⟩ := Option.isSome_iff_exists.mp (List.find?_isSome.mpr ⟨u, hu, hpu⟩)
  obtain ⟨hvmem, hpv, hvfirst⟩ := hleast hv
  rw [hv, hone v hvmem u hu hpv hpu (le_antisymm (hvfirst u hu hpu) (hfirst v hvmem hpv))]

theorem keepDaily_rows (rows : List FlightRow) :
    (∀ key, key ∈ (rows.foldl keepDaily ([], [])).2 ↔ key ∈ rows.map FlightRow.dailyKey) ∧
      ∀ u, u ∈ (rows.foldl keepDaily ([], [])).1 ↔
        rows.find? (fun f => f.dailyKey = u.dailyKey) = some u := by
  induction rows using List.reverseRecOn with
  | nil => simp
  | append_singleton rows row ih =>
    obtain ⟨hseen, hkept⟩ := ih
    rw [List.foldl_append, List.foldl_cons, List.foldl_nil]
    generalize rows.foldl keepDaily ([], []) = kept at hseen hkept ⊢
    unfold keepDaily
    split
    · next hold =>
      -- a row of the key is kept already
      have hmem := (hseen _).mp hold
      obtain ⟨f, hf, hkey⟩ := List.mem_map.mp hmem
      refine ⟨fun key => ?_, fun u => ?_⟩
      · rw [hseen, List.map_append, List.mem_append, List.map_singleton, List.mem_singleton]
        exact ⟨.inl, fun h => h.elim id fun heq => heq ▸ hmem⟩
      · rw [hkept, List.find?_append]
        by_cases hu : row.dailyKey = u.dailyKey
        · have hfound : (rows.find? fun f => f.dailyKey = u.dailyKey).isSome = true :=
            List.find?_isSome.mpr ⟨f, hf, decide_eq_true (hkey.trans hu)⟩
          obtain ⟨v, hv⟩ := Option.isSome_iff_exists.mp hfound
          rw [hv, Option.some_or]
        · rw [List.find?_singleton, if_neg (by simpa using hu), Option.or_none]
    · next hnew =>
      have hnone := mt (hseen _).mpr hnew
      refine ⟨fun key => ?_, fun u => ?_⟩
      · rw [List.mem_cons, hseen, List.map_append, List.mem_append, List.map_singleton,
          List.mem_singleton, or_comm]
      · rw [List.mem_append, hkept, List.find?_append, List.mem_singleton]
        by_cases hu : row.dailyKey = u.dailyKey
        · have hrows : rows.find? (fun f => f.dailyKey = u.dailyKey) = none := by
            refine List.find?_eq_none.mpr fun f hf hkey => hnone ?_
            exact hu ▸ of_decide_eq_true hkey ▸ List.mem_map_of_mem hf
          rw [hrows, Option.none_or, List.find?_singleton, if_pos (decide_eq_true hu)]
          simp [eq_comm]
        · have hne : u ≠ row := fun h => hu (h ▸ rfl)
          rw [List.find?_singleton, if_neg (by simpa using hu), Option.or_none]
          simp [hne]

theorem mem_route {origin destination : Text} :
    u ∈ db.route origin destination ↔ u ∈ db.flights ∧ u.Flies origin destination := by
  simp [Database.route, mem_byDeparture]

/-- A row of the route that a search for a date lists: of the rows of one flight that leave at
one time of day it is the first. Without a date all of them are listed. -/
structure Listed (T : TextOps) (db : Database) (origin destination travelDate : Text)
    (u : FlightRow) : Prop where
  stored : u ∈ db.flights
  route : u.Flies (T.upper (strip origin)) (T.upper (strip destination))
  first : travelDate ≠ [] → ∀ f ∈ db.flights, f.dailyKey = u.dailyKey → u.departure ≤ f.departure

def listedRows (T : TextOps) (db : Database) (origin destination travelDate : Text) :
    List FlightRow :=
  let rows := db.route (T.upper (strip origin)) (T.upper (strip destination))
  if travelDate = [] then rows else uniqueDailyFlightRows rows

theorem dailyKey_flies {f : FlightRow} {origin destination : Text} (h : f.dailyKey = u.dailyKey)
    (hu : u.Flies origin destination) : f.Flies origin destination := by
  simp only [FlightRow.dailyKey, Prod.mk.injEq] at h
  exact ⟨h.2.1.trans hu.1, h.2.2.1.trans hu.2⟩

theorem mem_listedRows {origin destination travelDate : Text} :
    u ∈ listedRows T db origin destination travelDate ↔
      Listed T db origin destination travelDate u := by
  unfold listedRows
  dsimp only
  by_cases hdate : travelDate = []
  · rw [if_pos hdate, mem_route]
    exact ⟨fun h => ⟨h.1, h.2, fun hne => absurd hdate hne⟩, fun h => ⟨h.stored, h.route⟩⟩
  · have hsorted : (db.route (T.upper (strip origin)) (T.upper (strip destination))).Pairwise
        fun f g => f.departure ≤ g.departure := pairwise_byDeparture _
    rw [if_neg hdate, uniqueDailyFlightRows, (keepDaily_rows _).2, find_eq_some_iff hsorted]
    · constructor
      · rintro ⟨hu, -, hfirst⟩
        obtain ⟨hstored, hroute⟩ := mem_route.mp hu
        refine ⟨hstored, hroute, fun _ f hf hkey => ?_⟩
        exact hfirst f (mem_route.mpr ⟨hf, dailyKey_flies hkey hroute⟩) (decide_eq_true hkey)
      · rintro ⟨hstored, hroute, hfirst⟩
        refine ⟨mem_route.mpr ⟨hstored, hroute⟩, decide_eq_true rfl, fun f hf hkey => ?_⟩
        exact hfirst hdate f (mem_route.mp hf).1 (of_decide_eq_true hkey)
    · intro f hf g hg hkf hkg hdeparture
      have hkey := (of_decide_eq_true hkf).trans (of_decide_eq_true hkg).symm
      simp only [FlightRow.dailyKey, Prod.mk.injEq] at hkey
      exact db.slot_unique (mem_route.mp hf).1 (mem_route.mp hg).1 ⟨hkey.1, hdeparture⟩

end Listed

section Shown
variable {T : TextOps} {C : Datetimes} {db : Database} {u : FlightRow} {o : FlightOption}
  {departure arrival travelDate : Text}

/-- What a search makes of a listed row. -/
def FlightRow.shown (T : TextOps) (C : Datetimes) (u : FlightRow) (travelDate : Text) :
    Except Raised FlightOption := do
  let moved ← if travelDate = [] then pure u else materializeFlightRow C u travelDate
  serverFlightToOption T C moved travelDate

/-- The options of a search; none when it raises. -/
def searched (T : TextOps) (C : Datetimes) (db : Database)
    (origin destination travelDate : Text) : List FlightOption :=
  (searchFlights T C db origin destination travelDate).toOption.getD []

theorem searchFlights_toOption (origin destination : Text) :
    (searchFlights T C db origin destination travelDate).toOption =
      ((listedRows T db origin destination travelDate).mapM
        (FlightRow.shown T C · travelDate)).toOption := by
  unfold searchFlights listAlternatives listedRows FlightRow.shown
  cases travelDate with
  | nil => rfl
  | cons c rest => exact toOption_mapM_bind _

/-- Everything a search shows is as `P` says if and only if the rows it lists are shown so, or one
of them raises and nothing is shown. -/
theorem forall_searched (P : FlightOption → Prop) (origin destination : Text) :
    (∀ o ∈ searched T C db origin destination travelDate, P o) ↔
      (∃ u, Listed T db origin destination travelDate u ∧ ∃ e, u.shown T C travelDate = .error e) ∨
        ∀ u, Listed T db origin destination travelDate u →
          ∀ o, u.shown T C travelDate = .ok o → P o := by
  rw [searched, searchFlights_toOption, forall_mapM]
  simp only [mem_listedRows]

/-- The moment a departure is moved to, where it, the arrival and the date can be read. -/
def Datetimes.momentOn (C : Datetimes) (departure arrival travelDate : Text) :
    Option C.Moment :=
  match C.fromisoformat departure, C.fromisoformat arrival, C.dateFromisoformat travelDate with
  | some departs, some _, some day => some (C.onDay departs day)
  | _, _, _ => none

/-- The date written over the first ten characters of a text with a `T`. -/
def redated (text travelDate : Text) : Text :=
  if 'T' ∈ text then travelDate ++ text.drop 10 else text

/-- When a row leaves on a travel date: where its timestamps and the date can be read, at the
row's time of day; where not, at its text with the date written over it, moved once more. -/
def FlightRow.leavesOn (C : Datetimes) (u : FlightRow) (travelDate : Text) : Text :=
  match C.momentOn u.departure u.arrivalOr travelDate with
  | some moment => C.isoformat moment
  | none =>
    let departure := redated u.departure travelDate
    if travelDate = [] ∨ 'T' ∉ departure then departure
    else
      match C.momentOn departure (redated u.arrivalOr travelDate) travelDate with
      | some moment => C.isoformat moment
      | none => travelDate ++ departure.drop 10

theorem moved_valueError {override : Option C.Moment} :
    C.moved departure arrival travelDate override = .error .valueError ↔
      C.momentOn departure arrival travelDate = none := by
  unfold Datetimes.moved Datetimes.momentOn
  cases C.fromisoformat departure with
  | none => simp
  | some departs =>
    cases C.fromisoformat arrival with
    | none => simp
    | some arrives =>
      cases C.dateFromisoformat travelDate with
      | none => simp
      | some day =>
        cases hminus : C.minus arrives departs with
        | none => simp [hminus]
        | some span =>
          cases hplus : C.plus (override.getD (C.onDay departs day)) (C.forward span) <;>
            simp [hminus, hplus]

theorem moved_reads {shown lands : Text}
    (h : C.moved departure arrival travelDate none = .ok (shown, lands)) :
    ∃ departs arrives day span later, C.fromisoformat departure = some departs ∧
      C.fromisoformat arrival = some arrives ∧ C.dateFromisoformat travelDate = some day ∧
      C.minus arrives departs = some span ∧
      C.plus (C.onDay departs day) (C.forward span) = some later ∧
      shown = C.isoformat (C.onDay departs day) ∧ lands = C.isoformat later := by
  unfold Datetimes.moved at h
  split at h
  · next departs arrives day hdeparture harrival hday =>
    cases hminus : C.minus arrives departs with
    | none => simp [hminus] at h
    | some span =>
      cases hplus : C.plus (C.onDay departs day) (C.forward span) with
      | none => simp [hminus, hplus] at h
      | some later =>
        simp only [hminus, hplus, Option.getD_none, Except.ok.injEq, Prod.mk.injEq] at h
        exact ⟨departs, arrives, day, span, later, hdeparture, harrival, hday, hminus, hplus,
          h.1.symm, h.2.symm⟩
  · cases h

/-- A timestamp that is moved is at the moment of the travel date, and is read there again. -/
theorem moved_eq_ok (laws : C.Lawful) {shown lands : Text}
    (h : C.moved departure arrival travelDate none = .ok (shown, lands)) :
    ∃ moment, C.momentOn departure arrival travelDate = some moment ∧
      shown = C.isoformat moment ∧ 'T' ∈ lands ∧
        C.momentOn shown lands travelDate = some moment := by
  obtain ⟨departs, arrives, day, span, later, hdeparture, harrival, hday, -, hplus, rfl, rfl⟩ :=
    moved_reads h
  refine ⟨C.onDay departs day, ?_, rfl, laws.written later, ?_⟩
  · simp [Datetimes.momentOn, hdeparture, harrival, hday]
  · simp [Datetimes.momentOn, laws.read_onDay hdeparture hday,
      laws.read_plus hdeparture hday hplus, hday, laws.onDay_onDay]

theorem materializeTimestamps_departure (laws : C.Lawful) {shown lands : Text}
    (h : materializeTimestamps C departure arrival travelDate = .ok (shown, lands)) :
    shown = if 'T' ∉ departure then departure
      else match C.momentOn departure (if arrival = [] then departure else arrival) travelDate with
        | some moment => C.isoformat moment
        | none => travelDate ++ departure.drop 10 := by
  unfold materializeTimestamps at h
  by_cases hT : 'T' ∈ departure
  · rw [if_neg (by simp [hT, List.ne_nil_of_mem hT])] at h
    rw [if_neg (not_not.mpr hT)]
    split at h
    · next hmoved =>
      rw [moved_valueError.mp hmoved]
      exact (Prod.ext_iff.mp (Except.ok.inj h)).1.symm
    · obtain ⟨moment, hmoment, hshown, -⟩ := moved_eq_ok laws h
      rw [hmoment]
      exact hshown
  · rw [if_pos (.inr hT)] at h
    rw [if_pos hT]
    exact (Prod.ext_iff.mp (Except.ok.inj h)).1.symm

/-- What a booking asks for. -/
structure Asked where
  flightNumber : Text
  origin : Text
  destination : Text
  departure : Text

def FlightOption.asked (o : FlightOption) : Asked :=
  ⟨o.flightId, o.originAirport, o.destAirport, o.departureTime⟩

/-- What is asked for by a booking of a row that is shown on a travel date. -/
def FlightRow.askedOn (T : TextOps) (C : Datetimes) (u : FlightRow) (travelDate : Text) : Asked :=
  ⟨T.upper u.flightNumber, T.upper u.origin, T.upper u.destination, u.leavesOn C travelDate⟩

theorem serverFlightToOption_eq_ok (h : serverFlightToOption T C u travelDate = .ok o) :
    ∃ lands, materializeTimestamps C u.departure u.arrival travelDate =
        .ok (o.departureTime, lands) ∧
      o.asked = ⟨T.upper u.flightNumber, T.upper u.origin, T.upper u.destination,
        o.departureTime⟩ ∧ o.cabin = u.cabin := by
  unfold serverFlightToOption at h
  cases hmoved : materializeTimestamps C u.departure u.arrival travelDate with
  | error e => simp [hmoved, bind, Except.bind] at h
  | ok moved =>
    obtain ⟨shown, lands⟩ := moved
    cases hminutes : durationMinutes C T shown lands with
    | error e => simp [hmoved, hminutes, bind, Except.bind] at h
    | ok minutes =>
      simp only [hmoved, hminutes, bind, Except.bind, pure, Except.pure, Except.ok.injEq] at h
      subst h
      exact ⟨lands, rfl, rfl, rfl⟩

/-- The arrival of a row whose timestamps are rewritten, as the option reads it. -/
theorem redated_arrival (hdate : travelDate ≠ []) (hT : 'T' ∈ redated u.departure travelDate) :
    (if (if 'T' ∈ u.arrivalOr then travelDate ++ u.arrivalOr.drop 10 else u.arrival) = [] then
        redated u.departure travelDate
      else if 'T' ∈ u.arrivalOr then travelDate ++ u.arrivalOr.drop 10 else u.arrival) =
      redated u.arrivalOr travelDate := by
  by_cases harrival : 'T' ∈ u.arrivalOr
  · simp [redated, harrival, hdate]
  · have hne : u.arrival ≠ [] := by
      intro hnil
      rw [FlightRow.arrivalOr, if_pos hnil] at harrival
      rw [redated, if_neg harrival] at hT
      exact harrival hT
    have hor : u.arrivalOr = u.arrival := if_neg hne
    simp only [redated, hor, if_neg (hor ▸ harrival), if_neg hne]

theorem shown_eq_onDate (hdate : travelDate ≠ []) :
    u.shown T C travelDate =
      u.onDate C travelDate none >>= (serverFlightToOption T C · travelDate) := by
  rw [FlightRow.shown, if_neg hdate]
  rfl

theorem onDate_rewrites (h : C.momentOn u.departure u.arrivalOr travelDate = none) :
    u.onDate C travelDate none = .ok { u with
      departure := redated u.departure travelDate
      arrival := if 'T' ∈ u.arrivalOr then travelDate ++ u.arrivalOr.drop 10 else u.arrival } := by
  rw [FlightRow.onDate, moved_valueError.mpr h]
  rfl

theorem onDate_raises {e : Raised} (he : e ≠ .valueError)
    (h : C.moved u.departure u.arrivalOr travelDate none = .error e) :
    u.onDate C travelDate none = .error e := by
  rw [FlightRow.onDate, h]
  cases e <;> first | rfl | exact absurd rfl he

/-- A row is shown under its names in capitals, in its cabin, as leaving when it does on the
travel date. -/
theorem shown_eq_ok (laws : C.Lawful) (h : u.shown T C travelDate = .ok o) :
    o.asked = u.askedOn T C travelDate ∧ o.cabin = u.cabin := by
  by_cases hdate : travelDate = []
  · -- the row as it is stored
    rw [FlightRow.shown, if_pos hdate] at h
    obtain ⟨lands, hmoved, hasked, hcabin⟩ := serverFlightToOption_eq_ok h
    refine ⟨hasked.trans (congrArg _ ?_), hcabin⟩
    have hnone : ∀ arrival, C.momentOn u.departure arrival travelDate = none := by
      intro arrival
      simp [Datetimes.momentOn, hdate, laws.undated]
    rw [materializeTimestamps_departure laws hmoved, FlightRow.leavesOn, hnone, hnone]
    by_cases hT : 'T' ∈ u.departure <;> simp [redated, hT, hdate]
  rw [shown_eq_onDate hdate] at h
  cases hmoved : C.moved u.departure u.arrivalOr travelDate none with
  | ok moved =>
    -- the row is at its moment already when the option is made
    obtain ⟨shown, lands⟩ := moved
    obtain ⟨moment, hmoment, hshown, hT, hagain⟩ := moved_eq_ok laws hmoved
    rw [FlightRow.onDate, hmoved] at h
    obtain ⟨lands', hoption, hasked, hcabin⟩ := serverFlightToOption_eq_ok h
    refine ⟨hasked.trans (congrArg _ ?_), hcabin⟩
    have hwritten := laws.written moment
    rw [materializeTimestamps_departure laws hoption, FlightRow.leavesOn, hmoment,
      if_neg (not_not.mpr (hshown ▸ hwritten)), if_neg (List.ne_nil_of_mem hT), hagain]
  | error e =>
    by_cases he : e = .valueError
    · subst he
      have hnone := moved_valueError.mp hmoved
      rw [onDate_rewrites hnone] at h
      obtain ⟨lands, hoption, hasked, hcabin⟩ := serverFlightToOption_eq_ok h
      refine ⟨hasked.trans (congrArg _ ?_), hcabin⟩
      rw [materializeTimestamps_departure laws hoption, FlightRow.leavesOn, hnone]
      by_cases hT : 'T' ∈ redated u.departure travelDate
      · simp only [redated_arrival hdate hT, not_true_eq_false, hT, hdate, if_false, or_false]
      · simp only [hT, not_false_eq_true, if_true, or_true]
    · rw [onDate_raises he hmoved] at h
      cases h

end Shown

end VoiceAgent.FlightSearch
