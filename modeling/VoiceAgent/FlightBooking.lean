import VoiceAgent.BookingConfirmation
import VoiceAgent.FlightListing
import VoiceAgent.IsoTimes

/-!
Which options of a flight search are booked as they were shown. A booking looks a row up by
number, route and time; where there is none it moves a row of the flight to the time asked
for. The option was made from another row, by the same rewriting of dates.
-/
namespace VoiceAgent.FlightSearch

open StreamingEvents BookingFlow BookingConfirmation

section Table
variable {db : Database} {fn origin destination departure : Text} {f g : FlightRow}

theorem mem_flight : f ∈ db.flight fn origin destination ↔
    f ∈ db.flights ∧ f.flightNumber = fn ∧ f.Flies origin destination := by
  simp [Database.flight, mem_byDeparture]

theorem exact_eq_some : db.exact fn origin destination departure = some f ↔
    f ∈ db.flights ∧ (f.flightNumber = fn ∧ f.Flies origin destination) ∧
      f.departure = departure := by
  constructor
  · intro h
    exact ⟨List.mem_of_find?_eq_some h, by simpa using List.find?_some h⟩
  · rintro ⟨hmem, hnames, hdep⟩
    obtain ⟨g, hg⟩ : ∃ g, db.exact fn origin destination departure = some g := by
      refine Option.isSome_iff_exists.mp (List.find?_isSome.mpr ⟨f, hmem, ?_⟩)
      simp [hnames, hdep]
    have hgmem := List.mem_of_find?_eq_some hg
    have hgnames :
        (g.flightNumber = fn ∧ g.Flies origin destination) ∧ g.departure = departure := by
      simpa using List.find?_some hg
    rw [hg, db.slot_unique hgmem hmem
      ⟨hgnames.1.1.trans hnames.1.symm, hgnames.2.trans hdep.symm⟩]

/-- The earliest row of a flight has the empty departure when some row has it. -/
theorem head_flight (hf : f ∈ db.flights)
    (hnames : f.flightNumber = fn ∧ f.Flies origin destination) (hdep : f.departure = []) :
    (db.flight fn origin destination).head? = some f := by
  have hmem : f ∈ db.flight fn origin destination := mem_flight.mpr ⟨hf, hnames⟩
  have hsorted : (db.flight fn origin destination).Pairwise fun f g => f.departure ≤ g.departure :=
    pairwise_byDeparture _
  cases hrows : db.flight fn origin destination with
  | nil => simp [hrows] at hmem
  | cons g rest =>
    have hg : g ∈ db.flight fn origin destination := by simp [hrows]
    obtain ⟨hgmem, hgnames⟩ := mem_flight.mp hg
    rw [hrows] at hmem hsorted
    rcases List.mem_cons.mp hmem with rfl | hrest
    · rfl
    · have hle : g.departure ≤ [] := hdep ▸ (List.pairwise_cons.mp hsorted).1 f hrest
      have hgdep : g.departure = [] := by
        cases hd : g.departure with
        | nil => rfl
        | cons c cs => exact absurd (hd ▸ hle) (not_le.mpr List.Lex.nil)
      rw [db.slot_unique hgmem hf ⟨hgnames.1.trans hnames.1.symm, hgdep.trans hdep.symm⟩]
      rfl

end Table

section Materialized
variable {C : Datetimes} {t row : FlightRow} {departure travelDate : Text}

/-- A row moved to the date of `departure` leaves at `departure`, read as the moment. -/
def Datetimes.LeavesAt (C : Datetimes) (t : FlightRow) (departure : Text) (m : C.Moment) : Prop :=
  match C.fromisoformat t.departure, C.fromisoformat t.arrivalOr,
    C.dateFromisoformat (departure.take 10) with
  | some departs, some arrives, some _ =>
    C.isoformat m = departure ∧
      ∃ duration, C.minus arrives departs = some duration ∧
        C.plus m (C.forward duration) ≠ none
  | _, _, _ => 'T' ∈ t.departure ∧ t.departure.drop 10 = departure.drop 10

theorem onDate_keeps {override : Option C.Moment} (h : t.onDate C travelDate override = .ok row) :
    (row.flightNumber = t.flightNumber ∧ row.Flies t.origin t.destination) ∧
      row.cabin = t.cabin := by
  unfold FlightRow.onDate at h
  split at h
  · cases h
    exact ⟨⟨rfl, rfl, rfl⟩, rfl⟩
  · cases h
    exact ⟨⟨rfl, rfl, rfl⟩, rfl⟩
  · cases h

theorem rewritten_iff (hold : t.departure ≠ departure) :
    (if 'T' ∈ t.departure then departure.take 10 ++ t.departure.drop 10 else t.departure) =
        departure ↔
      'T' ∈ t.departure ∧ t.departure.drop 10 = departure.drop 10 := by
  by_cases hT : 'T' ∈ t.departure
  · rw [if_pos hT]
    constructor
    · intro h
      exact ⟨hT, List.append_cancel_left (h.trans (List.take_append_drop 10 departure).symm)⟩
    · rintro ⟨-, h⟩
      rw [h, List.take_append_drop]
  · simp [hT, hold]

theorem onDate_departs {m : C.Moment} (hold : t.departure ≠ departure) :
    (∃ row, t.onDate C (departure.take 10) (some m) = .ok row ∧ row.departure = departure) ↔
      C.LeavesAt t departure m := by
  unfold FlightRow.onDate Datetimes.moved Datetimes.LeavesAt
  cases C.fromisoformat t.departure with
  | none => simp [rewritten_iff hold]
  | some departs =>
    cases C.fromisoformat t.arrivalOr with
    | none => simp [rewritten_iff hold]
    | some arrives =>
      cases C.dateFromisoformat (departure.take 10) with
      | none => simp [rewritten_iff hold]
      | some day =>
        -- both timestamps parse: what is left to fail is the arithmetic
        cases hminus : C.minus arrives departs with
        | none => simp [hminus]
        | some duration =>
          cases hplus : C.plus m (C.forward duration) with
          | none => simp [hminus, hplus]
          | some lands => simp [hminus, hplus]

end Materialized

section Inserted
variable {db : Database} {row : FlightRow}

theorem insertOrIgnore_of_taken (h : ∃ f ∈ db.flights, SameSlot f row) :
    db.insertOrIgnore row = db := by
  simp [Database.insertOrIgnore, h]

theorem exact_insertOrIgnore (h : ¬∃ f ∈ db.flights, SameSlot f row) :
    (db.insertOrIgnore row).exact row.flightNumber row.origin row.destination row.departure =
      some row := by
  refine exact_eq_some.mpr ⟨?_, ⟨rfl, rfl, rfl⟩, rfl⟩
  simp [Database.insertOrIgnore, h]

theorem insertOrIgnore_pnrs : (db.insertOrIgnore row).pnrs = db.pnrs := by
  unfold Database.insertOrIgnore
  split <;> rfl

theorem insertOrIgnore_codes : (db.insertOrIgnore row).codes = db.codes := by
  unfold Database.insertOrIgnore
  split <;> rfl

end Inserted


section Found
variable {T : TextOps} {C : Datetimes} {db changed : Database} {a : Asked}
  {t row : FlightRow} {departure : Text}

def Asked.Names (a : Asked) (f : FlightRow) : Prop :=
  f.flightNumber = a.flightNumber ∧ f.Flies a.origin a.destination

/-- The row a booking takes as a template: it is moved to the time asked for, and no flight of
its number, on whatever route, leaves then. -/
structure Moves (C : Datetimes) (db : Database) (a : Asked) (t : FlightRow) : Prop where
  timed : a.departure ≠ []
  chosen : selectTemplateForTime (db.flight a.flightNumber a.origin a.destination)
    (a.departure.drop 11) = some t
  apart : ∀ f ∈ db.flights, f.flightNumber = a.flightNumber → f.departure ≠ a.departure
  leaves : ∃ m, C.fromisoformat a.departure = some m ∧ C.LeavesAt t a.departure m

theorem mem_of_select {rows : List FlightRow} {time : Text}
    (h : selectTemplateForTime rows time = some t) : t ∈ rows := by
  unfold selectTemplateForTime at h
  rcases Option.or_eq_some_iff.mp h with hfound | ⟨-, hhead⟩
  · split at hfound
    · cases hfound
    · exact List.mem_of_find?_eq_some hfound
  · exact List.mem_of_head? hhead

theorem map_eq_ok {α β : Type} {x : Except Raised α} {k : α → β} {b : β} :
    x.map k = .ok b ↔ ∃ a, x = .ok a ∧ k a = b := by
  cases x <;> simp [Except.map]

theorem adopt_tables (db : Database) (row : FlightRow) (fn origin destination : Text) :
    (db.adopt fn origin destination row).2.pnrs = db.pnrs ∧
      (db.adopt fn origin destination row).2.codes = db.codes :=
  ⟨insertOrIgnore_pnrs, insertOrIgnore_codes⟩

theorem findOrCreate_tables {fn origin destination : Text} {asked : Option Text}
    {found : Option FlightRow}
    (h : findOrCreateFlightRow C db fn origin destination asked = .ok (found, changed)) :
    changed.pnrs = db.pnrs ∧ changed.codes = db.codes := by
  unfold findOrCreateFlightRow at h
  dsimp only at h
  split at h
  · cases h
    exact ⟨rfl, rfl⟩
  · cases h
    exact ⟨rfl, rfl⟩
  · split at h
    · cases h
      exact ⟨rfl, rfl⟩
    · split at h
      · cases h
        exact ⟨rfl, rfl⟩
      · obtain ⟨row, -, hadopt⟩ := map_eq_ok.mp h
        have htables := adopt_tables db row fn origin destination
        rwa [hadopt] at htables

/-- A row moved to a time at which its flight has none is found again if and only if no
other route took that number at that time. -/
theorem adopt_eq_some {fn origin destination : Text} {f : FlightRow}
    (hnames : row.flightNumber = fn ∧ row.Flies origin destination)
    (hexact : db.exact fn origin destination row.departure = none) :
    (db.adopt fn origin destination row).1 = some f ↔
      (∀ g ∈ db.flights, g.flightNumber = fn → g.departure ≠ row.departure) ∧
        f = row.scheduled := by
  obtain ⟨rfl, rfl, rfl⟩ := hnames
  by_cases htaken : ∃ g ∈ db.flights, SameSlot g row.scheduled
  · obtain ⟨g, hg, hslot⟩ := htaken
    have hsame : (db.adopt row.flightNumber row.origin row.destination row).1 = none := by
      unfold Database.adopt
      dsimp only
      rw [insertOrIgnore_of_taken ⟨g, hg, hslot⟩, hexact]
    rw [hsame]
    constructor
    · intro h
      cases h
    · rintro ⟨hapart, -⟩
      exact absurd hslot.2 (hapart g hg hslot.1)
  · have hfound : (db.adopt row.flightNumber row.origin row.destination row).1 =
        some row.scheduled := exact_insertOrIgnore htaken
    rw [hfound, Option.some_inj, eq_comm]
    refine ⟨fun h => ⟨fun g hg hnumber hdep => htaken ⟨g, hg, hnumber, hdep⟩, h⟩, And.right⟩

theorem findOrCreate_exact {fn origin destination : Text} {f : FlightRow} (hne : departure ≠ [])
    (h : db.exact fn origin destination departure = some f) :
    findOrCreateFlightRow C db fn origin destination (some departure) = .ok (some f, db) := by
  obtain ⟨c, cs, rfl⟩ := List.exists_cons_of_ne_nil hne
  simp only [findOrCreateFlightRow, h]

theorem findOrCreate_unscheduled {fn origin destination : Text} (hne : departure ≠ [])
    (h : db.exact fn origin destination departure = none)
    (hchosen : selectTemplateForTime (db.flight fn origin destination) (departure.drop 11) = none) :
    findOrCreateFlightRow C db fn origin destination (some departure) = .ok (none, db) := by
  obtain ⟨c, cs, rfl⟩ := List.exists_cons_of_ne_nil hne
  simp only [findOrCreateFlightRow, h, hchosen]

theorem findOrCreate_moves {fn origin destination : Text} (hne : departure ≠ [])
    (h : db.exact fn origin destination departure = none)
    (hchosen : selectTemplateForTime (db.flight fn origin destination) (departure.drop 11) =
      some t) :
    findOrCreateFlightRow C db fn origin destination (some departure) =
      (materializeFlightRow C t (departure.take 10) (some departure)).map
        (db.adopt fn origin destination) := by
  obtain ⟨c, cs, rfl⟩ := List.exists_cons_of_ne_nil hne
  simp only [findOrCreateFlightRow, h, hchosen]

theorem materialize_eq_ok (hne : departure ≠ []) :
    materializeFlightRow C t travelDate (some departure) = .ok row ↔
      ∃ m, C.fromisoformat departure = some m ∧ t.onDate C travelDate (some m) = .ok row := by
  obtain ⟨c, cs, rfl⟩ := List.exists_cons_of_ne_nil hne
  cases hm : C.fromisoformat (c :: cs) <;> simp [materializeFlightRow, hm]

theorem names_onDate {override : Option C.Moment} (h : t.onDate C travelDate override = .ok row)
    (ht : a.Names t) : a.Names row := by
  obtain ⟨⟨hnumber, horigin, hdestination⟩, -⟩ := onDate_keeps h
  exact ⟨hnumber.trans ht.1, horigin.trans ht.2.1, hdestination.trans ht.2.2⟩

/-- Where no row is at the time asked for, what a booking finds there is a row that is moved. -/
theorem moved_iff (C : Datetimes) {a : Asked} (hne : a.departure ≠ [])
    (hexact : db.exact a.flightNumber a.origin a.destination a.departure = none)
    (P : Text → Prop) :
    (∃ row changed, findOrCreateFlightRow C db a.flightNumber a.origin a.destination
        (some a.departure) = .ok (some row, changed) ∧
      a.Names row ∧ row.departure = a.departure ∧ P row.cabin) ↔
    ∃ t, Moves C db a t ∧ P t.cabin := by
  have hnone : ∀ f ∈ db.flights, a.Names f → f.departure ≠ a.departure := by
    intro f hf hnames hdep
    rw [exact_eq_some.mpr ⟨hf, hnames, hdep⟩] at hexact
    cases hexact
  constructor
  · rintro ⟨row, changed, hfound, hnames, hdep, hP⟩
    cases hchosen : selectTemplateForTime (db.flight a.flightNumber a.origin a.destination)
      (a.departure.drop 11) with
    | none =>
      rw [findOrCreate_unscheduled hne hexact hchosen] at hfound
      cases hfound
    | some t =>
      rw [findOrCreate_moves hne hexact hchosen] at hfound
      obtain ⟨moved, hmoved, hadopt⟩ := map_eq_ok.mp hfound
      obtain ⟨m, hm, honDate⟩ := (materialize_eq_ok hne).mp hmoved
      obtain ⟨ht, htnames⟩ := mem_flight.mp (mem_of_select hchosen)
      have hadopted : (db.adopt a.flightNumber a.origin a.destination moved).1 = some row := by
        rw [hadopt]
      have hmdep : moved.departure = a.departure :=
        (exact_eq_some.mp hadopted).2.2.symm.trans hdep
      obtain ⟨hapart, hrow⟩ := (adopt_eq_some (names_onDate honDate htnames)
        (hmdep ▸ hexact)).mp hadopted
      refine ⟨t, ⟨hne, hchosen, hmdep ▸ hapart, m, hm, ?_⟩, ?_⟩
      · exact (onDate_departs (hnone t ht htnames)).mp ⟨moved, honDate, hmdep⟩
      · rw [hrow] at hP
        rwa [← (onDate_keeps honDate).2]
  · rintro ⟨t, hmoves, hP⟩
    obtain ⟨hne, hchosen, hapart, m, hm, hleaves⟩ := hmoves
    obtain ⟨ht, htnames⟩ := mem_flight.mp (mem_of_select hchosen)
    obtain ⟨moved, honDate, hmdep⟩ := (onDate_departs (hnone t ht htnames)).mpr hleaves
    have hmnames := names_onDate honDate htnames
    have hadopted := (adopt_eq_some (f := moved.scheduled) hmnames (hmdep ▸ hexact)).mpr
      ⟨hmdep ▸ hapart, rfl⟩
    refine ⟨moved.scheduled, (db.adopt a.flightNumber a.origin a.destination moved).2, ?_,
      hmnames, hmdep, ?_⟩
    · rw [findOrCreate_moves hne hexact hchosen]
      exact map_eq_ok.mpr ⟨moved, (materialize_eq_ok hne).mpr ⟨m, hm, honDate⟩,
        Prod.ext hadopted rfl⟩
    · rwa [← (onDate_keeps honDate).2] at hP

/-- A booking finds a row at the time asked for that is there already, or moves one to it. -/
theorem found_iff (C : Datetimes) (db : Database) (a : Asked) (P : Text → Prop) :
    (∃ row changed, findOrCreateFlightRow C db a.flightNumber a.origin a.destination
        (some a.departure) = .ok (some row, changed) ∧
      a.Names row ∧ row.departure = a.departure ∧ P row.cabin) ↔
    (∃ f ∈ db.flights, a.Names f ∧ f.departure = a.departure ∧ P f.cabin) ∨
      ∃ t, Moves C db a t ∧ P t.cabin := by
  by_cases hne : a.departure = []
  · -- without a time a booking takes the earliest row
    have hfind : findOrCreateFlightRow C db a.flightNumber a.origin a.destination
        (some a.departure) =
          .ok ((db.flight a.flightNumber a.origin a.destination).head?, db) := by
      rw [hne]
      rfl
    constructor
    · rintro ⟨row, changed, hfound, hnames, hdep, hP⟩
      rw [hfind] at hfound
      obtain ⟨hhead, -⟩ := Prod.ext_iff.mp (Except.ok.inj hfound)
      exact .inl ⟨row, (mem_flight.mp (List.mem_of_head? hhead)).1, hnames, hdep, hP⟩
    · rintro (⟨f, hf, hnames, hdep, hP⟩ | ⟨t, hmoves, -⟩)
      · exact ⟨f, db, by rw [hfind, head_flight hf hnames (hdep.trans hne)], hnames, hdep, hP⟩
      · exact absurd hne hmoves.timed
  cases hexact : db.exact a.flightNumber a.origin a.destination a.departure with
  | some g =>
    obtain ⟨hg, hgnames, hgdep⟩ := exact_eq_some.mp hexact
    constructor
    · rintro ⟨row, changed, hfound, hnames, hdep, hP⟩
      rw [findOrCreate_exact hne hexact] at hfound
      cases hfound
      exact .inl ⟨g, hg, hnames, hdep, hP⟩
    · rintro (⟨f, hf, hnames, hdep, hP⟩ | ⟨t, hmoves, -⟩)
      · exact ⟨f, db, by rw [findOrCreate_exact hne (exact_eq_some.mpr ⟨hf, hnames, hdep⟩)],
          hnames, hdep, hP⟩
      · exact absurd hgdep (hmoves.apart g hg hgnames.1)
  | none =>
    rw [moved_iff C hne hexact]
    refine (or_iff_right ?_).symm
    rintro ⟨f, hf, hnames, hdep, -⟩
    rw [exact_eq_some.mpr ⟨hf, hnames, hdep⟩] at hexact
    cases hexact

end Found

section Booked
variable {T : TextOps} {C : Datetimes} {db changed : Database} {draws : Draws}

def FlightOption.request (o : FlightOption) : BookingRequest where
  origin := o.originAirport
  destination := o.destAirport
  flightNumber := o.flightId
  departure := some o.departureTime

/-- The PNR that a booking of the option adds is for the flight shown. -/
def BooksAsShown (T : TextOps) (C : Datetimes) (db : Database) (draws : Draws)
    (o : FlightOption) : Prop :=
  ∃ b changed p, createBooking T C db draws o.request = .ok (some b, changed) ∧
    changed.pnrs = db.pnrs ++ [p] ∧ p.pnr = b.pnr ∧
    o.asked.Names p.flight ∧ p.flight.departure = o.departureTime ∧ p.flight.cabin = o.cabin

/-- What a booking of `a` takes to be for the flight asked for, in a cabin. -/
structure Bookable (T : TextOps) (C : Datetimes) (db : Database) (draws : Draws)
    (a : Asked) (cabin : Text) : Prop where
  number : T.upper (strip a.flightNumber) = a.flightNumber
  origin : T.upper (strip a.origin) = a.origin
  destination : T.upper (strip a.destination) = a.destination
  pnr : draws.freePnr db ≠ none
  code : draws.freeCode db ≠ none
  flight : (∃ f ∈ db.flights, a.Names f ∧ f.departure = a.departure ∧ f.cabin = cabin) ∨
    ∃ t, Moves C db a t ∧ t.cabin = cabin

theorem createBooking_iff (T : TextOps) (C : Datetimes) (db : Database) (draws : Draws)
    (request : BookingRequest) (P : FlightRow → Prop) :
    (∃ b changed p, createBooking T C db draws request = .ok (some b, changed) ∧
      changed.pnrs = db.pnrs ++ [p] ∧ p.pnr = b.pnr ∧ P p.flight) ↔
    draws.freePnr db ≠ none ∧ draws.freeCode db ≠ none ∧
      ∃ row changed, findOrCreateFlightRow C db (T.upper (strip request.flightNumber))
        (T.upper (strip request.origin)) (T.upper (strip request.destination))
        request.departure = .ok (some row, changed) ∧ P row := by
  unfold createBooking
  cases hfind : findOrCreateFlightRow C db (T.upper (strip request.flightNumber))
    (T.upper (strip request.origin)) (T.upper (strip request.destination)) request.departure with
  | error e => simp [bind, Except.bind]
  | ok result =>
    obtain ⟨found, moved⟩ := result
    obtain ⟨hpnrs, hcodes⟩ := findOrCreate_tables hfind
    have hpnr : draws.freePnr moved = draws.freePnr db := by
      rw [Draws.freePnr, Draws.freePnr, hpnrs]
    have hcode : draws.freeCode moved = draws.freeCode db := by
      rw [Draws.freeCode, Draws.freeCode, hcodes]
    cases found with
    | none => simp [bind, Except.bind, pure, Except.pure]
    | some row =>
      cases hp : draws.freePnr db with
      | none => simp [bind, Except.bind, pure, Except.pure, hpnr, hp]
      | some pnr =>
        cases hc : draws.freeCode db with
        | none =>
          simp [bind, Except.bind, throw, throwThe, MonadExceptOf.throw, hpnr, hp, hcode, hc]
        | some code =>
          simp only [bind, Except.bind, hpnr, hp, hcode, hc]
          constructor
          · rintro ⟨b, changed, p, hbooked, hadded, -, hP⟩
            obtain ⟨-, rfl⟩ := Prod.ext_iff.mp (Except.ok.inj hbooked)
            dsimp only at hadded
            rw [hpnrs, List.append_cancel_left_eq, List.singleton_inj] at hadded
            subst hadded
            exact ⟨by simp, by simp, row, moved, rfl, hP⟩
          · rintro ⟨-, -, row', changed, hfound, hP⟩
            obtain ⟨hrow, -⟩ := Prod.ext_iff.mp (Except.ok.inj hfound)
            cases hrow
            exact ⟨_, _, _, rfl, congrArg (· ++ _) hpnrs, rfl, hP⟩

/-- What a booking takes flies under the names it looked for. -/
theorem findOrCreate_names {fn origin destination : Text} {asked : Option Text} {row : FlightRow}
    (h : findOrCreateFlightRow C db fn origin destination asked = .ok (some row, changed)) :
    row.flightNumber = fn ∧ row.Flies origin destination := by
  unfold findOrCreateFlightRow at h
  dsimp only at h
  split at h
  · obtain ⟨hhead, -⟩ := Prod.ext_iff.mp (Except.ok.inj h)
    exact (mem_flight.mp (List.mem_of_head? hhead)).2
  · obtain ⟨hhead, -⟩ := Prod.ext_iff.mp (Except.ok.inj h)
    exact (mem_flight.mp (List.mem_of_head? hhead)).2
  · split at h
    · next f hexact =>
      cases h
      exact (exact_eq_some.mp hexact).2.1
    · split at h
      · cases h
      · obtain ⟨moved, -, hadopt⟩ := map_eq_ok.mp h
        exact (exact_eq_some.mp (Prod.ext_iff.mp hadopt).1).2.1

/-- An option is booked as shown if and only if the tables hold what that takes. -/
theorem books_iff (o : FlightOption) :
    BooksAsShown T C db draws o ↔ Bookable T C db draws o.asked o.cabin := by
  have hbooking := createBooking_iff T C db draws o.request fun f =>
    o.asked.Names f ∧ f.departure = o.departureTime ∧ f.cabin = o.cabin
  have hfound := found_iff C db o.asked (· = o.cabin)
  refine hbooking.trans ⟨?_, ?_⟩
  · rintro ⟨hpnr, hcode, row, changed, hfind, hnames, hdep, hcabin⟩
    obtain ⟨hnumber, horigin, hdestination⟩ := findOrCreate_names hfind
    have hplain : T.upper (strip o.flightId) = o.flightId := hnumber.symm.trans hnames.1
    have ho : T.upper (strip o.originAirport) = o.originAirport := horigin.symm.trans hnames.2.1
    have hd : T.upper (strip o.destAirport) = o.destAirport :=
      hdestination.symm.trans hnames.2.2
    simp only [FlightOption.request, hplain, ho, hd] at hfind
    exact ⟨hplain, ho, hd, hpnr, hcode, hfound.mp ⟨row, changed, hfind, hnames, hdep, hcabin⟩⟩
  · rintro ⟨hplain, ho, hd, hpnr, hcode, hflight⟩
    obtain ⟨row, changed, hfind, hnames, hdep, hcabin⟩ := hfound.mpr hflight
    refine ⟨hpnr, hcode, row, changed, ?_, hnames, hdep, hcabin⟩
    simp only [FlightOption.asked] at hplain ho hd hfind
    simpa only [FlightOption.request, hplain, ho, hd] using hfind

/-- Every option of a search is booked as shown if and only if the search raises on a row it
lists, or each of these rows, at the moment of the travel date, can be booked in its cabin. -/
theorem searched_books_iff (laws : C.Lawful) (T : TextOps) (db : Database) (draws : Draws)
    (origin destination travelDate : Text) :
    (∀ o ∈ searched T C db origin destination travelDate, BooksAsShown T C db draws o) ↔
      (∃ u, Listed T db origin destination travelDate u ∧
        ∃ e, u.shown T C travelDate = .error e) ∨
      ∀ u, Listed T db origin destination travelDate u →
        Bookable T C db draws (u.askedOn T C travelDate) u.cabin := by
  rw [forall_searched]
  by_cases hraises : ∃ u, Listed T db origin destination travelDate u ∧
      ∃ e, u.shown T C travelDate = .error e
  · exact iff_of_true (.inl hraises) (.inl hraises)
  · refine or_congr_right (forall₂_congr fun u hu => ?_)
    constructor
    · intro hbooks
      cases hshown : u.shown T C travelDate with
      | error e => exact absurd ⟨u, hu, e, hshown⟩ hraises
      | ok o =>
        obtain ⟨hasked, hcabin⟩ := shown_eq_ok laws hshown
        exact hasked ▸ hcabin ▸ (books_iff o).mp (hbooks o hshown)
    · intro hbookable o hshown
      obtain ⟨hasked, hcabin⟩ := shown_eq_ok laws hshown
      rw [books_iff, hasked, hcabin]
      exact hbookable

/-- A row that is its own template: it and the date can be read, its departure is spelled as
`isoformat` does and its names are in capitals. -/
structure Plain (T : TextOps) (C : Datetimes) (u : FlightRow) (travelDate : Text)
    (moment : C.Moment) : Prop where
  number : T.upper u.flightNumber = u.flightNumber
  origin : T.upper u.origin = u.origin
  destination : T.upper u.destination = u.destination
  spelled : ∃ departs, C.fromisoformat u.departure = some departs ∧
    C.isoformat departs = u.departure
  moment : C.momentOn u.departure u.arrivalOr travelDate = some moment

section Plain
variable {u : FlightRow} {travelDate origin destination : Text} {moment : C.Moment}

theorem momentOn_eq_some {departure arrival : Text}
    (h : C.momentOn departure arrival travelDate = some moment) :
    ∃ departs arrives day, C.fromisoformat departure = some departs ∧
      C.fromisoformat arrival = some arrives ∧ C.dateFromisoformat travelDate = some day ∧
      moment = C.onDay departs day := by
  unfold Datetimes.momentOn at h
  split at h
  · next departs arrives day hdeparture harrival hday =>
    exact ⟨departs, arrives, day, hdeparture, harrival, hday, (Option.some.inj h).symm⟩
  · cases h

/-- A plain row that is listed is moved, by a booking as by the search, to the same moment. -/
theorem moves_plain (laws : C.Lawful) (hplain : Plain T C u travelDate moment)
    (hlisted : Listed T db origin destination travelDate u) (hdate : travelDate ≠ [])
    (hshown : ∃ o, u.shown T C travelDate = .ok o)
    (hapart : ∀ f ∈ db.flights, f.flightNumber = u.flightNumber →
      f.departure ≠ C.isoformat moment) :
    Moves C db ⟨u.flightNumber, u.origin, u.destination, C.isoformat moment⟩ u := by
  obtain ⟨-, -, -, ⟨departs, hread, hspelled⟩, hmoment⟩ := hplain
  obtain ⟨departs', arrives, day, hdeparture, harrival, hday, rfl⟩ := momentOn_eq_some hmoment
  obtain rfl : departs' = departs := Option.some.inj (hdeparture.symm.trans hread)
  obtain ⟨hclock, hnonempty⟩ := laws.same_clock hread hday
  rw [hspelled] at hclock hnonempty
  refine ⟨List.ne_nil_of_mem (laws.written _), ?_, hapart, _, laws.read_onDay hread hday, ?_⟩
  · -- of the rows with its time of day the listed one is the first
    have hsorted : (db.flight u.flightNumber u.origin u.destination).Pairwise
        fun f g => f.departure ≤ g.departure := pairwise_byDeparture _
    have hfound : (db.flight u.flightNumber u.origin u.destination).find?
        (fun row => row.departure.drop 11 = u.departure.drop 11) = some u := by
      refine (find_eq_some_iff hsorted ?_).mpr ⟨?_, decide_eq_true rfl, fun f hf hclock => ?_⟩
      · intro f hf g hg _ _ hsame
        obtain ⟨hfmem, hfnumber, -⟩ := mem_flight.mp hf
        obtain ⟨hgmem, hgnumber, -⟩ := mem_flight.mp hg
        exact db.slot_unique hfmem hgmem ⟨hfnumber.trans hgnumber.symm, hsame⟩
      · exact mem_flight.mpr ⟨hlisted.stored, rfl, rfl, rfl⟩
      · obtain ⟨hfmem, hnumber, horigin, hdestination⟩ := mem_flight.mp hf
        refine hlisted.first hdate f hfmem ?_
        simp only [FlightRow.dailyKey, hnumber, horigin, hdestination, of_decide_eq_true hclock]
    simp only [selectTemplateForTime, hclock, if_neg hnonempty, hfound, Option.some_or]
  · -- and the sum that the search could make can be made again
    obtain ⟨o, hshown⟩ := hshown
    rw [shown_eq_onDate hdate] at hshown
    cases hmoved : C.moved u.departure u.arrivalOr travelDate none with
    | error e =>
      have he : e ≠ .valueError := by
        rintro rfl
        rw [moved_valueError.mp hmoved] at hmoment
        cases hmoment
      rw [onDate_raises he hmoved] at hshown
      cases hshown
    | ok moved =>
      obtain ⟨departs'', arrives', day', span, later, hdeparture', harrival', hday', hminus,
        hplus, -, -⟩ := moved_reads hmoved
      obtain rfl : departs'' = departs' := Option.some.inj (hdeparture'.symm.trans hread)
      obtain rfl : arrives' = arrives := Option.some.inj (harrival'.symm.trans harrival)
      obtain rfl : day' = day := Option.some.inj (hday'.symm.trans hday)
      simp only [Datetimes.LeavesAt, hread, harrival, laws.read_date hread hday]
      exact ⟨trivial, span, hminus, by simp [hplus]⟩

/-- A plain row that is shown is booked in its cabin if and only if no flight of its number
leaves at that moment on another route or in another cabin. -/
theorem flight_plain_iff (laws : C.Lawful) (hplain : Plain T C u travelDate moment)
    (hlisted : Listed T db origin destination travelDate u) (hdate : travelDate ≠ [])
    (hshown : ∃ o, u.shown T C travelDate = .ok o) :
    ((∃ f ∈ db.flights, (u.askedOn T C travelDate).Names f ∧
        f.departure = (u.askedOn T C travelDate).departure ∧ f.cabin = u.cabin) ∨
      ∃ t, Moves C db (u.askedOn T C travelDate) t ∧ t.cabin = u.cabin) ↔
    ∀ f ∈ db.flights, f.flightNumber = u.flightNumber → f.departure = C.isoformat moment →
      f.Flies u.origin u.destination ∧ f.cabin = u.cabin := by
  have hasked : u.askedOn T C travelDate =
      ⟨u.flightNumber, u.origin, u.destination, C.isoformat moment⟩ := by
    rw [FlightRow.askedOn, FlightRow.leavesOn, hplain.moment, hplain.number, hplain.origin,
      hplain.destination]
  rw [hasked]
  constructor
  · rintro (⟨g, hg, hnames, hdeparture, hcabin⟩ | ⟨t, hmoves, -⟩) f hf hnumber hat
    · obtain rfl := db.slot_unique hf hg ⟨hnumber.trans hnames.1.symm, hat.trans hdeparture.symm⟩
      exact ⟨hnames.2, hcabin⟩
    · exact absurd hat (hmoves.apart f hf hnumber)
  · intro hall
    by_cases htaken : ∃ f ∈ db.flights, f.flightNumber = u.flightNumber ∧
        f.departure = C.isoformat moment
    · obtain ⟨f, hf, hnumber, hat⟩ := htaken
      obtain ⟨hroute, hcabin⟩ := hall f hf hnumber hat
      exact .inl ⟨f, hf, ⟨hnumber, hroute⟩, hat, hcabin⟩
    · exact .inr ⟨u, moves_plain laws hplain hlisted hdate hshown
        fun f hf hnumber hat => htaken ⟨f, hf, hnumber, hat⟩, rfl⟩

end Plain

end Booked

section Samples

open IsoTimes (isoTimes writeNumber)

def row (departure arrival cabin : String) : FlightRow where
  flightNumber := "AA124".toList
  origin := "JFK".toList
  destination := "LAX".toList
  departure := departure.toList
  arrival := arrival.toList
  cabin := cabin.toList

/-- One flight with a row on two dates, in two cabins. -/
def twoCabins : Database where
  flights := [row "2026-05-01T10:00:00" "2026-05-01T13:30:00" "economy",
    row "2026-05-20T10:00:00" "2026-05-20T13:30:00" "business"]
  unique := by decide +kernel

def firstDraws : Draws where
  pnr n := "ABC".toList ++ writeNumber 3 n
  code n := writeNumber 8 n

def shown (date departure arrival : String) (minutes : ℤ) : FlightOption where
  flightId := "AA124".toList
  carrier := "Booking Server".toList
  originCity := "New York".toList
  destCity := "Los Angeles".toList
  originAirport := "JFK".toList
  destAirport := "LAX".toList
  date := date.toList
  departureTime := departure.toList
  arrivalTime := arrival.toList
  durationMinutes := minutes
  cabin := "economy".toList

/-- The cabin shown is that of the first date, also on a date that has a row; and what is
shown for a date that does not parse raises when it is booked. -/
theorem options_not_booked_as_shown :
    (∃ o ∈ searched asciiOps isoTimes twoCabins "JFK".toList "LAX".toList "2026-05-20".toList,
      ¬BooksAsShown asciiOps isoTimes twoCabins firstDraws o) ∧
    ∃ o ∈ searched asciiOps isoTimes twoCabins "JFK".toList "LAX".toList "tomorrow".toList,
      createBooking asciiOps isoTimes twoCabins firstDraws o.request = .error .valueError := by
  have hdated : searched asciiOps isoTimes twoCabins "JFK".toList "LAX".toList
      "2026-05-20".toList =
        [shown "2026-05-20" "2026-05-20T10:00:00" "2026-05-20T13:30:00" 210] := by
    decide +kernel
  have htomorrow : searched asciiOps isoTimes twoCabins "JFK".toList "LAX".toList
      "tomorrow".toList = [shown "tomorrow0:" "tomorrow0:00:00" "tomorrow3:30:00" 0] := by
    decide +kernel
  constructor
  · refine ⟨_, hdated ▸ List.mem_singleton_self _, fun hbooks => ?_⟩
    have hflight := ((books_iff _).mp hbooks).flight
    rcases hflight with ⟨f, hf, -, hdep, hcabin⟩ | ⟨t, hmoves, -⟩
    · rcases List.mem_pair.mp hf with rfl | rfl
      · exact absurd hdep (by decide +kernel)
      · exact absurd hcabin (by decide +kernel)
    · exact hmoves.apart _ (List.mem_cons_of_mem _ (List.mem_singleton_self _)) rfl rfl
  · refine ⟨_, htomorrow ▸ List.mem_singleton_self _, ?_⟩
    rfl

/-- On the first date the option shown is the row that is stored, and it is booked. -/
theorem option_booked_as_shown :
    searched asciiOps isoTimes twoCabins "JFK".toList "LAX".toList "2026-05-01".toList =
        [shown "2026-05-01" "2026-05-01T10:00:00" "2026-05-01T13:30:00" 210] ∧
      BooksAsShown asciiOps isoTimes twoCabins firstDraws
        (shown "2026-05-01" "2026-05-01T10:00:00" "2026-05-01T13:30:00" 210) := by
  have hsearch : searched asciiOps isoTimes twoCabins "JFK".toList "LAX".toList
      "2026-05-01".toList =
        [shown "2026-05-01" "2026-05-01T10:00:00" "2026-05-01T13:30:00" 210] := by
    decide +kernel
  refine ⟨hsearch, ?_⟩
  have hbooks := (searched_books_iff IsoTimes.isoTimes_lawful asciiOps twoCabins firstDraws
    "JFK".toList "LAX".toList "2026-05-01".toList).mpr (.inr fun u hu => ?_)
  · exact hbooks _ (hsearch ▸ List.mem_singleton_self _)
  · rcases List.mem_pair.mp hu.stored with rfl | rfl
    · refine ⟨by decide +kernel, by decide +kernel, by decide +kernel, by decide +kernel,
        by decide +kernel, .inl ⟨_, List.mem_cons_self, ⟨?_, ?_, ?_⟩, ?_, rfl⟩⟩ <;>
        decide +kernel
    · have hlate := hu.first (by decide) (row "2026-05-01T10:00:00" "2026-05-01T13:30:00" "economy")
        List.mem_cons_self (by decide +kernel)
      exact absurd hlate (by decide +kernel)

end Samples

end VoiceAgent.FlightSearch
