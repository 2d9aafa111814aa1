import VoiceAgent.BookingIntegrity

/-!
The tables that the flight search is stated over are what it sees of the booking database: the
flights without their ids, every PNR with the flight it is on, and the codes that were issued.
A booking in the database is the booking in what is seen of it.
-/
namespace VoiceAgent.BookingRefinement

open StreamingEvents (Text strip)
open FlightSearch BookingDatabase BookingIntegrity
open BookingFlow (TextOps)

section Views
variable {db : Tables} {v : Database} {row : FlightRow}

def seenPnr (flights : List FlightEntry) (p : PnrEntry) : Option PnrRow :=
  (flights.find? fun f => f.id = p.flightId).map fun flight => {
    pnr := p.pnr
    passenger := p.passenger
    flight := flight.toFlightRow
    fareBasis := p.fareBasis }

/-- What is seen of the five tables. -/
structure Seen (db : Tables) (v : Database) : Prop where
  flights : v.flights = db.flights.map FlightEntry.toFlightRow
  pnrs : v.pnrs = db.pnrs.filterMap (seenPnr db.flights)
  codes : v.codes = db.codeKeys

theorem exists_seen (h : Sound db) : ∃ v, Seen db v :=
  ⟨{ flights := db.flights.map FlightEntry.toFlightRow
     pnrs := db.pnrs.filterMap (seenPnr db.flights)
     codes := db.codeKeys
     unique := List.pairwise_map.mpr h.slots }, rfl, rfl, rfl⟩

/-- A PNR that is on a flight of the table is seen, and on that flight. -/
theorem seenPnr_eq {p : PnrEntry} (hp : p.flightId ∈ db.flightIds) :
    ∃ flight ∈ db.flights, flight.id = p.flightId ∧ ∀ more,
      seenPnr (db.flights ++ more) p = some {
        pnr := p.pnr
        passenger := p.passenger
        flight := flight.toFlightRow
        fareBasis := p.fareBasis } := by
  obtain ⟨f, hf, hid⟩ := List.mem_map.mp hp
  have hfound : (db.flights.find? fun f => f.id = p.flightId).isSome :=
    List.find?_isSome.mpr ⟨f, hf, decide_eq_true hid⟩
  obtain ⟨flight, hflight⟩ := Option.isSome_iff_exists.mp hfound
  refine ⟨flight, List.mem_of_find?_eq_some hflight, ?_, fun more => ?_⟩
  · simpa using List.find?_some hflight
  · rw [seenPnr, List.find?_append, hflight]
    rfl

theorem pnrKeys_seen (h : Sound db) (hv : Seen db v) : v.pnrs.map PnrRow.pnr = db.pnrKeys := by
  rw [hv.pnrs, List.map_filterMap, Tables.pnrKeys, ← List.filterMap_eq_map]
  refine List.filterMap_congr fun p hp => ?_
  obtain ⟨flight, -, -, hseen⟩ := seenPnr_eq (h.booked p hp)
  have hown := hseen []
  rw [List.append_nil] at hown
  rw [hown]
  rfl

/-- A flight that is scheduled is seen, and every PNR is still seen on its own. -/
theorem seen_insertFlight (h : Sound db) (hv : Seen db v) (row : FlightRow) :
    Seen (db.insertFlight row) (v.insertOrIgnore row) := by
  have hslot : (∃ f ∈ v.flights, SameSlot f row) ↔
      ∃ f ∈ db.flights, SameSlot f.toFlightRow row := by
    simp [hv.flights]
  unfold Tables.insertFlight Database.insertOrIgnore
  by_cases htaken : ∃ f ∈ db.flights, SameSlot f.toFlightRow row
  · rw [if_pos htaken, dif_pos (hslot.mpr htaken)]
    exact hv
  · rw [if_neg htaken, dif_neg (mt hslot.mp htaken)]
    refine ⟨?_, ?_, hv.codes⟩
    · rw [List.map_append, ← hv.flights]
      rfl
    · rw [hv.pnrs]
      refine List.filterMap_congr fun p hp => ?_
      obtain ⟨flight, -, -, hseen⟩ := seenPnr_eq (h.booked p hp)
      have hown := hseen []
      rw [List.append_nil] at hown
      rw [hown, hseen]

theorem flight_seen (hv : Seen db v) (flightNumber origin destination : Text) :
    v.flight flightNumber origin destination =
      ((db.onRoute flightNumber origin destination).insertionSort fun f g =>
        f.departure ≤ g.departure).map FlightEntry.toFlightRow := by
  rw [Database.flight, byDeparture, hv.flights, List.filter_map]
  exact (List.map_insertionSort (fun f g : FlightEntry => f.departure ≤ g.departure)
    (fun f g : FlightRow => f.departure ≤ g.departure) FlightEntry.toFlightRow _
      fun _ _ _ _ => Iff.rfl).symm

theorem exact_seen (hv : Seen db v) (flightNumber origin destination departure : Text) :
    v.exact flightNumber origin destination departure =
      (db.exactFlight flightNumber origin destination departure).map FlightEntry.toFlightRow := by
  rw [Database.exact, hv.flights, List.find?_map, Tables.exactFlight, Tables.onRoute,
    List.find?_filter]
  congr 2
  funext f
  simp

end Views

section Bookings
variable {T : TextOps} {C : Datetimes} {w : World} {db : Tables} {v : Database}

/-- Both raise the same, or both return and what they return goes together. -/
inductive Agree {α β : Type} (R : α → β → Prop) : Except Failure α → Except Raised β → Prop
  | ok {a : α} {b : β} (h : R a b) : Agree R (.ok a) (.ok b)
  | raised (e : Raised) : Agree R (.error (.raised e)) (.error e)

theorem Agree.bind {α β γ δ : Type} {R : α → β → Prop} {Q : γ → δ → Prop}
    {x : Except Failure α} {y : Except Raised β} {f : α → Except Failure γ}
    {g : β → Except Raised δ} (h : Agree R x y) (hnext : ∀ a b, R a b → Agree Q (f a) (g b)) :
    Agree Q (x >>= f) (y >>= g) := by
  cases h with
  | ok h => exact hnext _ _ h
  | raised e => exact .raised e

/-- The flight that is found, in tables that are seen. -/
structure Found (x : Option FlightEntry × Tables) (y : Option FlightRow × Database) :
    Prop where
  flight : y.1 = x.1.map FlightEntry.toFlightRow
  mem : ∀ f ∈ x.1, f ∈ x.2.flights
  sound : Sound x.2
  seen : Seen x.2 y.2

theorem mem_exactFlight {flightNumber origin destination departure : Text} {f : FlightEntry}
    (h : db.exactFlight flightNumber origin destination departure = some f) : f ∈ db.flights :=
  (List.mem_filter.mp (List.mem_of_find?_eq_some h)).1

theorem findOrCreate_seen (h : Sound db) (hv : Seen db v) (flightNumber origin destination : Text)
    (departure : Option Text) :
    Agree Found (findOrCreateFlight C db flightNumber origin destination departure)
      (findOrCreateFlightRow C v flightNumber origin destination departure) := by
  have hrows := flight_seen hv flightNumber origin destination
  have hearliest : Agree Found
      (.ok (((db.onRoute flightNumber origin destination).insertionSort fun f g =>
        f.departure ≤ g.departure).head?, db))
      (.ok ((v.flight flightNumber origin destination).head?, v)) := by
    refine .ok ⟨by rw [hrows, List.head?_map], fun f hf => ?_, h, hv⟩
    have hmem := (List.mem_insertionSort _).mp (List.mem_of_head? hf)
    exact (List.mem_filter.mp hmem).1
  cases departure with
  | none => exact hearliest
  | some departure =>
    cases departure with
    | nil => exact hearliest
    | cons c cs =>
      unfold findOrCreateFlight findOrCreateFlightRow
      dsimp only
      rw [exact_seen hv, ← hrows]
      cases hexact : db.exactFlight flightNumber origin destination (c :: cs) with
      | some flight =>
        exact .ok ⟨rfl, fun f hf => Option.some.inj hf ▸ mem_exactFlight hexact, h, hv⟩
      | none =>
        cases selectTemplateForTime (v.flight flightNumber origin destination)
          ((c :: cs).drop 11) with
        | none => exact .ok ⟨rfl, nofun, h, hv⟩
        | some template =>
          dsimp only [Option.map_none]
          cases materializeFlightRow C template ((c :: cs).take 10) (some (c :: cs)) with
          | error e => exact .raised e
          | ok row =>
            have hseen := seen_insertFlight h hv row.scheduled
            exact .ok ⟨exact_seen hseen _ _ _ _, fun f hf => mem_exactFlight hf,
              h.insertFlight _, hseen⟩

theorem seenPnr_own (h : Sound db) {p : PnrEntry} {flight : FlightEntry}
    (hmem : flight ∈ db.flights) (hid : p.flightId = flight.id) :
    seenPnr db.flights p = some {
      pnr := p.pnr
      passenger := p.passenger
      flight := flight.toFlightRow
      fareBasis := p.fareBasis } := by
  have hflight : p.flightId ∈ db.flightIds := List.mem_map.mpr ⟨flight, hmem, hid.symm⟩
  obtain ⟨f, hf, hfid, hseen⟩ := seenPnr_eq hflight
  obtain rfl : f = flight := List.inj_on_of_nodup_map h.flightIds hf hmem (hfid.trans hid)
  have hown := hseen []
  rwa [List.append_nil] at hown

/-- A PNR that is added is seen on its flight, and the code that goes with it as issued. -/
theorem seen_booked {booked : Tables} {v' : Database} {p : PnrEntry} {issued : IssuedCode}
    {flight : FlightEntry} (h : Sound db) (hv : Seen db v) (hmem : flight ∈ db.flights)
    (hid : p.flightId = flight.id) (hflights : booked.flights = db.flights)
    (hpnrs : booked.pnrs = db.pnrs ++ [p]) (hcodes : booked.codes = db.codes ++ [issued])
    (hflights' : v'.flights = v.flights)
    (hpnrs' : v'.pnrs = v.pnrs ++ [{
      pnr := p.pnr
      passenger := p.passenger
      flight := flight.toFlightRow
      fareBasis := p.fareBasis }])
    (hcodes' : v'.codes = v.codes ++ [issued.code]) : Seen booked v' where
  flights := by rw [hflights, hflights', hv.flights]
  pnrs := by
    have hown : [p].filterMap (seenPnr db.flights) = [{
        pnr := p.pnr
        passenger := p.passenger
        flight := flight.toFlightRow
        fareBasis := p.fareBasis }] := by
      rw [List.filterMap_cons, seenPnr_own h hmem hid, List.filterMap_nil]
    rw [hflights, hpnrs, hpnrs', List.filterMap_append, hown, hv.pnrs]
  codes := by
    rw [hcodes', hv.codes, Tables.codeKeys, Tables.codeKeys, hcodes, List.map_append]
    rfl

theorem insertPnr_new {p : PnrEntry} (hnew : p.pnr ∉ db.pnrKeys)
    (hflight : p.flightId ∈ db.flightIds) :
    db.insertPnr p = .ok { db with pnrs := db.pnrs ++ [p] } :=
  if_neg (not_or.mpr ⟨hnew, not_not.mpr hflight⟩)

/-- A new PNR has no ancillaries yet. -/
theorem insertAncillary_new (h : Sound db) {p : PnrEntry} {a : Ancillary}
    (hnew : p.pnr ∉ db.pnrKeys) (ha : a.pnr = p.pnr) :
    { db with pnrs := db.pnrs ++ [p] : Tables }.insertAncillary a = .ok (addBooking db p a) := by
  have hanc : a.pnr ∉ db.ancillaryKeys := ha ▸ mt (h.matched _).mp hnew
  have hkey : a.pnr ∈ { db with pnrs := db.pnrs ++ [p] : Tables }.pnrKeys :=
    List.mem_map.mpr ⟨p, List.mem_append_right _ (List.mem_singleton_self p), ha.symm⟩
  exact if_neg (not_or.mpr ⟨hanc, not_not.mpr hkey⟩)

/-- The codes that were issued are all that issuing one depends on. -/
theorem issueCode_seen (hcodes : v.codes = db.codeKeys) (pnr action : Text) :
    issueCode w db pnr action = match w.freeCode v with
      | none => .error (.raised .runtimeError)
      | some code => .ok (code, { db with
          codes := db.codes ++
            [{ code := code, pnr := pnr, action := action, issuedAt := w.now 1 }] }) := by
  have hfind : (((List.range 10).map w.code).find? fun code => code ∉ db.codeKeys) =
      w.freeCode v := by
    rw [Draws.freeCode, hcodes]
  cases hfree : w.freeCode v with
  | none => simp only [issueCode, hfind, hfree]
  | some code => simp only [issueCode, hfind, hfree]

/-- A booking in the five tables and one in what is seen of them raise the same, or return the
same booking and tables of which the same is seen. -/
theorem createBooking_seen (h : Sound db) (hv : Seen db v) (args : CreateArgs) :
    Agree (fun x y => x.1 = y.1.map Result.booked ∧ Seen x.2 y.2) (createBody T C w db args)
      (FlightSearch.createBooking T C v w.toDraws args.toBookingRequest) := by
  unfold createBody FlightSearch.createBooking
  refine (findOrCreate_seen h hv _ _ _ _).bind ?_
  rintro ⟨found, base⟩ ⟨found', v'⟩ ⟨rfl, hmem, hsound, hseen⟩
  have hpnr : w.freePnr v' = ((List.range 8).map w.pnr).find? fun pnr => pnr ∉ base.pnrKeys := by
    rw [Draws.freePnr, pnrKeys_seen hsound hseen]
  dsimp only at hmem hsound hseen ⊢
  rw [hpnr]
  cases found with
  | none => exact .ok ⟨rfl, hseen⟩
  | some flight =>
    cases hfree : ((List.range 8).map w.pnr).find? fun pnr => pnr ∉ base.pnrKeys with
    | none => exact .ok ⟨rfl, hseen⟩
    | some pnr =>
      have hnew : pnr ∉ base.pnrKeys := by simpa using List.find?_some hfree
      have hflight : flight.id ∈ base.flightIds :=
        List.mem_map_of_mem (hmem flight rfl)
      dsimp only
      rw [insertPnr_new hnew hflight]
      simp only [bind, Except.bind]
      rw [insertAncillary_new hsound hnew rfl]
      dsimp only
      rw [issueCode_seen (show v'.codes = (addBooking base _ _).codeKeys from hseen.codes)]
      cases w.freeCode v' with
      | none => exact .raised .runtimeError
      | some code =>
        exact .ok ⟨rfl, seen_booked hsound hseen (hmem flight rfl) rfl rfl rfl rfl rfl rfl rfl⟩

/-- A call of `create_booking` answers as the booking in what is seen of the database does, and
what is seen afterwards is what that booking leaves; where it raises, what was seen before. -/
theorem createBooking_refines (h : Sound db) (args : CreateArgs) :
    (∃ v, Seen db v) ∧ ∀ v, Seen db v →
      match FlightSearch.createBooking T C v w.toDraws args.toBookingRequest with
      | .ok (booking, v') =>
        (BookingDatabase.createBooking T C w db args).1 = .ok (booking.map Result.booked) ∧
          Seen (BookingDatabase.createBooking T C w db args).2 v'
      | .error e => BookingDatabase.createBooking T C w db args = (.error (.raised e), db) := by
  refine ⟨exists_seen h, fun v hv => ?_⟩
  have hagree := createBooking_seen (T := T) (C := C) (w := w) h hv args
  unfold BookingDatabase.createBooking
  generalize createBody T C w db args = x at hagree ⊢
  generalize FlightSearch.createBooking T C v w.toDraws args.toBookingRequest = y at hagree ⊢
  cases hagree with
  | ok hboth => exact ⟨congrArg Except.ok hboth.1, hboth.2⟩
  | raised e => rfl

end Bookings

end VoiceAgent.BookingRefinement
