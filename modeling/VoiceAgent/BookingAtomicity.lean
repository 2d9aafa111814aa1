import VoiceAgent.BookingIntegrity

/-!
A mutation without a result should leave the tables as they were. Every early return but one
comes before the first write, and an exception rolls the writes back; a booking that finds no
free PNR returns after the flight has gone on the schedule.
-/
namespace VoiceAgent.BookingAtomicity

open StreamingEvents (Text)
open FlightSearch BookingDatabase BookingIntegrity
open BookingFlow (TextOps)
open BookingConfirmation (asciiOps)
open IsoTimes (isoTimes)

section Statement

/-- A call that returns nothing, or raises, changes no table. -/
def Atomic (T : TextOps) (C : Datetimes) (w : World) (db : Tables) (call : Call) : Prop :=
  (∀ r, (call.run T C w db).1 ≠ .ok (some r)) → (call.run T C w db).2 = db

/-- The rows that a flight of another day is modelled on. -/
def templates (db : Tables) (flightNumber origin destination : Text) : List FlightRow :=
  ((db.onRoute flightNumber origin destination).insertionSort fun f g =>
    f.departure ≤ g.departure).map FlightEntry.toFlightRow

/-- A departure is asked for that is not on the schedule yet, and has a template; its slot is
free. -/
def Adds (C : Datetimes) (db : Tables) (flightNumber origin destination : Text)
    (asked : Option Text) (row : FlightRow) : Prop :=
  ∃ departure template, asked = some departure ∧ departure ≠ [] ∧
    db.exactFlight flightNumber origin destination departure = none ∧
    selectTemplateForTime (templates db flightNumber origin destination)
      (departure.drop 11) = some template ∧
    materializeFlightRow C template (departure.take 10) (some departure) = .ok row ∧
    ¬∃ f ∈ db.flights, SameSlot f.toFlightRow row

/-- All the PNRs that a booking draws are taken. -/
def Taken (w : World) (db : Tables) : Prop := ∀ i < 8, w.pnr i ∈ db.pnrKeys

end Statement

section Transactions

variable {db db' : Tables} {α : Type} {body : Except Failure (α × Tables)}

theorem transaction_ok {a : α} (h : body = .ok (a, db')) : transaction db body = (.ok a, db') := by
  subst h
  rfl

/-- Where nothing is written on the way to no result, nothing has changed. -/
theorem transaction_unchanged {body : Except Failure (Option α × Tables)}
    (hnone : ∀ db', body = .ok (none, db') → db' = db)
    (h : ∀ a, (transaction db body).1 ≠ .ok (some a)) : (transaction db body).2 = db := by
  cases hbody : body with
  | error e => rfl
  | ok done =>
    obtain ⟨out, db'⟩ := done
    cases out with
    | none => exact hnone db' hbody
    | some a => exact absurd (congrArg Prod.fst (transaction_ok hbody)) (h a)

end Transactions

section Bodies

variable {T : TextOps} {C : Datetimes} {w : World} {db db' : Tables}

theorem rebook_none {args : RebookArgs} (h : rebookBody T w db args = .ok (none, db')) :
    db' = db := by
  unfold rebookBody at h
  dsimp only at h
  split at h
  · exact ((Prod.mk.inj (Except.ok.inj h)).2).symm
  · split at h
    · exact ((Prod.mk.inj (Except.ok.inj h)).2).symm
    · split at h
      · exact ((Prod.mk.inj (Except.ok.inj h)).2).symm
      · obtain ⟨moved, -, h⟩ := bind_eq_ok.mp h
        obtain ⟨issued, -, h⟩ := bind_eq_ok.mp h
        cases h

theorem cancel_none {args : CancelArgs} (h : cancelBody T w db args = .ok (none, db')) :
    db' = db := by
  unfold cancelBody at h
  dsimp only at h
  split at h
  · exact ((Prod.mk.inj (Except.ok.inj h)).2).symm
  · split at h
    · exact ((Prod.mk.inj (Except.ok.inj h)).2).symm
    · obtain ⟨issued, -, h⟩ := bind_eq_ok.mp h
      cases h

theorem standby_none {args : StandbyArgs} (h : standbyBody T w db args = .ok (none, db')) :
    db' = db := by
  unfold standbyBody at h
  dsimp only at h
  split at h
  · exact ((Prod.mk.inj (Except.ok.inj h)).2).symm
  · split at h
    · exact ((Prod.mk.inj (Except.ok.inj h)).2).symm
    · split at h
      · exact ((Prod.mk.inj (Except.ok.inj h)).2).symm
      · obtain ⟨issued, -, h⟩ := bind_eq_ok.mp h
        cases h

end Bodies

section Bookings

variable {T : TextOps} {C : Datetimes} {w : World} {db db' : Tables}
  {fn origin destination : Text} {asked : Option Text} {row : FlightRow}

theorem insertFlight_free (h : ¬∃ f ∈ db.flights, SameSlot f.toFlightRow row) :
    db.insertFlight row.scheduled = { db with
      flights := db.flights ++ [{ toFlightRow := row.scheduled, id := db.nextFlight }]
      nextFlight := db.nextFlight + 1 } :=
  if_neg h

theorem insertFlight_ne (h : ¬∃ f ∈ db.flights, SameSlot f.toFlightRow row) :
    db.insertFlight row.scheduled ≠ db := by
  intro heq
  have hlength := congrArg (fun t : Tables => t.nextFlight) heq
  rw [insertFlight_free h] at hlength
  simp at hlength

/-- A template flies the route, and so does what is modelled on it. -/
theorem names_of_template {template : FlightRow} {time date : Text} {override : Option Text}
    (ht : selectTemplateForTime (templates db fn origin destination) time = some template)
    (hrow : materializeFlightRow C template date override = .ok row) :
    row.flightNumber = fn ∧ row.Flies origin destination := by
  obtain ⟨f, hf, rfl⟩ := List.mem_map.mp (mem_of_select ht)
  have hroute := (List.mem_filter.mp ((List.mem_insertionSort _).mp hf)).2
  obtain ⟨hnumber, horigin, hdestination⟩ := of_decide_eq_true hroute
  have hkept : ∃ m, f.toFlightRow.onDate C date m = .ok row := by
    unfold materializeFlightRow at hrow
    split at hrow
    · exact ⟨none, hrow⟩
    · exact ⟨none, hrow⟩
    · split at hrow
      · cases hrow
      · exact ⟨_, hrow⟩
  obtain ⟨m, hm⟩ := hkept
  obtain ⟨⟨hnumber', horigin', hdestination'⟩, -⟩ := onDate_keeps hm
  exact ⟨hnumber'.trans hnumber, horigin'.trans horigin, hdestination'.trans hdestination⟩

/-- The flight that has been added is found again. -/
theorem exact_of_added (hfree : ¬∃ f ∈ db.flights, SameSlot f.toFlightRow row)
    (hnames : row.flightNumber = fn ∧ row.Flies origin destination) :
    ∃ f, (db.insertFlight row.scheduled).exactFlight fn origin destination row.departure =
      some f := by
  rw [insertFlight_free hfree]
  refine Option.isSome_iff_exists.mp (List.find?_isSome.mpr
    ⟨{ toFlightRow := row.scheduled, id := db.nextFlight }, ?_, decide_eq_true rfl⟩)
  exact List.mem_filter.mpr ⟨List.mem_append_right _ (List.mem_singleton_self _),
    decide_eq_true hnames⟩

/-- The search for a flight leaves the tables alone, or it adds the flight that it gives. -/
theorem findOrCreate_cases {found : Option FlightEntry} {base : Tables}
    (h : findOrCreateFlight C db fn origin destination asked = .ok (found, base)) :
    base = db ∨ ∃ row f, Adds C db fn origin destination asked row ∧ found = some f ∧
      base = db.insertFlight row.scheduled := by
  unfold findOrCreateFlight at h
  dsimp only at h
  split at h
  · exact .inl ((Prod.mk.inj (Except.ok.inj h)).2).symm
  · exact .inl ((Prod.mk.inj (Except.ok.inj h)).2).symm
  · rename_i departure hne
    split at h
    · exact .inl ((Prod.mk.inj (Except.ok.inj h)).2).symm
    · rename_i hexact
      split at h
      · exact .inl ((Prod.mk.inj (Except.ok.inj h)).2).symm
      · rename_i template htemplate
        split at h
        · cases h
        · rename_i row hrow
          obtain ⟨hfound, hbase⟩ := Prod.mk.inj (Except.ok.inj h)
          by_cases hfree : ∃ f ∈ db.flights, SameSlot f.toFlightRow row
          · exact .inl (hbase ▸ if_pos hfree)
          · obtain ⟨f, hf⟩ := exact_of_added hfree (names_of_template htemplate hrow)
            exact .inr ⟨row, f, ⟨departure, template, rfl, hne, hexact, htemplate, hrow, hfree⟩,
              hfound ▸ hf, hbase.symm⟩

theorem findOrCreate_adds (h : Adds C db fn origin destination asked row) :
    ∃ found, findOrCreateFlight C db fn origin destination asked =
      .ok (found, db.insertFlight row.scheduled) := by
  obtain ⟨departure, template, rfl, hne, hexact, htemplate, hrow, -⟩ := h
  obtain ⟨c, rest, rfl⟩ := List.exists_cons_of_ne_nil hne
  refine ⟨(db.insertFlight row.scheduled).exactFlight fn origin destination row.departure, ?_⟩
  unfold templates at htemplate
  simp only [findOrCreateFlight, hexact, htemplate, hrow]

theorem taken_iff {base : Tables} (hkeys : base.pnrKeys = db.pnrKeys) :
    ((List.range 8).map w.pnr).find? (fun pnr => pnr ∉ base.pnrKeys) = none ↔ Taken w db := by
  simp [List.find?_eq_none, hkeys, Taken]

/-- A booking that gives nothing has found no flight, or no PNR. -/
theorem create_none {args : CreateArgs} (h : createBody T C w db args = .ok (none, db')) :
    db' = db ∨ ∃ row, Adds C db (canonical T args.flightNumber) (canonical T args.origin)
      (canonical T args.destination) args.departure row ∧ Taken w db := by
  unfold createBody at h
  obtain ⟨⟨found, base⟩, hfound, h⟩ := bind_eq_ok.mp h
  dsimp only at h
  split at h
  · obtain ⟨withPnr, -, h⟩ := bind_eq_ok.mp h
    obtain ⟨withBoth, -, h⟩ := bind_eq_ok.mp h
    obtain ⟨issued, -, h⟩ := bind_eq_ok.mp h
    cases h
  · rename_i hneither
    obtain rfl := (Prod.mk.inj (Except.ok.inj h)).2
    rcases findOrCreate_cases hfound with hsame | ⟨row, f, hadds, rfl, hbase⟩
    · exact .inl hsame
    · have hkeys : base.pnrKeys = db.pnrKeys := by
        rw [hbase, Tables.pnrKeys, (insertFlight_tables db _).1]
        rfl
      refine .inr ⟨row, hadds, (taken_iff hkeys).mp ?_⟩
      rw [Option.eq_none_iff_forall_not_mem]
      exact fun pnr hpnr => hneither f pnr rfl hpnr

/-- What goes wrong: the flight has been added when the PNRs run out. -/
theorem create_taken {args : CreateArgs}
    (hadds : Adds C db (canonical T args.flightNumber) (canonical T args.origin)
      (canonical T args.destination) args.departure row) (htaken : Taken w db) :
    createBody T C w db args = .ok (none, db.insertFlight row.scheduled) := by
  obtain ⟨found, hfound⟩ := findOrCreate_adds hadds
  have hkeys : (db.insertFlight row.scheduled).pnrKeys = db.pnrKeys := by
    rw [Tables.pnrKeys, (insertFlight_tables db _).1]
    rfl
  unfold createBody
  refine bind_eq_ok.mpr ⟨_, hfound, ?_⟩
  simp only [(taken_iff hkeys).mpr htaken]
  rfl

end Bookings

section Calls

variable (T : TextOps) (C : Datetimes) (w : World) (db : Tables)

/-- A call without a result changes nothing, unless it is a booking that adds a flight and then
finds that all the PNRs it draws are taken. -/
theorem atomic_iff (call : Call) :
    Atomic T C w db call ↔ ¬∃ args row, call = .createBooking args ∧
      Adds C db (canonical T args.flightNumber) (canonical T args.origin)
        (canonical T args.destination) args.departure row ∧ Taken w db := by
  constructor
  · rintro hatomic ⟨args, row, rfl, hadds, htaken⟩
    have hrun : Call.run T C w db (.createBooking args) =
        (.ok none, db.insertFlight row.scheduled) :=
      transaction_ok (create_taken hadds htaken)
    have hsame := hatomic (by simp [hrun])
    rw [hrun] at hsame
    obtain ⟨-, -, -, -, -, -, -, hfree⟩ := hadds
    exact insertFlight_ne hfree hsame
  · intro hfine hnone
    cases call with
    | read => rfl
    | cancelBooking args => exact transaction_unchanged (fun _ => cancel_none) hnone
    | listStandby args => exact transaction_unchanged (fun _ => standby_none) hnone
    | commitRebook args =>
      refine transaction_unchanged (fun _ => rebook_none) fun done hdone => ?_
      exact hnone _ (congrArg (Except.map (Option.map _)) hdone)
    | createBooking args =>
      refine transaction_unchanged (fun db' hbody => ?_) hnone
      rcases create_none hbody with hsame | ⟨row, hadds, htaken⟩
      · exact hsame
      · exact absurd ⟨args, row, rfl, hadds, htaken⟩ hfine

/-- Every PNR that is drawn is the one that is taken. -/
def stuck : World := { noon with pnr := fun _ => "QRS123".toList }

def nextDay : Call := .createBooking {
  passenger := "Grace".toList
  origin := "JFK".toList
  destination := "LAX".toList
  flightNumber := "AA124".toList
  departure := some "2026-05-02T10:00:00".toList }

/-- The flight of the next day stays on the schedule. -/
theorem booking_leaves_flight : ¬ ∀ (w : World) (db : Tables) (call : Call),
    Atomic asciiOps isoTimes w db call := by
  intro h
  have hnone : (nextDay.run asciiOps isoTimes stuck oneBooking).1 = .ok none := by
    decide +kernel
  have hsame := h stuck oneBooking nextDay (by simp [hnone])
  exact absurd hsame (by decide +kernel)

end Calls

end VoiceAgent.BookingAtomicity
