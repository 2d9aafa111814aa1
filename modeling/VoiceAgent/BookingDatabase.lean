import VoiceAgent.FlightSearch

/-!
The database under the booking server: five tables, and the mutations that `BookingAPI` makes on
them, each in a transaction of its own. What a mutation raises for is rolled back; what it
returns `None` for is committed as far as it has come.
-/
namespace VoiceAgent.BookingDatabase

open StreamingEvents BookingFlow FlightSearch

section Schema

/-- A row of `flights`. -/
structure FlightEntry extends FlightRow where
  id : ℕ
  deriving DecidableEq

/-- A row of `pnrs`. -/
structure PnrEntry where
  pnr : Text
  passenger : Text
  flightId : ℕ
  fareBasis : Text
  eliteTier : Text := "none".toList
  status : Text := "active".toList
  createdAt : Text
  updatedAt : Text
  deriving DecidableEq

/-- A row of `ancillaries`. -/
structure Ancillary where
  pnr : Text
  seat : Option Text
  bagCount : ℤ := 0
  meal : Option Text
  deriving DecidableEq

/-- A row of `activity_log`, in the columns that the mutations write. -/
structure Activity where
  pnr : Text
  action : Text
  sessionId : Option Text := none
  fromFlight : Option Text := none
  fromOrigin : Option Text := none
  fromDestination : Option Text := none
  fromDeparture : Option Text := none
  toFlight : Option Text := none
  toOrigin : Option Text := none
  toDestination : Option Text := none
  toDeparture : Option Text := none
  outcome : Option Text := none
  confirmationCode : Option Text := none
  policyRef : Option Text := none
  createdAt : Text
  deriving DecidableEq

/-- A row of `confirmation_codes`. -/
structure IssuedCode where
  code : Text
  pnr : Text
  action : Text
  issuedAt : Text
  deriving DecidableEq

/-- The tables; `nextFlight` is the id that `AUTOINCREMENT` gives next. -/
structure Tables where
  flights : List FlightEntry := []
  nextFlight : ℕ := 1
  pnrs : List PnrEntry := []
  ancillaries : List Ancillary := []
  activity : List Activity := []
  codes : List IssuedCode := []
  deriving DecidableEq

inductive Failure
  | integrityError
  | raised (e : Raised)
  deriving DecidableEq

/-- What `secrets`, `random` and the clock give in one call, in the order asked. -/
structure World extends Draws where
  now : ℕ → Text

end Schema

section Statements

namespace Tables
variable (db : Tables)

def flightIds : List ℕ := db.flights.map FlightEntry.id

def pnrKeys : List Text := db.pnrs.map PnrEntry.pnr

def ancillaryKeys : List Text := db.ancillaries.map Ancillary.pnr

def codeKeys : List Text := db.codes.map IssuedCode.code

/-- `INSERT OR IGNORE INTO flights`. -/
def insertFlight (row : FlightRow) : Tables :=
  if ∃ f ∈ db.flights, SameSlot f.toFlightRow row then db
  else
    { db with
      flights := db.flights ++ [{ toFlightRow := row, id := db.nextFlight }]
      nextFlight := db.nextFlight + 1 }

def insertPnr (row : PnrEntry) : Except Failure Tables :=
  if row.pnr ∈ db.pnrKeys ∨ row.flightId ∉ db.flightIds then .error .integrityError
  else .ok { db with pnrs := db.pnrs ++ [row] }

def insertAncillary (row : Ancillary) : Except Failure Tables :=
  if row.pnr ∈ db.ancillaryKeys ∨ row.pnr ∉ db.pnrKeys then .error .integrityError
  else .ok { db with ancillaries := db.ancillaries ++ [row] }

/-- `UPDATE pnrs ... WHERE pnr = ?` -/
def updatePnr (pnr : Text) (f : PnrEntry → PnrEntry) : Tables :=
  { db with pnrs := db.pnrs.map fun p => if p.pnr = pnr then f p else p }

def updateAncillary (pnr : Text) (f : Ancillary → Ancillary) : Tables :=
  { db with ancillaries := db.ancillaries.map fun a => if a.pnr = pnr then f a else a }

def setFlight (pnr : Text) (flightId : ℕ) (updatedAt : Text) : Except Failure Tables :=
  if flightId ∈ db.flightIds then
    .ok (db.updatePnr pnr fun p => { p with flightId := flightId, updatedAt := updatedAt })
  else .error .integrityError

def logActivity (row : Activity) : Tables := { db with activity := db.activity ++ [row] }

/-- `ORDER BY departure ASC LIMIT 1`. -/
def earliest (rows : List FlightEntry) : Option FlightEntry :=
  (rows.insertionSort fun f g => f.departure ≤ g.departure).head?

/-- A flight by its number; by its departure too, if that is given. -/
def flightNamed (flightNumber : Text) (departure : Option Text) : Option FlightEntry :=
  match departure with
  | none | some [] => earliest (db.flights.filter fun f => f.flightNumber = flightNumber)
  | some departure => db.flights.find? fun f =>
    f.flightNumber = flightNumber ∧ f.departure = departure

def onRoute (flightNumber origin destination : Text) : List FlightEntry :=
  db.flights.filter fun f => f.flightNumber = flightNumber ∧ f.Flies origin destination

def exactFlight (flightNumber origin destination departure : Text) : Option FlightEntry :=
  (db.onRoute flightNumber origin destination).find? fun f => f.departure = departure

end Tables

/-- A PNR joined with its flight and, where it has some, its ancillaries. -/
structure JoinedRow where
  pnr : PnrEntry
  flight : FlightEntry
  ancillary : Option Ancillary
  deriving DecidableEq

def Tables.fetchPnrRow (db : Tables) (pnr : Text) : Option JoinedRow := do
  let p ← db.pnrs.find? fun p => p.pnr = pnr
  let f ← db.flights.find? fun f => f.id = p.flightId
  return { pnr := p, flight := f, ancillary := db.ancillaries.find? fun a => a.pnr = pnr }

end Statements

section Reads
variable (T : TextOps)

/-- A row of the table of distances; `left` is the cell before. -/
def editRow (ca : Char) : Text → List ℕ → ℕ → List ℕ
  | cb :: rest, diagonal :: up :: above, left =>
    let cell := min (min (left + 1) (up + 1)) (diagonal + if ca = cb then 0 else 1)
    cell :: editRow ca rest (up :: above) cell
  | _, _, _ => []

def editDistance (a b : Text) : ℕ :=
  if a = b then 0
  else if 2 < max (a.length - b.length) (b.length - a.length) then max a.length b.length
  else
    let rows := a.foldl (fun (above, i) ca => ((i + 1) :: editRow ca b above (i + 1), i + 1))
      (List.range (b.length + 1), 0)
    rows.1.getLast?.getD 0

/-- The only PNR that is closest, no further than one edit away. -/
def Tables.fuzzyMatchPnr (db : Tables) (pnr : Text) : Option Text :=
  let (best, tie) := db.pnrKeys.foldl (fun (best, tie) key =>
    let d := editDistance pnr key
    if 1 < d then (best, tie)
    else match best with
      | none => (some (d, key), false)
      | some (least, _) =>
        if d < least then (some (d, key), false)
        else (best, if d = least then true else tie)) ((none : Option (ℕ × Text)), false)
  if tie then none else best.map Prod.snd

/-- `_row_to_booking`. -/
structure BookingView where
  pnr : Text
  passenger : Text
  flightNumber : Text
  origin : Text
  destination : Text
  departure : Text
  cabin : Text
  fareBasis : Text
  eliteTier : Text
  status : Text
  bookingStatus : Text
  delayMinutes : ℤ
  seat : Option Text
  bagCount : ℤ
  meal : Option Text
  deriving DecidableEq

def rowToBooking (row : JoinedRow) : BookingView where
  pnr := row.pnr.pnr
  passenger := row.pnr.passenger
  flightNumber := row.flight.flightNumber
  origin := row.flight.origin
  destination := row.flight.destination
  departure := row.flight.departure
  cabin := row.flight.cabin
  fareBasis := row.pnr.fareBasis
  eliteTier := row.pnr.eliteTier
  status := row.flight.status
  bookingStatus := row.pnr.status
  delayMinutes := row.flight.delayMinutes
  seat := row.ancillary.bind Ancillary.seat
  bagCount := (row.ancillary.map Ancillary.bagCount).getD 0
  meal := row.ancillary.bind Ancillary.meal

/-- `value.strip().upper()` -/
def canonical (value : Text) : Text := T.upper (strip value)

def getPnr (db : Tables) (pnr : Text) : Option BookingView :=
  match db.fetchPnrRow (canonical T pnr) with
  | some row => some (rowToBooking row)
  | none => ((db.fuzzyMatchPnr (canonical T pnr)).bind db.fetchPnrRow).map rowToBooking

end Reads

section Mutations
variable (T : TextOps) (C : Datetimes)

def mealCodes : List (String × String) :=
  [("vegetarian", "VGML"), ("vegan", "VGML"), ("non_vegetarian", "NVML"),
    ("non-vegetarian", "NVML"), ("nonvegetarian", "NVML"), ("regular", "NVML"),
    ("kosher", "KSML"), ("halal", "MOML"), ("gluten_free", "GFML"), ("gluten-free", "GFML")]

def mealKey (meal : Text) : Text :=
  (T.lower (strip meal)).map fun c => if c = ' ' then '_' else c

def mealCode (key : Text) : Text :=
  match mealCodes.lookup (String.ofList key) with
  | some code => code.toList
  | none => T.upper key

def canonicalMeal (meal : Option Text) : Option Text :=
  meal.bind fun meal => if mealKey T meal = [] then none else some (mealCode T (mealKey T meal))

def keepTokens : List String := ["keep", "same", "no_change", "existing", "unchanged"]

/-- The seat and the meal that a row is left with. -/
def changedAncillary (seat meal : Option Text) (row : Ancillary) : Ancillary :=
  let newSeat := match seat with
    | none => row.seat
    | some seat =>
      if String.ofList (T.lower (strip seat)) ∉ keepTokens ∧ strip seat ≠ [] then
        some (T.upper (strip seat))
      else row.seat
  let newMeal := match meal with
    | none => row.meal
    | some meal =>
      if String.ofList (mealKey T meal) ∉ keepTokens ∧ mealKey T meal ≠ [] then
        some (mealCode T (mealKey T meal))
      else row.meal
  { row with seat := newSeat, meal := newMeal }

def applyAncillaryUpdates (db : Tables) (pnr : Text) (seat meal : Option Text) : Tables :=
  if seat = none ∧ meal = none then db
  else match db.ancillaries.find? fun a => a.pnr = pnr with
    | none => db
    | some row =>
      let changed := changedAncillary T seat meal row
      if changed = row then db
      else db.updateAncillary pnr fun a => { a with seat := changed.seat, meal := changed.meal }

/-- `_issue_code`: a code that is taken is the `IntegrityError` that is tried again. -/
def issueCode (w : World) (db : Tables) (pnr action : Text) : Except Failure (Text × Tables) :=
  match ((List.range 10).map w.code).find? fun code => code ∉ db.codeKeys with
  | none => .error (.raised .runtimeError)
  | some code => .ok (code, { db with
      codes := db.codes ++ [{ code := code, pnr := pnr, action := action, issuedAt := w.now 1 }] })

/-- `with conn:` -/
def transaction {α : Type} (db : Tables) (body : Except Failure (α × Tables)) :
    Except Failure α × Tables :=
  match body with
  | .ok (result, db) => (.ok result, db)
  | .error e => (.error e, db)

inductive Result
  | booked (booking : Booking)
  | rebooked (booking : Option BookingView) (confirmationCode fromFlight toFlight : Text)
  | cancelled (confirmationCode pnr kind : Text)
  | listed (confirmationCode pnr standbyFlight : Text)
  deriving DecidableEq

def Result.confirmationCode : Result → Text
  | .booked booking => booking.confirmationCode
  | .rebooked _ code _ _ | .cancelled code _ _ | .listed code _ _ => code

structure RebookArgs where
  pnr : Text
  newFlightNumber : Text
  sessionId : Option Text := none
  seat : Option Text := none
  meal : Option Text := none
  departure : Option Text := none

def isActive (row : JoinedRow) : Prop := row.pnr.status = "active".toList

instance (row : JoinedRow) : Decidable (isActive row) := inferInstanceAs (Decidable (_ = _))

/-- The columns of `activity_log` for the flight that a PNR is on. -/
def fromRow (row : JoinedRow) (activity : Activity) : Activity :=
  { activity with
    fromFlight := some row.flight.flightNumber
    fromOrigin := some row.flight.origin
    fromDestination := some row.flight.destination
    fromDeparture := some row.flight.departure }

def toRow (flight : FlightEntry) (activity : Activity) : Activity :=
  { activity with
    toFlight := some flight.flightNumber
    toOrigin := some flight.origin
    toDestination := some flight.destination
    toDeparture := some flight.departure }

def rebookBody (w : World) (db : Tables) (args : RebookArgs) :
    Except Failure (Option (Text × JoinedRow × FlightEntry) × Tables) :=
  let pnr := canonical T args.pnr
  match db.fetchPnrRow pnr with
  | none => .ok (none, db)
  | some current =>
    if ¬isActive current then .ok (none, db)
    else match db.flightNamed (canonical T args.newFlightNumber) args.departure with
      | none => .ok (none, db)
      | some flight => do
        let db ← db.setFlight pnr flight.id (w.now 0)
        let db := applyAncillaryUpdates T db pnr args.seat args.meal
        let (code, db) ← issueCode w db pnr "REBOOK".toList
        return (some (code, current, flight), db.logActivity (toRow flight (fromRow current {
          pnr := pnr
          action := "REBOOK".toList
          sessionId := args.sessionId
          outcome := some "committed".toList
          confirmationCode := some code
          createdAt := w.now 2 })))

def commitRebook (w : World) (db : Tables) (args : RebookArgs) :
    Except Failure (Option Result) × Tables :=
  let (committed, db) := transaction db (rebookBody T w db args)
  (committed.map fun done => done.map fun (code, current, flight) =>
    .rebooked (getPnr T db (canonical T args.pnr)) code current.flight.flightNumber
      flight.flightNumber, db)

structure CancelArgs where
  pnr : Text
  kind : Text
  policyRef : Text
  sessionId : Option Text := none

def cancelBody (w : World) (db : Tables) (args : CancelArgs) :
    Except Failure (Option Result × Tables) :=
  let pnr := canonical T args.pnr
  match db.fetchPnrRow pnr with
  | none => .ok (none, db)
  | some current =>
    if ¬isActive current then .ok (none, db)
    else do
      let db := db.updatePnr pnr fun p =>
        { p with status := "cancelled".toList, updatedAt := w.now 0 }
      let (code, db) ← issueCode w db pnr "CANCEL".toList
      return (some (.cancelled code pnr args.kind), db.logActivity (fromRow current {
        pnr := pnr
        action := "CANCEL".toList
        sessionId := args.sessionId
        outcome := some args.kind
        policyRef := some args.policyRef
        confirmationCode := some code
        createdAt := w.now 2 }))

def cancelBooking (w : World) (db : Tables) (args : CancelArgs) :
    Except Failure (Option Result) × Tables :=
  transaction db (cancelBody T w db args)

structure StandbyArgs where
  pnr : Text
  standbyFlightNumber : Text
  sessionId : Option Text := none
  departure : Option Text := none

def standbyBody (w : World) (db : Tables) (args : StandbyArgs) :
    Except Failure (Option Result × Tables) :=
  let pnr := canonical T args.pnr
  let standbyFlight := canonical T args.standbyFlightNumber
  match db.fetchPnrRow pnr with
  | none => .ok (none, db)
  | some current =>
    if ¬isActive current then .ok (none, db)
    else match db.flightNamed standbyFlight args.departure with
      | none => .ok (none, db)
      | some flight => do
        let (code, db) ← issueCode w db pnr "STANDBY".toList
        return (some (.listed code pnr standbyFlight), db.logActivity (toRow flight
          (fromRow current {
            pnr := pnr
            action := "STANDBY".toList
            sessionId := args.sessionId
            outcome := some "listed".toList
            confirmationCode := some code
            createdAt := w.now 2 })))

def listStandby (w : World) (db : Tables) (args : StandbyArgs) :
    Except Failure (Option Result) × Tables :=
  transaction db (standbyBody T w db args)

structure CreateArgs extends BookingRequest where
  seat : Option Text := none
  meal : Option Text := none
  sessionId : Option Text := none

def findOrCreateFlight (db : Tables) (flightNumber origin destination : Text)
    (departure : Option Text) : Except Failure (Option FlightEntry × Tables) :=
  let rows := (db.onRoute flightNumber origin destination).insertionSort fun f g =>
    f.departure ≤ g.departure
  match departure with
  | none | some [] => .ok (rows.head?, db)
  | some departure =>
    match db.exactFlight flightNumber origin destination departure with
    | some flight => .ok (some flight, db)
    | none =>
      match selectTemplateForTime (rows.map FlightEntry.toFlightRow) (departure.drop 11) with
      | none => .ok (none, db)
      | some template =>
        match materializeFlightRow C template (departure.take 10) (some departure) with
        | .error e => .error (.raised e)
        | .ok row =>
          let db := db.insertFlight row.scheduled
          .ok (db.exactFlight flightNumber origin destination row.departure, db)

def createBody (w : World) (db : Tables) (args : CreateArgs) :
    Except Failure (Option Result × Tables) := do
  let (found, db) ← findOrCreateFlight C db (canonical T args.flightNumber)
    (canonical T args.origin) (canonical T args.destination) args.departure
  match found, ((List.range 8).map w.pnr).find? fun pnr => pnr ∉ db.pnrKeys with
  | some flight, some pnr => do
    let passenger := strip args.passenger
    let seat := T.upper (strip (args.seat.getD []))
    let db ← db.insertPnr {
      pnr := pnr
      passenger := if passenger = [] then "Guest".toList else passenger
      flightId := flight.id
      fareBasis := args.fareBasis
      createdAt := w.now 0
      updatedAt := w.now 0 }
    let db ← db.insertAncillary {
      pnr := pnr
      seat := if seat = [] then none else some seat
      meal := canonicalMeal T args.meal }
    let cabin := effectiveCabin T flight.toFlightRow
    let (code, db) ← issueCode w db pnr "BOOK".toList
    return (some (.booked {
        pnr := pnr
        confirmationCode := code
        flightNumber := flight.flightNumber
        origin := flight.origin
        destination := flight.destination
        departure := flight.departure
        cabin := cabin
        fareBasis := args.fareBasis
        price := priceFor T flight.origin flight.destination cabin }),
      db.logActivity (toRow flight {
        pnr := pnr
        action := "BOOK".toList
        sessionId := args.sessionId
        outcome := some "booked".toList
        confirmationCode := some code
        createdAt := w.now 2 }))
  | _, _ => return (none, db)

def createBooking (w : World) (db : Tables) (args : CreateArgs) :
    Except Failure (Option Result) × Tables :=
  transaction db (createBody T C w db args)

/-- A call of `BookingAPI`; the reads only select. -/
inductive Call
  | createBooking (args : CreateArgs)
  | commitRebook (args : RebookArgs)
  | cancelBooking (args : CancelArgs)
  | listStandby (args : StandbyArgs)
  | read

def Call.run (w : World) (db : Tables) : Call → Except Failure (Option Result) × Tables
  | .createBooking args => BookingDatabase.createBooking T C w db args
  | .commitRebook args => BookingDatabase.commitRebook T w db args
  | .cancelBooking args => BookingDatabase.cancelBooking T w db args
  | .listStandby args => BookingDatabase.listStandby T w db args
  | .read => (.ok none, db)

/-- The tables after a sequence of calls. -/
def after (db : Tables) (calls : List (World × Call)) : Tables :=
  calls.foldl (fun db (w, call) => (call.run T C w db).2) db

end Mutations

end VoiceAgent.BookingDatabase
