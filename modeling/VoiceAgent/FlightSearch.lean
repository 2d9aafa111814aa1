import VoiceAgent.BookingFlow
import Mathlib.Data.Char
import Mathlib.Data.List.Lex
import Mathlib.Data.List.Pairwise
import Mathlib.Data.List.Sort

/-!
The booking server under the flight search and the booking: `list_alternatives` and
`create_booking` over the table of flights, and `server_flight_to_option` between them.
A search moves the rows it finds to the travel date twice, in the server and in the
option, and a booking moves its row by the same server code once more.
-/
namespace VoiceAgent.FlightSearch

open StreamingEvents BookingFlow

section Datetimes

/-- The exceptions that leave the functions below. -/
inductive Raised
  | valueError | typeError | overflowError | osError | runtimeError
  deriving DecidableEq

/-- `datetime`, `date` and `timedelta`; none for a `ValueError` of `fromisoformat`, for the
`TypeError` of a difference and for the `OverflowError` of a sum. -/
structure Datetimes where
  Moment : Type
  Day : Type
  Span : Type
  fromisoformat : Text → Option Moment
  dateFromisoformat : Text → Option Day
  isoformat : Moment → Text
  /-- `replace` of year, month and day. -/
  onDay : Moment → Day → Moment
  minus : Moment → Moment → Option Span
  isNegative : Span → Bool
  plusDay : Span → Span
  plus : Moment → Span → Option Moment
  /-- `int(total_seconds() / 60)`. -/
  minutes : Span → ℤ
  fromTimestamp : ℤ → Except Raised Moment
  toUtc : Moment → Except Raised Moment

variable (C : Datetimes)

/-- The documented behaviour of `datetime` that moving a moment rests on: no date is read from the
empty text, and a moment that was read and is moved to a day is written as the ten letters of
that day, a `T` and the time of day it had, which are read back. -/
structure Datetimes.Lawful : Prop where
  undated : C.dateFromisoformat [] = none
  written (m : C.Moment) : 'T' ∈ C.isoformat m
  onDay_onDay (m : C.Moment) (day : C.Day) : C.onDay (C.onDay m day) day = C.onDay m day
  read_onDay {text date : Text} {m : C.Moment} {day : C.Day} :
    C.fromisoformat text = some m → C.dateFromisoformat date = some day →
      C.fromisoformat (C.isoformat (C.onDay m day)) = some (C.onDay m day)
  read_plus {text date : Text} {m later : C.Moment} {day : C.Day} {span : C.Span} :
    C.fromisoformat text = some m → C.dateFromisoformat date = some day →
      C.plus (C.onDay m day) span = some later →
        C.fromisoformat (C.isoformat later) = some later
  read_date {text date : Text} {m : C.Moment} {day : C.Day} :
    C.fromisoformat text = some m → C.dateFromisoformat date = some day →
      C.dateFromisoformat ((C.isoformat (C.onDay m day)).take 10) = some day
  same_clock {text date : Text} {m : C.Moment} {day : C.Day} :
    C.fromisoformat text = some m → C.dateFromisoformat date = some day →
      (C.isoformat (C.onDay m day)).drop 11 = (C.isoformat m).drop 11 ∧
        (C.isoformat m).drop 11 ≠ []

def Datetimes.forward (span : C.Span) : C.Span :=
  if C.isNegative span then C.plusDay span else span

/-- The `try` block that `_materialize_flight_row` and `materialize_timestamps` share. -/
def Datetimes.moved (departure arrival travelDate : Text) (override : Option C.Moment) :
    Except Raised (Text × Text) :=
  match C.fromisoformat departure, C.fromisoformat arrival, C.dateFromisoformat travelDate with
  | some departs, some arrives, some day =>
    let materialized := override.getD (C.onDay departs day)
    match C.minus arrives departs with
    | none => .error .typeError
    | some duration =>
      match C.plus materialized (C.forward duration) with
      | none => .error .overflowError
      | some lands => .ok (C.isoformat materialized, C.isoformat lands)
  | _, _, _ => .error .valueError

/-- `text.replace("Z", "+00:00")`. -/
def offsetWritten (text : Text) : Text :=
  text.flatMap fun c => if c = 'Z' then "+00:00".toList else [c]

def parseTimestamp (T : TextOps) (value : Text) : Except Raised (Option C.Moment) :=
  let text := strip value
  if text = [] then .ok none
  else if T.isdigit text then
    match T.int text with
    | none => .ok none
    | some seconds =>
      match C.fromTimestamp seconds with
      | .ok moment => .ok (some moment)
      | .error .osError | .error .valueError => .ok none
      | .error e => .error e
  else
    match C.fromisoformat (offsetWritten text) with
    | none => .ok none
    | some parsed => (C.toUtc parsed).map some

def durationMinutes (T : TextOps) (departure arrival : Text) : Except Raised ℤ := do
  let departs ← parseTimestamp C T departure
  let arrives ← parseTimestamp C T arrival
  match departs, arrives with
  | some departs, some arrives =>
    match C.minus arrives departs with
    | none => .error .typeError
    | some delta => .ok (max 0 (C.minutes (C.forward delta)))
  | _, _ => .ok 0

end Datetimes

section Tables

/-- A row of `flights`; the row stands for its `id`. -/
structure FlightRow where
  flightNumber : Text
  origin : Text
  destination : Text
  departure : Text
  arrival : Text
  cabin : Text
  status : Text := "scheduled".toList
  delayMinutes : ℤ := 0
  deriving DecidableEq

/-- A row of `pnrs`, with the flight its `flight_id` names. -/
structure PnrRow where
  pnr : Text
  passenger : Text
  flight : FlightRow
  fareBasis : Text
  deriving DecidableEq

def SameSlot (f g : FlightRow) : Prop :=
  f.flightNumber = g.flightNumber ∧ f.departure = g.departure

instance (f g : FlightRow) : Decidable (SameSlot f g) := inferInstanceAs (Decidable (_ ∧ _))

/-- The tables a booking reads; the field is `UNIQUE(flight_number, departure)`. -/
structure Database where
  flights : List FlightRow
  pnrs : List PnrRow := []
  codes : List Text := []
  unique : flights.Pairwise fun f g => ¬SameSlot f g

def Database.insertOrIgnore (db : Database) (row : FlightRow) : Database :=
  if h : ∃ f ∈ db.flights, SameSlot f row then db
  else
    { db with
      flights := db.flights ++ [row]
      unique := by
        refine List.pairwise_append.mpr ⟨db.unique, List.pairwise_singleton _ _, ?_⟩
        intro f hf g hg
        rw [List.mem_singleton.mp hg]
        exact fun hsame => h ⟨f, hf, hsame⟩ }

def FlightRow.Flies (f : FlightRow) (origin destination : Text) : Prop :=
  f.origin = origin ∧ f.destination = destination

instance (f : FlightRow) (o d : Text) : Decidable (f.Flies o d) :=
  inferInstanceAs (Decidable (_ ∧ _))

/-- `ORDER BY departure ASC`; rows that tie differ in their flight number. -/
def byDeparture (rows : List FlightRow) : List FlightRow :=
  rows.insertionSort fun f g => f.departure ≤ g.departure

def Database.route (db : Database) (origin destination : Text) : List FlightRow :=
  byDeparture (db.flights.filter fun f => f.Flies origin destination)

def Database.flight (db : Database) (flightNumber origin destination : Text) : List FlightRow :=
  byDeparture (db.flights.filter fun f =>
    f.flightNumber = flightNumber ∧ f.Flies origin destination)

def Database.exact (db : Database) (flightNumber origin destination departure : Text) :
    Option FlightRow :=
  db.flights.find? fun f =>
    (f.flightNumber = flightNumber ∧ f.Flies origin destination) ∧ f.departure = departure

end Tables

section Search
variable (T : TextOps) (C : Datetimes)

def FlightRow.arrivalOr (row : FlightRow) : Text :=
  if row.arrival = [] then row.departure else row.arrival

/-- The row after the `try`, its texts rewritten where a timestamp does not parse. -/
def FlightRow.onDate (row : FlightRow) (travelDate : Text) (override : Option C.Moment) :
    Except Raised FlightRow :=
  match C.moved row.departure row.arrivalOr travelDate override with
  | .ok (departure, arrival) => .ok { row with departure := departure, arrival := arrival }
  | .error .valueError =>
    .ok
      { row with
        departure :=
          if 'T' ∈ row.departure then travelDate ++ row.departure.drop 10 else row.departure
        arrival :=
          if 'T' ∈ row.arrivalOr then travelDate ++ row.arrivalOr.drop 10 else row.arrival }
  | .error e => .error e

/-- The override is parsed before the `try`: its `ValueError` leaves the function. -/
def materializeFlightRow (row : FlightRow) (travelDate : Text)
    (departureOverride : Option Text := none) : Except Raised FlightRow :=
  match departureOverride with
  | none | some [] => row.onDate C travelDate none
  | some departure =>
    match C.fromisoformat departure with
    | none => .error .valueError
    | some moment => row.onDate C travelDate (some moment)

def FlightRow.dailyKey (row : FlightRow) : Text × Text × Text × Text :=
  (row.flightNumber, row.origin, row.destination, row.departure.drop 11)

/-- A turn of the loop over the rows, with `unique` and `seen`. -/
def keepDaily (kept : List FlightRow × List (Text × Text × Text × Text)) (row : FlightRow) :
    List FlightRow × List (Text × Text × Text × Text) :=
  if row.dailyKey ∈ kept.2 then kept else (kept.1 ++ [row], row.dailyKey :: kept.2)

def uniqueDailyFlightRows (rows : List FlightRow) : List FlightRow :=
  (rows.foldl keepDaily ([], [])).1

def listAlternatives (db : Database) (origin destination : Text) (travelDate : Option Text) :
    Except Raised (List FlightRow) :=
  let alternatives := db.route (T.upper (strip origin)) (T.upper (strip destination))
  match travelDate with
  | none | some [] => .ok alternatives
  | some date => (uniqueDailyFlightRows alternatives).mapM (materializeFlightRow C · date)

def materializeTimestamps (departure arrival travelDate : Text) : Except Raised (Text × Text) :=
  if departure = [] ∨ 'T' ∉ departure then .ok (departure, arrival)
  else
    match C.moved departure (if arrival = [] then departure else arrival) travelDate none with
    | .error .valueError =>
      .ok (travelDate ++ departure.drop 10,
        if 'T' ∈ arrival then travelDate ++ arrival.drop 10 else arrival)
    | moved => moved

/-- What `server_flight_to_option` tells besides what a booking conversation reads. -/
structure FlightOption extends Flight where
  arrivalTime : Text
  durationMinutes : ℤ
  cabin : Text
  deriving DecidableEq

def serverFlightToOption (row : FlightRow) (fallbackDate : Text) : Except Raised FlightOption := do
  let (departure, arrival) ← materializeTimestamps C row.departure row.arrival fallbackDate
  let minutes ← durationMinutes C T departure arrival
  let origin := T.upper row.origin
  let destination := T.upper row.destination
  return {
    flightId := T.upper row.flightNumber
    carrier := "Booking Server".toList
    originCity := airportDisplayName T origin
    destCity := airportDisplayName T destination
    originAirport := origin
    destAirport := destination
    date := if departure.take 10 = [] then fallbackDate else departure.take 10
    departureTime := departure
    arrivalTime := arrival
    durationMinutes := minutes
    cabin := row.cabin }

/-- The rows of the server, each as the option the backend makes of it. -/
def searchFlights (db : Database) (origin destination travelDate : Text) :
    Except Raised (List FlightOption) := do
  let rows ← listAlternatives T C db origin destination (some travelDate)
  rows.mapM (serverFlightToOption T C · travelDate)

end Search

section Booking
variable (T : TextOps) (C : Datetimes)

def selectTemplateForTime (rows : List FlightRow) (requestedTime : Text) : Option FlightRow :=
  (if requestedTime = [] then none
    else rows.find? fun row => row.departure.drop 11 = requestedTime).or rows.head?

/-- The values that `INSERT OR IGNORE` is given for a row moved to another date. -/
def FlightRow.scheduled (row : FlightRow) : FlightRow :=
  { row with status := if row.status = [] then "scheduled".toList else row.status }

/-- The end of `_find_or_create_flight_row`: the row inserted is looked up again. -/
def Database.adopt (db : Database) (flightNumber origin destination : Text)
    (materialized : FlightRow) : Option FlightRow × Database :=
  let inserted := db.insertOrIgnore materialized.scheduled
  (inserted.exact flightNumber origin destination materialized.departure, inserted)

def findOrCreateFlightRow (db : Database) (flightNumber origin destination : Text)
    (departure : Option Text) : Except Raised (Option FlightRow × Database) :=
  let rows := db.flight flightNumber origin destination
  match departure with
  | none | some [] => .ok (rows.head?, db)
  | some departure =>
    match db.exact flightNumber origin destination departure with
    | some row => .ok (some row, db)
    | none =>
      match selectTemplateForTime rows (departure.drop 11) with
      | none => .ok (none, db)
      | some template =>
        (materializeFlightRow C template (departure.take 10) (some departure)).map
          (db.adopt flightNumber origin destination)

def domesticAirports : List String :=
  ["JFK", "LGA", "EWR", "BOS", "ATL", "DFW", "DCA", "IAD", "BWI", "ORD", "MDW", "LAX", "SFO",
    "SJC", "SEA", "PDX", "DEN", "MIA", "FLL", "PHX", "LAS", "MSP", "IAH", "HOU", "CLT"]

def domesticRoute (origin destination : Text) : Bool :=
  decide (String.ofList (T.upper origin) ∈ domesticAirports) &&
    decide (String.ofList (T.upper destination) ∈ domesticAirports)

/-- Whole dollars, as `_CABIN_PRICE` has them. -/
def cabinPrice : List (String × ℕ) :=
  [("economy", 150), ("premium_economy", 275), ("business", 600), ("first", 1200)]

def priceFor (origin destination cabin : Text) : Text :=
  let base := (cabinPrice.lookup (String.ofList (T.lower cabin))).getD 150
  Nat.toDigits 10 (if domesticRoute T origin destination then base else 2 * base) ++ ".00".toList

/-- What `secrets` and `random` draw in one call, in the order drawn. -/
structure Draws where
  pnr : ℕ → Text
  code : ℕ → Text

structure BookingRequest where
  passenger : Text := "Guest".toList
  origin : Text
  destination : Text
  flightNumber : Text
  departure : Option Text
  fareBasis : Text := "nonrefundable".toList

structure Booking where
  pnr : Text
  confirmationCode : Text
  flightNumber : Text
  origin : Text
  destination : Text
  departure : Text
  cabin : Text
  fareBasis : Text
  price : Text
  currency : Text := "USD".toList
  deriving DecidableEq

def Draws.freePnr (draws : Draws) (db : Database) : Option Text :=
  ((List.range 8).map draws.pnr).find? fun pnr => pnr ∉ db.pnrs.map PnrRow.pnr

/-- `_issue_code`; none for the `RuntimeError` after the last try. -/
def Draws.freeCode (draws : Draws) (db : Database) : Option Text :=
  ((List.range 10).map draws.code).find? fun code => code ∉ db.codes

def effectiveCabin (row : FlightRow) : Text :=
  T.lower (if row.cabin = [] then "economy".toList else row.cabin)

def createBooking (db : Database) (draws : Draws) (request : BookingRequest) :
    Except Raised (Option Booking × Database) := do
  let (found, db) ← findOrCreateFlightRow C db (T.upper (strip request.flightNumber))
    (T.upper (strip request.origin)) (T.upper (strip request.destination)) request.departure
  match found, draws.freePnr db with
  | some row, some pnr =>
    let passenger := strip request.passenger
    let cabin := effectiveCabin T row
    match draws.freeCode db with
    | none => throw .runtimeError
    | some code =>
      return (some {
          pnr := pnr
          confirmationCode := code
          flightNumber := row.flightNumber
          origin := row.origin
          destination := row.destination
          departure := row.departure
          cabin := cabin
          fareBasis := request.fareBasis
          price := priceFor T row.origin row.destination cabin },
        { db with
          pnrs := db.pnrs ++ [{
            pnr := pnr
            passenger := if passenger = [] then "Guest".toList else passenger
            flight := row
            fareBasis := request.fareBasis }]
          codes := db.codes ++ [code] })
  | _, _ => return (none, db)

end Booking

end VoiceAgent.FlightSearch
