import VoiceAgent.StreamingEvents

/-!
The booking conversation of the Thinker: `flight_search`, `BookingTool.continue_booking`
and `cancel_pending_booking` over one session state, each with the reply of the backend.
What Python's strings do beyond white space is a parameter.
-/
namespace VoiceAgent.BookingFlow

open StreamingEvents

/-- `str` methods, `int` (none for a `ValueError`) and the clock time of `spoken_time`. -/
structure TextOps where
  lower : Text → Text
  upper : Text → Text
  isalpha : Text → Bool
  isdigit : Text → Bool
  int : Text → Option ℤ
  spokenTime : Text → Text

section Slots

/-- A slot value other than `None`; `other` is a value of another type, as `str` writes it. -/
inductive Value
  | bool (b : Bool)
  | text (t : Text)
  | other (t : Text)
  deriving DecidableEq

abbrev Slots := String → Option Value

def nonempty (t : Text) : Option Text := if t = [] then none else some t

def slot (slots : Slots) (key : String) : Option Text :=
  match slots key with
  | none => none
  | some (.bool true) => some "true".toList
  | some (.bool false) => some "false".toList
  | some (.text t) | some (.other t) => nonempty (strip t)

def boolSlot (T : TextOps) (slots : Slots) (key : String) : Option Bool :=
  match slots key with
  | none => none
  | some (.bool b) => some b
  | some (.text t) | some (.other t) =>
    let text := String.ofList (T.lower (strip t))
    if text ∈ ["true", "yes", "confirm", "confirmed"] then some true
    else if text ∈ ["false", "no", "cancel", "cancelled"] then some false
    else none

def hasBookingPreferences (slots : Slots) : Bool :=
  (slot slots "seat_pref").isSome || (slot slots "meal_pref").isSome

end Slots

section Airports

def airportDisplayNames : List (String × String) :=
  [("JFK", "New York"), ("LGA", "New York LaGuardia"), ("EWR", "Newark"), ("SEA", "Seattle"),
    ("SFO", "San Francisco"), ("LAX", "Los Angeles"), ("SLC", "Salt Lake City"),
    ("BOS", "Boston"), ("ORD", "Chicago"), ("DFW", "Dallas"), ("DEN", "Denver"),
    ("MIA", "Miami"), ("PHX", "Phoenix"), ("LAS", "Las Vegas")]

def airportCityAliases : List (String × String) :=
  [("boston", "BOS"), ("chicago", "ORD"), ("dallas", "DFW"), ("dallas fort worth", "DFW"),
    ("denver", "DEN"), ("las vegas", "LAS"), ("los angeles", "LAX"), ("la", "LAX"),
    ("miami", "MIA"), ("new york", "JFK"), ("new york city", "JFK"), ("nyc", "JFK"),
    ("newark", "EWR"), ("phoenix", "PHX"), ("salt lake city", "SLC"),
    ("san francisco", "SFO"), ("seattle", "SEA")]

def iataCode (T : TextOps) (value : Text) : Option Text :=
  let normalized := strip value
  let code := T.upper normalized
  if code.length = 3 ∧ T.isalpha code then some code
  else (airportCityAliases.lookup (String.ofList (T.lower normalized))).map String.toList

def airportDisplayName (T : TextOps) (code : Text) : Text :=
  let normalized := T.upper (strip code)
  ((airportDisplayNames.lookup (String.ofList normalized)).map String.toList).getD normalized

def slotAirport (T : TextOps) (slots : Slots) (key : String) : Option Text :=
  (slot slots key).bind (iataCode T)

def extractRoute (T : TextOps) (slots : Slots) : Option Text × Option Text :=
  ((slotAirport T slots "origin_city").or (slotAirport T slots "origin_airport"),
    (slotAirport T slots "dest_city").or (slotAirport T slots "dest_airport"))

end Airports

section State

/-- A flight option as `server_flight_to_option` makes it; the price as it is written. -/
structure Flight where
  flightId : Text
  carrier : Text
  originCity : Text
  destCity : Text
  originAirport : Text
  destAirport : Text
  date : Text
  departureTime : Text
  priceUsd : Option Text := none
  deriving DecidableEq

structure BookingDraft where
  flight : Flight
  seatPref : Option Text := none
  mealPref : Option Text := none
  passengerName : Option Text := none
  deriving DecidableEq

structure SearchContext where
  originCity : Text
  destCity : Text
  originAirport : Text
  destAirport : Text
  date : Text
  sorting : Text
  deriving DecidableEq

/-- The booking part of `ThinkerSessionState`; an empty search context is `none`. -/
structure Session where
  searchContext : Option SearchContext := none
  searchResults : List Flight := []
  bookingDraft : Option BookingDraft := none
  waitingForPreferences : Bool := false
  waitingForConfirmation : Bool := false
  deriving DecidableEq

namespace Session

def resetBooking (s : Session) : Session :=
  { s with
    bookingDraft := none
    waitingForPreferences := false
    waitingForConfirmation := false }

def resetSearchAndBooking (s : Session) : Session :=
  { s with searchContext := none, searchResults := [] }.resetBooking

end Session

/-- What `_merge_preferences` does to a draft. -/
def BookingDraft.merge (draft : BookingDraft) (slots : Slots) : BookingDraft :=
  { draft with
    seatPref := (slot slots "seat_pref").or draft.seatPref
    mealPref := (slot slots "meal_pref").or draft.mealPref
    passengerName := (slot slots "passenger_name").or draft.passengerName }

def Session.mergePreferences (s : Session) (slots : Slots) : Session :=
  { s with bookingDraft := s.bookingDraft.map (·.merge slots) }

def flightIdentity (flight : Flight) : Text × Text × Text × Text :=
  (flight.flightId, flight.originAirport, flight.destAirport, flight.departureTime)

def ordinals : List (String × ℕ) :=
  [("first", 1), ("second", 2), ("third", 3), ("fourth", 4), ("fifth", 5)]

/-- `extract_selected_flight`; none for the `ValueError` of `int`. -/
def extractSelectedFlight (T : TextOps) (selection : Option Text) (results : List Flight) :
    Option (Option Flight) :=
  match selection with
  | none => some none
  | some selection =>
    let lowered := T.lower selection
    let byId := results.find? fun flight => T.lower flight.flightId = lowered
    match (ordinals.lookup (String.ofList lowered)).bind fun k => results[k - 1]? with
    | some flight => some (some flight)
    | none =>
      if T.isdigit lowered then
        (T.int lowered).map fun index =>
          if 1 ≤ index then (results[(index - 1).toNat]?).or byId else byId
      else some byId

end State

section Payloads

def internalBackendCarrier : Text := "Booking Server".toList

def userFacingFlightPrefix : Text := "G Force Airline's".toList

def userFacingCarrier (carrier : Text) : Text :=
  let carrier := strip carrier
  if carrier = [] ∨ carrier = internalBackendCarrier then userFacingFlightPrefix else carrier

def userFacingFlight (flight : Flight) : Flight :=
  { flight with carrier := userFacingCarrier flight.carrier }

def flightLabel (flight : Flight) : Text :=
  userFacingCarrier flight.carrier ++ ' ' :: flight.flightId

def priceText (pre : String) (price : Option Text) : Text :=
  match price with
  | none => []
  | some price => pre.toList ++ price

def formatFlightOption (T : TextOps) (flight : Flight) : Text :=
  flightLabel flight ++ " at ".toList ++ T.spokenTime flight.departureTime ++
    priceText " for $" flight.priceUsd

structure Summary where
  route : Text
  date : Text
  flightId : Text
  carrier : Text
  seatPref : Option Text
  mealPref : Option Text
  priceUsd : Option Text
  passengerName : Option Text
  deriving DecidableEq

structure Record where
  pnr : Text
  carrier : Text
  deriving DecidableEq

/-- `response_hint` and `tool_result` payloads; `reason` and `action` are for the first,
`tool` and `status` for the second. -/
structure Payload where
  type : String
  reason : String := ""
  action : String := ""
  tool : String := ""
  status : String := ""
  responseText : Text
  context : String
  paramsNeeded : List String := []
  paramsResolved : List (String × Text) := []
  defaultsAvailable : Bool := false
  error : Option Text := none
  summary : Option Summary := none
  flights : List Flight := []
  searchContext : Option SearchContext := none
  booking : Option Record := none
  deriving DecidableEq

def hint (reason action text : String) (context : String := "booking")
    (paramsNeeded : List String := []) : Payload :=
  { type := "response_hint", reason := reason, action := action, responseText := text.toList,
    context := context, paramsNeeded := paramsNeeded }

def preferencesHint : Payload :=
  { hint "params_optional" "req_params"
      "Do you have a seat or meal preference? Otherwise I will use the defaults."
      "booking" ["seat_pref", "meal_pref"] with
    defaultsAvailable := true }

def summaryPassengerName (T : TextOps) (value : Option Text) : Option Text :=
  let passenger := strip (value.getD [])
  if passenger = [] ∨ T.lower passenger = "guest".toList then none else some passenger

/-- `_confirmation_hint`: the summary of a draft. -/
def confirmationHint (T : TextOps) (draft : BookingDraft) : Payload :=
  let flight := draft.flight
  let passengerName := summaryPassengerName T draft.passengerName
  let seat := draft.seatPref.getD "default seat".toList
  let meal := draft.mealPref.getD "default meal".toList
  { type := "response_hint"
    reason := "confirm_required"
    action := "confirm_booking"
    context := "booking"
    summary := some
      { route := flight.originCity ++ " to ".toList ++ flight.destCity
        date := flight.date
        flightId := flight.flightId
        carrier := userFacingCarrier flight.carrier
        seatPref := draft.seatPref
        mealPref := draft.mealPref
        priceUsd := flight.priceUsd
        passengerName := passengerName }
    responseText := "Here is the booking summary".toList ++
      (match passengerName with
        | none => []
        | some name => " for ".toList ++ name) ++
      ": ".toList ++ flightLabel flight ++ " from ".toList ++ flight.originCity ++
      " to ".toList ++ flight.destCity ++ " on ".toList ++ flight.date ++ ", ".toList ++
      seat ++ ", ".toList ++ meal ++ priceText ", for $" flight.priceUsd ++
      ". Shall I confirm?".toList }

end Payloads

section Steps

/-- What becomes of `backend.create_booking`. -/
inductive CreateReply
  | record (r : Record)
  | missing
  | failed (error : Text)
  | cancelled
  deriving DecidableEq

/-- What becomes of `backend.search_flights`. -/
inductive SearchReply
  | flights (fs : List Flight)
  | failed
  | cancelled
  deriving DecidableEq

inductive Result
  | payload (p : Payload)
  | raised
  | cancelled
  deriving DecidableEq

/-- One call: the state it leaves, its result, the draft that `create_booking` was called
with, and the draft that the summary in the result was built from. -/
structure Turn where
  state : Session
  result : Result
  created : Option BookingDraft := none
  shown : Option BookingDraft := none
  deriving DecidableEq

def Session.replies (s : Session) (p : Payload) : Turn := { state := s, result := .payload p }

/-- A summary of the draft is returned. -/
def Session.shows (T : TextOps) (s : Session) (draft : BookingDraft) : Turn :=
  { state :=
      { s with
        bookingDraft := some draft
        waitingForPreferences := false
        waitingForConfirmation := true }
    result := .payload (confirmationHint T draft)
    shown := some draft }

/-- `_finalize_booking` for a draft. -/
def Session.books (s : Session) (draft : BookingDraft) : CreateReply → Turn
  | .cancelled => { state := s.resetBooking, result := .cancelled, created := some draft }
  | .failed error =>
    { state := s
      result := .payload { hint "tool_error" "retry"
        "I could not complete that booking right now. Please try again." with
          error := some error }
      created := some draft }
  | .missing =>
    { state := s
      result := .payload { hint "tool_error" "req_params"
        "I could not complete that booking. Please choose another flight."
        "booking" ["flight_selected"] with
          error := some "Booking backend could not create the PNR.".toList }
      created := some draft }
  | .record r =>
    { state := s.resetBooking
      result := .payload
        { type := "tool_result", tool := "booking", status := "success", context := "booking"
          booking := some { r with carrier := userFacingCarrier r.carrier }
          responseText := "Your booking is confirmed. Your PNR is ".toList ++ r.pnr ++ ['.'] }
      created := some draft }

def finalizeBooking (s : Session) (reply : CreateReply) : Turn :=
  match s.bookingDraft with
  | none => s.replies (hint "params_missing" "req_params" "Which flight should I book?"
      "booking" ["flight_selected"])
  | some draft => s.books draft reply

/-- The part of `continue_booking` for a session that waits for a confirmation. -/
def confirm (T : TextOps) (s : Session) (slots : Slots) (reply : CreateReply) : Turn :=
  let s := s.mergePreferences slots
  match boolSlot T slots "confirmed" with
  | some true => finalizeBooking s reply
  | some false =>
    s.resetBooking.replies
      (hint "booking_cancelled" "cancelled" "No problem, I have not booked it.")
  | none => s.replies (hint "confirm_required" "confirm_booking" "Should I confirm this booking?")

/-- The end of `continue_booking`, for a draft into which the slots are merged. -/
def choosePreferences (T : TextOps) (s : Session) (slots : Slots) (draft : BookingDraft) : Turn :=
  if boolSlot T slots "use_defaults" = some true ∨ hasBookingPreferences slots then
    s.shows T (draft.merge slots)
  else
    { s with
      bookingDraft := some (draft.merge slots)
      waitingForPreferences := true }.replies preferencesHint

/-- The part of `continue_booking` for a session that does not wait for a confirmation. -/
def choose (T : TextOps) (s : Session) (slots : Slots) (selected : Option Flight) : Turn :=
  match s.bookingDraft, selected with
  | some draft, _ => choosePreferences T s slots draft
  | none, some flight => choosePreferences T s slots
      { flight := flight, passengerName := slot slots "passenger_name" }
  | none, none => s.replies (hint "params_missing" "req_params"
      "Which flight from the search results would you like to book?"
      "booking" ["flight_selected"])

/-- Another flight is selected for the draft. -/
def changeFlight (T : TextOps) (s : Session) (slots : Slots) (flight : Flight)
    (draft : BookingDraft) : Turn :=
  let draft := { draft with flight := flight }.merge slots
  if s.waitingForPreferences ∧ boolSlot T slots "use_defaults" ≠ some true ∧
      ¬ hasBookingPreferences slots then
    { s with bookingDraft := some draft, waitingForConfirmation := false }.replies preferencesHint
  else s.shows T draft

def proceed (T : TextOps) (s : Session) (slots : Slots) (selected : Option Flight)
    (reply : CreateReply) : Turn :=
  if s.waitingForConfirmation then confirm T s slots reply else choose T s slots selected

def advance (T : TextOps) (s : Session) (slots : Slots) (selected : Option Flight)
    (reply : CreateReply) : Turn :=
  match selected, s.bookingDraft with
  | some flight, some draft =>
    if flightIdentity flight ≠ flightIdentity draft.flight then changeFlight T s slots flight draft
    else proceed T s slots selected reply
  | _, _ => proceed T s slots selected reply

/-- A selection that no search result matches. -/
def unmatched (s : Session) : Turn :=
  let s := if s.bookingDraft.isSome then s.resetBooking else s
  s.replies (hint "params_missing" "req_params"
    ("I could not match that flight selection. " ++
      "Which flight from the search results would you like to book?")
    "booking" ["flight_selected"])

def continueBooking (T : TextOps) (s : Session) (slots : Slots) (reply : CreateReply) : Turn :=
  if s.searchResults = [] then
    s.replies (hint "missing_search_context" "req_flight_search"
      "I need to search flights before booking. Where are you flying from, where to, and when?"
      "booking" ["origin_city", "dest_city", "date"])
  else
    let selection := slot slots "flight_selected"
    match extractSelectedFlight T selection s.searchResults with
    | none => { state := s, result := .raised }
    | some selected =>
      if selection.isSome ∧ selected = none then unmatched s else advance T s slots selected reply

/-- A search with all its parameters. -/
def searchFor (T : TextOps) (s : Session) (origin destination date : Text)
    (sorting : Option Text) (reply : SearchReply) : Turn :=
  let resolved := [("origin_city", airportDisplayName T origin),
    ("dest_city", airportDisplayName T destination), ("date", date)]
  match reply with
  | .flights (f :: fs) =>
    let context : SearchContext :=
      { originCity := airportDisplayName T origin
        destCity := airportDisplayName T destination
        originAirport := origin
        destAirport := destination
        date := date
        sorting := sorting.getD "price".toList }
    let options := List.intercalate ", ".toList (((f :: fs).take 5).map (formatFlightOption T))
    { s with searchContext := some context, searchResults := f :: fs }.resetBooking.replies
      { type := "tool_result", tool := "flight_search", status := "success"
        context := "flight_search"
        flights := (f :: fs).map userFacingFlight
        searchContext := some context
        responseText := "I found ".toList ++ (toString (f :: fs).length).toList ++
          " flights: ".toList ++ options ++ ". Which flight would you like to book?".toList }
  | .cancelled => { state := s, result := .cancelled }
  | _ => s.resetSearchAndBooking.replies
      { hint "tool_error" "req_params"
          "I could not find flights for that route. Would you like to try different cities?"
          "flight_search" ["origin_city", "dest_city", "date"] with
        paramsResolved := resolved
        error := some "No flights found for the requested route.".toList }

def flightSearch (T : TextOps) (s : Session) (slots : Slots) (reply : SearchReply) : Turn :=
  let (origin, destination) := extractRoute T slots
  let date := slot slots "date"
  match origin, destination, date with
  | some origin, some destination, some date =>
    searchFor T s origin destination date (slot slots "sorting") reply
  | _, _, _ =>
    let params := [("origin_city", origin.map (airportDisplayName T)),
      ("dest_city", destination.map (airportDisplayName T)), ("date", date)]
    s.replies
      { hint "params_missing" "req_params" "Where are you flying from, where to, and when?"
          "flight_search" ((params.filter (·.2.isNone)).map Prod.fst) with
        paramsResolved := params.filterMap fun p => p.2.map fun value => (p.1, value) }

/-- `cancel_pending_booking`, and whether there was anything to clear. -/
def cancelPendingBooking (s : Session) : Session × Bool :=
  if s.searchContext.isSome ∨ s.searchResults ≠ [] ∨ s.bookingDraft.isSome ∨
      s.waitingForPreferences ∨ s.waitingForConfirmation then
    (s.resetSearchAndBooking, true)
  else (s, false)

end Steps

section Runs

inductive Op
  | search (slots : Slots) (reply : SearchReply)
  | book (slots : Slots) (reply : CreateReply)

def step (T : TextOps) (s : Session) : Op → Turn
  | .search slots reply => flightSearch T s slots reply
  | .book slots reply => continueBooking T s slots reply

/-- The draft that the latest summary was built from, and the slots of the booking calls
that have returned since. -/
structure Shown where
  draft : BookingDraft
  since : List Slots := []

def Shown.next (latest : Option Shown) (op : Op) (turn : Turn) : Option Shown :=
  match turn.shown, op, turn.result with
  | some draft, _, _ => some { draft := draft }
  | none, .book slots _, .payload _ =>
    latest.map fun p => { draft := p.draft, since := p.since ++ [slots] }
  | none, _, _ => latest

/-- The session and its latest summary after some calls. -/
def after (T : TextOps) (ops : List Op) : Session × Option Shown :=
  ops.foldl (fun c op => ((step T c.1 op).state, Shown.next c.2 op (step T c.1 op)))
    (({} : Session), none)

end Runs

end VoiceAgent.BookingFlow
