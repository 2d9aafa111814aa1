import VoiceAgent.IsoTimes

/-!
The two functions that move the timestamps of a flight to a travel date,
`materialize_timestamps` and `_materialize_flight_row`. On timestamps that are read they agree,
keep the times of day and the duration, and leave alone what they have moved once. What stops
them, both of them, is an arrival after the year 9999.
-/
namespace VoiceAgent.IsoTimes

open StreamingEvents (Text)
open FlightSearch

section Moved
variable {row : FlightRow} {departs arrives : Moment} {day : Date}
  {departure arrival travelDate : Text}

/-- The time a flight takes: an arrival before the departure is meant for the next day. -/
def duration (departs arrives : Moment) : ℤ :=
  if between arrives departs < 0 then between arrives departs + dayMicros
  else between arrives departs

/-- Where a flight lands that leaves on another day. -/
def landing (day : Date) (departs arrives : Moment) : Moment :=
  moved (day, departs.2) (duration departs arrives)

theorem forward_eq (departs arrives : Moment) :
    isoTimes.forward (between arrives departs) = duration departs arrives := by
  simp [Datetimes.forward, isoTimes, duration]

theorem duration_nonneg (h : -dayMicros ≤ between arrives departs) :
    0 ≤ duration departs arrives := by
  unfold duration
  split <;> omega

theorem duration_eq_self (h : 0 ≤ between arrives departs) :
    duration departs arrives = between arrives departs :=
  if_neg (by omega)

/-- Whole days apart, the duration is the difference of the times of day. -/
theorem duration_mod (departs arrives : Moment) :
    (departs.2 + duration departs arrives) % dayMicros = arrives.2 % dayMicros := by
  unfold duration between dayMicros
  split <;> omega

theorem onDay_inRange (hdeparture : InRange departs) (hday : day.Valid) :
    InRange (day, departs.2) :=
  ⟨hday, hdeparture.2⟩

theorem moved_eq (hdeparture : fromisoformat departure = some departs)
    (harrival : fromisoformat arrival = some arrives)
    (hday : dateFromisoformat travelDate = some day) :
    isoTimes.moved departure arrival travelDate none =
      (later (day, departs.2) (duration departs arrives)).elim (.error .overflowError)
        fun lands => .ok (isoformat (day, departs.2), isoformat lands) := by
  have hplus : isoTimes.plus (isoTimes.onDay departs day)
      (isoTimes.forward (between arrives departs)) =
        later (day, departs.2) (duration departs arrives) := by
    rw [forward_eq]
    rfl
  unfold Datetimes.moved
  simp only [show isoTimes.fromisoformat departure = some departs from hdeparture,
    show isoTimes.fromisoformat arrival = some arrives from harrival,
    show isoTimes.dateFromisoformat travelDate = some day from hday,
    show isoTimes.minus arrives departs = some (between arrives departs) from rfl,
    Option.getD_none, hplus]
  cases later (day, departs.2) (duration departs arrives) <;> rfl

/-- A text that is read as a moment has a `T`. -/
theorem mem_of_fromisoformat {text : Text} {m : Moment} (h : fromisoformat text = some m) :
    'T' ∈ text := by
  by_contra hT
  have hnone : text.dropWhile (· != 'T') = [] :=
    List.dropWhile_eq_nil_iff.mpr fun c hc => bne_iff_ne.mpr (ne_of_mem_of_not_mem hc hT)
  simp [fromisoformat, hnone] at h

theorem materializeTimestamps_eq (hdeparture : fromisoformat departure = some departs)
    (harrival : fromisoformat arrival = some arrives)
    (hday : dateFromisoformat travelDate = some day) :
    materializeTimestamps isoTimes departure arrival travelDate =
      isoTimes.moved departure arrival travelDate none := by
  have hT := mem_of_fromisoformat hdeparture
  have hne : arrival ≠ [] := List.ne_nil_of_mem (mem_of_fromisoformat harrival)
  have hread : ¬(departure = [] ∨ 'T' ∉ departure) := by
    rintro (hnil | hno)
    · exact List.ne_nil_of_mem hT hnil
    · exact hno hT
  rw [materializeTimestamps, if_neg hread, if_neg hne, moved_eq hdeparture harrival hday]
  cases later (day, departs.2) (duration departs arrives) <;> rfl

theorem materializeFlightRow_eq (hdeparture : fromisoformat row.departure = some departs)
    (harrival : fromisoformat row.arrival = some arrives)
    (hday : dateFromisoformat travelDate = some day) :
    materializeFlightRow isoTimes row travelDate =
      (isoTimes.moved row.departure row.arrival travelDate none).map
        fun (departure, arrival) => { row with departure := departure, arrival := arrival } := by
  have hne : row.arrival ≠ [] := List.ne_nil_of_mem (mem_of_fromisoformat harrival)
  have hor : row.arrivalOr = row.arrival := if_neg hne
  rw [materializeFlightRow, FlightRow.onDate, hor, moved_eq hdeparture harrival hday]
  cases later (day, departs.2) (duration departs arrives) <;> rfl

/-- What both functions make of a flight that lands before the year 10000. -/
theorem moved_lands (hdeparture : fromisoformat departure = some departs)
    (harrival : fromisoformat arrival = some arrives)
    (hday : dateFromisoformat travelDate = some day)
    (hspan : 0 ≤ duration departs arrives) (hyear : (landing day departs arrives).1.year ≤ 9999) :
    isoTimes.moved departure arrival travelDate none =
        .ok (isoformat (day, departs.2), isoformat (landing day departs arrives)) ∧
      fromisoformat (isoformat (day, departs.2)) = some (day, departs.2) ∧
      fromisoformat (isoformat (landing day departs arrives)) =
        some (landing day departs arrives) := by
  have hstart := onDay_inRange (fromisoformat_inRange hdeparture) (dateFromisoformat_valid hday)
  obtain ⟨hlater, hlands⟩ := later_eq_some hstart hspan hyear
  refine ⟨?_, fromisoformat_isoformat hstart, fromisoformat_isoformat hlands⟩
  rw [moved_eq hdeparture harrival hday, hlater]
  rfl

theorem landing_keeps (hdeparture : InRange departs) (harrival : InRange arrives)
    (hday : day.Valid) (hspan : 0 ≤ duration departs arrives) :
    (landing day departs arrives).2 = arrives.2 ∧
      between (landing day departs arrives) (day, departs.2) = duration departs arrives := by
  obtain ⟨-, -, -, hbetween⟩ := moved_forward (onDay_inRange hdeparture hday) hspan
  exact ⟨(duration_mod departs arrives).trans (Int.emod_eq_of_lt harrival.2.1 harrival.2.2),
    hbetween⟩

/-- A flight that has been moved takes the same time, so it lands there again. -/
theorem landing_again (hdeparture : InRange departs) (harrival : InRange arrives)
    (hday : day.Valid) (hspan : 0 ≤ duration departs arrives) :
    duration (day, departs.2) (landing day departs arrives) = duration departs arrives ∧
      landing day (day, departs.2) (landing day departs arrives) =
        landing day departs arrives := by
  obtain ⟨-, hbetween⟩ := landing_keeps hdeparture harrival hday hspan
  have hsame : duration (day, departs.2) (landing day departs arrives) =
      duration departs arrives := by
    rw [duration_eq_self (hbetween ▸ hspan), hbetween]
  exact ⟨hsame, by rw [landing, hsame]; rfl⟩

end Moved

section Agree
variable {row : FlightRow} {departs arrives : Moment} {day : Date} {travelDate : Text}

theorem rewriters_agree (hdeparture : fromisoformat row.departure = some departs)
    (harrival : fromisoformat row.arrival = some arrives)
    (hbefore : -dayMicros ≤ between arrives departs)
    (hday : dateFromisoformat travelDate = some day) :
    ((landing day departs arrives).1.year ≤ 9999 →
      ∃ departure arrival,
        materializeTimestamps isoTimes row.departure row.arrival travelDate =
            .ok (departure, arrival) ∧
          materializeFlightRow isoTimes row travelDate =
            .ok { row with departure := departure, arrival := arrival } ∧
          fromisoformat departure = some (day, departs.2) ∧
          fromisoformat arrival = some (landing day departs arrives) ∧
          (landing day departs arrives).2 = arrives.2 ∧
          between (landing day departs arrives) (day, departs.2) = duration departs arrives ∧
          materializeTimestamps isoTimes departure arrival travelDate = .ok (departure, arrival) ∧
          materializeFlightRow isoTimes { row with departure := departure, arrival := arrival }
            travelDate = .ok { row with departure := departure, arrival := arrival }) ∧
      (9999 < (landing day departs arrives).1.year →
        materializeTimestamps isoTimes row.departure row.arrival travelDate =
            .error .overflowError ∧
          materializeFlightRow isoTimes row travelDate = .error .overflowError) := by
  have hspan := duration_nonneg hbefore
  have hvalid := dateFromisoformat_valid hday
  have hleaves := fromisoformat_inRange hdeparture
  have harrives := fromisoformat_inRange harrival
  constructor
  · intro hyear
    obtain ⟨hmoved, hnewDeparture, hnewArrival⟩ :=
      moved_lands hdeparture harrival hday hspan hyear
    obtain ⟨htime, hbetween⟩ := landing_keeps hleaves harrives hvalid hspan
    obtain ⟨hsame, hagain⟩ := landing_again hleaves harrives hvalid hspan
    have hstays : isoTimes.moved (isoformat (day, departs.2))
        (isoformat (landing day departs arrives)) travelDate none =
          .ok (isoformat (day, departs.2), isoformat (landing day departs arrives)) := by
      obtain ⟨hmoved', -, -⟩ := moved_lands hnewDeparture hnewArrival hday (hsame ▸ hspan)
        (by rw [hagain]; exact hyear)
      rw [hmoved', hagain]
    refine ⟨_, _, ?_, ?_, hnewDeparture, hnewArrival, htime, hbetween, ?_, ?_⟩
    · rw [materializeTimestamps_eq hdeparture harrival hday, hmoved]
    · rw [materializeFlightRow_eq hdeparture harrival hday, hmoved]
      rfl
    · rw [materializeTimestamps_eq hnewDeparture hnewArrival hday, hstays]
    · rw [materializeFlightRow_eq hnewDeparture hnewArrival hday, hstays]
      rfl
  · intro hyear
    have hmoved : isoTimes.moved row.departure row.arrival travelDate none =
        .error .overflowError := by
      rw [moved_eq hdeparture harrival hday, later_eq_none hyear]
      rfl
    rw [materializeTimestamps_eq hdeparture harrival hday,
      materializeFlightRow_eq hdeparture harrival hday, hmoved]
    exact ⟨rfl, rfl⟩

/-- A night flight of the booking server. -/
def nightFlight : FlightRow where
  flightNumber := "UA200".toList
  origin := "SFO".toList
  destination := "JFK".toList
  departure := "2026-03-01T22:15:00".toList
  arrival := "2026-03-02T06:40:00".toList
  cabin := "economy".toList

theorem nightFlight_moved :
    ∃ departure arrival,
      materializeTimestamps isoTimes nightFlight.departure nightFlight.arrival
          "2028-02-28".toList = .ok (departure, arrival) ∧
        materializeFlightRow isoTimes nightFlight "2028-02-28".toList =
          .ok { nightFlight with departure := departure, arrival := arrival } := by
  have hagree := @rewriters_agree nightFlight (⟨2026, 3, 1⟩, 80100000000)
    (⟨2026, 3, 2⟩, 24000000000) ⟨2028, 2, 28⟩ "2028-02-28".toList rfl rfl (by decide +kernel) rfl
  obtain ⟨departure, arrival, hbackend, hserver, -⟩ := hagree.1 (by decide +kernel)
  exact ⟨departure, arrival, hbackend, hserver⟩

/-- On the last day of the year 9999 a night flight is an `OverflowError`, which the functions
do not catch. -/
theorem nightFlight_overflows :
    fromisoformat nightFlight.departure = some (⟨2026, 3, 1⟩, 80100000000) ∧
      fromisoformat nightFlight.arrival = some (⟨2026, 3, 2⟩, 24000000000) ∧
      dateFromisoformat "9999-12-31".toList = some ⟨9999, 12, 31⟩ ∧
      materializeTimestamps isoTimes nightFlight.departure nightFlight.arrival
        "9999-12-31".toList = .error .overflowError ∧
      materializeFlightRow isoTimes nightFlight "9999-12-31".toList = .error .overflowError :=
  ⟨rfl, rfl, rfl, rfl, rfl⟩

end Agree

end VoiceAgent.IsoTimes
