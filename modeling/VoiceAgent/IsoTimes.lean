import Mathlib.Algebra.Ring.Nat
import VoiceAgent.FlightSearch

/-!
Timestamps without a time zone, as `datetime` reads, writes and adds them: dates by the calendar or
by the week, with dashes or without, and times of the day to the microsecond. What is written is
read back, and a moment is moved by exactly the time that is added.
-/
namespace VoiceAgent.IsoTimes

open StreamingEvents (Text)
open FlightSearch

section Calendar

/-- A date of the Gregorian calendar. -/
structure Date where
  year : ℕ
  month : ℕ
  day : ℕ

def daysInMonth (year month : ℕ) : ℕ :=
  if month = 2 then
    if year % 4 = 0 ∧ (year % 100 ≠ 0 ∨ year % 400 = 0) then 29 else 28
  else if month ∈ [4, 6, 9, 11] then 30 else 31

def Date.Valid (d : Date) : Prop :=
  (1 ≤ d.year ∧ d.year ≤ 9999) ∧ (1 ≤ d.month ∧ d.month ≤ 12) ∧
    1 ≤ d.day ∧ d.day ≤ daysInMonth d.year d.month

instance (d : Date) : Decidable d.Valid := inferInstanceAs (Decidable (_ ∧ _))

def daysBeforeMonth (year : ℕ) : ℕ → ℕ
  | 0 | 1 => 0
  | month + 2 => daysBeforeMonth year (month + 1) + daysInMonth year (month + 1)

def Date.ordinal (d : Date) : ℤ :=
  365 * (d.year - 1) + (d.year - 1) / 4 - (d.year - 1) / 100 + (d.year - 1) / 400 +
    daysBeforeMonth d.year d.month + d.day

def Date.next (d : Date) : Date :=
  if d.day < daysInMonth d.year d.month then { d with day := d.day + 1 }
  else if d.month < 12 then ⟨d.year, d.month + 1, 1⟩
  else ⟨d.year + 1, 1, 1⟩

def Date.previous (d : Date) : Date :=
  if 1 < d.day then { d with day := d.day - 1 }
  else if 1 < d.month then ⟨d.year, d.month - 1, daysInMonth d.year (d.month - 1)⟩
  else ⟨d.year - 1, 12, 31⟩

def Date.shift (d : Date) : ℤ → Date
  | .ofNat days => Date.next^[days] d
  | .negSucc days => Date.previous^[days + 1] d

def readNumber (text : Text) : Option ℕ :=
  if text.all Char.isDigit then some (Nat.ofDigitChars 10 text 0) else none

def writeNumber (width n : ℕ) : Text := (Nat.toDigits 10 n).leftpad width '0'

end Calendar

section Dates

/-- A date of the calendar, in whatever year. -/
def OnCalendar (d : Date) : Prop :=
  1 ≤ d.year ∧ (1 ≤ d.month ∧ d.month ≤ 12) ∧ 1 ≤ d.day ∧ d.day ≤ daysInMonth d.year d.month

variable {d : Date}

theorem valid_iff : d.Valid ↔ OnCalendar d ∧ d.year ≤ 9999 := by
  unfold Date.Valid OnCalendar
  tauto

theorem daysInMonth_pos (year month : ℕ) : 1 ≤ daysInMonth year month := by
  unfold daysInMonth
  split_ifs <;> omega

theorem OnCalendar.next (h : OnCalendar d) : OnCalendar d.next := by
  obtain ⟨hyear, ⟨hmonth, hmonth'⟩, hday, hday'⟩ := h
  unfold Date.next
  split
  · exact ⟨hyear, ⟨hmonth, hmonth'⟩, by simp, by simp only; omega⟩
  · split
    · exact ⟨hyear, ⟨by simp, by simp only; omega⟩, Nat.le_refl 1, daysInMonth_pos _ _⟩
    · exact ⟨by simp, ⟨Nat.le_refl 1, by simp⟩, Nat.le_refl 1, daysInMonth_pos _ _⟩

/-- The days before December. -/
theorem daysBeforeMonth_december (year : ℕ) :
    daysBeforeMonth year 12 = 306 + daysInMonth year 2 := by
  simp [daysBeforeMonth, daysInMonth]
  omega

theorem february (year : ℕ) :
    (year % 4 = 0 ∧ (year % 100 ≠ 0 ∨ year % 400 = 0)) ∧ daysInMonth year 2 = 29 ∨
      ¬(year % 4 = 0 ∧ (year % 100 ≠ 0 ∨ year % 400 = 0)) ∧ daysInMonth year 2 = 28 := by
  by_cases h : year % 4 = 0 ∧ (year % 100 ≠ 0 ∨ year % 400 = 0)
  · exact .inl ⟨h, by simp [daysInMonth, h]⟩
  · exact .inr ⟨h, by simp [daysInMonth, h]⟩

theorem ordinal_next (h : OnCalendar d) : d.next.ordinal = d.ordinal + 1 := by
  obtain ⟨hyear, ⟨hmonth, hmonth'⟩, hday, hday'⟩ := h
  unfold Date.next
  split
  · simp only [Date.ordinal]
    push_cast
    omega
  · have hlast : d.day = daysInMonth d.year d.month := by omega
    split
    · obtain ⟨m, hm⟩ := Nat.exists_eq_add_of_le' hmonth
      have hbefore : daysBeforeMonth d.year (d.month + 1) =
          daysBeforeMonth d.year d.month + daysInMonth d.year d.month := by
        rw [hm, daysBeforeMonth]
      simp only [Date.ordinal, hbefore, hlast]
      push_cast
      omega
    · have hdecember : d.month = 12 := by omega
      have hdays : daysInMonth d.year 12 = 31 := by simp [daysInMonth]
      have hbefore := daysBeforeMonth_december d.year
      have hfirst : daysBeforeMonth (d.year + 1) 1 = 0 := by simp [daysBeforeMonth]
      have hleap := february d.year
      rw [hdecember, hdays] at hlast
      simp only [Date.ordinal, hdecember, hbefore, hlast, hfirst]
      omega

theorem iterate_next (h : OnCalendar d) (days : ℕ) : OnCalendar (Date.next^[days] d) ∧
    (Date.next^[days] d).ordinal = d.ordinal + days := by
  induction days with
  | zero => exact ⟨h, by simp⟩
  | succ days ih =>
    rw [Function.iterate_succ_apply']
    refine ⟨ih.1.next, ?_⟩
    rw [ordinal_next ih.1, ih.2]
    push_cast
    omega

/-- A date that is moved forward is that many days later. -/
theorem shift_forward (h : OnCalendar d) {days : ℤ} (hdays : 0 ≤ days) :
    OnCalendar (d.shift days) ∧ (d.shift days).ordinal = d.ordinal + days := by
  obtain ⟨n, rfl⟩ := Int.eq_ofNat_of_zero_le hdays
  exact iterate_next h n

end Dates

section Moments

def dayMicros : ℤ := 86400000000

/-- Microseconds past the start of a date. -/
abbrev Moment := Date × ℤ

def InRange (m : Moment) : Prop := m.1.Valid ∧ 0 ≤ m.2 ∧ m.2 < dayMicros

instance (m : Moment) : Decidable (InRange m) := inferInstanceAs (Decidable (_ ∧ _))

/-- The time from `b` to `a`. -/
def between (a b : Moment) : ℤ := dayMicros * (a.1.ordinal - b.1.ordinal) + (a.2 - b.2)

/-- The moment after a time, whatever year it falls in. -/
def moved (m : Moment) (span : ℤ) : Moment :=
  (m.1.shift ((m.2 + span) / dayMicros), (m.2 + span) % dayMicros)

/-- A sum that leaves the years of `datetime` is an `OverflowError`. -/
def later (m : Moment) (span : ℤ) : Option Moment :=
  if (moved m span).1.Valid then some (moved m span) else none

variable {m : Moment} {span : ℤ}

theorem moved_forward (h : InRange m) (hspan : 0 ≤ span) :
    OnCalendar (moved m span).1 ∧ 0 ≤ (moved m span).2 ∧ (moved m span).2 < dayMicros ∧
      between (moved m span) m = span := by
  obtain ⟨hdate, hfirst, -⟩ := h
  have hday : (0 : ℤ) < dayMicros := by decide
  have hdays : 0 ≤ (m.2 + span) / dayMicros := Int.ediv_nonneg (by omega) hday.le
  obtain ⟨hcalendar, hordinal⟩ := shift_forward (valid_iff.mp hdate).1 hdays
  refine ⟨hcalendar, Int.emod_nonneg _ hday.ne', Int.emod_lt_of_pos _ hday, ?_⟩
  have hparts := Int.mul_ediv_add_emod (m.2 + span) dayMicros
  have hmoved : m.1.ordinal + (m.2 + span) / dayMicros - m.1.ordinal =
      (m.2 + span) / dayMicros := by omega
  simp only [between, moved, hordinal, hmoved]
  omega

theorem later_eq_some (h : InRange m) (hspan : 0 ≤ span) (hyear : (moved m span).1.year ≤ 9999) :
    later m span = some (moved m span) ∧ InRange (moved m span) := by
  obtain ⟨hcalendar, hfirst, hlast, -⟩ := moved_forward h hspan
  have hvalid := valid_iff.mpr ⟨hcalendar, hyear⟩
  exact ⟨if_pos hvalid, hvalid, hfirst, hlast⟩

theorem later_eq_none (hyear : 9999 < (moved m span).1.year) : later m span = none :=
  if_neg fun hvalid => Nat.not_lt.mpr (valid_iff.mp hvalid).2 hyear

end Moments

section Texts

def isLeap (year : ℕ) : Prop := daysInMonth year 2 = 29

instance (year : ℕ) : Decidable (isLeap year) := inferInstanceAs (Decidable (_ = _))

/-- `_isoweek_to_gregorian`: the first week of a year is the one with its first Thursday. -/
def isoweekToGregorian (year week day : ℕ) : Option Date :=
  let first : Date := ⟨year, 1, 1⟩
  let weekday := (first.ordinal + 6) % 7
  let long := weekday = 3 ∨ (weekday = 2 ∧ isLeap year)
  let monday := (if 3 < weekday then 7 else 0) - weekday
  if (1 ≤ year ∧ year ≤ 9999) ∧ (0 < week ∧ (week < 53 ∨ (week = 53 ∧ long))) ∧
      (0 < day ∧ day < 8) then
    let date := first.shift (monday + 7 * (week - 1) + (day - 1))
    if date.Valid then some date else none
  else none

def weekDate (year week day : Text) : Option Date := do
  isoweekToGregorian (← readNumber year) (← readNumber week) (← readNumber day)

def calendarDate (year month day : Text) : Option Date := do
  let date : Date := ⟨← readNumber year, ← readNumber month, ← readNumber day⟩
  if date.Valid then some date else none

/-- `date.fromisoformat`: a date of the calendar or of a week, with dashes or without. CPython
also reads ten characters without dashes, by the first eight; these are no ISO date and none is
returned for them. -/
def dateFromisoformat (text : Text) : Option Date :=
  let year := text.take 4
  match text.drop 4 with
  | [x, m, n] => if x = 'W' then weekDate year [m, n] ['1'] else none
  | [x, m, n, d] =>
    if x = 'W' then weekDate year [m, n] [d]
    else if x = '-' then (if m = 'W' then weekDate year [n, d] ['1'] else none)
    else calendarDate year [x, m] [n, d]
  | [x, m, n, y, d, e] =>
    if x ≠ '-' then none
    else if m = 'W' then (if d = '-' then weekDate year [n, y] [e] else none)
    else if y = '-' then calendarDate year [m, n] [d, e]
    else none
  | _ => none

example : dateFromisoformat "2026-W01".toList = some ⟨2025, 12, 29⟩ := rfl

/-- The digits after the seconds; only six of them count. -/
def readFraction : Text → Option ℕ
  | [] => some 0
  | c :: digits =>
    if (c = '.' ∨ c = ',') ∧ digits ≠ [] ∧ digits.all Char.isDigit then
      readNumber ((digits ++ List.replicate 6 '0').take 6)
    else none

def clock (hour minute second fraction : Text) : Option ℤ := do
  let (h, m, s) := (← readNumber hour, ← readNumber minute, ← readNumber second)
  let micros ← readFraction fraction
  if h < 24 ∧ m < 60 ∧ s < 60 then some (1000000 * (3600 * h + 60 * m + s) + micros) else none

/-- Two letters of minutes or seconds, after a colon where the hour is followed by one. -/
def nextField (colons : Bool) : Text → Option (Text × Text)
  | x :: c :: d :: rest =>
    if colons then (if x = ':' then some ([c, d], rest) else none)
    else if x.isDigit then some ([x, c], d :: rest) else none
  | [x, c] => if !colons && x.isDigit then some ([x, c], []) else none
  | _ => none

/-- A time of the day, with colons or without; what its last field leaves is the fraction. -/
def readTime : Text → Option ℤ
  | a :: b :: rest =>
    let colons : Bool := rest.head? = some ':'
    match nextField colons rest with
    | none => clock [a, b] ['0', '0'] ['0', '0'] rest
    | some (minute, rest) =>
      match nextField colons rest with
      | none => clock [a, b] minute ['0', '0'] rest
      | some (second, fraction) => clock [a, b] minute second fraction
  | _ => none

/-- `datetime.fromisoformat` of a text with a `T` and without a time zone. -/
def fromisoformat (text : Text) : Option Moment :=
  match text.dropWhile (· != 'T') with
  | _ :: time => do return (← dateFromisoformat (text.takeWhile (· != 'T')), ← readTime time)
  | [] => none

def writeDate (d : Date) : Text :=
  writeNumber 4 d.year ++ '-' :: writeNumber 2 d.month ++ '-' :: writeNumber 2 d.day

/-- The fraction is written where there is one. -/
def writeTime (micros : ℕ) : Text :=
  let seconds := micros / 1000000
  writeNumber 2 (seconds / 3600) ++ ':' :: writeNumber 2 (seconds / 60 % 60) ++
    ':' :: writeNumber 2 (seconds % 60) ++
    if micros % 1000000 = 0 then [] else '.' :: writeNumber 6 (micros % 1000000)

def isoformat (m : Moment) : Text := writeDate m.1 ++ 'T' :: writeTime m.2.toNat

/-- `datetime`, `date` and `timedelta` without time zones. -/
def isoTimes : Datetimes where
  Moment := Moment
  Day := Date
  Span := ℤ
  fromisoformat := fromisoformat
  dateFromisoformat := dateFromisoformat
  isoformat := isoformat
  onDay m day := (day, m.2)
  minus a b := some (between a b)
  isNegative span := span < 0
  plusDay span := span + dayMicros
  plus := later
  minutes span := span.tdiv 60000000
  fromTimestamp seconds :=
    (later (⟨1970, 1, 1⟩, 0) (1000000 * seconds)).elim (.error .valueError) .ok
  toUtc := .ok

end Texts

section Numbers

theorem isDigit_writeNumber (width n : ℕ) : ∀ c ∈ writeNumber width n, c.isDigit = true := by
  intro c hc
  rw [writeNumber, List.leftpad] at hc
  rcases List.mem_append.mp hc with hzero | hdigit
  · rw [List.eq_of_mem_replicate hzero]
    rfl
  · exact Nat.isDigit_of_mem_toDigits (by decide) (by decide) hdigit

/-- A number is read as it was written, whatever its zeros. -/
theorem readNumber_writeNumber (width n : ℕ) : readNumber (writeNumber width n) = some n := by
  have hdigits : (writeNumber width n).all Char.isDigit = true :=
    List.all_eq_true.mpr (isDigit_writeNumber width n)
  rw [readNumber, if_pos hdigits, writeNumber, List.leftpad, Nat.ofDigitChars_append,
    Nat.ofDigitChars_replicate_zero, Nat.mul_zero, Nat.ofDigitChars_ten_toDigits]

theorem length_writeNumber {width n : ℕ} (hwidth : 0 < width) (h : n < 10 ^ width) :
    (writeNumber width n).length = width := by
  have hle := (Nat.length_toDigits_le_iff (by decide) hwidth).mpr h
  rw [writeNumber, List.length_leftpad]
  exact Nat.max_eq_left hle

theorem ofDigitChars_lt {digits : Text} (h : digits.all Char.isDigit = true) :
    Nat.ofDigitChars 10 digits 0 < 10 ^ digits.length := by
  induction digits using List.reverseRecOn with
  | nil => simp
  | append_singleton digits c ih =>
    rw [List.all_append, Bool.and_eq_true] at h
    have hrest := ih h.1
    have hdigit : c.toNat - '0'.toNat < 10 := by
      have hc : c.isDigit = true := by simpa using h.2
      simp only [Char.isDigit, Bool.and_eq_true, decide_eq_true_eq, UInt32.le_iff_toNat_le] at hc
      change c.val.toNat - 48 < 10
      have : ('9'.val).toNat = 57 := rfl
      omega
    rw [Nat.ofDigitChars_append, Nat.ofDigitChars_cons, Nat.ofDigitChars_nil, List.length_append,
      List.length_singleton, Nat.pow_succ]
    omega

theorem readNumber_lt {digits : Text} {n : ℕ} (h : readNumber digits = some n) :
    n < 10 ^ digits.length := by
  unfold readNumber at h
  split at h
  · obtain rfl := Option.some.inj h
    exact ofDigitChars_lt ‹_›
  · cases h

end Numbers

section Read

variable {d : Date} {m : Moment} {t : ℤ}

theorem calendarDate_valid {year month day : Text} (h : calendarDate year month day = some d) :
    d.Valid := by
  unfold calendarDate at h
  obtain ⟨y, -, h⟩ := Option.bind_eq_some_iff.mp h
  obtain ⟨mo, -, h⟩ := Option.bind_eq_some_iff.mp h
  obtain ⟨da, -, h⟩ := Option.bind_eq_some_iff.mp h
  obtain ⟨hvalid, heq⟩ := Option.ite_none_right_eq_some.mp h
  exact Option.some.inj heq ▸ hvalid

theorem weekDate_valid {year week day : Text} (h : weekDate year week day = some d) :
    d.Valid := by
  unfold weekDate at h
  obtain ⟨y, -, h⟩ := Option.bind_eq_some_iff.mp h
  obtain ⟨w, -, h⟩ := Option.bind_eq_some_iff.mp h
  obtain ⟨da, -, h⟩ := Option.bind_eq_some_iff.mp h
  unfold isoweekToGregorian at h
  obtain ⟨-, h⟩ := Option.ite_none_right_eq_some.mp h
  obtain ⟨hvalid, heq⟩ := Option.ite_none_right_eq_some.mp h
  exact Option.some.inj heq ▸ hvalid

theorem dateFromisoformat_valid {text : Text} (h : dateFromisoformat text = some d) :
    d.Valid := by
  unfold dateFromisoformat at h
  dsimp only at h
  repeat' split at h
  all_goals first
    | exact weekDate_valid h
    | exact calendarDate_valid h
    | cases h

theorem readFraction_lt {fraction : Text} {n : ℕ} (h : readFraction fraction = some n) :
    n < 1000000 := by
  cases fraction with
  | nil =>
    obtain rfl := Option.some.inj h
    decide
  | cons c digits =>
    unfold readFraction at h
    obtain ⟨-, h⟩ := Option.ite_none_right_eq_some.mp h
    have hlt := readNumber_lt h
    have hsix : ((digits ++ List.replicate 6 '0').take 6).length = 6 := by simp
    rw [hsix] at hlt
    exact hlt

theorem clock_range {hour minute second fraction : Text}
    (h : clock hour minute second fraction = some t) : 0 ≤ t ∧ t < dayMicros := by
  unfold clock at h
  obtain ⟨hh, -, h⟩ := Option.bind_eq_some_iff.mp h
  obtain ⟨mm, -, h⟩ := Option.bind_eq_some_iff.mp h
  obtain ⟨ss, -, h⟩ := Option.bind_eq_some_iff.mp h
  obtain ⟨micros, hfraction, h⟩ := Option.bind_eq_some_iff.mp h
  have hlt := readFraction_lt hfraction
  split at h
  · obtain rfl := Option.some.inj h
    rw [dayMicros]
    omega
  · cases h

theorem readTime_range {text : Text} (h : readTime text = some t) : 0 ≤ t ∧ t < dayMicros := by
  unfold readTime at h
  dsimp only at h
  repeat' split at h
  all_goals first
    | exact clock_range h
    | cases h

theorem fromisoformat_inRange {text : Text} (h : fromisoformat text = some m) : InRange m := by
  unfold fromisoformat at h
  split at h
  · obtain ⟨date, hdate, h⟩ := Option.bind_eq_some_iff.mp h
    obtain ⟨time, htime, h⟩ := Option.bind_eq_some_iff.mp h
    obtain rfl := Option.some.inj h
    exact ⟨dateFromisoformat_valid hdate, readTime_range htime⟩
  · cases h

end Read

section Written

theorem exists_two {l : Text} (h : l.length = 2) : ∃ a b, l = [a, b] := List.length_eq_two.mp h

theorem exists_four {l : Text} (h : l.length = 4) : ∃ a b c d, l = [a, b, c, d] := by
  match l, h with
  | [a, b, c, d], _ => exact ⟨a, b, c, d, rfl⟩

/-- A number of two digits, with its digits. -/
theorem writeNumber_two {n : ℕ} (h : n < 100) :
    ∃ a b, writeNumber 2 n = [a, b] ∧ a.isDigit = true ∧ readNumber [a, b] = some n := by
  obtain ⟨a, b, heq⟩ := exists_two (length_writeNumber (by decide) h)
  have hdigits := isDigit_writeNumber 2 n
  have hread := readNumber_writeNumber 2 n
  rw [heq] at hdigits hread
  exact ⟨a, b, heq, hdigits a (by simp), hread⟩

theorem dateFromisoformat_writeDate {d : Date} (h : d.Valid) :
    dateFromisoformat (writeDate d) = some d := by
  obtain ⟨⟨-, hyear⟩, ⟨-, hmonth⟩, -, hday⟩ := id h
  have hlast : daysInMonth d.year d.month ≤ 31 := by
    unfold daysInMonth
    split_ifs <;> omega
  obtain ⟨y₁, y₂, y₃, y₄, hy⟩ := exists_four
    (length_writeNumber (n := d.year) (by decide : 0 < 4) (by omega))
  have hreadYear := readNumber_writeNumber 4 d.year
  rw [hy] at hreadYear
  obtain ⟨m₁, m₂, hm, hdigit, hreadMonth⟩ := writeNumber_two (show d.month < 100 by omega)
  obtain ⟨d₁, d₂, hd, -, hreadDay⟩ := writeNumber_two (show d.day < 100 by omega)
  have hletter : m₁ ≠ 'W' := by
    rintro rfl
    exact absurd hdigit (by decide)
  simp [dateFromisoformat, writeDate, hy, hm, hd, hletter, calendarDate, hreadYear, hreadMonth,
    hreadDay, h]

theorem readFraction_written {micros : ℕ} (h : micros < 1000000) :
    readFraction (if micros = 0 then [] else '.' :: writeNumber 6 micros) = some micros := by
  split
  · next hzero => rw [hzero]; rfl
  · have hlength := length_writeNumber (by decide : 0 < 6) h
    have hdigits : (writeNumber 6 micros).all Char.isDigit = true :=
      List.all_eq_true.mpr (isDigit_writeNumber 6 micros)
    have hne : writeNumber 6 micros ≠ [] := by
      intro hnil
      simp [hnil] at hlength
    have hsix : (writeNumber 6 micros ++ List.replicate 6 '0').take 6 = writeNumber 6 micros :=
      List.take_left' hlength
    rw [readFraction, if_pos ⟨.inl rfl, hne, hdigits⟩, hsix, readNumber_writeNumber]

theorem readTime_writeTime {n : ℕ} (h : n < 86400000000) :
    readTime (writeTime n) = some (n : ℤ) := by
  obtain ⟨a, b, hhour, -, hreadHour⟩ :=
    writeNumber_two (show n / 1000000 / 3600 < 100 by omega)
  obtain ⟨c, d, hminute, -, hreadMinute⟩ :=
    writeNumber_two (show n / 1000000 / 60 % 60 < 100 by omega)
  obtain ⟨e, f, hsecond, -, hreadSecond⟩ :=
    writeNumber_two (show n / 1000000 % 60 < 100 by omega)
  have hfraction := readFraction_written (show n % 1000000 < 1000000 by omega)
  have hclock : clock [a, b] [c, d] [e, f]
      (if n % 1000000 = 0 then [] else '.' :: writeNumber 6 (n % 1000000)) = some (n : ℤ) := by
    simp only [clock, hreadHour, hreadMinute, hreadSecond, hfraction,
      Option.bind_eq_bind, Option.bind_some]
    rw [if_pos (by omega)]
    congr 1
    omega
  simpa [writeTime, hhour, hminute, hsecond, readTime, nextField] using hclock

theorem not_T_writeDate (d : Date) : ∀ c ∈ writeDate d, (c != 'T') = true := by
  have hdigit : ∀ width n, ∀ c ∈ writeNumber width n, (c != 'T') = true := by
    intro width n c hc
    rw [bne_iff_ne]
    rintro rfl
    exact absurd (isDigit_writeNumber width n _ hc) (by decide)
  intro c hc
  simp only [writeDate, List.mem_append, List.mem_cons] at hc
  rcases hc with (hyear | rfl | hmonth) | rfl | hday
  · exact hdigit _ _ c hyear
  · rfl
  · exact hdigit _ _ c hmonth
  · rfl
  · exact hdigit _ _ c hday

/-- What is written is read back. -/
theorem fromisoformat_isoformat {m : Moment} (h : InRange m) :
    fromisoformat (isoformat m) = some m := by
  obtain ⟨hdate, hfirst, hlast⟩ := h
  have htime : readTime (writeTime m.2.toNat) = some m.2 := by
    rw [readTime_writeTime (by rw [dayMicros] at hlast; omega), Int.toNat_of_nonneg hfirst]
  have hT := not_T_writeDate m.1
  have hrest : (isoformat m).dropWhile (· != 'T') = 'T' :: writeTime m.2.toNat := by
    rw [isoformat, List.dropWhile_append_of_pos hT]
    rfl
  have hbefore : (isoformat m).takeWhile (· != 'T') = writeDate m.1 := by
    rw [isoformat, List.takeWhile_append_of_pos hT]
    exact List.append_nil _
  simp [fromisoformat, hrest, hbefore, dateFromisoformat_writeDate hdate, htime]

theorem length_writeDate {d : Date} (h : d.Valid) : (writeDate d).length = 10 := by
  obtain ⟨⟨-, hyear⟩, ⟨-, hmonth⟩, -, hday⟩ := h
  have hlast : daysInMonth d.year d.month ≤ 31 := by
    unfold daysInMonth
    split_ifs <;> omega
  have hy := length_writeNumber (by decide : 0 < 4) (show d.year < 10 ^ 4 by omega)
  have hm := length_writeNumber (by decide : 0 < 2) (show d.month < 10 ^ 2 by omega)
  have hd := length_writeNumber (by decide : 0 < 2) (show d.day < 10 ^ 2 by omega)
  simp [writeDate, hy, hm, hd]

theorem take_isoformat {m : Moment} (h : m.1.Valid) : (isoformat m).take 10 = writeDate m.1 :=
  List.take_left' (length_writeDate h)

theorem drop_isoformat {m : Moment} (h : m.1.Valid) :
    (isoformat m).drop 11 = writeTime m.2.toNat := by
  have hlength : (writeDate m.1 ++ ['T']).length = 11 := by simp [length_writeDate h]
  rw [isoformat, List.append_cons, ← hlength, List.drop_left]

theorem later_inRange {m n : Moment} {span : ℤ} (h : later m span = some n) : InRange n := by
  obtain ⟨hvalid, heq⟩ := Option.ite_none_right_eq_some.mp h
  rw [← Option.some.inj heq]
  exact ⟨hvalid, Int.emod_nonneg _ (by decide), Int.emod_lt_of_pos _ (by decide)⟩

theorem isoTimes_lawful : isoTimes.Lawful where
  undated := rfl
  written m := List.mem_append_right _ List.mem_cons_self
  onDay_onDay _ _ := rfl
  read_onDay hread hday :=
    fromisoformat_isoformat ⟨dateFromisoformat_valid hday, (fromisoformat_inRange hread).2⟩
  read_plus _ _ hplus := fromisoformat_isoformat (later_inRange hplus)
  read_date {_ _ m day} _ hday := by
    have hvalid := dateFromisoformat_valid hday
    exact (congrArg _ (take_isoformat (m := (day, m.2)) hvalid)).trans
      (dateFromisoformat_writeDate hvalid)
  same_clock {_ _ m day} hread hday := by
    have hday' := drop_isoformat (m := (day, m.2)) (dateFromisoformat_valid hday)
    have hstart := drop_isoformat (fromisoformat_inRange hread).1
    exact ⟨hday'.trans hstart.symm, hstart ▸ by simp [writeTime]⟩

end Written

end VoiceAgent.IsoTimes
