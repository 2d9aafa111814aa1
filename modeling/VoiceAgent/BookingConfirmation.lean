import VoiceAgent.BookingState

/-!
What is booked, against the summary shown last: the flight is that of the summary, and each
preference and the passenger the latest value given since, the confirming call included.
-/
namespace VoiceAgent.BookingConfirmation

open StreamingEvents BookingFlow
open BookingState (Coherent coherent_after)

/-- The newest value that some slots give for a key. -/
def latestValue (key : String) (given : List Slots) : Option Text :=
  given.reverse.findSome? (slot · key)

section Merge
variable {draft : BookingDraft} {given : List Slots} {slots : Slots}

theorem latestValue_snoc (key : String) :
    latestValue key (given ++ [slots]) = (slot slots key).or (latestValue key given) := by
  simp only [latestValue, List.reverse_append, List.reverse_singleton, List.singleton_append,
    List.findSome?_cons]
  cases slot slots key <;> rfl

/-- A draft into which slots are merged, one call after the other. -/
theorem foldl_merge (draft : BookingDraft) (given : List Slots) :
    given.foldl BookingDraft.merge draft =
      { flight := draft.flight
        seatPref := (latestValue "seat_pref" given).or draft.seatPref
        mealPref := (latestValue "meal_pref" given).or draft.mealPref
        passengerName := (latestValue "passenger_name" given).or draft.passengerName } := by
  induction given using List.reverseRecOn with
  | nil => rfl
  | append_singleton given slots ih =>
    rw [List.foldl_append, ih]
    simp only [List.foldl_cons, List.foldl_nil, BookingDraft.merge, latestValue_snoc,
      Option.or_assoc]

end Merge

/-- A session that waits for a confirmation holds the draft last shown, with what has been
merged into it since. -/
def Agrees (s : Session) (latest : Option Shown) : Prop :=
  s.waitingForConfirmation = true → ∃ p, latest = some p ∧
    s.bookingDraft = some (p.since.foldl BookingDraft.merge p.draft)

section Steps
variable {T : TextOps} {s : Session} {latest : Option Shown} {slots : Slots} {reply : CreateReply}
  {d : BookingDraft}

theorem agrees_of_not_waiting (h : s.waitingForConfirmation = false) : Agrees s latest :=
  fun hw => by simp [h] at hw

theorem agrees_resetBooking (s : Session) : Agrees s.resetBooking latest :=
  agrees_of_not_waiting rfl

/-- What a call owes: the state it leaves agrees with the summary shown last. -/
def Keeps (latest : Option Shown) (op : Op) (turn : Turn) : Prop :=
  Agrees turn.state (Shown.next latest op turn)

theorem keeps_shows (op : Op) (draft : BookingDraft) : Keeps latest op (s.shows T draft) :=
  fun _ => ⟨{ draft := draft }, rfl, rfl⟩

theorem keeps_of_not_waiting {op : Op} {turn : Turn}
    (h : turn.state.waitingForConfirmation = false) : Keeps latest op turn :=
  agrees_of_not_waiting h

/-- The slots of a call that returns a payload without a summary are merged into the draft. -/
theorem agrees_merge (slots : Slots) (h : Agrees s latest) :
    Agrees (s.mergePreferences slots)
      (latest.map fun p => { draft := p.draft, since := p.since ++ [slots] }) := by
  intro hw
  obtain ⟨p, rfl, hdraft⟩ := h hw
  refine ⟨_, rfl, ?_⟩
  simp [Session.mergePreferences, hdraft, List.foldl_append]

theorem keeps_confirm (h : Agrees s latest) :
    Keeps latest (.book slots reply) (confirm T s slots reply) := by
  have hmerge := agrees_merge slots h
  simp only [confirm]
  split
  · unfold finalizeBooking
    split
    · exact hmerge
    · cases reply with
      | cancelled => exact agrees_resetBooking _
      | failed error => exact hmerge
      | missing => exact hmerge
      | record r => exact agrees_resetBooking _
  · exact agrees_resetBooking _
  · exact hmerge

theorem keeps_choosePreferences (draft : BookingDraft)
    (hw : s.waitingForConfirmation = false) :
    Keeps latest (.book slots reply) (choosePreferences T s slots draft) := by
  unfold choosePreferences
  split
  · exact keeps_shows _ _
  · exact keeps_of_not_waiting hw

theorem keeps_proceed (h : Agrees s latest)
    (selected : Option Flight) :
    Keeps latest (.book slots reply) (proceed T s slots selected reply) := by
  unfold proceed
  split
  · exact keeps_confirm h
  · rename_i hw
    have hw' : s.waitingForConfirmation = false := by simpa using hw
    unfold choose
    split
    · exact keeps_choosePreferences _ hw'
    · exact keeps_choosePreferences _ hw'
    · exact keeps_of_not_waiting hw'

theorem keeps_continueBooking (hcoherent : Coherent s) (h : Agrees s latest) :
    Keeps latest (.book slots reply) (continueBooking T s slots reply) := by
  unfold continueBooking
  split
  · rename_i hnone
    exact keeps_of_not_waiting (Bool.eq_false_iff.mpr fun hw => hcoherent.searched hw hnone)
  · simp only
    split
    · exact h
    · rename_i selected _
      split
      · refine keeps_of_not_waiting ?_
        simp only [unmatched, Session.replies]
        split
        · rfl
        · rename_i hdraft
          refine Bool.eq_false_iff.mpr fun hw => ?_
          obtain ⟨p, -, hp⟩ := h hw
          simp [hp] at hdraft
      · unfold advance
        split
        · split
          · simp only [changeFlight]
            split
            · exact keeps_of_not_waiting rfl
            · exact keeps_shows _ _
          · exact keeps_proceed h _
        · exact keeps_proceed h _

theorem keeps_flightSearch (reply : SearchReply) (h : Agrees s latest) :
    Keeps latest (.search slots reply) (flightSearch T s slots reply) := by
  simp only [flightSearch]
  split
  · unfold searchFor
    split
    · exact agrees_resetBooking _
    · exact h
    · exact agrees_of_not_waiting rfl
  · exact h

theorem keeps_step (op : Op) (hcoherent : Coherent s) (h : Agrees s latest) :
    Keeps latest op (step T s op) := by
  cases op with
  | search slots reply => exact keeps_flightSearch reply h
  | book slots reply => exact keeps_continueBooking hcoherent h

/-- Run lemma: after any calls the session agrees with the summary shown last. -/
theorem agrees_after (T : TextOps) (ops : List Op) :
    Agrees (after T ops).1 (after T ops).2 := by
  induction ops using List.reverseRecOn with
  | nil => exact agrees_of_not_waiting rfl
  | append_singleton ops op ih =>
    have hstep : Keeps (after T ops).2 op (step T (after T ops).1 op) :=
      keeps_step op (coherent_after T ops) ih
    rw [after, List.foldl_append]
    exact hstep

end Steps

section Created
variable {T : TextOps} {s : Session} {slots : Slots} {reply : CreateReply} {d : BookingDraft}

theorem created_books (draft : BookingDraft) : (s.books draft reply).created = some draft := by
  cases reply <;> rfl

/-- Only a confirmation books, and it books the draft with its own slots merged. -/
theorem created_confirm (h : (confirm T s slots reply).created = some d) :
    boolSlot T slots "confirmed" = some true ∧
      s.bookingDraft.map (·.merge slots) = some d := by
  simp only [confirm] at h
  split at h
  · rename_i hconfirmed
    refine ⟨hconfirmed, ?_⟩
    unfold finalizeBooking at h
    split at h
    · cases h
    · rename_i draft hdraft
      rw [created_books] at h
      exact hdraft.trans h
  · cases h
  · cases h

theorem created_choose (selected : Option Flight) :
    (choose T s slots selected).created = none := by
  have hprefs : ∀ draft, (choosePreferences T s slots draft).created = none := by
    intro draft
    unfold choosePreferences
    split <;> rfl
  unfold choose
  split
  · exact hprefs _
  · exact hprefs _
  · rfl

theorem created_proceed {selected : Option Flight}
    (h : (proceed T s slots selected reply).created = some d) :
    s.waitingForConfirmation = true ∧ boolSlot T slots "confirmed" = some true ∧
      s.bookingDraft.map (·.merge slots) = some d := by
  unfold proceed at h
  split at h
  · rename_i hw
    exact ⟨hw, created_confirm h⟩
  · rw [created_choose] at h
    cases h

theorem created_continueBooking (h : (continueBooking T s slots reply).created = some d) :
    s.waitingForConfirmation = true ∧ boolSlot T slots "confirmed" = some true ∧
      s.bookingDraft.map (·.merge slots) = some d := by
  unfold continueBooking at h
  split at h
  · cases h
  · simp only at h
    split at h
    · cases h
    · split at h
      · cases h
      · unfold advance at h
        split at h
        · split at h
          · simp only [changeFlight] at h
            split at h
            · cases h
            · cases h
          · exact created_proceed h
        · exact created_proceed h

theorem created_flightSearch (reply : SearchReply) :
    (flightSearch T s slots reply).created = none := by
  simp only [flightSearch]
  split
  · unfold searchFor
    split <;> rfl
  · rfl

end Created

section Shown
variable {T : TextOps} {s : Session} {slots : Slots} {reply : CreateReply} {d : BookingDraft}

/-- A turn whose summary, if it has one, is that of the draft it names. -/
def Honest (T : TextOps) (turn : Turn) : Prop :=
  ∀ d, turn.shown = some d → turn.result = .payload (confirmationHint T d)

theorem honest_of_none {turn : Turn} (h : turn.shown = none) : Honest T turn := by
  intro d hd
  rw [h] at hd
  cases hd

theorem honest_shows (draft : BookingDraft) : Honest T (s.shows T draft) := by
  intro d hd
  obtain rfl : draft = d := Option.some.inj hd
  rfl

theorem honest_confirm : Honest T (confirm T s slots reply) := by
  refine honest_of_none ?_
  simp only [confirm]
  split
  · unfold finalizeBooking
    split
    · rfl
    · cases reply <;> rfl
  · rfl
  · rfl

theorem honest_proceed (selected : Option Flight) :
    Honest T (proceed T s slots selected reply) := by
  have hprefs : ∀ draft, Honest T (choosePreferences T s slots draft) := by
    intro draft
    unfold choosePreferences
    split
    · exact honest_shows _
    · exact honest_of_none rfl
  unfold proceed
  split
  · exact honest_confirm
  · unfold choose
    split
    · exact hprefs _
    · exact hprefs _
    · exact honest_of_none rfl

theorem honest_continueBooking : Honest T (continueBooking T s slots reply) := by
  unfold continueBooking
  split
  · exact honest_of_none rfl
  · simp only
    split
    · exact honest_of_none rfl
    · split
      · exact honest_of_none rfl
      · unfold advance
        split
        · split
          · simp only [changeFlight]
            split
            · exact honest_of_none rfl
            · exact honest_shows _
          · exact honest_proceed _
        · exact honest_proceed _

theorem result_of_shown {op : Op} (h : (step T s op).shown = some d) :
    (step T s op).result = .payload (confirmationHint T d) := by
  cases op with
  | search slots reply =>
    have hnone : (flightSearch T s slots reply).shown = none := by
      simp only [flightSearch]
      split
      · unfold searchFor
        split <;> rfl
      · rfl
    exact honest_of_none hnone d h
  | book slots reply => exact honest_continueBooking d h

theorem draft_of_next {latest : Option Shown} {op : Op} {turn : Turn} {p : Shown}
    (h : Shown.next latest op turn = some p) :
    turn.shown = some p.draft ∨ ∃ q, latest = some q ∧ q.draft = p.draft := by
  unfold Shown.next at h
  split at h
  · next hshown =>
    cases h
    exact .inl hshown
  · obtain ⟨q, hq, rfl⟩ := Option.map_eq_some_iff.mp h
    exact .inr ⟨q, hq, rfl⟩
  · exact .inr ⟨p, h, rfl⟩

/-- The reply to one of the calls. -/
def Replied (T : TextOps) (ops : List Op) (result : Result) : Prop :=
  ∃ before op later, ops = before ++ op :: later ∧
    (step T (after T before).1 op).result = result

/-- Run lemma: the latest summary was the reply to a call, built from the draft it names. -/
theorem replied_after {ops : List Op} {p : Shown} (h : (after T ops).2 = some p) :
    Replied T ops (.payload (confirmationHint T p.draft)) := by
  induction ops using List.reverseRecOn generalizing p with
  | nil => cases h
  | append_singleton ops op ih =>
    rw [after, List.foldl_append] at h
    rcases draft_of_next h with hshown | ⟨q, hq, hdraft⟩
    · exact ⟨ops, op, [], rfl, result_of_shown hshown⟩
    · obtain ⟨before, shower, later, rfl, hresult⟩ := ih hq
      exact ⟨before, shower, later ++ [op], by simp, hdraft ▸ hresult⟩

end Shown

/-- Only a confirming call books: the flight of the latest summary, which was the reply to a call,
and each preference and the passenger as last given since, by the confirming call included. -/
theorem booked_as_shown (T : TextOps) (ops : List Op) (op : Op) (d : BookingDraft)
    (h : (step T (after T ops).1 op).created = some d) :
    ∃ slots reply p, op = .book slots reply ∧ boolSlot T slots "confirmed" = some true ∧
      (after T ops).2 = some p ∧ Replied T ops (.payload (confirmationHint T p.draft)) ∧
      d.flight = p.draft.flight ∧
      d.seatPref = (latestValue "seat_pref" (p.since ++ [slots])).or p.draft.seatPref ∧
      d.mealPref = (latestValue "meal_pref" (p.since ++ [slots])).or p.draft.mealPref ∧
      d.passengerName =
        (latestValue "passenger_name" (p.since ++ [slots])).or p.draft.passengerName := by
  cases op with
  | search slots reply =>
    have hnone : (flightSearch T (after T ops).1 slots reply).created = none :=
      created_flightSearch reply
    rw [step, hnone] at h
    cases h
  | book slots reply =>
    obtain ⟨hw, hconfirmed, hd⟩ := created_continueBooking h
    obtain ⟨p, hp, hdraft⟩ := agrees_after T ops hw
    have hmerged : (p.since ++ [slots]).foldl BookingDraft.merge p.draft = d := by
      rw [hdraft] at hd
      simpa [List.foldl_append] using hd
    rw [foldl_merge] at hmerged
    subst hmerged
    exact ⟨slots, reply, p, rfl, hconfirmed, hp, replied_after hp, rfl, rfl, rfl, rfl⟩

/-- Python's string methods on ASCII text; the clock time is left as it is. -/
def asciiOps : TextOps where
  lower := List.map Char.toLower
  upper := List.map Char.toUpper
  isalpha t := t ≠ [] ∧ t.all Char.isAlpha
  isdigit t := t ≠ [] ∧ t.all Char.isDigit
  int t := (String.ofList t).toInt?
  spokenTime := id

def slotsOf (entries : List (String × Value)) : Slots := fun key => entries.lookup key

def seattle : Flight :=
  { flightId := "AA311".toList, carrier := internalBackendCarrier
    originCity := "New York".toList, destCity := "Seattle".toList
    originAirport := "JFK".toList, destAirport := "SEA".toList
    date := "2026-05-26".toList, departureTime := "2026-05-26T07:30:00".toList }

/-- A search, and the first flight chosen with the defaults: a summary is shown. -/
def summaryShown : List Op :=
  [.search (slotsOf [("origin_airport", .text "JFK".toList),
      ("dest_airport", .text "SEA".toList), ("date", .text "2026-05-26".toList)])
      (.flights [seattle]),
    .book (slotsOf [("flight_selected", .text "first".toList), ("use_defaults", .bool true)])
      .missing]

/-- The confirming call also asks for a window seat. -/
def windowAndConfirm : Slots :=
  slotsOf [("seat_pref", .text "window".toList), ("confirmed", .bool true)]

theorem booked_as_shown_window :
    ∃ slots reply p, Op.book windowAndConfirm .missing = .book slots reply ∧
      boolSlot asciiOps slots "confirmed" = some true ∧
      (after asciiOps summaryShown).2 = some p ∧ seattle = p.draft.flight ∧
      some "window".toList =
        (latestValue "seat_pref" (p.since ++ [slots])).or p.draft.seatPref := by
  have hcreated : (step asciiOps (after asciiOps summaryShown).1
      (.book windowAndConfirm .missing)).created =
        some { flight := seattle, seatPref := some "window".toList } := by decide +kernel
  obtain ⟨slots, reply, p, hop, hconfirmed, hp, -, hflight, hseat, -⟩ :=
    booked_as_shown asciiOps summaryShown (.book windowAndConfirm .missing) _ hcreated
  exact ⟨slots, reply, p, hop, hconfirmed, hp, hflight, hseat⟩

/-- The window seat is booked, and no summary has shown it. -/
theorem window_booked_unseen :
    ¬ ∀ (T : TextOps) (ops : List Op) (op : Op) (d : BookingDraft),
      (step T (after T ops).1 op).created = some d →
        ∃ p, (after T ops).2 = some p ∧ d = p.draft := by
  intro h
  obtain ⟨p, hp, hd⟩ := h asciiOps summaryShown (.book windowAndConfirm .missing)
    { flight := seattle, seatPref := some "window".toList } (by decide +kernel)
  have hshown : (after asciiOps summaryShown).2.map (·.draft.seatPref) = some none := by
    decide +kernel
  have hseat : p.draft.seatPref = some "window".toList := by rw [← hd]
  simp [hp, hseat] at hshown

end VoiceAgent.BookingConfirmation
