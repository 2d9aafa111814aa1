import VoiceAgent.BookingFlow
import Mathlib.Data.List.Induction

/-!
The booking fields of the Thinker's session over any sequence of tool calls. A booking call
is also written as a program that stops at `create_booking`, where the pending booking may
be cancelled before the backend answers.
-/
namespace VoiceAgent.BookingState

open StreamingEvents BookingFlow

section Programs

/-- `continue_booking` up to its end, or up to a call of `create_booking`: the state it leaves,
the draft, and what it does with the reply and the state by then. -/
inductive Program
  | done (turn : Turn)
  | create (state : Session) (draft : BookingDraft)
      (resume : CreateReply → Session → Program)

/-- At most `n` calls of `create_booking`, whatever the replies. -/
def Program.AtMost : ℕ → Program → Prop
  | _, .done _ => True
  | 0, .create _ _ _ => False
  | n + 1, .create _ _ resume => ∀ reply s, (resume reply s).AtMost n

def outcome (turn : Turn) : Session × Result := (turn.state, turn.result)

/-- Run with one reply; `between` is what happens to the session before it. -/
def Program.run (reply : CreateReply) (between : Session → Session) : Program → Session × Result
  | .done turn => outcome turn
  | .create s _ resume => (resume reply (between s)).run reply between

def finalizeProgram (s : Session) : Program :=
  match s.bookingDraft with
  | none => .done (finalizeBooking s .missing)
  | some draft => .create s draft fun reply now => .done (now.books draft reply)

def confirmProgram (T : TextOps) (s : Session) (slots : Slots) : Program :=
  if boolSlot T slots "confirmed" = some true then finalizeProgram (s.mergePreferences slots)
  else .done (confirm T s slots .missing)

def proceedProgram (T : TextOps) (s : Session) (slots : Slots) (selected : Option Flight) :
    Program :=
  if s.waitingForConfirmation then confirmProgram T s slots else .done (choose T s slots selected)

def advanceProgram (T : TextOps) (s : Session) (slots : Slots) (selected : Option Flight) :
    Program :=
  match selected, s.bookingDraft with
  | some flight, some draft =>
    if flightIdentity flight ≠ flightIdentity draft.flight then
      .done (changeFlight T s slots flight draft)
    else proceedProgram T s slots selected
  | _, _ => proceedProgram T s slots selected

/-- `continue_booking`; what precedes `_finalize_booking` does not call the backend. -/
def continueProgram (T : TextOps) (s : Session) (slots : Slots) : Program :=
  if s.searchResults = [] then .done (continueBooking T s slots .missing)
  else
    let selection := slot slots "flight_selected"
    match extractSelectedFlight T selection s.searchResults with
    | none => .done { state := s, result := .raised }
    | some selected =>
      if selection.isSome ∧ selected = none then .done (unmatched s)
      else advanceProgram T s slots selected

end Programs

section Calls

/-- `cancelled` says that the pending booking is cancelled while `create_booking` runs. -/
inductive Call
  | search (slots : Slots) (reply : SearchReply)
  | book (slots : Slots) (reply : CreateReply) (cancelled : Bool)
  | cancelPending

def meanwhile (cancelled : Bool) (s : Session) : Session :=
  if cancelled then (cancelPendingBooking s).1 else s

/-- The state that a call leaves, and its result if it is a tool's. -/
def runCall (T : TextOps) (s : Session) : Call → Session × Option Result
  | .search slots reply =>
    ((flightSearch T s slots reply).state, some (flightSearch T s slots reply).result)
  | .book slots reply cancelled =>
    let r := (continueProgram T s slots).run reply (meanwhile cancelled)
    (r.1, some r.2)
  | .cancelPending => ((cancelPendingBooking s).1, none)

def stateAfter (T : TextOps) (calls : List Call) : Session :=
  calls.foldl (fun s call => (runCall T s call).1) {}

/-- A booking or a search that succeeded, a booking that was declined, and a search that found
nothing. -/
def Concludes (r : Result) : Prop :=
  ∃ p, r = .payload p ∧ (p.status = "success" ∨ p.reason = "booking_cancelled" ∨
    (p.reason = "tool_error" ∧ p.context = "flight_search"))

/-- What the booking fields owe to each other. -/
structure Coherent (s : Session) : Prop where
  chosen : ∀ draft, s.bookingDraft = some draft → draft.flight ∈ s.searchResults
  awaited : s.waitingForConfirmation = true → s.bookingDraft.isSome = true
  apart : ¬ (s.waitingForPreferences = true ∧ s.waitingForConfirmation = true)

end Calls

section Refinement
variable {T : TextOps} {s : Session} {slots : Slots} {reply : CreateReply}

theorem run_finalize :
    (finalizeProgram s).run reply id = outcome (finalizeBooking s reply) := by
  unfold finalizeProgram finalizeBooking
  cases h : s.bookingDraft with
  | none => simp only [Program.run]
  | some draft => rfl

theorem run_proceed (selected : Option Flight) :
    (proceedProgram T s slots selected).run reply id =
      outcome (proceed T s slots selected reply) := by
  unfold proceedProgram proceed
  split
  · unfold confirmProgram confirm
    cases h : boolSlot T slots "confirmed" with
    | none => rfl
    | some b =>
      cases b with
      | false => rfl
      | true => exact run_finalize
  · rfl

/-- The program, when nothing happens before the reply, is `continue_booking`. -/
theorem run_continue :
    (continueProgram T s slots).run reply id = outcome (continueBooking T s slots reply) := by
  unfold continueProgram continueBooking
  split
  · rename_i h
    simp only [Program.run]
  · simp only
    cases extractSelectedFlight T (slot slots "flight_selected") s.searchResults with
    | none => rfl
    | some selected =>
      simp only
      split
      · rfl
      · unfold advanceProgram advance
        cases selected with
        | none => exact run_proceed none
        | some flight =>
          cases s.bookingDraft with
          | none => exact run_proceed _
          | some draft =>
            simp only
            split
            · rfl
            · exact run_proceed _

/-- A call during which no pending booking is cancelled. -/
def callOf : Op → Call
  | .search slots reply => .search slots reply
  | .book slots reply => .book slots reply false

theorem runCall_callOf (op : Op) : (runCall T s (callOf op)).1 = (step T s op).state := by
  cases op with
  | search slots reply => rfl
  | book slots reply => exact congrArg Prod.fst run_continue

theorem atMost_proceed (selected : Option Flight) :
    (proceedProgram T s slots selected).AtMost 1 := by
  unfold proceedProgram
  split
  · unfold confirmProgram
    split
    · unfold finalizeProgram
      split
      · trivial
      · exact fun _ _ => trivial
    · trivial
  · trivial

theorem atMost_continue : (continueProgram T s slots).AtMost 1 := by
  unfold continueProgram
  split
  · trivial
  · simp only
    split
    · trivial
    · split
      · trivial
      · unfold advanceProgram
        split
        · split
          · trivial
          · exact atMost_proceed _
        · exact atMost_proceed _

end Refinement

section Coherence
variable {T : TextOps} {s : Session} {slots : Slots} {reply : CreateReply}
  {draft : BookingDraft} {flight : Flight}

theorem coherent_cleared (hd : s.bookingDraft = none) (hw : s.waitingForConfirmation = false) :
    Coherent s where
  chosen d h := by
    rw [hd] at h
    cases h
  awaited h := by
    rw [hw] at h
    cases h
  apart h := by
    rw [hw] at h
    cases h.2

theorem Coherent.merge (h : Coherent s) (slots : Slots) : Coherent (s.mergePreferences slots) where
  chosen d hd := by
    obtain ⟨draft, hdraft, rfl⟩ := Option.map_eq_some_iff.mp hd
    exact h.chosen draft hdraft
  awaited hw := by
    simpa [Session.mergePreferences] using h.awaited hw
  apart := h.apart

/-- A summary is shown for a draft whose flight was found. -/
theorem coherent_shows (hd : draft.flight ∈ s.searchResults) :
    Coherent (s.shows T draft).state where
  chosen d h := by
    obtain rfl := Option.some.inj h
    exact hd
  awaited _ := rfl
  apart h := by cases h.1

/-- Preferences are asked for a draft whose flight was found. -/
theorem coherent_asks {b : Bool} (hd : draft.flight ∈ s.searchResults)
    (hw : s.waitingForConfirmation = false) :
    Coherent ({ s with
      bookingDraft := some draft
      waitingForPreferences := b } : Session) where
  chosen d h := by
    obtain rfl := Option.some.inj h
    exact hd
  awaited _ := rfl
  apart h := by
    have hc : s.waitingForConfirmation = true := h.2
    rw [hw] at hc
    cases hc

theorem Coherent.choosePreferences (hd : draft.flight ∈ s.searchResults)
    (hw : s.waitingForConfirmation = false) :
    Coherent (choosePreferences T s slots draft).state := by
  unfold BookingFlow.choosePreferences
  split
  · exact coherent_shows hd
  · exact coherent_asks hd hw

/-- A flight that a selection names is one of the search results. -/
theorem selected_mem {selection : Option Text} {results : List Flight}
    (h : extractSelectedFlight T selection results = some (some flight)) : flight ∈ results := by
  have hid : ∀ {p : Flight → Bool}, results.find? p = some flight → flight ∈ results :=
    List.mem_of_find?_eq_some
  unfold extractSelectedFlight at h
  split at h
  · cases h
  · simp only at h
    split at h
    · rename_i found hfound
      obtain ⟨k, -, hk⟩ := Option.bind_eq_some_iff.mp hfound
      obtain rfl : found = flight := by simpa using h
      exact List.mem_of_getElem? hk
    · split at h
      · obtain ⟨index, -, hindex⟩ := Option.map_eq_some_iff.mp h
        split at hindex
        · rcases Option.or_eq_some_iff.mp hindex with hget | ⟨-, hfind⟩
          · exact List.mem_of_getElem? hget
          · exact hid hfind
        · exact hid hindex
      · exact hid (Option.some.inj h)

/-- Every state that the program leaves is coherent, if the session is when the reply comes. -/
def Program.Keeps : Program → Prop
  | .done turn => Coherent turn.state
  | .create s _ resume => Coherent s ∧ ∀ reply now, Coherent now → (resume reply now).Keeps

theorem keeps_finalize (h : Coherent s) : (finalizeProgram s).Keeps := by
  unfold finalizeProgram
  split
  · rename_i hd
    simp only [Program.Keeps, finalizeBooking, hd]
    exact h
  · refine ⟨h, fun reply now hnow => ?_⟩
    cases reply with
    | record r => exact coherent_cleared rfl rfl
    | missing => exact hnow
    | failed error => exact hnow
    | cancelled => exact coherent_cleared rfl rfl

theorem keeps_confirm (h : Coherent s) : (confirmProgram T s slots).Keeps := by
  unfold confirmProgram confirm
  split
  · exact keeps_finalize (h.merge slots)
  · simp only
    split
    · contradiction
    · exact coherent_cleared rfl rfl
    · exact h.merge slots

theorem keeps_choose (h : Coherent s) (hw : s.waitingForConfirmation = false)
    {selected : Option Flight} (hs : ∀ f, selected = some f → f ∈ s.searchResults) :
    Coherent (choose T s slots selected).state := by
  unfold choose
  split
  · rename_i draft hd
    exact Coherent.choosePreferences (h.chosen draft hd) hw
  · rename_i flight _
    exact Coherent.choosePreferences (hs flight rfl) hw
  · exact h

theorem keeps_proceed (h : Coherent s) {selected : Option Flight}
    (hs : ∀ f, selected = some f → f ∈ s.searchResults) :
    (proceedProgram T s slots selected).Keeps := by
  unfold proceedProgram
  split
  · exact keeps_confirm h
  · rename_i hw
    exact keeps_choose h (by simpa using hw) hs

theorem keeps_advance (h : Coherent s) {selected : Option Flight}
    (hs : ∀ f, selected = some f → f ∈ s.searchResults) :
    (advanceProgram T s slots selected).Keeps := by
  unfold advanceProgram
  split
  · rename_i flight draft hd
    have hflight : flight ∈ s.searchResults := hs flight rfl
    split
    · simp only [Program.Keeps, changeFlight]
      split
      · exact coherent_asks (s := { s with waitingForConfirmation := false }) hflight rfl
      · exact coherent_shows hflight
    · exact keeps_proceed h hs
  · exact keeps_proceed h hs

theorem keeps_continue (h : Coherent s) : (continueProgram T s slots).Keeps := by
  unfold continueProgram
  split
  · rename_i hnone
    simp only [Program.Keeps, continueBooking, if_pos hnone]
    exact h
  · simp only
    split
    · exact h
    · rename_i selected hselected
      split
      · simp only [Program.Keeps, unmatched, Session.replies]
        split
        · exact coherent_cleared rfl rfl
        · exact h
      · refine keeps_advance h fun flight hflight => ?_
        subst hflight
        exact selected_mem hselected

theorem coherent_run {between : Session → Session} (hb : ∀ s, Coherent s → Coherent (between s))
    {p : Program} (h : p.Keeps) : Coherent (p.run reply between).1 := by
  induction p with
  | done turn => exact h
  | create s draft resume ih => exact ih reply _ (h.2 reply _ (hb s h.1))

theorem coherent_reset (s : Session) : Coherent s.resetSearchAndBooking :=
  coherent_cleared rfl rfl

theorem coherent_cancelPending (h : Coherent s) : Coherent (cancelPendingBooking s).1 := by
  unfold cancelPendingBooking
  split
  · exact coherent_reset s
  · exact h

theorem coherent_meanwhile (cancelled : Bool) (h : Coherent s) :
    Coherent (meanwhile cancelled s) := by
  unfold meanwhile
  split
  · exact coherent_cancelPending h
  · exact h

theorem coherent_search (h : Coherent s) (reply : SearchReply) :
    Coherent (flightSearch T s slots reply).state := by
  simp only [flightSearch]
  split
  · unfold searchFor
    split
    · exact coherent_cleared rfl rfl
    · exact h
    · exact coherent_reset s
  · exact h

/-- Step lemma: every branch of every call restores the invariant. -/
theorem coherent_runCall (h : Coherent s) (call : Call) : Coherent (runCall T s call).1 := by
  cases call with
  | search slots reply => exact coherent_search h reply
  | book slots reply cancelled =>
    exact coherent_run (fun _ => coherent_meanwhile cancelled) (keeps_continue h)
  | cancelPending => exact coherent_cancelPending h

theorem Coherent.searched (h : Coherent s) (hw : s.waitingForConfirmation = true) :
    s.searchResults ≠ [] := by
  obtain ⟨draft, hdraft⟩ := Option.isSome_iff_exists.mp (h.awaited hw)
  exact List.ne_nil_of_mem (h.chosen draft hdraft)

/-- The conversation without cancellations goes through coherent states too. -/
theorem coherent_after (T : TextOps) (ops : List Op) : Coherent (after T ops).1 := by
  induction ops using List.reverseRecOn with
  | nil => exact coherent_cleared rfl rfl
  | append_singleton ops op ih =>
    rw [after, List.foldl_append]
    change Coherent (step T (after T ops).1 op).state
    rw [← runCall_callOf]
    exact coherent_runCall ih (callOf op)

theorem coherent_stateAfter (T : TextOps) (calls : List Call) : Coherent (stateAfter T calls) := by
  induction calls using List.reverseRecOn with
  | nil => exact coherent_cleared rfl rfl
  | append_singleton calls call ih =>
    rw [stateAfter, List.foldl_append]
    exact coherent_runCall ih call

end Coherence

section Conclusions
variable {T : TextOps} {s : Session} {slots : Slots} {reply : CreateReply} {r : Result}

/-- A result that concludes a booking or a search goes with a state without a draft. -/
def Settled (s : Session) (r : Result) : Prop := Concludes r → s.bookingDraft = none

theorem settled_hint {p : Payload} (reason : String) (hr : p.reason = reason)
    (hs : p.status = "") (hne : reason ≠ "booking_cancelled")
    (hc : p.context = "booking" ∨ reason ≠ "tool_error") : Settled s (.payload p) := by
  rintro ⟨q, hq, hcases⟩
  obtain rfl := Result.payload.inj hq
  rcases hcases with h | h | ⟨h, hctx⟩
  · rw [hs] at h
    exact absurd h (by decide)
  · exact absurd (hr.symm.trans h) hne
  · rcases hc with hc | hc
    · rw [hc] at hctx
      exact absurd hctx (by decide)
    · exact absurd (hr.symm.trans h) hc

def Program.Settles : Program → Prop
  | .done turn => Settled turn.state turn.result
  | .create _ _ resume => ∀ reply now, (resume reply now).Settles

theorem settled_shows (draft : BookingDraft) :
    Settled (s.shows T draft).state (s.shows T draft).result :=
  settled_hint "confirm_required" rfl rfl (by decide) (.inl rfl)

theorem settles_finalize : (finalizeProgram s).Settles := by
  unfold finalizeProgram
  split
  · rename_i hd
    simp only [Program.Settles, finalizeBooking, hd]
    exact fun _ => hd
  · intro reply now
    cases reply with
    | record r => exact fun _ => rfl
    | missing => exact settled_hint "tool_error" rfl rfl (by decide) (.inl rfl)
    | failed error => exact settled_hint "tool_error" rfl rfl (by decide) (.inl rfl)
    | cancelled => exact fun _ => rfl

theorem settles_confirm : (confirmProgram T s slots).Settles := by
  unfold confirmProgram confirm
  split
  · exact settles_finalize
  · simp only
    split
    · contradiction
    · exact fun _ => rfl
    · exact settled_hint "confirm_required" rfl rfl (by decide) (.inl rfl)

theorem settled_choose (selected : Option Flight) :
    Settled (choose T s slots selected).state (choose T s slots selected).result := by
  have hprefs : ∀ draft, Settled (choosePreferences T s slots draft).state
      (choosePreferences T s slots draft).result := by
    intro draft
    unfold choosePreferences
    split
    · exact settled_shows _
    · exact settled_hint "params_optional" rfl rfl (by decide) (.inl rfl)
  unfold choose
  split
  · exact hprefs _
  · exact hprefs _
  · exact settled_hint "params_missing" rfl rfl (by decide) (.inl rfl)

theorem settles_proceed (selected : Option Flight) :
    (proceedProgram T s slots selected).Settles := by
  unfold proceedProgram
  split
  · exact settles_confirm
  · exact settled_choose selected

theorem settles_continue : (continueProgram T s slots).Settles := by
  unfold continueProgram
  split
  · rename_i hnone
    simp only [Program.Settles, continueBooking, if_pos hnone]
    exact settled_hint "missing_search_context" rfl rfl (by decide) (.inl rfl)
  · simp only
    split
    · rintro ⟨p, hp, -⟩
      cases hp
    · split
      · exact settled_hint "params_missing" rfl rfl (by decide) (.inl rfl)
      · unfold advanceProgram
        split
        · split
          · simp only [Program.Settles, changeFlight]
            split
            · exact settled_hint "params_optional" rfl rfl (by decide) (.inl rfl)
            · exact settled_shows _
          · exact settles_proceed _
        · exact settles_proceed _

theorem settled_run {between : Session → Session} {p : Program} (h : p.Settles) :
    Settled (p.run reply between).1 (p.run reply between).2 := by
  induction p with
  | done turn => exact h
  | create s draft resume ih => exact ih reply _ (h reply _)

theorem settled_search (reply : SearchReply) :
    Settled (flightSearch T s slots reply).state (flightSearch T s slots reply).result := by
  simp only [flightSearch]
  split
  · unfold searchFor
    split
    · exact fun _ => rfl
    · rintro ⟨p, hp, -⟩
      cases hp
    · exact fun _ => rfl
  · exact settled_hint "params_missing" rfl rfl (by decide) (.inr (by decide))

theorem settled_runCall (call : Call) (h : (runCall T s call).2 = some r) :
    Settled (runCall T s call).1 r := by
  cases call with
  | search slots reply =>
    obtain rfl := Option.some.inj h
    exact settled_search reply
  | book slots reply cancelled =>
    obtain rfl := Option.some.inj h
    exact settled_run settles_continue
  | cancelPending => cases h

end Conclusions

/-- What a call selects is a flight other than the draft's, or it raises. -/
def SelectsOther (T : TextOps) (s : Session) (slots : Slots) : Prop :=
  match extractSelectedFlight T (slot slots "flight_selected") s.searchResults, s.bookingDraft with
  | none, _ => True
  | some (some flight), some draft => flightIdentity flight ≠ flightIdentity draft.flight
  | some _, _ => False

/-- A call that declines what is to be confirmed leaves no draft, unless it selects another
flight. -/
theorem declined_clears (hs : Coherent s) (hw : s.waitingForConfirmation = true)
    (hno : boolSlot T slots "confirmed" = some false) (hother : ¬SelectsOther T s slots)
    (between : Session → Session) :
    ((continueProgram T s slots).run reply between).1.bookingDraft = none := by
  have hproceed : ∀ selected,
      ((proceedProgram T s slots selected).run reply between).1.bookingDraft = none := by
    intro selected
    simp only [proceedProgram, hw, if_true, confirmProgram, hno, Option.some.injEq,
      Bool.false_eq_true, if_false, confirm]
    rfl
  unfold SelectsOther at hother
  simp only [continueProgram, if_neg (hs.searched hw)]
  split
  · next hraises => simp [hraises] at hother
  · next selected hselected =>
    rw [hselected] at hother
    split
    · -- no result matches: the draft goes with the selection
      simp only [unmatched, hs.awaited hw, if_true]
      rfl
    · unfold advanceProgram
      split
      · next flight draft hdraft _ =>
        rw [hdraft] at hother
        rw [if_neg hother]
        exact hproceed _
      · exact hproceed _

/-- After any calls the booking fields are coherent; whatever call is next, a result that
concludes and a call that declines leave no draft, and a booking call makes one call of
`create_booking` at most. -/
theorem booking_fields_coherent (T : TextOps) (calls : List Call) :
    ((stateAfter T calls).waitingForConfirmation = true →
      ∃ draft, (stateAfter T calls).bookingDraft = some draft ∧
        draft.flight ∈ (stateAfter T calls).searchResults) ∧
    ¬ ((stateAfter T calls).waitingForPreferences = true ∧
      (stateAfter T calls).waitingForConfirmation = true) ∧
    (∀ call r, (runCall T (stateAfter T calls) call).2 = some r → Concludes r →
      (stateAfter T (calls ++ [call])).bookingDraft = none) ∧
    (∀ slots reply cancelled, (stateAfter T calls).waitingForConfirmation = true →
      boolSlot T slots "confirmed" = some false → ¬SelectsOther T (stateAfter T calls) slots →
        (stateAfter T (calls ++ [.book slots reply cancelled])).bookingDraft = none) ∧
    ∀ slots, (continueProgram T (stateAfter T calls) slots).AtMost 1 := by
  have hcoherent : Coherent (stateAfter T calls) := coherent_stateAfter T calls
  refine ⟨fun hw => ?_, hcoherent.apart, fun call r hr hc => ?_,
    fun slots reply cancelled hw hno hother => ?_, fun _ => atMost_continue⟩
  · obtain ⟨draft, hdraft⟩ := Option.isSome_iff_exists.mp (hcoherent.awaited hw)
    exact ⟨draft, hdraft, hcoherent.chosen draft hdraft⟩
  · have hsettled := settled_runCall call hr hc
    rw [stateAfter, List.foldl_append]
    exact hsettled
  · rw [stateAfter, List.foldl_append]
    exact declined_clears hcoherent hw hno hother (meanwhile cancelled)

end VoiceAgent.BookingState
