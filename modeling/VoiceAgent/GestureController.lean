import VoiceAgent.ActionEnvelope
import VoiceAgent.ServiceSettings
import Mathlib.Algebra.Order.Ring.Unbundled.Rat

/-!
The gating of webcam gestures: what one scored observation makes of the controller, and when it
drives an action. Two frames are to confirm a thumb, but the count of frames outlives those that
are dropped before it is looked at.
-/
namespace VoiceAgent.GestureController

open StreamingEvents JsonValues SessionView ServiceSettings ActionEnvelope

section Gestures
variable (F : Floats) (T : TextOps)

/-- The intents; `goOn` is "continue". -/
inductive Intent
  | none | greet | stop | goOn | down
  deriving DecidableEq

def visualControlIntents : List (Text × Intent) :=
  [("none".toList, .none), ("greet".toList, .greet), ("stop".toList, .stop),
    ("continue".toList, .goOn), ("down".toList, .down)]

structure VisualControl where
  intent : Intent
  confidence : ℚ
  reason : Text

/-- `str(record.get(key) or default)`, stripped. -/
def textOr (record : Fields) (key : String) (default : Text) : Text :=
  let value := record.get? key
  strip (if truthy value then (value.map T.strOf).getD [] else default)

/-- `float(record.get("confidence") or 0.0)`, 0.0 where that is no number. -/
def readConfidence (record : Fields) : Except Raised Worth :=
  match record.get? "confidence" with
  | some (.bool true) => .ok (.finite 1)
  | some value =>
    if truthy (some value) then do
      match ← toFloat F value with
      | some text => return F.worth text
      | none => return .finite 0
    else .ok (.finite 0)
  | none => .ok (.finite 0)

/-- `min(1.0, max(0.0, confidence))`. -/
def clampUnit : Worth → ℚ
  | .finite q => min 1 (max 0 q)
  | .posInf => 1
  | .nan | .negInf => 0

/-- `normalize_visual_control`; it raises where `float` overflows. -/
def normalizeVisualControl (payload : Json) : Except Raised VisualControl := do
  let record := match payload with
    | .obj fields => fields
    | _ => .nil
  let confidence ← readConfidence F record
  return {
    intent := (visualControlIntents.lookup
      (T.lower (textOr T record "intent" "none".toList))).getD .none
    confidence := clampUnit confidence
    reason := textOr T record "reason" [] }

end Gestures

section Controller

/-- What `handle` is given and what it meets: `now` is what `time.monotonic()` reads. -/
structure Observation where
  visualControl : Json
  frame : Fields := .nil
  now : ℚ
  assistantSpeaking : Bool := false
  userSpeaking : Bool := false

inductive Action
  | greet
  | bargeIn
  | resumeOrCompliment (resume : Bool)
  | acknowledgeFeedback
  deriving DecidableEq

/-- The client message of `_emit_action`. -/
structure ControlUpdate where
  action : Text
  state : Text
  visualControl : VisualControl
  frame : Fields

structure Acted where
  action : Action
  update : ControlUpdate

/-- `ProactiveGestureController`; a time is none where Python has `-inf`. -/
structure Controller where
  lastIntent : Intent := .none
  candidateIntent : Intent := .none
  candidateCount : ℕ := 0
  lastActionAt : Option ℚ := none
  lastInterruptedAt : Option ℚ := none

variable (F : Floats) (T : TextOps)

/-- `_GESTURE_CONFIDENCE`, the numbers as Python reads them. -/
def gestureConfidence : Intent → Worth
  | .none => .finite 0
  | .greet => F.worth "0.85"
  | .stop => F.worth "0.75"
  | .goOn | .down => F.worth "0.9"

def gestureConfirmations : Intent → ℕ
  | .goOn | .down => 2
  | _ => 1

def cooldownSeconds : ℚ := 5

def resumeWindowSeconds : ℚ := 30

/-- The observation is less sure of its gesture than the gesture asks for. -/
def unsure (control : VisualControl) : Bool :=
  Worth.lt (.finite control.confidence) (gestureConfidence F control.intent)

variable (s : Controller) (control : VisualControl) (o : Observation)

def Controller.coolingDown (now : ℚ) : Bool :=
  s.lastActionAt.any fun t => decide (now - t < cooldownSeconds)

def Controller.resumes (now : ℚ) : Bool :=
  s.lastInterruptedAt.any fun t => decide (now - t ≤ resumeWindowSeconds)

def Controller.forgetCandidate : Controller :=
  { s with candidateIntent := .none, candidateCount := 0 }

def Controller.countCandidate (intent : Intent) : Controller :=
  if intent = s.candidateIntent then { s with candidateCount := s.candidateCount + 1 }
  else { s with candidateIntent := intent, candidateCount := 1 }

def emitAction (action state : String) : ControlUpdate where
  action := action.toList
  state := state.toList
  visualControl := control
  frame := o.frame

def Controller.onGreet : Controller × Option Acted :=
  if o.assistantSpeaking || o.userSpeaking then (s, none)
  else ({ s with lastActionAt := some o.now },
    some ⟨.greet, emitAction control o "greet" "greeted"⟩)

def Controller.onStop : Controller × Option Acted :=
  if !o.assistantSpeaking then (s, none)
  else ({ s with lastActionAt := some o.now, lastInterruptedAt := some o.now },
    some ⟨.bargeIn, emitAction control o "stop" "barged_in"⟩)

def Controller.onContinue : Controller × Option Acted :=
  if o.assistantSpeaking || o.userSpeaking then (s, none)
  else
    let resume := s.resumes o.now
    ({ s with
        lastActionAt := some o.now
        lastInterruptedAt := if resume then none else s.lastInterruptedAt },
      some ⟨.resumeOrCompliment resume,
        emitAction control o "continue" (if resume then "resumed" else "acknowledged")⟩)

def Controller.onDown : Controller × Option Acted :=
  if o.assistantSpeaking || o.userSpeaking then (s, none)
  else ({ s with lastActionAt := some o.now },
    some ⟨.acknowledgeFeedback, emitAction control o "down" "noted"⟩)

def Controller.act : Controller × Option Acted :=
  match control.intent with
  | .none => (s, none)
  | .greet => s.onGreet control o
  | .stop => s.onStop control o
  | .goOn => s.onContinue control o
  | .down => s.onDown control o

/-- `handle`. -/
def Controller.handle : Controller × Option Acted :=
  match normalizeVisualControl F T o.visualControl with
  | .error _ => (s, none)
  | .ok control =>
    let intent := control.intent
    if intent = .none then ({ s.forgetCandidate with lastIntent := .none }, none)
    else if intent = s.lastIntent then (s, none)
    else if intent ≠ .stop ∧ s.coolingDown o.now then (s, none)
    else if unsure F control then (s.forgetCandidate, none)
    else
      let counted := s.countCandidate intent
      if counted.candidateCount < gestureConfirmations intent then (counted, none)
      else
        let (after, acted) := counted.act control o
        ({ after.forgetCandidate with
            lastIntent := if acted.isSome then intent else after.lastIntent }, acted)

end Controller

section Steps
variable {F : Floats} {T : TextOps} {s : Controller} {control : VisualControl} {o : Observation}

/-- The gesture that an action answers. -/
def Action.intent : Action → Intent
  | .greet => .greet
  | .bargeIn => .stop
  | .resumeOrCompliment _ => .goOn
  | .acknowledgeFeedback => .down

/-- The times after an action. -/
def Controller.noted (s : Controller) (action : Action) (now : ℚ) : Controller :=
  { s with
    lastActionAt := some now
    lastInterruptedAt :=
      if action = .bargeIn then some now
      else if action = .resumeOrCompliment true then none else s.lastInterruptedAt }

@[simp] theorem noted_lastActionAt (action : Action) (now : ℚ) :
    (s.noted action now).lastActionAt = some now := rfl

@[simp] theorem noted_lastIntent (action : Action) (now : ℚ) :
    (s.noted action now).lastIntent = s.lastIntent := rfl

@[simp] theorem countCandidate_lastIntent (intent : Intent) :
    (s.countCandidate intent).lastIntent = s.lastIntent := by
  unfold Controller.countCandidate
  split <;> rfl

@[simp] theorem countCandidate_lastActionAt (intent : Intent) :
    (s.countCandidate intent).lastActionAt = s.lastActionAt := by
  unfold Controller.countCandidate
  split <;> rfl

@[simp] theorem countCandidate_lastInterruptedAt (intent : Intent) :
    (s.countCandidate intent).lastInterruptedAt = s.lastInterruptedAt := by
  unfold Controller.countCandidate
  split <;> rfl

@[simp] theorem countCandidate_candidateIntent (intent : Intent) :
    (s.countCandidate intent).candidateIntent = intent := by
  unfold Controller.countCandidate
  split
  · exact (‹intent = s.candidateIntent›).symm
  · rfl

/-- A second frame is counted onto a first of the same gesture only. -/
theorem candidate_of_two_le {intent : Intent}
    (h : 2 ≤ (s.countCandidate intent).candidateCount) :
    0 < s.candidateCount ∧ s.candidateIntent = intent := by
  unfold Controller.countCandidate at h
  split at h
  · rename_i heq
    exact ⟨Nat.le_of_succ_le_succ h, heq.symm⟩
  · exact absurd h (by simp)

/-- An action is gated out, or answers the gesture and is noted; a thumbs-up is a resume within
the window. -/
theorem act_cases (s : Controller) (control : VisualControl) (o : Observation) :
    s.act control o = (s, none) ∨
      ∃ acted, s.act control o = (s.noted acted.action o.now, some acted) ∧
        acted.action.intent = control.intent ∧
        (acted.action = .resumeOrCompliment true → s.resumes o.now = true) := by
  unfold Controller.act
  cases hintent : control.intent with
  | none => exact .inl rfl
  | greet =>
    dsimp only
    unfold Controller.onGreet
    split
    · exact .inl rfl
    · exact .inr ⟨⟨.greet, _⟩, rfl, rfl, by simp⟩
  | stop =>
    dsimp only
    unfold Controller.onStop
    split
    · exact .inl rfl
    · exact .inr ⟨⟨.bargeIn, _⟩, rfl, rfl, by simp⟩
  | goOn =>
    dsimp only
    unfold Controller.onContinue
    split
    · exact .inl rfl
    · cases hresume : s.resumes o.now with
      | true => exact .inr ⟨⟨.resumeOrCompliment true, _⟩, rfl, rfl, fun _ => rfl⟩
      | false => exact .inr ⟨⟨.resumeOrCompliment false, _⟩, rfl, rfl, by simp⟩
  | down =>
    dsimp only
    unfold Controller.onDown
    split
    · exact .inl rfl
    · exact .inr ⟨⟨.acknowledgeFeedback, _⟩, rfl, rfl, by simp⟩

/-- A fresh and sure gesture, with the cooldown over. -/
structure Ready (F : Floats) (T : TextOps) (s : Controller) (o : Observation)
    (control : VisualControl) : Prop where
  read : normalizeVisualControl F T o.visualControl = .ok control
  fresh : control.intent ≠ s.lastIntent
  rested : control.intent = .stop ∨ s.coolingDown o.now = false
  sure : unsure F control = false

/-- The observation is dropped before the candidate is looked at: it raises, its gesture is held,
or the cooldown is not over. -/
def drops (F : Floats) (T : TextOps) (s : Controller) (o : Observation) : Bool :=
  match normalizeVisualControl F T o.visualControl with
  | .error _ => true
  | .ok control => control.intent ≠ .none && (control.intent = s.lastIntent ||
    (control.intent ≠ .stop && s.coolingDown o.now))

theorem drops_of_raised {e : Raised}
    (h : normalizeVisualControl F T o.visualControl = .error e) : drops F T s o = true := by
  simp [drops, h]

theorem drops_iff (h : normalizeVisualControl F T o.visualControl = .ok control) :
    drops F T s o = true ↔ control.intent ≠ .none ∧ (control.intent = s.lastIntent ∨
      control.intent ≠ .stop ∧ s.coolingDown o.now = true) := by
  simp [drops, h]

/-- Everything that an observation can come to. -/
inductive Handled (F : Floats) (T : TextOps) (s : Controller) (o : Observation) :
    Controller → Option Acted → Prop
  | dropped (h : drops F T s o = true) : Handled F T s o s none
  | nothing (control : VisualControl)
      (h : normalizeVisualControl F T o.visualControl = .ok control)
      (quiet : control.intent = .none) :
      Handled F T s o { s.forgetCandidate with lastIntent := .none } none
  | unsure (control : VisualControl)
      (h : normalizeVisualControl F T o.visualControl = .ok control) :
      Handled F T s o s.forgetCandidate none
  | awaiting (control : VisualControl) (h : Ready F T s o control) :
      Handled F T s o (s.countCandidate control.intent) none
  | gated (control : VisualControl) (h : Ready F T s o control) :
      Handled F T s o (s.countCandidate control.intent).forgetCandidate none
  | acted (control : VisualControl) (h : Ready F T s o control) (acted : Acted)
      (counted : gestureConfirmations control.intent ≤
        (s.countCandidate control.intent).candidateCount)
      (answers : acted.action.intent = control.intent)
      (resumes : acted.action = .resumeOrCompliment true → s.resumes o.now = true) :
      Handled F T s o
        { ((s.countCandidate control.intent).noted acted.action o.now).forgetCandidate with
          lastIntent := control.intent }
        (some acted)

/-- Step lemma. -/
theorem handled (F : Floats) (T : TextOps) (s : Controller) (o : Observation) :
    Handled F T s o (s.handle F T o).1 (s.handle F T o).2 := by
  unfold Controller.handle
  cases hread : normalizeVisualControl F T o.visualControl with
  | error e => exact .dropped (drops_of_raised hread)
  | ok control =>
    by_cases hnone : control.intent = .none
    · simp only [if_pos hnone]
      exact .nothing control hread hnone
    by_cases hheld : control.intent = s.lastIntent
    · simp only [if_neg hnone, if_pos hheld]
      exact .dropped ((drops_iff hread).mpr ⟨hnone, .inl hheld⟩)
    by_cases hcool : control.intent ≠ .stop ∧ s.coolingDown o.now = true
    · simp only [if_neg hnone, if_neg hheld, if_pos hcool]
      exact .dropped ((drops_iff hread).mpr ⟨hnone, .inr hcool⟩)
    by_cases hunsure : GestureController.unsure F control = true
    · simp only [if_neg hnone, if_neg hheld, if_neg hcool, if_pos hunsure]
      exact .unsure control hread
    have hready : Ready F T s o control :=
      ⟨hread, hheld, or_iff_not_imp_left.mpr fun hstop => by simpa [hstop] using hcool,
        by simpa using hunsure⟩
    by_cases hcount :
        (s.countCandidate control.intent).candidateCount < gestureConfirmations control.intent
    · simp only [if_neg hnone, if_neg hheld, if_neg hcool, if_neg hunsure, if_pos hcount]
      exact .awaiting control hready
    simp only [if_neg hnone, if_neg hheld, if_neg hcool, if_neg hunsure, if_neg hcount]
    obtain hact | ⟨acted, hact, hanswers, hresumes⟩ :=
      act_cases (s.countCandidate control.intent) control o
    · rw [hact]
      exact .gated control hready
    · rw [hact]
      refine .acted control hready acted (Nat.le_of_not_lt hcount) hanswers fun h => ?_
      simpa [Controller.resumes] using hresumes h

end Steps

end VoiceAgent.GestureController
