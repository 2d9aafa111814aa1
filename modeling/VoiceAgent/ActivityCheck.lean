import VoiceAgent.Interleaving
import Mathlib.Data.List.Range
import Mathlib.Data.List.Infix

/-!
`ActivityCheckProcessor`: two inactivity warnings, each with a watchdog, and the request that
ends the session. The frames come from outside, between two awaits; the timers, the watchdogs
and the disconnects are tasks, numbered as they are created. A task first awaits its delay.
-/
namespace VoiceAgent.ActivityCheck

open Coroutine Interleaving

/-- Whose speech the bot has finished: the final message's, the first warning's, or what was
said before it. The processor does not know. -/
inductive Speech
  | earlier
  | first
  | final
  deriving DecidableEq

/-- Why the session is to end. -/
inductive Cause
  | speech (s : Speech)
  | timeout (stage : ℕ)
  deriving DecidableEq

/-- The tasks: `_wait_for_check`, `_wait_for_warning_completion`, `_request_disconnect`. -/
inductive Kind
  | check
  | completion (stage : ℕ)
  | disconnect (cause : Cause)
  deriving DecidableEq

/-- A record that no definition reads. `requests` is the push of the `EndTaskFrame` begun, and
`endTask` the push done. -/
inductive Event
  | reset
  | fired (stage : ℕ)
  | requests (cause : Cause)
  | endTask (cause : Cause)
  deriving DecidableEq

/-- What a processor goes by, in a record that no definition reads either. The audio and the end
of a response are those of the oldest warning whose response has not ended. -/
inductive Heard
  | reset
  | fired (stage : ℕ)
  | audio (stage : ℕ)
  | lateAudio (stage : ℕ)
  | ended (stage : ℕ)
  | overdue (stage : ℕ)
  | missed (stage : ℕ)
  | timedOut
  | excused (speech : Speech)
  | stopped (speech : Speech)
  deriving DecidableEq

/-- The number of `_intervals`. -/
def stages : ℕ := 2

structure Check where
  stage : ℕ := 0
  disconnectAfterSpeech : Bool := false
  retiredWarningCompletions : ℕ := 0
  retiredWarningStage : Option ℕ := none
  pendingWarningResponseStages : List ℕ := []
  warningAudioStartedStages : List ℕ := []
  timer : Option ℕ := none
  warningCompletionTimer : Option ℕ := none
  disconnectTask : Option ℕ := none
  created : List Kind := []
  cancelling : List ℕ := []
  done : List ℕ := []
  log : List Event := []
  heard : List Heard := []

namespace Check

def note (s : Check) (e : Heard) : Check := { s with heard := s.heard ++ [e] }

def record (s : Check) (e : Event) : Check := { s with log := s.log ++ [e] }

/-- `create_task`; the new task has the number `s.created.length`. -/
def create (s : Check) (kind : Kind) : Check := { s with created := s.created ++ [kind] }

/-- `task.cancel()` for a task that there may be. -/
def cancel (s : Check) (task : Option ℕ) : Check :=
  { s with cancelling := s.cancelling ++ task.toList }

def cancelWarningCompletionTimer (s : Check) : Check :=
  { s.cancel s.warningCompletionTimer with warningCompletionTimer := none }

def cancelDisconnectTask (s : Check) : Check :=
  { s.cancel s.disconnectTask with disconnectTask := none }

def reset (s : Check) : Check :=
  let s := { s.cancel s.timer with timer := none }
  { s.cancelWarningCompletionTimer.cancelDisconnectTask with
    stage := 0
    disconnectAfterSpeech := false
    retiredWarningCompletions := 0
    retiredWarningStage := none
    pendingWarningResponseStages := []
    warningAudioStartedStages := [] }.record .reset |>.note .reset

theorem reset_eq (s : Check) : s.reset =
    { s with
      stage := 0
      disconnectAfterSpeech := false
      retiredWarningCompletions := 0
      retiredWarningStage := none
      pendingWarningResponseStages := []
      warningAudioStartedStages := []
      timer := none
      warningCompletionTimer := none
      disconnectTask := none
      cancelling := s.cancelling ++ s.timer.toList ++ s.warningCompletionTimer.toList ++
        s.disconnectTask.toList
      log := s.log ++ [.reset]
      heard := s.heard ++ [.reset] } := by
  simp [reset, record, note, cancel, cancelWarningCompletionTimer, cancelDisconnectTask]

def armTimer (s : Check) : Check :=
  let s := s.cancel s.timer
  if stages ≤ s.stage ∨ s.disconnectAfterSpeech then s
  else { s.create .check with timer := some s.created.length }

def start (s : Check) : Check := if s.timer = none then s.armTimer else s

def handleTtsStarted (s : Check) : Check :=
  match s.pendingWarningResponseStages with
  | [] => s
  | stage :: _ =>
    let s := { s with warningAudioStartedStages := s.warningAudioStartedStages.insert stage }
    if s.retiredWarningStage = some stage then
      { s with
        retiredWarningCompletions := s.retiredWarningCompletions + 1
        retiredWarningStage := none }.note (.lateAudio stage)
    else s.note (.audio stage)

def handleLlmResponseEnded (s : Check) : Check :=
  match s.pendingWarningResponseStages with
  | [] => s
  | stage :: rest =>
    let s :=
      { s with
        pendingWarningResponseStages := rest
        warningAudioStartedStages := s.warningAudioStartedStages.erase stage }
    (if s.retiredWarningStage = some stage then { s with retiredWarningStage := none }
      else s).note (.ended stage)

/-- `_schedule_disconnect` -/
def scheduleDisconnect (s : Check) (cause : Cause) : Check :=
  if ∀ k ∈ s.disconnectTask, k ∈ s.done then
    { s.create (.disconnect cause) with disconnectTask := some s.created.length }
  else s

def handleBotStoppedSpeaking (s : Check) (speech : Speech) : Check :=
  if s.retiredWarningCompletions ≠ 0 then
    { s with retiredWarningCompletions := s.retiredWarningCompletions - 1 }.note (.excused speech)
  else
    let s := s.cancelWarningCompletionTimer.note (.stopped speech)
    if s.disconnectAfterSpeech then
      { s with disconnectAfterSpeech := false }.scheduleDisconnect (.speech speech)
    else s.armTimer

end Check

/-- The frames that `process_frame` looks at, and the calls from outside. -/
inductive Input
  | userStartedSpeaking
  | botStoppedSpeaking (speech : Speech)
  | ttsStarted
  | llmResponseEnded
  | cancelFrame
  | endFrame
  | start
  | cleanup
  deriving DecidableEq

def Check.handle (s : Check) : Input → Check
  | .userStartedSpeaking | .cancelFrame | .endFrame | .cleanup => s.reset
  | .botStoppedSpeaking speech => s.handleBotStoppedSpeaking speech
  | .ttsStarted => s.handleTtsStarted
  | .llmResponseEnded => s.handleLlmResponseEnded
  | .start => s.start

/-- Where a task can be stopped: in its first delay, in `_on_warning`, in `push_frame`. -/
inductive Site
  | asleep
  | warning
  | pushing (cause : Cause)
  | finished
  deriving DecidableEq

inductive Reply
  | go
  | failed
  deriving DecidableEq

abbrev Prog (α : Type) := Coro Empty Check Site Reply α

section Tasks

/-- `_emit_warning` in task `k`. A failing callback leaves no response to wait for; a task that
is cancelled meanwhile ends there. -/
def emitWarning (k stage : ℕ) : Prog Unit := do
  modify fun s =>
    { s.create (.completion stage) with
      stage := stage
      disconnectAfterSpeech := stage = stages
      pendingWarningResponseStages := s.pendingWarningResponseStages ++ [stage]
      warningCompletionTimer := some s.created.length }.record (.fired stage) |>.note (.fired stage)
  let reply ← Coro.pause .warning
  modify fun s =>
    if k ∉ s.cancelling ∧ reply = .failed then
      { s with pendingWarningResponseStages := s.pendingWarningResponseStages.erase stage }
    else s

/-- `_wait_for_check`, once its delay is over. -/
def checkExpired (k : ℕ) : Prog Unit := do
  modify fun s => { s with timer := none }
  let s ← get
  emitWarning k (s.stage + 1)

/-- `_wait_for_warning_completion`, once its delay is over. -/
def completionExpired (k stage : ℕ) : Prog Unit := do
  let s ← get
  if s.stage ≠ stage then pure ()
  else do
    modify fun s => { s with warningCompletionTimer := none }
    if stage = stages then
      modify fun s =>
        { s with disconnectAfterSpeech := false }.scheduleDisconnect (.timeout stage)
          |>.note .timedOut
    else do
      modify fun s =>
        if stage ∈ s.warningAudioStartedStages then
          { s with
            retiredWarningCompletions := s.retiredWarningCompletions + 1 }.note (.overdue stage)
        else { s with retiredWarningStage := some stage }.note (.missed stage)
      emitWarning k (stage + 1)

/-- `_request_disconnect`; the push can still be cancelled. -/
def requestDisconnect (k : ℕ) (cause : Cause) : Prog Unit := do
  modify (·.record (.requests cause))
  let _ ← Coro.pause (.pushing cause)
  modify fun s => if k ∈ s.cancelling then s else s.record (.endTask cause)

def runTask (k : ℕ) : Kind → Prog Unit
  | .check => checkExpired k
  | .completion stage => completionExpired k stage
  | .disconnect cause => requestDisconnect k cause

inductive Loop
  | asleep
  | finished
  deriving DecidableEq

/-- A task that is cancelled in its first delay does nothing at all. -/
def turn (k : ℕ) (loop : Loop) (_ : Reply) : Prog Loop := do
  let s ← get
  match loop, s.created[k]? with
  | .asleep, some kind => do
    if k ∈ s.cancelling then pure () else runTask k kind
    modify fun s => { s with done := s.done ++ [k] }
    pure .finished
  | loop, _ => pure loop

def activity : System Empty Check Site Reply ℕ Loop where
  head _ loop := match loop with
    | .asleep => .asleep
    | .finished => .finished
  body := turn
  crash _ e := e.elim

abbrev CheckView := View ℕ Site Check

abbrev CheckPool := Pool Empty Check Site Reply ℕ Loop

def freshCheck : CheckPool := activity.start {} fun _ => .asleep

/-- The frames and calls from outside, those that `ok` lets through. -/
def outside (ok : Check → Input → Prop) (v : CheckView) (s : Check) : Prop :=
  ∃ input, ok v.shared input ∧ s = v.shared.handle input

end Tasks

end VoiceAgent.ActivityCheck
