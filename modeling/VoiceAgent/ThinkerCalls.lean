import VoiceAgent.StreamingEvents
import VoiceAgent.Interleaving

/-!
`ThinkerBackend.call`: overlapping calls, and the runs they start. A call cancels the
active run, waits for its end and then installs a run of its own; the checks are not
repeated after the waits. Call `n` is a task of its own, and so is run `k`, whose
planner and tools are left open: between two awaits a run may change the booking state.
-/
namespace VoiceAgent.ThinkerCalls

open StreamingEvents Coroutine Interleaving

/-- How a run ended. -/
inductive Outcome
  | returned
  | cancelled
  | failed
  deriving DecidableEq

inductive Marker
  | thinkerStarted | intermediateResponse | thinkerCompleted | thinkerAborted
  deriving DecidableEq

structure LifecycleEvent where
  marker : Marker
  callId : ℕ
  query : Text := []
  reason : String := ""
  deriving DecidableEq

def maxLifecycleEvents : ℕ := 200

/-- `runs` lists the runs created, each by its call and query. What follows `outcome` is a
record of the run that no definition reads: the calls begun, who cancelled whose run, and
the changes of the booking state, each with the latest call at that time. -/
structure Thinker where
  activeTask : Option ℕ := none
  activeCallId : Option ℕ := none
  lifecycleEvents : List LifecycleEvent := []
  runs : List (ℕ × Text) := []
  cancelling : ℕ → Bool := fun _ => false
  outcome : ℕ → Option Outcome := fun _ => none
  calls : List ℕ := []
  cancels : List (ℕ × ℕ) := []
  changes : List (ℕ × Option ℕ) := []

namespace Thinker

def latest (s : Thinker) : Option ℕ := s.calls.getLast?

/-- The call that created run `k`. -/
def owner (s : Thinker) (k : ℕ) : Option ℕ := (s.runs[k]?).map Prod.fst

/-- Run `k` has been created and is not done. -/
def Unfinished (s : Thinker) (k : ℕ) : Prop := k < s.runs.length ∧ s.outcome k = none

instance (s : Thinker) (k : ℕ) : Decidable (s.Unfinished k) :=
  inferInstanceAs (Decidable (_ ∧ _))

def bounded (events : List LifecycleEvent) : List LifecycleEvent :=
  events.drop (events.length - maxLifecycleEvents)

def addEvent (s : Thinker) (e : LifecycleEvent) : Thinker :=
  { s with lifecycleEvents := bounded (s.lifecycleEvents ++ [e]) }

/-- `task.cancel()` -/
def cancel (s : Thinker) (k : ℕ) : Thinker :=
  if s.Unfinished k then { s with cancelling := Function.update s.cancelling k true } else s

end Thinker

/-- Where a task can be stopped; a call waits for the run before it or for its own. -/
inductive Site
  | idle
  | joining (run : ℕ)
  | starting
  | awaiting (run : ℕ)
  | finished
  | unborn
  | working
  | booking
  deriving DecidableEq

/-- `call` begins an invocation, whose callback awaits something or not. `segment` lets a
run go on to its next await, `book` to that of `create_booking`. -/
inductive Reply
  | go
  | failed
  | cancelled
  | call (query : Text) (awaits : Bool)
  | segment (changes : Bool)
  | book
  deriving DecidableEq

inductive Exception
  | error
  | cancelled
  deriving DecidableEq

abbrev Prog (α : Type) := Coro Exception Thinker Site Reply α

section Call

/-- What an await of a run comes back with. -/
def joined (reply : Reply) (outcome : Option Outcome) : Except Exception Unit :=
  if reply = .cancelled then .error .cancelled
  else match outcome with
    | some .cancelled => .error .cancelled
    | some .failed => .error .error
    | _ => .ok ()

/-- `cancel_active("new_thinker_call")` -/
def cancelActive (n : ℕ) (k : ℕ) : Prog Unit :=
  modify fun s => { s.cancel k with cancels := s.cancels ++ [(k, n)] }

/-- Abort the run before this call's own and wait for its end. Its `CancelledError` is
expected, unless it is this call that is being cancelled. -/
def supersede (n : ℕ) : Prog Unit := do
  let s ← get
  match s.activeTask with
  | none => pure ()
  | some previous =>
    if s.Unfinished previous then do
      cancelActive n previous
      let reply ← Coro.pause (.joining previous)
      let s ← get
      match joined reply (s.outcome previous) with
      | .ok _ => pure ()
      | .error .error => Coro.raise .error
      | .error .cancelled => if reply = .cancelled then Coro.raise .cancelled else pure ()
    else pure ()

def awaitCallback : Prog Unit := do
  let reply ← Coro.pause .starting
  match reply with
  | .cancelled => Coro.raise .cancelled
  | .failed => Coro.raise .error
  | _ => pure ()

def createRun (n : ℕ) (query : Text) : Prog ℕ := modifyGet fun s =>
  (s.runs.length, { s with
    runs := s.runs ++ [(n, query)]
    activeTask := some s.runs.length })

/-- `payload = await task`; an abort leaves an event behind. -/
def awaitPayload (n : ℕ) (query : Text) (k : ℕ) : Prog Unit := do
  let reply ← Coro.pause (.awaiting k)
  let s ← get
  match joined reply (s.outcome k) with
  | .ok _ => pure ()
  | .error .error => Coro.raise .error
  | .error .cancelled => do
    modify (·.addEvent
      { marker := .thinkerAborted, callId := n, query := query, reason := "new_user_query" })
    Coro.raise .cancelled

/-- The `finally` of `call`. -/
def clearActive (k : ℕ) : Prog Unit := modify fun s =>
  if s.activeTask = some k then { s with activeTask := none, activeCallId := none } else s

/-- `ThinkerBackend.call`, as invocation `n`. -/
def call (n : ℕ) (query : Text) (awaits : Bool) : Prog Unit := do
  let query := strip query
  modify fun s => { s with calls := s.calls ++ [n] }
  supersede n
  modify fun s => { s with activeCallId := some n }
  modify (·.addEvent { marker := .thinkerStarted, callId := n, query := query })
  if awaits then awaitCallback else pure ()
  let k ← createRun n query
  (awaitPayload n query k).ensure (clearActive k)

end Call

section Run

/-- What a task of the Thinker remembers from one turn to the next. -/
inductive Loop
  | idle
  | finished
  | unborn
  | working
  | booking
  deriving DecidableEq

def recordChange (k : ℕ) : Prog Unit := modify fun s =>
  { s with changes := s.changes ++ ((s.owner k).map fun n => (n, s.latest)).toList }

def endRun (k : ℕ) (outcome : Outcome) : Prog Loop := do
  modify fun s => { s with outcome := Function.update s.outcome k (some outcome) }
  pure .finished

/-- A cancelled run unwinds; one that waits for `create_booking` resets the booking first. -/
def unwind (k : ℕ) (loop : Loop) : Prog Loop := do
  if loop = .booking then recordChange k else pure ()
  endRun k .cancelled

/-- The end of `_run_call`, once the tools have produced a payload. -/
def complete (k : ℕ) : Prog Loop := do
  let s ← get
  match s.runs[k]? with
  | none => pure .unborn
  | some (n, query) => do
    modify (·.addEvent { marker := .intermediateResponse, callId := n, query := query })
    modify (·.addEvent { marker := .thinkerCompleted, callId := n, query := query })
    endRun k .returned

/-- One turn of run `k`. -/
def runTurn (k : ℕ) (loop : Loop) (reply : Reply) : Prog Loop := do
  let s ← get
  if s.Unfinished k then
    if s.cancelling k then unwind k loop
    else match reply with
      | .segment true => do
        recordChange k
        pure .working
      | .segment false => pure .working
      | .book => pure .booking
      | .failed => endRun k .failed
      | .go => complete k
      | _ => pure loop
  else pure loop

def callTurn (n : ℕ) (loop : Loop) (reply : Reply) : Prog Loop :=
  match loop, reply with
  | .idle, .call query awaits => do
    call n query awaits
    pure .finished
  | loop, _ => pure loop

inductive Task
  | call (n : ℕ)
  | run (k : ℕ)
  deriving DecidableEq

def thinker : System Exception Thinker Site Reply Task Loop where
  head _ loop := match loop with
    | .idle => .idle
    | .finished => .finished
    | .unborn => .unborn
    | .working => .working
    | .booking => .booking
  body t loop reply := match t with
    | .call n => callTurn n loop reply
    | .run k => runTurn k loop reply
  crash _ _ := .finished

abbrev ThinkerView := View Task Site Thinker

abbrev ThinkerPool := Pool Exception Thinker Site Reply Task Loop

def freshThinker : ThinkerPool :=
  thinker.start {} fun t => match t with
    | .call _ => .idle
    | .run _ => .unborn

/-- The run that a stopped call waits for. -/
def Site.waitsFor : Site → Option ℕ
  | .joining k | .awaiting k => some k
  | _ => none

/-- An await of a run comes back when the run is done. -/
def runsAwaited (v : ThinkerView) (t : Task) (_ : Reply) : Prop :=
  ∀ k ∈ (v.site t).waitsFor, v.shared.outcome k ≠ none

instance (v : ThinkerView) (t : Task) (i : Reply) : Decidable (runsAwaited v t i) :=
  inferInstanceAs (Decidable (∀ k ∈ _, _))

/-- From outside a run is only ever cancelled: through the call that awaits it, or by
`cancel_active`. -/
def cancelledOutside (v : ThinkerView) (s : Thinker) : Prop := ∃ k, s = v.shared.cancel k

end Run

end VoiceAgent.ThinkerCalls
