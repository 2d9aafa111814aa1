import VoiceAgent.StreamingEvents
import VoiceAgent.Interleaving

/-!
`ThinkingController`: the queue of one request, the dispatch of a pass to the Thinker and the
answer spoken as a turn of its own. Every call of `start_pending` and every job response is a
task; `queue` and `clear_pending` come from outside, between two awaits. A job goes by the
number of the call that requests it, and the empty id is `none`.
-/
namespace VoiceAgent.ThinkingController

open StreamingEvents Coroutine Interleaving

structure Request where
  transcript : Text
  reason : Text
  deriving DecidableEq

inductive Status
  | running | done | error
  deriving DecidableEq

/-- The data of an `agent-task-update`. -/
structure Update where
  taskId : ℕ
  status : Status
  detail : Text
  agent : Text
  reasoning : Text := []
  deriving DecidableEq

inductive Frame
  | responseStart
  | text (t : Text)
  | responseEnd
  | update (u : Update)
  deriving DecidableEq

/-- What happens to the passes, as a record that no definition reads. -/
inductive Event
  | queued (request : Request)
  | cleared
  | starts (pass : ℕ) (request : Request)
  | failed (pass : ℕ)
  | dispatched (pass : ℕ)
  | answered (pass : ℕ)
  | speaks (pass : ℕ)
  deriving DecidableEq

structure Thinking where
  pending : Option Request := none
  active : Bool := false
  generation : ℕ := 0
  activeTaskId : Option ℕ := none
  frames : List Frame := []
  log : List Event := []

namespace Thinking

def record (s : Thinking) (e : Event) : Thinking := { s with log := s.log ++ [e] }

section Record
variable (s : Thinking) (e : Event)

@[simp] theorem record_pending : (s.record e).pending = s.pending := rfl

@[simp] theorem record_active : (s.record e).active = s.active := rfl

@[simp] theorem record_generation : (s.record e).generation = s.generation := rfl

@[simp] theorem record_activeTaskId : (s.record e).activeTaskId = s.activeTaskId := rfl

@[simp] theorem record_log : (s.record e).log = s.log ++ [e] := rfl

end Record

def queue (s : Thinking) (transcript reason : Text) : Thinking :=
  let cleaned := strip transcript
  if cleaned = [] then s
  else { s with pending := some ⟨cleaned, reason⟩ }.record (.queued ⟨cleaned, reason⟩)

def clearPending (s : Thinking) : Thinking :=
  { s with
    pending := none
    generation := s.generation + 1
    active := false
    activeTaskId := none }.record .cleared

end Thinking

/-- Where a call can be stopped: at `request_job` and at the delay before an answer, both with
the generation it has read, and at `queue_frame`. -/
inductive Site
  | idle
  | requesting (generation : ℕ)
  | delaying (pass generation : ℕ)
  | framing
  | finished
  deriving DecidableEq

/-- The `response` of a job, and the worker it comes from. -/
structure Response where
  response : Text := []
  reasoning : Text := []
  source : Text := []
  deriving DecidableEq

inductive Reply
  | go
  | failed
  | start
  | response (pass : ℕ) (r : Response)
  deriving DecidableEq

inductive Exception
  | error
  deriving DecidableEq

abbrev Prog (α : Type) := Coro Exception Thinking Site Reply α

section Calls

def agentName : Text := "omni_thinker".toList

def queueFrame (f : Frame) : Prog Unit := do
  modify fun s => { s with frames := s.frames ++ [f] }
  let reply ← Coro.pause .framing
  if reply = .failed then Coro.raise .error else pure ()

/-- `start_pending`, call `n`. -/
def startPending (n : ℕ) : Prog Unit := do
  let s ← get
  modify fun s => { s with pending := none }
  match s.pending with
  | none => pure ()
  | some request =>
    if s.active then pure ()
    else do
      modify fun s => { s with active := true }.record (.starts n request)
      let reply ← Coro.pause (.requesting s.generation)
      if reply = .failed then modify fun s => { s with active := false }.record (.failed n)
      else do
        modify (·.record (.dispatched n))
        let now ← get
        if s.generation ≠ now.generation then pure ()
        else do
          modify fun s => { s with activeTaskId := some n }
          queueFrame (.update
            { taskId := n, status := .running, detail := "Thinking it through...".toList
              agent := agentName })

def speak (pass : ℕ) (answer reasoning agent : Text) : Prog Unit := do
  modify (·.record (.speaks pass))
  queueFrame .responseStart
  queueFrame (.text answer)
  queueFrame .responseEnd
  queueFrame (.update
    { taskId := pass, status := .done, detail := answer, agent := agent, reasoning := reasoning })

/-- `handle_job_response`, which always says that it has handled the response. -/
def handleJobResponse (pass : ℕ) (r : Response) : Prog Unit := do
  modify (·.record (.answered pass))
  let s ← get
  if s.activeTaskId ≠ some pass then pure ()
  else do
    modify fun s => { s with active := false, activeTaskId := none }
    let answer := strip r.response
    let agent := if r.source = [] then agentName else r.source
    if answer = [] then
      queueFrame (.update
        { taskId := pass, status := .error, detail := "Thinking failed.".toList, agent := agent })
    else do
      let _ ← Coro.pause (.delaying pass s.generation)
      let now ← get
      if s.generation ≠ now.generation then pure ()
      else speak pass answer (strip r.reasoning) agent

end Calls

section System

inductive Task
  | start (n : ℕ)
  | respond (m : ℕ)
  deriving DecidableEq

/-- Whether a call has yet to begin. -/
inductive Loop
  | idle
  | finished
  deriving DecidableEq

def turn (t : Task) (loop : Loop) (reply : Reply) : Prog Loop :=
  match t, loop, reply with
  | .start n, .idle, .start => do
    startPending n
    pure .finished
  | .respond _, .idle, .response pass r => do
    handleJobResponse pass r
    pure .finished
  | _, loop, _ => pure loop

def thinking : System Exception Thinking Site Reply Task Loop where
  head _ loop := match loop with
    | .idle => .idle
    | .finished => .finished
  body := turn
  crash _ _ := .finished

abbrev ThinkingView := View Task Site Thinking

abbrev ThinkingPool := Pool Exception Thinking Site Reply Task Loop

def freshThinking : ThinkingPool := thinking.start {} fun _ => .idle

/-- `queue` and `clear_pending` -/
def outside (v : ThinkingView) (s : Thinking) : Prop :=
  (∃ transcript reason, s = v.shared.queue transcript reason) ∨ s = v.shared.clearPending

end System

section Records

def begun (passes : List ℕ) : Event → List ℕ
  | .starts n _ => n :: passes
  | .cleared => []
  | _ => passes

/-- The passes whose dispatch has begun since the last `clear_pending`. -/
def current (log : List Event) : List ℕ := log.foldl begun []

def requeue (request : Option Request) : Event → Option Request
  | .queued r => some r
  | .starts _ _ | .cleared => none
  | _ => request

/-- The request that is queued, as `queue`, `clear_pending` and the dispatches leave it. -/
def waiting (log : List Event) : Option Request := log.foldl requeue none

theorem current_snoc (log : List Event) (e : Event) :
    current (log ++ [e]) = begun (current log) e := by
  simp [current, List.foldl_append]

theorem waiting_snoc (log : List Event) (e : Event) :
    waiting (log ++ [e]) = requeue (waiting log) e := by
  simp [waiting, List.foldl_append]

end Records

end VoiceAgent.ThinkingController
