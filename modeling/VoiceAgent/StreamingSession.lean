import VoiceAgent.EngineRequest
import VoiceAgent.Interleaving

/-!
`StreamingSession`: one caller's session on the shared engine. `serve` handles the
client's events one after the other, each commit starts a response task of its own,
and the engine works on the requests that the session has made. An engine request is
named by a number, and so is a response task: task `n` streams `answers[n]`.
A send writes at once, so the lock around it is left out.
-/
namespace VoiceAgent.StreamingSession

open StreamingEvents EngineRequest Coroutine Interleaving

/-- The fields of the session and the objects it has made; `ended` is `done()` of a response
task. What follows `minted` is a record of the run that no definition reads. -/
structure Session where
  request : SessionRequest := {}
  text : Text := []
  prefillParams : Option SamplingParams := none
  engine : Option ℕ := none
  standby : Option ℕ := none
  responseTask : Option ℕ := none
  requests : ℕ → Request := fun _ => {}
  allocated : ℕ := 0
  answers : List Answer := []
  ended : ℕ → Bool := fun _ => false
  minted : ℕ := 0
  received : List ClientEvent := []
  sent : List ServerEvent := []
  commits : List (ResponseId × ChatRequest) := []
  rendered : List (ChatRequest × List Token) := []
  failures : List Failure := []
  cancels : List (Option ResponseId × Option Answer) := []

namespace Session

/-- The answer that `_cancel_response` would stop. -/
def streaming (s : Session) : Option Answer :=
  s.responseTask.bind fun n => if s.ended n then none else s.answers[n]?

/-- The user text buffer and the conversation of the session. -/
def buffer (s : Session) : Buffer := ⟨s.text, s.request⟩

def onRequest (s : Session) (k : ℕ) (f : Request → Request) : Session :=
  { s with requests := Function.update s.requests k (f (s.requests k)) }

end Session

/-- What a render is for; a follow-up holds the standby request in a local variable. -/
inductive Purpose
  | prefill
  | commit (response : ResponseId)
  | followUp (holding : ℕ)
  deriving DecidableEq

/-- Where a coroutine of the session can be stopped. -/
inductive Site
  | accepting
  | receiving
  | closed
  | rendering (purpose : Purpose) (request : ChatRequest)
  | joining (answer : ℕ)
  | stopping (request : ℕ)
  | aborting (request : ℕ)
  | sending (event : ServerEvent)
  | flushing
  | unstarted
  | streaming
  | finished
  | engine
  deriving DecidableEq

/-- The response task that a stopped coroutine waits for. -/
def Site.joins : Site → Option ℕ
  | .joining n => some n
  | _ => none

/-- The engine request that a stopped response task holds in a local variable. -/
def Site.holds : Site → Option ℕ
  | .rendering (.followUp k) _ => some k
  | _ => none

/-- `unusable` is a render whose token ids cannot be extracted. -/
inductive Reply
  | go
  | failed (message : String)
  | cancelled
  | receive (event : ClientEvent)
  | disconnected
  | rendered (conversation : List ChatMessage) (tokens : List Token)
  | unusable (message : String)
  | chunk (chunk : Chunk)
  | blank
  | streamEnd
  | engine (request : ℕ) (act : EngineAct)
  deriving DecidableEq

inductive Exception
  | error (message : String)
  | cancelled
  deriving DecidableEq

/-- What an await raises when it does not come back with a result. -/
def Reply.exception : Reply → Exception
  | .cancelled => .cancelled
  | .failed message | .unusable message => .error message
  | _ => .error ""

abbrev Prog (α : Type) := Coro Exception Session Site Reply α

/-- `async with` the lock, `suppress(Exception)` around the write and its flush. -/
def send (event : ServerEvent) : Prog Unit := do
  let reply ← Coro.pause (.sending event)
  match reply with
  | .cancelled => Coro.raise .cancelled
  | .failed _ => pure ()
  | _ => do
    modify fun s => { s with sent := s.sent ++ [event] }
    let reply ← Coro.pause .flushing
    if reply = .cancelled then Coro.raise .cancelled else pure ()

section EngineRequests

/-- `_EngineRequest(self.engine)` -/
def newRequest : Prog ℕ := modifyGet fun s => (s.allocated, { s with allocated := s.allocated + 1 })

/-- `_EngineRequest.feed` -/
def feedRequest (k : ℕ) (tokens : List Token) (answer : Option Answer) : Prog Unit :=
  modify fun s => s.onRequest k (·.feed tokens s.prefillParams answer)

/-- `_EngineRequest.stop`, which waits for the task whatever comes of it. -/
def stopRequest (k : ℕ) : Prog Unit := do
  let s ← get
  modify (·.onRequest k Request.stop)
  if (s.requests k).task then do
    let _ ← Coro.pause (.stopping k)
    let reply ← Coro.pause (.aborting k)
    if reply = .cancelled then Coro.raise .cancelled else pure ()
  else pure ()

def stopEngine : Prog Unit := do
  let s ← get
  modify fun s => { s with engine := none }
  match s.engine with
  | none => pure ()
  | some k => stopRequest k

def stopStandby : Prog Unit := do
  let s ← get
  modify fun s => { s with standby := none }
  match s.standby with
  | none => pure ()
  | some k => stopRequest k

end EngineRequests

section Serve
variable (vllm : Vllm)

/-- `ChatCompletionRequest(**payload)`, which validates. -/
def validate (request : ChatRequest) : Prog Unit :=
  match vllm.invalid request with
  | some message => Coro.raise (.error message)
  | none => pure ()

def render (purpose : Purpose) (request : ChatRequest) :
    Prog (List ChatMessage × List Token) := do
  let reply ← Coro.pause (.rendering purpose request)
  match reply with
  | .rendered conversation tokens => do
    modify fun s => { s with
      prefillParams := some (prefillParams request)
      rendered := s.rendered ++ [(request, tokens)] }
    pure (conversation, tokens)
  | .unusable message => do
    modify fun s => { s with prefillParams := some (prefillParams request) }
    Coro.raise (.error message)
  | reply => Coro.raise reply.exception

/-- Stop an answer still streaming, along with the engine request generating it. -/
def cancelResponse : Prog Unit := do
  let s ← get
  modify fun s => { s with responseTask := none }
  match s.responseTask with
  | none => pure ()
  | some n =>
    if s.ended n then pure ()
    else do
      let _ ← Coro.pause (.joining n)
      stopEngine

/-- `if self._engine is None: self._engine = _EngineRequest(...)` -/
def ensureEngine : Prog ℕ := do
  let s ← get
  match s.engine with
  | some k => pure k
  | none => do
    let k ← newRequest
    modify fun s => { s with engine := some k }
    pure k

/-- A prompt that no longer extends the engine's starts a new request. -/
def feed (tokens : List Token) (answer : Option Answer) : Prog Unit := do
  let s ← get
  if s.engine.any fun k => !(s.requests k).extendedBy tokens then stopEngine else pure ()
  let k ← ensureEngine
  feedRequest k tokens answer

/-- Queue new input, which supersedes an answer still streaming. -/
def append (tokens : List Token) (answer : Option Answer) : Prog Unit := do
  cancelResponse
  feed tokens answer

def prefill : Prog Unit := do
  let s ← get
  if userText s.text false = [] then pure ()
  else do
    let request := chatRequest s.request s.text false
    validate vllm request
    let (_, tokens) ← render .prefill request
    append tokens none

def answerParams (request : ChatRequest) (promptLen : ℕ) : Prog SamplingParams :=
  match vllm.answerParams request promptLen with
  | .error message => Coro.raise (.error message)
  | .ok params => pure params

/-- `create_task(self._respond(answer))` -/
def startResponse (answer : Answer) : Prog Unit :=
  modify fun s => { s with
    answers := s.answers ++ [answer]
    responseTask := some s.answers.length }

def commit (response : ResponseId) : Prog Unit := do
  let s ← get
  let request := chatRequest s.request s.text true
  modify fun s => { s with commits := s.commits ++ [(response, request)] }
  validate vllm request
  let (conversation, tokens) ← render (.commit response) request
  let params ← answerParams vllm request tokens.length
  let answer : Answer := ⟨s.answers.length, response, request, conversation, params, tokens⟩
  append tokens (some answer)
  modify fun s => { s with text := [] }
  startResponse answer

/-- `str(event.get("response_id") or uuid4())` -/
def responseName : Option ResponseId → Prog ResponseId
  | some response => pure response
  | none => modifyGet fun s => (.minted s.minted, { s with minted := s.minted + 1 })

def handle : ClientEvent → Prog Unit
  | .update request => do
    modify fun s => { s with request := request }
    prefill vllm
  | .append text => do
    modify fun s => { s with text := s.text ++ text }
    prefill vllm
  | .clear => modify fun s => { s with text := [] }
  | .commit response => do
    let name ← responseName response
    commit vllm name
  | .cancel response => do
    modify fun s => { s with cancels := s.cancels ++ [(response, s.streaming)] }
    cancelResponse
  | .unknown type => send (.error ("Unknown event type: " ++ type) "unknown_event" .other)
  | .malformed message => Coro.raise (.error message)

/-- One turn of the loop of `serve`; an event that fails is answered with an error. -/
def serveEvent (event : ClientEvent) : Prog Unit := do
  modify fun s => { s with received := s.received ++ [event] }
  (handle vllm event).handle fun e => match e with
    | .cancelled => Coro.raise .cancelled
    | .error message => do
      modify fun s => { s with failures := s.failures ++ [event.failure] }
      send (.error message "processing_error" event.failure)

/-- The `finally` of `serve`. -/
def closeSession : Prog Unit := do
  cancelResponse
  stopEngine
  stopStandby

end Serve

section Respond

/-- Prefill the answer's prompt on a second request while the answer still streams. -/
def startStandby (answer : Answer) : Prog Unit := do
  let s ← get
  match s.standby with
  | some _ => pure ()
  | none => do
    let k ← newRequest
    modify fun s => { s with standby := some k }
    feedRequest k answer.promptTokenIds none

/-- Render the conversation ending with the answer as the client sends it back. -/
def renderWithAnswer (holding : ℕ) (answer : Answer) (message : ChatMessage) :
    Prog (List Token) := do
  let request := { answer.request with
    messages := answer.request.messages ++ [message]
    addGenerationPrompt := false }
  let (_, tokens) ← render (.followUp holding) request
  pure tokens

/-- The standby takes the conversation over, with the answer appended. -/
def handOver (answer : Answer) (message : ChatMessage) : Prog Unit := do
  startStandby answer
  let s ← get
  modify fun s => { s with standby := none }
  match s.standby with
  | none => pure ()
  | some standby => do
    let tokens ← renderWithAnswer standby answer message
    let s ← get
    let standby ← if (s.requests standby).extendedBy tokens then pure standby
      else do
        stopRequest standby
        newRequest
    feedRequest standby tokens none
    let s ← get
    modify fun s => { s with engine := some standby }
    match s.engine with
    | none => pure ()
    | some finished => stopRequest finished

/-- What a task of the session remembers from one turn to the next. -/
inductive Loop
  | accepting
  | serving
  | closed
  | unstarted
  | streaming (message : ChatMessage) (calledTool : Bool)
  | finished
  | engine

/-- One event of the answer's stream. -/
def streamChunk (answer : Answer) (message : ChatMessage) (calledTool : Bool) (chunk : Chunk) :
    Prog Loop := do
  let message := chunk.choices.foldl (fun message choice => addDelta message choice.delta) message
  if message.toolCalls = [] then pure () else startStandby answer
  let calledTool := calledTool || chunk.choices.any fun choice =>
    choice.finishReason == some .toolCalls
  send (.delta answer.responseId chunk)
  pure (.streaming message calledTool)

def endOfStream (answer : Answer) (message : ChatMessage) (calledTool : Bool) : Prog Loop := do
  if calledTool then handOver answer message else pure ()
  send (.done answer.responseId)
  pure .finished

/-- One turn of the loop of `_respond`, inside its `try`. -/
def respondTurn (answer : Answer) (message : ChatMessage) (calledTool : Bool) :
    Reply → Prog Loop
  | .chunk chunk => streamChunk answer message calledTool chunk
  | .blank => pure (.streaming message calledTool)
  | .streamEnd => endOfStream answer message calledTool
  | reply => Coro.raise reply.exception

/-- `except Exception` reports the failure; `finally` stops the standby on every way out. -/
def guardResponse (answer : Answer) (turn : Prog Loop) : Prog Loop := do
  let next ← (turn.handle fun e => match e with
    | .cancelled => Coro.raise .cancelled
    | .error message => do
      modify fun s => { s with failures := s.failures ++ [.answer answer.responseId] }
      send (.error message "processing_error" (.answer answer.responseId))
      pure .finished).attempt
  match next with
  | .ok (.streaming message calledTool) => pure (.streaming message calledTool)
  | .ok _ => do
    stopStandby
    pure .finished
  | .error e => do
    stopStandby
    Coro.raise e

/-- A response task that is cancelled before it has started never runs. -/
def respond (answer : Answer) : Loop → Reply → Prog Loop
  | .unstarted, .go => pure (.streaming { role := .assistant } false)
  | .streaming message calledTool, reply =>
    guardResponse answer (respondTurn answer message calledTool reply)
  | _, reply => Coro.raise reply.exception

end Respond

section Tasks
variable (vllm : Vllm)

inductive Task
  | serve
  | respond (n : ℕ)
  | engine
  deriving DecidableEq

def serveTurn : Loop → Reply → Prog Loop
  | .accepting, .go => do
    send .created
    pure .serving
  | .accepting, reply => Coro.raise reply.exception
  | .serving, .receive event => do
    let r ← (serveEvent vllm event).attempt
    match r with
    | .ok _ => pure .serving
    | .error e => do
      closeSession
      Coro.raise e
  | .serving, .disconnected => do
    closeSession
    pure .closed
  | .serving, reply => do
    closeSession
    Coro.raise reply.exception
  | loop, _ => pure loop

/-- A response task runs once it has been created, and is done when it has returned or raised. -/
def responseTurn (n : ℕ) (loop : Loop) (reply : Reply) : Prog Loop := do
  let s ← get
  match s.answers[n]? with
  | none => pure loop
  | some answer =>
    if s.ended n then pure loop
    else do
      let r ← (respond answer loop reply).attempt
      match r with
      | .ok (.streaming message calledTool) => pure (.streaming message calledTool)
      | _ => do
        modify fun s => { s with ended := Function.update s.ended n true }
        pure .finished

/-- One step of the engine or of the event loop on one of the requests. -/
def engineTurn (reply : Reply) : Prog Loop := do
  let s ← get
  match reply with
  | .engine k act =>
    if act.enabled (s.requests k) then modify (·.onRequest k act.apply) else pure ()
  | _ => pure ()
  pure .engine

def streamingSession : System Exception Session Site Reply Task Loop where
  head _ loop := match loop with
    | .accepting => .accepting
    | .serving => .receiving
    | .closed => .closed
    | .unstarted => .unstarted
    | .streaming _ _ => .streaming
    | .finished => .finished
    | .engine => .engine
  body t loop reply := match t with
    | .serve => serveTurn vllm loop reply
    | .respond n => responseTurn n loop reply
    | .engine => engineTurn reply
  crash t _ := match t with
    | .serve => .closed
    | .respond _ => .finished
    | .engine => .engine

abbrev SessionView := View Task Site Session

abbrev SessionPool := Pool Exception Session Site Reply Task Loop

def freshSession : SessionPool :=
  (streamingSession vllm).start {} fun t => match t with
    | .serve => .accepting
    | .respond _ => .unstarted
    | .engine => .engine

/-- The scheduler may do anything, but a task that is joined has to be done first, and
nobody cancels `serve`. -/
def anyTurn (v : SessionView) (t : Task) (i : Reply) : Prop :=
  t = .serve → i ≠ .cancelled ∧ ∀ n ∈ (v.site .serve).joins, v.shared.ended n = true

/-- Nothing but its tasks touches the session. -/
def closedWorld (_ : SessionView) (_ : Session) : Prop := False

instance (v : SessionView) (s : Session) : Decidable (closedWorld v s) := instDecidableFalse

instance (v : SessionView) (t : Task) (i : Reply) : Decidable (anyTurn v t i) :=
  inferInstanceAs (Decidable (t = .serve → _ ∧ ∀ n ∈ (v.site .serve).joins, _))

end Tasks

end VoiceAgent.StreamingSession
