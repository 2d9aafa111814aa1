import VoiceAgent.StreamingEvents
import VoiceAgent.Moves

/-!
`NvidiaStreamingLLMService`: the client end of the session websocket. One worker serves
the pipeline's frames one after the other, and reads the chunks of a response between
two of them. A chunk generator that is let go at a yield is closed by the event loop
later, at any time: that is the task of a closer. Connections are named by numbers, and
so are the responses of the client.
-/
namespace VoiceAgent.StreamingClient

open StreamingEvents Coroutine Interleaving

/-- `opened` counts the connections, `named` the response ids; `abandoned` are the
generators let go. What follows is a record of the run that no definition reads. -/
structure Client where
  websocket : Option ℕ := none
  sessionRequest : Option SessionRequest := none
  sessionText : Text := []
  opened : ℕ := 0
  named : ℕ := 0
  abandoned : List ℕ := []
  sent : ℕ → List ClientEvent := fun _ => []
  received : ℕ → List ServerEvent := fun _ => []
  yielded : ℕ → List Chunk := fun _ => []
  finished : List ℕ := []
  raised : List (ℕ × Failure) := []

namespace Client

def wrote (s : Client) (c : ℕ) (event : ClientEvent) : Client :=
  { s with sent := Function.update s.sent c (s.sent c ++ [event]) }

def reads (s : Client) (c : ℕ) (event : ServerEvent) : Client :=
  { s with received := Function.update s.received c (s.received c ++ [event]) }

def yields (s : Client) (r : ℕ) (chunk : Chunk) : Client :=
  { s with yielded := Function.update s.yielded r (s.yielded r ++ [chunk]) }

end Client

/-- Where a coroutine of the client can be stopped. A send stops before its event is
written and after; a generator stops in its `recv` and at its yield. -/
inductive Site
  | idle
  | connecting
  | greeting (connection : ℕ)
  | writing (event : ClientEvent)
  | written (event : ClientEvent)
  | closing
  | unstarted (response : ℕ)
  | reading (response connection : ℕ)
  | yielded (response : ℕ)
  | waiting
  deriving DecidableEq

/-- `next`, `close` and `abandon` are what the consumer does with a generator. -/
inductive Reply
  | go
  | failed
  | cancelled
  | prefill (request : SessionRequest) (text : Text)
  | commit (request : SessionRequest)
  | stop
  | message (event : ServerEvent)
  | next
  | close
  | abandon
  deriving DecidableEq

inductive Exception
  | error
  | cancelled
  deriving DecidableEq

abbrev Prog (α : Type) := Coro Exception Client Site Reply α

/-- An await whose result is not used. -/
def awaited (l : Site) : Prog Unit := do
  let reply ← Coro.pause l
  match reply with
  | .cancelled => Coro.raise .cancelled
  | .failed => Coro.raise .error
  | _ => pure ()

/-- Without a websocket there is nothing to call `send` on. -/
def send (event : ClientEvent) : Prog Unit := do
  let s ← get
  match s.websocket with
  | none => Coro.raise .error
  | some c => do
    awaited (.writing event)
    modify (·.wrote c event)
    awaited (.written event)

def disconnect : Prog Unit := do
  let s ← get
  modify fun s => { s with websocket := none }
  if s.websocket = none then pure () else awaited .closing

section Sync

/-- Open the session websocket and wait for `session.created`. -/
def connect : Prog Unit := do
  awaited .connecting
  let s ← get
  modify fun s => { s with websocket := some s.opened, opened := s.opened + 1 }
  let reply ← Coro.pause (.greeting s.opened)
  match reply with
  | .message event => do
    modify (·.reads s.opened event)
    modify fun s => { s with sessionRequest := none, sessionText := [] }
  | .cancelled => Coro.raise .cancelled
  | _ => Coro.raise .error

def ensureConnected : Prog Unit := do
  let s ← get
  if s.websocket = none then connect else pure ()

def syncRequest (request : SessionRequest) : Prog Unit := do
  let s ← get
  if s.sessionRequest = some request then pure ()
  else do
    send (.update request)
    modify fun s => { s with sessionRequest := some request }

def clearStale (text : Text) : Prog Unit := do
  let s ← get
  if s.sessionText <+: text then pure ()
  else do
    send .clear
    modify fun s => { s with sessionText := [] }

def appendRest (text : Text) : Prog Unit := do
  let s ← get
  if text = s.sessionText then pure ()
  else do
    send (.append (text.drop s.sessionText.length))
    modify fun s => { s with sessionText := text }

/-- Bring the server's conversation and user text buffer up to date. -/
def syncSession (request : SessionRequest) (text : Text) : Prog Unit := do
  ensureConnected
  syncRequest request
  clearStale text
  appendRest text

/-- The user turn that ends the request is sent as the buffer's text. -/
def splitTurn (request : SessionRequest) : SessionRequest × Text :=
  let messages := request.messages.getD []
  match messages.getLast? with
  | some ⟨.user, some text, _⟩ => ({ request with messages := some messages.dropLast }, text)
  | _ => (request, [])

/-- `except Exception`: a failed exchange closes the connection. -/
def orDisconnect {α : Type} (exchange : Prog α) (after : Prog α) : Prog α :=
  exchange.handle fun e => match e with
    | .cancelled => Coro.raise .cancelled
    | .error => do
      disconnect
      after

def processFrame (request : SessionRequest) (text : Text) : Prog Unit :=
  orDisconnect (syncSession request text) (pure ())

/-- Commit the user turn on the session, for the response it returns. -/
def getChatCompletions (request : SessionRequest) : Prog ℕ := do
  let (request, text) := splitTurn request
  let r ← modifyGet fun s => (s.named, { s with named := s.named + 1 })
  orDisconnect (do
    syncSession request text
    send (.commit (some (.named r)))) (Coro.raise .error)
  modify fun s => { s with sessionText := [] }
  pure r

end Sync

section Responses

/-- What the worker remembers from one await of its loop to the next. -/
inductive Loop
  | idle
  | unstarted (response : ℕ)
  | reading (response connection : ℕ)
  | yielded (response : ℕ)
  | waiting
  deriving DecidableEq

/-- The `finally` of `_response_chunks`, when the response is not done. -/
def closeResponse (r : ℕ) : Prog Unit := do
  let s ← get
  if s.websocket = none then pure ()
  else orDisconnect (send (.cancel (some (.named r)))) (pure ())

/-- The generator goes back to its `recv`. -/
def nextEvent (r : ℕ) : Prog Loop := do
  let s ← get
  match s.websocket with
  | none => pure .idle
  | some c => pure (.reading r c)

/-- One event of the loop of `_response_chunks`. Errors come first: they name no response. -/
def readEvent (r c : ℕ) (event : ServerEvent) : Prog Loop := do
  modify (·.reads c event)
  match event with
  | .error _ _ failure => do
    modify fun s => { s with raised := s.raised ++ [(r, failure)] }
    closeResponse r
    pure .idle
  | .delta r' chunk =>
    if r' = .named r then do
      modify (·.yields r chunk)
      pure (.yielded r)
    else nextEvent r
  | .done r' =>
    if r' = .named r then do
      modify fun s => { s with finished := s.finished ++ [r] }
      pure .idle
    else nextEvent r
  | .created => nextEvent r

def workerTurn : Loop → Reply → Prog Loop
  | .idle, .prefill request text => do
    processFrame request text
    pure .idle
  | .idle, .commit request => do
    let r ← getChatCompletions request
    pure (.unstarted r)
  | .idle, .stop => do
    disconnect
    pure .idle
  | .unstarted r, .next => nextEvent r
  | .unstarted _, _ => pure .idle
  | .reading r c, .message event => readEvent r c event
  | .reading r _, _ => do
    closeResponse r
    pure .idle
  | .yielded r, .next => nextEvent r
  | .yielded r, .close => do
    closeResponse r
    pure .idle
  | .yielded r, _ => do
    modify fun s => { s with abandoned := s.abandoned ++ [r] }
    pure .idle
  | loop, _ => pure loop

/-- The event loop closes a generator that was let go. -/
def closerTurn (r : ℕ) (reply : Reply) : Prog Loop := do
  let s ← get
  if reply = .close ∧ r ∈ s.abandoned then do
    modify fun s => { s with abandoned := s.abandoned.erase r }
    closeResponse r
    pure .waiting
  else pure .waiting

inductive Task
  | worker
  | closer (response : ℕ)
  deriving DecidableEq

def streamingClient : System Exception Client Site Reply Task Loop where
  head _ loop := match loop with
    | .idle => .idle
    | .unstarted r => .unstarted r
    | .reading r c => .reading r c
    | .yielded r => .yielded r
    | .waiting => .waiting
  body t loop reply := match t with
    | .worker => workerTurn loop reply
    | .closer r => closerTurn r reply
  crash t _ := match t with
    | .worker => .idle
    | .closer _ => .waiting

abbrev ClientView := View Task Site Client

abbrev ClientPool := Pool Exception Client Site Reply Task Loop

def freshClient : ClientPool :=
  streamingClient.start {} fun t => match t with
    | .worker => .idle
    | .closer _ => .waiting

def closedWorld (_ : ClientView) (_ : Client) : Prop := False

instance (v : ClientView) (s : Client) : Decidable (closedWorld v s) := instDecidableFalse

end Responses

section Closers
variable {R : Site → Reply → Client → Client → Prop} {l : Site} {α : Type}

def Reply.comesBack : Reply → Bool
  | .cancelled | .failed => false
  | _ => true

theorem legs_awaited_bind {f : Unit → Prog α}
    (h : ∀ i s, i.comesBack = true → Leg R (f ()) l i s) : Legs R (awaited l >>= f) := by
  refine ⟨fun _ _ _ i s => ?_⟩
  cases i with
  | cancelled => trivial
  | failed => trivial
  | _ => exact h _ s rfl

theorem legs_awaited (l : Site) : Legs R (awaited l) := by
  refine (Legs.pause l).bind fun reply => ?_
  split
  · exact .raise _
  · exact .raise _
  · exact .pure _

theorem legs_send {event : ClientEvent}
    (h : ∀ i s c, i.comesBack = true → R (.writing event) i s (s.wrote c event)) :
    Legs R (send event) := by
  refine Legs.get.bind fun s => ?_
  split
  · exact .raise _
  · exact legs_awaited_bind fun i s hi => ⟨h i s _ hi, (legs_awaited _).leg _ _ _⟩

theorem legs_orDisconnect {exchange after : Prog α} (hx : Legs R exchange)
    (hdisconnect : Legs R disconnect) (hafter : Legs R after) :
    Legs R (orDisconnect exchange after) := by
  refine hx.handle fun e => ?_
  cases e with
  | cancelled => exact .raise _
  | error => exact hdisconnect.bind fun _ => hafter

/-- What the closers of old generators write: cancels, and the end of the connection. -/
structure Closes (R : Site → Reply → Client → Client → Prop) : Prop where
  wrote : ∀ i s c response, i.comesBack = true →
    R (.writing (.cancel response)) i s (s.wrote c (.cancel response))
  disconnects : ∀ l i (s : Client), R l i s { s with websocket := none }
  abandons : ∀ l i (s : Client) abandoned, R l i s { s with abandoned := abandoned }

theorem Closes.disconnect (h : Closes R) : Legs R disconnect :=
  Legs.get.bind fun _ => (Legs.modify h.disconnects).bind fun _ =>
    .ite (.pure _) (legs_awaited _)

theorem Closes.closeResponse (h : Closes R) (r : ℕ) : Legs R (closeResponse r) :=
  Legs.get.bind fun _ => .ite (.pure _)
    (legs_orDisconnect (legs_send fun i s c => h.wrote i s c _) h.disconnect (.pure _))

theorem Closes.closerTurn (h : Closes R) (r : ℕ) (reply : Reply) :
    Legs R (closerTurn r reply) :=
  Legs.get.bind fun _ => .ite
    ((Legs.modify fun l i s => h.abandons l i s _).bind fun _ =>
      (h.closeResponse r).bind fun _ => .pure _) (.pure _)

end Closers

end VoiceAgent.StreamingClient
