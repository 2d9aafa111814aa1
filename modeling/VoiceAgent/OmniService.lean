import VoiceAgent.StreamingEvents
import VoiceAgent.ScopedSlot
import VoiceAgent.Interleaving

/-!
`NvidiaOmniLLMService`: the handlers of system and data frames, which cancel, await and
replace the one turn task, the turns themselves, and the out-of-band inferences that hide
the active turn. Contexts are shared objects that others write to, so the service holds
references. The completion path of the base class is left open: between two awaits a turn
may build a request, report a transcript, end or fail.
-/
namespace VoiceAgent.OmniService

open StreamingEvents Coroutine Interleaving

section Context

inductive Author
  | system | developer | user | assistant | tool
  deriving DecidableEq

/-- Of the parts of a content only text parts have a text. -/
inductive Content
  | none
  | text (t : Text)
  | parts (ps : List (Option Text))
  deriving DecidableEq

structure Message where
  role : Author
  content : Content
  deriving DecidableEq

abbrev Context := List Message

def Content.truthy : Content → Bool
  | .none => false
  | .text t => t ≠ []
  | .parts ps => ps ≠ []

def extractTextContent : Content → Text
  | .none => []
  | .text t => t
  | .parts ps => List.intercalate ['\n'] (ps.reduceOption.filter (· ≠ []))

inductive Trigger
  | user | tool
  deriving DecidableEq

/-- The search of `_completion_trigger`, newest message first. -/
def newestTrigger : Context → Option Trigger
  | [] => none
  | m :: rest => match m.role with
    | .assistant => none
    | .tool => some .tool
    | .user => if m.content.truthy then some .user else newestTrigger rest
    | _ => newestTrigger rest

def completionTrigger (context : Context) : Option Trigger := newestTrigger context.reverse

def latestUserText (context : Context) : Text :=
  match context.reverse.find? (·.role = .user) with
  | some m => strip (extractTextContent m.content)
  | none => []

end Context

section Parts

inductive Part
  | inputAudio (audio : List UInt8) (sampleRate channels : ℕ)
  | text (t : Text)
  deriving DecidableEq

/-- A part as Omni's endpoint reads it. -/
inductive OmniPart
  | audioUrl (audio : List UInt8) (sampleRate channels : ℕ)
  | text (t : Text)
  deriving DecidableEq

def toOmniContentPart : Part → OmniPart
  | .inputAudio audio sampleRate channels => .audioUrl audio sampleRate channels
  | .text t => .text t

/-- A request: the messages of its context, and the parts appended to them. -/
structure Request where
  messages : Context
  turnParts : Option (List OmniPart)
  deriving DecidableEq

/-- `build_chat_completion_params`, for the parts of the active turn. -/
def buildChatCompletionParams (active : Option (List Part)) (messages : Context) : Request :=
  { messages := messages
    turnParts := match active with
      | some (part :: rest) => some ((part :: rest).map toOmniContentPart)
      | _ => none }

end Parts

section State

/-- `minBytes` and `preSpeechBytes` turn bytes per second into the bytes of
`min_user_audio_secs` and `pre_speech_buffer_secs`. -/
structure Settings where
  text : Bool := true
  audio : Bool := true
  emitTranscriptions : Bool := false
  audioResponseInstruction : Option Text := none
  minBytes : ℕ → ℕ := fun n => n * 3 / 10
  preSpeechBytes : ℕ → ℕ := fun n => n * 2 / 10

def transcriptAudioResponseInstruction : Text :=
  ("Listen to the user's speech in the attached audio. First write exactly what the user " ++
    "said inside <transcript>...</transcript>, then write your spoken reply inside " ++
    "<response>...</response>.").toList

def defaultAudioResponseInstruction : Text :=
  "Listen to the user's speech in the attached audio and answer them.".toList

def Settings.instruction (c : Settings) : Text :=
  match c.audioResponseInstruction with
  | some (ch :: rest) => ch :: rest
  | _ => if c.emitTranscriptions then transcriptAudioResponseInstruction
      else defaultAudioResponseInstruction

/-- A turn as it was created; without a reference its context is empty. Only an audio
turn comes with `spoken` parts. -/
structure Turn where
  context : Option ℕ
  trigger : Option Trigger := none
  spoken : Option (List Part) := none
  expectTranscript : Bool := false

inductive Outcome
  | returned
  | cancelled
  | failed
  deriving DecidableEq

inductive Owner
  | turn (k : ℕ)
  | call (n : ℕ)
  deriving DecidableEq

/-- What a turn or an out-of-band call does to `_active_turn_parts`. -/
abbrev SlotEvent := ScopedSlot.Event ℕ ℕ (List Part)

inductive Pushed
  | responseStart (turn : ℕ)
  | responseEnd (turn : ℕ)
  | transcription (text : Text)
  deriving DecidableEq

/-- `cancelRequested k` says that a cancellation has yet to reach turn `k`. What follows
`outcome` is a record that no definition reads: the requests built, what was done to the
active parts, and the out-of-band calls that have ended. -/
structure Service where
  settings : Settings := {}
  heap : ℕ → Context := fun _ => []
  context : Option ℕ := none
  audioBuffer : List (List UInt8) := []
  preSpeechBuffer : List (List UInt8) := []
  sampleRate : ℕ := 16000
  channels : ℕ := 1
  audioUserSpeaking : Bool := false
  botResponding : Bool := false
  pendingRequest : Option ℕ := none
  pendingRequestIsAudio : Bool := false
  activeTurnParts : Option (List Part) := none
  transcriptExtractor : Bool := false
  transcriptEmitted : Bool := false
  answeredTranscript : Text := []
  pushed : List Pushed := []
  turns : List Turn := []
  cancelRequested : ℕ → Bool := fun _ => false
  outcome : ℕ → Option Outcome := fun _ => none
  requests : List (Owner × Request) := []
  events : List SlotEvent := []
  ended : List ℕ := []

namespace Service

def contents (s : Service) : Option ℕ → Context
  | none => []
  | some r => s.heap r

/-- Turn `k` has been created and is not done. -/
def Unfinished (s : Service) (k : ℕ) : Prop := k < s.turns.length ∧ s.outcome k = none

instance (s : Service) (k : ℕ) : Decidable (s.Unfinished k) :=
  inferInstanceAs (Decidable (_ ∧ _))

/-- `task.cancel()` -/
def cancel (s : Service) (k : ℕ) : Service :=
  if s.Unfinished k then
    { s with cancelRequested := Function.update s.cancelRequested k true }
  else s

/-- `_unwritten_spoken_turn` -/
def unwrittenSpokenTurn (s : Service) (turn : Turn) : Option (List Part) :=
  let transcript := s.answeredTranscript
  if turn.trigger ≠ some .tool ∨ transcript = [] ∨
      latestUserText (s.contents turn.context) = transcript then none
  else some [.text transcript]

/-- The parts with which a turn starts. -/
def partsOf (s : Service) (turn : Turn) : Option (List Part) :=
  match turn.spoken with
  | some [] => none
  | some parts => some parts
  | none => s.unwrittenSpokenTurn turn

/-- `_append_pre_speech_audio`: the newest chunks that fit the window. -/
def trimmed (maxBytes : ℕ) : List (List UInt8) → List (List UInt8)
  | [] => []
  | chunk :: rest =>
    if maxBytes < ((chunk :: rest).map List.length).sum then trimmed maxBytes rest
    else chunk :: rest

def handleAudioFrame (s : Service) (audio : List UInt8) (sampleRate channels : ℕ) : Service :=
  let s := { s with sampleRate := sampleRate, channels := channels }
  if ¬ s.settings.audio then s
  else if s.audioUserSpeaking then { s with audioBuffer := s.audioBuffer ++ [audio] }
  else { s with
    preSpeechBuffer := trimmed (s.settings.preSpeechBytes (max (sampleRate * channels * 2) 1))
      (s.preSpeechBuffer ++ [audio]) }

def resetAudioState (s : Service) : Service :=
  { s with
    audioBuffer := []
    preSpeechBuffer := []
    audioUserSpeaking := false
    botResponding := false
    pendingRequestIsAudio := false }

/-- `_echoes_an_audio_turn` -/
def echoesAnAudioTurn (s : Service) (trigger : Option Trigger) (context : Context)
    (force : Bool) : Bool :=
  if trigger = none then true
  else if force then false
  else s.answeredTranscript ≠ [] ∧ latestUserText context = s.answeredTranscript

end Service

end State

/-- Frames, as far as `process_frame` tells them apart. -/
inductive Frame
  | start | endFrame | cancelFrame | interruption
  | botStartedSpeaking | botStoppedSpeaking
  | userStartedSpeaking | userStoppedSpeaking
  | inputAudio (audio : List UInt8) (sampleRate channels : ℕ)
  | llmContext (context : ℕ)
  | llmRun
  | other (system : Bool)

/-- System frames have a handler of their own. -/
def Frame.system : Frame → Bool
  | .endFrame | .llmContext _ | .llmRun => false
  | .other system => system
  | _ => true

/-- Where a task can be stopped: a handler first, then a turn, then an inference. -/
inductive Site
  | idle
  | base | stopping | interrupting | preempting | pushing
  | unwinding (turn : ℕ)
  | following (turn : ℕ)
  | queued | opening | metering | processing | reporting | closing | closed | finished
  | unasked | inferring
  deriving DecidableEq

/-- `frame` begins a handler's work and `infer` an out-of-band call. `build`, `heard` and
`finish` tell what the completion path does next. -/
inductive Reply
  | go
  | failed
  | cancelled
  | frame (f : Frame)
  | infer (context : ℕ) (multimodal : Bool)
  | build
  | heard (transcript : Text)
  | finish

inductive Exception
  | error
  | cancelled
  deriving DecidableEq

abbrev Prog (α : Type) := Coro Exception Service Site Reply α

/-- An await of somebody else's code. -/
def checkpoint (l : Site) : Prog Unit := do
  let reply ← Coro.pause l
  match reply with
  | .failed => Coro.raise .error
  | .cancelled => Coro.raise .cancelled
  | _ => pure ()

theorem always_checkpoint (R : Service → Service → Prop) (l : Site) :
    Always R (checkpoint l) := by
  refine .bind (.pause l) fun reply => ?_
  split
  · exact .raise _
  · exact .raise _
  · exact .pure _

section Handlers

/-- An await of turn `k` that suppresses `CancelledError`. -/
def awaitTurn (l : Site) (k : ℕ) : Prog Unit := do
  let reply ← Coro.pause l
  let s ← get
  match reply, s.outcome k with
  | .cancelled, _ => pure ()
  | _, some .failed => Coro.raise .error
  | _, _ => pure ()

/-- The turn in the slot, while it is not done. -/
def Service.inFlight (s : Service) : Option ℕ := s.pendingRequest.filter (s.Unfinished ·)

/-- The first half of `_cancel_pending_request`. -/
def unwindPending : Prog Unit := do
  let s ← get
  match s.inFlight with
  | none => pure ()
  | some k => do
    modify (·.cancel k)
    awaitTurn (.unwinding k) k

def cancelPendingRequest : Prog Unit := do
  unwindPending
  modify fun s => { s with pendingRequest := none, pendingRequestIsAudio := false }

/-- Stop the metrics, then cancel the turn in flight. -/
def preempt : Prog Unit := do
  checkpoint .preempting
  cancelPendingRequest

/-- `self._pending_request = self.create_task(run())` -/
def createTurn (audio : Bool) (turn : Service → Turn) : Prog Unit := modify fun s =>
  { s with
    turns := s.turns ++ [turn s]
    pendingRequest := some s.turns.length
    pendingRequestIsAudio := audio }

/-- The end of `_maybe_run_audio_turn`. -/
def runAudioTurn (payload : List UInt8) : Prog Unit := createTurn true fun s =>
  { context := s.context
    spoken := some [.inputAudio payload s.sampleRate s.channels, .text s.settings.instruction]
    expectTranscript := s.settings.emitTranscriptions }

/-- The utterance to answer; `none` for one that is too short. -/
def Service.utterance (s : Service) : Option (List UInt8) :=
  let payload := s.audioBuffer.flatten
  if payload = [] ∨ payload.length < s.settings.minBytes (max (s.sampleRate * s.channels * 2) 1)
  then none else some payload

def answer (payload : List UInt8) : Prog Unit := do
  let s ← get
  match s.inFlight with
  | none => runAudioTurn payload
  | some _ => do
    preempt
    runAudioTurn payload

def maybeRunAudioTurn : Prog Unit := do
  let s ← get
  if s.botResponding then pure () else do
    modify fun s => { s with audioBuffer := [], preSpeechBuffer := [] }
    match s.utterance with
    | none => pure ()
    | some payload => answer payload

/-- The end of `_maybe_run_text_turn`. -/
def runTextTurn (context : ℕ) (trigger : Option Trigger) : Prog Unit :=
  createTurn false fun _ => { context := some context, trigger := trigger }

/-- A context frame that starts no turn. -/
def Service.ignores (s : Service) (trigger : Option Trigger) (context : Context)
    (force : Bool) : Bool :=
  trigger ≠ some .tool ∧
    (¬ s.settings.text ∨ (s.settings.audio ∧ s.echoesAnAudioTurn trigger context force))

def complete (context : ℕ) (trigger : Option Trigger) : Prog Unit := do
  let s ← get
  match s.inFlight with
  | none => runTextTurn context trigger
  | some k =>
    if trigger = some .tool then do
      awaitTurn (.following k) k
      runTextTurn context trigger
    else if s.pendingRequestIsAudio then pure ()
    else do
      preempt
      runTextTurn context trigger

def triggerOf (context : Context) (force : Bool) : Option Trigger :=
  if force then some .user else completionTrigger context

def maybeRunTextTurn (context : Option ℕ) (force : Bool) : Prog Unit := do
  match context with
  | none => pure ()
  | some ref => do
    let s ← get
    let trigger := triggerOf (s.heap ref) force
    if s.ignores trigger (s.heap ref) force then pure () else complete ref trigger

def startUtterance : Prog Unit := modify fun s =>
  { s with
    audioUserSpeaking := true
    audioBuffer := s.preSpeechBuffer
    preSpeechBuffer := [] }

def handleUserStarted : Prog Unit := do
  let s ← get
  if s.audioUserSpeaking ∨ ¬ s.settings.audio then pure ()
  else if s.botResponding then do
    cancelPendingRequest
    modify fun s => { s with botResponding := false }
    startUtterance
  else startUtterance

def handleUserStopped : Prog Unit := do
  let s ← get
  if ¬ s.audioUserSpeaking then pure () else do
    modify fun s => { s with audioUserSpeaking := false }
    maybeRunAudioTurn

def handleInterruption : Prog Unit := do
  checkpoint .interrupting
  cancelPendingRequest
  modify fun s =>
    let s := { s with botResponding := false }
    if s.audioUserSpeaking then s else { s with audioBuffer := [], preSpeechBuffer := [] }

/-- `stop` and `cancel`, which the base class calls for an end and a cancel frame. -/
def stop : Prog Unit := do
  cancelPendingRequest
  checkpoint .stopping

def processFrame (f : Frame) : Prog Unit := do
  checkpoint .base
  match f with
  | .llmContext context => do
    modify fun s => { s with context := some context }
    maybeRunTextTurn (some context) false
  | .llmRun => do
    let s ← get
    maybeRunTextTurn s.context true
  | .interruption => do
    handleInterruption
    checkpoint .pushing
  | .userStartedSpeaking => do
    handleUserStarted
    checkpoint .pushing
  | .userStoppedSpeaking => do
    handleUserStopped
    checkpoint .pushing
  | .endFrame | .cancelFrame => do
    stop
    checkpoint .pushing
  | .start => do
    modify Service.resetAudioState
    checkpoint .pushing
  | .botStartedSpeaking => do
    modify fun s => { s with botResponding := true }
    checkpoint .pushing
  | .botStoppedSpeaking => do
    modify fun s => { s with botResponding := false }
    checkpoint .pushing
  | .inputAudio audio sampleRate channels => do
    modify (·.handleAudioFrame audio sampleRate channels)
    checkpoint .pushing
  | .other _ => checkpoint .pushing

end Handlers

section Turns

/-- What a task remembers between two pieces of its work. -/
inductive Loop
  | idle
  | queued
  | processing
  | finished
  | unasked
  deriving DecidableEq

/-- An await of turn `k`, which a cancellation of the turn makes raise. -/
def turnPause (k : ℕ) (l : Site) : Prog Unit := do
  let reply ← Coro.pause l
  let s ← get
  if s.cancelRequested k then do
    modify fun s => { s with cancelRequested := Function.update s.cancelRequested k false }
    Coro.raise .cancelled
  else match reply with
    | .failed => Coro.raise .error
    | _ => pure ()

def endTurn (k : ℕ) (outcome : Outcome) : Prog Loop := do
  modify fun s => { s with outcome := Function.update s.outcome k (some outcome) }
  pure .finished

/-- The outcome of a turn that an exception leaves. -/
def Exception.outcome : Exception → Outcome
  | .error => .failed
  | .cancelled => .cancelled

/-- The `finally` of `_run_turn`, which ends with `outcome` unless it raises itself. -/
def closeTurn (k : ℕ) (outcome : Outcome) : Prog Loop := do
  modify fun s =>
    { s with
      activeTurnParts := none
      transcriptExtractor := false
      events := s.events ++ [.clear k] }
  Coro.handle (do
      turnPause k .closing
      modify fun s => { s with pushed := s.pushed ++ [.responseEnd k] }
      turnPause k .closed
      endTurn k outcome)
    fun e => endTurn k e.outcome

/-- The parts of a turn become the active ones. -/
def Service.activate (s : Service) (k : ℕ) (turn : Turn) : Service :=
  let parts := s.partsOf turn
  { s with
    activeTurnParts := parts
    transcriptExtractor := turn.expectTranscript
    transcriptEmitted := false
    events := s.events ++ [.set k parts] }

/-- `_run_turn` up to `_process_context`. An exception here leaves the parts behind, for
the `finally` comes later. -/
def openTurn (k : ℕ) (turn : Turn) : Prog Loop := do
  modify (·.activate k turn)
  Coro.handle (do
      modify fun s => { s with pushed := s.pushed ++ [.responseStart k] }
      turnPause k .opening
      turnPause k .metering
      pure .processing)
    fun e => endTurn k e.outcome

/-- `_emit_user_transcript`, once the transcript section is complete. -/
def Service.emitTranscript (s : Service) (transcript : Text) : Service :=
  if s.transcriptExtractor ∧ ¬ s.transcriptEmitted ∧ transcript ≠ [] then
    { s with
      transcriptEmitted := true
      answeredTranscript := transcript
      pushed := s.pushed ++ [.transcription transcript] }
  else s

/-- The error of a completion is pushed, and the turn then closes. -/
def reportError (k : ℕ) : Prog Loop :=
  Coro.handle (do
      turnPause k .reporting
      closeTurn k .returned)
    fun e => closeTurn k e.outcome

/-- One piece of `_process_context`. -/
def processContext (k : ℕ) (turn : Turn) (reply : Reply) : Prog Loop :=
  match reply with
  | .build => do
    modify fun s => { s with
      requests := s.requests ++
        [(.turn k, buildChatCompletionParams s.activeTurnParts (s.contents turn.context))] }
    pure .processing
  | .heard transcript => do
    modify (·.emitTranscript transcript)
    pure .processing
  | .failed => reportError k
  | .finish => closeTurn k .returned
  | _ => pure .processing

/-- Turn `k` goes on. -/
def runTurn (k : ℕ) (loop : Loop) (reply : Reply) : Prog Loop := do
  let s ← get
  match s.turns[k]?, loop with
  | some turn, .queued =>
    -- a task that is cancelled before it starts never runs its coroutine
    if s.cancelRequested k then endTurn k .cancelled else openTurn k turn
  | some turn, .processing =>
    if s.cancelRequested k then do
      modify fun s => { s with cancelRequested := Function.update s.cancelRequested k false }
      closeTurn k .cancelled
    else processContext k turn reply
  | _, loop => pure loop

end Turns

section OutOfBand

/-- Entering `_without_active_turn`. -/
def hideTurn (n : ℕ) : Prog (Option (List Part)) := modifyGet fun s =>
  (s.activeTurnParts, { s with
    activeTurnParts := none
    events := s.events ++ [.hide n] })

/-- Leaving `_without_active_turn`. -/
def restoreTurn (n : ℕ) (active : Option (List Part)) : Prog Unit := modify fun s =>
  { s with
    activeTurnParts := active
    events := s.events ++ [.restore n] }

def buildOutOfBand (n : ℕ) (context : ℕ) : Prog Unit := modify fun s =>
  { s with requests := s.requests ++
      [(.call n, buildChatCompletionParams s.activeTurnParts (s.heap context))] }

def endCall (n : ℕ) : Prog Loop := do
  modify fun s => { s with ended := s.ended ++ [n] }
  pure .finished

/-- `run_inference`. The base class builds the request before it awaits the reply. -/
def runInference (n : ℕ) (context : ℕ) : Prog Unit := do
  let active ← hideTurn n
  Coro.ensure (do
      buildOutOfBand n context
      checkpoint .inferring)
    (restoreTurn n active)

/-- `_out_of_band_request_kwargs`, with which `run_multimodal_inference` begins. -/
def outOfBandRequestKwargs (n : ℕ) (context : ℕ) : Prog Unit := do
  let active ← hideTurn n
  Coro.ensure (buildOutOfBand n context) (restoreTurn n active)

/-- Out-of-band call `n`. -/
def callTurn (n : ℕ) (loop : Loop) (reply : Reply) : Prog Loop :=
  match loop, reply with
  | .unasked, .infer context false => do
    Coro.handle (runInference n context) fun _ => pure ()
    endCall n
  | .unasked, .infer context true => do
    outOfBandRequestKwargs n context
    endCall n
  | loop, _ => pure loop

end OutOfBand

section System

inductive Task
  | handler (system : Bool)
  | turn (k : ℕ)
  | call (n : ℕ)
  deriving DecidableEq

def handlerTurn (system : Bool) (loop : Loop) (reply : Reply) : Prog Loop :=
  match reply with
  | .frame f =>
    if f.system = system then do
      processFrame f
      pure loop
    else pure loop
  | _ => pure loop

def omni : System Exception Service Site Reply Task Loop where
  head _ loop := match loop with
    | .idle => .idle
    | .queued => .queued
    | .processing => .processing
    | .finished => .finished
    | .unasked => .unasked
  body t loop reply := match t with
    | .handler system => handlerTurn system loop reply
    | .turn k => runTurn k loop reply
    | .call n => callTurn n loop reply
  crash t _ := match t with
    | .handler _ => .idle
    | _ => .finished

abbrev OmniView := View Task Site Service

abbrev OmniPool := Pool Exception Service Site Reply Task Loop

def freshOmni (settings : Settings) : OmniPool :=
  omni.start { settings := settings } fun t => match t with
    | .handler _ => .idle
    | .turn _ => .queued
    | .call _ => .unasked

/-- From outside, the contexts and the settings change, and a turn may be cancelled. -/
def outside (v : OmniView) (s : Service) : Prop :=
  (∃ heap settings, s = { v.shared with heap := heap, settings := settings }) ∨
    ∃ k, s = v.shared.cancel k

/-- The turn that a stopped handler waits for. -/
def Site.waitsFor : Site → Option ℕ
  | .unwinding k | .following k => some k
  | _ => none

/-- An await of a turn comes back when the turn is done. -/
def turnsAwaited (v : OmniView) (t : Task) (_ : Reply) : Prop :=
  ∀ k ∈ (v.site t).waitsFor, v.shared.outcome k ≠ none

instance (v : OmniView) (t : Task) (i : Reply) : Decidable (turnsAwaited v t i) :=
  inferInstanceAs (Decidable (∀ k ∈ _, _))

end System

end VoiceAgent.OmniService
