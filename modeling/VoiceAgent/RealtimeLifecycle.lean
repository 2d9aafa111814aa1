import VoiceAgent.Conversation
import VoiceAgent.Interleaving
import Mathlib.Data.Finset.Card

/-!
The state that one Realtime session shares among its coroutines, and the announce
and finish sequences both the observer and the serializer run on it. Each
`emit_with_aliases` is one log entry followed by one await. The other log
entries record what the code does without telling anybody; no definition reads the log.
-/
namespace VoiceAgent.RealtimeLifecycle

open RealtimeEvents Conversation Coroutine

/-- What `RealtimeLifecycleObserver` keeps between frames. -/
structure Observer where
  maxFrames : ℕ := 4096
  processedFrames : Finset ℕ := ∅
  frameHistory : List ℕ := []
  processedMetricFrames : Finset ℕ := ∅
  metricFrameHistory : List ℕ := []
  botTranscriptFromTts : Bool := false
  emittedFunctionCalls : Finset Text := ∅
  llmTextBuffer : Text := []
  llmTextGeneration : ℕ := 0
  /-- The responses the buffered text was produced for. -/
  llmTextOrigins : List ℕ := []
  metrics : List Text := []

/-- A frame the serializer hands to the pipeline. The interruption remembers the
generation it was returned for. -/
inductive ReturnedFrame
  | llmRun
  | interruption (cause : ℕ)
  | llmMessagesAppend (text : Text)
  | inputAudio (bytes : ℕ)
  | ttsUpdateSettings

/-- `origins` and `cause` name the responses a text, an audio chunk or a finish
trigger was produced for; `busy` says whether a response was in progress. -/
inductive Entry
  | emitted (event : ServerEvent) (origins : List ℕ)
  | completed (snap : ResponseSnapshot) (cause : Option ℕ)
  | reset (generation : ℕ) (before after : ConversationState)
  | appended (generation : ℕ) (text : Text) (origins : List ℕ)
  | handled (frame : ℕ) (busy : Bool)
  | dedupeCleared
  | returned (frame : ReturnedFrame)

structure Shared where
  conv : ConversationState := {}
  obs : Observer := {}
  bytesSinceCommit : ℕ := 0
  log : List Entry := []

namespace Shared

def record (s : Shared) (e : Entry) : Shared := { s with log := s.log ++ [e] }

def emits (s : Shared) (event : ServerEvent) (origins : List ℕ) : Shared :=
  s.record (.emitted event origins)

end Shared

/-- The events of a log in the order of their emit calls, which is that of the wire. -/
def wire (log : List Entry) : List ServerEvent :=
  log.filterMap fun
    | .emitted event _ => some event
    | _ => none

@[simp] theorem wire_nil : wire [] = [] := rfl

@[simp] theorem wire_append (log es : List Entry) : wire (log ++ es) = wire log ++ wire es :=
  List.filterMap_append

@[simp] theorem wire_emits (s : Shared) (event : ServerEvent) (origins : List ℕ) :
    wire (s.emits event origins).log = wire s.log ++ [event] := by
  simp [Shared.emits, Shared.record, wire]

theorem mem_wire {log : List Entry} {event : ServerEvent} :
    event ∈ wire log ↔ ∃ origins, .emitted event origins ∈ log := by
  simp only [wire, List.mem_filterMap]
  constructor
  · rintro ⟨e, he, hs⟩
    cases e with
    | emitted event' origins =>
      obtain rfl := Option.some.inj hs
      exact ⟨origins, he⟩
    | _ => cases hs
  · rintro ⟨origins, h⟩
    exact ⟨_, h, rfl⟩

/-- Where a coroutine of the session can be stopped, with the local variables that
matter there, its callers' included: `origins` belongs to the text or audio that a
response is announced for, `cause` to the trigger that a flush will finish on. -/
inductive Site
  | ready
  | resampling (origin : Option ℕ)
  | emitting
  | announcing (response : ResponseId) (origins : List ℕ)
  | flushed (cause : Option ℕ)
  | finishing (snap : ResponseSnapshot) (rest : List ServerEvent)
  deriving DecidableEq

/-- The response a stopped coroutine is announcing. -/
def Site.announced : Site → Option (ResponseId × List ℕ)
  | .announcing r origins => some (r, origins)
  | _ => none

inductive ToolArguments
  | missing
  | json (text : Text)
  deriving DecidableEq

structure ToolCall where
  toolCallId : Text
  functionName : Text
  arguments : ToolArguments
  deriving DecidableEq

inductive Frame
  | userStartedSpeaking
  | userStoppedSpeaking
  | interimTranscription (text : Text)
  | transcription (text : Text)
  | botStartedSpeaking
  | ttsText (text : Text)
  | llmText (text : Text)
  | functionCallsStarted (calls : List ToolCall)
  | functionCallInProgress (call : ToolCall)
  | functionCallResult (call : ToolCall) (result : Text)
  | llmFullResponseEnd (skipTts : Bool)
  | ttsStopped
  | error (message : String) (fatal : Bool)
  | interruption
  | metrics (data : Text)
  | other
  deriving DecidableEq

/-- One crossing of a pipeline edge. `origin` is the response the frame was
produced for, if any; the frame itself carries no such id and no code reads it. -/
structure FramePushed where
  id : ℕ
  frame : Frame
  fromOutputTransport : Bool := false
  downstream : Bool := true
  origin : Option ℕ := none
  deriving DecidableEq

structure OutputAudio where
  audio : Text
  origin : Option ℕ := none
  deriving DecidableEq

inductive ItemKind
  | message | functionCallOutput | other
  deriving DecidableEq

structure ClientItem where
  id : Option Text
  kind : ItemKind
  fromUser : Bool
  text : Option Text
  deriving DecidableEq

/-- Client events by what the serializer does with them; `refused` is any message
answered with an error alone (bad JSON, an unknown type, a rejected append or update). -/
inductive ClientEvent
  | responseCreate (override : Bool)
  | responseCancel (response : Option ResponseId)
  | itemTruncate (item : Option ItemId) (audioEndMs : Option ℕ)
  | itemCreate (item : Option ClientItem)
  | audioAppend (bytes rate : ℕ)
  | audioCommit
  | audioClear
  | sessionUpdate (voice : Bool)
  | refused (message code : String) (param : Option String)
  deriving DecidableEq

structure ClientMessage where
  eventId : Option Text := none
  event : ClientEvent
  deriving DecidableEq

/-- What the scheduler hands to a stopped coroutine: the next piece of work at
`ready`, otherwise only the go-ahead, or the failure of a resampling. -/
inductive Reply
  | go
  | failed
  | push (data : FramePushed)
  | play (audio : OutputAudio)
  | receive (message : ClientMessage)
  deriving DecidableEq

abbrev Prog (α : Type) := Coro Empty Shared Site Reply α

def note (e : Entry) : Prog Unit := modify (·.record e)

def onConversation (f : ConversationState → ConversationState) : Prog Unit :=
  modify fun s => { s with conv := f s.conv }

def askConversation {α : Type} (f : ConversationState → α × ConversationState) : Prog α :=
  modifyGet fun s => ((f s.conv).1, { s with conv := (f s.conv).2 })

def onObserver (f : Observer → Observer) : Prog Unit :=
  modify fun s => { s with obs := f s.obs }

/-- `emit_with_aliases`: the event is on its way, then the send is awaited. -/
def emit (site : Site) (event : ServerEvent) (origins : List ℕ) : Prog Unit := do
  note (.emitted event origins)
  let _ ← Coro.pause site
  pure ()

section Announce

def announceCreated (response : ResponseId) (origins : List ℕ) (created : Bool) : Prog Unit :=
  if created then emit (.announcing response origins) (.responseCreated response) []
  else pure ()

def announceOutputItem (response : ResponseId) (origins : List ℕ) : Prog Unit := do
  let s ← get
  if s.conv.outputItemAnnounced then pure ()
  else do
    onConversation fun c => { c with outputItemAnnounced := true }
    let item := s.conv.assistantItemId
    emit (.announcing response origins) (.assistantItemCreated item) []
    emit (.announcing response origins) (.outputItemAdded (some response) item) []

def announceContentPart (response : ResponseId) (origins : List ℕ) : Prog Unit := do
  let s ← get
  if s.conv.contentPartAnnounced then pure ()
  else do
    onConversation fun c => { c with contentPartAnnounced := true }
    emit (.announcing response origins)
      (.contentPartAdded (some response) s.conv.assistantItemId) []

/-- Ensure `response.created`, the assistant item and its content part are on the
wire. The slot is read again after each await, the response id is not. -/
def announceResponse (origins : List ℕ) : Prog (ResponseId × Bool) := do
  let (response, created) ← askConversation (·.beginResponse)
  announceCreated response origins created
  announceOutputItem response origins
  announceContentPart response origins
  pure (response, created)

end Announce

section Finish

/-- The events of `emit_finish_from_snapshot`, which reads nothing but the snapshot. -/
def finishEvents (snap : ResponseSnapshot) (telemetry : Option RealtimeResponseTelemetry) :
    List ServerEvent :=
  let r := some snap.responseId
  let i := snap.itemId
  let itemStatus : ItemStatus := if snap.status = .completed then .completed else .incomplete
  (if snap.audioDoneEmitted then [] else [.outputAudioDone r i]) ++
  (if snap.transcriptDoneEmitted then [] else
    [.outputAudioTranscriptDone r i snap.transcript]) ++
  [.contentPartDone r i snap.transcript,
    .outputItemDone r i itemStatus snap.transcript,
    .responseDone snap.responseId snap.status i itemStatus snap.transcript telemetry]

def emitEach (snap : ResponseSnapshot) : List ServerEvent → Prog Unit
  | [] => pure ()
  | event :: rest => do
    emit (.finishing snap rest) event []
    emitEach snap rest

def emitFinishFromSnapshot (snap : ResponseSnapshot)
    (telemetry : Option RealtimeResponseTelemetry) : Prog Unit :=
  emitEach snap (finishEvents snap telemetry)

def resetAfterFinish (snap : ResponseSnapshot) : Prog Unit := do
  let s ← get
  onConversation (·.resetResponseSlot snap.generation)
  note (.reset snap.generation s.conv (s.conv.resetResponseSlot snap.generation))

/-- Complete the in-flight response, emit its done sequence, then reset the slot. -/
def finishResponse (status : ResponseStatus) (telemetry : Option RealtimeResponseTelemetry)
    (cause : Option ℕ) : Prog Bool := do
  let snap? ← askConversation (·.completeResponse status)
  match snap? with
  | none => pure false
  | some snap => do
    note (.completed snap cause)
    emitFinishFromSnapshot snap telemetry
    resetAfterFinish snap
    pure true

end Finish

section Transcript

/-- `append_assistant_transcript`, which opens a response when none is in progress. -/
def appendAssistantTranscript (text : Text) (origins : List ℕ) : Prog Unit :=
  if text = [] then pure ()
  else do
    onConversation (·.appendAssistantTranscript text)
    let s ← get
    note (.appended s.conv.responseGeneration text origins)

end Transcript

end VoiceAgent.RealtimeLifecycle
