import VoiceAgent.RealtimeObserver

/-!
`RealtimeFrameSerializer`: client events in, output audio out, over the same
conversation state as the observer. `realtime` is the session as a system of
three tasks, each serving one piece of work after the other: the observer's
frames, the transport's output audio and the client's messages.
The emit callback and both observer hooks are always registered by the transport.
-/
namespace VoiceAgent.RealtimeSerializer

open RealtimeEvents Conversation Coroutine Interleaving RealtimeLifecycle RealtimeObserver

/-- Audio is dropped unless a response is active once it has been resampled. -/
def serializeOutputAudio (frame : OutputAudio) : Prog Unit :=
  if frame.audio = [] then pure ()
  else do
    let resampled ← Coro.pause (.resampling frame.origin)
    let s ← get
    if resampled = .failed ∨ s.conv.responseStatus ≠ some .inProgress then pure ()
    else do
      let (response, _) ← announceResponse frame.origin.toList
      let s ← get
      emit .emitting (.outputAudioDelta (some response) s.conv.assistantItemId frame.audio)
        frame.origin.toList

/-- Drain the observer's LLM text before the finish, so that a late TTS stop
cannot revive the turn. -/
def emitCancelledResponse : Prog Unit := do
  let (buffered, origins) ← onResponseCancelled
  let s ← get
  if buffered ≠ [] ∧ s.conv.assistantTranscript = [] then
    appendAssistantTranscript buffered origins
  else pure ()
  let telemetry ← takeResponseTelemetry
  let _ ← RealtimeLifecycle.finishResponse .cancelled (some telemetry) none

def emitError (eventId : Option Text) (message code : String) (param : Option String) :
    Prog (Option ReturnedFrame) := do
  emit .emitting (.error message code eventId param) []
  pure none

def deserializeResponseCreate (eventId : Option Text) (override : Bool) :
    Prog (Option ReturnedFrame) := do
  let s ← get
  if s.conv.assistantHasResponded = false then
    emitError eventId "response.create is not accepted before the first assistant response"
      "response_create_rejected_pre_intro" (some "type")
  else if override then
    emitError eventId ("response.create.response overrides are not supported in v1; " ++
      "omit the response field (or send \x7b\x7d) and use session-level config")
      "unsupported_response_override" (some "response")
  else do
    let reserved ← askConversation (·.requestResponse)
    if reserved then do
      let _ ← announceResponse []
      pure (some .llmRun)
    else
      emitError eventId "A response is already in progress"
        "conversation_already_has_active_response" (some "type")

/-- Whether a cancel that names `response` names another one than the active. -/
def cancelsOther (response active : Option ResponseId) : Bool :=
  match response with
  | none => false
  | some r => some r != active

/-- An idle cancel is a no-op. -/
def deserializeResponseCancel (eventId : Option Text) (response : Option ResponseId) :
    Prog (Option ReturnedFrame) := do
  let s ← get
  if s.conv.responseStatus ≠ some .inProgress ∨ s.conv.responseId = none then pure none
  else if cancelsOther response s.conv.responseId then
    emitError eventId "response_id does not match the active response" "invalid_value"
      (some "response_id")
  else do
    emitCancelledResponse
    pure (some (.interruption s.conv.responseGeneration))

/-- An active truncate is a barge-in, an idle one a no-op. -/
def deserializeTruncate (eventId : Option Text) (item : Option ItemId)
    (audioEndMs : Option ℕ) : Prog (Option ReturnedFrame) := do
  let s ← get
  match item, audioEndMs with
  | none, _ =>
    emitError eventId "conversation.item.truncate requires item_id"
      "invalid_truncate" (some "item_id")
  | some _, none =>
    emitError eventId "conversation.item.truncate requires non-negative integer audio_end_ms"
      "invalid_truncate" (some "audio_end_ms")
  | some item, some _ =>
    if some item ≠ s.conv.assistantItemId ∧ s.conv.itemTranscripts item = none then
      emitError eventId "unknown item_id for truncate" "invalid_truncate" (some "item_id")
    else if s.conv.responseStatus ≠ some .inProgress then pure none
    else do
      emitCancelledResponse
      pure (some (.interruption s.conv.responseGeneration))

def clientItemId : Option Text → Prog ItemId
  | some name => pure (.client name)
  | none => askConversation (·.newItemId)

def deserializeItemCreate (eventId : Option Text) (item : Option ClientItem) :
    Prog (Option ReturnedFrame) := do
  let s ← get
  match item with
  | none =>
    emitError eventId "conversation.item.create requires an item object" "invalid_item"
      (some "item")
  | some item =>
    if item.kind = .functionCallOutput then
      emitError eventId
        "Client function_call_output is not supported; server catalog tools run internally"
        "unsupported_item" (some "item.type")
    else if item.kind ≠ .message ∨ item.fromUser = false then
      emitError eventId "v1 only supports conversation.item.create for user text messages"
        "unsupported_item" (some "item")
    else match item.text with
    | none =>
      emitError eventId "conversation.item.create requires text content" "invalid_item"
        (some "item.content")
    | some text =>
      if s.conv.assistantHasResponded = false then
        emitError eventId "Client text is not accepted before the first assistant response"
          "item_rejected_pre_intro" (some "item")
      else do
        let itemId ← clientItemId item.id
        emit .emitting (.userItemCreated itemId text) []
        pure (some (.llmMessagesAppend text))

def deserialize (message : ClientMessage) : Prog (Option ReturnedFrame) :=
  match message.event with
  | .responseCreate override => deserializeResponseCreate message.eventId override
  | .responseCancel response => deserializeResponseCancel message.eventId response
  | .itemTruncate item audioEndMs => deserializeTruncate message.eventId item audioEndMs
  | .itemCreate item => deserializeItemCreate message.eventId item
  | .audioAppend bytes rate => do
    let resampled ← Coro.pause (.resampling none)
    if resampled = .failed then
      emitError message.eventId "invalid audio" "invalid_audio" (some "audio")
    else if bytes = 0 then pure none
    else do
      modify fun s => { s with bytesSinceCommit := s.bytesSinceCommit + bytes }
      onConversation (·.addInputAudio bytes rate)
      pure (some (.inputAudio bytes))
  | .audioCommit => do
    let s ← get
    if s.bytesSinceCommit = 0 then
      emitError message.eventId "input_audio_buffer is empty; append audio before commit"
        "input_audio_buffer_commit_empty" none
    else do
      modify fun s => { s with bytesSinceCommit := 0 }
      pure none
  | .audioClear => do
    modify fun s => { s with bytesSinceCommit := 0 }
    emit .emitting .audioCleared []
    pure none
  | .sessionUpdate voice => do
    emit .emitting .sessionUpdated []
    pure (if voice then some .ttsUpdateSettings else none)
  | .refused message' code param => emitError message.eventId message' code param

/-- One message of the client: the frame it yields goes to the pipeline. -/
def receive (message : ClientMessage) : Prog Unit := do
  let frame ← deserialize message
  match frame with
  | none => pure ()
  | some frame => note (.returned frame)

inductive Task
  | observer | output | client
  deriving DecidableEq

/-- A reply that is no work for the task is ignored. -/
def work : Task → Reply → Prog Unit
  | .observer, .push data => onPushFrame data
  | .output, .play audio => serializeOutputAudio audio
  | .client, .receive message => receive message
  | _, _ => pure ()

def realtime : System Empty Shared Site Reply Task Unit where
  head _ _ := .ready
  body t _ i := work t i
  crash _ e := e.elim

abbrev RealtimeView := View Task Site Shared

/-- A session before its first frame; without a welcome message the client may
send text at once. -/
def freshSession (maxFrames : ℕ) (textOpen : Bool) : Pool Empty Shared Site Reply Task Unit :=
  realtime.start
    { conv := { assistantHasResponded := textOpen }, obs := { maxFrames := maxFrames } }
    fun _ => ()

section Fresh
variable (maxFrames : ℕ) (textOpen : Bool)

@[simp] theorem freshSession_log : (freshSession maxFrames textOpen).view.shared.log = [] := rfl

@[simp] theorem freshSession_conv : (freshSession maxFrames textOpen).view.shared.conv =
    { assistantHasResponded := textOpen } := rfl

@[simp] theorem freshSession_obs : (freshSession maxFrames textOpen).view.shared.obs =
    { maxFrames := maxFrames } := rfl

@[simp] theorem freshSession_site (t : Task) :
    (freshSession maxFrames textOpen).view.site t = .ready := rfl

end Fresh

/-- Nothing but the three tasks touches the shared state. -/
def closedWorld (_ : RealtimeView) (_ : Shared) : Prop := False

/-- Every interleaving: any task may be given any reply at any await. -/
def anyReply (_ : RealtimeView) (_ : Task) (_ : Reply) : Prop := True

instance (v : RealtimeView) (s : Shared) : Decidable (closedWorld v s) := instDecidableFalse

instance (v : RealtimeView) (t : Task) (i : Reply) : Decidable (anyReply v t i) :=
  instDecidableTrue

end VoiceAgent.RealtimeSerializer
