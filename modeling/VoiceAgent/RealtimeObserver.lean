import VoiceAgent.RealtimeLifecycle

/-!
`RealtimeLifecycleObserver`: the pipeline observer that turns frame traffic into
Realtime events. It is pushed one frame at a time; a frame crosses several
pipeline edges and is handled at the first one it is not remembered from.
Nothing in here raises, so the logging handlers of `on_push_frame` have no counterpart.
-/
namespace VoiceAgent.RealtimeObserver

open RealtimeEvents Conversation Coroutine RealtimeLifecycle

/-- `deque(maxlen)`: the oldest id falls out. -/
def pushBounded (maxlen : ℕ) (history : List ℕ) (id : ℕ) : List ℕ :=
  (history ++ [id]).drop (history.length + 1 - maxlen)

/-- The processed set and the bounded history after a new id; the set is rebuilt
once the history has dropped something. -/
def rememberIn (maxlen : ℕ) (processed : Finset ℕ) (history : List ℕ) (id : ℕ) :
    Finset ℕ × List ℕ :=
  let processed := insert id processed
  let history := pushBounded maxlen history id
  (if history.length < processed.card then history.toFinset else processed, history)

/-- Whether this frame id is new and should be handled. -/
def rememberFrame (id : ℕ) : Prog Bool := do
  let s ← get
  if id ∈ s.obs.processedFrames then pure false
  else do
    onObserver fun o =>
      let r := rememberIn o.maxFrames o.processedFrames o.frameHistory id
      { o with processedFrames := r.1, frameHistory := r.2 }
    note (.handled id (decide (s.conv.responseStatus = some .inProgress)))
    pure true

/-- Metric frames are deduplicated without touching the lifecycle's memory. -/
def rememberMetricFrame (id : ℕ) : Prog Bool := do
  let s ← get
  if id ∈ s.obs.processedMetricFrames then pure false
  else do
    onObserver fun o =>
      let r := rememberIn o.maxFrames o.processedMetricFrames o.metricFrameHistory id
      { o with processedMetricFrames := r.1, metricFrameHistory := r.2 }
    pure true

def clearFrameDedupe : Prog Unit :=
  modify fun s => Shared.record
    { s with obs := { s.obs with processedFrames := ∅, frameHistory := [] } } .dedupeCleared

def clearLlmText (o : Observer) : Observer :=
  { o with llmTextBuffer := [], llmTextGeneration := 0, llmTextOrigins := [] }

def takeResponseTelemetry : Prog RealtimeResponseTelemetry := do
  let s ← get
  onObserver fun o => { o with metrics := [] }
  pure ⟨s.obs.metrics⟩

/-- The hook the serializer calls on a cancel: drain the buffered LLM text. -/
def onResponseCancelled : Prog (Text × List ℕ) := do
  let s ← get
  onObserver fun o => { clearLlmText o with botTranscriptFromTts := false }
  clearFrameDedupe
  pure (s.obs.llmTextBuffer, s.obs.llmTextOrigins)

def emitTranscriptDelta (site : Site) (text : Text) (origins : List ℕ) : Prog Unit := do
  let s ← get
  emit site
    (.outputAudioTranscriptDelta s.conv.responseId s.conv.assistantItemId text) origins

section UserTurn

def emitUserItemIfNeeded (item : ItemId) : Prog Unit := do
  let new ← askConversation (·.announceUserItem)
  if new then do
    let s ← get
    emit .emitting (.userItemCreated item (s.conv.pendingUserTranscript.getD [])) []
  else pure ()

def emitUserTranscriptIfReady : Prog Unit := do
  let ready ← askConversation (·.readyUserTranscript)
  match ready with
  | none => pure ()
  | some (item, transcript) => do
    emitUserItemIfNeeded item
    emit .emitting (.inputTranscriptCompleted item transcript) []
    onConversation (·.clearUserItem)

def userStarted : Prog Unit := do
  let (item, audioStartMs) ← askConversation (·.beginUserTurn)
  emit .emitting (.speechStarted item audioStartMs) []

def userStopped : Prog Unit := do
  let (item, audioEndMs) ← askConversation (·.stopUserTurn)
  emit .emitting (.speechStopped item audioEndMs) []
  emit .emitting (.audioCommitted item) []
  emitUserItemIfNeeded item
  emitUserTranscriptIfReady

def interimTranscription (text : Text) : Prog Unit := do
  let s ← get
  if s.conv.userTurnStartSample = none ∨ s.conv.userTurnStopped = true then pure ()
  else do
    let item ← askConversation (·.beginUserItem)
    emit .emitting (.inputTranscriptDelta item text) []

def finalTranscription (text : Text) : Prog Unit := do
  onConversation (·.setUserTranscript text)
  emitUserTranscriptIfReady

end UserTurn

section Response

/-- Text of a silent reply is still in the buffer when the response finishes; it
becomes the transcript, unless spoken text did or the buffer is of another generation. -/
def flushLlmText (cause : Option ℕ) : Prog Unit := do
  let s ← get
  let buffer := if s.obs.llmTextGeneration ≠ s.conv.responseGeneration then []
    else s.obs.llmTextBuffer
  if s.obs.botTranscriptFromTts = false ∧ buffer ≠ [] ∧ s.conv.assistantTranscript = [] then do
    appendAssistantTranscript buffer s.obs.llmTextOrigins
    emitTranscriptDelta (.flushed cause) buffer s.obs.llmTextOrigins
  else pure ()

def finishResponse (status : ResponseStatus) (cause : Option ℕ) : Prog Unit := do
  let s ← get
  if s.conv.responseStatus ≠ some .inProgress then
    onObserver fun o => { clearLlmText o with botTranscriptFromTts := false }
  else do
    flushLlmText cause
    let telemetry ← takeResponseTelemetry
    let _ ← RealtimeLifecycle.finishResponse status (some telemetry) cause
    onObserver fun o => { clearLlmText o with botTranscriptFromTts := false }
    clearFrameDedupe

def botStartedSpeaking : Prog Unit := do
  let (_, created) ← announceResponse []
  if created then onObserver fun o => { clearLlmText o with botTranscriptFromTts := false }
  else pure ()

/-- A repeated sentence is not appended again, but it still counts as spoken. -/
def ttsText (text : Text) (origin : Option ℕ) : Prog Unit :=
  if text = [] then pure ()
  else do
    let _ ← announceResponse origin.toList
    let s ← get
    if text <:+ s.conv.assistantTranscript then
      onObserver fun o => { clearLlmText o with botTranscriptFromTts := true }
    else do
      appendAssistantTranscript text origin.toList
      onObserver fun o => { clearLlmText o with botTranscriptFromTts := true }
      emitTranscriptDelta .emitting text origin.toList

def llmText (text : Text) (origin : Option ℕ) : Prog Unit :=
  if text = [] then pure ()
  else do
    let _ ← announceResponse origin.toList
    modify fun s => { s with obs := { s.obs with
      llmTextBuffer := s.obs.llmTextBuffer ++ text
      llmTextGeneration := s.conv.responseGeneration
      llmTextOrigins := s.obs.llmTextOrigins ++ origin.toList } }

end Response

section Tools

def argumentsText : ToolArguments → Text
  | .missing => "\x7b\x7d".toList
  | .json text => text

def rememberCall (callId : Text) : Prog Unit :=
  if callId = [] then pure ()
  else onObserver fun o => { o with emittedFunctionCalls := insert callId o.emittedFunctionCalls }

def forgetCall (callId : Text) : Prog Unit :=
  if callId = [] then pure ()
  else onObserver fun o => { o with emittedFunctionCalls := o.emittedFunctionCalls.erase callId }

/-- A call is announced once; a call without an id cannot be recognised again. -/
def emitServerToolStarted (call : ToolCall) : Prog Unit := do
  let s ← get
  if call.toolCallId ≠ [] ∧ call.toolCallId ∈ s.obs.emittedFunctionCalls then pure ()
  else do
    rememberCall call.toolCallId
    emit .emitting
      (.nvidiaToolStarted call.toolCallId call.functionName (argumentsText call.arguments)) []

def emitServerToolsStarted : List ToolCall → Prog Unit
  | [] => pure ()
  | call :: rest => do
    emitServerToolStarted call
    emitServerToolsStarted rest

def functionCallResult (call : ToolCall) (result : Text) : Prog Unit := do
  emit .emitting (.nvidiaToolCompleted call.toolCallId call.functionName
    (argumentsText call.arguments) result) []
  forgetCall call.toolCallId

end Tools

def handleFrame (data : FramePushed) : Prog Unit :=
  match data.frame with
  | .userStartedSpeaking => userStarted
  | .userStoppedSpeaking => userStopped
  | .interimTranscription text => interimTranscription text
  | .transcription text => finalTranscription text
  | .botStartedSpeaking => botStartedSpeaking
  | .ttsText text => ttsText text data.origin
  | .llmText text => llmText text data.origin
  | .llmFullResponseEnd skipTts =>
    if skipTts then finishResponse .completed data.origin else pure ()
  | .functionCallsStarted calls => emitServerToolsStarted calls
  | .functionCallInProgress call => emitServerToolStarted call
  | .functionCallResult call result => functionCallResult call result
  | .ttsStopped => finishResponse .completed data.origin
  | .error .. | .interruption | .metrics _ | .other => pure ()

/-- A response that was only reserved is announced before it fails. -/
def pipelineError (message : String) (fatal : Bool) : Prog Unit := do
  emit .emitting (.error message "pipeline_error" none none) []
  if fatal then do
    let s ← get
    if s.conv.responseRequested then do
      let _ ← announceResponse []
      finishResponse .failed none
    else finishResponse .failed none
  else onConversation (·.releaseResponseRequest)

/-- `_OBSERVED_FRAME_TYPES`: every frame the observer maps to events. -/
def observed : Frame → Bool
  | .metrics _ | .other => false
  | _ => true

/-- Errors and interruptions are handled in either direction, everything else
downstream only. The TTS stop is pushed by the TTS service first and by the
output transport once its audio has drained; only the second edge counts. -/
def onPushFrame (data : FramePushed) : Prog Unit :=
  match data.frame with
  | .error message fatal => do
    let new ← rememberFrame data.id
    if new then pipelineError message fatal else pure ()
  | .interruption => do
    let new ← rememberFrame data.id
    if new then finishResponse .cancelled data.origin else pure ()
  | frame =>
    if frame = .ttsStopped ∧ data.fromOutputTransport = false then pure ()
    else if data.downstream = false then pure ()
    else match frame with
      | .metrics text => do
        let new ← rememberMetricFrame data.id
        if new then onObserver fun o => { o with metrics := o.metrics ++ [text] } else pure ()
      | frame =>
        if observed frame then do
          let new ← rememberFrame data.id
          if new then handleFrame data else pure ()
        else pure ()

end VoiceAgent.RealtimeObserver
