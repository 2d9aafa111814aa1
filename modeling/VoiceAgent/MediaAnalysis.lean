import VoiceAgent.SpeakerContext
import VoiceAgent.Interleaving

/-!
Uploaded media and high-resolution captures of one session: the attachment store and its
callback, the capture request of the transport agent, and `MediaAnalysisController`. Every call
of `start_pending`, every job response and every capture analysis is a task; uploads, store
callbacks and the calls that only queue something come from outside, between two awaits.
Attachments, requests and tasks go by numbers, and an empty id is `none`.
-/
namespace VoiceAgent.MediaAnalysis

open StreamingEvents SpeakerContext Coroutine Interleaving

section Store

inductive Kind
  | image | audio | video
  deriving DecidableEq

inductive Source
  | upload | capture
  deriving DecidableEq

/-- The metadata of an attachment. -/
structure Attachment where
  id : ℕ
  kind : Kind
  name : Text
  contentType : Text
  bytes : ℕ
  source : Source
  deriving DecidableEq

/-- A file that is uploaded; `none` is a kind that is neither image, audio nor video. -/
structure Upload where
  kind : Option Kind := some .image
  name : Text := []
  contentType : Text := []
  bytes : ℕ
  deriving DecidableEq

def kindName : Kind → Text
  | .image => "image".toList
  | .audio => "audio".toList
  | .video => "video".toList

def readAttachment (u : Upload) (source : Source) (id : ℕ) : Except Text Attachment :=
  match u.kind with
  | none => .error "kind must be image, audio, or video".toList
  | some kind =>
    if u.bytes = 0 then .error "attachment is empty".toList
    else .ok
      { id := id
        kind := kind
        name := if strip u.name = [] then "attachment".toList else strip u.name
        contentType :=
          if strip u.contentType = [] then kindName kind ++ "/*".toList else strip u.contentType
        bytes := u.bytes
        source := source }

theorem readAttachment_ok {u : Upload} {source : Source} {id : ℕ} {a : Attachment}
    (h : readAttachment u source id = .ok a) : a.id = id ∧ a.source = source := by
  unfold readAttachment at h
  split at h
  · cases h
  · split at h
    · cases h
    · obtain rfl := Except.ok.inj h
      exact ⟨rfl, rfl⟩

end Store

/-- An upload analysis and a capture analysis go by the task that requests them. -/
inductive JobId
  | upload (n : ℕ)
  | capture (n : ℕ)
  deriving DecidableEq

inductive Action
  | none | new | rerun
  deriving DecidableEq

/-- The payload of a job. -/
structure Job where
  transcript : Text
  attachment : Attachment
  analysisPrompt : Text
  priorAnalysis : Text
  analysisAction : Action
  deriving DecidableEq

/-- The response of a job, with the id of its attachment. -/
structure Response where
  tts : Text := []
  analysis : Text := []
  appendPatch : Text := []
  isPatch : Bool := false
  reasoning : Text := []
  query : Text := []
  attachment : Option ℕ := none
  deriving DecidableEq

inductive Frame
  | captureRequest (request : ℕ)
  | responseStart
  | text (t : Text)
  | responseEnd
  | update (job : JobId) (detail : Text) (attachment : Option ℕ) (query reasoning : Text)
  deriving DecidableEq

/-- What happens to captures and jobs, as a record that no definition reads. -/
inductive Event
  | uploaded (attachment : ℕ)
  | asked (request : ℕ) (query : Text)
  | captured (attachment request : ℕ)
  | sent (job : JobId) (payload : Job)
  | failed (job : JobId)
  | answered (job : JobId)
  deriving DecidableEq

/-- `incoming` are the requests whose capture is accepted and being read, `captureTasks` the
captures given to `analyze_capture`, with their queries. -/
structure Media where
  attachments : List Attachment := []
  sequence : ℕ := 1
  captureRequest : Option ℕ := none
  requests : ℕ := 0
  incoming : List ℕ := []
  callbacks : ℕ := 0
  awaitingCapture : Bool := false
  pendingCaptureQuery : Text := []
  captureTasks : List (Attachment × Text) := []
  pendingTranscript : Text := []
  pendingPrompt : Text := []
  pendingAction : Action := .none
  pendingAttachmentId : Option ℕ := none
  activeAttachmentId : Option ℕ := none
  analyzedAttachmentId : Option ℕ := none
  captureTaskIds : List JobId := []
  findings : Text × Bool := ([], false)
  context : List Message
  frames : List Frame := []
  log : List Event := []

def pendingAnalysis : Text :=
  "PENDING — a freshly uploaded attachment is waiting and has not been analyzed yet".toList

def runningNote : Text := mediaAnalysisRunningPrefix ++
  " If the user asks for status before it completes, say it is still running.".toList

namespace Media

def record (s : Media) (e : Event) : Media := { s with log := s.log ++ [e] }

section Record
variable (s : Media) (e : Event)

@[simp] theorem record_attachments : (s.record e).attachments = s.attachments := rfl

@[simp] theorem record_captureTasks : (s.record e).captureTasks = s.captureTasks := rfl

@[simp] theorem record_captureTaskIds : (s.record e).captureTaskIds = s.captureTaskIds := rfl

@[simp] theorem record_log : (s.record e).log = s.log ++ [e] := rfl

end Record

def latestAttachment (s : Media) : Option Attachment := s.attachments.getLast?

def latestUserAttachment (s : Media) : Option Attachment :=
  s.attachments.reverse.find? fun a => a.source = .upload

def removeAttachment (s : Media) : Option ℕ → Media
  | none => s
  | some id => { s with attachments := s.attachments.filter fun a => a.id ≠ id }

section Remove
variable (s : Media) (id : Option ℕ)

@[simp] theorem removeAttachment_captureTasks :
    (s.removeAttachment id).captureTasks = s.captureTasks := by cases id <;> rfl

@[simp] theorem removeAttachment_captureTaskIds :
    (s.removeAttachment id).captureTaskIds = s.captureTaskIds := by cases id <;> rfl

@[simp] theorem removeAttachment_log : (s.removeAttachment id).log = s.log := by cases id <;> rfl

end Remove

def setFindings (s : Media) (findings : Text) (trusted : Bool) : Media :=
  { s with findings := (strip findings, trusted) }

def appendFindings (s : Media) (patch : Text) : Media :=
  let addition := strip patch
  if addition = [] then s
  else { s with
    findings := (if s.findings.1 = [] then addition else s.findings.1 ++ "\n- ".toList ++ addition,
      false) }

def setRunning (s : Media) (content : Text) : Media :=
  { s with context := setPinnedState s.context mediaAnalysisRunningPrefix content }

/-- `mark_attachment_pending` -/
def markAttachmentPending (s : Media) : Media :=
  match s.latestUserAttachment with
  | none => s
  | some a => if some a.id = s.analyzedAttachmentId then s else s.setFindings pendingAnalysis true

def clearPending (s : Media) : Media :=
  { s with
    pendingTranscript := []
    pendingPrompt := []
    pendingAction := .none
    pendingAttachmentId := none }

def queuePrompt (s : Media) (transcript prompt action selectedInputSource : Text) : Media :=
  let cleanedTranscript := strip transcript
  let cleanedPrompt := strip prompt
  if cleanedPrompt = [] ∧ cleanedTranscript = [] then s
  else if selectedInputSource ≠ "uploaded_attachment".toList then s.clearPending
  else match s.latestUserAttachment with
    | none => s.clearPending
    | some a =>
      if some a.id = s.activeAttachmentId then s.clearPending
      else { s with
        pendingTranscript := cleanedTranscript
        pendingPrompt := cleanedPrompt
        pendingAction := if action = "rerun".toList then .rerun else .new
        pendingAttachmentId := some a.id }

def clearPendingOnInterruption (s : Media) : Media :=
  if s.pendingTranscript = [] then s else s.clearPending

def queueHighresCapture (s : Media) (query : Text) : Media :=
  let asked := { s with pendingCaptureQuery := strip query }
  if strip query = [] then asked
  else { asked with
    awaitingCapture := true
    captureRequest := some s.requests
    requests := s.requests + 1
    frames := s.frames ++ [Frame.captureRequest s.requests] }.record
      (.asked s.requests (strip query))

/-- `store_attachment` for an upload of the user -/
def storeUpload (s : Media) (u : Upload) : Media :=
  match readAttachment u .upload s.sequence with
  | .error _ => s
  | .ok a =>
    { s with
      attachments := s.attachments ++ [a]
      sequence := s.sequence + 1
      callbacks := s.callbacks + 1 }.record (.uploaded a.id)

/-- `consume_capture_request`; the file of a capture is read once its request is consumed. -/
def acceptCapture (s : Media) (request : ℕ) : Media :=
  if s.captureRequest = some request then
    { s with captureRequest := none, incoming := s.incoming ++ [request] }
  else s

/-- `store_attachment` for an accepted capture, or `none` when its file cannot be read. -/
def storeCapture (s : Media) (request : ℕ) (u : Option Upload) : Media :=
  let taken := { s with incoming := s.incoming.erase request }
  match u with
  | none => taken
  | some u =>
    match readAttachment { u with kind := some .image } .capture s.sequence with
    | .error _ => taken
    | .ok a =>
      { taken with
        attachments := s.attachments ++ [a]
        sequence := s.sequence + 1
        callbacks := s.callbacks + 1 }.record (.captured a.id request)

/-- `_on_attachment_stored` -/
def onAttachmentStored (s : Media) : Media :=
  match s.latestAttachment with
  | none => s.markAttachmentPending
  | some latest =>
    if s.awaitingCapture ∧ latest.source = .capture then
      { s with
        awaitingCapture := false
        pendingCaptureQuery := []
        captureTasks := s.captureTasks ++ [(latest, s.pendingCaptureQuery)] }
    else s.markAttachmentPending

/-- What a response says of the upload is kept if that is still the latest one. -/
def noteAnalysis (s : Media) (r : Response) : Media :=
  match s.latestUserAttachment with
  | none => s
  | some a =>
    if some a.id ≠ r.attachment then s
    else if r.isPatch ∧ strip r.appendPatch ≠ [] then s.appendFindings (strip r.appendPatch)
    else if r.isPatch = false ∧ strip r.analysis ≠ [] then
      { s.setFindings (strip r.analysis) false with analyzedAttachmentId := r.attachment }
    else s

def closeActive (s : Media) (attachment : Option ℕ) : Media :=
  if attachment ≠ none ∧ s.activeAttachmentId = attachment then
    { s with activeAttachmentId := none }
  else s

end Media

section Calls

/-- Where a call can be stopped: at `request_job`, with the attachment of the job, and at the
delay or a frame of an answer, with the job, the attachment of the response and whether it is a
capture. -/
inductive Site
  | idle
  | requesting (attachment : ℕ)
  | answering (job : JobId) (attachment : Option ℕ) (isCapture : Bool)
  | finished
  deriving DecidableEq

inductive Reply
  | go
  | failed
  | start
  | response (job : JobId) (r : Response)
  deriving DecidableEq

inductive Exception
  | error
  deriving DecidableEq

abbrev Prog (α : Type) := Coro Exception Media Site Reply α

def queueFrame (l : Site) (f : Frame) : Prog Unit := do
  modify fun s => { s with frames := s.frames ++ [f] }
  let reply ← Coro.pause l
  if reply = .failed then Coro.raise .error else pure ()

/-- `start_pending`, call `n`. -/
def startPending (n : ℕ) : Prog Unit := do
  let s ← get
  modify (·.clearPending)
  if s.pendingTranscript = [] then pure ()
  else match s.latestUserAttachment with
    | none => pure ()
    | some a =>
      if some a.id ≠ s.pendingAttachmentId then pure ()
      else if some a.id = s.activeAttachmentId then pure ()
      else do
        modify fun s => { s with activeAttachmentId := some a.id }
        modify (·.record (.sent (.upload n)
          { transcript := s.pendingTranscript
            attachment := a
            analysisPrompt := s.pendingPrompt
            priorAnalysis :=
              if s.pendingAction ≠ .rerun ∧ some a.id = s.analyzedAttachmentId then s.findings.1
              else []
            analysisAction := s.pendingAction }))
        let reply ← Coro.pause (.requesting a.id)
        if reply = .failed then
          modify fun s => { s with activeAttachmentId := none }.record (.failed (.upload n))
        else modify (·.setRunning runningNote)

def captureQuery (query : Text) : Text :=
  if strip query = [] then "Describe what is visible in this image in detail.".toList
  else strip query

/-- `analyze_capture` of the task with number `n`. -/
def analyzeCapture (n : ℕ) (a : Attachment) (query : Text) : Prog Unit := do
  modify (·.record (.sent (.capture n)
    { transcript := captureQuery query
      attachment := a
      analysisPrompt := captureQuery query
      priorAnalysis := []
      analysisAction := .new }))
  let reply ← Coro.pause (.requesting a.id)
  if reply = .failed then
    modify fun s => (s.removeAttachment (some a.id)).record (.failed (.capture n))
  else modify fun s => { s with captureTaskIds := .capture n :: s.captureTaskIds }

/-- `_emit_analysis_response` -/
def emitAnalysisResponse (job : JobId) (r : Response) (isCapture : Bool) : Prog Unit := do
  let spoken := strip r.tts
  let l : Site := .answering job r.attachment isCapture
  modify fun s => if isCapture then s else s.setRunning []
  let _ ← Coro.pause l
  queueFrame l .responseStart
  queueFrame l (.text spoken)
  queueFrame l .responseEnd
  queueFrame l (.update job spoken r.attachment (strip r.query) (strip r.reasoning))

def removeCapture (r : Response) (isCapture : Bool) : Prog Unit :=
  modify fun s => if isCapture then s.removeAttachment r.attachment else s

/-- `handle_job_response` -/
def handleJobResponse (job : JobId) (r : Response) : Prog Unit := do
  modify (·.record (.answered job))
  let s ← get
  let isCapture : Bool := job ∈ s.captureTaskIds
  modify fun s => { s with captureTaskIds := s.captureTaskIds.filter (· ≠ job) }
  if strip r.tts = [] then removeCapture r isCapture
  else do
    modify fun s => if isCapture then s else s.noteAnalysis r
    (emitAnalysisResponse job r isCapture).ensure (removeCapture r isCapture)
    modify (·.closeActive r.attachment)

end Calls

section System

inductive Task
  | start (n : ℕ)
  | respond (m : ℕ)
  | capture (n : ℕ)
  deriving DecidableEq

inductive Loop
  | idle
  | finished
  deriving DecidableEq

def analyzeTask (n : ℕ) : Prog Loop := do
  let s ← get
  match s.captureTasks[n]? with
  | none => pure .idle
  | some (a, query) => do
    analyzeCapture n a query
    pure .finished

def turn (t : Task) (loop : Loop) (reply : Reply) : Prog Loop :=
  match t, loop, reply with
  | .start n, .idle, .start => do
    startPending n
    pure .finished
  | .respond _, .idle, .response job r => do
    handleJobResponse job r
    pure .finished
  | .capture n, .idle, .start => analyzeTask n
  | _, loop, _ => pure loop

def media : System Exception Media Site Reply Task Loop where
  head _ loop := match loop with
    | .idle => .idle
    | .finished => .finished
  body := turn
  crash _ _ := .finished

abbrev MediaView := View Task Site Media

abbrev MediaPool := Pool Exception Media Site Reply Task Loop

/-- The Speaker's context begins with a base prompt. -/
def freshMedia (base : Message) : MediaPool := media.start { context := [base] } fun _ => .idle

end System

section Outside

inductive Move
  | upload (u : Upload)
  | callback
  | highresCapture (query : Text)
  | acceptCapture (request : ℕ)
  | storeCapture (request : ℕ) (u : Option Upload)
  | prompt (transcript prompt action selectedInputSource : Text)
  | interruption
  deriving DecidableEq

/-- A callback is run once for each item stored, and only an accepted capture is stored. -/
def Move.Open (s : Media) : Move → Prop
  | .callback => 0 < s.callbacks
  | .storeCapture request _ => request ∈ s.incoming
  | _ => True

instance decidableOpen (s : Media) : (m : Move) → Decidable (m.Open s)
  | .callback => inferInstanceAs (Decidable (0 < s.callbacks))
  | .storeCapture request _ => inferInstanceAs (Decidable (request ∈ s.incoming))
  | .upload _ | .highresCapture _ | .acceptCapture _ | .prompt _ _ _ _ | .interruption =>
    .isTrue trivial

def Media.apply (s : Media) : Move → Media
  | .upload u => s.storeUpload u
  | .callback => onAttachmentStored { s with callbacks := s.callbacks - 1 }
  | .highresCapture query => s.queueHighresCapture query
  | .acceptCapture request => s.acceptCapture request
  | .storeCapture request u => s.storeCapture request u
  | .prompt transcript prompt action source => s.queuePrompt transcript prompt action source
  | .interruption => s.clearPendingOnInterruption

/-- A move from outside that is open and meets `cond` where it is made. -/
def outside (cond : Media → Move → Prop) (v : MediaView) (s : Media) : Prop :=
  ∃ m : Move, m.Open v.shared ∧ cond v.shared m ∧ s = v.shared.apply m

/-- A response belongs to a job that was sent, and is the only one. -/
def answersOnce (v : MediaView) (t : Task) (i : Reply) : Prop := match t, i with
  | .respond m, .response job _ => v.site (.respond m) = .idle →
    (∃ payload, .sent job payload ∈ v.shared.log) ∧ .failed job ∉ v.shared.log ∧
      .answered job ∉ v.shared.log
  | _, _ => True

end Outside

end VoiceAgent.MediaAnalysis
