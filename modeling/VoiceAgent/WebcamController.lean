import VoiceAgent.StreamingEvents
import VoiceAgent.JsonValues
import VoiceAgent.Interleaving

/-!
`WebcamController` and the frame store behind it: the camera's epochs, the loop that sends each
fresh frame to the WebcamAgent, and its observations. The loop is the one task; browser messages,
uploads, store callbacks and job responses come from outside, between two awaits of the loop, and
a queued frame is the last act of each. A job goes by its number, and the empty id is `none`.
-/
namespace VoiceAgent.WebcamController

open StreamingEvents JsonValues Coroutine Interleaving

/-- The session of the controller, and `str.lower`. -/
structure Config where
  sessionId : Text
  lower : Text → Text

section FrameStore

structure Upload where
  sessionId : Text
  name : Text := []
  contentType : Text := []
  data : List UInt8
  deriving DecidableEq

structure WebcamFrame where
  sequence : ℕ
  name : Text
  contentType : Text
  data : List UInt8
  deriving DecidableEq

def frameMaxBytes : ℕ := 5000000

def frameRingLimit : ℕ := 64

/-- The frame that `store_webcam_frame` makes of an upload, or the text of its error. -/
def readFrame (C : Config) (u : Upload) (sequence : ℕ) : Except Text WebcamFrame :=
  let given := C.lower (strip u.contentType)
  let cleanedContentType := if given = [] then "image/jpeg".toList else given
  let cleanedName := strip u.name
  if strip u.sessionId = [] then .error "session_id is required".toList
  else if ¬ "image/".toList <+: cleanedContentType then
    .error "webcam frame must be an image".toList
  else if u.data = [] then .error "webcam frame is empty".toList
  else if frameMaxBytes < u.data.length then
    .error "webcam frame exceeds max size (5000000 bytes)".toList
  else .ok
    { sequence := sequence
      name := if cleanedName = [] then "webcam-frame.jpg".toList else cleanedName
      contentType := cleanedContentType
      data := u.data }

end FrameStore

def cameraOffState : Text := "the camera is OFF right now — there is nothing visible live".toList

def cameraOnState : Text := "the camera just turned on; the live view is loading".toList

def noopObservation : Text := "no notable change".toList

def streamIntervalMs : ℕ := 800

def rstripDots (text : Text) : Text := (text.reverse.dropWhile (· = '.')).reverse

def isNoopObservation (C : Config) (observation : Text) : Bool :=
  C.lower (strip (rstripDots (strip observation))) = noopObservation

structure Response where
  observation : Text := []
  focus : Text := []
  visualControl : Json := .null
  frame : Json := .null
  deriving DecidableEq

/-- What the controller queues for the browser. -/
inductive Frame
  | uploadControl (active : Bool) (intervalMs : ℕ) (label : Text)
  | agentUpdate (observation focus : Text) (visualControl frame : Fields)
  deriving DecidableEq

/-- The payload of a job. -/
structure Job where
  frame : WebcamFrame
  previousObservation : Text
  deriving DecidableEq

/-- Toggles, frames by their sequence number, and jobs, as a record that no definition reads.
Only an enable or disable message that takes effect counts. -/
inductive Event
  | enabled
  | disabled
  | inferred
  | stored (frame : ℕ)
  | dispatched (job frame : ℕ)
  | accepted (job : ℕ)
  deriving DecidableEq

/-- The controller after `start_summary_loop`, with the store's `frames` and next `sequence`, the
`callbacks` that are scheduled, and the jobs that were answered or never sent. -/
structure Webcam where
  frames : List WebcamFrame := []
  sequence : ℕ := 1
  callbacks : ℕ := 0
  frameEvent : Bool := false
  uploadControlTask : Bool := false
  summaryTaskId : Option ℕ := none
  lastDispatchedSequence : ℕ := 0
  latestObservation : Text := []
  boardState : Text := cameraOffState
  findings : Text × Bool := (cameraOffState, true)
  enabled : Bool := false
  explicitlyDisabled : Bool := false
  epoch : ℤ := 0
  summaryEpoch : ℤ := -1
  jobs : List Job := []
  settled : List ℕ := []
  sent : List Frame := []
  log : List Event := []

namespace Webcam

def record (s : Webcam) (e : Event) : Webcam := { s with log := s.log ++ [e] }

/-- A note of this pipeline itself is trusted, an observation is not. -/
def setBoardState (s : Webcam) (text : Text) : Webcam :=
  if text = s.boardState then s
  else { s with
    boardState := text
    findings := (text, decide (text = cameraOffState ∨ text = cameraOnState)) }

def previousObservation (s : Webcam) : Text :=
  let state := strip s.boardState
  if state = [] ∨ state = cameraOffState ∨ state = cameraOnState then [] else state

def queueFrame (s : Webcam) (f : Frame) : Webcam := { s with sent := s.sent ++ [f] }

def startContinuousUploads (s : Webcam) : Webcam :=
  s.queueFrame (.uploadControl true streamIntervalMs "streaming".toList)

/-- `apply_webcam_state`; `none` is an `enabled` that is no boolean. -/
def applyWebcamState (s : Webcam) : Option Bool → Webcam
  | none => s
  | some enabled =>
    if enabled = s.enabled then s
    else if enabled then
      (setBoardState ({ s with
        enabled := true
        epoch := s.epoch + 1
        explicitlyDisabled := false }.record .enabled) cameraOnState).startContinuousUploads
    else
      (setBoardState ({ s with
        enabled := false
        epoch := s.epoch + 1
        explicitlyDisabled := true
        uploadControlTask := false
        frames := []
        latestObservation := [] }.record .disabled) cameraOffState).queueFrame
          (.uploadControl false 0 [])

/-- `store_webcam_frame`. The sequence numbers are those of all sessions together. -/
def storeWebcamFrame (C : Config) (s : Webcam) (u : Upload) : Webcam :=
  match readFrame C u s.sequence with
  | .error _ => s
  | .ok frame =>
    if strip u.sessionId = strip C.sessionId then
      { s with
        sequence := s.sequence + 1
        frames := (s.frames ++ [frame]).drop (s.frames.length + 1 - frameRingLimit)
        callbacks := s.callbacks + 1 }.record (.stored frame.sequence)
    else { s with sequence := s.sequence + 1 }

/-- `_notify_frame_uploaded`, which takes a fresh frame for a camera that is on. -/
def notifyFrameUploaded (s : Webcam) : Webcam :=
  if s.enabled then { s with frameEvent := true }
  else if s.explicitlyDisabled then s
  else
    { setBoardState ({ s with
        enabled := true
        epoch := s.epoch + 1 }.record .inferred) cameraOnState with
      uploadControlTask := true
      frameEvent := true }

/-- The response of job `k`, and whether its observation is accepted. -/
def handleSummaryResponse (C : Config) (s : Webcam) (k : ℕ) (r : Response) : Webcam × Bool :=
  let s := if s.summaryTaskId = some k then { s with summaryTaskId := none } else s
  let observation := strip r.observation
  if s.enabled = false ∨ s.summaryEpoch ≠ s.epoch then (s, false)
  else if observation = [] then (s, false)
  else
    let noted := { s with latestObservation := observation }
    let shown := if isNoopObservation C observation then noted else noted.setBoardState observation
    ((shown.record (.accepted k)).queueFrame
      (.agentUpdate observation (strip r.focus)
        (match r.visualControl with | .obj fields => fields | _ => .nil)
        (match r.frame with | .obj fields => fields | _ => .nil)), true)

/-- The frame goes to the WebcamAgent as the payload of a new job. -/
def dispatch (s : Webcam) (frame : WebcamFrame) : Webcam :=
  let job : Job := { frame := frame, previousObservation := s.previousObservation }
  { s with
    lastDispatchedSequence := frame.sequence
    jobs := s.jobs ++ [job] }.record (.dispatched s.jobs.length frame.sequence)

end Webcam

section Loop

/-- The loop waits for a frame or its interval, or for `request_job`, with the job and the
epoch of its dispatch. -/
inductive Site
  | waiting
  | requesting (job : ℕ) (epoch : ℤ)
  deriving DecidableEq

inductive Reply
  | go
  | failed
  deriving DecidableEq

abbrev Prog (α : Type) := Coro Empty Webcam Site Reply α

/-- One round of `_run_summary_loop`, from the end of its wait. -/
def runSummaryLoop : Prog Unit := do
  modify fun s => { s with frameEvent := false }
  let s ← get
  if s.summaryTaskId ≠ none ∨ s.enabled = false then pure ()
  else match s.frames.getLast? with
    | none => pure ()
    | some frame =>
      if frame.sequence = s.lastDispatchedSequence then pure ()
      else do
        modify (·.dispatch frame)
        let reply ← Coro.pause (.requesting s.jobs.length s.epoch)
        if reply = .failed then modify fun now =>
          { now with summaryTaskId := none, settled := s.jobs.length :: now.settled }
        else modify fun now =>
          { now with summaryTaskId := some s.jobs.length, summaryEpoch := s.epoch }

def webcam : System Empty Webcam Site Reply Unit Unit where
  head _ _ := .waiting
  body _ _ _ := runSummaryLoop
  crash _ _ := ()

abbrev WebcamView := View Unit Site Webcam

abbrev WebcamPool := Pool Empty Webcam Site Reply Unit Unit

def freshWebcam : WebcamPool := webcam.start {} fun _ => ()

end Loop

section Outside

inductive Move
  | webcamState (enabled : Option Bool)
  | upload (u : Upload)
  | callback
  | control
  | response (job : ℕ) (r : Response)
  deriving DecidableEq

/-- A callback is run once for each frame stored, and a job is answered once at most. -/
def Move.Open (s : Webcam) : Move → Prop
  | .webcamState _ | .upload _ => True
  | .callback => 0 < s.callbacks
  | .control => s.uploadControlTask = true
  | .response k _ => k < s.jobs.length ∧ k ∉ s.settled

instance decidableOpen (s : Webcam) : (m : Move) → Decidable (m.Open s)
  | .webcamState _ | .upload _ => .isTrue trivial
  | .callback => inferInstanceAs (Decidable (0 < s.callbacks))
  | .control => inferInstanceAs (Decidable (s.uploadControlTask = true))
  | .response k _ => inferInstanceAs (Decidable (k < s.jobs.length ∧ k ∉ s.settled))

def Webcam.apply (C : Config) (s : Webcam) : Move → Webcam
  | .webcamState enabled => s.applyWebcamState enabled
  | .upload u => s.storeWebcamFrame C u
  | .callback => notifyFrameUploaded { s with callbacks := s.callbacks - 1 }
  | .control => startContinuousUploads { s with uploadControlTask := false }
  | .response k r => (handleSummaryResponse C { s with settled := k :: s.settled } k r).1

/-- A move from outside that is open and meets `cond` where it is made. -/
def outside (C : Config) (cond : Webcam → Move → Prop) (v : WebcamView) (s : Webcam) : Prop :=
  ∃ m : Move, m.Open v.shared ∧ cond v.shared m ∧ s = v.shared.apply C m

end Outside

section Records

def toggles : Event → Bool
  | .enabled | .disabled | .inferred => true
  | _ => false

/-- The camera is switched on by a message. Before the first one it is the uploads themselves
that show it to be on. -/
def switchesOn : Event → Bool
  | .enabled => true
  | _ => false

def startOver (p : Event → Bool) (events : List Event) (e : Event) : List Event :=
  if p e then [] else events ++ [e]

/-- The events after the last one that is marked. -/
def since (p : Event → Bool) (log : List Event) : List Event := log.foldl (startOver p) []

theorem since_snoc (p : Event → Bool) (log : List Event) (e : Event) :
    since p (log ++ [e]) = startOver p (since p log) e := by
  simp [since, List.foldl_append]

end Records

end VoiceAgent.WebcamController
