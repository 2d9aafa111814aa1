import VoiceAgent.MediaAnalysis
import VoiceAgent.ThinkingController
import VoiceAgent.Zoom

/-!
`PostAckMediaDispatchProcessor`: which frames start the queued media analysis and the queued
thinking pass. Every call of `process_frame` is a task; it runs the `start_pending` of the two
controllers over their part of the session. What is queued comes from outside.
-/
namespace VoiceAgent.MediaDispatch

open StreamingEvents Coroutine Interleaving
open MediaAnalysis (Media Action)
open ThinkingController (Thinking Request requeue)

inductive Direction
  | upstream | downstream
  deriving DecidableEq

inductive Frame
  | configureOutput (skipTts : Bool)
  | responseStart
  | responseEnd
  | userStarted
  | vadUserStarted
  | userStopped
  | botStarted
  | botStopped
  | other
  deriving DecidableEq

/-- A media analysis prompt that is queued, as `start_pending` reads it. -/
structure Prompt where
  transcript : Text
  prompt : Text
  action : Action
  attachment : Option ℕ
  deriving DecidableEq

def queuedPrompt (m : Media) : Option Prompt :=
  if m.pendingTranscript = [] then none
  else some ⟨m.pendingTranscript, m.pendingPrompt, m.pendingAction, m.pendingAttachmentId⟩

/-- The attachment of the prompt is still the latest upload, and not being analysed. -/
def current (m : Media) : Bool := m.latestUserAttachment.any fun a =>
  some a.id = m.pendingAttachmentId ∧ some a.id ≠ m.activeAttachmentId

/-- Frame `n` is processed, with what `current` says then; what queue_prompt or an interruption
leaves in the queue; the turn of the thinking queue in call `n`, and whether no pass is active;
and the events of the two controllers. A record that no definition reads. -/
inductive Event
  | frame (n : ℕ) (f : Frame) (d : Direction) (current : Bool)
  | prompts (queued : Option Prompt)
  | media (e : MediaAnalysis.Event)
  | thinks (n : ℕ) (free : Bool)
  | thinking (e : ThinkingController.Event)
  deriving DecidableEq

/-- The processor, the agent's flags for the two voices, and the controllers. -/
structure Session where
  assistantSpeaking : Bool := false
  assistantInterrupted : Bool := false
  skipTts : Bool := false
  dispatchedThisTurn : Bool := false
  userVoice : Bool := false
  assistantVoice : Bool := false
  media : Media
  thinking : Thinking := {}
  log : List Event := []

namespace Session

def record (s : Session) (e : Event) : Session := { s with log := s.log ++ [e] }

/-- The new events of a controller are events of the session. -/
def setMedia (s : Session) (m : Media) : Session :=
  { s with
    media := m
    log := s.log ++ (m.log.drop s.media.log.length).map .media }

def setThinking (s : Session) (t : Thinking) : Session :=
  { s with
    thinking := t
    log := s.log ++ (t.log.drop s.thinking.log.length).map .thinking }

def queuePrompt (s : Session) (transcript prompt action selectedInputSource : Text) : Session :=
  let m := s.media.queuePrompt transcript prompt action selectedInputSource
  (s.setMedia m).record (.prompts (queuedPrompt m))

/-- `on_user_interrupted_assistant` -/
def onUserInterruptedAssistant (s : Session) : Session :=
  let m := s.media.clearPendingOnInterruption
  ((s.setMedia m).record (.prompts (queuedPrompt m))).setThinking s.thinking.clearPending

/-- `process_frame` for the start of the user's speech. -/
def userStarted (s : Session) : Session :=
  let s := if s.assistantSpeaking then
    { s with assistantInterrupted := true }.onUserInterruptedAssistant else s
  { s with userVoice := true }

end Session

section Calls

/-- A call stands at `push_frame`, or where a controller's `start_pending` does. -/
inductive Site
  | idle
  | pushing (f : Frame) (d : Direction)
  | media (l : MediaAnalysis.Site)
  | thinking (l : ThinkingController.Site)
  | finished
  deriving DecidableEq

inductive Reply
  | go
  | failed
  | start (f : Frame) (d : Direction)
  deriving DecidableEq

inductive Exception
  | error
  deriving DecidableEq

abbrev Prog (α : Type) := Coro Exception Session Site Reply α

def mediaPart : Zoom Exception Session Site Reply MediaAnalysis.Exception Media
    MediaAnalysis.Site MediaAnalysis.Reply where
  view s := s.media
  put m s := s.setMedia m
  site := .media
  reply i := if i = .failed then .failed else .go
  error _ := .error

def thinkingPart : Zoom Exception Session Site Reply ThinkingController.Exception Thinking
    ThinkingController.Site ThinkingController.Reply where
  view s := s.thinking
  put t s := s.setThinking t
  site := .thinking
  reply i := if i = .failed then .failed else .go
  error _ := .error

/-- `_dispatch_pending_work` in the call for frame `n`. -/
def dispatchPendingWork (n : ℕ) : Prog Unit := do
  let s ← get
  if s.dispatchedThisTurn then pure ()
  else do
    modify fun s => { s with dispatchedThisTurn := true }
    ((MediaAnalysis.startPending n).zoom mediaPart).handle fun _ => pure ()
    modify fun s => s.record (.thinks n (!s.thinking.active))
    ((ThinkingController.startPending n).zoom thinkingPart).handle fun _ => pure ()

/-- What `process_frame` does once the frame is pushed on. -/
def handleFrame (n : ℕ) (f : Frame) (d : Direction) : Prog Unit :=
  match f, d with
  | .configureOutput skipTts, .downstream => modify fun s => { s with skipTts := skipTts }
  | .responseStart, .downstream => modify fun s => { s with dispatchedThisTurn := false }
  | .userStarted, _ => modify (·.userStarted)
  | .vadUserStarted, _ => modify (·.userStarted)
  | .userStopped, _ => modify fun s => { s with userVoice := false }
  | .botStarted, .upstream => modify fun s =>
      { s with assistantSpeaking := true, assistantInterrupted := false, assistantVoice := true }
  | .botStopped, .upstream => do
    let s ← get
    modify fun s =>
      { s with assistantSpeaking := false, assistantInterrupted := false, assistantVoice := false }
    if s.assistantInterrupted then pure () else dispatchPendingWork n
  | .responseEnd, .downstream => do
    let s ← get
    if s.skipTts = true ∧ s.assistantSpeaking = false then dispatchPendingWork n else pure ()
  | _, _ => pure ()

/-- `process_frame`, call `n`. -/
def processFrame (n : ℕ) (f : Frame) (d : Direction) : Prog Unit := do
  let reply ← Coro.pause (.pushing f d)
  if reply = .failed then Coro.raise .error
  else do
    modify fun s => s.record (.frame n f d (current s.media))
    handleFrame n f d

end Calls

section System

inductive Loop
  | idle
  | finished
  deriving DecidableEq

def turn (n : ℕ) (loop : Loop) (reply : Reply) : Prog Loop :=
  match loop, reply with
  | .idle, .start f d => do
    processFrame n f d
    pure .finished
  | loop, _ => pure loop

def processor : System Exception Session Site Reply ℕ Loop where
  head _ loop := match loop with
    | .idle => .idle
    | .finished => .finished
  body := turn
  crash _ _ := .finished

abbrev SessionView := View ℕ Site Session

abbrev SessionPool := Pool Exception Session Site Reply ℕ Loop

/-- The media controller of a new session, over the Speaker's context. -/
def freshSession (base : SpeakerContext.Message) : SessionPool :=
  processor.start { media := { context := [base] } } fun _ => .idle

/-- The media controller goes on (uploads, captures, answers) without touching its queue. -/
def MediaBeside (m m' : Media) : Prop :=
  queuedPrompt m' = queuedPrompt m ∧
    ∃ es, m'.log = m.log ++ es ∧ ∀ n job, .sent (.upload n) job ∉ es

def ThinkingBeside (t t' : Thinking) : Prop :=
  t'.pending = t.pending ∧ ∃ es, t'.log = t.log ++ es ∧ ∀ e ∈ es, ∀ q, requeue q e = q

/-- `queue_prompt`, `queue`, and whatever else the controllers do beside their queues. -/
inductive Outside (s : Session) : Session → Prop
  | prompt (transcript prompt action source : Text) :
      Outside s (s.queuePrompt transcript prompt action source)
  | request (transcript reason : Text) :
      Outside s (s.setThinking (s.thinking.queue transcript reason))
  | media (m : Media) (h : MediaBeside s.media m) : Outside s (s.setMedia m)
  | thinking (t : Thinking) (h : ThinkingBeside s.thinking t) : Outside s (s.setThinking t)

def outside (v : SessionView) (s : Session) : Prop := Outside v.shared s

end System

section Track

/-- What the frames and the queues say so far: whether the assistant speaks and is interrupted,
whether speech is skipped, whether this response has had its dispatch, and what is queued. -/
structure Track where
  speaking : Bool := false
  interrupted : Bool := false
  skipTts : Bool := false
  dispatched : Bool := false
  prompt : Option Prompt := none
  request : Option Request := none
  deriving DecidableEq

namespace Track

/-- The bot's speech ends uninterrupted, or the response does while nothing is spoken. -/
def boundary (k : Track) (f : Frame) (d : Direction) : Bool := match f, d with
  | .botStopped, .upstream => !k.interrupted
  | .responseEnd, .downstream => k.skipTts && !k.speaking
  | _, _ => false

/-- The first boundary since the last response began. -/
def first (k : Track) (f : Frame) (d : Direction) : Bool := k.boundary f d && !k.dispatched

def frame (k : Track) (f : Frame) (d : Direction) : Track :=
  let k' := if k.first f d then { k with dispatched := true, prompt := none } else k
  match f, d with
  | .configureOutput skipTts, .downstream => { k' with skipTts := skipTts }
  | .responseStart, .downstream => { k' with dispatched := false }
  | .userStarted, _ => { k' with interrupted := k.interrupted || k.speaking }
  | .vadUserStarted, _ => { k' with interrupted := k.interrupted || k.speaking }
  | .botStarted, .upstream => { k' with speaking := true, interrupted := false }
  | .botStopped, .upstream => { k' with speaking := false, interrupted := false }
  | _, _ => k'

def step (k : Track) : Event → Track
  | .frame _ f d _ => k.frame f d
  | .prompts queued => { k with prompt := queued }
  | .media _ => k
  | .thinks _ _ => { k with request := none }
  | .thinking e => { k with request := requeue k.request e }

end Track

def track (log : List Event) : Track := log.foldl Track.step {}

theorem track_snoc (log : List Event) (e : Event) : track (log ++ [e]) = (track log).step e := by
  simp [track, List.foldl_append]

/-- What `g` finds in a log, event by event, in the light of what came before. -/
def collect {α : Type} (g : Track → Event → List α) (log : List Event) : List α :=
  (log.foldl (fun out e => (out.1.step e, out.2 ++ g out.1 e)) (({} : Track), [])).2

theorem collect_snoc {α : Type} (g : Track → Event → List α) (log : List Event) (e : Event) :
    collect g (log ++ [e]) = collect g log ++ g (track log) e := by
  have hfst : ∀ log : List Event,
      (log.foldl (fun out e => (out.1.step e, out.2 ++ g out.1 e)) (({} : Track), [])).1 =
        track log := by
    intro log
    induction log using List.reverseRecOn with
    | nil => rfl
    | append_singleton log e ih =>
      rw [track_snoc, ← ih]
      simp [List.foldl_append]
  rw [← hfst log]
  simp [collect, List.foldl_append]

/-- The frames at which the queues have their turn. -/
def boundaries (k : Track) : Event → List ℕ
  | .frame n f d _ => if k.first f d then [n] else []
  | _ => []

/-- The prompts that are queued at such a frame, for an attachment that is current. -/
def mediaDue (k : Track) : Event → List (ℕ × Prompt)
  | .frame n f d true => if k.first f d then (k.prompt.map fun p => (n, p)).toList else []
  | _ => []

def mediaSent (_ : Track) : Event → List (ℕ × Prompt)
  | .media (.sent (.upload n) job) =>
    [(n, ⟨job.transcript, job.analysisPrompt, job.analysisAction, some job.attachment.id⟩)]
  | _ => []

/-- The turns of the thinking queue. -/
def thinkingTurns (_ : Track) : Event → List ℕ
  | .thinks n _ => [n]
  | _ => []

/-- The requests that are queued at such a turn, while no pass is active. -/
def thinkingDue (k : Track) : Event → List (ℕ × Request)
  | .thinks n true => (k.request.map fun r => (n, r)).toList
  | _ => []

def thinkingStarted (_ : Track) : Event → List (ℕ × Request)
  | .thinking (.starts n r) => [(n, r)]
  | _ => []

end Track

end VoiceAgent.MediaDispatch
