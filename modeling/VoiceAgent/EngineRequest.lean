import VoiceAgent.StreamingEvents
import VoiceAgent.History
import Mathlib.Logic.Function.Basic
import Mathlib.Logic.Relation

/-!
One StreamingInput engine request: what the session feeds it, the generator that the
engine pulls its prompt chunks from, and the task that hands the engine's outputs on.
Each definition is one stretch of the code between two awaits. `yielded` and
`accepted` record the chunks and the answers the request has had; no definition reads them.
-/
namespace VoiceAgent.EngineRequest

open StreamingEvents History

/-- One output of the engine, by the finish reason of its only completion. -/
structure RequestOutput where
  tokenIds : List Token := []
  finishReason : Option FinishReason := none
  deriving DecidableEq

/-- `id` says which `_Answer` object it is. -/
structure Answer where
  id : ℕ
  responseId : ResponseId
  request : ChatRequest
  conversation : List ChatMessage
  params : SamplingParams
  promptTokenIds : List Token
  deriving DecidableEq

/-- A `StreamingInput`, and the answer it carries. -/
structure InputChunk where
  promptTokenIds : List Token
  samplingParams : Option SamplingParams
  answer : Option Answer
  deriving DecidableEq

/-- Where the input generator is stopped. -/
inductive Inputs
  | fresh
  | waking
  | yielded (answer : Option Answer)
  | chunkRunning
  | returned
  deriving DecidableEq

/-- The life of the task that `feed` creates. -/
inductive TaskState
  | unborn | scheduled | running | ended
  deriving DecidableEq

/-- `task` says whether `_task` still holds the task, `cancelling` whether the task
has been cancelled; `outputs` is what each answer's queue has been given. -/
structure Request where
  fed : List Token := []
  pending : List Token := []
  nextAnswer : Option Answer := none
  answer : Option Answer := none
  prefillParams : Option SamplingParams := none
  wake : Bool := false
  chunkDone : Bool := false
  closed : Bool := false
  task : Bool := false
  state : TaskState := .unborn
  cancelling : Bool := false
  inputs : Inputs := .fresh
  outputs : ℕ → List (Option RequestOutput) := fun _ => []
  yielded : List InputChunk := []
  accepted : List Answer := []

/-- The prompt tokens of a sequence of chunks. -/
def promptTokens (chunks : List InputChunk) : List Token :=
  chunks.flatMap InputChunk.promptTokenIds

@[simp] theorem promptTokens_nil : promptTokens [] = [] := by
  simp [promptTokens]

@[simp] theorem promptTokens_concat (chunks : List InputChunk) (c : InputChunk) :
    promptTokens (chunks ++ [c]) = promptTokens chunks ++ c.promptTokenIds := by
  simp [promptTokens]

namespace Request

section Session

/-- `extends`: the tokens continue what this request holds and can still be appended. -/
def extendedBy (r : Request) (tokens : List Token) : Bool :=
  !r.closed && tokens.take r.fed.length == r.fed

def enqueue (r : Request) (delta : List Token) (params : Option SamplingParams)
    (answer : Option Answer) : Request :=
  { r with
    fed := r.fed ++ delta
    pending := r.pending ++ delta
    nextAnswer := answer
    prefillParams := params
    accepted := r.accepted ++ answer.toList }

/-- `create_task(self._run())`, with its own input generator, unless there is a task. -/
def ensureTask (r : Request) : Request :=
  if r.task then r
  else { r with task := true, state := .scheduled, cancelling := false, inputs := .fresh }

/-- Queue the tokens beyond `fed`, which `tokens` must extend, and the answer if any. -/
def feed (r : Request) (tokens : List Token) (params : Option SamplingParams)
    (answer : Option Answer) : Request :=
  if tokens.drop r.fed.length = [] ∧ answer = none then r
  else { (r.enqueue (tokens.drop r.fed.length) params answer).ensureTask with wake := true }

/-- `stop` up to its first await: the task is taken and cancelled. -/
def stop (r : Request) : Request :=
  { r with task := false, closed := true, cancelling := r.cancelling || r.task }

end Session

section Engine

/-- One round of the generator's loop once it has been woken. -/
def takeInput (r : Request) : Request :=
  if r.pending = [] ∧ r.nextAnswer = none then { r with wake := false, inputs := .waking }
  else
    let params := match r.nextAnswer with
      | some a => some a.params
      | none => r.prefillParams
    { r with
      wake := false
      pending := []
      nextAnswer := none
      answer := r.nextAnswer
      chunkDone := false
      inputs := .yielded r.nextAnswer
      yielded := r.yielded ++ [⟨r.pending, params, r.nextAnswer⟩] }

def nextInput (r : Request) : Request :=
  if r.wake then r.takeInput else { r with inputs := .waking }

/-- The generator goes on, as far as it can, from where it is stopped. -/
def resumeInputs (r : Request) : Request :=
  match r.inputs with
  | .fresh | .waking => r.nextInput
  | .yielded (some _) => { r with closed := true, inputs := .returned }
  | .yielded none | .chunkRunning =>
    if r.chunkDone then r.nextInput else { r with inputs := .chunkRunning }
  | .returned => r

def put (r : Request) (a : Answer) (output : Option RequestOutput) : Request :=
  { r with outputs := Function.update r.outputs a.id (r.outputs a.id ++ [output]) }

def endAnswer (r : Request) : Request :=
  match r.answer with
  | none => { r with chunkDone := true }
  | some a => { r.put a none with answer := none, chunkDone := true }

/-- The event loop starts the task. One that has been cancelled never enters `_run`. -/
def begin (r : Request) : Request :=
  if r.cancelling then { r with state := .ended } else { r with state := .running }

/-- One turn of `_run`. -/
def onOutput (r : Request) (output : RequestOutput) : Request :=
  match r.answer with
  | none => { r with chunkDone := true }
  | some a =>
    let r := r.put a (some output)
    if output.finishReason.isSome then r.endAnswer else r

/-- `generate` ends, raises or is cancelled, and `_run` with it. -/
def finish (r : Request) : Request :=
  { r.endAnswer with state := .ended, inputs := .returned }

end Engine

end Request

/-- What the event loop and the engine do to a request. -/
inductive EngineAct
  | begin
  | inputs
  | output (output : RequestOutput)
  | finish
  deriving DecidableEq

namespace EngineAct

def enabled (r : Request) : EngineAct → Prop
  | .begin => r.state = .scheduled
  | .inputs | .output _ | .finish => r.state = .running

instance (r : Request) : ∀ act, Decidable (enabled r act)
  | .begin => inferInstanceAs (Decidable (r.state = .scheduled))
  | .inputs => inferInstanceAs (Decidable (r.state = .running))
  | .output _ => inferInstanceAs (Decidable (r.state = .running))
  | .finish => inferInstanceAs (Decidable (r.state = .running))

def apply (r : Request) : EngineAct → Request
  | .begin => r.begin
  | .inputs => r.resumeInputs
  | .output o => r.onOutput o
  | .finish => r.finish

end EngineAct

end VoiceAgent.EngineRequest
