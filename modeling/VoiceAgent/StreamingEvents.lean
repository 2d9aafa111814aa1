import Mathlib.Data.Rat.Defs
import Mathlib.Data.List.Basic
import Mathlib.Data.List.DropRight

/-!
The data of the streaming vLLM session: chat requests and completion chunks, the
events of the `/v1/streaming-session` websocket, and the user text buffer that both
of its ends keep. vLLM itself is a parameter: `Vllm` holds the two calls whose
result decides how an event is handled.
-/
namespace VoiceAgent.StreamingEvents

abbrev Text := List Char

instance : LawfulBEq Text := inferInstanceAs (LawfulBEq (List Char))

abbrev Token := ℕ

section Chat

inductive Role
  | system | user | assistant | tool
  deriving DecidableEq

structure ToolCall where
  id : Text := []
  name : Text := []
  arguments : Text := []
  deriving DecidableEq

structure ChatMessage where
  role : Role
  content : Option Text := none
  toolCalls : List ToolCall := []
  deriving DecidableEq

structure ToolCallDelta where
  index : ℕ
  id : Option Text := none
  name : Option Text := none
  arguments : Option Text := none
  deriving DecidableEq

structure Delta where
  content : Option Text := none
  toolCalls : List ToolCallDelta := []
  deriving DecidableEq

inductive FinishReason
  | stop | length | toolCalls | abort
  deriving DecidableEq

structure Choice where
  delta : Delta := {}
  finishReason : Option FinishReason := none
  deriving DecidableEq

/-- A chat completion chunk. -/
structure Chunk where
  choices : List Choice := []
  deriving DecidableEq

/-- The first of two texts that Python's `or` takes. -/
def textOr (text : Option Text) (default : Text) : Text :=
  match text with
  | none | some [] => default
  | some t => t

def addCall (calls : List ToolCall) (call : ToolCallDelta) : List ToolCall :=
  let blank : ToolCall := {}
  (calls ++ List.replicate (call.index + 1 - calls.length) blank).modify call.index fun entry =>
    { id := textOr call.id entry.id
      name := entry.name ++ textOr call.name []
      arguments := entry.arguments ++ textOr call.arguments [] }

/-- Accumulate a chunk's content and tool calls into an assistant message. -/
def addDelta (message : ChatMessage) (delta : Delta) : ChatMessage :=
  let content := match delta.content with
    | none | some [] => message.content
    | some text => some (textOr message.content [] ++ text)
  { message with
    content := content
    toolCalls := delta.toolCalls.foldl addCall message.toolCalls }

end Chat

section Requests

/-- The `request` object of a `session.update`; a field it does not name is `none`. -/
structure SessionRequest where
  messages : Option (List ChatMessage) := none
  addGenerationPrompt : Option Bool := none
  continueFinalMessage : Option Bool := none
  skipSpecialTokens : Option Bool := none
  spacesBetweenSpecialTokens : Option Bool := none
  maxCompletionTokens : Option ℕ := none
  maxTokens : Option ℕ := none
  truncatePromptTokens : Option ℤ := none
  others : List (Text × Text) := []
  deriving DecidableEq

/-- A `ChatCompletionRequest` with the protocol's defaults filled in. -/
structure ChatRequest where
  messages : List ChatMessage
  stream : Bool := true
  includeUsage : Bool := true
  addGenerationPrompt : Bool := true
  continueFinalMessage : Bool := false
  skipSpecialTokens : Bool := true
  spacesBetweenSpecialTokens : Bool := true
  maxCompletionTokens : Option ℕ := none
  maxTokens : Option ℕ := none
  truncatePromptTokens : Option ℤ := none
  others : List (Text × Text) := []
  deriving DecidableEq

inductive RequestOutputKind
  | cumulative | delta | finalOnly
  deriving DecidableEq

structure SamplingParams where
  maxTokens : Option ℕ
  temperature : ℚ
  ignoreEos : Bool := false
  outputKind : RequestOutputKind := .cumulative
  skipSpecialTokens : Bool := true
  spacesBetweenSpecialTokens : Bool := true
  deriving DecidableEq

/-- One throwaway token, with the special tokens the tool parser asked to keep. -/
def prefillParams (request : ChatRequest) : SamplingParams where
  maxTokens := some 1
  temperature := 0
  ignoreEos := true
  outputKind := .delta
  skipSpecialTokens := request.skipSpecialTokens
  spacesBetweenSpecialTokens := request.spacesBetweenSpecialTokens

/-- What Python's `str.isspace` accepts. -/
def isSpace (c : Char) : Bool :=
  [0x09, 0x0A, 0x0B, 0x0C, 0x0D, 0x1C, 0x1D, 0x1E, 0x1F, 0x20, 0x85, 0xA0, 0x1680,
    0x2028, 0x2029, 0x202F, 0x205F, 0x3000].contains c.toNat ||
  (0x2000 ≤ c.toNat && c.toNat ≤ 0x200A)

def rstrip (text : Text) : Text := (text.reverse.dropWhile isSpace).reverse

def strip (text : Text) : Text := rstrip (text.dropWhile isSpace)

/-- What is stripped already stays as it is. -/
theorem strip_strip (text : Text) : strip (strip text) = strip text := by
  have hright : ∀ t : Text, rstrip t = t.rdropWhile isSpace := fun _ => rfl
  have hprefix : strip text <+: text.dropWhile isSpace := by
    rw [strip, hright]
    exact List.rdropWhile_prefix isSpace _
  have hleft : (strip text).dropWhile isSpace = strip text := by
    obtain ⟨rest, hrest⟩ := hprefix
    have hhead := List.head?_dropWhile_not isSpace text
    rw [← hrest] at hhead
    cases hs : strip text with
    | nil => rfl
    | cons c tail =>
      rw [hs] at hhead
      have hc : isSpace c = false := by simpa using hhead
      simp [hc]
  rw [strip, hleft, strip, hright, hright, List.rdropWhile_idempotent]

/-- The text up to its last space. -/
def wholeWords (text : Text) : Text := (text.reverse.dropWhile (· != ' ')).reverse

/-- Before the commit only whole words are rendered. -/
def userText (text : Text) (final : Bool) : Text :=
  if final then text else rstrip (wholeWords text)

/-- Render the conversation with the user text so far. -/
def chatRequest (request : SessionRequest) (text : Text) (final : Bool) : ChatRequest where
  messages := request.messages.getD [] ++
    if userText text final = [] then []
    else [{ role := .user, content := some (userText text final) }]
  addGenerationPrompt := if final then request.addGenerationPrompt.getD true else false
  continueFinalMessage := if final then request.continueFinalMessage.getD false else true
  skipSpecialTokens := request.skipSpecialTokens.getD true
  spacesBetweenSpecialTokens := request.spacesBetweenSpecialTokens.getD true
  maxCompletionTokens := request.maxCompletionTokens
  maxTokens := request.maxTokens
  truncatePromptTokens := request.truncatePromptTokens
  others := request.others

/-- `invalid` is the message with which a request is refused by its own validation,
`answerParams` the limit and the parameters of an answer, given its prompt's length. -/
structure Vllm where
  invalid : ChatRequest → Option String
  answerParams : ChatRequest → ℕ → Except String SamplingParams

/-- A server that accepts every request. -/
def Vllm.accepting : Vllm where
  invalid _ := none
  answerParams _ _ := .ok { maxTokens := some 16, temperature := 1 }

end Requests

section Events

/-- A response is named by the client that commits it, or by the server for want of a name. -/
inductive ResponseId
  | named (n : ℕ)
  | minted (n : ℕ)
  deriving DecidableEq

/-- `malformed` is a message that is no JSON object, by the error it causes. -/
inductive ClientEvent
  | update (request : SessionRequest)
  | append (text : Text)
  | clear
  | commit (response : Option ResponseId)
  | cancel (response : Option ResponseId)
  | unknown (type : String)
  | malformed (message : String)
  deriving DecidableEq

/-- What an error event reports. The event itself does not carry it. -/
inductive Failure
  | prefill
  | commit (response : Option ResponseId)
  | answer (response : ResponseId)
  | other
  deriving DecidableEq

def ClientEvent.failure : ClientEvent → Failure
  | .update _ | .append _ => .prefill
  | .commit response => .commit response
  | _ => .other

inductive ServerEvent
  | created
  | delta (response : ResponseId) (chunk : Chunk)
  | done (response : ResponseId)
  | error (message code : String) (failure : Failure)
  deriving DecidableEq

/-- The chunks sent for a response. -/
def deltas (r : ResponseId) (events : List ServerEvent) : List Chunk :=
  events.filterMap fun
    | .delta r' chunk => if r' = r then some chunk else none
    | _ => none

@[simp] theorem deltas_append (r : ResponseId) (es es' : List ServerEvent) :
    deltas r (es ++ es') = deltas r es ++ deltas r es' :=
  List.filterMap_append

end Events

section Responses
variable {r : ℕ} {es es' : List ServerEvent}

/-- The response that a delta or a done event is of. -/
def about : ServerEvent → Option ResponseId
  | .delta response _ | .done response => some response
  | _ => none

def failureOf : ServerEvent → Option Failure
  | .error _ _ failure => some failure
  | _ => none

/-- The commit or the answer of the response has failed. -/
def Own (r : ℕ) (failure : Failure) : Prop :=
  failure = .commit (some (.named r)) ∨ failure = .answer (.named r)

instance (r : ℕ) (failure : Failure) : Decidable (Own r failure) :=
  inferInstanceAs (Decidable (_ ∨ _))

/-- The events up to the done event of a response. -/
def untilDone (r : ℕ) (events : List ServerEvent) : List ServerEvent :=
  events.takeWhile (· ≠ .done (.named r))

theorem untilDone_cons_done : untilDone r (.done (.named r) :: es) = [] := by
  simp [untilDone]

theorem untilDone_cons {e : ServerEvent} (h : e ≠ .done (.named r)) :
    untilDone r (e :: es) = e :: untilDone r es := by
  simp [untilDone, h]

theorem untilDone_append (h : .done (.named r) ∉ es) (es' : List ServerEvent) :
    untilDone r (es ++ es') = es ++ untilDone r es' := by
  induction es with
  | nil => rfl
  | cons e es ih =>
    rw [List.mem_cons, not_or] at h
    rw [List.cons_append, untilDone_cons (Ne.symm h.1), ih h.2, List.cons_append]

theorem untilDone_of_not_mem (h : .done (.named r) ∉ es) : untilDone r es = es := by
  have hnil : untilDone r [] = [] := rfl
  have hall := untilDone_append h []
  rwa [hnil, List.append_nil] at hall

theorem untilDone_done (h : .done (.named r) ∉ es) :
    untilDone r (es ++ [.done (.named r)]) = es := by
  rw [untilDone_append h, untilDone_cons_done, List.append_nil]

theorem untilDone_append_of_mem (h : .done (.named r) ∈ es) (es' : List ServerEvent) :
    untilDone r (es ++ es') = untilDone r es := by
  induction es with
  | nil => cases h
  | cons e es ih =>
    by_cases he : e = .done (.named r)
    · rw [he, List.cons_append, untilDone_cons_done, untilDone_cons_done]
    · rw [List.cons_append, untilDone_cons he, untilDone_cons he,
        ih ((List.mem_cons.mp h).resolve_left (Ne.symm he))]

theorem untilDone_mono (h : es <+: es') : untilDone r es <+: untilDone r es' := by
  obtain ⟨rest, rfl⟩ := h
  by_cases hmem : .done (.named r) ∈ es
  · have heq := untilDone_append_of_mem hmem rest
    exact ⟨[], by rw [List.append_nil, heq]⟩
  · rw [untilDone_append hmem, untilDone_of_not_mem hmem]
    exact List.prefix_append _ _

theorem deltas_mono {response : ResponseId} (h : es <+: es') :
    deltas response es <+: deltas response es' := by
  obtain ⟨rest, rfl⟩ := h
  rw [deltas_append]
  exact List.prefix_append _ _

theorem deltas_eq_nil {response : ResponseId} (h : ∀ e ∈ es, about e ≠ some response) :
    deltas response es = [] := by
  rw [deltas, List.filterMap_eq_nil_iff]
  intro e he
  cases e with
  | delta response' chunk =>
    have hne : response' ≠ response := fun heq => h _ he (congrArg some heq)
    exact if_neg hne
  | _ => rfl

end Responses

section Buffer

/-- The user text buffer and the conversation it belongs to, as one end keeps them. -/
structure Buffer where
  text : Text := []
  request : SessionRequest := {}
  deriving DecidableEq

/-- What a client event that does not fail makes of the buffer. -/
def Buffer.step (b : Buffer) : ClientEvent → Buffer
  | .update request => { b with request := request }
  | .append text => { b with text := b.text ++ text }
  | .clear => { b with text := [] }
  | .commit _ => { b with text := [] }
  | .cancel _ | .unknown _ | .malformed _ => b

/-- The buffer that a sequence of events makes of an empty one. -/
def replay (events : List ClientEvent) : Buffer := events.foldl Buffer.step {}

@[simp] theorem replay_nil : replay [] = {} := by
  simp [replay]

@[simp] theorem replay_concat (events : List ClientEvent) (e : ClientEvent) :
    replay (events ++ [e]) = (replay events).step e := by
  simp [replay]

end Buffer

end VoiceAgent.StreamingEvents
