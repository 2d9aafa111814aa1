import Mathlib.Algebra.Order.BigOperators.Group.List
import Mathlib.Algebra.Order.Group.Nat
import Mathlib.Algebra.Ring.Nat
import Mathlib.Data.List.Infix
import VoiceAgent.StreamingEvents

/-!
The token usage of a response. The counts of the metrics frames are added up field by field
until the response is done; what is reported is reconciled from the sums. The sums of a
response are those of its own frames.
-/
namespace VoiceAgent.ResponseUsage

open StreamingEvents

section Code

variable {F : Type}

/-- The interpreter's finite floats, as far as the metadata goes by them. -/
structure Floats (F : Type) where
  positive : F → Bool
  perSecond : ℕ → F → F
  round : F → F
  average : List F → F
  dumps : List (String × List F) → Text
  dumpsAggregated : List (String × F × ℕ) → Text

inductive TokenField
  | promptTokens
  | completionTokens
  | totalTokens
  | cacheReadInputTokens
  | inputAudioTokens
  | outputAudioTokens
  | cacheReadInputAudioTokens
  deriving DecidableEq

def tokenFields : List TokenField :=
  [.promptTokens, .completionTokens, .totalTokens, .cacheReadInputTokens, .inputAudioTokens,
    .outputAudioTokens, .cacheReadInputAudioTokens]

/-- The counts of an `LLMTokenUsage`; none where a field is absent or holds no integer. -/
abbrev TokenUsage := TokenField → Option ℕ

inductive SampleKey
  | asrTtfb
  | llmTtft
  | ttsTtfb
  | serverE2e
  | vadSmartTurn
  | llmProcessingTime
  deriving DecidableEq

def SampleKey.name : SampleKey → String
  | .asrTtfb => "asr_ttfb"
  | .llmTtft => "llm_ttft"
  | .ttsTtfb => "tts_ttfb"
  | .serverE2e => "server_e2e"
  | .vadSmartTurn => "vad_smart_turn"
  | .llmProcessingTime => "llm_processing_time"

def sampleKeys : List SampleKey :=
  [.asrTtfb, .llmTtft, .ttsTtfb, .serverE2e, .vadSmartTurn, .llmProcessingTime]

inductive Category
  | asr
  | llm
  | tts
  deriving DecidableEq

def mentions (value : Text) (words : List String) : Bool :=
  words.any fun word => word.toList <:+: value

/-- The words are plain letters: no letter beyond those becomes one of theirs in lower case. -/
def processorCategory (processor : Text) : Option Category :=
  let value := processor.map Char.toLower
  if mentions value ["stt", "asr", "transcription"] then some .asr
  else if mentions value ["tts", "texttospeech"] then some .tts
  else if mentions value ["llm"] then some .llm
  else none

def Category.ttfbKey : Category → SampleKey
  | .asr => .asrTtfb
  | .llm => .llmTtft
  | .tts => .ttsTtfb

/-- A value is none where `_metric_value` finds no finite number. -/
inductive Metric (F : Type)
  | ttfb (processor : Text) (value : Option F)
  | processing (processor : Text) (value : Option F)
  | llmUsage (usage : TokenUsage)
  | other

/-- The fields of a server message that are read. -/
inductive Raw (F : Type)
  | other
  | dict (type : Option String) (data : Raw F) (first : Bool) (latency vadSmartTurn : Option F)

inductive Frame (F : Type)
  | metrics (data : List (Metric F))
  | serverMessage (data : Raw F)

structure CachedTokensDetails where
  textTokens : ℕ
  audioTokens : Option ℕ
  deriving DecidableEq

structure InputTokenDetails where
  audioTokens : Option ℕ
  textTokens : Option ℕ
  cachedTokens : Option ℕ
  cachedTokensDetails : Option CachedTokensDetails
  deriving DecidableEq

structure OutputTokenDetails where
  audioTokens : ℕ
  textTokens : ℕ
  deriving DecidableEq

structure Usage where
  totalTokens : ℕ
  inputTokens : ℕ
  outputTokens : ℕ
  inputTokenDetails : Option InputTokenDetails
  outputTokenDetails : Option OutputTokenDetails
  deriving DecidableEq

structure Telemetry where
  usage : Option Usage
  metadata : Option Text
  deriving DecidableEq

/-- `RealtimeMetricsAccumulator` -/
structure Accumulator (F : Type) where
  samples : SampleKey → List F := fun _ => []
  tokenTotals : TokenField → ℕ := fun _ => 0
  tokenFieldsSeen : TokenField → Bool := fun _ => false
  pendingCompletionTokens : List ℕ := []
  pendingProcessingTimes : List F := []
  throughputSamples : List F := []

namespace Accumulator

def addSample (s : Accumulator F) (key : SampleKey) (value : F) : Accumulator F :=
  { s with samples := fun k => if k = key then s.samples k ++ [value] else s.samples k }

/-- The pairs of `_pair_throughput_samples`, each side in its order. -/
def paired (ops : Floats F) : List ℕ → List F → List F
  | tokens :: completions, time :: times =>
    (if ops.positive time then [ops.perSecond tokens time] else []) ++ paired ops completions times
  | _, _ => []

def pairThroughputSamples (ops : Floats F) (s : Accumulator F) : Accumulator F where
  samples := s.samples
  tokenTotals := s.tokenTotals
  tokenFieldsSeen := s.tokenFieldsSeen
  pendingCompletionTokens := s.pendingCompletionTokens.drop s.pendingProcessingTimes.length
  pendingProcessingTimes := s.pendingProcessingTimes.drop s.pendingCompletionTokens.length
  throughputSamples := s.throughputSamples ++
    paired ops s.pendingCompletionTokens s.pendingProcessingTimes

def addTokens (s : Accumulator F) (usage : TokenUsage) : Accumulator F :=
  { s with
    tokenTotals := fun key => s.tokenTotals key + (usage key).getD 0
    tokenFieldsSeen := fun key => s.tokenFieldsSeen key || (usage key).isSome }

def consumeMetric (ops : Floats F) (s : Accumulator F) : Metric F → Accumulator F
  | .ttfb processor value =>
    match processorCategory processor, value with
    | some category, some value => s.addSample category.ttfbKey value
    | _, _ => s
  | .processing processor value =>
    match processorCategory processor, value with
    | some .llm, some time =>
      let s := s.addSample .llmProcessingTime time
      pairThroughputSamples ops
        { s with pendingProcessingTimes := s.pendingProcessingTimes ++ [time] }
    | _, _ => s
  | .llmUsage usage =>
    let s := s.addTokens usage
    match usage .completionTokens with
    | some tokens =>
      pairThroughputSamples ops
        { s with pendingCompletionTokens := s.pendingCompletionTokens ++ [tokens] }
    | none => s
  | .other => s

def consumeMetricsFrame (ops : Floats F) (s : Accumulator F) (data : List (Metric F)) :
    Accumulator F :=
  data.foldl (consumeMetric ops) s

/-- A message of a wrapper counts, not the wrapper. -/
def unwrap : Raw F → Raw F
  | .dict (some "server-message") (.dict type data first latency vadSmartTurn) _ _ _ =>
    .dict type data first latency vadSmartTurn
  | raw => raw

def consumeServerMessage (s : Accumulator F) (raw : Raw F) : Accumulator F :=
  match unwrap raw with
  | .dict (some "user-bot-latency") _ false (some latency) _ => s.addSample .serverE2e latency
  | .dict (some "latency-breakdown") _ _ _ (some latency) => s.addSample .vadSmartTurn latency
  | _ => s

def consume (ops : Floats F) (s : Accumulator F) : Frame F → Accumulator F
  | .metrics data => s.consumeMetricsFrame ops data
  | .serverMessage data => s.consumeServerMessage data

/-- The truncated difference is `max(a - b, 0)`. -/
def buildUsage (s : Accumulator F) : Option Usage :=
  if tokenFields.any s.tokenFieldsSeen = false then none
  else
    let completionTokens := s.tokenTotals .completionTokens
    let reportedTotal := s.tokenTotals .totalTokens
    let promptTokens := s.tokenTotals .promptTokens
    let totalTokens := if reportedTotal ≠ 0 then reportedTotal else promptTokens + completionTokens
    let inputTokens := if reportedTotal ≠ 0 then totalTokens - completionTokens else promptTokens
    let inputAudioTokens := s.tokenTotals .inputAudioTokens
    let audioSeen := s.tokenFieldsSeen .inputAudioTokens
    let cachedSeen := s.tokenFieldsSeen .cacheReadInputTokens
    let cachedTokens := s.tokenTotals .cacheReadInputTokens
    let cachedAudioTokens := s.tokenTotals .cacheReadInputAudioTokens
    let outputAudioTokens := s.tokenTotals .outputAudioTokens
    some {
      totalTokens := totalTokens
      inputTokens := inputTokens
      outputTokens := completionTokens
      inputTokenDetails := if audioSeen || cachedSeen then some {
          audioTokens := if audioSeen then some inputAudioTokens else none
          textTokens := if audioSeen then some (inputTokens - inputAudioTokens) else none
          cachedTokens := if cachedSeen then some cachedTokens else none
          cachedTokensDetails := if cachedSeen then some {
              textTokens := cachedTokens - cachedAudioTokens
              audioTokens := if s.tokenFieldsSeen .cacheReadInputAudioTokens then
                some cachedAudioTokens else none } else none } else none
      outputTokenDetails := if s.tokenFieldsSeen .outputAudioTokens then some {
          audioTokens := outputAudioTokens
          textTokens := completionTokens - outputAudioTokens } else none }

def metadataValueMaxChars : ℕ := 512

/-- The samples in one value, or their averages where those are too long, or nothing. -/
def metadata (ops : Floats F) (s : Accumulator F) : Option Text :=
  let samples := (sampleKeys.filter fun key => !(s.samples key).isEmpty).map fun key =>
    (key.name, (s.samples key).map ops.round)
  let metrics := if s.throughputSamples.isEmpty then samples
    else samples ++ [("llm_tokens_per_sec", s.throughputSamples.map ops.round)]
  if metrics.isEmpty then none
  else
    let encoded := ops.dumps metrics
    let encoded := if metadataValueMaxChars < encoded.length then
      ops.dumpsAggregated (metrics.map fun m => (m.1, ops.average m.2, m.2.length)) else encoded
    if encoded.length ≤ metadataValueMaxChars then some encoded else none

/-- `clear` empties every collection in place. -/
def clear (_ : Accumulator F) : Accumulator F := {}

def finish (ops : Floats F) (s : Accumulator F) : Accumulator F × Telemetry :=
  (s.clear, { usage := s.buildUsage, metadata := s.metadata ops })

end Accumulator

end Code

section Sums

variable {F : Type} {ops : Floats F}

def usages : Frame F → List TokenUsage
  | .metrics data => data.filterMap fun
    | .llmUsage usage => some usage
    | _ => none
  | .serverMessage _ => []

theorem usages_cons (item : Metric F) (rest : List (Metric F)) :
    usages (.metrics (item :: rest)) = usages (.metrics [item]) ++ usages (.metrics rest) := by
  simp only [usages]
  exact List.filterMap_append (l := [item])

/-- The sum of a field over the frames. -/
def counted (key : TokenField) (frames : List (Frame F)) : ℕ :=
  ((frames.flatMap usages).map fun usage => (usage key).getD 0).sum

/-- The sums that an accumulator holds, and the fields it has seen. -/
structure Holds (s : Accumulator F) (usages : List TokenUsage) : Prop where
  totals : ∀ key, s.tokenTotals key = (usages.map fun usage => (usage key).getD 0).sum
  seen : ∀ key, s.tokenFieldsSeen key = usages.any fun usage => (usage key).isSome

theorem holds_empty : Holds ({} : Accumulator F) [] where
  totals _ := rfl
  seen _ := rfl

/-- Samples and pairs leave the sums alone. -/
theorem Holds.congr {s s' : Accumulator F} {l : List TokenUsage} (h : Holds s l)
    (htotals : s'.tokenTotals = s.tokenTotals) (hseen : s'.tokenFieldsSeen = s.tokenFieldsSeen) :
    Holds s' l where
  totals key := by rw [htotals, h.totals]
  seen key := by rw [hseen, h.seen]

theorem Holds.addTokens {s : Accumulator F} {l : List TokenUsage} (h : Holds s l)
    (usage : TokenUsage) : Holds (s.addTokens usage) (l ++ [usage]) where
  totals key := by simp [Accumulator.addTokens, h.totals key]
  seen key := by simp [Accumulator.addTokens, h.seen key]

theorem Holds.consumeMetric {s : Accumulator F} {l : List TokenUsage} (h : Holds s l)
    (item : Metric F) : Holds (s.consumeMetric ops item) (l ++ usages (.metrics [item])) := by
  cases item with
  | llmUsage usage =>
    have hadded := h.addTokens usage
    simp only [Accumulator.consumeMetric]
    split
    · exact hadded.congr rfl rfl
    · exact hadded
  | ttfb processor value =>
    simp only [Accumulator.consumeMetric, usages, List.filterMap_nil, List.filterMap_cons_none,
      List.append_nil]
    split
    · exact h.congr rfl rfl
    · exact h
  | processing processor value =>
    simp only [Accumulator.consumeMetric, usages, List.filterMap_nil, List.filterMap_cons_none,
      List.append_nil]
    split
    · exact h.congr rfl rfl
    · exact h
  | other => simpa [usages, Accumulator.consumeMetric] using h

theorem Holds.consume {s : Accumulator F} {l : List TokenUsage} (h : Holds s l)
    (frame : Frame F) : Holds (s.consume ops frame) (l ++ usages frame) := by
  cases frame with
  | serverMessage raw =>
    rw [usages, List.append_nil]
    simp only [Accumulator.consume, Accumulator.consumeServerMessage]
    split
    · exact h.congr rfl rfl
    · exact h.congr rfl rfl
    · exact h
  | metrics data =>
    simp only [Accumulator.consume, Accumulator.consumeMetricsFrame]
    induction data generalizing s l with
    | nil => simpa [usages] using h
    | cons item rest ih =>
      rw [usages_cons, ← List.append_assoc]
      exact ih (h.consumeMetric item)

theorem Holds.foldl {s : Accumulator F} {l : List TokenUsage} (h : Holds s l)
    (frames : List (Frame F)) :
    Holds (frames.foldl (Accumulator.consume ops) s) (l ++ frames.flatMap usages) := by
  induction frames generalizing s l with
  | nil => simpa using h
  | cons frame rest ih =>
    rw [List.foldl_cons, List.flatMap_cons, ← List.append_assoc]
    exact ih (h.consume frame)

/-- The accumulator of some frames alone. -/
def after (ops : Floats F) (frames : List (Frame F)) : Accumulator F :=
  frames.foldl (Accumulator.consume ops) {}

theorem tokenTotals_after (frames : List (Frame F)) (key : TokenField) :
    (after ops frames).tokenTotals key = counted key frames :=
  (holds_empty.foldl frames).totals key

end Sums

section Runs

variable {F : Type} {ops : Floats F}

inductive Event (F : Type)
  | consume (frame : Frame F)
  | finish
  | clear

/-- What the finishes of a run report. -/
def run (ops : Floats F) (s : Accumulator F) : List (Event F) → List Telemetry
  | [] => []
  | .consume frame :: rest => run ops (s.consume ops frame) rest
  | .finish :: rest => (s.finish ops).2 :: run ops (s.finish ops).1 rest
  | .clear :: rest => run ops s.clear rest

/-- For each finish the frames since the one before it, or since the last clear. -/
def spans (since : List (Frame F)) : List (Event F) → List (List (Frame F))
  | [] => []
  | .consume frame :: rest => spans (since ++ [frame]) rest
  | .finish :: rest => since :: spans [] rest
  | .clear :: rest => spans [] rest

/-- What is reported of some frames alone. -/
def telemetryOf (ops : Floats F) (frames : List (Frame F)) : Telemetry :=
  ((after ops frames).finish ops).2

theorem run_after (events : List (Event F)) : ∀ since : List (Frame F),
    run ops (after ops since) events = (spans since events).map (telemetryOf ops) := by
  induction events with
  | nil => exact fun _ => rfl
  | cons event rest ih =>
    intro since
    cases event with
    | consume frame =>
      have hstep : (after ops since).consume ops frame = after ops (since ++ [frame]) := by
        simp [after]
      rw [run, spans, hstep, ih]
    | finish => exact congrArg (telemetryOf ops since :: ·) (ih [])
    | clear => exact ih []

/-- Nothing of an earlier response takes part in a report. -/
theorem run_eq (events : List (Event F)) :
    run ops {} events = (spans [] events).map (telemetryOf ops) :=
  run_after events []

end Runs

section Reports

variable {F : Type} {ops : Floats F} {frames : List (Frame F)} {u : Usage}

/-- What a report of some frames says, in terms of their sums. -/
structure Reports (u : Usage) (frames : List (Frame F)) : Prop where
  output : u.outputTokens = counted .completionTokens frames
  total : u.totalTokens = if counted .totalTokens frames ≠ 0 then counted .totalTokens frames
    else counted .promptTokens frames + counted .completionTokens frames
  input : u.inputTokens = if counted .totalTokens frames ≠ 0 then
      counted .totalTokens frames - counted .completionTokens frames
    else counted .promptTokens frames
  inputText : ∀ d ∈ u.inputTokenDetails, d.textTokens = d.audioTokens.map (u.inputTokens - ·)
  outputText : ∀ d ∈ u.outputTokenDetails, d.textTokens = u.outputTokens - d.audioTokens

theorem reports_of_telemetryOf (h : u ∈ (telemetryOf ops frames).usage) : Reports u frames := by
  simp only [telemetryOf, Accumulator.finish, Accumulator.buildUsage, tokenTotals_after,
    Option.mem_def] at h
  split at h
  · cases h
  · cases h
    constructor <;> grind

/-- The reported totals cover the completions, or there are none. -/
def Covers (frames : List (Frame F)) : Prop :=
  counted .totalTokens frames = 0 ∨
    counted .completionTokens frames ≤ counted .totalTokens frames

/-- It is enough that each usage covers its own completion. -/
theorem covers_of_each (h : ∀ usage ∈ frames.flatMap usages,
    (usage .completionTokens).getD 0 ≤ (usage .totalTokens).getD 0) : Covers frames :=
  .inr (List.sum_le_sum h)

theorem Reports.adds_up (h : Reports u frames) (hcovers : Covers frames) :
    u.totalTokens = u.inputTokens + u.outputTokens := by
  rw [h.total, h.input, h.output]
  rcases hcovers with hnone | hcovered
  · simp [hnone]
  · split
    · omega
    · rfl

/-- Text and audio make up a side, or the audio alone exceeds it. -/
theorem Reports.input_details (h : Reports u frames) :
    ∀ d ∈ u.inputTokenDetails, ∀ audio ∈ d.audioTokens, ∃ text ∈ d.textTokens,
      text + audio = max u.inputTokens audio := by
  intro d hd audio haudio
  refine ⟨u.inputTokens - audio, ?_, Nat.sub_add_eq_max u.inputTokens audio⟩
  rw [h.inputText d hd, Option.mem_def.mp haudio]
  rfl

theorem Reports.output_details (h : Reports u frames) :
    ∀ d ∈ u.outputTokenDetails,
      d.textTokens + d.audioTokens = max u.outputTokens d.audioTokens := by
  intro d hd
  rw [h.outputText d hd]
  exact Nat.sub_add_eq_max u.outputTokens d.audioTokens

/-- Every report adds up what its own frames count. -/
theorem usage_adds_up (ops : Floats F) (events : List (Event F)) :
    run ops {} events = (spans [] events).map (telemetryOf ops) ∧
      ∀ frames ∈ spans [] events, ∀ u ∈ (telemetryOf ops frames).usage,
        (Covers frames → u.totalTokens = u.inputTokens + u.outputTokens) ∧
        (∀ d ∈ u.inputTokenDetails, ∀ audio ∈ d.audioTokens, ∃ text ∈ d.textTokens,
          text + audio = max u.inputTokens audio) ∧
        ∀ d ∈ u.outputTokenDetails,
          d.textTokens + d.audioTokens = max u.outputTokens d.audioTokens := by
  refine ⟨run_eq events, fun frames _ u hu => ?_⟩
  have hreports := reports_of_telemetryOf hu
  exact ⟨hreports.adds_up, hreports.input_details, hreports.output_details⟩

end Reports

section Clamped

structure AddsUp (u : Usage) : Prop where
  total : u.totalTokens = u.inputTokens + u.outputTokens
  input : ∀ d ∈ u.inputTokenDetails, ∀ audio ∈ d.audioTokens, ∀ text ∈ d.textTokens,
    text + audio = u.inputTokens
  output : ∀ d ∈ u.outputTokenDetails, d.textTokens + d.audioTokens = u.outputTokens

/-- Three tokens of input, four of them audio. -/
def audioHeavy : TokenUsage
  | .promptTokens => some 3
  | .completionTokens => some 5
  | .totalTokens => some 8
  | .inputAudioTokens => some 4
  | _ => none

def plainFloats : Floats Unit where
  positive _ := true
  perSecond _ _ := ()
  round _ := ()
  average _ := ()
  dumps _ := []
  dumpsAggregated _ := []

/-- The text of the input is not negative where its audio exceeds it. -/
theorem audio_exceeds_input : ¬ ∀ events : List (Event Unit),
    ∀ t ∈ run plainFloats {} events, ∀ u ∈ t.usage, AddsUp u := by
  intro h
  have hadds := h [.consume (.metrics [.llmUsage audioHeavy]), .finish] _
    (List.mem_singleton.mpr rfl) _ rfl
  exact absurd (hadds.input _ rfl 4 rfl 0 rfl) (by decide)

end Clamped

end VoiceAgent.ResponseUsage
