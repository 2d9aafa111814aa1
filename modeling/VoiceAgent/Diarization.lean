import VoiceAgent.StreamingEvents

/-!
`SpeakerDiarizationProcessor`: final transcripts whose words carry speaker tags become
fragments of a user turn, and frames that name a speaker where the speaker changes. Word
times are in milliseconds; whether a gap between two of them is small enough for one word
is a parameter, for the code decides it in floating point.
-/
namespace VoiceAgent.Diarization

open StreamingEvents

section Results

structure Word where
  text : Text
  tag : Option ℤ := none
  start : ℤ := 0
  stop : ℤ := 0
  deriving DecidableEq

/-- The first alternative of an ASR result. -/
structure Alternative where
  transcript : Text
  words : List Word := []
  deriving DecidableEq

/-- `" ".join` -/
def unwords (parts : List Text) : Text := List.intercalate [' '] parts

/-- `Counter(tags).most_common(1)`: of equally common tags the first. -/
def mostCommon : List (Option ℤ) → Option ℤ
  | [] => none
  | tag :: tags => tags.foldl
      (fun best t => if (tag :: tags).count best < (tag :: tags).count t then t else best) tag

def extractSpeakerId (result : Option Alternative) : Option ℤ :=
  mostCommon (((result.map Alternative.words).getD []).map Word.tag)

/-- One word joins the last run, or begins a run of its own. -/
def addWord (runs : List (Option ℤ × List Text)) (word : Word) : List (Option ℤ × List Text) :=
  if word.text = [] then runs
  else match runs.getLast? with
    | some (tag, parts) =>
      if word.tag = none ∨ word.tag = tag then runs.dropLast ++ [(tag, parts ++ [word.text])]
      else runs ++ [(word.tag, [word.text])]
    | none => [(word.tag, [word.text])]

def splitTranscriptBySpeaker (result : Option Alternative) (fallbackText : Text) :
    List (Option ℤ × Text) :=
  let words := (result.map Alternative.words).getD []
  let runs := words.foldl addWord []
  if words = [] ∨ runs = [] then
    if strip fallbackText = [] then [] else [(extractSpeakerId result, strip fallbackText)]
  else runs.map fun run => (run.1, strip (unwords run.2))

def lastWordEnd (result : Option Alternative) : Option ℤ :=
  (((result.map Alternative.words).getD []).getLast?).map Word.stop

/-- `fits start stop`: the gap between the end of one word and the start of the next is at
least zero and at most a second. -/
def continuesPreviousWord (fits : ℤ → ℤ → Bool) (result : Option Alternative)
    (previousEnd : Option ℤ) : Bool :=
  match previousEnd, result with
  | some previousEnd, some { transcript := c :: _, words := word :: _ } =>
    ¬ isSpace c ∧ fits word.start previousEnd
  | _, _ => false

/-- `text.partition(" ")`, without the separator. -/
def partitionSpace (text : Text) : Text × Text :=
  (text.takeWhile (· ≠ ' '), (text.dropWhile (· ≠ ' ')).drop 1)

/-- A run joins the last one of the same speaker. -/
def mergeRun (merged : List (Option ℕ × Text)) (run : Option ℕ × Text) :
    List (Option ℕ × Text) :=
  match merged.getLast? with
  | some (speaker, words) =>
    if speaker = run.1 then merged.dropLast ++ [(speaker, words ++ ' ' :: run.2)]
    else merged ++ [run]
  | none => [run]

def reassignFirstWord (runs : List (Option ℕ × Text)) (speakerId : Option ℕ) :
    List (Option ℕ × Text) :=
  match runs with
  | [] => []
  | (tag, text) :: rest =>
    let (first, others) := partitionSpace text
    let reassigned := (speakerId, first) ::
      ((if others = [] then [] else [(tag, others)]) ++ rest)
    reassigned.foldl mergeRun []

def isCutPunctuation (c : Char) : Bool := c ∈ ['.', ',', '?', '!', ';', ':']

def trimCut (text : Text) : Text := (text.reverse.dropWhile isCutPunctuation).reverse

def joinCutWord (previous piece : Text) : Text := trimCut (rstrip previous) ++ piece

def extractWordSpan (result : Option Alternative) : Option (ℤ × ℤ) :=
  match (result.map Alternative.words).getD [] with
  | [] => none
  | word :: words =>
    let start := words.foldl (fun m w => min m w.start) word.start
    let stop := words.foldl (fun m w => max m w.stop) word.stop
    if stop ≤ start then none else some (start, stop)

end Results

section Fragments

structure TranscriptFragment where
  speakerId : Option ℕ
  text : Text
  start : Option ℤ := none
  stop : Option ℤ := none
  deriving DecidableEq

structure SpeakerRun where
  speakerId : Option ℕ
  text : Text
  start : Option ℤ := none
  stop : Option ℤ := none
  deriving DecidableEq

/-- The better of two times, of which either may be missing. -/
def orBetter (better : ℤ → ℤ → ℤ) (old new : Option ℤ) : Option ℤ :=
  match old, new with
  | some a, some b => some (better a b)
  | none, new => new
  | old, none => old

def addFragment (runs : List SpeakerRun) (fragment : TranscriptFragment) : List SpeakerRun :=
  let text := strip fragment.text
  if text = [] then runs
  else match runs.getLast? with
    | some run =>
      if fragment.speakerId = run.speakerId then
        runs.dropLast ++ [{ run with
          text := run.text ++ ' ' :: text
          start := orBetter min run.start fragment.start
          stop := orBetter max run.stop fragment.stop }]
      else runs ++ [⟨fragment.speakerId, text, fragment.start, fragment.stop⟩]
    | none => [⟨fragment.speakerId, text, fragment.start, fragment.stop⟩]

def groupFragmentsBySpeaker (fragments : List TranscriptFragment) : List SpeakerRun :=
  fragments.foldl addFragment []

end Fragments

section Processor

/-- `result` is `some none` for a result without an alternative; `spaced` is
`includes_inter_frame_spaces`. -/
structure Frame where
  final : Bool
  text : Text
  result : Option (Option Alternative)
  speakerTag : Option ℕ := none
  spaced : Bool := false
  deriving DecidableEq

/-- `speakerNumbers` lists the tags seen, each at its number. -/
structure Processor where
  multiSpeakerSupport : Bool
  turnSequence : ℕ := 0
  primarySpeakerId : Option ℕ := none
  lastSpeakerId : Option ℕ := none
  lastFinalSpeakerId : Option ℕ := none
  hasFinalText : Bool := false
  turnFragments : List TranscriptFragment := []
  previousFinalEnd : Option ℤ := none
  previousFinalSpeakerId : Option ℕ := none
  speakerNumbers : List ℤ := []
  deriving DecidableEq

/-- `setdefault(tag, len(numbers))` -/
def numberOf (numbers : List ℤ) (tag : ℤ) : List ℤ :=
  if tag ∈ numbers then numbers else numbers ++ [tag]

def numberSpeakers (numbers : List ℤ) :
    List (Option ℤ × Text) → List (Option ℕ × Text) × List ℤ
  | [] => ([], numbers)
  | (none, text) :: rest =>
    let (runs, numbers) := numberSpeakers numbers rest
    ((none, text) :: runs, numbers)
  | (some tag, text) :: rest =>
    let numbers := numberOf numbers tag
    let number := numbers.idxOf tag
    let (runs, numbers) := numberSpeakers numbers rest
    ((some number, text) :: runs, numbers)

def speakerPrefix (speakerId : ℕ) : Text :=
  "Speaker ".toList ++ (toString (speakerId + 1)).toList ++ ": ".toList

def setLlmSpacing (f : Frame) (glued : Bool) : Frame :=
  if ¬ f.final then f
  else
    let text := f.text.dropWhile isSpace
    { f with text := if glued then text else ' ' :: text, spaced := true }

namespace Processor

def startTranscriptTurn (p : Processor) : Processor :=
  { p with
    turnSequence := p.turnSequence + 1
    lastSpeakerId := none
    lastFinalSpeakerId := none
    hasFinalText := false }

def takeTurnFragments (p : Processor) : List TranscriptFragment × Processor :=
  (p.turnFragments, { p with
    turnFragments := []
    previousFinalEnd := none
    previousFinalSpeakerId := none })

/-- Fragments for the runs of one final, which all get its span. -/
def addRuns (p : Processor) (span : Option (ℤ × ℤ)) (runs : List (Option ℕ × Text)) : Processor :=
  { p with
    lastSpeakerId := runs.foldl (fun last run => run.1.or last) p.lastSpeakerId
    turnFragments := p.turnFragments ++ runs.map fun run =>
      { speakerId := run.1
        text := run.2
        start := span.map Prod.fst
        stop := span.map Prod.snd } }

/-- The piece of a cut word joins the last fragment of its speaker. -/
def record (p : Processor) (result : Option Alternative) (runs : List (Option ℕ × Text))
    (glue : Bool) : Processor :=
  let p := if p.turnFragments = [] then p.startTranscriptTurn else p
  let span := extractWordSpan result
  match glue, p.turnFragments.getLast?, runs with
  | true, some previous, (speaker, text) :: rest =>
    if previous.speakerId = speaker then
      let (piece, others) := partitionSpace text
      let joined := { previous with
        text := joinCutWord previous.text piece
        stop := match span with
          | none => previous.stop
          | some span => orBetter max previous.stop (some span.2) }
      { p with turnFragments := p.turnFragments.dropLast ++ [joined] }.addRuns span
        ((if others = [] then [] else [(speaker, others)]) ++ rest)
    else p.addRuns span runs
  | _, _, _ => p.addRuns span runs

def prefixFinalForLlm (p : Processor) (f : Frame) (speakerId : Option ℕ) : Processor × Frame :=
  if ¬ p.multiSpeakerSupport ∨ ¬ f.final then (p, f)
  else
    let startsRun := ¬ p.hasFinalText ∨ (speakerId ≠ none ∧ speakerId ≠ p.lastFinalSpeakerId)
    let text := match speakerId with
      | some n => if startsRun then speakerPrefix n ++ f.text else f.text
      | none => f.text
    ({ p with
        hasFinalText := true
        lastFinalSpeakerId := speakerId.or p.lastFinalSpeakerId },
      { f with text := text })

/-- One copy of the frame for each run; only the first may be glued. -/
def pushRuns (p : Processor) (f : Frame) (glued : Bool) :
    List (Option ℕ × Text) → Processor × List Frame
  | [] => (p, [])
  | (speaker, text) :: rest =>
    let (p, copied) := p.prefixFinalForLlm { f with text := text, speakerTag := speaker } speaker
    let (p, frames) := p.pushRuns f false rest
    (p, setLlmSpacing copied glued :: frames)

def push (p : Processor) (f : Frame) (runs : List (Option ℕ × Text)) (glue : Bool) :
    Processor × List Frame :=
  if p.multiSpeakerSupport ∧ f.speakerTag = none ∧ 1 < runs.length then p.pushRuns f glue runs
  else
    let speaker := if runs.length = 1 then (runs.head?.bind Prod.fst) else f.speakerTag
    let (p, f) := p.prefixFinalForLlm { f with text := unwords (runs.map Prod.snd) } speaker
    (p, [setLlmSpacing f glue])

/-- The runs of a frame, its speakers numbered. -/
def runsOf (p : Processor) (f : Frame) (result : Option Alternative) :
    List (Option ℕ × Text) × List ℤ :=
  match f.speakerTag with
  | some speaker => ([(some speaker, f.text)], p.speakerNumbers)
  | none => numberSpeakers p.speakerNumbers (splitTranscriptBySpeaker result f.text)

/-- The runs once a piece of a cut word has gone to the speaker before it. -/
def cutWord (fits : ℤ → ℤ → Bool) (p : Processor) (f : Frame) (result : Option Alternative)
    (runs : List (Option ℕ × Text)) : Processor × List (Option ℕ × Text) × Bool :=
  if f.final ∧ f.speakerTag = none then
    let continues := continuesPreviousWord fits result p.previousFinalEnd
    let runs := if continues then reassignFirstWord runs p.previousFinalSpeakerId else runs
    ({ p with
        previousFinalEnd := lastWordEnd result
        previousFinalSpeakerId := runs.getLast?.bind Prod.fst },
      runs, continues)
  else (p, runs, false)

def latchPrimary (p : Processor) (f : Frame) (runs : List (Option ℕ × Text)) : Processor :=
  if f.final ∧ p.primarySpeakerId = none then
    { p with primarySpeakerId := runs.findSome? Prod.fst }
  else p

/-- Without multi-speaker support only the runs of the primary speaker go on. -/
def isolate (p : Processor) (f : Frame) (runs : List (Option ℕ × Text)) :
    List (Option ℕ × Text) :=
  if ¬ p.multiSpeakerSupport ∧ p.primarySpeakerId ≠ none then
    runs.filter fun run => run.1 = p.primarySpeakerId ∨ (run.1 = none ∧ ¬ f.final)
  else runs

/-- `process_frame` for a transcription with a result. -/
def process (fits : ℤ → ℤ → Bool) (p : Processor) (f : Frame) (result : Option Alternative) :
    Processor × List Frame :=
  let (runs, numbers) := p.runsOf f result
  let p := { p with speakerNumbers := numbers }
  if runs = [] then (p, [f])
  else
    let continuesSpeaker :=
      if f.final ∧ f.speakerTag = none then p.previousFinalSpeakerId else none
    let (p, runs, continues) := p.cutWord fits f result runs
    let p := p.latchPrimary f runs
    let runs := p.isolate f runs
    if runs = [] then (p, [])
    else
      let glue := continues && runs.head?.bind Prod.fst = continuesSpeaker
      let p := if f.final then p.record result runs glue else p
      p.push f runs glue

def processFrame (fits : ℤ → ℤ → Bool) (p : Processor) (f : Frame) : Processor × List Frame :=
  match f.result with
  | none => (p, [f])
  | some result => p.process fits f result

/-- Some frames, one after the other. -/
def processAll (fits : ℤ → ℤ → Bool) (p : Processor) : List Frame → Processor × List Frame
  | [] => (p, [])
  | f :: rest =>
    let (p, frames) := p.processFrame fits f
    let (p, more) := p.processAll fits rest
    (p, frames ++ more)

end Processor

end Processor

end VoiceAgent.Diarization
