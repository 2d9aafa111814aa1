import VoiceAgent.Chunks
import VoiceAgent.StreamingEvents

/-!
`_TranscriptResponseExtractor`: what the Omni model answers is split, while it arrives, into the
transcript of the user and the response to speak. The states follow each other in one order, so
the loop of `feed` is written as one function a state, from the last state to the first.
-/
namespace VoiceAgent.TranscriptResponse

open StreamingEvents Chunks

section Extractor

inductive Phase
  | detecting | transcript | between | passthrough | response | done
  deriving DecidableEq

/-- `_TranscriptResponseExtractor`; `heard` is its `_transcript`. -/
structure Extractor where
  phase : Phase := .detecting
  buffer : Text := []
  heard : Text := []
  transcript : Text := []
  transcriptDone : Bool := false
  deriving DecidableEq

def transcriptOpen : Text := "<transcript>".toList

def transcriptClose : Text := "</transcript>".toList

def responseOpen : Text := "<response>".toList

def responseClose : Text := "</response>".toList

inductive TagMatch
  | full | partly | no

def tagMatch (text tag : Text) : TagMatch :=
  if tag <+: text then .full
  else if text.length < tag.length ∧ text <+: tag then .partly
  else .no

namespace Extractor

/-- `while self._buffer`: the loop ends when the buffer is empty. -/
def whileBuffer (round : Extractor → Extractor × Text) (s : Extractor) : Extractor × Text :=
  if s.buffer = [] then (s, []) else round s

/-- A tail that may be the beginning of the closing tag is held back. -/
def readResponse : Extractor → Extractor × Text :=
  whileBuffer fun s =>
    match splitFirst responseClose s.buffer with
    | some (before, _) => ({ s with buffer := [], phase := .done }, before)
    | none =>
      let held := holdBack (responseClose.length - 1) s.buffer
      ({ s with buffer := held.2 }, held.1)

def readPassthrough : Extractor → Extractor × Text :=
  whileBuffer fun s => ({ s with buffer := [] }, s.buffer)

def readBetween : Extractor → Extractor × Text :=
  whileBuffer fun s =>
    let stripped := s.buffer.dropWhile isSpace
    if stripped = [] then ({ s with buffer := [] }, [])
    else
      match tagMatch stripped responseOpen with
      | .partly => ({ s with buffer := stripped }, [])
      | .full =>
        readResponse { s with buffer := stripped.drop responseOpen.length, phase := .response }
      | .no => readPassthrough { s with buffer := stripped, phase := .passthrough }

def readTranscript : Extractor → Extractor × Text :=
  whileBuffer fun s =>
    match splitFirst transcriptClose s.buffer with
    | none =>
      let held := holdBack (transcriptClose.length - 1) s.buffer
      ({ s with heard := s.heard ++ held.1, buffer := held.2 }, [])
    | some (before, after) =>
      readBetween { s with
        heard := s.heard ++ before
        transcript := strip (s.heard ++ before)
        transcriptDone := true
        buffer := after
        phase := .between }

def readDetecting : Extractor → Extractor × Text :=
  whileBuffer fun s =>
    let stripped := s.buffer.dropWhile isSpace
    if stripped = [] then (s, [])
    else
      match tagMatch stripped transcriptOpen with
      | .partly => (s, [])
      | .full =>
        readTranscript
          { s with buffer := stripped.drop transcriptOpen.length, phase := .transcript }
      | .no => readPassthrough { s with buffer := stripped, phase := .passthrough }

def feed (s : Extractor) (text : Text) : Extractor × Text :=
  let next := { s with buffer := s.buffer ++ text }
  match s.phase with
  | .done => (s, [])
  | .detecting => readDetecting next
  | .transcript => readTranscript next
  | .between => readBetween next
  | .passthrough => readPassthrough next
  | .response => readResponse next

/-- Flush buffered response text once the stream has ended. -/
def finalize (s : Extractor) : Extractor × Text :=
  let rest := { s with buffer := [] }
  match s.phase with
  | .transcript =>
    if s.heard ≠ [] ∧ s.transcriptDone = false then
      ({ rest with
        transcript := strip s.heard
        transcriptDone := decide (strip s.heard ≠ []) }, [])
    else (rest, [])
  | .done => (rest, [])
  | _ => (rest, s.buffer)

end Extractor

/-- The extractor at the end of a stream, and all the response text it has let through. -/
def extract (chunks : List Text) : Extractor × Text :=
  let read := feedAll Extractor.feed {} chunks
  (read.1.finalize.1, read.2 ++ read.1.finalize.2)

end Extractor

section Chunking

open Extractor

variable {s : Extractor}

/-- What comes of a chunk, and then of another one. -/
def andThen (r : Extractor × Text) (b : Text) : Extractor × Text :=
  ((r.1.feed b).1, r.2 ++ (r.1.feed b).2)

theorem tagMatch_full {a tag : Text} (h : tagMatch a tag = .full) : tag <+: a := by
  unfold tagMatch at h
  split at h
  · assumption
  · split at h <;> cases h

/-- A text that is neither a tag nor the beginning of one stays so when more arrives. -/
theorem tagMatch_no {a tag : Text} (h : tagMatch a tag = .no) (b : Text) :
    tagMatch (a ++ b) tag = .no := by
  unfold tagMatch at h
  split at h
  · cases h
  · rename_i hfull
    split at h
    · cases h
    · rename_i hpart
      have hnot : ¬ tag <+: a ++ b := by
        intro hp
        by_cases hlen : tag.length ≤ a.length
        · exact hfull (List.prefix_of_prefix_length_le hp (List.prefix_append _ _) hlen)
        · have hlt : a.length < tag.length := by omega
          exact hpart ⟨hlt, List.prefix_of_prefix_length_le (List.prefix_append _ _) hp hlt.le⟩
      have hnone : ¬ ((a ++ b).length < tag.length ∧ a ++ b <+: tag) := by
        rintro ⟨hlt, hp⟩
        simp only [List.length_append] at hlt
        exact hpart ⟨by omega, (List.prefix_append _ _).trans hp⟩
      rw [tagMatch, if_neg hnot, if_neg hnone]

theorem tagMatch_full_append {a tag : Text} (h : tagMatch a tag = .full) (b : Text) :
    tagMatch (a ++ b) tag = .full :=
  if_pos ((tagMatch_full h).trans (List.prefix_append _ _))

/-- The check of the loop makes no difference to what a round makes of more text. -/
theorem whileBuffer_append {round : Extractor → Extractor × Text} {b : Text}
    (hempty : s.buffer = [] → s.feed b = whileBuffer round { s with buffer := s.buffer ++ b })
    (hround : s.buffer ≠ [] → round { s with buffer := s.buffer ++ b } = andThen (round s) b) :
    whileBuffer round { s with buffer := s.buffer ++ b } = andThen (whileBuffer round s) b := by
  by_cases h : s.buffer = []
  · rw [← hempty h]
    simp [whileBuffer, h, andThen]
  · have hne : s.buffer ++ b ≠ [] := by simp [h]
    rw [whileBuffer, if_neg hne, whileBuffer, if_neg h, hround h]

theorem readPassthrough_append (hp : s.phase = .passthrough) (b : Text) :
    readPassthrough { s with buffer := s.buffer ++ b } = andThen (readPassthrough s) b := by
  refine whileBuffer_append (fun _ => by simp only [feed, hp]; rfl) fun _ => ?_
  by_cases hb : b = []
  · simp [andThen, feed, hp, readPassthrough, whileBuffer, hb]
  · simp [andThen, feed, hp, readPassthrough, whileBuffer, hb]

theorem readResponse_append (hp : s.phase = .response) (b : Text) :
    readResponse { s with buffer := s.buffer ++ b } = andThen (readResponse s) b := by
  refine whileBuffer_append (fun _ => by simp only [feed, hp]; rfl) fun hne => ?_
  dsimp only
  cases hfound : splitFirst responseClose s.buffer with
  | some found =>
    rw [splitFirst_append hfound b]
    simp [andThen, feed]
  | none =>
    have hheld := splitFirst_held hfound (k := responseClose.length - 1) (by decide) b
    have hrest : (holdBack (responseClose.length - 1) s.buffer).2 ++ b ≠ [] := by
      simp [holdBack_ne_nil (k := responseClose.length - 1) (by decide) hne]
    rw [hheld, holdBack_append]
    simp only [andThen, feed, hp, readResponse, whileBuffer, if_neg hrest]
    cases splitFirst responseClose
      ((holdBack (responseClose.length - 1) s.buffer).2 ++ b) <;> rfl

theorem readBetween_append (hp : s.phase = .between) (b : Text) :
    readBetween { s with buffer := s.buffer ++ b } = andThen (readBetween s) b := by
  refine whileBuffer_append (fun _ => by simp only [feed, hp]; rfl) fun hne => ?_
  dsimp only
  by_cases hblank : s.buffer.dropWhile isSpace = []
  · rw [dropWhile_none hblank, if_pos hblank]
    simp only [andThen, feed, hp, readBetween, whileBuffer, List.nil_append]
    by_cases hb : b = []
    · rw [if_pos hb, hb, if_pos List.dropWhile_nil]
    · rw [if_neg hb]
  · rw [dropWhile_more hblank, if_neg (by simp [hblank]), if_neg hblank]
    cases hmatch : tagMatch (s.buffer.dropWhile isSpace) responseOpen with
    | full =>
      rw [tagMatch_full_append hmatch]
      dsimp only
      rw [List.drop_append_of_le_length (tagMatch_full hmatch).length_le]
      exact readResponse_append (s := { s with
        buffer := (s.buffer.dropWhile isSpace).drop responseOpen.length
        phase := .response }) rfl b
    | no =>
      rw [tagMatch_no hmatch]
      exact readPassthrough_append (s := { s with
        buffer := s.buffer.dropWhile isSpace
        phase := .passthrough }) rfl b
    | partly =>
      have hrest : s.buffer.dropWhile isSpace ++ b ≠ [] := by simp [hblank]
      simp only [andThen, feed, hp, readBetween, whileBuffer, if_neg hrest, List.nil_append,
        dropWhile_again hblank]

theorem readTranscript_append (hp : s.phase = .transcript) (b : Text) :
    readTranscript { s with buffer := s.buffer ++ b } = andThen (readTranscript s) b := by
  refine whileBuffer_append (fun _ => by simp only [feed, hp]; rfl) fun hne => ?_
  dsimp only
  cases hfound : splitFirst transcriptClose s.buffer with
  | some found =>
    rw [splitFirst_append hfound b]
    exact readBetween_append (s := { s with
      heard := s.heard ++ found.1
      transcript := strip (s.heard ++ found.1)
      transcriptDone := true
      buffer := found.2
      phase := .between }) rfl b
  | none =>
    have hheld := splitFirst_held hfound (k := transcriptClose.length - 1) (by decide) b
    have hrest : (holdBack (transcriptClose.length - 1) s.buffer).2 ++ b ≠ [] := by
      simp [holdBack_ne_nil (k := transcriptClose.length - 1) (by decide) hne]
    rw [hheld, holdBack_append]
    simp only [andThen, feed, hp, readTranscript, whileBuffer, if_neg hrest, List.nil_append]
    cases splitFirst transcriptClose
      ((holdBack (transcriptClose.length - 1) s.buffer).2 ++ b) <;>
      simp only [Option.map_none, Option.map_some, List.append_assoc]

theorem readDetecting_append (hp : s.phase = .detecting) (b : Text) :
    readDetecting { s with buffer := s.buffer ++ b } = andThen (readDetecting s) b := by
  refine whileBuffer_append (fun _ => by simp only [feed, hp]; rfl) fun hne => ?_
  have hrest : s.buffer ++ b ≠ [] := by simp [hne]
  dsimp only
  by_cases hblank : s.buffer.dropWhile isSpace = []
  · rw [if_pos hblank]
    simp only [andThen, feed, hp, readDetecting, whileBuffer, if_neg hrest, List.nil_append]
  · rw [dropWhile_more hblank, if_neg (by simp [hblank]), if_neg hblank]
    cases hmatch : tagMatch (s.buffer.dropWhile isSpace) transcriptOpen with
    | full =>
      rw [tagMatch_full_append hmatch]
      dsimp only
      rw [List.drop_append_of_le_length (tagMatch_full hmatch).length_le]
      exact readTranscript_append (s := { s with
        buffer := (s.buffer.dropWhile isSpace).drop transcriptOpen.length
        phase := .transcript }) rfl b
    | no =>
      rw [tagMatch_no hmatch]
      exact readPassthrough_append (s := { s with
        buffer := s.buffer.dropWhile isSpace
        phase := .passthrough }) rfl b
    | partly =>
      have hlong : s.buffer.dropWhile isSpace ++ b ≠ [] := by simp [hblank]
      simp only [andThen, feed, hp, readDetecting, whileBuffer, if_neg hrest, List.nil_append,
        dropWhile_more hblank, if_neg hlong]

/-- Step lemma: a text fed in two pieces is fed whole. -/
theorem feed_additive : Additive Extractor.feed := by
  intro s a b
  have hassoc : s.buffer ++ (a ++ b) = s.buffer ++ a ++ b := (List.append_assoc ..).symm
  change s.feed (a ++ b) = andThen (s.feed a) b
  cases hp : s.phase with
  | done =>
    have hfeed : ∀ text, s.feed text = (s, []) := fun text => by rw [feed, hp]
    rw [andThen, hfeed, hfeed, hfeed]
    rfl
  | detecting =>
    have hfeed : ∀ text, s.feed text = readDetecting { s with buffer := s.buffer ++ text } :=
      fun text => by rw [feed, hp]
    rw [hfeed, hfeed, hassoc]
    exact readDetecting_append (s := { s with buffer := s.buffer ++ a }) hp b
  | transcript =>
    have hfeed : ∀ text, s.feed text = readTranscript { s with buffer := s.buffer ++ text } :=
      fun text => by rw [feed, hp]
    rw [hfeed, hfeed, hassoc]
    exact readTranscript_append (s := { s with buffer := s.buffer ++ a }) hp b
  | between =>
    have hfeed : ∀ text, s.feed text = readBetween { s with buffer := s.buffer ++ text } :=
      fun text => by rw [feed, hp]
    rw [hfeed, hfeed, hassoc]
    exact readBetween_append (s := { s with buffer := s.buffer ++ a }) hp b
  | passthrough =>
    have hfeed : ∀ text, s.feed text = readPassthrough { s with buffer := s.buffer ++ text } :=
      fun text => by rw [feed, hp]
    rw [hfeed, hfeed, hassoc]
    exact readPassthrough_append (s := { s with buffer := s.buffer ++ a }) hp b
  | response =>
    have hfeed : ∀ text, s.feed text = readResponse { s with buffer := s.buffer ++ text } :=
      fun text => by rw [feed, hp]
    rw [hfeed, hfeed, hassoc]
    exact readResponse_append (s := { s with buffer := s.buffer ++ a }) hp b

/-- However a text is split into chunks, the extractor lets the same response through and ends
with the same transcript. -/
theorem extract_chunks {chunks chunks' : List Text} (h : chunks.flatten = chunks'.flatten) :
    (extract chunks).2 = (extract chunks').2 ∧
      (extract chunks).1.transcript = (extract chunks').1.transcript ∧
      (extract chunks).1.transcriptDone = (extract chunks').1.transcriptDone := by
  have hsame : extract chunks = extract chunks' := by
    unfold extract
    rw [feedAll_eq feed_additive rfl, feedAll_eq feed_additive rfl, h]
  simp [hsame]

theorem extract_chunks_cut :
    (extract [" <trans".toList, [], "cript>hi </transcript> <".toList, "response>yes".toList]).2 =
      "yes".toList ∧
    (extract [" <trans".toList, [], "cript>hi </transcript> <".toList,
      "response>yes".toList]).1.transcript = "hi".toList := by
  have hcut : [" <trans".toList, [], "cript>hi </transcript> <".toList,
      "response>yes".toList].flatten =
      [" <transcript>hi </transcript> <response>yes".toList].flatten := by decide +kernel
  obtain ⟨hout, htranscript, -⟩ := extract_chunks hcut
  rw [hout, htranscript]
  decide +kernel

end Chunking

end VoiceAgent.TranscriptResponse
