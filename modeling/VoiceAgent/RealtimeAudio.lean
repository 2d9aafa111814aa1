import VoiceAgent.Base64
import VoiceAgent.KeyedRuns
import VoiceAgent.RateCoherence
import Mathlib.Algebra.GroupWithZero.Nat

/-!
The audio that a realtime client appends: base64 text in a JSON field, checked, decoded and
resampled before it reaches the pipeline as a frame. The buffer of the protocol is a counter of
bytes only; a commit asks whether audio has come since the last commit or clear. The stream
resampler is a parameter.
-/
namespace VoiceAgent.RealtimeAudio

open Base64 JsonValues SessionView RealtimeEvents Conversation KeyedRuns
open RateCoherence (normalizePcmRate pipelinePcmRate clientRate maxPendingInputBytes)

section Codec

/-- What the decoder of base64 says of a fault. -/
def faultText : Fault → String
  | .leadingPadding => "Leading padding not allowed"
  | .excessData => "Excess data after padding"
  | .notInAlphabet => "Only base64 data is allowed"
  | .discontinuousPadding => "Discontinuous padding not allowed"
  | .oneMore n => "Invalid base64-encoded string: number of data characters (" ++ toString n ++
      ") cannot be 1 more than a multiple of 4"
  | .incorrectPadding => "Incorrect padding"

/-- `base64.b64decode` with validation. -/
def b64decode (audio : String) : Except String Bytes :=
  if audio.toList.all fun c => c.toNat < 128 then (a2bBase64 audio.toList).mapError faultText
  else .error "string argument should contain only ASCII characters"

def decodeBase64Audio (audio : String) : Except String Bytes :=
  if audio = "" then .error "audio must be a non-empty base64 string"
  else match b64decode audio with
  | .error exc => .error ("invalid base64 audio: " ++ exc)
  | .ok pcm =>
    if pcm.length % 2 = 0 then .ok pcm
    else .error "PCM16 audio must contain an even number of bytes"

def encodeBase64Audio (pcm : Bytes) : String := String.ofList (b2aBase64 pcm)

theorem b64decode_eq_ok {audio : String} {pcm : Bytes} :
    b64decode audio = .ok pcm ↔ ∃ e : Encoded, e.text = audio.toList ∧ e.bytes = pcm := by
  rw [← a2bBase64_eq_ok, b64decode]
  constructor
  · intro h
    split at h
    · cases hread : a2bBase64 audio.toList with
      | ok out =>
        rw [hread] at h
        cases h
        rfl
      | error fault =>
        rw [hread] at h
        cases h
    · cases h
  · intro h
    obtain ⟨e, htext, -⟩ := a2bBase64_eq_ok.mp h
    have hascii : (audio.toList.all fun c => c.toNat < 128) = true := by
      rw [← htext, List.all_eq_true]
      exact fun c hc => decide_eq_true (text_ascii e hc)
    rw [if_pos hascii, h]
    rfl

/-- Audio is decoded from a spelling of an even number of bytes. -/
theorem decodeBase64Audio_eq_ok {audio : String} {pcm : Bytes} :
    decodeBase64Audio audio = .ok pcm ↔ audio ≠ "" ∧ 2 ∣ pcm.length ∧
      ∃ e : Encoded, e.text = audio.toList ∧ e.bytes = pcm := by
  rw [decodeBase64Audio, ← b64decode_eq_ok]
  constructor
  · intro h
    split at h
    · cases h
    · next hne =>
      split at h
      · cases h
      · next out hout =>
        split at h
        · next heven =>
          cases h
          exact ⟨hne, Nat.dvd_of_mod_eq_zero heven, hout⟩
        · cases h
  · rintro ⟨hne, heven, hout⟩
    rw [if_neg hne, hout]
    exact if_pos (Nat.mod_eq_zero_of_dvd heven)

theorem encodeBase64Audio_eq_empty {pcm : Bytes} : encodeBase64Audio pcm = "" ↔ pcm = [] := by
  rw [encodeBase64Audio, ← String.toList_inj, String.toList_ofList]
  constructor
  · intro h
    have hzero : (b2aBase64 pcm).length = 0 := by
      rw [h]
      rfl
    have hlength := b2a_length pcm
    exact List.eq_nil_of_length_eq_zero (by omega)
  · rintro rfl
    rfl

theorem encodeBase64Audio_length (pcm : Bytes) :
    (encodeBase64Audio pcm).length = 4 * ((pcm.length + 2) / 3) := by
  rw [encodeBase64Audio, String.length_ofList, b2a_length]

theorem decode_encode {pcm : Bytes} (hne : pcm ≠ []) (heven : 2 ∣ pcm.length) :
    decodeBase64Audio (encodeBase64Audio pcm) = .ok pcm :=
  decodeBase64Audio_eq_ok.mpr ⟨fun h => hne (encodeBase64Audio_eq_empty.mp h), heven,
    Base64.split pcm, by rw [encodeBase64Audio, String.toList_ofList]; rfl, split_bytes pcm⟩

end Codec

section Serializer
variable {σ : Type}

/-- A stream resampler of the audio library: a fresh stream, and what a stream makes of the next
audio at a rate for another rate, if it does not refuse it. -/
structure StreamResampler (σ : Type) where
  create : σ
  resample : σ → Bytes → ℤ → ℤ → Except String Bytes × σ

structure AudioResampler (σ : Type) where
  uplink : σ
  downlink : σ

def AudioResampler.fresh (S : StreamResampler σ) : AudioResampler σ := ⟨S.create, S.create⟩

/-- A frame of audio for the pipeline. -/
structure InputAudio where
  audio : Bytes
  sampleRate : ℕ
  numChannels : ℕ := 1
  deriving DecidableEq

structure FrameSerializer (σ : Type) where
  view : Fields
  pipelineRate : ℕ
  clientInRate : ℤ
  clientOutRate : ℤ
  resampler : AudioResampler σ
  bytesSinceCommit : ℕ := 0
  conversation : ConversationState := {}

/-- What a message leaves, the frame it returns and the events it has emitted. -/
structure Handled (σ : Type) where
  serializer : FrameSerializer σ
  frame : Option InputAudio := none
  emitted : List ServerEvent := []

/-- Base64 takes four characters for three bytes. -/
def maxAppendB64Chars : ℕ := maxPendingInputBytes * 4 / 3 + 64

variable (S : StreamResampler σ)

/-- The rate that the audio of a client is resampled to. -/
def FrameSerializer.target (q : FrameSerializer σ) : ℤ :=
  normalizePcmRate q.pipelineRate pipelinePcmRate

def toPipeline (q : FrameSerializer σ) (pcm : Bytes) : Except String Bytes × σ :=
  if pcm = [] then (.ok [], q.resampler.uplink)
  else if clientRate q.clientInRate = q.target then (.ok pcm, q.resampler.uplink)
  else S.resample q.resampler.uplink pcm (clientRate q.clientInRate) q.target

def refuse (q : FrameSerializer σ) (eventId : Option Text) (message code : String)
    (param : Option String) : Handled σ :=
  { serializer := q, emitted := [.error message code eventId param] }

/-- The rest of an append, when the audio has been resampled. -/
def takeIn (q : FrameSerializer σ) (eventId : Option Text) (pcm : Bytes) : Handled σ :=
  if pcm = [] then { serializer := q }
  else if maxPendingInputBytes < pcm.length then
    refuse q eventId "input_audio_buffer.append decoded audio exceeds max size"
      "input_buffer_overflow" (some "audio")
  else
    { serializer := { q with
        bytesSinceCommit := q.bytesSinceCommit + pcm.length
        conversation := q.conversation.addInputAudio pcm.length q.pipelineRate }
      frame := some { audio := pcm, sampleRate := q.pipelineRate } }

def deserializeAppend (q : FrameSerializer σ) (audio : Option Json) (eventId : Option Text) :
    Handled σ :=
  let format := extractClientInputFormatType q.view
  if format ≠ "audio/pcm" then
    refuse q eventId ("v1 supports audio/pcm only (got " ++ format ++ ")")
      "unsupported_audio_format" (some "session.audio.input.format.type")
  else match audio with
  | some (.str text) =>
    if maxAppendB64Chars < text.length then
      refuse q eventId "input_audio_buffer.append payload too large" "input_buffer_overflow"
        (some "audio")
    else match decodeBase64Audio text with
    | .error exc => refuse q eventId exc "invalid_audio" (some "audio")
    | .ok raw =>
      let resampled := toPipeline S q raw
      let q' := { q with resampler := { q.resampler with uplink := resampled.2 } }
      match resampled.1 with
      | .error exc => refuse q' eventId exc "invalid_audio" (some "audio")
      | .ok pcm => takeIn q' eventId pcm
  | _ => refuse q eventId "audio must be a base64 string" "invalid_audio" (some "audio")

def deserializeCommit (q : FrameSerializer σ) (eventId : Option Text) : Handled σ :=
  if q.bytesSinceCommit = 0 then
    refuse q eventId "input_audio_buffer is empty; append audio before commit"
      "input_audio_buffer_commit_empty" none
  else { serializer := { q with bytesSinceCommit := 0 } }

def deserializeClear (q : FrameSerializer σ) : Handled σ :=
  { serializer := { q with bytesSinceCommit := 0 }, emitted := [.audioCleared] }

/-- Stream resamplers cannot switch their rates after the first chunk. -/
def updateSessionView (q : FrameSerializer σ) (view : Fields) : FrameSerializer σ :=
  let inRate := extractClientPcmRate view
  let outRate := extractClientOutputPcmRate view
  { q with
    view := view
    clientInRate := inRate
    clientOutRate := outRate
    resampler :=
      if q.clientInRate ≠ inRate ∨ q.clientOutRate ≠ outRate then .fresh S else q.resampler }

inductive Message
  | append (audio : Option Json) (eventId : Option Text)
  | commit (eventId : Option Text)
  | clear
  | view (view : Fields)

/-- A message, with the frame it returned and the events it emitted. -/
structure Entry where
  message : Message
  frame : Option InputAudio
  emitted : List ServerEvent

def handle (q : FrameSerializer σ) : Message → Handled σ
  | .append audio eventId => deserializeAppend S q audio eventId
  | .commit eventId => deserializeCommit q eventId
  | .clear => deserializeClear q
  | .view view => { serializer := updateSessionView S q view }

/-- A serializer as it is built for a session view, when the pipeline has been set up. -/
def start (pipelineRate : ℕ) (view : Fields) : FrameSerializer σ where
  view := view
  pipelineRate := pipelineRate
  clientInRate := extractClientPcmRate view
  clientOutRate := extractClientOutputPcmRate view
  resampler := .fresh S

def perform (r : FrameSerializer σ × List Entry) (message : Message) :
    FrameSerializer σ × List Entry :=
  let done := handle S r.1 message
  (done.serializer, r.2 ++ [⟨message, done.frame, done.emitted⟩])

def run (q : FrameSerializer σ) (messages : List Message) : FrameSerializer σ × List Entry :=
  messages.foldl (perform S) (q, [])

variable {S} {q : FrameSerializer σ} {audio : Option Json} {eventId : Option Text}

@[simp] theorem refuse_frame (q : FrameSerializer σ) (message code : String)
    (param : Option String) : (refuse q eventId message code param).frame = none := rfl

/-- Audio that is taken in is counted, and comes back as a frame at the rate of the pipeline. -/
theorem takeIn_frame_iff {pcm : Bytes} {frame : InputAudio} :
    (takeIn q eventId pcm).frame = some frame ↔ pcm ≠ [] ∧ pcm.length ≤ maxPendingInputBytes ∧
      frame = { audio := pcm, sampleRate := q.pipelineRate } := by
  rw [takeIn]
  split
  · next hnil => simp [hnil]
  · next hne =>
    split
    · next hlong => simp [Nat.not_le.mpr hlong]
    · next hlong =>
      simp only [Option.some.injEq]
      exact ⟨fun h => ⟨hne, Nat.le_of_not_lt hlong, h.symm⟩, fun h => h.2.2.symm⟩

/-- An append returns a frame exactly for a spelling, not too long, of an even number of bytes that
the resampler takes and that do not get too long either. -/
theorem append_frame_iff (S : StreamResampler σ) (q : FrameSerializer σ) (audio : Option Json)
    (eventId : Option Text) (frame : InputAudio) :
    (deserializeAppend S q audio eventId).frame = some frame ↔
      extractClientInputFormatType q.view = "audio/pcm" ∧ frame.sampleRate = q.pipelineRate ∧
        frame.numChannels = 1 ∧ frame.audio ≠ [] ∧ frame.audio.length ≤ maxPendingInputBytes ∧
        ∃ (text : String) (e : Encoded), audio = some (.str text) ∧ e.text = text.toList ∧
          text.length ≤ maxAppendB64Chars ∧ 2 ∣ e.bytes.length ∧
          (toPipeline S q e.bytes).1 = .ok frame.audio := by
  obtain ⟨out, sampleRate, numChannels⟩ := frame
  unfold deserializeAppend
  dsimp only
  constructor
  · intro h
    split at h
    · cases h
    · next hformat =>
      refine ⟨not_not.mp hformat, ?_⟩
      split at h
      · next text =>
        split at h
        · cases h
        · next hlong =>
          split at h
          · cases h
          · next raw hraw =>
            obtain ⟨-, heven, e, htext, rfl⟩ := decodeBase64Audio_eq_ok.mp hraw
            split at h
            · cases h
            · next pcm hpcm =>
              obtain ⟨hne, hle, heq⟩ := takeIn_frame_iff.mp h
              cases heq
              exact ⟨rfl, rfl, hne, hle, text, e, rfl, htext, Nat.le_of_not_lt hlong, heven, hpcm⟩
      · cases h
  · rintro ⟨hformat, rfl, rfl, hne, hle, text, e, rfl, htext, hshort, heven, hpcm⟩
    have hbytes : e.bytes ≠ [] := by
      intro hnil
      rw [hnil, toPipeline, if_pos rfl] at hpcm
      cases hpcm
      exact hne rfl
    have htextNe : text ≠ "" := by
      rintro rfl
      have hzero : e.text.length = 0 := by
        rw [htext]
        rfl
      have hlength := bytes_length_le e
      exact hbytes (List.eq_nil_of_length_eq_zero (by omega))
    have hdecode := decodeBase64Audio_eq_ok.mpr ⟨htextNe, heven, e, htext, rfl⟩
    rw [if_neg (not_not.mpr hformat)]
    simp only [if_neg (Nat.not_lt.mpr hshort), hdecode, hpcm]
    exact takeIn_frame_iff.mpr ⟨hne, hle, rfl⟩

end Serializer

section Buffer
variable {σ : Type} {S : StreamResampler σ} {q : FrameSerializer σ} {m : Message}

/-- A commit or a clear ends what is in the buffer. -/
def Message.ends : Message → Bool
  | .commit _ | .clear => true
  | .append .. | .view _ => false

/-- The bytes that a message has brought to the pipeline. -/
def frameBytes : Option InputAudio → ℕ
  | none => 0
  | some frame => frame.audio.length

theorem takeIn_bytes (q : FrameSerializer σ) (eventId : Option Text) (pcm : Bytes) :
    (takeIn q eventId pcm).serializer.bytesSinceCommit =
      q.bytesSinceCommit + frameBytes (takeIn q eventId pcm).frame := by
  rw [takeIn]
  split
  · rfl
  · split <;> rfl

theorem append_bytes (q : FrameSerializer σ) (audio : Option Json) (eventId : Option Text) :
    (deserializeAppend S q audio eventId).serializer.bytesSinceCommit =
      q.bytesSinceCommit + frameBytes (deserializeAppend S q audio eventId).frame := by
  unfold deserializeAppend
  dsimp only
  split
  · rfl
  · split
    · split
      · rfl
      · split
        · rfl
        · split
          · rfl
          · exact takeIn_bytes _ eventId _
    · rfl

/-- What a message does to the counter. -/
theorem handle_bytes (S : StreamResampler σ) (q : FrameSerializer σ) (m : Message) :
    (handle S q m).serializer.bytesSinceCommit =
      if m.ends then 0 else q.bytesSinceCommit + frameBytes (handle S q m).frame := by
  cases m with
  | append audio eventId => exact append_bytes q audio eventId
  | commit eventId =>
    rw [handle, deserializeCommit]
    split
    · next hzero => exact hzero
    · rfl
  | clear => rfl
  | view view => rfl

/-- Only an append returns a frame, and it is not empty. -/
theorem handle_frame {frame : InputAudio} (h : (handle S q m).frame = some frame) :
    m.ends = false ∧ frame.audio ≠ [] := by
  cases m with
  | append audio eventId => exact ⟨rfl, ((append_frame_iff S q audio eventId frame).mp h).2.2.2.1⟩
  | commit eventId =>
    rw [handle, deserializeCommit] at h
    split at h <;> cases h
  | clear => cases h
  | view view => cases h

theorem run_snoc (q : FrameSerializer σ) (messages : List Message) (m : Message) :
    run S q (messages ++ [m]) = perform S (run S q messages) m := by
  rw [run, List.foldl_append]
  rfl

/-- The counter holds what has come since the last commit or clear. -/
theorem run_bytes {q : FrameSerializer σ} (hq : q.bytesSinceCommit = 0)
    (messages : List Message) : (run S q messages).1.bytesSinceCommit =
      (((run S q messages).2.rtakeWhile fun e => !e.message.ends).map
        fun e => frameBytes e.frame).sum := by
  induction messages using List.reverseRecOn with
  | nil => exact hq
  | append_singleton messages m ih =>
    rw [run_snoc, perform, handle_bytes]
    cases hm : m.ends with
    | true => rw [List.rtakeWhile_concat_neg _ _ _ (by simp [hm])]; rfl
    | false =>
      rw [List.rtakeWhile_concat_pos _ _ _ (by simp [hm]), List.map_append, List.sum_append, ← ih]
      simp

theorem run_since {q : FrameSerializer σ} (hq : q.bytesSinceCommit = 0)
    (messages : List Message) : 0 < (run S q messages).1.bytesSinceCommit ↔
      Since (fun e => e.frame ≠ none) (fun e => e.message.ends = false) (run S q messages).2 := by
  induction messages using List.reverseRecOn with
  | nil =>
    exact ⟨fun h => absurd hq (Nat.pos_iff_ne_zero.mp h), fun h => absurd h not_since_nil⟩
  | append_singleton messages m ih =>
    rw [run_snoc, perform, since_snoc, ← ih, handle_bytes]
    cases hframe : (handle S (run S q messages).1 m).frame with
    | none => cases m.ends <;> simp [frameBytes]
    | some frame =>
      obtain ⟨hends, hne⟩ := handle_frame hframe
      have hpos := List.length_pos_iff.mpr hne
      simp only [hends, frameBytes]
      simp
      omega

/-- A commit is accepted exactly if audio has gone to the pipeline since the last commit or clear,
whatever was appended in vain and however often the rates have changed; the counter holds the bytes
of that audio. -/
theorem commit_accepted_iff (S : StreamResampler σ) (rate : ℕ) (view : Fields)
    (messages : List Message) (eventId : Option Text) :
    ((deserializeCommit (run S (start S rate view) messages).1 eventId).emitted = [] ↔
      Since (fun e => e.frame ≠ none) (fun e => e.message.ends = false)
        (run S (start S rate view) messages).2) ∧
      (run S (start S rate view) messages).1.bytesSinceCommit =
        (((run S (start S rate view) messages).2.rtakeWhile fun e => !e.message.ends).map
          fun e => frameBytes e.frame).sum := by
  refine ⟨?_, run_bytes rfl messages⟩
  rw [← run_since rfl, deserializeCommit]
  split
  · next hzero => simp [refuse, hzero]
  · next hpos => exact ⟨fun _ => Nat.pos_of_ne_zero hpos, fun _ => rfl⟩

end Buffer

section RoundTrip
variable {σ : Type} {S : StreamResampler σ} {q : FrameSerializer σ} {rate : ℕ}

/-- A session whose client sends audio at the rate of the pipeline. -/
structure Direct (rate : ℕ) (view : Fields) : Prop where
  format : extractClientInputFormatType view = "audio/pcm"
  rates : extractClientPcmRate view = normalizePcmRate rate pipelinePcmRate

/-- A serializer of such a session. -/
structure Direct.On (rate : ℕ) (q : FrameSerializer σ) : Prop where
  view : Direct rate q.view
  pipeline : q.pipelineRate = rate
  client : q.clientInRate = extractClientPcmRate q.view

/-- Whole samples, some of them, and not more than a minute. -/
def Whole (pcm : Bytes) : Prop :=
  pcm ≠ [] ∧ 2 ∣ pcm.length ∧ pcm.length ≤ maxPendingInputBytes

instance (pcm : Bytes) : Decidable (Whole pcm) :=
  inferInstanceAs (Decidable (pcm ≠ [] ∧ 2 ∣ pcm.length ∧ pcm.length ≤ maxPendingInputBytes))

theorem toPipeline_direct (h : Direct.On rate q) (pcm : Bytes) :
    (toPipeline S q pcm).1 = .ok pcm := by
  rw [toPipeline]
  split
  · next hnil => rw [hnil]
  · have hclient : clientRate q.clientInRate = q.target := by
      rw [h.client, RateCoherence.clientRate_supported
        (RateCoherence.extractClientPcmRate_supported q.view), h.view.rates,
        FrameSerializer.target, h.pipeline]
    rw [if_pos hclient]

/-- Audio that a client has encoded comes through unless it is odd, empty or too long. -/
theorem append_encoded (h : Direct.On rate q) (pcm : Bytes) (eventId : Option Text) :
    (deserializeAppend S q (some (.str (encodeBase64Audio pcm))) eventId).frame =
      if Whole pcm then some { audio := pcm, sampleRate := rate } else none := by
  have hiff := append_frame_iff S q (some (.str (encodeBase64Audio pcm))) eventId
  split
  · next hwhole =>
    obtain ⟨hne, heven, hle⟩ := hwhole
    refine (hiff _).mpr ⟨h.view.format, h.pipeline.symm, rfl, hne, hle, encodeBase64Audio pcm,
      Base64.split pcm, rfl, ?_, ?_, ?_, ?_⟩
    · rw [encodeBase64Audio, String.toList_ofList]
      rfl
    · rw [encodeBase64Audio_length]
      rw [maxPendingInputBytes] at hle
      rw [maxAppendB64Chars, maxPendingInputBytes]
      omega
    · rwa [split_bytes]
    · rw [split_bytes]
      exact toPipeline_direct h pcm
  · next hwhole =>
    rw [Option.eq_none_iff_forall_not_mem]
    intro frame hframe
    obtain ⟨-, -, -, hne, hle, text, e, htext, he, -, heven, hpcm⟩ := (hiff frame).mp hframe
    cases htext
    rw [encodeBase64Audio, String.toList_ofList] at he
    have hbytes : e.bytes = pcm :=
      Except.ok.inj ((a2bBase64_eq_ok.mpr ⟨e, he, rfl⟩).symm.trans (a2b_b2a pcm))
    rw [hbytes] at heven hpcm
    rw [toPipeline_direct h pcm] at hpcm
    cases hpcm
    exact hwhole ⟨hne, heven, hle⟩

/-- What a client does: it appends audio that it has encoded, commits, clears or updates. -/
inductive ClientStep
  | audio (pcm : Bytes) (eventId : Option Text)
  | commit (eventId : Option Text)
  | clear
  | view (view : Fields)

def ClientStep.message : ClientStep → Message
  | .audio pcm eventId => .append (some (.str (encodeBase64Audio pcm))) eventId
  | .commit eventId => .commit eventId
  | .clear => .clear
  | .view v => .view v

def ClientStep.pcm? : ClientStep → Option Bytes
  | .audio pcm _ => some pcm
  | _ => none

/-- A step that keeps the session at the rate of the pipeline. -/
def ClientStep.KeepsRate (rate : ℕ) : ClientStep → Prop
  | .view v => Direct rate v
  | _ => True

theorem Direct.On.takeIn (h : Direct.On rate q) (eventId : Option Text) (pcm : Bytes) :
    Direct.On rate (takeIn q eventId pcm).serializer := by
  rw [RealtimeAudio.takeIn]
  split
  · exact h
  · split
    · exact h
    · exact ⟨h.view, h.pipeline, h.client⟩

theorem Direct.On.append (h : Direct.On rate q) (audio : Option Json) (eventId : Option Text) :
    Direct.On rate (deserializeAppend S q audio eventId).serializer := by
  unfold deserializeAppend
  dsimp only
  have hstream (r : AudioResampler σ) : Direct.On rate { q with resampler := r } :=
    ⟨h.view, h.pipeline, h.client⟩
  split
  · exact h
  · split
    · split
      · exact h
      · split
        · exact h
        · split
          · exact hstream _
          · exact (hstream _).takeIn eventId _
    · exact h

theorem Direct.On.handle (h : Direct.On rate q) {step : ClientStep}
    (hstep : step.KeepsRate rate) :
    Direct.On rate (RealtimeAudio.handle S q step.message).serializer := by
  cases step with
  | audio pcm eventId => exact h.append _ eventId
  | commit eventId =>
    rw [ClientStep.message, RealtimeAudio.handle, deserializeCommit]
    split
    · exact h
    · exact ⟨h.view, h.pipeline, h.client⟩
  | clear => exact ⟨h.view, h.pipeline, h.client⟩
  | view v => exact ⟨hstep, h.pipeline, rfl⟩

theorem handle_frames (h : Direct.On rate q) (step : ClientStep) :
    (handle S q step.message).frame =
      (step.pcm?.filter fun pcm => Whole pcm).map fun pcm =>
        { audio := pcm, sampleRate := rate } := by
  cases step with
  | audio pcm eventId =>
    rw [ClientStep.message, handle, append_encoded h, ClientStep.pcm?, Option.filter_some]
    by_cases hwhole : Whole pcm <;> simp [hwhole]
  | commit eventId =>
    rw [ClientStep.message, handle, deserializeCommit]
    split <;> rfl
  | clear => rfl
  | view v => rfl

/-- At the rate of the pipeline, audio that a client encodes and appends comes through unchanged
and in order, all of it but what is odd, empty or longer than a minute; commits, clears and
updates in between make no difference. -/
theorem appended_audio_unchanged (S : StreamResampler σ) {rate : ℕ} {view : Fields}
    (hview : Direct rate view) {steps : List ClientStep}
    (hsteps : ∀ step ∈ steps, step.KeepsRate rate) :
    (run S (start S rate view) (steps.map ClientStep.message)).2.filterMap Entry.frame =
      ((steps.filterMap ClientStep.pcm?).filter fun pcm => Whole pcm).map fun pcm =>
        { audio := pcm, sampleRate := rate } := by
  suffices h : Direct.On rate (run S (start S rate view) (steps.map ClientStep.message)).1 ∧
      (run S (start S rate view) (steps.map ClientStep.message)).2.filterMap Entry.frame =
        ((steps.filterMap ClientStep.pcm?).filter fun pcm => Whole pcm).map fun pcm =>
          { audio := pcm, sampleRate := rate } from h.2
  induction steps using List.reverseRecOn with
  | nil => exact ⟨⟨hview, rfl, rfl⟩, rfl⟩
  | append_singleton steps step ih =>
    obtain ⟨hon, hframes⟩ := ih fun step' hstep' => hsteps step' (List.mem_append_left _ hstep')
    have hstep := hsteps step (by simp)
    rw [List.map_append, List.map_singleton, run_snoc, perform]
    refine ⟨hon.handle hstep, ?_⟩
    rw [List.filterMap_append, hframes, List.filterMap_append, List.filter_append, List.map_append]
    congr 1
    simp only [List.filterMap_cons, List.filterMap_nil, handle_frames hon]
    cases hpcm : step.pcm? with
    | none => rfl
    | some pcm => by_cases hwhole : Whole pcm <;> simp [hwhole, Option.filter_some]

/-- A stream that leaves audio as it is. -/
def idleStream : StreamResampler Unit where
  create := ()
  resample _ pcm _ _ := (.ok pcm, ())

/-- The middle chunk is odd; the commit after the clear is refused. -/
theorem appended_audio_unchanged_chunks :
    (run idleStream (start idleStream 24000 (.cons "audio" (.obj defaultAudio) .nil))
      ([.audio [1, 2] none, .commit none, .audio [3] none, .clear, .commit none,
        .audio [4, 5, 6, 7] none].map ClientStep.message)).2.filterMap Entry.frame =
      [{ audio := [1, 2], sampleRate := 24000 }, { audio := [4, 5, 6, 7], sampleRate := 24000 }] :=
  (appended_audio_unchanged idleStream ⟨by decide, by decide⟩
    (by simp [ClientStep.KeepsRate])).trans (by decide)

end RoundTrip

end VoiceAgent.RealtimeAudio
