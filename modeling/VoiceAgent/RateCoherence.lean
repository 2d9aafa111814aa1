import VoiceAgent.Moves
import VoiceAgent.RealtimeSerializer
import VoiceAgent.SessionView

/-!
The PCM rates of a live Realtime session. The serializer keeps the rates of its session view and
two stream resamplers, which a change of either rate replaces. An update is applied and announced
without an await in between; output audio is resampled to the rate found when it is taken up, and
its delta follows after the awaits of the resampling and of the announcement of the response.
-/
namespace VoiceAgent.RateCoherence

open RealtimeEvents RealtimeLifecycle Coroutine Interleaving JsonValues SessionView Relation

section Rates

def pipelinePcmRate : ℤ := 16000

def normalizePcmRate (rate default : ℤ) : ℤ := if rate ∈ supportedPcmRates then rate else default

/-- The rate that client audio is resampled from or to. -/
def clientRate (rate : ℤ) : ℤ :=
  normalizePcmRate (if rate = 0 then defaultClientPcmRate else rate) defaultClientPcmRate

theorem formatRate_supported {fmt : Option Json} {rate : ℤ}
    (h : formatRate fmt = .ok (some rate)) : rate ∈ supportedPcmRates := by
  unfold formatRate at h
  split at h
  · split at h
    · cases h
    · cases h
    · next f value _ _ =>
      cases value with
      | int n =>
        by_cases hn : n ∈ supportedPcmRates
        · simp only [requireSupportedPcmRate, if_pos hn, Except.map] at h
          cases h
          exact hn
        · simp only [requireSupportedPcmRate, if_neg hn, Except.map] at h
          cases h
      | _ => cases h
  · cases h

theorem extractClientPcmRate_supported (view : Fields) :
    extractClientPcmRate view ∈ supportedPcmRates := by
  unfold extractClientPcmRate
  split
  · split
    · next h => exact formatRate_supported h
    · decide
  · decide

theorem extractClientOutputPcmRate_supported (view : Fields) :
    extractClientOutputPcmRate view ∈ supportedPcmRates := by
  unfold extractClientOutputPcmRate
  split
  · split
    · next h => exact formatRate_supported h
    · exact extractClientPcmRate_supported view
  · decide

theorem clientRate_supported {rate : ℤ} (h : rate ∈ supportedPcmRates) :
    clientRate rate = rate := by
  have hzero : rate ≠ 0 := by
    rintro rfl
    revert h
    decide
  rw [clientRate, if_neg hzero, normalizePcmRate, if_pos h]

end Rates

section State

/-- One use of a stream resampler. -/
structure Use where
  stream : ℕ
  inRate : ℤ
  outRate : ℤ
  deriving DecidableEq

/-- `AudioResampler`, its streams numbered as they are created. -/
structure AudioResampler where
  uplink : ℕ := 0
  downlink : ℕ := 1
  created : ℕ := 2
  deriving DecidableEq

def AudioResampler.reset (r : AudioResampler) : AudioResampler where
  uplink := r.created
  downlink := r.created + 1
  created := r.created + 2

/-- The events of the wire that rates matter for: a delta with the rate of its audio. -/
inductive RateEvent
  | updated (session : Fields)
  | audioDelta (rate : ℤ)
  deriving DecidableEq

/-- The session of the observer and the serializer with what the serializer keeps of its view.
`inHand` is a local variable: the rate of the output audio that is on its way to a delta. -/
structure Session where
  base : Shared := {}
  view : Fields
  runtimeConfig : Fields
  clientInRate : ℤ
  clientOutRate : ℤ
  pipelineRate : ℤ
  resampler : AudioResampler := {}
  inHand : Option ℤ := none
  uses : List Use := []
  events : List RateEvent := []

namespace Session

def inRate (s : Session) : ℤ := clientRate s.clientInRate

def outRate (s : Session) : ℤ := clientRate s.clientOutRate

def pipeline (s : Session) : ℤ := normalizePcmRate s.pipelineRate pipelinePcmRate

def updateSessionView (s : Session) (view : Fields) : Session :=
  let inRate := extractClientPcmRate view
  let outRate := extractClientOutputPcmRate view
  { s with
    view := view
    clientInRate := inRate
    clientOutRate := outRate
    resampler :=
      if s.clientInRate ≠ inRate ∨ s.clientOutRate ≠ outRate then s.resampler.reset
      else s.resampler }

/-- `to_pipeline` up to its await. -/
def toPipeline (s : Session) : Session :=
  if s.inRate = s.pipeline then s
  else { s with uses := s.uses ++ [⟨s.resampler.uplink, s.inRate, s.pipeline⟩] }

/-- `from_pipeline` up to its await. -/
def fromPipeline (s : Session) : Session :=
  if s.outRate = s.pipeline then { s with inHand := some s.outRate }
  else
    { s with
      inHand := some s.outRate
      uses := s.uses ++ [⟨s.resampler.downlink, s.pipeline, s.outRate⟩] }

/-- The delta of the audio in hand. -/
def emitsDelta (event : ServerEvent) (origins : List ℕ) (s : Session) : Session :=
  { s with
    base := s.base.emits event origins
    inHand := none
    events := s.events ++ s.inHand.toList.map .audioDelta }

def applyLive (resolve : String → String) (patch : Fields) (s : Session) :
    Session × Option String :=
  let live := Serializer.applyLive resolve ⟨s.view, s.runtimeConfig⟩ patch
  ({ s with runtimeConfig := live.1.runtimeConfig }.updateSessionView live.1.view, live.2)

def announcesUpdate (s : Session) : Session :=
  { s with base := s.base.emits .sessionUpdated [], events := s.events ++ [.updated s.view] }

end Session

end State

section Tasks

inductive Site
  | base (site : RealtimeLifecycle.Site)
  | resolvingVoice
  deriving DecidableEq

/-- The session object of an update and the decoded bytes of an append come with their
message. -/
structure Reply where
  reply : RealtimeLifecycle.Reply := .go
  session : Fields := .nil
  raw : ℕ := 0
  deriving DecidableEq

abbrev Prog (α : Type) := Coro Empty Session Site Reply α

def basePart : Zoom Empty Session Site Reply Empty Shared RealtimeLifecycle.Site
    RealtimeLifecycle.Reply where
  view s := s.base
  put base s := { s with base := base }
  site := .base
  reply i := i.reply
  error e := e

/-- The voice catalog, and what an exception of the validation says. -/
structure Surroundings where
  resolve : String → String
  describe : Invalid → String

variable (O : Surroundings)

/-- Whether the resampling failed. -/
def resampled (origin : Option ℕ) (streamed : Bool) : Prog Bool :=
  if streamed then do
    let i ← Coro.pause (.base (.resampling origin))
    pure (decide (i.reply = .failed))
  else pure false

def serializeOutputAudio (frame : OutputAudio) : Prog Unit :=
  if frame.audio = [] then pure ()
  else do
    let streamed ← modifyGet fun s => (decide (s.outRate ≠ s.pipeline), s.fromPipeline)
    let failed ← resampled frame.origin streamed
    let s ← get
    if failed ∨ s.base.conv.responseStatus ≠ some .inProgress then
      modify fun s => { s with inHand := none }
    else do
      let (response, _) ← (announceResponse frame.origin.toList).zoom basePart
      modify fun s => s.emitsDelta
        (.outputAudioDelta (some response) s.base.conv.assistantItemId frame.audio)
        frame.origin.toList
      let _ ← Coro.pause (.base .emitting)

def emitError (eventId : Option Text) (message code : String) (param : Option String) :
    Prog (Option ReturnedFrame) :=
  (RealtimeSerializer.emitError eventId message code param).zoom basePart

def maxPendingInputBytes : ℕ := 16000 * 2 * 60

def deserializeAppend (eventId : Option Text) (raw bytes rate : ℕ) :
    Prog (Option ReturnedFrame) := do
  let s ← get
  let format := extractClientInputFormatType s.view
  if format ≠ "audio/pcm" then
    emitError eventId ("v1 supports audio/pcm only (got " ++ format ++ ")")
      "unsupported_audio_format" (some "session.audio.input.format.type")
  else if raw = 0 then pure none
  else do
    let streamed ← modifyGet fun s => (decide (s.inRate ≠ s.pipeline), s.toPipeline)
    let failed ← resampled none streamed
    if failed then emitError eventId "invalid audio" "invalid_audio" (some "audio")
    else if bytes = 0 then pure none
    else if maxPendingInputBytes < bytes then
      emitError eventId "input_audio_buffer.append decoded audio exceeds max size"
        "input_buffer_overflow" (some "audio")
    else
      Coro.zoom basePart do
        modify fun s => { s with bytesSinceCommit := s.bytesSinceCommit + bytes }
        onConversation (·.addInputAudio bytes rate)
        pure (some (.inputAudio bytes))

def describeRefusal : Invalid → String × String
  | .unsupportedLive fields =>
    ("Post-handoff session.update cannot apply [" ++ ", ".intercalate fields ++ "]; " ++
      "reconnect to change instructions/tools/temperature/nvidia. " ++
      "Live: voice, audio format/rate, and transcription selector only; " ++
      "turn detection is immutable", "unsupported_live_session_update")
  | why => (O.describe why, "invalid_session")

/-- A requested voice is looked up in a thread. -/
def awaitVoice (patch : Fields) : Prog Unit :=
  if requestedVoice (nestFormat "output_audio_format" "output"
      (nestFormat "input_audio_format" "input" (liveSessionPatch patch))) = "" then pure ()
  else do
    let _ ← Coro.pause .resolvingVoice

def deserializeSessionUpdate (eventId : Option Text) (patch : Fields) :
    Prog (Option ReturnedFrame) := do
  let s ← get
  match Serializer.deserializeSessionUpdate O.resolve ⟨s.view, s.runtimeConfig⟩ patch with
  | .error why =>
    emitError eventId (describeRefusal O why).1 (describeRefusal O why).2 (some "session")
  | .ok _ => do
    awaitVoice patch
    let voice ← modifyGet fun s =>
      ((s.applyLive O.resolve patch).2, (s.applyLive O.resolve patch).1.announcesUpdate)
    let _ ← Coro.pause (.base .emitting)
    pure (voice.map fun _ => .ttsUpdateSettings)

def deserialize (message : ClientMessage) (session : Fields) (raw : ℕ) :
    Prog (Option ReturnedFrame) :=
  match message.event with
  | .sessionUpdate _ => deserializeSessionUpdate O message.eventId session
  | .audioAppend bytes rate => deserializeAppend message.eventId raw bytes rate
  | _ => (RealtimeSerializer.deserialize message).zoom basePart

def receive (message : ClientMessage) (session : Fields) (raw : ℕ) : Prog Unit := do
  let frame ← deserialize O message session raw
  match frame with
  | none => pure ()
  | some frame => (note (.returned frame)).zoom basePart

abbrev Task := RealtimeSerializer.Task

/-- A reply that is no work for the task is ignored. -/
def work (t : Task) (i : Reply) : Prog Unit :=
  match t, i.reply with
  | .observer, .push data => (RealtimeObserver.onPushFrame data).zoom basePart
  | .output, .play audio => serializeOutputAudio audio
  | .client, .receive message => receive O message i.session i.raw
  | _, _ => pure ()

def realtime : System Empty Session Site Reply Task Unit where
  head _ _ := .base .ready
  body t _ i := work O t i
  crash _ e := e.elim

abbrev Realtime := Pool Empty Session Site Reply Task Unit

/-- A session as it is handed over: the gateway has announced the view that it starts with. -/
def freshSession (maxFrames : ℕ) (textOpen : Bool) (pipelineRate : ℤ)
    (view runtimeConfig : Fields) : Realtime :=
  (realtime O).start
    { base :=
        { conv := { assistantHasResponded := textOpen }, obs := { maxFrames := maxFrames } }
      view := view
      runtimeConfig := runtimeConfig
      clientInRate := extractClientPcmRate view
      clientOutRate := extractClientOutputPcmRate view
      pipelineRate := pipelineRate
      events := [.updated view] }
    fun _ => ()

end Tasks

section Writes
variable {O : Surroundings}

/-- What a task writes at once: anything of the base, and what its audio or its update takes. -/
inductive Writes : Task → Session → Session → Prop
  | base (t : Task) (s : Session) (base : Shared) : Writes t s { s with base := base }
  | takesUp (s : Session) : Writes .output s s.fromPipeline
  | drops (s : Session) : Writes .output s { s with inHand := none }
  | emits (s : Session) (event : ServerEvent) (origins : List ℕ) :
      Writes .output s (s.emitsDelta event origins)
  | appends (s : Session) : Writes .client s s.toPipeline
  | updates (s : Session) (resolve : String → String) (patch : Fields) :
      Writes .client s (s.applyLive resolve patch).1.announcesUpdate

theorem always_base (t : Task) {α : Type}
    (c : Coro Empty Shared RealtimeLifecycle.Site RealtimeLifecycle.Reply α) :
    Always (Writes t) (c.zoom basePart) :=
  always_zoom (fun s base => .base t s base) c

theorem always_resampled (t : Task) (origin : Option ℕ) (streamed : Bool) :
    Always (Writes t) (resampled origin streamed) := by
  unfold resampled
  refine .ite (.bind (.pause _) fun i => .pure _) (.pure _)

theorem always_serialize (frame : OutputAudio) :
    Always (Writes .output) (serializeOutputAudio frame) := by
  unfold serializeOutputAudio
  refine .ite (.pure ()) (.bind (.modifyGet fun s => .takesUp s) fun streamed => ?_)
  refine .bind (always_resampled _ _ _) fun failed => .bind .get fun s => ?_
  refine .ite (.modify fun s => .drops s) (.bind (always_base _ _) fun r => ?_)
  obtain ⟨response, created⟩ := r
  exact .bind (.modify fun s => .emits s _ _) fun _ => .bind (.pause _) fun _ => .pure ()

theorem always_append (eventId : Option Text) (raw bytes rate : ℕ) :
    Always (Writes .client) (deserializeAppend eventId raw bytes rate) := by
  unfold deserializeAppend
  refine .bind .get fun s => .ite (always_base _ _) (.ite (.pure _) ?_)
  refine .bind (.modifyGet fun s => .appends s) fun streamed => ?_
  refine .bind (always_resampled _ _ _) fun failed => ?_
  exact .ite (always_base _ _) (.ite (.pure _) (.ite (always_base _ _) (always_base _ _)))

theorem always_update (O : Surroundings) (eventId : Option Text) (patch : Fields) :
    Always (Writes .client) (deserializeSessionUpdate O eventId patch) := by
  unfold deserializeSessionUpdate
  refine .bind .get fun s => ?_
  cases Serializer.deserializeSessionUpdate O.resolve ⟨s.view, s.runtimeConfig⟩ patch with
  | error why => exact always_base _ _
  | ok live =>
    refine .bind ?_ fun _ => .bind (.modifyGet fun s => .updates s _ _) fun voice =>
      .bind (.pause _) fun _ => .pure _
    unfold awaitVoice
    exact .ite (.pure ()) (.bind (.pause _) fun _ => .pure ())

theorem always_receive (O : Surroundings) (message : ClientMessage) (session : Fields)
    (raw : ℕ) : Always (Writes .client) (receive O message session raw) := by
  unfold receive
  refine .bind ?_ fun frame => ?_
  · unfold deserialize
    cases message.event with
    | sessionUpdate voice => exact always_update O _ _
    | audioAppend bytes rate => exact always_append _ _ _ _
    | _ => exact always_base _ _
  · cases frame with
    | none => exact .pure ()
    | some frame => exact always_base _ _

theorem always_body (O : Surroundings) (t : Task) (b : Unit) (i : Reply) :
    Always (Writes t) ((realtime O).body t b i) := by
  obtain ⟨reply, session, raw⟩ := i
  change Always (Writes t) (work O t ⟨reply, session, raw⟩)
  cases t <;> cases reply <;>
    first
      | exact always_base _ _
      | exact always_serialize _
      | exact always_receive O _ _ _
      | exact .pure ()

end Writes

section Streams

/-- Each stream of the resampler is used for one pair of rates. -/
def OnePair (uses : List Use) : Prop :=
  ∀ u ∈ uses, ∀ u' ∈ uses, u.stream = u'.stream → u.inRate = u'.inRate ∧ u.outRate = u'.outRate

/-- The streams at hand are used for the rates of the view. -/
structure Streams (s : Session) : Prop where
  order : s.resampler.uplink < s.resampler.downlink ∧ s.resampler.downlink < s.resampler.created
  created : ∀ u ∈ s.uses, u.stream < s.resampler.created
  uplink : ∀ u ∈ s.uses, u.stream = s.resampler.uplink →
    u.inRate = s.inRate ∧ u.outRate = s.pipeline
  downlink : ∀ u ∈ s.uses, u.stream = s.resampler.downlink →
    u.inRate = s.pipeline ∧ u.outRate = s.outRate
  onePair : OnePair s.uses

variable {s s' : Session} {t : Task}

theorem OnePair.concat {uses : List Use} {u : Use} (h : OnePair uses)
    (hu : ∀ v ∈ uses, v.stream = u.stream → v.inRate = u.inRate ∧ v.outRate = u.outRate) :
    OnePair (uses ++ [u]) := by
  intro v hv w hw hsame
  rw [List.mem_append, List.mem_singleton] at hv hw
  rcases hv with hv | rfl
  · rcases hw with hw | rfl
    · exact h v hv w hw hsame
    · exact hu v hv hsame
  · rcases hw with hw | rfl
    · obtain ⟨hin, hout⟩ := hu w hw hsame.symm
      exact ⟨hin.symm, hout.symm⟩
    · exact ⟨rfl, rfl⟩

/-- A use of the stream at hand, at the rates of the view. -/
theorem Streams.use (h : Streams s) {u : Use}
    (hu : u = ⟨s.resampler.uplink, s.inRate, s.pipeline⟩ ∨
      u = ⟨s.resampler.downlink, s.pipeline, s.outRate⟩) :
    Streams { s with uses := s.uses ++ [u] } := by
  have horder := h.order
  refine ⟨h.order, fun v hv => ?_, fun v hv hstream => ?_, fun v hv hstream => ?_,
    h.onePair.concat fun v hv hsame => ?_⟩
  · rcases List.mem_append.mp hv with hv | hv
    · exact h.created v hv
    · rw [List.mem_singleton] at hv
      rcases hu with hu | hu
      · rw [hv, hu]
        show s.resampler.uplink < s.resampler.created
        omega
      · rw [hv, hu]
        exact h.order.2
  · rcases List.mem_append.mp hv with hv | hv
    · exact h.uplink v hv hstream
    · rw [List.mem_singleton] at hv
      rcases hu with hu | hu
      · rw [hv, hu]
        exact ⟨rfl, rfl⟩
      · rw [hv, hu] at hstream
        change s.resampler.downlink = s.resampler.uplink at hstream
        omega
  · rcases List.mem_append.mp hv with hv | hv
    · exact h.downlink v hv hstream
    · rw [List.mem_singleton] at hv
      rcases hu with hu | hu
      · rw [hv, hu] at hstream
        change s.resampler.uplink = s.resampler.downlink at hstream
        omega
      · rw [hv, hu]
        exact ⟨rfl, rfl⟩
  · rcases hu with rfl | rfl
    · exact h.uplink v hv hsame
    · exact h.downlink v hv hsame

/-- A change of either rate replaces both streams. -/
theorem Streams.update (h : Streams s) (view runtimeConfig : Fields) :
    Streams ({ s with runtimeConfig := runtimeConfig }.updateSessionView view) := by
  have horder := h.order
  unfold Session.updateSessionView
  dsimp only
  split
  · have hnew : ∀ u ∈ s.uses, u.stream ≠ s.resampler.created ∧
        u.stream ≠ s.resampler.created + 1 := by
      intro u hu
      have hcreated := h.created u hu
      omega
    refine ⟨⟨Nat.lt_succ_self _, Nat.lt_succ_self _⟩, fun u hu => ?_,
      fun u hu hstream => absurd hstream (hnew u hu).1,
      fun u hu hstream => absurd hstream (hnew u hu).2, h.onePair⟩
    have hcreated := h.created u hu
    show u.stream < s.resampler.created + 2
    omega
  · next hsame =>
    obtain ⟨hin, hout⟩ : s.clientInRate = extractClientPcmRate view ∧
        s.clientOutRate = extractClientOutputPcmRate view := by
      simpa only [not_or, not_not, ne_eq] using hsame
    refine ⟨h.order, h.created, fun u hu hstream => ?_, fun u hu hstream => ?_, h.onePair⟩
    · have huse := h.uplink u hu hstream
      rw [Session.inRate, hin] at huse
      exact huse
    · have huse := h.downlink u hu hstream
      rw [Session.outRate, hout] at huse
      exact huse

/-- Step lemma: no write mixes the rates of a stream. -/
theorem Streams.write (h : Streams s) (hw : Writes t s s') : Streams s' := by
  cases hw with
  | base => exact ⟨h.order, h.created, h.uplink, h.downlink, h.onePair⟩
  | drops => exact ⟨h.order, h.created, h.uplink, h.downlink, h.onePair⟩
  | emits => exact ⟨h.order, h.created, h.uplink, h.downlink, h.onePair⟩
  | takesUp =>
    unfold Session.fromPipeline
    split
    · exact ⟨h.order, h.created, h.uplink, h.downlink, h.onePair⟩
    · have huse := h.use (.inr rfl)
      exact ⟨huse.order, huse.created, huse.uplink, huse.downlink, huse.onePair⟩
  | appends =>
    unfold Session.toPipeline
    split
    · exact h
    · exact h.use (.inl rfl)
  | updates _ resolve patch =>
    have hupdate := h.update (Serializer.applyLive resolve ⟨s.view, s.runtimeConfig⟩ patch).1.view
      (Serializer.applyLive resolve ⟨s.view, s.runtimeConfig⟩ patch).1.runtimeConfig
    exact ⟨hupdate.order, hupdate.created, hupdate.uplink, hupdate.downlink, hupdate.onePair⟩

end Streams

section Coherence
variable {events : List RateEvent} {session : Fields} {s s' : Session} {t : Task}

def RateEvent.announced : RateEvent → Option Fields
  | .updated session => some session
  | .audioDelta _ => none

/-- The latest announcement. -/
def lastUpdated (events : List RateEvent) : Option Fields :=
  (events.filterMap RateEvent.announced).getLast?

/-- Every delta has the output rate of the latest announcement before it. -/
def Coherent (events : List RateEvent) : Prop :=
  ∀ before rate after, events = before ++ .audioDelta rate :: after →
    ∀ session, lastUpdated before = some session → rate = extractClientOutputPcmRate session

theorem lastUpdated_updated (events : List RateEvent) (session : Fields) :
    lastUpdated (events ++ [.updated session]) = some session := by
  rw [lastUpdated, List.filterMap_append]
  exact List.getLast?_concat

theorem lastUpdated_delta (events : List RateEvent) (rate : ℤ) :
    lastUpdated (events ++ [.audioDelta rate]) = lastUpdated events := by
  rw [lastUpdated, List.filterMap_append]
  exact congrArg List.getLast? (List.append_nil _)

theorem Coherent.concat (h : Coherent events) {e : RateEvent}
    (he : ∀ rate, e = .audioDelta rate → ∀ session, lastUpdated events = some session →
      rate = extractClientOutputPcmRate session) : Coherent (events ++ [e]) := by
  intro before rate after hsplit
  cases after using List.reverseRecOn with
  | nil =>
    obtain ⟨rfl, hlast⟩ := List.append_inj' hsplit rfl
    exact he rate (List.cons.inj hlast).1
  | append_singleton after last =>
    rw [← List.cons_append, ← List.append_assoc] at hsplit
    exact h before rate after (List.append_inj_left' hsplit rfl)

/-- The output rate is the announced one. -/
structure Announced (s : Session) : Prop where
  once : lastUpdated s.events ≠ none
  rate : ∀ session, lastUpdated s.events = some session →
    s.clientOutRate = extractClientOutputPcmRate session
  supported : s.clientOutRate ∈ supportedPcmRates

theorem Announced.of_same (h : Announced s) (hlast : lastUpdated s'.events = lastUpdated s.events)
    (hrate : s'.clientOutRate = s.clientOutRate) : Announced s' where
  once := by
    rw [hlast]
    exact h.once
  rate session hsession := by
    rw [hlast] at hsession
    rw [hrate]
    exact h.rate session hsession
  supported := by
    rw [hrate]
    exact h.supported

theorem Announced.write (h : Announced s) (hw : Writes t s s') : Announced s' := by
  cases hw with
  | base => exact h.of_same rfl rfl
  | drops => exact h.of_same rfl rfl
  | takesUp =>
    unfold Session.fromPipeline
    split
    · exact h.of_same rfl rfl
    · exact h.of_same rfl rfl
  | appends =>
    unfold Session.toPipeline
    split
    · exact h
    · exact h.of_same rfl rfl
  | emits =>
    refine h.of_same ?_ rfl
    rw [Session.emitsDelta]
    cases s.inHand with
    | none => exact congrArg lastUpdated (List.append_nil _)
    | some rate => exact lastUpdated_delta _ _
  | updates _ resolve patch =>
    have hlast : lastUpdated (s.applyLive resolve patch).1.announcesUpdate.events =
        some (s.applyLive resolve patch).1.view := lastUpdated_updated _ _
    refine ⟨by simp [hlast], fun session hsession => ?_, extractClientOutputPcmRate_supported _⟩
    rw [hlast] at hsession
    rw [← Option.some.inj hsession]
    rfl

/-- A delta at another rate than the announced one. -/
theorem Announced.stale (h : Announced s) {rate : ℤ} (hrate : rate ≠ s.clientOutRate) :
    ¬ Coherent (s.events ++ [.audioDelta rate]) := by
  intro hcoherent
  obtain ⟨session, hsession⟩ := Option.ne_none_iff_exists'.mp h.once
  have hsame := hcoherent s.events rate [] rfl session hsession
  exact hrate (hsame.trans (h.rate session hsession).symm)

/-- The deltas so far are coherent, and so is the audio in hand. -/
structure InStep (s : Session) : Prop where
  coherent : Coherent s.events
  inHand : ∀ rate, s.inHand = some rate → rate = s.outRate

/-- Step lemma: output audio that is taken up has the rate announced last. -/
theorem InStep.write (h : InStep s) (hannounced : Announced s) (hw : Writes .output s s') :
    InStep s' := by
  cases hw with
  | base => exact ⟨h.coherent, h.inHand⟩
  | drops => exact ⟨h.coherent, fun rate hhand => by cases hhand⟩
  | takesUp =>
    have htaken : ∀ rate, some s.outRate = some rate → rate = s.outRate :=
      fun rate hhand => (Option.some.inj hhand).symm
    unfold Session.fromPipeline
    split
    · exact ⟨h.coherent, htaken⟩
    · exact ⟨h.coherent, htaken⟩
  | emits event origins =>
    refine ⟨?_, fun rate hhand => by cases hhand⟩
    change Coherent (s.events ++ s.inHand.toList.map .audioDelta)
    cases hhand : s.inHand with
    | none =>
      change Coherent (s.events ++ [])
      rw [List.append_nil]
      exact h.coherent
    | some rate =>
      refine h.coherent.concat fun rate' hrate session hlast => ?_
      cases hrate
      rw [h.inHand rate hhand, Session.outRate, clientRate_supported hannounced.supported]
      exact hannounced.rate session hlast

/-- The other tasks emit no delta and leave the audio in hand alone. -/
theorem Writes.aside (ht : t ≠ .output) (hw : Writes t s s') :
    (Coherent s.events → Coherent s'.events) ∧ s'.inHand = s.inHand := by
  cases hw with
  | base => exact ⟨id, rfl⟩
  | takesUp => exact absurd rfl ht
  | drops => exact absurd rfl ht
  | emits => exact absurd rfl ht
  | appends =>
    unfold Session.toPipeline
    split
    · exact ⟨id, rfl⟩
    · exact ⟨id, rfl⟩
  | updates =>
    refine ⟨fun h => h.concat fun rate hrate => ?_, rfl⟩
    cases hrate

end Coherence

section Runs
variable {O : Surroundings} {p q : Realtime}

/-- Every interleaving: any task may be given any reply at any await. -/
def anyReply (_ : View Task Site Session) (_ : Task) (_ : Reply) : Prop := True

/-- Nothing but the three tasks touches the session. -/
def closedWorld (_ : View Task Site Session) (_ : Session) : Prop := False

/-- While output audio is in hand the output rate stays. -/
def Calm (p q : Realtime) : Prop :=
  p.shared.inHand ≠ none → q.shared.clientOutRate = p.shared.clientOutRate

/-- A run all of whose steps are calm. -/
def CalmRun (O : Surroundings) (p q : Realtime) : Prop :=
  ReflTransGen (fun p q => (realtime O).Step anyReply closedWorld p q ∧ Calm p q) p q

/-- What holds between two turns of any run. -/
structure Good (p : Realtime) : Prop where
  tame : Tame Writes p
  streams : Streams p.shared
  announced : Announced p.shared

theorem Streams.writes {s s' : Session} {t : Task} (h : Streams s)
    (hw : ReflTransGen (Writes t) s s') : Streams s' := by
  induction hw with
  | refl => exact h
  | tail _ hw ih => exact ih.write hw

theorem Announced.writes {s s' : Session} {t : Task} (h : Announced s)
    (hw : ReflTransGen (Writes t) s s') : Announced s' := by
  induction hw with
  | refl => exact h
  | tail _ hw ih => exact ih.write hw

theorem InStep.writes {s s' : Session} (h : InStep s) (hannounced : Announced s)
    (hw : ReflTransGen (Writes .output) s s') : InStep s' := by
  induction hw with
  | refl => exact h
  | tail hws hw ih => exact ih.write (hannounced.writes hws) hw

theorem Writes.asides {s s' : Session} {t : Task} (ht : t ≠ .output)
    (hw : ReflTransGen (Writes t) s s') :
    (Coherent s.events → Coherent s'.events) ∧ s'.inHand = s.inHand := by
  induction hw with
  | refl => exact ⟨id, rfl⟩
  | tail _ hw ih =>
    obtain ⟨hkeeps, hsame⟩ := hw.aside ht
    exact ⟨hkeeps ∘ ih.1, hsame.trans ih.2⟩

theorem Good.step (h : Good p) (hstep : (realtime O).Step anyReply closedWorld p q) :
    Good q ∧ ∃ t, ReflTransGen (Writes t) p.shared q.shared := by
  obtain ⟨htame, hstep⟩ := Tame.step (always_body O) h.tame hstep
  rcases hstep with ⟨t, hmoves⟩ | hfalse
  · exact ⟨⟨htame, h.streams.writes hmoves, h.announced.writes hmoves⟩, t, hmoves⟩
  · exact hfalse.elim

/-- Step lemma: a calm step keeps the deltas coherent. -/
theorem InStep.step (h : InStep p.shared) (hgood : Good p) (hcalm : Calm p q)
    (hstep : (realtime O).Step anyReply closedWorld p q) : InStep q.shared := by
  obtain ⟨-, t, hmoves⟩ := hgood.step hstep
  by_cases ht : t = .output
  · subst ht
    exact h.writes hgood.announced hmoves
  · obtain ⟨hkeeps, hsame⟩ := Writes.asides ht hmoves
    refine ⟨hkeeps h.coherent, fun rate hhand => ?_⟩
    rw [hsame] at hhand
    have hrate := hcalm (by rw [hhand]; simp)
    rw [Session.outRate, hrate]
    exact h.inHand rate hhand

variable (maxFrames : ℕ) (textOpen : Bool) (pipelineRate : ℤ) (view runtimeConfig : Fields)

theorem good_fresh : Good (freshSession O maxFrames textOpen pipelineRate view runtimeConfig) where
  tame := tame_start (always_body O) _ _
  streams :=
    { order := ⟨Nat.zero_lt_one, Nat.one_lt_two⟩
      created := fun u hu => by cases hu
      uplink := fun u hu => by cases hu
      downlink := fun u hu => by cases hu
      onePair := fun u hu => by cases hu }
  announced :=
    { once := by
        have hlast : lastUpdated [RateEvent.updated view] = some view := lastUpdated_updated [] view
        exact fun hnone => by cases hlast.symm.trans hnone
      rate := fun session hlast => by
        have hview : view = session :=
          Option.some.inj ((lastUpdated_updated [] view).symm.trans hlast)
        rw [← hview]
        rfl
      supported := extractClientOutputPcmRate_supported view }

theorem inStep_fresh :
    InStep (freshSession O maxFrames textOpen pipelineRate view runtimeConfig).shared where
  coherent := by
    intro before rate after hsplit
    have hmem : RateEvent.audioDelta rate ∈ [RateEvent.updated view] := by
      change [RateEvent.updated view] = _ at hsplit
      rw [hsplit]
      simp
    simp at hmem
  inHand rate hhand := by cases hhand

/-- In every run each resampler stream is used for one pair of rates. In every run in which no
step changes the output rate while output audio is in hand, every delta is resampled to the
output rate of the latest announcement before it. A delta at another rate than the session has
when it is emitted breaks that. -/
theorem rates_coherent (O : Surroundings) :
    (∀ p, (realtime O).Reach anyReply closedWorld
        (freshSession O maxFrames textOpen pipelineRate view runtimeConfig) p →
      OnePair p.shared.uses) ∧
    (∀ p, CalmRun O (freshSession O maxFrames textOpen pipelineRate view runtimeConfig) p →
      Coherent p.shared.events) ∧
    ∀ p, (realtime O).Reach anyReply closedWorld
        (freshSession O maxFrames textOpen pipelineRate view runtimeConfig) p →
      ∀ rate, rate ≠ p.shared.clientOutRate →
        ¬ Coherent (p.shared.events ++ [.audioDelta rate]) := by
  have hgood : ∀ p, (realtime O).Reach anyReply closedWorld
      (freshSession O maxFrames textOpen pipelineRate view runtimeConfig) p → Good p := by
    intro p hrun
    induction hrun with
    | refl => exact good_fresh maxFrames textOpen pipelineRate view runtimeConfig
    | tail _ hstep ih => exact (ih.step hstep).1
  refine ⟨fun p hrun => (hgood p hrun).streams.onePair, fun p hrun => ?_,
    fun p hrun rate hrate => (hgood p hrun).announced.stale hrate⟩
  · have hboth : Good p ∧ InStep p.shared := by
      induction hrun with
      | refl =>
        exact ⟨good_fresh maxFrames textOpen pipelineRate view runtimeConfig,
          inStep_fresh maxFrames textOpen pipelineRate view runtimeConfig⟩
      | tail _ hstep ih => exact ⟨(ih.1.step hstep.1).1, ih.2.step ih.1 hstep.2 hstep.1⟩
    exact hboth.2.coherent

def after (O : Surroundings) (p : Realtime) (turns : List (Task × Reply)) : Realtime :=
  turns.foldl (fun p turn => (realtime O).resume p turn.1 turn.2) p

/-- All of the turns are calm. -/
def CalmTurns (O : Surroundings) (p : Realtime) : List (Task × Reply) → Prop
  | [] => True
  | turn :: rest =>
    Calm p ((realtime O).resume p turn.1 turn.2) ∧
      CalmTurns O ((realtime O).resume p turn.1 turn.2) rest

instance decidableCalmTurns (O : Surroundings) :
    ∀ (turns : List (Task × Reply)) (p : Realtime), Decidable (CalmTurns O p turns)
  | [], _ => .isTrue trivial
  | turn :: rest, p =>
    have := decidableCalmTurns O rest ((realtime O).resume p turn.1 turn.2)
    inferInstanceAs (Decidable ((_ → _) ∧ _))

theorem reach_after (O : Surroundings) (p : Realtime) (turns : List (Task × Reply)) :
    (realtime O).Reach anyReply closedWorld p (after O p turns) := by
  induction turns generalizing p with
  | nil => exact .refl
  | cons turn rest ih => exact .head (.turn p turn.1 turn.2 trivial) (ih _)

theorem calmRun_after {turns : List (Task × Reply)} (h : CalmTurns O p turns) :
    CalmRun O p (after O p turns) := by
  induction turns generalizing p with
  | nil => exact .refl
  | cons turn rest ih => exact .head ⟨.turn p turn.1 turn.2 trivial, h.1⟩ (ih h.2)

def formatAt (rate : ℤ) : Json :=
  .obj (((Fields.nil.set "type" (.str "audio/pcm")).set "rate" (.int rate)))

def viewAt (rate : ℤ) : Fields :=
  Fields.nil.set "audio" (.obj (((Fields.nil.set "input"
    (.obj (Fields.nil.set "format" (formatAt rate)))).set "output"
      (.obj (Fields.nil.set "format" (formatAt rate))))))

def onlyPcm : Surroundings where
  resolve voice := voice
  describe _ := "invalid"

/-- A response is created and announced. -/
def opening : List (Task × Reply) :=
  (.client, { reply := .receive { event := .responseCreate false } }) ::
    List.replicate 4 (.client, {})

def playing : Task × Reply := (.output, { reply := .play { audio := ['x'] } })

def updating (rate : ℤ) : Task × Reply :=
  (.client, { reply := .receive { event := .sessionUpdate false }, session := viewAt rate })

theorem rates_coherent_updated :
    let p := after onlyPcm (freshSession onlyPcm 4096 true 16000 (viewAt 24000) .nil)
      (opening ++ [updating 8000, (.client, {}), playing, (.output, {}), (.output, {})])
    p.shared.events = [.updated (viewAt 24000), .updated (viewAt 8000), .audioDelta 8000] ∧
      OnePair p.shared.uses ∧ Coherent p.shared.events :=
  ⟨by decide +kernel,
    (rates_coherent 4096 true 16000 (viewAt 24000) .nil onlyPcm).1 _ (reach_after _ _ _),
    (rates_coherent 4096 true 16000 (viewAt 24000) .nil onlyPcm).2.1 _
      (calmRun_after (by decide +kernel))⟩

/-- An update is announced while a chunk is resampled: its delta has the rate from before. -/
theorem delta_after_update :
    let start := freshSession onlyPcm 4096 true 16000 (viewAt 24000) .nil
    let p := after onlyPcm start (opening ++ [playing, updating 8000, (.output, {})])
    (realtime onlyPcm).Reach anyReply closedWorld start p ∧ ¬ Coherent p.shared.events := by
  intro start p
  refine ⟨reach_after _ _ _, fun h => ?_⟩
  have hevents : p.shared.events =
      [.updated (viewAt 24000), .updated (viewAt 8000)] ++ .audioDelta 24000 :: [] := by
    decide +kernel
  have hrate := h _ _ _ hevents (viewAt 8000) (by decide +kernel)
  revert hrate
  decide +kernel

end Runs

end VoiceAgent.RateCoherence
