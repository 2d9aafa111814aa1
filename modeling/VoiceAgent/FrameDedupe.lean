import VoiceAgent.RealtimeRules
import Mathlib.Data.List.Nodup

/-!
Each frame and each tool call speaks at most once. The observer remembers the last
`maxFrames` ids it handled, and forgets them all whenever a response is finished
or cancelled, even those of frames that are still on their way through the
pipeline. So a frame is handled once as long as none of them crosses another edge.
-/
namespace VoiceAgent.FrameDedupe

open RealtimeEvents Conversation Coroutine Interleaving RealtimeLifecycle RealtimeObserver
  RealtimeSerializer RealtimeRules

section Log

def handledOf : Entry → Option ℕ
  | .handled id _ => some id
  | _ => none

/-- The frames handled so far, in order. -/
def handledFrames (log : List Entry) : List ℕ := log.filterMap handledOf

def retain (recent : List ℕ) : Entry → List ℕ
  | .handled id _ => recent ++ [id]
  | .dedupeCleared => []
  | _ => recent

/-- The frames handled since the memory was last cleared. -/
def recentFrames (log : List Entry) : List ℕ := log.foldl retain []

/-- A frame that only ends a response: with none in progress it makes no event. -/
def endsResponse : Frame → Bool
  | .interruption | .ttsStopped | .llmFullResponseEnd true => true
  | _ => false

def effectiveOf (frames : ℕ → Frame) : Entry → Option ℕ
  | .handled id busy => if endsResponse (frames id) && !busy then none else some id
  | _ => none

/-- The frames that were handled to some effect. -/
def effective (frames : ℕ → Frame) (log : List Entry) : List ℕ :=
  log.filterMap (effectiveOf frames)

def startedCalls (events : List ServerEvent) : List Text :=
  events.filterMap fun
    | .nvidiaToolStarted callId _ _ => some callId
    | _ => none

def completedCalls (events : List ServerEvent) : List Text :=
  events.filterMap fun
    | .nvidiaToolCompleted callId _ _ _ => some callId
    | _ => none

/-- Frames and tool calls speak at most once. -/
structure HandledOnce (frames : ℕ → Frame) (log : List Entry) : Prop where
  frames : (effective frames log).Nodup
  started : (startedCalls (wire log)).Nodup
  completed : (completedCalls (wire log)).Nodup

/-- What the frame dedupe is about: no other entry counts. -/
def tallied : Entry → Bool
  | .handled .. | .dedupeCleared => true
  | .emitted (.nvidiaToolStarted ..) _ | .emitted (.nvidiaToolCompleted ..) _ => true
  | _ => false

variable {frames : ℕ → Frame} {log es : List Entry} {id : ℕ}

theorem mem_handled_of_effective (h : id ∈ effective frames log) : id ∈ handledFrames log := by
  obtain ⟨e, he, hid⟩ := List.mem_filterMap.mp h
  refine List.mem_filterMap.mpr ⟨e, he, ?_⟩
  cases e with
  | handled id' busy =>
    simp only [effectiveOf] at hid
    split at hid
    · cases hid
    · exact hid
  | _ => cases hid

theorem recent_suffix : recentFrames log <:+ handledFrames log := by
  induction log using List.reverseRecOn with
  | nil => exact List.suffix_refl _
  | append_singleton log e ih =>
    simp only [recentFrames, handledFrames, List.foldl_append, List.filterMap_append] at ih ⊢
    cases e with
    | handled id busy =>
      obtain ⟨old, hold⟩ := ih
      exact ⟨old, by simp [retain, handledOf, ← hold]⟩
    | dedupeCleared => exact List.nil_suffix
    | _ =>
      rw [List.filterMap_cons_none rfl, List.filterMap_nil, List.append_nil]
      exact ih

section Untallied
variable (h : ∀ e ∈ es, tallied e = false)
include h

theorem handled_untallied : handledFrames (log ++ es) = handledFrames log := by
  have hnil : handledFrames es = [] := by
    refine List.filterMap_eq_nil_iff.mpr fun e he => ?_
    have hno := h e he
    cases e with
    | handled => cases hno
    | _ => rfl
  rw [handledFrames, List.filterMap_append]
  exact (congrArg _ hnil).trans (List.append_nil _)

theorem effective_untallied : effective frames (log ++ es) = effective frames log := by
  have hnil : effective frames es = [] := by
    refine List.filterMap_eq_nil_iff.mpr fun e he => ?_
    have hno := h e he
    cases e with
    | handled => cases hno
    | _ => rfl
  rw [effective, List.filterMap_append]
  exact (congrArg _ hnil).trans (List.append_nil _)

theorem recent_untallied : recentFrames (log ++ es) = recentFrames log := by
  rw [recentFrames, List.foldl_append]
  change es.foldl retain (recentFrames log) = recentFrames log
  generalize recentFrames log = recent
  induction es with
  | nil => rfl
  | cons e es ih =>
    have hno := h e List.mem_cons_self
    have hsame : retain recent e = recent := by
      cases e with
      | handled | dedupeCleared => cases hno
      | _ => rfl
    rw [List.foldl_cons, hsame]
    exact ih fun e' he' => h e' (List.mem_cons_of_mem _ he')

theorem calls_untallied : startedCalls (wire (log ++ es)) = startedCalls (wire log) ∧
    completedCalls (wire (log ++ es)) = completedCalls (wire log) := by
  have hs : startedCalls (wire es) = [] := by
    refine List.filterMap_eq_nil_iff.mpr fun event he => ?_
    obtain ⟨origins, hmem⟩ := mem_wire.mp he
    have hno := h _ hmem
    cases event with
    | nvidiaToolStarted => cases hno
    | _ => rfl
  have hc : completedCalls (wire es) = [] := by
    refine List.filterMap_eq_nil_iff.mpr fun event he => ?_
    obtain ⟨origins, hmem⟩ := mem_wire.mp he
    have hno := h _ hmem
    cases event with
    | nvidiaToolCompleted => cases hno
    | _ => rfl
  rw [wire_append, startedCalls, completedCalls, List.filterMap_append, List.filterMap_append]
  exact ⟨(congrArg _ hs).trans (List.append_nil _), (congrArg _ hc).trans (List.append_nil _)⟩

end Untallied

end Log

section Memory

/-- The last `n` of a list. -/
def lastOf (n : ℕ) (l : List ℕ) : List ℕ := l.drop (l.length - n)

theorem pushBounded_lastOf (n : ℕ) (l : List ℕ) (id : ℕ) :
    pushBounded n (lastOf n l) id = lastOf n (l ++ [id]) := by
  simp only [pushBounded, lastOf, List.length_drop, List.length_append, List.length_singleton]
  rcases Nat.lt_or_ge l.length n with hlt | hge
  · have h0 : l.length - n = 0 := by omega
    simp [h0]
  · have h1 : l.length - (l.length - n) + 1 - n = 1 := by omega
    have h2 : l.length + 1 - n = l.length - n + 1 := by omega
    have hd : (l ++ [id]).drop (l.length - n) = l.drop (l.length - n) ++ [id] :=
      List.drop_append_of_le_length (Nat.sub_le _ _)
    rw [h1, h2, ← List.drop_drop, hd]

/-- An id among the last `n` of a list is among the last `n` of any suffix it occurs in. -/
theorem mem_lastOf_suffix {n id : ℕ} {l l' : List ℕ} (hs : l' <:+ l) (h : id ∈ lastOf n l)
    (h' : id ∈ l') : id ∈ lastOf n l' := by
  obtain ⟨old, rfl⟩ := hs
  simp only [lastOf, List.length_append] at h ⊢
  rcases Nat.lt_or_ge l'.length n with hlt | hge
  · have h0 : l'.length - n = 0 := by omega
    simpa [h0] using h'
  · rw [List.drop_append, List.drop_eq_nil_of_le (by omega), List.nil_append] at h
    have h1 : old.length + l'.length - n - old.length = l'.length - n := by omega
    rwa [h1] at h

/-- The memory of the observer is the last of what it handled since it last forgot. -/
structure Remembers (s : Shared) : Prop where
  history : s.obs.frameHistory = lastOf s.obs.maxFrames (recentFrames s.log)
  processed : s.obs.processedFrames = s.obs.frameHistory.toFinset
  nodup : s.obs.frameHistory.Nodup

/-- The processed set is the history after every new id. -/
theorem rememberIn_processed {n id : ℕ} {processed : Finset ℕ} {history : List ℕ}
    (hp : processed = history.toFinset) (hn : history.Nodup) (hid : id ∉ processed)
    (hlen : history.length ≤ n) :
    (rememberIn n processed history id).1 = (rememberIn n processed history id).2.toFinset ∧
      (rememberIn n processed history id).2.Nodup := by
  have hmem : id ∉ history := by
    intro h
    exact hid (by rw [hp]; exact List.mem_toFinset.mpr h)
  have hnodup : (history ++ [id]).Nodup := by
    rw [List.nodup_append]
    refine ⟨hn, List.nodup_singleton id, fun a ha b hb => ?_⟩
    rw [List.mem_singleton.mp hb]
    rintro rfl
    exact hmem ha
  have hcard : (insert id processed).card = history.length + 1 := by
    rw [Finset.card_insert_of_notMem hid, hp, List.toFinset_card_of_nodup hn]
  have hpushed : (pushBounded n history id).Nodup := hnodup.sublist (List.drop_sublist _ _)
  refine ⟨?_, hpushed⟩
  simp only [rememberIn]
  by_cases hshort : (pushBounded n history id).length < (insert id processed).card
  · rw [if_pos hshort]
  · rw [if_neg hshort]
    have hdrop : history.length + 1 - n = 0 := by
      simp only [pushBounded, List.length_drop, List.length_append, List.length_singleton,
        hcard] at hshort
      omega
    rw [pushBounded, hdrop, List.drop_zero, hp]
    ext a
    simp

end Memory

/-- A change that handles no frame and speaks of no tool call. -/
structure Bystander (s s' : Shared) : Prop where
  remembers : Remembers s → Remembers s'
  handled : handledFrames s'.log = handledFrames s.log
  effective : ∀ frames, effective frames s'.log = effective frames s.log
  calls : startedCalls (wire s'.log) = startedCalls (wire s.log) ∧
    completedCalls (wire s'.log) = completedCalls (wire s.log)
  known : s'.obs.emittedFunctionCalls = s.obs.emittedFunctionCalls

/-- What the dedupe keeps in the observer. -/
def memory (o : Observer) :=
  (o.maxFrames, o.frameHistory, o.processedFrames, o.emittedFunctionCalls)

section Bystanders
variable {s s' s'' : Shared}

theorem Bystander.refl (s : Shared) : Bystander s s :=
  ⟨id, rfl, fun _ => rfl, ⟨rfl, rfl⟩, rfl⟩

theorem Bystander.trans (h : Bystander s s') (h' : Bystander s' s'') : Bystander s s'' where
  remembers hr := h'.remembers (h.remembers hr)
  handled := h'.handled.trans h.handled
  effective frames := (h'.effective frames).trans (h.effective frames)
  calls := ⟨h'.calls.1.trans h.calls.1, h'.calls.2.trans h.calls.2⟩
  known := h'.known.trans h.known

theorem Bystander.of_entries (es : List Entry) (hm : memory s'.obs = memory s.obs)
    (hlog : s'.log = s.log ++ es) (hes : ∀ e ∈ es, tallied e = false) : Bystander s s' := by
  simp only [memory, Prod.mk.injEq] at hm
  obtain ⟨hmax, hhist, hproc, hknown⟩ := hm
  refine ⟨fun hr => ⟨?_, ?_, ?_⟩, ?_, fun frames => ?_, ?_, hknown⟩
  · rw [hhist, hmax, hlog, recent_untallied hes]
    exact hr.history
  · rw [hproc, hhist]
    exact hr.processed
  · rw [hhist]
    exact hr.nodup
  · rw [hlog, handled_untallied hes]
  · rw [hlog, effective_untallied hes]
  · rw [hlog]
    exact calls_untallied hes

/-- Forgetting every frame is remembering what came since. -/
theorem bystander_forget (s : Shared) : Bystander s (Shared.record
    { s with obs := { s.obs with processedFrames := ∅, frameHistory := [] } } .dedupeCleared) where
  remembers _ := ⟨by simp [Shared.record, recentFrames, retain, lastOf],
    by simp [Shared.record], by simp [Shared.record]⟩
  handled := by simp [Shared.record, handledFrames, handledOf]
  effective frames := by simp [Shared.record, effective, effectiveOf]
  calls := by simp [Shared.record, wire]
  known := rfl

end Bystanders

section Programs
variable {α : Type}

theorem Always.note {e : Entry} (h : tallied e = false) : Always Bystander (note e) :=
  Always.modify fun _ => .of_entries [e] rfl rfl (by simpa using h)

theorem Always.onConversation (f : ConversationState → ConversationState) :
    Always Bystander (onConversation f) :=
  Always.modify fun _ => .of_entries [] rfl (by simp) (by simp)

theorem Always.askConversation (f : ConversationState → α × ConversationState) :
    Always Bystander (askConversation f) :=
  Always.modifyGet fun _ => .of_entries [] rfl (by simp) (by simp)

theorem Always.onObserver {f : Observer → Observer} (h : ∀ o, memory (f o) = memory o) :
    Always Bystander (onObserver f) :=
  Always.modify fun _ => .of_entries [] (h _) (by simp) (by simp)

theorem Always.bytes (f : ℕ → ℕ) : Always Bystander
    (modify fun s => { s with bytesSinceCommit := f s.bytesSinceCommit } : Prog Unit) :=
  Always.modify fun _ => .of_entries [] rfl (by simp) (by simp)

theorem Always.emit {site : Site} {event : ServerEvent} {origins : List ℕ}
    (h : tallied (.emitted event origins) = false) : Always Bystander (emit site event origins) :=
  (Always.note h).bind fun _ => (Always.pause site).bind fun _ => Always.pure ()

theorem Always.announceResponse (origins : List ℕ) :
    Always Bystander (announceResponse origins) := by
  refine (Always.askConversation _).bind fun begun => ?_
  refine Always.bind ?_ fun _ => Always.bind ?_ fun _ => Always.bind ?_ fun _ => Always.pure _
  · exact .ite (Always.emit rfl) (.pure ())
  · exact Always.get.bind fun s => .ite (.pure ()) ((Always.onConversation _).bind fun _ =>
      (Always.emit rfl).bind fun _ => Always.emit rfl)
  · exact Always.get.bind fun s => .ite (.pure ()) ((Always.onConversation _).bind fun _ =>
      Always.emit rfl)

theorem untallied_finishEvents {snap : ResponseSnapshot} {tel : Option RealtimeResponseTelemetry}
    {e : ServerEvent} {origins : List ℕ} (h : e ∈ finishEvents snap tel) :
    tallied (.emitted e origins) = false := by
  simp only [finishEvents, List.mem_append, List.mem_cons, List.not_mem_nil, or_false] at h
  rcases h with (h | h) | rfl | rfl | rfl
  · split at h <;> simp_all [tallied]
  · split at h <;> simp_all [tallied]
  all_goals rfl

theorem Always.emitEach (snap : ResponseSnapshot) {rest : List ServerEvent}
    (h : ∀ e ∈ rest, tallied (.emitted e []) = false) : Always Bystander (emitEach snap rest) := by
  induction rest with
  | nil => exact .pure ()
  | cons e rest ih =>
    exact (Always.emit (h e List.mem_cons_self)).bind
      fun _ => ih fun e' he' => h e' (List.mem_cons_of_mem _ he')

theorem Always.finishResponse (status : ResponseStatus)
    (tel : Option RealtimeResponseTelemetry) (cause : Option ℕ) :
    Always Bystander (RealtimeLifecycle.finishResponse status tel cause) := by
  refine (Always.askConversation _).bind fun snap? => ?_
  cases snap? with
  | none => exact .pure false
  | some snap =>
    refine (Always.note rfl).bind fun _ => ?_
    refine (Always.emitEach snap fun e he => untallied_finishEvents he).bind fun _ => ?_
    refine Always.bind ?_ fun _ => .pure true
    exact Always.get.bind fun s => (Always.onConversation _).bind fun _ => Always.note rfl

theorem Always.appendAssistantTranscript (text : Text) (origins : List ℕ) :
    Always Bystander (appendAssistantTranscript text origins) :=
  .ite (.pure ()) ((Always.onConversation _).bind fun _ => Always.get.bind fun _ => Always.note rfl)

theorem Always.emitTranscriptDelta (site : Site) (text : Text) (origins : List ℕ) :
    Always Bystander (emitTranscriptDelta site text origins) :=
  Always.get.bind fun _ => Always.emit rfl

theorem Always.clearFrameDedupe : Always Bystander clearFrameDedupe :=
  Always.modify bystander_forget

theorem Always.takeResponseTelemetry : Always Bystander takeResponseTelemetry :=
  Always.get.bind fun _ => (Always.onObserver (by intro _; rfl)).bind fun _ => .pure _

theorem Always.observerFinish (status : ResponseStatus) (cause : Option ℕ) :
    Always Bystander (RealtimeObserver.finishResponse status cause) := by
  refine Always.get.bind fun s => .ite (Always.onObserver (by intro _; rfl)) ?_
  refine Always.bind ?_ fun _ => Always.takeResponseTelemetry.bind fun _ =>
    (Always.finishResponse ..).bind fun _ => (Always.onObserver (by intro _; rfl)).bind
      fun _ => Always.clearFrameDedupe
  exact Always.get.bind fun s => .ite ((Always.appendAssistantTranscript ..).bind
    fun _ => Always.emitTranscriptDelta ..) (.pure ())

theorem Always.emitUserItemIfNeeded (item : ItemId) :
    Always Bystander (emitUserItemIfNeeded item) :=
  (Always.askConversation _).bind fun _ =>
    .ite (Always.get.bind fun _ => Always.emit rfl) (.pure ())

theorem Always.emitUserTranscriptIfReady : Always Bystander emitUserTranscriptIfReady := by
  refine (Always.askConversation _).bind fun ready => ?_
  cases ready with
  | none => exact .pure ()
  | some turn =>
    exact (Always.emitUserItemIfNeeded turn.1).bind fun _ => (Always.emit rfl).bind fun _ =>
      Always.onConversation _

theorem Always.ttsText (text : Text) (origin : Option ℕ) :
    Always Bystander (ttsText text origin) := by
  refine .ite (.pure ()) ((Always.announceResponse _).bind fun _ => Always.get.bind fun _ => ?_)
  refine .ite (Always.onObserver (by intro _; rfl)) ?_
  exact (Always.appendAssistantTranscript ..).bind fun _ =>
    (Always.onObserver (by intro _; rfl)).bind fun _ => Always.emitTranscriptDelta ..

theorem Always.llmText (text : Text) (origin : Option ℕ) :
    Always Bystander (llmText text origin) :=
  .ite (.pure ()) ((Always.announceResponse _).bind fun _ =>
    Always.modify fun _ => .of_entries [] rfl (by simp) (by simp))

theorem Always.pipelineError (message : String) (fatal : Bool) :
    Always Bystander (pipelineError message fatal) := by
  refine (Always.emit rfl).bind fun _ => .ite ?_ (Always.onConversation _)
  exact Always.get.bind fun _ => .ite ((Always.announceResponse _).bind
    fun _ => Always.observerFinish ..) (Always.observerFinish ..)

theorem Always.rememberMetricFrame (id : ℕ) : Always Bystander (rememberMetricFrame id) :=
  Always.get.bind fun _ => .ite (.pure _)
    ((Always.onObserver (by intro _; rfl)).bind fun _ => .pure _)

theorem Always.serializeOutputAudio (frame : OutputAudio) :
    Always Bystander (serializeOutputAudio frame) := by
  refine .ite (.pure ()) ((Always.pause _).bind fun i => Always.get.bind fun s => ?_)
  refine .ite (.pure ()) ((Always.announceResponse _).bind fun begun => ?_)
  exact Always.get.bind fun _ => Always.emit rfl

theorem Always.emitCancelledResponse : Always Bystander emitCancelledResponse := by
  have rest : ∀ text origins, Always Bystander (do
      let s ← get
      if text ≠ [] ∧ s.conv.assistantTranscript = [] then
        RealtimeLifecycle.appendAssistantTranscript text origins
      else pure ()
      let telemetry ← RealtimeObserver.takeResponseTelemetry
      let _ ← RealtimeLifecycle.finishResponse .cancelled (some telemetry) none) := by
    intro text origins
    have finish : Always Bystander (do
        let telemetry ← RealtimeObserver.takeResponseTelemetry
        let _ ← RealtimeLifecycle.finishResponse .cancelled (some telemetry) none) :=
      Always.takeResponseTelemetry.bind fun _ => (Always.finishResponse ..).bind fun _ => .pure ()
    exact Always.get.bind fun s =>
      .ite ((Always.appendAssistantTranscript ..).bind fun _ => finish) finish
  refine Always.bind ?_ fun drained => rest drained.1 drained.2
  exact Always.get.bind fun _ => (Always.onObserver (by intro _; rfl)).bind
    fun _ => Always.clearFrameDedupe.bind fun _ => .pure _

theorem Always.emitError (eventId : Option Text) (message code : String) (param : Option String) :
    Always Bystander (emitError eventId message code param) :=
  (Always.emit rfl).bind fun _ => .pure none

theorem Always.deserializeItemCreate (eventId : Option Text) (item : Option ClientItem) :
    Always Bystander (deserializeItemCreate eventId item) := by
  refine Always.get.bind fun s => ?_
  cases item with
  | none => exact Always.emitError ..
  | some item =>
    refine .ite (Always.emitError ..) (.ite (Always.emitError ..) ?_)
    cases item.text with
    | none => exact Always.emitError ..
    | some text =>
      refine .ite (Always.emitError ..) (Always.bind ?_ fun _ =>
        (Always.emit rfl).bind fun _ => .pure _)
      cases item.id with
      | none => exact Always.askConversation _
      | some name => exact .pure _

theorem Always.deserializeTruncate (eventId : Option Text) (item : Option ItemId)
    (audioEndMs : Option ℕ) : Always Bystander (deserializeTruncate eventId item audioEndMs) := by
  refine Always.get.bind fun s => ?_
  cases item with
  | none => exact Always.emitError ..
  | some item =>
    cases audioEndMs with
    | none => exact Always.emitError ..
    | some ms =>
      exact .ite (Always.emitError ..) (.ite (.pure none)
        (Always.emitCancelledResponse.bind fun _ => .pure _))

theorem Always.deserialize (m : ClientMessage) : Always Bystander (deserialize m) := by
  obtain ⟨eventId, event⟩ := m
  cases event with
  | responseCreate override =>
    refine Always.get.bind fun s => .ite (Always.emitError ..) (.ite (Always.emitError ..) ?_)
    exact (Always.askConversation _).bind fun _ =>
      .ite ((Always.announceResponse _).bind fun _ => .pure _) (Always.emitError ..)
  | responseCancel response =>
    exact Always.get.bind fun s => .ite (.pure none) (.ite (Always.emitError ..)
      (Always.emitCancelledResponse.bind fun _ => .pure _))
  | itemTruncate item audioEndMs => exact Always.deserializeTruncate eventId item audioEndMs
  | itemCreate item => exact Always.deserializeItemCreate eventId item
  | audioAppend bytes rate =>
    exact (Always.pause _).bind fun _ => .ite (Always.emitError ..) (.ite (.pure none)
      ((Always.bytes (· + bytes)).bind fun _ => (Always.onConversation _).bind fun _ => .pure _))
  | audioCommit =>
    exact Always.get.bind fun _ => .ite (Always.emitError ..)
      ((Always.bytes fun _ => 0).bind fun _ => .pure none)
  | audioClear =>
    exact (Always.bytes fun _ => 0).bind fun _ => (Always.emit rfl).bind fun _ => .pure none
  | sessionUpdate voice => exact (Always.emit rfl).bind fun _ => .pure _
  | refused message code param => exact Always.emitError ..

theorem Always.receive (m : ClientMessage) : Always Bystander (receive m) := by
  refine (Always.deserialize m).bind fun frame => ?_
  cases frame with
  | none => exact .pure ()
  | some frame => exact Always.note rfl

end Programs

section Condition

/-- A crossing that reaches `_remember_frame`. -/
def counted (d : FramePushed) : Bool :=
  match d.frame with
  | .error .. | .interruption => true
  | frame => !(decide (frame = .ttsStopped) && !d.fromOutputTransport) && d.downstream &&
      observed frame

/-- The tool calls a frame speaks of. -/
def callsOf : Frame → List ToolCall
  | .functionCallsStarted calls => calls
  | .functionCallInProgress call | .functionCallResult call _ => [call]
  | _ => []

/-- An id stands for one frame, whose crossings fall in the observer's window. -/
def Sighted (frames : ℕ → Frame) (s : Shared) (d : FramePushed) : Prop :=
  d.frame = frames d.id ∧ (d.id ∈ handledFrames s.log →
    d.id ∈ lastOf s.obs.maxFrames (handledFrames s.log))

/-- A frame that was handled has not been forgotten since, or it would only end a
response and none is in progress. -/
def StillKnown (s : Shared) (d : FramePushed) : Prop :=
  counted d = true → d.id ∈ handledFrames s.log → d.id ∈ recentFrames s.log ∨
    (endsResponse d.frame = true ∧ s.conv.responseStatus ≠ some .inProgress)

/-- A new frame speaks only of calls with an id whose result has not been told. -/
def CallsOpen (s : Shared) (d : FramePushed) : Prop :=
  counted d = true → d.id ∉ s.obs.processedFrames → ∀ call ∈ callsOf d.frame,
    call.toolCallId ≠ [] ∧ call.toolCallId ∉ completedCalls (wire s.log)

/-- A condition on the crossings handed to the observer. -/
def atCrossings (ok : Shared → FramePushed → Prop) (v : RealtimeView) (t : Task) : Reply → Prop
  | .push d => t = .observer → v.site t = .ready → ok v.shared d
  | _ => True

instance (frames : ℕ → Frame) (s : Shared) (d : FramePushed) : Decidable (Sighted frames s d) :=
  inferInstanceAs (Decidable (_ ∧ (_ → _)))

instance (s : Shared) (d : FramePushed) : Decidable (StillKnown s d) :=
  inferInstanceAs (Decidable (_ → _ → _ ∨ _))

instance (s : Shared) (d : FramePushed) : Decidable (CallsOpen s d) :=
  inferInstanceAs (Decidable (_ → _ → ∀ call ∈ callsOf d.frame, _))

instance decidableAtCrossings (ok : Shared → FramePushed → Prop) [∀ s d, Decidable (ok s d)]
    (v : RealtimeView) (t : Task) : ∀ i, Decidable (atCrossings ok v t i)
  | .push d => inferInstanceAs (Decidable (t = .observer → v.site t = .ready → ok v.shared d))
  | .go | .failed | .play _ | .receive _ => instDecidableTrue

/-- What the claim assumes together with what the code needs besides. -/
def inTime (frames : ℕ → Frame) (s : Shared) (d : FramePushed) : Prop :=
  Sighted frames s d ∧ StillKnown s d ∧ CallsOpen s d

instance (frames : ℕ → Frame) (s : Shared) (d : FramePushed) : Decidable (inTime frames s d) :=
  inferInstanceAs (Decidable (_ ∧ _ ∧ _))

end Condition

/-- What every interleaving keeps. -/
structure DedupeInv (frames : ℕ → Frame) (s : Shared) : Prop where
  remembers : Remembers s
  once : HandledOnce frames s.log
  known : ∀ c ∈ startedCalls (wire s.log),
    c ∈ s.obs.emittedFunctionCalls ∨ c ∈ completedCalls (wire s.log)

variable {frames : ℕ → Frame}

theorem DedupeInv.bystander {s s' : Shared} (h : DedupeInv frames s) (hb : Bystander s s') :
    DedupeInv frames s' := by
  refine ⟨hb.remembers h.remembers, ⟨?_, ?_, ?_⟩, ?_⟩
  · rw [hb.effective]
    exact h.once.frames
  · rw [hb.calls.1]
    exact h.once.started
  · rw [hb.calls.2]
    exact h.once.completed
  · rw [hb.calls.1, hb.calls.2, hb.known]
    exact h.known

/-- The observer relies on the others to handle no frame and speak of no call. -/
def dedupeContract (frames : ℕ → Frame) : Contract Task Site Shared Reply where
  inv v := DedupeInv frames v.shared
  rely t v v' := t = .observer → Bystander v.shared v'.shared
  allowed := atCrossings (inTime frames)

section Observer
variable {α : Type} {v : RealtimeView} {s : Shared}

theorem stops_observer {l : Site} (h : DedupeInv frames s) :
    (dedupeContract frames).Stops .observer l v s :=
  ⟨h, fun _ hu hobs => absurd hobs hu⟩

/-- A bystander of the observer may do as it likes. -/
theorem wp_always {Q : α → RealtimeView → Shared → Prop} {E : Empty → RealtimeView → Shared → Prop}
    {f : Prog α} (hf : Always Bystander f) (h : DedupeInv frames s)
    (hQ : ∀ a v' s', DedupeInv frames s' → Q a v' s') :
    Wp (dedupeContract frames) .observer Q E f v s := by
  refine wp_mono (fun a v' s' hs' => hQ a v' s' hs') (fun e => e.elim)
    (wp_of_within (J := fun _ s => DedupeInv frames s) (fun _ _ _ hs => stops_observer hs)
      (fun _ _ _ hs hb => hs.bystander hb) (fun _ hi => hi) (hf.within s) h)

variable {Q : Unit → RealtimeView → Shared → Prop} {E : Empty → RealtimeView → Shared → Prop}

/-- An event about a tool call: while it is sent, nobody else speaks of calls. -/
theorem wp_tell {event : ServerEvent} (h : DedupeInv frames (s.emits event []))
    (hQ : ∀ v', DedupeInv frames v'.shared → Bystander (s.emits event []) v'.shared →
      Q () v' v'.shared) :
    Wp (dedupeContract frames) .observer Q E (emit .emitting event []) v s :=
  ⟨stops_observer h, fun v' _ hrely hi _ _ => hQ v' hi (hrely rfl)⟩

theorem Remembers.emits (h : Remembers s) (event : ServerEvent) (origins : List ℕ) :
    Remembers (s.emits event origins) := by
  refine ⟨?_, h.processed, h.nodup⟩
  simpa [Shared.emits, Shared.record, recentFrames, retain] using h.history

theorem effective_emits (event : ServerEvent) (origins : List ℕ) :
    effective frames (s.emits event origins).log = effective frames s.log := by
  simp [Shared.emits, Shared.record, effective, effectiveOf]

/-- A call is announced when neither its announcement nor its result has been told. -/
theorem DedupeInv.started {call name arguments : Text} (h : DedupeInv frames s)
    (hnew : call ∉ s.obs.emittedFunctionCalls) (hopen : call ∉ completedCalls (wire s.log)) :
    DedupeInv frames (Shared.emits { s with obs := { s.obs with
      emittedFunctionCalls := insert call s.obs.emittedFunctionCalls } }
      (.nvidiaToolStarted call name arguments) []) := by
  have hs : startedCalls (wire s.log ++ [.nvidiaToolStarted call name arguments]) =
      startedCalls (wire s.log) ++ [call] := by simp [startedCalls]
  have hc : completedCalls (wire s.log ++ [.nvidiaToolStarted call name arguments]) =
      completedCalls (wire s.log) := by simp [completedCalls]
  have hfirst : call ∉ startedCalls (wire s.log) := by
    intro hmem
    rcases h.known call hmem with hk | hk
    · exact hnew hk
    · exact hopen hk
  have hr : Remembers { s with obs := { s.obs with
      emittedFunctionCalls := insert call s.obs.emittedFunctionCalls } } :=
    ⟨h.remembers.history, h.remembers.processed, h.remembers.nodup⟩
  refine ⟨hr.emits _ _, ⟨?_, ?_, ?_⟩, fun c hmem => ?_⟩
  · rw [effective_emits]
    exact h.once.frames
  · rw [wire_emits, hs]
    exact h.once.started.append (List.nodup_singleton call) (by simpa using hfirst)
  · rw [wire_emits, hc]
    exact h.once.completed
  · rw [wire_emits, hs, List.mem_append, List.mem_singleton] at hmem
    rw [wire_emits, hc]
    rcases hmem with hmem | rfl
    · rcases h.known c hmem with hk | hk
      · exact .inl (Finset.mem_insert_of_mem hk)
      · exact .inr hk
    · exact .inl (Finset.mem_insert_self _ _)

theorem wp_emitServerToolStarted {call : ToolCall} (h : DedupeInv frames s)
    (hid : call.toolCallId ≠ []) (hopen : call.toolCallId ∉ completedCalls (wire s.log))
    (hQ : ∀ v' s', DedupeInv frames s' →
      completedCalls (wire s'.log) = completedCalls (wire s.log) → Q () v' s') :
    Wp (dedupeContract frames) .observer Q E (emitServerToolStarted call) v s := by
  simp only [emitServerToolStarted, wp_bind, wp_get]
  by_cases hknown : call.toolCallId ≠ [] ∧ call.toolCallId ∈ s.obs.emittedFunctionCalls
  · rw [if_pos hknown]
    exact hQ v s h rfl
  rw [if_neg hknown, wp_bind, rememberCall, if_neg hid, wp_onObserver]
  have hnew : call.toolCallId ∉ s.obs.emittedFunctionCalls := fun hmem => hknown ⟨hid, hmem⟩
  refine wp_tell (h.started hnew hopen) fun v' hi hb => hQ v' _ hi ?_
  rw [hb.calls.2, wire_emits]
  simp [completedCalls]

theorem wp_emitServerToolsStarted (calls : List ToolCall) {v : RealtimeView} {s : Shared}
    (h : DedupeInv frames s) (hopen : ∀ call ∈ calls,
      call.toolCallId ≠ [] ∧ call.toolCallId ∉ completedCalls (wire s.log))
    (hQ : ∀ v' s', DedupeInv frames s' → Q () v' s') :
    Wp (dedupeContract frames) .observer Q E (emitServerToolsStarted calls) v s := by
  induction calls generalizing v s with
  | nil => exact hQ v s h
  | cons call rest ih =>
    obtain ⟨hid, hfirst⟩ := hopen call List.mem_cons_self
    rw [emitServerToolsStarted, wp_bind]
    refine wp_emitServerToolStarted h hid hfirst fun v' s' h' hsame => ?_
    refine ih h' fun c hc => ?_
    rw [hsame]
    exact hopen c (List.mem_cons_of_mem _ hc)

/-- The result is told once; only then may the call be forgotten. -/
theorem wp_functionCallResult {call : ToolCall} {result : Text} (h : DedupeInv frames s)
    (hopen : call.toolCallId ∉ completedCalls (wire s.log))
    (hQ : ∀ v' s', DedupeInv frames s' → Q () v' s') :
    Wp (dedupeContract frames) .observer Q E (functionCallResult call result) v s := by
  rw [functionCallResult, wp_bind]
  have hs : startedCalls (wire s.log ++ [.nvidiaToolCompleted call.toolCallId call.functionName
      (argumentsText call.arguments) result]) = startedCalls (wire s.log) := by simp [startedCalls]
  have hc : completedCalls (wire s.log ++ [.nvidiaToolCompleted call.toolCallId call.functionName
      (argumentsText call.arguments) result]) = completedCalls (wire s.log) ++ [call.toolCallId] :=
    by simp [completedCalls]
  refine wp_tell ⟨h.remembers.emits _ _, ⟨?_, ?_, ?_⟩, fun c hmem => ?_⟩ fun v' hi hb => ?_
  · rw [effective_emits]
    exact h.once.frames
  · rw [wire_emits, hs]
    exact h.once.started
  · rw [wire_emits, hc]
    exact h.once.completed.append (List.nodup_singleton _) (by simpa using hopen)
  · rw [wire_emits, hs] at hmem
    rw [wire_emits, hc]
    rcases h.known c hmem with hk | hk
    · exact .inl hk
    · exact .inr (List.mem_append_left _ hk)
  · have htold : call.toolCallId ∈ completedCalls (wire v'.shared.log) := by
      rw [hb.calls.2, wire_emits, hc]
      simp
    unfold forgetCall
    by_cases hid : call.toolCallId = []
    · rw [if_pos hid]
      exact hQ v' _ hi
    rw [if_neg hid]
    refine hQ v' _ ⟨⟨hi.remembers.history, hi.remembers.processed, hi.remembers.nodup⟩, hi.once,
      fun c hmem => ?_⟩
    by_cases hsame : c = call.toolCallId
    · exact .inr (hsame ▸ htold)
    · rcases hi.known c hmem with hk | hk
      · exact .inl (Finset.mem_erase.mpr ⟨hsame, hk⟩)
      · exact .inr hk

/-- A new id is one that was never handled, or that is handled to no effect. -/
theorem wp_rememberFrame {Q : Bool → RealtimeView → Shared → Prop} {d : FramePushed}
    (h : DedupeInv frames s) (hd : inTime frames s d) (hcounted : counted d = true)
    (hold : Q false v s)
    (hnew : ∀ s', d.id ∉ s.obs.processedFrames → DedupeInv frames s' →
      wire s'.log = wire s.log → Q true v s') :
    Wp (dedupeContract frames) .observer Q E (rememberFrame d.id) v s := by
  simp only [rememberFrame, wp_bind, wp_get]
  by_cases hmem : d.id ∈ s.obs.processedFrames
  · rw [if_pos hmem]
    exact hold
  rw [if_neg hmem]
  simp only [wp_bind, wp_onObserver, wp_note, wp_pure]
  obtain ⟨⟨hframe, hwindow⟩, hstill, -⟩ := hd
  have hr := h.remembers
  have hfirst : d.id ∈ handledFrames s.log →
      endsResponse d.frame = true ∧ s.conv.responseStatus ≠ some .inProgress := by
    intro hhandled
    rcases hstill hcounted hhandled with hrecent | hidle
    · have hlast := mem_lastOf_suffix recent_suffix (hwindow hhandled) hrecent
      rw [← hr.history] at hlast
      exact absurd (by rw [hr.processed]; exact List.mem_toFinset.mpr hlast) hmem
    · exact hidle
  have hlen : s.obs.frameHistory.length ≤ s.obs.maxFrames := by
    rw [hr.history, lastOf, List.length_drop]
    omega
  obtain ⟨hproc, hnodup⟩ := rememberIn_processed hr.processed hr.nodup hmem hlen
  have hrecent : ∀ busy, recentFrames (s.log ++ [.handled d.id busy]) =
      recentFrames s.log ++ [d.id] := fun busy => by simp [recentFrames, retain]
  have hw : ∀ busy, wire (s.log ++ [.handled d.id busy]) = wire s.log := fun busy => by simp [wire]
  refine hnew _ hmem ⟨⟨?_, hproc, hnodup⟩, ⟨?_, ?_, ?_⟩, ?_⟩ (hw _)
  · change pushBounded s.obs.maxFrames s.obs.frameHistory d.id = _
    rw [hr.history, pushBounded_lastOf]
    exact congrArg _ (hrecent _).symm
  · change (effective frames (s.log ++ [.handled d.id _])).Nodup
    rw [effective, List.filterMap_append]
    by_cases heff : (endsResponse (frames d.id) &&
        !decide (s.conv.responseStatus = some .inProgress)) = true
    · have hnone : effectiveOf frames (.handled d.id
          (decide (s.conv.responseStatus = some .inProgress))) = none := by
        simp only [effectiveOf, heff, if_true]
      rw [List.filterMap_cons_none hnone, List.filterMap_nil, List.append_nil]
      exact h.once.frames
    · have hsome : effectiveOf frames (.handled d.id
          (decide (s.conv.responseStatus = some .inProgress))) = some d.id := by
        simp only [effectiveOf, heff]
        rfl
      have hnot : d.id ∉ effective frames s.log := by
        intro hin
        obtain ⟨hends, hidle⟩ := hfirst (mem_handled_of_effective hin)
        rw [hframe] at hends
        exact heff (by simp [hends, hidle])
      rw [List.filterMap_cons_some hsome, List.filterMap_nil]
      exact h.once.frames.append (List.nodup_singleton _) (by simpa using hnot)
  · exact (hw _).symm ▸ h.once.started
  · exact (hw _).symm ▸ h.once.completed
  · exact (hw _).symm ▸ h.known

theorem wp_handleFrame {d : FramePushed} (h : DedupeInv frames s)
    (hopen : ∀ call ∈ callsOf d.frame,
      call.toolCallId ≠ [] ∧ call.toolCallId ∉ completedCalls (wire s.log))
    (hQ : ∀ v' s', DedupeInv frames s' → Q () v' s') :
    Wp (dedupeContract frames) .observer Q E (handleFrame d) v s := by
  have done : ∀ a v' s', DedupeInv frames s' → Q a v' s' := fun _ => hQ
  unfold handleFrame
  cases hframe : d.frame with
  | userStartedSpeaking =>
    exact wp_always ((Always.askConversation _).bind fun _ => Always.emit rfl) h done
  | userStoppedSpeaking =>
    exact wp_always ((Always.askConversation _).bind fun turn => (Always.emit rfl).bind fun _ =>
      (Always.emit rfl).bind fun _ => (Always.emitUserItemIfNeeded turn.1).bind fun _ =>
        Always.emitUserTranscriptIfReady) h done
  | interimTranscription text =>
    exact wp_always (Always.get.bind fun _ => .ite (.pure ())
      ((Always.askConversation _).bind fun _ => Always.emit rfl)) h done
  | transcription text =>
    exact wp_always
      ((Always.onConversation _).bind fun _ => Always.emitUserTranscriptIfReady) h done
  | botStartedSpeaking =>
    exact wp_always ((Always.announceResponse []).bind fun _ =>
      .ite (Always.onObserver (by intro _; rfl)) (.pure ())) h done
  | ttsText text => exact wp_always (Always.ttsText text d.origin) h done
  | llmText text => exact wp_always (Always.llmText text d.origin) h done
  | llmFullResponseEnd skipTts =>
    exact wp_always (.ite (Always.observerFinish ..) (.pure ())) h done
  | functionCallsStarted calls =>
    rw [hframe] at hopen
    exact wp_emitServerToolsStarted calls h hopen hQ
  | functionCallInProgress call =>
    obtain ⟨hid, hfirst⟩ := hopen call (by simp [hframe, callsOf])
    exact wp_emitServerToolStarted h hid hfirst fun v' s' h' _ => hQ v' s' h'
  | functionCallResult call result =>
    exact wp_functionCallResult h (hopen call (by simp [hframe, callsOf])).2 hQ
  | ttsStopped => exact wp_always (Always.observerFinish ..) h done
  | error message fatal => exact hQ v s h
  | interruption => exact hQ v s h
  | metrics data => exact hQ v s h
  | other => exact hQ v s h

theorem wp_onPushFrame {d : FramePushed} (h : DedupeInv frames s) (hd : inTime frames s d)
    (hQ : ∀ v' s', DedupeInv frames s' → Q () v' s') :
    Wp (dedupeContract frames) .observer Q E (onPushFrame d) v s := by
  have done : ∀ a v' s', DedupeInv frames s' → Q a v' s' := fun _ => hQ
  unfold onPushFrame
  split
  · rename_i message fatal hframe
    rw [wp_bind]
    refine wp_rememberFrame h hd (by simp [counted, hframe]) (hQ v s h) fun s₁ _ h₁ _ => ?_
    exact wp_always (Always.pipelineError message fatal) h₁ done
  · rename_i hframe
    rw [wp_bind]
    refine wp_rememberFrame h hd (by simp [counted, hframe]) (hQ v s h) fun s₁ _ h₁ _ => ?_
    exact wp_always (Always.observerFinish ..) h₁ done
  · rename_i hne hni
    split_ifs with hfirst hup
    · exact hQ v s h
    · exact hQ v s h
    have hdown : d.downstream = true := by simpa using hup
    split
    · rename_i text hframe
      exact wp_always ((Always.rememberMetricFrame d.id).bind fun _ =>
        .ite (Always.onObserver (by intro _; rfl)) (.pure ())) h done
    · split_ifs with hobs
      · rw [wp_bind]
        have hcounted : counted d = true := by
          unfold counted
          split
          · rfl
          · rfl
          · simp only [hdown, hobs, Bool.and_true, Bool.not_eq_true', Bool.and_eq_false_imp,
              decide_eq_true_eq]
            intro hstop
            by_contra hnot
            exact hfirst ⟨hstop, by simpa using hnot⟩
        refine wp_rememberFrame h hd hcounted (hQ v s h) fun s₁ hnew h₁ hw => ?_
        refine wp_handleFrame h₁ (fun call hcall => ?_) hQ
        rw [hw]
        exact hd.2.2 hcounted hnew call hcall
      · exact hQ v s h

end Observer

theorem dedupe_keeps (frames : ℕ → Frame) : Keeps (dedupeContract frames) realtime closedWorld where
  refl _ _ _ := .refl _
  trans _ _ _ _ h h' ht := (h ht).trans (h' ht)
  outside _ _ _ h := h.elim
  body t b i v hi hl ha := by
    -- a task other than the observer handles no frame in the whole of its turn
    have others : ∀ {f : Prog Unit}, t ≠ .observer → Always Bystander f →
        Wp (dedupeContract frames) t
          (fun b v s => Ends (dedupeContract frames) realtime t b v s)
          (fun e v s => Ends (dedupeContract frames) realtime t (realtime.crash t e) v s)
          f v v.shared := by
      intro f ht hf
      refine wp_mono (fun b v' s' hs' => ?_) (fun e => e.elim)
        (wp_of_within (J := fun v s => DedupeInv frames s ∧ Bystander v.shared s)
          (fun l v' s' hs' => ?_) (fun _ _ _ hs' hb => ⟨hs'.1.bystander hb, hs'.2.trans hb⟩)
          (fun v' hi' => ⟨hi', .refl _⟩) (hf.within v.shared) ⟨hi, .refl _⟩)
      · exact ⟨hs'.1, fun _ _ _ => hs'.2⟩
      · exact ⟨hs'.1, fun _ _ _ => hs'.2⟩
    change Wp _ _ _ _ (work t i) _ _
    unfold work
    split
    · exact wp_onPushFrame hi (ha rfl hl) fun v' s' h' => stops_observer h'
    · exact others (by decide) (Always.serializeOutputAudio _)
    · exact others (by decide) (Always.receive _)
    · exact ⟨hi, fun _ _ _ => .refl _⟩

theorem dedupeInv_fresh (frames : ℕ → Frame) (maxFrames : ℕ) (textOpen : Bool) :
    DedupeInv frames (freshSession maxFrames textOpen).view.shared where
  remembers := ⟨by simp [recentFrames, lastOf], by simp, by simp⟩
  once := ⟨by simp [effective], by simp [startedCalls], by simp [completedCalls]⟩
  known := by simp [startedCalls]

/-- In every run in which no frame crosses an edge after it was handled and forgotten, no
frame takes effect twice and no tool call is announced or answered twice. -/
theorem handled_once {frames : ℕ → Frame} {maxFrames : ℕ} {textOpen : Bool}
    {p : Pool Empty Shared Site Reply Task Unit}
    (h : realtime.Reach (atCrossings (inTime frames)) closedWorld
      (freshSession maxFrames textOpen) p) : HandledOnce frames p.shared.log :=
  ((dedupe_keeps frames).invariant (dedupeInv_fresh frames maxFrames textOpen) h).once

/-- Frame 1 starts the bot and frame 2 ends its response. -/
def spokenFrames : ℕ → Frame
  | 1 => .botStartedSpeaking
  | _ => .ttsStopped

/-- Both frames cross two edges. -/
def crossedTwice : List (System.Act Shared Reply Task) :=
  [.turn .observer (.push { id := 1, frame := .botStartedSpeaking }),
   .turn .observer .go, .turn .observer .go, .turn .observer .go, .turn .observer .go,
   .turn .observer (.push { id := 1, frame := .botStartedSpeaking }),
   .turn .observer (.push { id := 2, frame := .ttsStopped, fromOutputTransport := true }),
   .turn .observer .go, .turn .observer .go, .turn .observer .go, .turn .observer .go,
   .turn .observer .go,
   .turn .observer (.push { id := 2, frame := .ttsStopped, fromOutputTransport := true })]

theorem handled_once_crossed :
    effective spokenFrames (realtime.play (freshSession 4096 true) crossedTwice).shared.log =
      [1, 2] ∧
    HandledOnce spokenFrames (realtime.play (freshSession 4096 true) crossedTwice).shared.log :=
  ⟨by decide +kernel, handled_once (System.reach_play (by decide +kernel))⟩

/-- Frame 1 starts the bot and frame 2 is a fatal pipeline error. -/
def failingFrames : ℕ → Frame
  | 1 => .botStartedSpeaking
  | _ => .error "lost" true

/-- The error fails the response, which forgets the error, and crosses a second edge. -/
def forgottenError : List (System.Act Shared Reply Task) :=
  [.turn .observer (.push { id := 1, frame := .botStartedSpeaking }),
   .turn .observer .go, .turn .observer .go, .turn .observer .go, .turn .observer .go,
   .turn .observer (.push { id := 2, frame := .error "lost" true }),
   .turn .observer .go, .turn .observer .go, .turn .observer .go, .turn .observer .go,
   .turn .observer .go, .turn .observer .go,
   .turn .observer (.push { id := 2, frame := .error "lost" true })]

/-- The frame is seen as the claim has it, yet its error event goes out twice. -/
theorem forgotten_error_repeats : ∃ p,
    realtime.Reach (atCrossings (Sighted failingFrames)) closedWorld (freshSession 4096 true) p ∧
      ¬ HandledOnce failingFrames p.shared.log ∧
      (wire p.shared.log).count (.error "lost" "pipeline_error" none none) = 2 := by
  refine ⟨realtime.play (freshSession 4096 true) forgottenError,
    System.reach_play (by decide +kernel), fun h => ?_, by decide +kernel⟩
  have htwice : effective failingFrames
      (realtime.play (freshSession 4096 true) forgottenError).shared.log = [1, 2, 2] := by
    decide +kernel
  have hnodup := h.frames
  rw [htwice] at hnodup
  exact absurd hnodup (by decide)

end VoiceAgent.FrameDedupe
