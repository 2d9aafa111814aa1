import VoiceAgent.History
import VoiceAgent.Triples
import VoiceAgent.RealtimeSerializer

/-!
The welcome gate of a Realtime session. The client may run the model or put text before it once
the assistant has completed a response, or from the start where nothing is said as a welcome. The
gate is asked before awaits and the frame is returned after them; it never closes in between.
-/
namespace VoiceAgent.WelcomeGate

open RealtimeEvents Conversation Coroutine Interleaving RealtimeLifecycle RealtimeObserver
  RealtimeSerializer History

section Log

def isCompleted : Entry → Bool
  | .completed .. => true
  | _ => false

/-- The frames that a client's own request brings to the model. -/
def talks : Entry → Bool
  | .returned .llmRun | .returned (.llmMessagesAppend _) => true
  | _ => false

def isRun : Entry → Bool
  | .returned .llmRun => true
  | _ => false

def isCreated : Entry → Bool
  | .emitted (.responseCreated _) _ => true
  | _ => false

/-- The gate is open from the start or a response has been completed. -/
def Opened (textOpen : Bool) (log : List Entry) : Prop :=
  textOpen = true ∨ log.any isCompleted = true

def runs (log : List Entry) : ℕ := log.countP isRun

def created (log : List Entry) : ℕ := log.countP isCreated

variable {textOpen : Bool} {log es : List Entry} {e : Entry}

theorem talks_of_isRun (h : talks e = false) : isRun e = false := by
  cases e with
  | returned frame => cases frame <;> first | rfl | cases h
  | _ => rfl

theorem runs_append (h : ∀ e ∈ es, talks e = false) : runs (log ++ es) = runs log := by
  have hnone : es.countP isRun = 0 := by
    rw [List.countP_eq_zero]
    intro e he
    rw [talks_of_isRun (h e he)]
    exact Bool.false_ne_true
  rw [runs, runs, List.countP_append, hnone, Nat.add_zero]

theorem created_le (log es : List Entry) : created log ≤ created (log ++ es) := by
  rw [created, created, List.countP_append]
  exact Nat.le_add_right ..

theorem Opened.append (h : Opened textOpen log) (es : List Entry) :
    Opened textOpen (log ++ es) := by
  rcases h with h | h
  · exact .inl h
  · exact .inr (by rw [List.any_append, h, Bool.true_or])

theorem opened_append (h : ∀ e ∈ es, isCompleted e = false) :
    Opened textOpen (log ++ es) ↔ Opened textOpen log := by
  have hnone : es.any isCompleted = false := by
    rw [List.any_eq_false]
    intro e he
    rw [h e he]
    exact Bool.false_ne_true
  rw [Opened, Opened, List.any_append, hnone, Bool.or_false]

end Log

section Gate
variable (textOpen : Bool)

/-- Nothing has passed before the gate was open, the flag tells whether it is, and every run has
had a response announced for it. -/
structure Gate (s : Shared) : Prop where
  flag : s.conv.assistantHasResponded = true ↔ Opened textOpen s.log
  passed : Along (fun before e => talks e = true → Opened textOpen before) s.log
  announced : runs s.log ≤ created s.log

/-- What a task may rely on; the client's is the only one that returns runs. -/
structure Later (t : Task) (s s' : Shared) : Prop where
  flag : s.conv.assistantHasResponded = true → s'.conv.assistantHasResponded = true
  created : created s.log ≤ created s'.log
  runs : t = .client → runs s'.log = runs s.log

def gateContract : Contract Task Site Shared Reply where
  inv v := Gate textOpen v.shared
  rely t v v' := Later t v.shared v'.shared
  allowed := anyReply

variable {textOpen} {t : Task} {s s' s'' : Shared}

theorem Later.refl (t : Task) (s : Shared) : Later t s s := ⟨id, Nat.le_refl _, fun _ => rfl⟩

theorem Later.trans (h : Later t s s') (h' : Later t s' s'') : Later t s s'' :=
  ⟨fun hs => h'.flag (h.flag hs), h.created.trans h'.created,
    fun ht => (h'.runs ht).trans (h.runs ht)⟩

/-- A write that leaves the flag alone and logs nothing that the gate is about. -/
structure Calm (s s' : Shared) : Prop where
  flag : s'.conv.assistantHasResponded = s.conv.assistantHasResponded
  log : ∃ es, s'.log = s.log ++ es ∧ ∀ e ∈ es, talks e = false ∧ isCompleted e = false

theorem Calm.of_log_eq (hflag : s'.conv.assistantHasResponded = s.conv.assistantHasResponded)
    (hlog : s'.log = s.log) : Calm s s' := ⟨hflag, [], by simp [hlog], by simp⟩

theorem Calm.later (h : Calm s s') (t : Task) : Later t s s' := by
  obtain ⟨hflag, es, hlog, hes⟩ := h
  refine ⟨fun hs => hflag.trans hs, ?_, fun _ => ?_⟩
  · rw [hlog]
    exact created_le s.log es
  · rw [hlog]
    exact runs_append fun e he => (hes e he).1

theorem Gate.calm (h : Gate textOpen s) (hc : Calm s s') : Gate textOpen s' := by
  have hlater := hc.later .client
  obtain ⟨hflag, es, hlog, hes⟩ := hc
  refine ⟨?_, ?_, ?_⟩
  · rw [hflag, hlog, opened_append fun e he => (hes e he).2]
    exact h.flag
  · rw [hlog]
    refine h.passed.append fun pre e he htalks => ?_
    rw [(hes e he).1] at htalks
    cases htalks
  · rw [hlater.runs rfl]
    exact h.announced.trans hlater.created

/-- The completion of a response: the flag first, then the entry of the log. -/
def completes (s : Shared) (snap : ResponseSnapshot) (status : ResponseStatus)
    (cause : Option ℕ) : Shared :=
  { s with
    conv := (s.conv.completeResponse status).2
    log := s.log ++ [.completed snap cause] }

theorem flag_completeResponse {c : ConversationState} {status : ResponseStatus}
    {snap : ResponseSnapshot} (h : (c.completeResponse status).1 = some snap) :
    (c.completeResponse status).2.assistantHasResponded = true := by
  unfold ConversationState.completeResponse at h ⊢
  split
  · next hnone => simp [hnone] at h
  · rfl

theorem completes_later {snap : ResponseSnapshot} {status : ResponseStatus} (cause : Option ℕ)
    (h : (s.conv.completeResponse status).1 = some snap) (t : Task) :
    Later t s (completes s snap status cause) where
  flag _ := flag_completeResponse h
  created := created_le ..
  runs _ := runs_append (by simp [talks])

theorem Gate.completes (hs : Gate textOpen s) {snap : ResponseSnapshot} {status : ResponseStatus}
    (cause : Option ℕ) (h : (s.conv.completeResponse status).1 = some snap) :
    Gate textOpen (completes s snap status cause) where
  flag := iff_of_true (flag_completeResponse h)
    (.inr (by simp [WelcomeGate.completes, isCompleted]))
  passed := along_concat.mpr ⟨hs.passed, by simp [talks]⟩
  announced := by
    have hlater := completes_later cause h .client
    rw [hlater.runs rfl]
    exact hs.announced.trans hlater.created

/-- A condition that awaits, calm writes and completions keep. -/
structure Tolerant (textOpen : Bool) (t : Task) (J : RealtimeView → Shared → Prop) : Prop where
  stable : Stable (gateContract textOpen) t J
  calm : ∀ v s s', J v s → Calm s s' → J v s'
  completes : ∀ v s snap status cause, J v s → (s.conv.completeResponse status).1 = some snap →
    J v (completes s snap status cause)

/-- The gate is kept, and the others find what they rely on. -/
def Holds (textOpen : Bool) (t : Task) (v : RealtimeView) (s : Shared) : Prop :=
  Gate textOpen s ∧ ∀ u, u ≠ t → Later u v.shared s

theorem tolerant_holds (t : Task) : Tolerant textOpen t (Holds textOpen t) where
  stable :=
    { stops := fun _ _ _ hs => hs
      resumes := fun _ _ _ v' _ _ hi => ⟨hi, fun u _ => .refl u v'.shared⟩ }
  calm _ _ _ hs hc := ⟨hs.1.calm hc, fun u hu => (hs.2 u hu).trans (hc.later u)⟩
  completes _ _ _ _ cause hs h :=
    ⟨hs.1.completes cause h, fun u hu => (hs.2 u hu).trans (completes_later cause h u)⟩

/-- A condition of the client that lasts may be added. -/
theorem Tolerant.and {J : RealtimeView → Shared → Prop} (hJ : Tolerant textOpen .client J)
    {P : Shared → Prop} (hP : ∀ s s', P s → Later .client s s' → P s') :
    Tolerant textOpen .client fun v s => J v s ∧ P s where
  stable :=
    { stops := fun l v s hs => hJ.stable.stops l v s hs.1
      resumes := fun l v s v' hs hr hi =>
        ⟨hJ.stable.resumes l v s v' hs.1 hr hi, hP s _ hs.2 hr⟩ }
  calm v s s' hs hc := ⟨hJ.calm v s s' hs.1 hc, hP s s' hs.2 (hc.later .client)⟩
  completes v s snap status cause hs h :=
    ⟨hJ.completes v s snap status cause hs.1 h, hP s _ hs.2 (completes_later cause h .client)⟩

end Gate

section CalmPrograms
variable {α : Type}

theorem always_note {e : Entry} (htalks : talks e = false) (hdone : isCompleted e = false) :
    Always Calm (note e) :=
  Always.modify fun _ => ⟨rfl, [e], rfl, by simp [htalks, hdone]⟩

theorem always_emit (site : Site) (event : ServerEvent) (origins : List ℕ) :
    Always Calm (emit site event origins) :=
  (always_note rfl rfl).bind fun _ => (Always.pause site).bind fun _ => .pure ()

theorem always_onConversation {f : ConversationState → ConversationState}
    (h : ∀ c, (f c).assistantHasResponded = c.assistantHasResponded) :
    Always Calm (onConversation f) :=
  Always.modify fun s => .of_log_eq (h s.conv) rfl

theorem always_askConversation {f : ConversationState → α × ConversationState}
    (h : ∀ c, (f c).2.assistantHasResponded = c.assistantHasResponded) :
    Always Calm (askConversation f) :=
  Always.modifyGet fun s => .of_log_eq (h s.conv) rfl

theorem always_onObserver (f : Observer → Observer) : Always Calm (onObserver f) :=
  Always.modify fun _ => .of_log_eq rfl rfl

theorem flag_beginUserItem (c : ConversationState) :
    c.beginUserItem.2.assistantHasResponded = c.assistantHasResponded := by
  unfold ConversationState.beginUserItem
  split <;> rfl

theorem flag_beginUserTurn (c : ConversationState) :
    c.beginUserTurn.2.assistantHasResponded = c.assistantHasResponded := by
  unfold ConversationState.beginUserTurn
  cases c.userTurnStopped with
  | false =>
    dsimp only
    split <;> exact flag_beginUserItem c
  | true =>
    dsimp only
    split <;> exact flag_beginUserItem c.clearUserItem

theorem flag_readyUserTranscript (c : ConversationState) :
    c.readyUserTranscript.2.assistantHasResponded = c.assistantHasResponded := by
  unfold ConversationState.readyUserTranscript
  split
  · exact flag_beginUserItem c
  · rfl

theorem flag_beginResponse (c : ConversationState) :
    c.beginResponse.2.assistantHasResponded = c.assistantHasResponded := by
  unfold ConversationState.beginResponse
  split <;> rfl

theorem flag_appendAssistantTranscript (c : ConversationState) (text : Text) :
    (c.appendAssistantTranscript text).assistantHasResponded = c.assistantHasResponded := by
  unfold ConversationState.appendAssistantTranscript
  split
  · rfl
  · exact flag_beginResponse c

theorem flag_resetResponseSlot (c : ConversationState) (generation : ℕ) :
    (c.resetResponseSlot generation).assistantHasResponded = c.assistantHasResponded := by
  unfold ConversationState.resetResponseSlot
  split <;> rfl

theorem flag_requestResponse (c : ConversationState) :
    c.requestResponse.2.assistantHasResponded = c.assistantHasResponded := by
  unfold ConversationState.requestResponse
  split <;> rfl

theorem flag_releaseResponseRequest (c : ConversationState) :
    c.releaseResponseRequest.assistantHasResponded = c.assistantHasResponded := by
  unfold ConversationState.releaseResponseRequest
  split <;> rfl

theorem flag_addInputAudio (c : ConversationState) (bytes rate : ℕ) :
    (c.addInputAudio bytes rate).assistantHasResponded = c.assistantHasResponded := by
  unfold ConversationState.addInputAudio
  split <;> rfl

theorem always_bytes (f : ℕ → ℕ) : Always Calm
    (modify fun s => { s with bytesSinceCommit := f s.bytesSinceCommit } : Prog Unit) :=
  Always.modify fun _ => .of_log_eq rfl rfl

/-- The rest of an announcement, when the response has been begun. -/
theorem always_announceParts (response : ResponseId) (origins : List ℕ) :
    Always Calm (do
      announceOutputItem response origins
      announceContentPart response origins) := by
  refine Always.bind ?_ fun _ => ?_
  · exact Always.get.bind fun s => .ite (.pure ())
      ((always_onConversation (by intro _; rfl)).bind fun _ =>
        (always_emit _ _ _).bind fun _ => always_emit _ _ _)
  · exact Always.get.bind fun s => .ite (.pure ())
      ((always_onConversation (by intro _; rfl)).bind fun _ => always_emit _ _ _)

theorem always_announceResponse (origins : List ℕ) : Always Calm (announceResponse origins) := by
  refine (always_askConversation flag_beginResponse).bind fun begun => ?_
  refine Always.bind (.ite (always_emit _ _ _) (.pure ())) fun _ => ?_
  refine Always.bind ?_ fun _ => Always.bind ?_ fun _ => .pure _
  · exact Always.get.bind fun s => .ite (.pure ())
      ((always_onConversation (by intro _; rfl)).bind fun _ =>
        (always_emit _ _ _).bind fun _ => always_emit _ _ _)
  · exact Always.get.bind fun s => .ite (.pure ())
      ((always_onConversation (by intro _; rfl)).bind fun _ => always_emit _ _ _)

theorem always_emitEach (snap : ResponseSnapshot) (rest : List ServerEvent) :
    Always Calm (emitEach snap rest) := by
  induction rest with
  | nil => exact .pure ()
  | cons event rest ih => exact (always_emit _ _ _).bind fun _ => ih

theorem always_resetAfterFinish (snap : ResponseSnapshot) : Always Calm (resetAfterFinish snap) :=
  Always.get.bind fun _ => (always_onConversation (flag_resetResponseSlot · _)).bind
    fun _ => always_note rfl rfl

theorem always_appendAssistantTranscript (text : Text) (origins : List ℕ) :
    Always Calm (appendAssistantTranscript text origins) :=
  .ite (.pure ()) ((always_onConversation (flag_appendAssistantTranscript · _)).bind
    fun _ => Always.get.bind fun _ => always_note rfl rfl)

theorem always_clearFrameDedupe : Always Calm clearFrameDedupe :=
  Always.modify fun _ => ⟨rfl, [.dedupeCleared], rfl, by simp [talks, isCompleted]⟩

theorem always_takeResponseTelemetry : Always Calm takeResponseTelemetry :=
  Always.get.bind fun _ => (always_onObserver _).bind fun _ => .pure _

theorem always_flushLlmText (cause : Option ℕ) : Always Calm (flushLlmText cause) :=
  Always.get.bind fun _ => .ite ((always_appendAssistantTranscript _ _).bind
    fun _ => Always.get.bind fun _ => always_emit _ _ _) (.pure ())

theorem always_rememberFrame (id : ℕ) : Always Calm (rememberFrame id) :=
  Always.get.bind fun _ => .ite (.pure _) ((always_onObserver _).bind
    fun _ => (always_note rfl rfl).bind fun _ => .pure _)

theorem always_emitUserItemIfNeeded (item : ItemId) : Always Calm (emitUserItemIfNeeded item) :=
  (always_askConversation (by intro _; rfl)).bind fun _ =>
    .ite (Always.get.bind fun _ => always_emit _ _ _) (.pure ())

theorem always_emitUserTranscriptIfReady : Always Calm emitUserTranscriptIfReady := by
  refine (always_askConversation flag_readyUserTranscript).bind fun ready => ?_
  cases ready with
  | none => exact .pure ()
  | some turn =>
    exact (always_emitUserItemIfNeeded _).bind fun _ => (always_emit _ _ _).bind
      fun _ => always_onConversation (by intro _; rfl)

theorem always_tool (call : ToolCall) : Always Calm (emitServerToolStarted call) :=
  Always.get.bind fun _ => .ite (.pure ())
    ((Always.ite (.pure ()) (always_onObserver _)).bind fun _ => always_emit _ _ _)

theorem always_tools (calls : List ToolCall) : Always Calm (emitServerToolsStarted calls) := by
  induction calls with
  | nil => exact .pure ()
  | cons call calls ih => exact (always_tool call).bind fun _ => ih

theorem always_ttsText (text : Text) (origin : Option ℕ) : Always Calm (ttsText text origin) := by
  refine .ite (.pure ()) ((always_announceResponse _).bind fun _ => Always.get.bind fun _ => ?_)
  exact .ite (always_onObserver _) ((always_appendAssistantTranscript _ _).bind fun _ =>
    (always_onObserver _).bind fun _ => Always.get.bind fun _ => always_emit _ _ _)

theorem always_llmText (text : Text) (origin : Option ℕ) : Always Calm (llmText text origin) :=
  .ite (.pure ()) ((always_announceResponse _).bind
    fun _ => Always.modify fun _ => .of_log_eq rfl rfl)

theorem always_serializeOutputAudio (frame : OutputAudio) :
    Always Calm (serializeOutputAudio frame) := by
  refine .ite (.pure ()) ((Always.pause _).bind fun _ => Always.get.bind fun _ => ?_)
  exact .ite (.pure ()) ((always_announceResponse _).bind
    fun _ => Always.get.bind fun _ => always_emit _ _ _)

end CalmPrograms

section Programs
variable {textOpen : Bool} {t : Task} {J : RealtimeView → Shared → Prop} {α : Type}

theorem Tolerant.kept (hJ : Tolerant textOpen t J) {c : Prog α} (hc : Always Calm c) :
    Kept (gateContract textOpen) t J c :=
  .of_always hJ.stable hc hJ.calm

/-- The two writes of a completion, with no await in between. -/
theorem Tolerant.finish (hJ : Tolerant textOpen t J) (status : ResponseStatus)
    (telemetry : Option RealtimeResponseTelemetry) (cause : Option ℕ) :
    Kept (gateContract textOpen) t J
      (RealtimeLifecycle.finishResponse status telemetry cause) := by
  have hrest : ∀ snap, Kept (gateContract textOpen) t J (do
      emitFinishFromSnapshot snap telemetry
      resetAfterFinish snap
      pure true) := fun snap =>
    hJ.kept ((always_emitEach snap _).bind fun _ =>
      (always_resetAfterFinish snap).bind fun _ => .pure true)
  refine ⟨fun v s hs => ?_⟩
  cases hsnap : (s.conv.completeResponse status).1 with
  | none =>
    have hsame : (s.conv.completeResponse status).2 = s.conv := by
      unfold ConversationState.completeResponse at hsnap ⊢
      split
      · rfl
      · next hsome => simp [hsome] at hsnap
    simp only [RealtimeLifecycle.finishResponse, askConversation, wp_bind, wp_modifyGet, hsnap,
      hsame, wp_pure]
    exact hs
  | some snap =>
    have hdone := hJ.completes v s snap status cause hs hsnap
    have hwp := (hrest snap).wp v _ hdone
    simp only [wp_bind] at hwp
    simp only [RealtimeLifecycle.finishResponse, askConversation, note, wp_bind, wp_modifyGet,
      wp_modify, hsnap]
    exact hwp

theorem Tolerant.observerFinish (hJ : Tolerant textOpen t J) (status : ResponseStatus)
    (cause : Option ℕ) :
    Kept (gateContract textOpen) t J (RealtimeObserver.finishResponse status cause) := by
  refine Kept.get fun s => .ite (hJ.kept (always_onObserver _)) ?_
  refine (hJ.kept (always_flushLlmText cause)).bind fun _ => ?_
  refine (hJ.kept always_takeResponseTelemetry).bind fun _ => (hJ.finish ..).bind fun _ => ?_
  exact hJ.kept ((always_onObserver _).bind fun _ => always_clearFrameDedupe)

theorem Tolerant.pipelineError (hJ : Tolerant textOpen t J) (message : String) (fatal : Bool) :
    Kept (gateContract textOpen) t J (pipelineError message fatal) := by
  refine (hJ.kept (always_emit _ _ _)).bind fun _ => .ite ?_
    (hJ.kept (always_onConversation flag_releaseResponseRequest))
  exact Kept.get fun s => .ite ((hJ.kept (always_announceResponse _)).bind
    fun _ => hJ.observerFinish ..) (hJ.observerFinish ..)

theorem Tolerant.handleFrame (hJ : Tolerant textOpen t J) (data : FramePushed) :
    Kept (gateContract textOpen) t J (handleFrame data) := by
  unfold RealtimeObserver.handleFrame
  split
  · exact hJ.kept ((always_askConversation flag_beginUserTurn).bind fun _ => always_emit _ _ _)
  · refine hJ.kept ((always_askConversation fun c => ?_).bind fun _ =>
      (always_emit _ _ _).bind fun _ => (always_emit _ _ _).bind fun _ =>
        (always_emitUserItemIfNeeded _).bind fun _ => always_emitUserTranscriptIfReady)
    exact flag_beginUserItem c
  · exact hJ.kept (Always.get.bind fun _ => .ite (.pure ())
      ((always_askConversation flag_beginUserItem).bind fun _ => always_emit _ _ _))
  · next text _ =>
    exact hJ.kept ((always_onConversation (f := fun c => c.setUserTranscript text)
      fun c => flag_beginUserItem c).bind fun _ => always_emitUserTranscriptIfReady)
  · exact hJ.kept ((always_announceResponse _).bind
      fun _ => .ite (always_onObserver _) (.pure ()))
  · exact hJ.kept (always_ttsText _ _)
  · exact hJ.kept (always_llmText _ _)
  · exact .ite (hJ.observerFinish ..) (.pure ())
  · exact hJ.kept (always_tools _)
  · exact hJ.kept (always_tool _)
  · exact hJ.kept ((always_emit _ _ _).bind fun _ => .ite (.pure ()) (always_onObserver _))
  · exact hJ.observerFinish ..
  all_goals exact .pure ()

theorem Tolerant.onPushFrame (hJ : Tolerant textOpen t J) (data : FramePushed) :
    Kept (gateContract textOpen) t J (onPushFrame data) := by
  unfold RealtimeObserver.onPushFrame
  split
  · exact (hJ.kept (always_rememberFrame _)).bind
      fun _ => .ite (hJ.pipelineError ..) (.pure ())
  · exact (hJ.kept (always_rememberFrame _)).bind
      fun _ => .ite (hJ.observerFinish ..) (.pure ())
  · refine .ite (.pure ()) (.ite (.pure ()) ?_)
    split
    · refine hJ.kept (Always.bind ?_ fun _ => .ite (always_onObserver _) (.pure ()))
      exact Always.get.bind fun _ => .ite (.pure _) ((always_onObserver _).bind fun _ => .pure _)
    · exact .ite ((hJ.kept (always_rememberFrame _)).bind
        fun _ => .ite (hJ.handleFrame data) (.pure ())) (.pure ())

theorem Tolerant.emitCancelledResponse (hJ : Tolerant textOpen t J) :
    Kept (gateContract textOpen) t J emitCancelledResponse := by
  refine (hJ.kept (Always.get.bind fun _ => (always_onObserver _).bind
    fun _ => always_clearFrameDedupe.bind fun _ => .pure _)).bind fun drained => ?_
  refine Kept.get fun s => ?_
  have hrest : Kept (gateContract textOpen) t J (do
      let telemetry ← takeResponseTelemetry
      let _ ← RealtimeLifecycle.finishResponse .cancelled (some telemetry) none) :=
    Kept.bind (hJ.kept always_takeResponseTelemetry)
      fun _ => Kept.bind (hJ.finish ..) fun _ => .pure ()
  exact .ite (Kept.bind (hJ.kept (always_appendAssistantTranscript _ _)) fun _ => hrest) hrest

end Programs

section Client
variable {textOpen : Bool} {J : RealtimeView → Shared → Prop}

/-- What is known when a frame is about to be returned. -/
def Ready (frame : Option ReturnedFrame) (s : Shared) : Prop :=
  match frame with
  | some .llmRun => s.conv.assistantHasResponded = true ∧ runs s.log + 1 ≤ created s.log
  | some (.llmMessagesAppend _) => s.conv.assistantHasResponded = true
  | _ => True

/-- Nothing is raised in here. -/
def Never (e : Empty) (_ : RealtimeView) (_ : Shared) : Prop := e.elim

/-- A handler of the client's messages. -/
abbrev Handles (textOpen : Bool) (J : RealtimeView → Shared → Prop)
    (c : Prog (Option ReturnedFrame)) : Prop :=
  Triple (gateContract textOpen) .client J c
    (fun frame v s => Holds textOpen .client v s ∧ Ready frame s) Never

/-- A handler that ends without a frame that talks. -/
theorem Handles.silent {α : Type} {c : Prog α} (frame : α → Option ReturnedFrame)
    (hc : Kept (gateContract textOpen) .client (Holds textOpen .client) c)
    (hframe : ∀ a s, Ready (frame a) s) :
    Handles textOpen (Holds textOpen .client) (do
      let a ← c
      pure (frame a)) :=
  hc.raiseless.bind fun a => .pure _ fun _ s hs => ⟨hs, hframe a s⟩

theorem Handles.of {c : Prog (Option ReturnedFrame)}
    (h : Handles textOpen (Holds textOpen .client) c)
    (hJ : ∀ v s, J v s → Holds textOpen .client v s) : Handles textOpen J c :=
  h.conseq hJ (fun _ _ _ h => h) fun e _ _ _ => e.elim

theorem handles_error (eventId : Option Text) (message code : String) (param : Option String) :
    Handles textOpen (Holds textOpen .client) (emitError eventId message code param) :=
  Handles.silent (fun _ => none) ((tolerant_holds _).kept (always_emit _ _ _))
    fun _ _ => trivial

theorem handles_none : Handles textOpen (Holds textOpen .client) (pure none) :=
  .pure _ fun _ _ hs => ⟨hs, trivial⟩

/-- The gate is kept and open, and stays so. -/
def Open (textOpen : Bool) (v : RealtimeView) (s : Shared) : Prop :=
  Holds textOpen .client v s ∧ s.conv.assistantHasResponded = true

theorem tolerant_open : Tolerant textOpen .client (Open textOpen) :=
  (tolerant_holds _).and fun _ _ hs hl => hl.flag hs

/-- A response has been announced for which no run has been returned. -/
def Announced (textOpen : Bool) (v : RealtimeView) (s : Shared) : Prop :=
  Open textOpen v s ∧ runs s.log + 1 ≤ created s.log

theorem tolerant_announced : Tolerant textOpen .client (Announced textOpen) :=
  tolerant_open.and fun s s' hs hl => by
    rw [hl.runs rfl]
    exact hs.trans hl.created

/-- With no response in progress, announcing one creates it. -/
theorem announce_created : Triple (gateContract textOpen) .client
    (fun v s => Open textOpen v s ∧ s.conv.active = none) (announceResponse [])
    (fun _ => Announced textOpen) Never := by
  have hrest : ∀ response : ResponseId, Triple (gateContract textOpen) .client
      (Announced textOpen) (do
        let _ ← (Coro.pause (.announcing response []) : Prog Reply)
        announceOutputItem response []
        announceContentPart response []) (fun _ => Announced textOpen) Never := fun response =>
    (Kept.bind (Kept.pause tolerant_announced.stable _)
      fun _ => tolerant_announced.kept (always_announceParts response [])).raiseless
  refine ⟨fun v s hs => ?_⟩
  obtain ⟨hopen, hnone⟩ := hs
  have hbegun : Open textOpen v { s with conv := s.conv.openResponse } :=
    tolerant_open.calm v s _ hopen (.of_log_eq rfl rfl)
  have hcreated : Announced textOpen v (Shared.emits { s with conv := s.conv.openResponse }
      (.responseCreated ⟨s.conv.responseGeneration + 1⟩) []) := by
    refine ⟨tolerant_open.calm v _ _ hbegun
      ⟨rfl, [.emitted _ _], rfl, by simp [talks, isCompleted]⟩, ?_⟩
    have hannounced := hopen.1.1.announced
    have hruns : runs (Shared.emits { s with conv := s.conv.openResponse }
        (.responseCreated ⟨s.conv.responseGeneration + 1⟩) []).log = runs s.log :=
      runs_append (by simp [talks])
    have hcount : created (Shared.emits { s with conv := s.conv.openResponse }
        (.responseCreated ⟨s.conv.responseGeneration + 1⟩) []).log = created s.log + 1 := by
      simp [created, Shared.emits, Shared.record, isCreated]
    omega
  have hwp := (hrest ⟨s.conv.responseGeneration + 1⟩).wp v _ hcreated
  simp only [wp_bind] at hwp
  simp only [announceResponse, askConversation, wp_bind, wp_modifyGet,
    beginResponse_of_none hnone, announceCreated, if_true, emit, note, wp_modify, wp_pure]
  exact hwp

/-- A response is reserved only while none is in progress. -/
theorem active_of_reserved {c : ConversationState} (h : c.requestResponse.1 = true) :
    c.requestResponse.2.active = none := by
  unfold ConversationState.requestResponse at h ⊢
  split at h
  · cases h
  · next hidle =>
    rw [if_neg hidle]
    exact if_neg fun hstatus => hidle (.inr hstatus)

theorem handles_responseCreate (eventId : Option Text) (override : Bool) :
    Handles textOpen (Holds textOpen .client) (deserializeResponseCreate eventId override) := by
  refine Triple.get fun s₀ => .ite (fun _ => (handles_error ..).of fun _ _ h => h.1)
    fun hflag => .ite (fun _ => (handles_error ..).of fun _ _ h => h.1) fun _ => ?_
  refine Triple.bind (K := fun reserved v s =>
    Open textOpen v s ∧ (reserved = true → s.conv.active = none)) (.modifyGet ?_) ?_
  · rintro v s ⟨hs, rfl⟩
    have hopen : Open textOpen v s := ⟨hs, eq_true_of_ne_false hflag⟩
    exact ⟨tolerant_open.calm v s _ hopen (.of_log_eq (flag_requestResponse s.conv) rfl),
      active_of_reserved⟩
  · rintro reserved
    refine .ite (fun hreserved => ?_) fun _ => (handles_error ..).of fun _ _ h => h.1.1
    refine Triple.bind (announce_created.conseq (fun _ _ h => ⟨h.1, h.2 hreserved⟩)
      (fun _ _ _ h => h) fun e _ _ _ => e.elim) fun _ => .pure _ fun _ _ hs => ?_
    exact ⟨hs.1.1, hs.1.2, hs.2⟩

theorem handles_cancelled (cause : ConversationState → ℕ) (s₀ : Shared) :
    Handles textOpen (fun v s => Holds textOpen .client v s ∧ s = s₀) (do
      emitCancelledResponse
      pure (some (.interruption (cause s₀.conv)))) :=
  (Handles.silent (fun _ => some (.interruption (cause s₀.conv)))
    (tolerant_holds _).emitCancelledResponse fun _ _ => trivial).of fun _ _ h => h.1

theorem handles_responseCancel (eventId : Option Text) (response : Option ResponseId) :
    Handles textOpen (Holds textOpen .client) (deserializeResponseCancel eventId response) :=
  Triple.get fun s₀ => .ite (fun _ => handles_none.of fun _ _ h => h.1)
    fun _ => .ite (fun _ => (handles_error ..).of fun _ _ h => h.1)
      fun _ => handles_cancelled (·.responseGeneration) s₀

theorem handles_truncate (eventId : Option Text) (item : Option ItemId)
    (audioEndMs : Option ℕ) :
    Handles textOpen (Holds textOpen .client) (deserializeTruncate eventId item audioEndMs) := by
  refine Triple.get fun s₀ => ?_
  cases item with
  | none => exact (handles_error ..).of fun _ _ h => h.1
  | some item =>
    cases audioEndMs with
    | none => exact (handles_error ..).of fun _ _ h => h.1
    | some ms =>
      exact .ite (fun _ => (handles_error ..).of fun _ _ h => h.1)
        fun _ => .ite (fun _ => handles_none.of fun _ _ h => h.1)
          fun _ => handles_cancelled (·.responseGeneration) s₀

theorem always_clientItemId (name : Option Text) : Always Calm (clientItemId name) := by
  cases name with
  | none => exact always_askConversation (by intro _; rfl)
  | some name => exact .pure _

theorem handles_itemCreate (eventId : Option Text) (item : Option ClientItem) :
    Handles textOpen (Holds textOpen .client) (deserializeItemCreate eventId item) := by
  refine Triple.get fun s₀ => ?_
  cases item with
  | none => exact (handles_error ..).of fun _ _ h => h.1
  | some item =>
    refine .ite (fun _ => (handles_error ..).of fun _ _ h => h.1)
      fun _ => .ite (fun _ => (handles_error ..).of fun _ _ h => h.1) fun _ => ?_
    cases item.text with
    | none => exact (handles_error ..).of fun _ _ h => h.1
    | some text =>
      refine .ite (fun _ => (handles_error ..).of fun _ _ h => h.1) fun hflag => ?_
      have hkept : Triple (gateContract textOpen) .client (Open textOpen) (do
          let itemId ← clientItemId item.id
          emit .emitting (.userItemCreated itemId text) []) (fun _ => Open textOpen) Never :=
        (tolerant_open.kept ((always_clientItemId _).bind fun _ => always_emit _ _ _)).raiseless
      refine ⟨fun v s hs => ?_⟩
      have hopen : Open textOpen v s := ⟨hs.1, hs.2 ▸ eq_true_of_ne_false hflag⟩
      have hwp := hkept.wp v s hopen
      simp only [wp_bind, wp_pure] at hwp ⊢
      exact hwp

theorem handles_append (eventId : Option Text) (bytes rate : ℕ) :
    Handles textOpen (Holds textOpen .client)
      (deserialize { eventId := eventId, event := .audioAppend bytes rate }) := by
  have hholds : Tolerant textOpen .client (Holds textOpen .client) := tolerant_holds _
  refine Triple.bind (Kept.pause hholds.stable _).raiseless fun i => ?_
  refine .ite (fun _ => handles_error ..) fun _ => .ite (fun _ => handles_none) fun _ => ?_
  refine Triple.bind (hholds.kept (always_bytes (· + bytes))).raiseless fun _ => ?_
  exact Handles.silent (fun _ => some (.inputAudio bytes))
    (hholds.kept (always_onConversation (flag_addInputAudio · _ _))) fun _ _ => trivial

theorem handles_deserialize (message : ClientMessage) :
    Handles textOpen (Holds textOpen .client) (deserialize message) := by
  have hholds : Tolerant textOpen .client (Holds textOpen .client) := tolerant_holds _
  obtain ⟨eventId, event⟩ := message
  cases event with
  | responseCreate override => exact handles_responseCreate eventId override
  | responseCancel response => exact handles_responseCancel eventId response
  | itemTruncate item ms => exact handles_truncate eventId item ms
  | itemCreate item => exact handles_itemCreate eventId item
  | audioAppend bytes rate => exact handles_append eventId bytes rate
  | audioCommit =>
    refine Triple.get fun s₀ => .ite (fun _ => (handles_error ..).of fun _ _ h => h.1) fun _ => ?_
    have hsilent : Handles textOpen (Holds textOpen .client) (do
        modify fun s => { s with bytesSinceCommit := 0 }
        pure none) :=
      Triple.bind (hholds.kept (always_bytes fun _ => 0)).raiseless fun _ => handles_none
    exact hsilent.of fun _ _ h => h.1
  | audioClear =>
    refine Triple.bind (hholds.kept (always_bytes fun _ => 0)).raiseless fun _ => ?_
    exact Triple.bind (hholds.kept (always_emit _ _ _)).raiseless fun _ => handles_none
  | sessionUpdate voice =>
    refine Handles.silent (fun _ => if voice then some .ttsUpdateSettings else none)
      (hholds.kept (always_emit _ _ _)) fun _ _ => ?_
    cases voice <;> trivial
  | refused message code param => exact handles_error ..

/-- A frame that is ready may be returned. -/
theorem Holds.returned {v : RealtimeView} {s : Shared} {frame : ReturnedFrame}
    (h : Holds textOpen .client v s) (hready : Ready (some frame) s) :
    Holds textOpen .client v (s.record (.returned frame)) := by
  obtain ⟨hgate, hlater⟩ := h
  have hopened : Opened textOpen (s.record (.returned frame)).log ↔ Opened textOpen s.log :=
    opened_append (by simp [isCompleted])
  refine ⟨⟨hgate.flag.trans hopened.symm, along_concat.mpr ⟨hgate.passed, fun htalks => ?_⟩, ?_⟩,
    fun u hu => ⟨(hlater u hu).flag, ?_, fun hclient => absurd hclient hu⟩⟩
  · cases frame with
    | llmRun => exact hgate.flag.mp hready.1
    | llmMessagesAppend text => exact hgate.flag.mp hready
    | _ => cases htalks
  · cases frame with
    | llmRun =>
      have hruns : runs (s.record (.returned .llmRun)).log = runs s.log + 1 := by
        simp [runs, Shared.record, isRun]
      have hcreated := created_le s.log [.returned .llmRun]
      exact (hruns ▸ hready.2).trans hcreated
    | _ =>
      refine Nat.le_trans ?_ (hgate.announced.trans (created_le s.log _))
      simp [runs, Shared.record, isRun]
  · exact (hlater u hu).created.trans (created_le ..)

theorem receive_kept (message : ClientMessage) :
    Triple (gateContract textOpen) .client (Holds textOpen .client) (receive message)
      (fun _ => Holds textOpen .client) Never := by
  refine Triple.bind (handles_deserialize message) fun frame => ?_
  cases frame with
  | none => exact .pure _ fun _ _ h => h.1
  | some frame => exact .modify fun _ _ h => h.1.returned h.2

end Client

section Runs
variable {textOpen : Bool}

theorem gate_keeps : Keeps (gateContract textOpen) realtime closedWorld where
  refl t v := .refl t v.shared
  trans _ _ _ _ h h' := Later.trans h h'
  outside _ _ _ h := h.elim
  body t b i v hi hsite ha := by
    have hstart : Holds textOpen t v v.shared := ⟨hi, fun u _ => .refl u v.shared⟩
    have hbody : Triple (gateContract textOpen) t (Holds textOpen t) (work t i)
        (fun _ => Holds textOpen t) Never := by
      have hidle : Triple (gateContract textOpen) t (Holds textOpen t) (pure () : Prog Unit)
          (fun _ => Holds textOpen t) Never := .pure _ fun _ _ h => h
      cases t with
      | observer =>
        cases i with
        | push data => exact ((tolerant_holds _).onPushFrame data).raiseless
        | _ => exact hidle
      | output =>
        cases i with
        | play audio =>
          exact ((tolerant_holds _).kept (always_serializeOutputAudio audio)).raiseless
        | _ => exact hidle
      | client =>
        cases i with
        | receive message => exact receive_kept message
        | _ => exact hidle
    exact wp_mono (fun _ _ _ h => h) (fun e _ _ _ => e.elim) (hbody.wp v v.shared hstart)

theorem gate_fresh (maxFrames : ℕ) :
    Gate textOpen (freshSession maxFrames textOpen).view.shared where
  flag := by
    cases textOpen <;> simp [Opened]
  passed := along_nil
  announced := Nat.le_refl 0

/-- In every interleaving a client's run or text reaches the pipeline only after a response has
been completed, or with no welcome to wait for; the gate is open exactly from then on; and there
are never more client runs than responses created on the wire. -/
theorem welcome_gate {maxFrames : ℕ} {p : Pool Empty Shared Site Reply Task Unit}
    (h : realtime.Reach anyReply closedWorld (freshSession maxFrames textOpen) p) :
    Gate textOpen p.shared := gate_keeps.invariant (gate_fresh maxFrames) h

/-- A request for a response before the welcome has been said, and one after it. -/
def welcomed : List (System.Act Shared Reply Task) :=
  [.turn .client (.receive { event := .responseCreate false }), .turn .client .go,
   .turn .observer (.push { id := 1, frame := .botStartedSpeaking }),
   .turn .observer .go, .turn .observer .go, .turn .observer .go, .turn .observer .go,
   .turn .observer (.push { id := 2, frame := .ttsStopped, fromOutputTransport := true }),
   .turn .observer .go, .turn .observer .go, .turn .observer .go, .turn .observer .go,
   .turn .observer .go,
   .turn .client (.receive { event := .responseCreate false }),
   .turn .client .go, .turn .client .go, .turn .client .go, .turn .client .go]

theorem welcome_gate_opened :
    (realtime.play (freshSession 4096 false) welcomed).shared.log.countP talks = 1 ∧
      Gate false (realtime.play (freshSession 4096 false) welcomed).shared :=
  ⟨by decide +kernel, welcome_gate (System.reach_play (by decide +kernel))⟩

end Runs

end VoiceAgent.WelcomeGate
