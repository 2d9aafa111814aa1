import VoiceAgent.RealtimeSerializer

/-!
What one turn of a Realtime task can do to the response slot, the buffered LLM
text and the log, said once. `SlotRules` lists the updates together with what the
code has checked before each; an invariant that survives every one of them holds in
every interleaving (`SlotRules.invariant`). The proofs walk through the programs, so
a change of the control flow is repaired here and not in the invariants.
-/
namespace VoiceAgent.RealtimeRules

open RealtimeEvents Conversation Coroutine Interleaving RealtimeLifecycle RealtimeObserver
  RealtimeSerializer

section Projections

/-- Events that belong to no response. -/
def asideEvent : ServerEvent → Bool
  | .responseCreated _ | .assistantItemCreated _ => false
  | event => event.response?.isNone

def asideEntry : Entry → Bool
  | .emitted event origins => asideEvent event && origins.isEmpty
  | .handled .. | .dedupeCleared | .returned _ => true
  | _ => false

/-- The response slot: all that the announce and finish sequences read and write. -/
def slot (c : ConversationState) := (c.responseId, c.responseStatus, c.responseGeneration,
  c.assistantItemId, c.assistantTranscript, c.outputItemAnnounced, c.contentPartAnnounced)

def llm (o : Observer) :=
  (o.llmTextBuffer, o.llmTextGeneration, o.llmTextOrigins, o.botTranscriptFromTts)

/-- From `s` to `s'` neither the slot nor the LLM text changed and only entries that
belong to no response were logged. -/
structure Aside (s s' : Shared) : Prop where
  slot : slot s'.conv = slot s.conv
  llm : llm s'.obs = llm s.obs
  log : ∃ es, s'.log = s.log ++ es ∧ ∀ e ∈ es, asideEntry e = true

theorem Aside.of_log_eq {s s' : Shared}
    (hs : RealtimeRules.slot s'.conv = RealtimeRules.slot s.conv)
    (hl : RealtimeRules.llm s'.obs = RealtimeRules.llm s.obs) (h : s'.log = s.log) : Aside s s' :=
  ⟨hs, hl, [], by simp [h], by simp⟩

theorem Aside.record (s : Shared) {e : Entry} (h : asideEntry e = true) : Aside s (s.record e) :=
  ⟨rfl, rfl, [e], rfl, by simpa using h⟩

theorem active_congr {c c' : ConversationState} (h : slot c' = slot c) : c'.active = c.active := by
  simp only [slot, Prod.mk.injEq] at h
  simp only [ConversationState.active, h.1, h.2.1]

theorem slot_beginUserItem (c : ConversationState) : slot c.beginUserItem.2 = slot c := by
  unfold ConversationState.beginUserItem
  split <;> rfl

theorem slot_beginUserTurn (c : ConversationState) : slot c.beginUserTurn.2 = slot c := by
  unfold ConversationState.beginUserTurn
  cases c.userTurnStopped with
  | false =>
    dsimp only
    split <;> exact slot_beginUserItem c
  | true =>
    dsimp only
    split <;> exact slot_beginUserItem c.clearUserItem

theorem slot_readyUserTranscript (c : ConversationState) :
    slot c.readyUserTranscript.2 = slot c := by
  unfold ConversationState.readyUserTranscript
  split
  · exact slot_beginUserItem c
  · rfl

theorem slot_releaseResponseRequest (c : ConversationState) :
    slot c.releaseResponseRequest = slot c := by
  unfold ConversationState.releaseResponseRequest
  split <;> rfl

theorem slot_requestResponse (c : ConversationState) : slot c.requestResponse.2 = slot c := by
  unfold ConversationState.requestResponse
  split <;> rfl

theorem slot_addInputAudio (c : ConversationState) (bytes rate : ℕ) :
    slot (c.addInputAudio bytes rate) = slot c := by
  unfold ConversationState.addInputAudio
  split <;> rfl

end Projections

section Updates

/-- The updates of the state that the rules speak about. -/
def opened (s : Shared) : Shared := { s with conv := s.conv.openResponse }

def itemFlagged (s : Shared) : Shared :=
  { s with conv := { s.conv with outputItemAnnounced := true } }

def partFlagged (s : Shared) : Shared :=
  { s with conv := { s.conv with contentPartAnnounced := true } }

def appended (s : Shared) (text : Text) (origins : List ℕ) : Shared :=
  let c := s.conv.appendAssistantTranscript text
  { s with conv := c, log := s.log ++ [.appended c.responseGeneration text origins] }

def llmCleared (s : Shared) (fromTts : Bool) : Shared :=
  { s with obs := { clearLlmText s.obs with botTranscriptFromTts := fromTts } }

def llmBuffered (s : Shared) (text : Text) (origins : List ℕ) : Shared :=
  { s with obs := { s.obs with
    llmTextBuffer := s.obs.llmTextBuffer ++ text
    llmTextGeneration := s.conv.responseGeneration
    llmTextOrigins := s.obs.llmTextOrigins ++ origins } }

def deltaEmitted (s : Shared) (text : Text) (origins : List ℕ) : Shared :=
  s.emits (.outputAudioTranscriptDelta s.conv.responseId s.conv.assistantItemId text) origins

def completed (s : Shared) (response : ResponseId) (status : ResponseStatus)
    (cause : Option ℕ) : Shared :=
  { s with
    conv := (s.conv.completeResponse status).2
    log := s.log ++ [.completed (s.conv.snapshot response status) cause] }

def slotReset (s : Shared) (generation : ℕ) : Shared :=
  let c := s.conv.resetResponseSlot generation
  { s with conv := c, log := s.log ++ [.reset generation s.conv c] }

/-- What a cancel adds to the transcript: the LLM text that was still buffered. -/
def drained (s : Shared) : Shared :=
  if s.obs.llmTextBuffer ≠ [] ∧ s.conv.assistantTranscript = [] then
    appended (llmCleared s false) s.obs.llmTextBuffer s.obs.llmTextOrigins
  else llmCleared s false

variable {s : Shared} {r : ResponseId} {text : Text} {origins : List ℕ}

theorem extendTranscript_of_active {c : ConversationState} (hact : c.active = some r)
    (hne : text ≠ []) : c.appendAssistantTranscript text = c.extendTranscript text := by
  simp [ConversationState.appendAssistantTranscript, hne, beginResponse_of_active hact]

/-- With a response in progress nothing but its transcript grows. -/
theorem appended_of_active (hact : s.conv.active = some r) (hne : text ≠ []) :
    appended s text origins = { s with
      conv := s.conv.extendTranscript text
      log := s.log ++ [.appended s.conv.responseGeneration text origins] } := by
  simp only [appended, extendTranscript_of_active hact hne]
  rfl

@[simp] theorem active_extendTranscript (c : ConversationState) (text : Text) :
    (c.extendTranscript text).active = c.active := rfl

@[simp] theorem wire_appended : wire (appended s text origins).log = wire s.log := by
  simp [appended, wire]

@[simp] theorem wire_completed {status : ResponseStatus} {c : Option ℕ} :
    wire (completed s r status c).log = wire s.log := by
  simp [completed, wire]

/-- A drain appends the buffer to the response in progress or does nothing to it. -/
theorem drained_cases (s : Shared) : drained s = llmCleared s false ∨
    s.obs.llmTextBuffer ≠ [] ∧ s.conv.assistantTranscript = [] ∧
      drained s = appended (llmCleared s false) s.obs.llmTextBuffer s.obs.llmTextOrigins := by
  by_cases h : s.obs.llmTextBuffer ≠ [] ∧ s.conv.assistantTranscript = []
  · exact .inr ⟨h.1, h.2, if_pos h⟩
  · exact .inl (if_neg h)

theorem active_drained (hact : s.conv.active = some r) : (drained s).conv.active = some r := by
  rcases drained_cases s with h | ⟨hbuf, -, h⟩
  · rw [h]
    exact hact
  · have hact' : (llmCleared s false).conv.active = some r := hact
    rw [h, appended_of_active hact' hbuf]
    exact hact

@[simp] theorem wire_drained : wire (drained s).log = wire s.log := by
  rcases drained_cases s with h | ⟨-, -, h⟩ <;> simp [h, llmCleared]

/-- A slot that still holds a response in progress has not been reset. -/
theorem resetResponseSlot_of_active {c : ConversationState} {g : ℕ}
    (h : (c.resetResponseSlot g).active = some r) : c.resetResponseSlot g = c := by
  unfold ConversationState.resetResponseSlot at h ⊢
  split at h
  · rw [if_pos ‹_›]
  · simp [ConversationState.active] at h

end Updates

/-- A message that cancels the response in progress when it is handled in this state. -/
def cancels (c : ConversationState) : ClientEvent → Prop
  | .responseCancel response =>
    c.responseStatus = some .inProgress ∧ cancelsOther response c.responseId = false
  | .itemTruncate (some item) (some _) => c.responseStatus = some .inProgress ∧
    (some item = c.assistantItemId ∨ c.itemTranscripts item ≠ none)
  | _ => False

instance decidableCancels (c : ConversationState) : ∀ e, Decidable (cancels c e)
  | .responseCancel _ => inferInstanceAs (Decidable (_ ∧ _))
  | .itemTruncate (some _) (some _) => inferInstanceAs (Decidable (_ ∧ (_ ∨ _)))
  | .itemTruncate none _ | .itemTruncate (some _) none | .responseCreate _ | .itemCreate _
  | .audioAppend .. | .audioCommit | .audioClear | .sessionUpdate _ | .refused .. =>
    instDecidableFalse

/-- A crossing that ends a response, if the observer has not seen the frame before. -/
def finishTrigger (d : FramePushed) : Bool :=
  match d.frame with
  | .interruption => true
  | .ttsStopped => d.fromOutputTransport && d.downstream
  | .llmFullResponseEnd skipTts => skipTts && d.downstream
  | _ => false

/-- A crossing that brings text, if the observer has not seen the frame before. -/
def carriesText (d : FramePushed) : Bool :=
  match d.frame with
  | .ttsText text | .llmText text => d.downstream && text != []
  | _ => false

/-- Where a finish may set out. -/
def calm : Site → Prop
  | .ready | .flushed _ => True
  | _ => False

/-- Where a finish may have got to when it returns. -/
def settled : Site → Prop
  | .ready | .flushed _ | .finishing _ [] => True
  | _ => False

/-- Where a turn goes on without a finish. -/
def turning : Site → Prop
  | .flushed _ | .finishing .. => False
  | _ => True

theorem settled_of_calm {l : Site} (h : calm l) : settled l := by
  cases l with
  | ready | flushed => trivial
  | _ => exact h.elim

/-- An invariant, the replies it is claimed under, and what a task may go on to know:
`ann r o` while it announces `r` for text or audio of the responses `o`, `item` of an item
id read then, `fits` of such text or audio, `may` before a finish, `drain` before a cancel. -/
structure Reading where
  inv : RealtimeView → Prop
  allowed : RealtimeView → Task → Reply → Prop
  ann : ResponseId → List ℕ → Shared → Prop
  item : ResponseId → Option ItemId → Prop
  fits : ResponseId → List ℕ → Prop
  may : Option ℕ → Shared → Prop
  drain : Shared → Prop

namespace Reading

variable (R : Reading)

def contract : Contract Task Site Shared Reply := ⟨R.inv, fun _ _ _ => True, R.allowed⟩

/-- In the middle of a turn: task `t` might as well stop at `l` now. -/
def At (l : Site) (t : Task) (v : RealtimeView) (s : Shared) : Prop := R.inv (v.stop t l s)

abbrev Quiet (t : Task) (v : RealtimeView) (s : Shared) : Prop := R.At .ready t v s

end Reading

structure SlotRules (R : Reading) : Prop where
  quiet : ∀ {v} t, R.inv v → turning (v.site t) → R.Quiet t v v.shared
  emitting : ∀ {t v s}, R.Quiet t v s → R.inv (v.stop t .emitting s)
  resampling : ∀ {t v s} o, R.Quiet t v s → R.inv (v.stop t (.resampling o) s)
  aside : ∀ {t v s s' l}, calm l → R.At l t v s → Aside s s' → R.At l t v s'
  created : ∀ {t v s} o, R.Quiet t v s → s.conv.active = none →
    R.inv (v.stop t (.announcing ⟨s.conv.responseGeneration + 1⟩ o)
      ((opened s).emits (.responseCreated ⟨s.conv.responseGeneration + 1⟩) []))
  annActive : ∀ {t v s r} o, R.Quiet t v s → s.conv.active = some r → R.ann r o s
  annResumed : ∀ {v t i r o}, R.inv v → v.site t = .announcing r o → R.allowed v t i →
    R.ann r o v.shared
  itemOf : ∀ {t v s r o}, R.Quiet t v s → R.ann r o s → R.item r s.conv.assistantItemId
  itemCreated : ∀ {t v s r o}, R.Quiet t v s → R.ann r o s →
    R.inv (v.stop t (.announcing r o)
      ((itemFlagged s).emits (.assistantItemCreated s.conv.assistantItemId) []))
  itemAdded : ∀ {t v s r o i}, R.Quiet t v s → R.ann r o s → R.item r i →
    R.inv (v.stop t (.announcing r o) (s.emits (.outputItemAdded (some r) i) []))
  contentPart : ∀ {t v s r o}, R.Quiet t v s → R.ann r o s →
    R.inv (v.stop t (.announcing r o)
      ((partFlagged s).emits (.contentPartAdded (some r) s.conv.assistantItemId) []))
  audioFits : ∀ {v t i o r}, R.inv v → v.site t = .resampling o → R.allowed v t i →
    i ≠ .failed → v.shared.conv.active = some r → R.fits r o.toList
  audio : ∀ {t v s r o x}, R.Quiet t v s → R.ann r o s → R.fits r o →
    R.inv (v.stop t .emitting (s.emits (.outputAudioDelta (some r) s.conv.assistantItemId x) o))
  textFits : ∀ {v d}, R.inv v → v.site .observer = .ready → R.allowed v .observer (.push d) →
    carriesText d = true → d.id ∉ v.shared.obs.processedFrames →
    R.fits v.shared.conv.beginResponse.1.1 d.origin.toList
  spoken : ∀ {v s r o text}, R.Quiet .observer v s → R.ann r o s → R.fits r o → text ≠ [] →
    R.inv (v.stop .observer .emitting
      (deltaEmitted (llmCleared (appended s text o) true) text o))
  buffered : ∀ {v s r o text}, R.Quiet .observer v s → R.ann r o s → R.fits r o →
    R.Quiet .observer v (llmBuffered s text o)
  cleared : ∀ {l v s} b, settled l → R.At l .observer v s → R.Quiet .observer v (llmCleared s b)
  mayPush : ∀ {v d}, R.inv v → v.site .observer = .ready → R.allowed v .observer (.push d) →
    finishTrigger d = true → d.id ∉ v.shared.obs.processedFrames → R.may d.origin v.shared
  mayNone : ∀ s, R.may none s
  mayKept : ∀ {s s' c}, s'.conv.active = s.conv.active → R.may c s → R.may c s'
  flushed : ∀ {v s r} c, R.Quiet .observer v s → s.conv.active = some r →
    s.conv.assistantTranscript = [] → s.obs.llmTextBuffer ≠ [] →
    s.obs.llmTextGeneration = s.conv.responseGeneration →
    R.inv (v.stop .observer (.flushed c)
      (deltaEmitted (appended s s.obs.llmTextBuffer s.obs.llmTextOrigins)
        s.obs.llmTextBuffer s.obs.llmTextOrigins))
  mayFlushed : ∀ {v i c}, R.inv v → v.site .observer = .flushed c → R.allowed v .observer i →
    R.may c v.shared
  slotId : ∀ {t v s}, R.Quiet t v s → s.conv.responseStatus = some .inProgress →
    s.conv.responseId ≠ none
  finished : ∀ {l t v s r c status tel e rest}, calm l → R.At l t v s →
    s.conv.active = some r → R.may c s → status ≠ .inProgress →
    t = .observer ∨ s.obs.llmTextOrigins = [] →
    finishEvents (s.conv.snapshot r status) tel = e :: rest →
    R.inv (v.stop t (.finishing (s.conv.snapshot r status) rest)
      ((completed s r status c).emits e []))
  finishing : ∀ {t v snap e rest}, R.inv v → v.site t = .finishing snap (e :: rest) →
    R.inv (v.stop t (.finishing snap rest) (v.shared.emits e []))
  finishReset : ∀ {t v snap}, R.inv v → v.site t = .finishing snap [] →
    R.At (.finishing snap []) t v (slotReset v.shared snap.generation)
  left : ∀ {l t v s}, settled l → t ≠ .observer → R.At l t v s → R.Quiet t v s
  drainPush : ∀ {v m}, R.inv v → v.site .client = .ready → R.allowed v .client (.receive m) →
    cancels v.shared.conv m.event → R.drain v.shared
  drainKept : ∀ {s s'}, Aside s s' → R.drain s → R.drain s'
  drained : ∀ {t v s r}, R.Quiet t v s → s.conv.active = some r → R.drain s →
    R.Quiet t v (drained s)

variable {R : Reading} {α : Type} {t : Task} {v : RealtimeView} {s : Shared}

section Wp
variable {C : Contract Task Site Shared Reply} {Q : α → RealtimeView → Shared → Prop}
  {E : Empty → RealtimeView → Shared → Prop}

@[simp] theorem wp_note {Q : Unit → RealtimeView → Shared → Prop} (e : Entry) :
    Wp C t Q E (note e) v s ↔ Q () v (s.record e) := Iff.rfl

@[simp] theorem wp_onConversation {Q : Unit → RealtimeView → Shared → Prop}
    (f : ConversationState → ConversationState) :
    Wp C t Q E (onConversation f) v s ↔ Q () v { s with conv := f s.conv } := Iff.rfl

@[simp] theorem wp_onObserver {Q : Unit → RealtimeView → Shared → Prop}
    (f : Observer → Observer) :
    Wp C t Q E (onObserver f) v s ↔ Q () v { s with obs := f s.obs } := Iff.rfl

@[simp] theorem wp_askConversation (f : ConversationState → α × ConversationState) :
    Wp C t Q E (askConversation f) v s ↔
      Q (f s.conv).1 v { s with conv := (f s.conv).2 } := Iff.rfl

/-- A stop at a site that keeps the invariant. -/
theorem wp_pause_site {Q : Reply → RealtimeView → Shared → Prop} {l : Site}
    (hstop : R.inv (v.stop t l s))
    (h : ∀ v' i, R.inv v' → v'.site t = l → R.allowed v' t i → Q i v' v'.shared) :
    Wp R.contract t Q E (Coro.pause l) v s :=
  ⟨⟨hstop, fun _ _ => trivial⟩, fun v' i _ hi hl ha => h v' i hi hl ha⟩

theorem wp_emit {Q : Unit → RealtimeView → Shared → Prop} {l : Site} {event : ServerEvent}
    {origins : List ℕ} (hstop : R.inv (v.stop t l (s.emits event origins)))
    (h : ∀ v' i, R.inv v' → v'.site t = l → R.allowed v' t i → Q () v' v'.shared) :
    Wp R.contract t Q E (emit l event origins) v s := by
  change Wp R.contract t (fun _ => Q ()) E (Coro.pause l) v (s.emits event origins)
  exact wp_pause_site hstop h

theorem wp_appendAssistantTranscript {Q : Unit → RealtimeView → Shared → Prop} {text : Text}
    {origins : List ℕ} (h : text ≠ []) :
    Wp R.contract t Q E (appendAssistantTranscript text origins) v s ↔
      Q () v (appended s text origins) := by
  simp only [appendAssistantTranscript, h, if_false, wp_bind, wp_onConversation, wp_get, wp_note]
  exact Iff.rfl

end Wp

theorem finishEvents_ne_nil (snap : ResponseSnapshot)
    (tel : Option RealtimeResponseTelemetry) : finishEvents snap tel ≠ [] := by
  simp [finishEvents]

/-- A program that leaves the response slot to the others. -/
structure Tame (R : Reading) (t : Task) (f : Prog α) : Prop where
  wp : ∀ {Q : α → RealtimeView → Shared → Prop} {E : Empty → RealtimeView → Shared → Prop} {v s},
    R.Quiet t v s → (∀ a v' s', R.Quiet t v' s' → Q a v' s') → Wp R.contract t Q E f v s

theorem Tame.bind {β : Type} {f : Prog α} {g : α → Prog β} (hf : Tame R t f)
    (hg : ∀ a, Tame R t (g a)) : Tame R t (f >>= g) := by
  refine ⟨fun hq hQ => ?_⟩
  rw [wp_bind]
  exact hf.wp hq fun a v' s' hq' => (hg a).wp hq' hQ

theorem Tame.pure (a : α) : Tame R t (pure a : Prog α) := ⟨fun hq hQ => hQ a _ _ hq⟩

theorem Tame.get : Tame R t (get : Prog Shared) := ⟨fun hq hQ => hQ _ _ _ hq⟩

theorem Tame.ite {p : Prop} [Decidable p] {f g : Prog α} (hf : Tame R t f) (hg : Tame R t g) :
    Tame R t (if p then f else g) := by
  split
  · exact hf
  · exact hg

variable (hR : SlotRules R)
include hR

section TamePrograms

/-- A task that stopped in the middle of its turn goes on as it left. -/
theorem quiet_at {l : Site} (hi : R.inv v) (hl : v.site t = l) (h : turning l) :
    R.Quiet t v v.shared := hR.quiet t hi (by rw [hl]; exact h)

theorem Tame.askConversation {f : ConversationState → α × ConversationState}
    (h : ∀ c, slot (f c).2 = slot c) : Tame R t (askConversation f) :=
  ⟨fun hq hQ => hQ _ _ _ (hR.aside trivial hq (.of_log_eq (h _) rfl rfl))⟩

theorem Tame.onConversation {f : ConversationState → ConversationState}
    (h : ∀ c, slot (f c) = slot c) : Tame R t (onConversation f) :=
  ⟨fun hq hQ => hQ _ _ _ (hR.aside trivial hq (.of_log_eq (h _) rfl rfl))⟩

theorem Tame.onObserver {f : Observer → Observer} (h : ∀ o, llm (f o) = llm o) :
    Tame R t (onObserver f) :=
  ⟨fun hq hQ => hQ _ _ _ (hR.aside trivial hq (.of_log_eq rfl (h _) rfl))⟩

theorem Tame.note {e : Entry} (h : asideEntry e = true) : Tame R t (note e) :=
  ⟨fun hq hQ => hQ _ _ _ (hR.aside trivial hq (.record _ h))⟩

theorem Tame.bytes {f : ℕ → ℕ} :
    Tame R t (modify fun s => { s with bytesSinceCommit := f s.bytesSinceCommit } : Prog Unit) :=
  ⟨fun hq hQ => hQ _ _ _ (hR.aside trivial hq (.of_log_eq rfl rfl rfl))⟩

theorem Tame.emit {event : ServerEvent} (h : asideEvent event = true) :
    Tame R t (emit .emitting event []) := by
  refine ⟨fun hq hQ => wp_emit (hR.emitting (hR.aside trivial hq (.record _ ?_)))
    fun v' _ hi hl _ => hQ _ _ _ (quiet_at hR hi hl trivial)⟩
  simpa [asideEntry] using h

theorem Tame.resample (o : Option ℕ) : Tame R t (Coro.pause (.resampling o) : Prog Reply) :=
  ⟨fun hq hQ => wp_pause_site (hR.resampling o hq)
    fun _ i hi hl _ => hQ i _ _ (quiet_at hR hi hl trivial)⟩

end TamePrograms

section Response
variable {Q : α → RealtimeView → Shared → Prop} {E : Empty → RealtimeView → Shared → Prop}

theorem active_of_inProgress (hq : R.Quiet t v s)
    (h : s.conv.responseStatus = some .inProgress) :
    ∃ r, s.conv.active = some r ∧ s.conv.responseId = some r := by
  obtain ⟨r, hr⟩ := Option.ne_none_iff_exists'.mp (hR.slotId hq h)
  exact ⟨r, by simp [ConversationState.active, h, hr], hr⟩

theorem wp_announceOutputItem {Q : Unit → RealtimeView → Shared → Prop} {r : ResponseId}
    {o : List ℕ} (hq : R.Quiet t v s) (ha : R.ann r o s)
    (h : ∀ v' s', R.Quiet t v' s' → R.ann r o s' → Q () v' s') :
    Wp R.contract t Q E (announceOutputItem r o) v s := by
  simp only [announceOutputItem, wp_bind, wp_get]
  split
  · exact h v s hq ha
  · simp only [wp_bind, wp_onConversation]
    refine wp_emit (hR.itemCreated hq ha) fun v₁ i₁ hi₁ hl₁ ha₁ => ?_
    have hq₁ := quiet_at hR hi₁ hl₁ trivial
    have ann₁ := hR.annResumed hi₁ hl₁ ha₁
    refine wp_emit (hR.itemAdded hq₁ ann₁ (hR.itemOf hq ha)) fun v₂ i₂ hi₂ hl₂ ha₂ => ?_
    exact h v₂ _ (quiet_at hR hi₂ hl₂ trivial) (hR.annResumed hi₂ hl₂ ha₂)

theorem wp_announceContentPart {Q : Unit → RealtimeView → Shared → Prop} {r : ResponseId}
    {o : List ℕ} (hq : R.Quiet t v s) (ha : R.ann r o s)
    (h : ∀ v' s', R.Quiet t v' s' → R.ann r o s' → Q () v' s') :
    Wp R.contract t Q E (announceContentPart r o) v s := by
  simp only [announceContentPart, wp_bind, wp_get]
  split
  · exact h v s hq ha
  · simp only [wp_bind, wp_onConversation]
    refine wp_emit (hR.contentPart hq ha) fun v₁ i₁ hi₁ hl₁ ha₁ => ?_
    exact h v₁ _ (quiet_at hR hi₁ hl₁ trivial) (hR.annResumed hi₁ hl₁ ha₁)

/-- The announced response is the one that `begin_response` finds or opens first. -/
theorem wp_announceResponse {Q : ResponseId × Bool → RealtimeView → Shared → Prop}
    {o : List ℕ} (hq : R.Quiet t v s)
    (h : ∀ b v' s', R.Quiet t v' s' → R.ann s.conv.beginResponse.1.1 o s' →
      Q (s.conv.beginResponse.1.1, b) v' s') :
    Wp R.contract t Q E (announceResponse o) v s := by
  have rest : ∀ b v' s', R.Quiet t v' s' → R.ann s.conv.beginResponse.1.1 o s' →
      Wp R.contract t Q E (do
        announceOutputItem s.conv.beginResponse.1.1 o
        announceContentPart s.conv.beginResponse.1.1 o
        pure (s.conv.beginResponse.1.1, b)) v' s' := by
    intro b v' s' hq' ha'
    simp only [wp_bind, wp_pure]
    refine wp_announceOutputItem hR hq' ha' fun v₁ s₁ hq₁ ha₁ => ?_
    exact wp_announceContentPart hR hq₁ ha₁ fun v₂ s₂ hq₂ ha₂ => h b v₂ s₂ hq₂ ha₂
  unfold announceResponse
  rw [wp_bind, wp_askConversation]
  cases hact : s.conv.active with
  | some r =>
    simp only [beginResponse_of_active hact] at rest ⊢
    exact rest false v s hq (hR.annActive o hq hact)
  | none =>
    simp only [beginResponse_of_none hact] at rest ⊢
    rw [wp_bind]
    refine wp_emit (hR.created o hq hact) fun v₁ i₁ hi₁ hl₁ ha₁ => ?_
    exact rest true v₁ _ (quiet_at hR hi₁ hl₁ trivial) (hR.annResumed hi₁ hl₁ ha₁)

theorem wp_emitEach {Q : Unit → RealtimeView → Shared → Prop} {snap : ResponseSnapshot}
    (rest : List ServerEvent) (v : RealtimeView) (hi : R.inv v)
    (hl : v.site t = .finishing snap rest)
    (h : ∀ v', R.inv v' → v'.site t = .finishing snap [] → Q () v' v'.shared) :
    Wp R.contract t Q E (emitEach snap rest) v v.shared := by
  induction rest generalizing v with
  | nil => exact h v hi hl
  | cons e rest ih =>
    simp only [emitEach, wp_bind]
    exact wp_emit (hR.finishing hi hl) fun v' i hi' hl' _ => ih v' hi' hl'

/-- A finish returns where it set out, or past the last done event of its response. -/
theorem wp_finishResponse {Q : Bool → RealtimeView → Shared → Prop} {status : ResponseStatus}
    {tel : Option RealtimeResponseTelemetry} {c : Option ℕ} {l : Site}
    (hs : status ≠ .inProgress) (hl : calm l) (hq : R.At l t v s) (hm : R.may c s)
    (ho : t = .observer ∨ s.obs.llmTextOrigins = [])
    (h : ∀ b l' v' s', settled l' → R.At l' t v' s' → Q b v' s') :
    Wp R.contract t Q E (RealtimeLifecycle.finishResponse status tel c) v s := by
  unfold RealtimeLifecycle.finishResponse
  rw [wp_bind, wp_askConversation]
  cases hact : s.conv.active with
  | none =>
    simp only [completeResponse_of_none hact]
    exact h false l v s (settled_of_calm hl) hq
  | some r =>
    simp only [completeResponse_of_active hact, emitFinishFromSnapshot, wp_bind, wp_note]
    obtain ⟨e, rest, he⟩ := List.exists_cons_of_ne_nil
      (finishEvents_ne_nil (s.conv.snapshot r status) tel)
    simp only [he, emitEach, wp_bind]
    refine wp_emit (hR.finished hl hq hact hm hs ho he) fun v₁ i₁ hi₁ hl₁ _ => ?_
    refine wp_emitEach hR rest v₁ hi₁ hl₁ fun v₂ hi₂ hl₂ => ?_
    exact h true (.finishing (s.conv.snapshot r status) []) v₂ _ trivial (hR.finishReset hi₂ hl₂)

theorem Tame.announceResponse (o : List ℕ) : Tame R t (announceResponse o) :=
  ⟨fun hq hQ => wp_announceResponse hR hq fun _ v' s' hq' _ => hQ _ v' s' hq'⟩

theorem Tame.clearFrameDedupe : Tame R t clearFrameDedupe :=
  ⟨fun hq hQ => hQ _ _ _ (hR.aside trivial hq ⟨rfl, rfl, [_], rfl, by simp [asideEntry]⟩)⟩

end Response

section ObserverPrograms
variable {Q : Unit → RealtimeView → Shared → Prop} {E : Empty → RealtimeView → Shared → Prop}

theorem wp_flushLlmText {c : Option ℕ} (hq : R.Quiet .observer v s)
    (hs : s.conv.responseStatus = some .inProgress) (hm : R.may c s)
    (h : ∀ l v' s', calm l → R.At l .observer v' s' → R.may c s' → Q () v' s') :
    Wp R.contract .observer Q E (flushLlmText c) v s := by
  simp only [flushLlmText, wp_bind, wp_get]
  by_cases hgen : s.obs.llmTextGeneration = s.conv.responseGeneration
  swap
  · simpa [hgen] using h .ready v s trivial hq hm
  simp only [hgen, ne_eq, not_true_eq_false, if_false]
  by_cases hflush : s.obs.botTranscriptFromTts = false ∧ s.obs.llmTextBuffer ≠ [] ∧
      s.conv.assistantTranscript = []
  swap
  · rw [if_neg hflush]
    exact h .ready v s trivial hq hm
  have hbuf := hflush.2.1
  have htr := hflush.2.2
  obtain ⟨r, hact, -⟩ := active_of_inProgress hR hq hs
  rw [if_pos hflush, wp_bind, wp_appendAssistantTranscript hbuf]
  simp only [emitTranscriptDelta, wp_bind, wp_get]
  refine wp_emit (hR.flushed c hq hact htr hbuf hgen) fun v₁ i₁ hi₁ hl₁ ha₁ => ?_
  have hat : R.At (.flushed c) .observer v₁ v₁.shared := by
    rw [Reading.At, View.stop_self hl₁]
    exact hi₁
  exact h (.flushed c) v₁ _ trivial hat (hR.mayFlushed hi₁ hl₁ ha₁)

/-- `_finish_response` of the observer, for a trigger that may finish what is active. -/
theorem wp_observerFinish {status : ResponseStatus} {c : Option ℕ} (hs : status ≠ .inProgress)
    (hq : R.Quiet .observer v s) (hm : R.may c s)
    (h : ∀ v' s', R.Quiet .observer v' s' → Q () v' s') :
    Wp R.contract .observer Q E (RealtimeObserver.finishResponse status c) v s := by
  simp only [RealtimeObserver.finishResponse, wp_bind, wp_get]
  split
  · exact h _ _ (hR.cleared (l := .ready) false trivial hq)
  · rename_i hin
    simp only [wp_bind]
    refine wp_flushLlmText hR hq (not_not.mp hin) hm fun l₁ v₁ s₁ hl₁ hq₁ hm₁ => ?_
    have hq₂ : R.At l₁ .observer v₁ { s₁ with obs := { s₁.obs with metrics := [] } } :=
      hR.aside hl₁ hq₁ (.of_log_eq rfl rfl rfl)
    simp only [takeResponseTelemetry, wp_bind, wp_get, wp_onObserver, wp_pure]
    have hm₂ : R.may c { s₁ with obs := { s₁.obs with metrics := [] } } :=
      hR.mayKept (by rfl) hm₁
    refine wp_finishResponse hR hs hl₁ hq₂ hm₂ (.inl rfl) fun b l₃ v₃ s₃ hl₃ hq₃ => ?_
    exact (Tame.clearFrameDedupe hR).wp (hR.cleared false hl₃ hq₃) fun _ => h

theorem wp_rememberFrame {Q : Bool → RealtimeView → Shared → Prop} {id : ℕ}
    (hq : R.Quiet t v s) (hold : id ∈ s.obs.processedFrames → Q false v s)
    (hnew : ∀ s', id ∉ s.obs.processedFrames → R.Quiet t v s' → s'.conv = s.conv → Q true v s') :
    Wp R.contract t Q E (rememberFrame id) v s := by
  simp only [rememberFrame, wp_bind, wp_get]
  by_cases hmem : id ∈ s.obs.processedFrames
  · rw [if_pos hmem]
    exact hold hmem
  · rw [if_neg hmem]
    simp only [wp_bind, wp_onObserver, wp_note, wp_pure]
    exact hnew _ hmem (hR.aside trivial hq ⟨rfl, rfl, [_], rfl, by simp [asideEntry]⟩) rfl

theorem wp_botStartedSpeaking (hq : R.Quiet .observer v s)
    (h : ∀ v' s', R.Quiet .observer v' s' → Q () v' s') :
    Wp R.contract .observer Q E botStartedSpeaking v s := by
  simp only [botStartedSpeaking, wp_bind]
  refine wp_announceResponse hR hq fun b v₁ s₁ hq₁ _ => ?_
  cases b with
  | false => exact h _ _ hq₁
  | true => exact h _ _ (hR.cleared (l := .ready) false trivial hq₁)

theorem wp_ttsText {text : Text} {o : Option ℕ} (hq : R.Quiet .observer v s)
    (hf : text ≠ [] → R.fits s.conv.beginResponse.1.1 o.toList)
    (h : ∀ v' s', R.Quiet .observer v' s' → Q () v' s') :
    Wp R.contract .observer Q E (ttsText text o) v s := by
  unfold ttsText
  by_cases hne : text = []
  · rw [if_pos hne]
    exact h v s hq
  rw [if_neg hne, wp_bind]
  refine wp_announceResponse hR hq fun b v₁ s₁ hq₁ ha₁ => ?_
  simp only [wp_bind, wp_get]
  by_cases hsaid : text <:+ s₁.conv.assistantTranscript
  · rw [if_pos hsaid]
    exact h _ _ (hR.cleared (l := .ready) true trivial hq₁)
  rw [if_neg hsaid, wp_bind, wp_appendAssistantTranscript hne]
  simp only [emitTranscriptDelta, wp_bind, wp_get, wp_onObserver]
  exact wp_emit (hR.spoken hq₁ ha₁ (hf hne) hne)
    fun v₂ i₂ hi₂ hl₂ _ => h v₂ _ (quiet_at hR hi₂ hl₂ trivial)

theorem wp_llmText {text : Text} {o : Option ℕ} (hq : R.Quiet .observer v s)
    (hf : text ≠ [] → R.fits s.conv.beginResponse.1.1 o.toList)
    (h : ∀ v' s', R.Quiet .observer v' s' → Q () v' s') :
    Wp R.contract .observer Q E (llmText text o) v s := by
  unfold llmText
  by_cases hne : text = []
  · rw [if_pos hne]
    exact h v s hq
  rw [if_neg hne, wp_bind]
  refine wp_announceResponse hR hq fun b v₁ s₁ hq₁ ha₁ => ?_
  exact h _ _ (hR.buffered hq₁ ha₁ (hf hne))

theorem wp_pipelineError {message : String} {fatal : Bool} (hq : R.Quiet .observer v s)
    (h : ∀ v' s', R.Quiet .observer v' s' → Q () v' s') :
    Wp R.contract .observer Q E (pipelineError message fatal) v s := by
  unfold pipelineError
  rw [wp_bind]
  refine (Tame.emit hR rfl).wp hq fun _ v₁ s₁ hq₁ => ?_
  cases fatal with
  | false =>
    exact (Tame.onConversation hR slot_releaseResponseRequest).wp hq₁ fun _ => h
  | true =>
    simp only [if_true, wp_bind, wp_get]
    by_cases hreq : s₁.conv.responseRequested
    · rw [if_pos hreq, wp_bind]
      refine wp_announceResponse hR hq₁ fun b v₂ s₂ hq₂ _ => ?_
      exact wp_observerFinish hR (by decide) hq₂ (hR.mayNone s₂) h
    · rw [if_neg hreq]
      exact wp_observerFinish hR (by decide) hq₁ (hR.mayNone s₁) h

end ObserverPrograms

section TameObserver

theorem Tame.emitUserItemIfNeeded (item : ItemId) : Tame R t (emitUserItemIfNeeded item) := by
  refine (Tame.askConversation hR fun _ => rfl).bind fun new => ?_
  exact .ite (Tame.get.bind fun _ => Tame.emit hR rfl) (.pure ())

theorem Tame.emitUserTranscriptIfReady : Tame R t emitUserTranscriptIfReady := by
  refine (Tame.askConversation hR slot_readyUserTranscript).bind fun ready => ?_
  cases ready with
  | none => exact .pure ()
  | some turn =>
    exact (Tame.emitUserItemIfNeeded hR turn.1).bind fun _ => (Tame.emit hR rfl).bind fun _ =>
      Tame.onConversation hR fun _ => rfl

theorem Tame.userStarted : Tame R t userStarted :=
  (Tame.askConversation hR slot_beginUserTurn).bind fun _ => Tame.emit hR rfl

theorem Tame.userStopped : Tame R t userStopped :=
  (Tame.askConversation hR (f := ConversationState.stopUserTurn) slot_beginUserItem).bind
    fun turn => (Tame.emit hR rfl).bind fun _ => (Tame.emit hR rfl).bind fun _ =>
      (Tame.emitUserItemIfNeeded hR turn.1).bind fun _ => Tame.emitUserTranscriptIfReady hR

theorem Tame.interimTranscription (text : Text) : Tame R t (interimTranscription text) :=
  Tame.get.bind fun _ => .ite (.pure ())
    ((Tame.askConversation hR slot_beginUserItem).bind fun _ => Tame.emit hR rfl)

theorem Tame.finalTranscription (text : Text) : Tame R t (finalTranscription text) :=
  (Tame.onConversation hR (f := fun c => c.setUserTranscript text) slot_beginUserItem).bind
    fun _ => Tame.emitUserTranscriptIfReady hR

theorem Tame.rememberCall (callId : Text) : Tame R t (rememberCall callId) :=
  .ite (.pure ()) (Tame.onObserver hR fun _ => rfl)

theorem Tame.forgetCall (callId : Text) : Tame R t (forgetCall callId) :=
  .ite (.pure ()) (Tame.onObserver hR fun _ => rfl)

theorem Tame.emitServerToolStarted (call : ToolCall) : Tame R t (emitServerToolStarted call) :=
  Tame.get.bind fun _ => .ite (.pure ())
    ((Tame.rememberCall hR call.toolCallId).bind fun _ => Tame.emit hR rfl)

theorem Tame.emitServerToolsStarted (calls : List ToolCall) :
    Tame R t (emitServerToolsStarted calls) := by
  induction calls with
  | nil => exact .pure ()
  | cons call rest ih => exact (Tame.emitServerToolStarted hR call).bind fun _ => ih

theorem Tame.functionCallResult (call : ToolCall) (result : Text) :
    Tame R t (functionCallResult call result) :=
  (Tame.emit hR rfl).bind fun _ => Tame.forgetCall hR call.toolCallId

theorem Tame.rememberMetricFrame (id : ℕ) : Tame R t (rememberMetricFrame id) :=
  Tame.get.bind fun _ => .ite (.pure _)
    ((Tame.onObserver hR (by intro _; rfl)).bind fun _ => .pure _)

end TameObserver

section Frames
variable {Q : Unit → RealtimeView → Shared → Prop} {E : Empty → RealtimeView → Shared → Prop}

theorem wp_handleFrame {d : FramePushed} (hq : R.Quiet .observer v s)
    (hm : finishTrigger d = true → R.may d.origin s)
    (hf : carriesText d = true → R.fits s.conv.beginResponse.1.1 d.origin.toList)
    (hdown : d.downstream = true) (hedge : d.frame = .ttsStopped → d.fromOutputTransport = true)
    (h : ∀ v' s', R.Quiet .observer v' s' → Q () v' s') :
    Wp R.contract .observer Q E (handleFrame d) v s := by
  have done : ∀ a v' s', R.Quiet .observer v' s' → Q a v' s' := fun _ => h
  unfold handleFrame
  cases hframe : d.frame with
  | userStartedSpeaking => exact (Tame.userStarted hR).wp hq done
  | userStoppedSpeaking => exact (Tame.userStopped hR).wp hq done
  | interimTranscription text => exact (Tame.interimTranscription hR text).wp hq done
  | transcription text => exact (Tame.finalTranscription hR text).wp hq done
  | botStartedSpeaking => exact wp_botStartedSpeaking hR hq h
  | ttsText text =>
    exact wp_ttsText hR hq (fun hne => hf (by simp [carriesText, hframe, hdown, hne])) h
  | llmText text =>
    exact wp_llmText hR hq (fun hne => hf (by simp [carriesText, hframe, hdown, hne])) h
  | functionCallsStarted calls => exact (Tame.emitServerToolsStarted hR calls).wp hq done
  | functionCallInProgress call => exact (Tame.emitServerToolStarted hR call).wp hq done
  | functionCallResult call result => exact (Tame.functionCallResult hR call result).wp hq done
  | llmFullResponseEnd skipTts =>
    dsimp only
    by_cases hskip : skipTts = true
    · rw [if_pos hskip]
      exact wp_observerFinish hR (by decide) hq
        (hm (by simp [finishTrigger, hframe, hdown, hskip])) h
    · rw [if_neg hskip]
      exact h v s hq
  | ttsStopped =>
    exact wp_observerFinish hR (by decide) hq
      (hm (by simp [finishTrigger, hframe, hdown, hedge hframe])) h
  | error message fatal => exact h v s hq
  | interruption => exact h v s hq
  | metrics data => exact h v s hq
  | other => exact h v s hq

/-- A frame crossing that the scheduler may hand to the observer. -/
theorem wp_onPushFrame {d : FramePushed} (hi : R.inv v) (hl : v.site .observer = .ready)
    (ha : R.allowed v .observer (.push d)) (h : ∀ v' s', R.Quiet .observer v' s' → Q () v' s') :
    Wp R.contract .observer Q E (onPushFrame d) v v.shared := by
  have hq := quiet_at hR hi hl trivial
  have hm : ∀ {s' : Shared}, d.id ∉ v.shared.obs.processedFrames → s'.conv = v.shared.conv →
      finishTrigger d = true → R.may d.origin s' :=
    fun hnew hconv htrigger => hR.mayKept (by rw [hconv]) (hR.mayPush hi hl ha htrigger hnew)
  have hf : ∀ {s' : Shared}, d.id ∉ v.shared.obs.processedFrames → s'.conv = v.shared.conv →
      carriesText d = true → R.fits s'.conv.beginResponse.1.1 d.origin.toList := by
    intro s' hnew hconv htext
    rw [hconv]
    exact hR.textFits hi hl ha htext hnew
  unfold onPushFrame
  split
  · rw [wp_bind]
    refine wp_rememberFrame hR hq (fun _ => h v _ hq) fun s₁ _ hq₁ _ => ?_
    exact wp_pipelineError hR hq₁ h
  · rename_i hframe
    rw [wp_bind]
    refine wp_rememberFrame hR hq (fun _ => h v _ hq) fun s₁ hnew hq₁ hconv => ?_
    exact wp_observerFinish hR (by decide) hq₁ (hm hnew hconv (by simp [finishTrigger, hframe])) h
  · split_ifs with hfirst hup
    · exact h v _ hq
    · exact h v _ hq
    have hdown : d.downstream = true := by simpa using hup
    have hedge : d.frame = .ttsStopped → d.fromOutputTransport = true := by
      intro hstop
      by_contra hnot
      exact hfirst ⟨hstop, by simpa using hnot⟩
    split
    · rw [wp_bind]
      refine (Tame.rememberMetricFrame hR d.id).wp hq fun b v₁ s₁ hq₁ => ?_
      cases b with
      | false => exact h v₁ s₁ hq₁
      | true =>
        rw [if_pos rfl]
        exact (Tame.onObserver hR (by intro _; rfl)).wp hq₁ fun _ => h
    · split_ifs
      · rw [wp_bind]
        refine wp_rememberFrame hR hq (fun _ => h v _ hq) fun s₁ hnew hq₁ hconv => ?_
        exact wp_handleFrame hR hq₁ (hm hnew hconv) (hf hnew hconv) hdown hedge h
      · exact h v _ hq

end Frames

section Client
variable {Q : α → RealtimeView → Shared → Prop} {E : Empty → RealtimeView → Shared → Prop}

theorem Tame.emitError (eventId : Option Text) (message code : String) (param : Option String) :
    Tame R t (emitError eventId message code param) :=
  (Tame.emit hR rfl).bind fun _ => .pure none

theorem wp_serializeOutputAudio {Q : Unit → RealtimeView → Shared → Prop} {frame : OutputAudio}
    (hq : R.Quiet t v s) (h : ∀ v' s', R.Quiet t v' s' → Q () v' s') :
    Wp R.contract t Q E (serializeOutputAudio frame) v s := by
  unfold serializeOutputAudio
  by_cases hne : frame.audio = []
  · rw [if_pos hne]
    exact h v s hq
  rw [if_neg hne, wp_bind]
  refine wp_pause_site (hR.resampling frame.origin hq) fun v₁ i₁ hi₁ hl₁ ha₁ => ?_
  have hq₁ := quiet_at hR hi₁ hl₁ trivial
  rw [wp_bind, wp_get]
  by_cases hdrop : i₁ = .failed ∨ v₁.shared.conv.responseStatus ≠ some .inProgress
  · rw [if_pos hdrop]
    exact h v₁ _ hq₁
  rw [if_neg hdrop, wp_bind]
  obtain ⟨hok, hin⟩ := not_or.mp hdrop
  obtain ⟨r, hact, -⟩ := active_of_inProgress hR hq₁ (not_not.mp hin)
  have hfits := hR.audioFits hi₁ hl₁ ha₁ hok hact
  refine wp_announceResponse hR hq₁ fun b v₂ s₂ hq₂ ann₂ => ?_
  rw [beginResponse_of_active hact] at ann₂ ⊢
  rw [wp_bind, wp_get]
  exact wp_emit (hR.audio hq₂ ann₂ hfits)
    fun v₃ i₃ hi₃ hl₃ _ => h v₃ _ (quiet_at hR hi₃ hl₃ trivial)

/-- The cancel of the active response, whose buffered text may still be drained. -/
theorem wp_emitCancelledResponse {Q : Unit → RealtimeView → Shared → Prop} {r : ResponseId}
    (ht : t ≠ .observer) (hq : R.Quiet t v s) (hact : s.conv.active = some r) (hd : R.drain s)
    (h : ∀ v' s', R.Quiet t v' s' → Q () v' s') :
    Wp R.contract t Q E emitCancelledResponse v s := by
  -- forgetting the frames first makes no difference to what is drained
  let s₁ : Shared := { s with
    obs := { s.obs with processedFrames := ∅, frameHistory := [] }
    log := s.log ++ [.dedupeCleared] }
  have haside : Aside s s₁ := ⟨rfl, rfl, [.dedupeCleared], rfl, by simp [asideEntry]⟩
  have hq₁ : R.Quiet t v (RealtimeRules.drained s₁) :=
    hR.drained (hR.aside trivial hq haside) hact (hR.drainKept haside hd)
  have finish : ∀ s', R.Quiet t v s' → s'.obs.llmTextOrigins = [] → Wp R.contract t Q E (do
      let telemetry ← takeResponseTelemetry
      let _ ← RealtimeLifecycle.finishResponse .cancelled (some telemetry) none) v s' := by
    intro s' hq' ho'
    have hq₂ : R.Quiet t v { s' with obs := { s'.obs with metrics := [] } } :=
      hR.aside trivial hq' (.of_log_eq rfl rfl rfl)
    simp only [takeResponseTelemetry, wp_bind, wp_get, wp_onObserver, wp_pure]
    refine wp_finishResponse (l := .ready) hR (by decide) trivial hq₂ (hR.mayNone _) (.inr ho')
      fun _ l₃ v₃ s₃ hl₃ hq₃ => ?_
    exact h v₃ s₃ (hR.left hl₃ ht hq₃)
  simp only [emitCancelledResponse, onResponseCancelled, clearFrameDedupe, wp_bind, wp_get,
    wp_onObserver, wp_modify, wp_pure]
  by_cases hbuf : s.obs.llmTextBuffer ≠ [] ∧ s.conv.assistantTranscript = []
  · have hdr : RealtimeRules.drained s₁ =
        appended (llmCleared s₁ false) s.obs.llmTextBuffer s.obs.llmTextOrigins := if_pos hbuf
    rw [hdr] at hq₁
    rw [if_pos (by exact hbuf), wp_bind, wp_appendAssistantTranscript hbuf.1]
    exact finish _ hq₁ rfl
  · have hdr : RealtimeRules.drained s₁ = llmCleared s₁ false := if_neg hbuf
    rw [hdr] at hq₁
    rw [if_neg (by exact hbuf)]
    exact finish _ hq₁ rfl

theorem Tame.deserializeResponseCreate (eventId : Option Text) (override : Bool) :
    Tame R t (deserializeResponseCreate eventId override) := by
  refine Tame.get.bind fun s => .ite (Tame.emitError hR ..) (.ite (Tame.emitError hR ..) ?_)
  refine (Tame.askConversation hR slot_requestResponse).bind fun reserved => ?_
  exact .ite ((Tame.announceResponse hR []).bind fun _ => .pure _) (Tame.emitError hR ..)

theorem Tame.clientItemId (id : Option Text) : Tame R t (clientItemId id) := by
  cases id with
  | none => exact Tame.askConversation hR fun _ => rfl
  | some name => exact .pure _

theorem Tame.deserializeItemCreate (eventId : Option Text) (item : Option ClientItem) :
    Tame R t (deserializeItemCreate eventId item) := by
  refine Tame.get.bind fun s => ?_
  cases item with
  | none => exact Tame.emitError hR ..
  | some item =>
    refine .ite (Tame.emitError hR ..) (.ite (Tame.emitError hR ..) ?_)
    cases item.text with
    | none => exact Tame.emitError hR ..
    | some text =>
      refine .ite (Tame.emitError hR ..) ((Tame.clientItemId hR item.id).bind fun _ => ?_)
      exact (Tame.emit hR rfl).bind fun _ => .pure _

theorem Tame.audioAppend (eventId : Option Text) (bytes rate : ℕ) :
    Tame R t (deserialize ⟨eventId, .audioAppend bytes rate⟩) := by
  refine (Tame.resample hR none).bind fun i => .ite (Tame.emitError hR ..) (.ite (.pure _) ?_)
  refine (Tame.bytes hR (f := (· + bytes))).bind fun _ => ?_
  exact (Tame.onConversation hR fun c => slot_addInputAudio c bytes rate).bind fun _ => .pure _

theorem Tame.audioCommit (eventId : Option Text) :
    Tame R t (deserialize ⟨eventId, .audioCommit⟩) :=
  Tame.get.bind fun _ => .ite (Tame.emitError hR ..)
    ((Tame.bytes hR (f := fun _ => 0)).bind fun _ => .pure _)

theorem Tame.audioClear (eventId : Option Text) :
    Tame R t (deserialize ⟨eventId, .audioClear⟩) :=
  (Tame.bytes hR (f := fun _ => 0)).bind fun _ => (Tame.emit hR rfl).bind fun _ => .pure _

theorem wp_deserializeResponseCancel {Q : Option ReturnedFrame → RealtimeView → Shared → Prop}
    {eventId : Option Text} {response : Option ResponseId} (ht : t ≠ .observer)
    (hq : R.Quiet t v s)
    (hd : cancels s.conv (.responseCancel response) → R.drain s)
    (h : ∀ a v' s', R.Quiet t v' s' → Q a v' s') :
    Wp R.contract t Q E (deserializeResponseCancel eventId response) v s := by
  unfold deserializeResponseCancel
  rw [wp_bind, wp_get]
  by_cases hidle : s.conv.responseStatus ≠ some .inProgress ∨ s.conv.responseId = none
  · rw [if_pos hidle]
    exact h none v s hq
  rw [if_neg hidle]
  by_cases hother : cancelsOther response s.conv.responseId
  · rw [if_pos hother]
    exact (Tame.emitError hR ..).wp hq h
  rw [if_neg hother, wp_bind]
  have hin := not_not.mp (not_or.mp hidle).1
  obtain ⟨r, hact, -⟩ := active_of_inProgress hR hq hin
  exact wp_emitCancelledResponse hR ht hq hact (hd ⟨hin, by simpa using hother⟩)
    fun v₁ s₁ hq₁ => h _ v₁ s₁ hq₁

theorem wp_deserializeTruncate {Q : Option ReturnedFrame → RealtimeView → Shared → Prop}
    {eventId : Option Text} {item : Option ItemId} {audioEndMs : Option ℕ} (ht : t ≠ .observer)
    (hq : R.Quiet t v s)
    (hd : cancels s.conv (.itemTruncate item audioEndMs) → R.drain s)
    (h : ∀ a v' s', R.Quiet t v' s' → Q a v' s') :
    Wp R.contract t Q E (deserializeTruncate eventId item audioEndMs) v s := by
  unfold deserializeTruncate
  rw [wp_bind, wp_get]
  cases item with
  | none => exact (Tame.emitError hR ..).wp hq h
  | some item =>
    cases audioEndMs with
    | none => exact (Tame.emitError hR ..).wp hq h
    | some ms =>
      dsimp only
      by_cases hunknown : some item ≠ s.conv.assistantItemId ∧ s.conv.itemTranscripts item = none
      · rw [if_pos hunknown]
        exact (Tame.emitError hR ..).wp hq h
      rw [if_neg hunknown]
      by_cases hidle : s.conv.responseStatus ≠ some .inProgress
      · rw [if_pos hidle]
        exact h none v s hq
      rw [if_neg hidle, wp_bind]
      have hin := not_not.mp hidle
      obtain ⟨r, hact, -⟩ := active_of_inProgress hR hq hin
      have hknown : some item = s.conv.assistantItemId ∨ s.conv.itemTranscripts item ≠ none := by
        simpa only [not_and_or, not_not] using hunknown
      exact wp_emitCancelledResponse hR ht hq hact (hd ⟨hin, hknown⟩)
        fun v₁ s₁ hq₁ => h _ v₁ s₁ hq₁

/-- A client message that the scheduler may hand to the serializer. -/
theorem wp_deserialize {Q : Option ReturnedFrame → RealtimeView → Shared → Prop}
    {m : ClientMessage} (hi : R.inv v) (hl : v.site .client = .ready)
    (ha : R.allowed v .client (.receive m)) (h : ∀ a v' s', R.Quiet .client v' s' → Q a v' s') :
    Wp R.contract .client Q E (deserialize m) v v.shared := by
  have hq := quiet_at hR hi hl trivial
  have hd := hR.drainPush hi hl ha
  obtain ⟨eventId, event⟩ := m
  cases event with
  | responseCreate override => exact (Tame.deserializeResponseCreate hR eventId override).wp hq h
  | responseCancel response => exact wp_deserializeResponseCancel hR (by decide) hq hd h
  | itemTruncate item audioEndMs => exact wp_deserializeTruncate hR (by decide) hq hd h
  | itemCreate item => exact (Tame.deserializeItemCreate hR eventId item).wp hq h
  | audioAppend bytes rate => exact (Tame.audioAppend hR eventId bytes rate).wp hq h
  | audioCommit => exact (Tame.audioCommit hR eventId).wp hq h
  | audioClear => exact (Tame.audioClear hR eventId).wp hq h
  | sessionUpdate voice => exact ((Tame.emit hR rfl).bind fun _ => .pure _).wp hq h
  | refused message code param => exact (Tame.emitError hR ..).wp hq h

theorem wp_receive {Q : Unit → RealtimeView → Shared → Prop} {m : ClientMessage} (hi : R.inv v)
    (hl : v.site .client = .ready) (ha : R.allowed v .client (.receive m))
    (h : ∀ v' s', R.Quiet .client v' s' → Q () v' s') :
    Wp R.contract .client Q E (receive m) v v.shared := by
  unfold receive
  rw [wp_bind]
  refine wp_deserialize hR hi hl ha fun frame v₁ s₁ hq₁ => ?_
  cases frame with
  | none => exact h v₁ s₁ hq₁
  | some frame => exact (Tame.note hR rfl).wp hq₁ fun _ => h

/-- Whatever piece of work a task is given, it ends quietly. -/
theorem wp_work {Q : Unit → RealtimeView → Shared → Prop} {i : Reply} (hi : R.inv v)
    (hl : v.site t = .ready) (ha : R.allowed v t i)
    (h : ∀ v' s', R.Quiet t v' s' → Q () v' s') : Wp R.contract t Q E (work t i) v v.shared := by
  have hq := quiet_at hR hi hl trivial
  unfold work
  split
  · exact wp_onPushFrame hR hi hl ha h
  · exact wp_serializeOutputAudio hR hq h
  · exact wp_receive hR hi hl ha h
  · exact h v _ hq

end Client

/-- A reading whose rules hold keeps its contract over every program of the session. -/
theorem SlotRules.keeps : Keeps R.contract realtime closedWorld where
  refl _ _ := trivial
  trans _ _ _ _ _ _ := trivial
  outside _ _ _ h := h.elim
  body _ _ _ _ hi hl ha := wp_work hR hi hl ha fun _ _ hq => ⟨hq, fun _ _ => trivial⟩

/-- An invariant of the slot that no update breaks holds in every interleaving. -/
theorem SlotRules.invariant {maxFrames : ℕ} {textOpen : Bool}
    (h0 : R.inv (freshSession maxFrames textOpen).view)
    {p : Pool Empty Shared Site Reply Task Unit}
    (h : realtime.Reach R.allowed closedWorld (freshSession maxFrames textOpen) p) :
    R.inv p.view :=
  (SlotRules.keeps hR).invariant h0 h

end VoiceAgent.RealtimeRules
