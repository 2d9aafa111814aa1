import VoiceAgent.ResponseFinish

/-!
Frames carry no response id, so a trigger, a text or an audio chunk acts on whatever
response is active when it arrives. As long as each arrives, and goes on after an await,
while no later response has taken the slot, nothing that was produced for a
response completes a later one or is emitted under its ids.
-/
namespace VoiceAgent.StaleTriggers

open RealtimeEvents Conversation Coroutine Interleaving RealtimeLifecycle RealtimeSerializer
  RealtimeRules ResponseFinish

/-- An entry in which nothing of a response reaches a later one. -/
def Timely : Entry → Prop
  | .completed snap cause => ∀ g ∈ cause, snap.generation ≤ g
  | .emitted event origins => ∀ g ∈ origins, ∀ r? i?, event.response? = some (r?, i?) →
      (∀ r ∈ r?, r.generation ≤ g) ∧ ∀ k, i? = some (.assistant k) → k ≤ g
  | .appended generation _ origins => ∀ g ∈ origins, generation ≤ g
  | _ => True

/-- No response later than `g` is in progress. -/
def NoNewer (c : ConversationState) (g : ℕ) : Prop := ∀ r ∈ c.active, r.generation ≤ g

instance (c : ConversationState) (g : ℕ) : Decidable (NoNewer c g) :=
  inferInstanceAs (Decidable (∀ r ∈ c.active, r.generation ≤ g))

/-- A new frame of a response ends or speaks for no later one. -/
def FrameOnTime (s : Shared) (d : FramePushed) : Prop :=
  d.id ∉ s.obs.processedFrames → ∀ g ∈ d.origin,
    (finishTrigger d = true → NoNewer s.conv g) ∧
    (carriesText d = true → s.conv.beginResponse.1.1.generation ≤ g)

/-- What a cancel would append was buffered for the response it cancels. -/
def DrainOnTime (s : Shared) : Prop :=
  s.obs.llmTextBuffer = [] ∨ s.conv.assistantTranscript ≠ [] ∨
    s.obs.llmTextGeneration = s.conv.responseGeneration

def OnTimeAt (s : Shared) (t : Task) : Site → Reply → Prop
  | .ready, .push d => t = .observer → FrameOnTime s d
  | .ready, .receive m => t = .client → cancels s.conv m.event → DrainOnTime s
  | .resampling origin, i => i ≠ .failed → ∀ g ∈ origin, NoNewer s.conv g
  | .announcing r origins, _ => origins ≠ [] → s.conv.active = some r
  | .flushed cause, _ => ∀ g ∈ cause, NoNewer s.conv g
  | _, _ => True

/-- Whatever is handed to a task, or goes on after an await, finds no later response. -/
def onTime (v : RealtimeView) (t : Task) (i : Reply) : Prop := OnTimeAt v.shared t (v.site t) i

instance (s : Shared) (d : FramePushed) : Decidable (FrameOnTime s d) :=
  inferInstanceAs (Decidable (_ → ∀ g ∈ d.origin, _ ∧ _))

instance (s : Shared) : Decidable (DrainOnTime s) := inferInstanceAs (Decidable (_ ∨ _ ∨ _))

instance decidableOnTimeAt (s : Shared) (t : Task) : ∀ l i, Decidable (OnTimeAt s t l i)
  | .ready, .push d => inferInstanceAs (Decidable (t = .observer → FrameOnTime s d))
  | .ready, .receive m =>
    inferInstanceAs (Decidable (t = .client → cancels s.conv m.event → DrainOnTime s))
  | .resampling origin, i =>
    inferInstanceAs (Decidable (i ≠ .failed → ∀ g ∈ origin, NoNewer s.conv g))
  | .announcing r origins, _ =>
    inferInstanceAs (Decidable (origins ≠ [] → s.conv.active = some r))
  | .flushed cause, _ => inferInstanceAs (Decidable (∀ g ∈ cause, NoNewer s.conv g))
  | .ready, .go | .ready, .failed | .ready, .play _ | .emitting, _ | .finishing .., _ =>
    instDecidableTrue

instance (v : RealtimeView) (t : Task) (i : Reply) : Decidable (onTime v t i) :=
  decidableOnTimeAt v.shared t (v.site t) i

/-- The log is timely and the buffered LLM text belongs to no earlier response than the
one it would be flushed or drained into. -/
structure StaleInv (v : RealtimeView) : Prop where
  finish : FinishInv v
  timely : ∀ e ∈ v.shared.log, Timely e
  buffered : ∀ g ∈ v.shared.obs.llmTextOrigins, v.shared.obs.llmTextGeneration ≤ g
  current : turning (v.site .observer) → v.shared.obs.llmTextOrigins ≠ [] →
    ∃ r, v.shared.conv.active = some r ∧ ∀ g ∈ v.shared.obs.llmTextOrigins, r.generation ≤ g

variable {t : Task} {v : RealtimeView} {s s' : Shared} {r : ResponseId}

theorem timely_of_aside {e : Entry} (h : asideEntry e = true) : Timely e := by
  cases e with
  | emitted event origins =>
    simp only [asideEntry, Bool.and_eq_true, List.isEmpty_iff] at h
    obtain ⟨-, rfl⟩ := h
    simp [Timely]
  | completed | reset | appended => cases h
  | _ => trivial

theorem timely_unowned (event : ServerEvent) : Timely (.emitted event []) := by simp [Timely]

theorem site_observer_of_turning {l l' : Site} (h : t = .observer → turning l' → turning l)
    (hl : turning ((v.stop t l' s').site .observer)) : turning ((v.stop t l s).site .observer) := by
  by_cases ht : Task.observer = t
  · subst ht
    rw [View.stop_site_self] at hl ⊢
    exact h rfl hl
  · rwa [View.stop_site_of_ne _ ht] at hl ⊢

theorem StaleInv.at {l : Site} (h : StaleInv v) (hl : v.site t = l) :
    StaleInv (v.stop t l v.shared) := by rwa [View.stop_self hl]

/-- Stopping after an update that leaves the buffer and the active response as they are. -/
theorem StaleInv.keep {l l' : Site} (h : StaleInv (v.stop t l s)) (hf : FinishInv (v.stop t l' s'))
    (hlog : ∃ es, s'.log = s.log ++ es ∧ ∀ e ∈ es, Timely e) (hllm : llm s'.obs = llm s.obs)
    (hact : s'.conv.active = s.conv.active) (hturn : t = .observer → turning l' → turning l) :
    StaleInv (v.stop t l' s') := by
  obtain ⟨es, hes, htimely⟩ := hlog
  simp only [llm, Prod.mk.injEq] at hllm
  obtain ⟨-, hgen, horigins, -⟩ := hllm
  refine ⟨hf, fun e he => ?_, ?_, fun hl => ?_⟩
  · rw [View.stop_shared, hes, List.mem_append] at he
    rcases he with he | he
    · exact h.timely e he
    · exact htimely e he
  · rw [View.stop_shared, hgen, horigins]
    exact h.buffered
  · rw [View.stop_shared, horigins, hact]
    exact h.current (site_observer_of_turning hturn hl)

/-- Stopping anywhere with an empty buffer. -/
theorem StaleInv.empty {l l' : Site} (h : StaleInv (v.stop t l s))
    (hf : FinishInv (v.stop t l' s'))
    (hlog : ∃ es, s'.log = s.log ++ es ∧ ∀ e ∈ es, Timely e)
    (hnil : s'.obs.llmTextOrigins = []) : StaleInv (v.stop t l' s') := by
  obtain ⟨es, hes, htimely⟩ := hlog
  refine ⟨hf, fun e he => ?_, ?_, fun _ hne => ?_⟩
  · rw [View.stop_shared, hes, List.mem_append] at he
    rcases he with he | he
    · exact h.timely e he
    · exact htimely e he
  · rw [View.stop_shared, hnil]
    simp
  · exact absurd hnil hne

def staleReading : Reading where
  inv := StaleInv
  allowed := onTime
  ann r o s := o ≠ [] → s.conv.active = some r
  item _ _ := True
  fits r o := ∀ g ∈ o, r.generation ≤ g
  may c s := ∀ g ∈ c, NoNewer s.conv g
  drain := DrainOnTime

section Rules

theorem finishRules : SlotRules (finishReading onTime) := finish_rules onTime

/-- Text appended to a response and told under its ids, when it fits the response. -/
theorem timely_delta {text : Text} {o : List ℕ} (hc : Coherent s.conv) (hne : text ≠ [])
    (hact : o ≠ [] → s.conv.active = some r) (hfit : ∀ g ∈ o, r.generation ≤ g) :
    ∃ es, (deltaEmitted (appended s text o) text o).log = s.log ++ es ∧ ∀ e ∈ es, Timely e := by
  refine ⟨[.appended (s.conv.appendAssistantTranscript text).responseGeneration text o,
    .emitted (.outputAudioTranscriptDelta (appended s text o).conv.responseId
      (appended s text o).conv.assistantItemId text) o],
    by simp [deltaEmitted, Shared.emits, Shared.record, appended], fun e he => ?_⟩
  rcases List.eq_nil_or_concat o with rfl | hconcat
  · simp only [List.mem_cons, List.not_mem_nil, or_false] at he
    rcases he with rfl | rfl <;> simp [Timely]
  have ho : o ≠ [] := by
    obtain ⟨init, last, rfl⟩ := hconcat
    simp
  obtain ⟨hr, hi, -, hid⟩ := hc.active_eq (hact ho)
  simp only [List.mem_cons, List.not_mem_nil, or_false] at he
  rcases he with rfl | rfl
  · rw [extendTranscript_of_active (hact ho) hne]
    intro g hg
    have hle := hfit g hg
    rwa [hr] at hle
  · rw [appended_of_active (hact ho) hne]
    intro g hg r? i? hri
    have hle := hfit g hg
    rw [hr] at hle
    simp only [ServerEvent.response?, Option.some.injEq, Prod.mk.injEq] at hri
    obtain ⟨rfl, rfl⟩ := hri
    refine ⟨fun r' hr' => ?_, fun k hk => ?_⟩
    · have heq : s.conv.responseId = some r' := hr'
      rw [hid, Option.some.injEq] at heq
      rw [← heq, hr]
      exact hle
    · have heq : s.conv.assistantItemId = some (.assistant k) := hk
      rw [hi, Option.some.injEq, ItemId.assistant.injEq] at heq
      rw [← heq]
      exact hle

theorem stale_created (o : List ℕ) (h : StaleInv (v.stop t .ready s))
    (hact : s.conv.active = none) :
    StaleInv (v.stop t (.announcing ⟨s.conv.responseGeneration + 1⟩ o)
      ((opened s).emits (.responseCreated ⟨s.conv.responseGeneration + 1⟩) [])) := by
  refine ⟨finishRules.created o h.finish hact, fun e he => ?_, h.buffered, fun hl hne => ?_⟩
  · simp only [View.stop_shared, Shared.emits, Shared.record, List.mem_append,
      List.mem_singleton] at he
    rcases he with he | rfl
    · exact h.timely e he
    · exact timely_unowned _
  · obtain ⟨r, hr, -⟩ := h.current (site_observer_of_turning (fun _ _ => trivial) hl) hne
    rw [View.stop_shared, hact] at hr
    cases hr

/-- One event of no response's text or audio. -/
theorem StaleInv.tell {l l' : Site} {event : ServerEvent} (h : StaleInv (v.stop t l s))
    (hf : FinishInv (v.stop t l' s')) (hlog : s'.log = s.log ++ [.emitted event []])
    (hobs : s'.obs = s.obs) (hact : s'.conv.active = s.conv.active)
    (hturn : t = .observer → turning l' → turning l) : StaleInv (v.stop t l' s') :=
  h.keep hf ⟨_, hlog, by simp [Timely]⟩ (by rw [hobs]) hact hturn

theorem stale_audio {o : List ℕ} {x : Text} (h : StaleInv (v.stop t .ready s))
    (hact : o ≠ [] → s.conv.active = some r) (hfit : ∀ g ∈ o, r.generation ≤ g) :
    StaleInv (v.stop t .emitting
      (s.emits (.outputAudioDelta (some r) s.conv.assistantItemId x) o)) := by
  refine h.keep (h.finish.onward (.emits s h.finish.coherent rfl o) nofun)
    ⟨[_], rfl, fun e he => ?_⟩ rfl rfl fun _ _ => trivial
  obtain rfl := List.mem_singleton.mp he
  intro g hg r? i? hri
  obtain ⟨rfl, hi, -⟩ := h.finish.coherent.active_eq (hact (List.ne_nil_of_mem hg))
  rw [View.stop_shared] at hi
  simp only [ServerEvent.response?, Option.some.injEq, Prod.mk.injEq] at hri
  obtain ⟨rfl, rfl⟩ := hri
  refine ⟨fun r' hr' => ?_, fun k hk => ?_⟩
  · obtain rfl := Option.some.inj hr'
    exact hfit g hg
  · rw [hi, Option.some.injEq, ItemId.assistant.injEq] at hk
    rw [← hk]
    exact hfit g hg

theorem stale_spoken {o : List ℕ} {text : Text} (h : StaleInv (v.stop .observer .ready s))
    (hact : o ≠ [] → s.conv.active = some r) (hfit : ∀ g ∈ o, r.generation ≤ g)
    (hne : text ≠ []) : StaleInv (v.stop .observer .emitting
      (deltaEmitted (llmCleared (appended s text o) true) text o)) :=
  h.empty (finishRules.spoken (r := r) h.finish trivial trivial hne)
    (timely_delta h.finish.coherent hne hact hfit) rfl

theorem stale_buffered {o : List ℕ} {text : Text} (h : StaleInv (v.stop .observer .ready s))
    (hact : o ≠ [] → s.conv.active = some r) (hfit : ∀ g ∈ o, r.generation ≤ g) :
    StaleInv (v.stop .observer .ready (llmBuffered s text o)) := by
  have hcur := h.current (by simp [turning])
  simp only [View.stop_shared] at hcur
  -- old and new text belong to the active response or a later one
  have hall : s.obs.llmTextOrigins ++ o ≠ [] → ∃ r', s.conv.active = some r' ∧
      ∀ g ∈ s.obs.llmTextOrigins ++ o, r'.generation ≤ g := by
    intro hne
    by_cases ho : o = []
    · subst ho
      rw [List.append_nil] at hne ⊢
      exact hcur hne
    · refine ⟨r, hact ho, fun g hg => ?_⟩
      rcases List.mem_append.mp hg with hg | hg
      · obtain ⟨r', hr', hle⟩ := hcur (List.ne_nil_of_mem hg)
        obtain rfl : r = r' := Option.some.inj ((hact ho).symm.trans hr')
        exact hle g hg
      · exact hfit g hg
  refine ⟨h.finish.onward (onward_llmBuffered h.finish.coherent) nofun, h.timely,
    fun g hg => ?_, fun _ hne => hall hne⟩
  obtain ⟨r', hr', hle⟩ := hall (List.ne_nil_of_mem hg)
  obtain ⟨hr, -⟩ := h.finish.coherent.active_eq hr'
  have hle := hle g hg
  rwa [hr] at hle

theorem stale_flushed (c : Option ℕ) (h : StaleInv (v.stop .observer .ready s))
    (hact : s.conv.active = some r) (htr : s.conv.assistantTranscript = [])
    (hbuf : s.obs.llmTextBuffer ≠ []) (hgen : s.obs.llmTextGeneration = s.conv.responseGeneration) :
    StaleInv (v.stop .observer (.flushed c)
      (deltaEmitted (appended s s.obs.llmTextBuffer s.obs.llmTextOrigins)
        s.obs.llmTextBuffer s.obs.llmTextOrigins)) := by
  obtain ⟨hr, -⟩ := h.finish.coherent.active_eq hact
  have hfit : ∀ g ∈ s.obs.llmTextOrigins, r.generation ≤ g := by
    intro g hg
    have hle := h.buffered g hg
    rw [View.stop_shared, hgen] at hle
    rw [hr]
    exact hle
  refine h.keep (finishRules.flushed c h.finish hact htr hbuf hgen)
    (timely_delta h.finish.coherent hbuf (fun _ => hact) hfit) rfl ?_ fun _ hl => hl.elim
  rw [appended_of_active hact hbuf]
  rfl

theorem stale_finished {status : ResponseStatus} {tel : Option RealtimeResponseTelemetry}
    {c : Option ℕ} {e : ServerEvent} {rest : List ServerEvent} {l : Site}
    (h : StaleInv (v.stop t l s)) (hact : s.conv.active = some r)
    (hm : ∀ g ∈ c, NoNewer s.conv g) (hs : status ≠ .inProgress)
    (ho : t = .observer ∨ s.obs.llmTextOrigins = [])
    (he : finishEvents (s.conv.snapshot r status) tel = e :: rest) :
    StaleInv (v.stop t (.finishing (s.conv.snapshot r status) rest)
      ((completed s r status c).emits e [])) := by
  obtain ⟨hr, -⟩ := h.finish.coherent.active_eq hact
  refine ⟨h.finish.finished hact hs he, fun e' he' => ?_, h.buffered, fun hl hne => ?_⟩
  · simp only [View.stop_shared, completed, Shared.emits, Shared.record, List.append_assoc,
      List.mem_append, List.mem_singleton] at he'
    rcases he' with he' | rfl | rfl
    · exact h.timely e' he'
    · intro g hg
      have hle := hm g hg r hact
      rw [hr] at hle
      exact hle
    · exact timely_unowned e
  · rcases ho with rfl | hnil
    · rw [View.stop_site_self] at hl
      exact hl.elim
    · exact absurd hnil hne

theorem stale_reset {snap : ResponseSnapshot} (h : StaleInv v)
    (hl : v.site t = .finishing snap []) :
    StaleInv (v.stop t (.finishing snap []) (slotReset v.shared snap.generation)) := by
  obtain ⟨hs, -⟩ := h.finish.finishing t snap [] hl
  refine ⟨h.finish.finishReset hl, fun e he => ?_, h.buffered, fun hturn hne => ?_⟩
  · simp only [View.stop_shared, slotReset, List.mem_append, List.mem_singleton] at he
    rcases he with he | rfl
    · exact h.timely e he
    · trivial
  · have hsite : (v.stop t (.finishing snap []) (slotReset v.shared snap.generation)).site =
        v.site := by rw [← hl, View.stop, Function.update_eq_self]
    rw [hsite] at hturn
    obtain ⟨r, hr, hle⟩ := h.current hturn hne
    obtain ⟨-, -, hin, -⟩ := h.finish.coherent.active_eq hr
    have hg : snap.generation ≠ v.shared.conv.responseGeneration :=
      fun hg => h.finish.ended snap hs hg hin
    refine ⟨r, ?_, hle⟩
    change (v.shared.conv.resetResponseSlot snap.generation).active = some r
    rwa [resetResponseSlot_of_ne hg]

theorem stale_drained (h : StaleInv (v.stop t .ready s)) (hact : s.conv.active = some r)
    (hd : DrainOnTime s) : StaleInv (v.stop t .ready (drained s)) := by
  have hf := finishRules.drained h.finish hact trivial
  rcases drained_cases s with hdr | ⟨hbuf, htr, hdr⟩
  · rw [hdr] at hf ⊢
    exact h.empty hf ⟨[], by simp [llmCleared], by simp⟩ rfl
  · rw [hdr] at hf ⊢
    refine h.empty hf ⟨[_], rfl, fun e he => ?_⟩ rfl
    obtain rfl := List.mem_singleton.mp he
    have hgen : s.obs.llmTextGeneration = s.conv.responseGeneration := by
      rcases hd with hd | hd | hd
      · exact absurd hd hbuf
      · exact absurd htr hd
      · exact hd
    have hact' : (llmCleared s false).conv.active = some r := hact
    rw [extendTranscript_of_active hact' hbuf]
    intro g hg
    have hle := h.buffered g hg
    rw [View.stop_shared, hgen] at hle
    exact hle

end Rules

theorem stale_rules : SlotRules staleReading where
  quiet t h ht := (h.at rfl).keep (finishRules.quiet t h.finish ht) ⟨[], by simp, by simp⟩ rfl rfl
    fun _ _ => ht
  emitting h := h.keep (finishRules.emitting h.finish) ⟨[], by simp, by simp⟩ rfl rfl
    fun _ _ => trivial
  resampling o h := h.keep (finishRules.resampling o h.finish) ⟨[], by simp, by simp⟩ rfl rfl
    fun _ _ => trivial
  aside hl h ha := h.keep (finishRules.aside hl h.finish ha)
    (ha.log.imp fun _ hes => ⟨hes.1, fun e he => timely_of_aside (hes.2 e he)⟩) ha.llm
    (active_congr ha.slot) fun _ hturn => hturn
  created := stale_created
  annActive _ _ hact _ := hact
  annResumed _ hl ha := by
    unfold staleReading onTime at ha
    simp only [hl, OnTimeAt] at ha
    exact ha
  itemOf _ _ := trivial
  itemCreated h _ := h.tell (finishRules.itemCreated h.finish trivial) rfl rfl rfl
    fun _ _ => trivial
  itemAdded h _ _ := h.tell (finishRules.itemAdded h.finish trivial trivial) rfl rfl rfl
    fun _ _ => trivial
  contentPart h _ := h.tell (finishRules.contentPart h.finish trivial) rfl rfl rfl
    fun _ _ => trivial
  audioFits _ hl ha hok hact g hg := by
    unfold staleReading onTime at ha
    simp only [hl, OnTimeAt] at ha
    exact ha hok g (by simpa using hg) _ hact
  audio := stale_audio
  textFits hi hl ha htext hnew g hg := by
    unfold staleReading onTime at ha
    simp only [hl, OnTimeAt] at ha
    exact (ha trivial hnew g (by simpa using hg)).2 htext
  spoken := stale_spoken
  buffered := stale_buffered
  cleared b hl h := h.empty (finishRules.cleared b hl h.finish) ⟨[], by simp [llmCleared], by simp⟩
    rfl
  mayPush hi hl ha htrigger hnew g hg := by
    unfold staleReading onTime at ha
    simp only [hl, OnTimeAt] at ha
    exact (ha trivial hnew g hg).1 htrigger
  mayNone _ g hg := by cases hg
  mayKept hact hm g hg := by
    intro r hr
    exact hm g hg r (hact ▸ hr)
  flushed := stale_flushed
  mayFlushed _ hl ha := by
    unfold staleReading onTime at ha
    simp only [hl, OnTimeAt] at ha
    exact ha
  slotId h := finishRules.slotId h.finish
  finished _ h hact hm hs ho he := stale_finished h hact hm hs ho he
  finishing h hl := (h.at hl).tell (finishRules.finishing h.finish hl) rfl rfl rfl
    fun _ hturn => hturn
  finishReset := stale_reset
  left hl ht h := h.keep (finishRules.left hl ht h.finish) ⟨[], by simp, by simp⟩ rfl rfl
    fun hobs => absurd hobs ht
  drainPush _ hl ha hc := by
    unfold staleReading onTime at ha
    simp only [hl, OnTimeAt] at ha
    exact ha trivial hc
  drainKept ha hd := by
    have hslot := ha.slot
    have hllm := ha.llm
    simp only [slot, llm, Prod.mk.injEq] at hslot hllm
    obtain ⟨-, -, hg, -, htr, -⟩ := hslot
    change _ ∨ _ ∨ _ at hd ⊢
    rwa [htr, hllm.1, hllm.2.1, hg]
  drained := stale_drained

theorem staleInv_fresh (maxFrames : ℕ) (textOpen : Bool) :
    StaleInv (freshSession maxFrames textOpen).view where
  finish := finishInv_fresh maxFrames textOpen
  timely := by simp
  buffered := by simp
  current := by simp

/-- In every run in which each trigger, text and audio chunk finds no later response when
it arrives or goes on, none completes a later response or is told under its ids. -/
theorem stale_free {maxFrames : ℕ} {textOpen : Bool}
    {p : Pool Empty Shared Site Reply Task Unit}
    (h : realtime.Reach onTime closedWorld (freshSession maxFrames textOpen) p) :
    ∀ e ∈ p.shared.log, Timely e :=
  (stale_rules.invariant (staleInv_fresh maxFrames textOpen) h).timely

/-- A spoken response whose TTS stop arrives in time. -/
def spokenTurn : List (System.Act Shared Reply Task) :=
  [.turn .observer (.push { id := 1, frame := .ttsText "hi".toList, origin := some 1 }),
   .turn .observer .go, .turn .observer .go, .turn .observer .go, .turn .observer .go,
   .turn .observer .go,
   .turn .observer (.push ⟨2, .ttsStopped, true, true, some 1⟩),
   .turn .observer .go, .turn .observer .go, .turn .observer .go, .turn .observer .go,
   .turn .observer .go]

theorem stale_free_spoken :
    (completions (realtime.play (freshSession 4096 true) spokenTurn).shared.log).length = 1 ∧
      ∀ e ∈ (realtime.play (freshSession 4096 true) spokenTurn).shared.log, Timely e :=
  ⟨by decide +kernel, stale_free (System.reach_play (by decide +kernel))⟩

/-- The client cancels response 1 and at once creates response 2; the interruption that
the cancel returned reaches the observer after that. -/
def lateInterruption : List (System.Act Shared Reply Task) :=
  [.turn .observer (.push { id := 1, frame := .botStartedSpeaking, origin := some 1 }),
   .turn .observer .go, .turn .observer .go, .turn .observer .go, .turn .observer .go,
   .turn .client (.receive { event := .responseCancel none }),
   .turn .client .go, .turn .client .go, .turn .client .go, .turn .client .go, .turn .client .go,
   .turn .client (.receive { event := .responseCreate false }),
   .turn .client .go, .turn .client .go, .turn .client .go, .turn .client .go,
   .turn .observer (.push { id := 2, frame := .interruption, origin := some 1 })]

/-- Which response ended for which one's frame. -/
def endedBy : Entry → Option (ℕ × ℕ)
  | .completed snap cause => cause.map fun g => (snap.generation, g)
  | _ => none

/-- The interruption of response 1 completes response 2. -/
theorem late_interruption_completes :
    ∃ p, realtime.Reach anyReply closedWorld (freshSession 4096 true) p ∧
      ¬ ∀ e ∈ p.shared.log, Timely e := by
  refine ⟨realtime.play (freshSession 4096 true) lateInterruption,
    System.reach_play (by decide +kernel), fun h => ?_⟩
  have hmem : (2, 1) ∈ (realtime.play (freshSession 4096 true)
      lateInterruption).shared.log.filterMap endedBy := by decide +kernel
  obtain ⟨e, he, hsome⟩ := List.mem_filterMap.mp hmem
  cases e with
  | completed snap cause =>
    obtain ⟨g, rfl, hg⟩ := Option.map_eq_some_iff.mp hsome
    obtain ⟨hgen, rfl⟩ := Prod.mk.inj hg
    have hle := h _ he 1 rfl
    omega
  | _ => cases hsome

end VoiceAgent.StaleTriggers
