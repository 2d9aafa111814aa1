import VoiceAgent.ResponseFinish

/-!
The transcript deltas of a response add up to the transcript its done events
report. Spoken text and the flush at a finish append and emit in one atomic step.
A cancel only appends: it drains buffered LLM text without a delta, so the sum is
right exactly in the runs where no cancel finds text to drain.
-/
namespace VoiceAgent.TranscriptDeltas

open RealtimeEvents Conversation Coroutine Interleaving RealtimeLifecycle RealtimeSerializer
  RealtimeRules ResponseFinish

section Wire

/-- The text an event adds to the transcript of `r`. -/
def deltaFor (r : Option ResponseId) : ServerEvent → Text
  | .outputAudioTranscriptDelta r' _ text => if r' = r then text else []
  | _ => []

/-- All transcript deltas of a response, one after the other. -/
def deltas (r : Option ResponseId) (events : List ServerEvent) : Text :=
  events.flatMap (deltaFor r)

variable {r : Option ResponseId} {es es' : List ServerEvent} {e : ServerEvent}

@[simp] theorem deltas_append : deltas r (es ++ es') = deltas r es ++ deltas r es' := by
  simp [deltas]

@[simp] theorem deltas_single : deltas r [e] = deltaFor r e := by simp [deltas]

/-- Events that neither add to a transcript nor report one. -/
def Silent (e : ServerEvent) : Prop := (∀ r, deltaFor r e = []) ∧ e.reported? = none

theorem silent_of_aside (h : asideEvent e = true) : Silent e := by
  cases e <;> simp_all [asideEvent, Silent, deltaFor, ServerEvent.response?, ServerEvent.reported?]

theorem deltas_silent (h : ∀ e ∈ es, Silent e) : deltas r es = [] := by
  simp only [deltas, List.flatMap_eq_nil_iff]
  exact fun e he => (h e he).1 r

theorem deltaFor_finishEvents {snap : ResponseSnapshot} {tel : Option RealtimeResponseTelemetry}
    (h : e ∈ finishEvents snap tel) : deltaFor r e = [] := by
  have hdone := doneOf_finishEvents h
  cases e <;> simp_all [doneOf, deltaFor]

theorem reported_finishEvents {snap : ResponseSnapshot} {tel : Option RealtimeResponseTelemetry}
    {x : Text} (h : e ∈ finishEvents snap tel) (hrep : e.reported? = some (r, x)) :
    r = some snap.responseId ∧ x = snap.transcript := by
  have hdone := doneOf_finishEvents h
  refine ⟨?_, (finishEvents_carry h).2.1 r x hrep⟩
  cases e <;> simp_all [doneOf, ServerEvent.reported?]

end Wire

/-- The transcript reported for a response is the sum of its deltas. -/
def Sums (events : List ServerEvent) : Prop :=
  ∀ e ∈ events, ∀ r x, e.reported? = some (r, x) → deltas r events = x

/-- The transcript so far is the sum of the deltas so far. -/
structure DeltaInv (v : RealtimeView) : Prop where
  finish : FinishInv v
  progress : ∀ r, v.shared.conv.active = some r →
    deltas (some r) (wire v.shared.log) = v.shared.conv.assistantTranscript
  future : ∀ r : ResponseId, v.shared.conv.responseGeneration < r.generation →
    deltas (some r) (wire v.shared.log) = []
  snaps : ∀ snap ∈ completions v.shared.log,
    deltas (some snap.responseId) (wire v.shared.log) = snap.transcript
  reported : ∀ e ∈ wire v.shared.log, ∀ r x, e.reported? = some (r, x) →
    ∃ snap ∈ completions v.shared.log, r = some snap.responseId ∧ x = snap.transcript

theorem DeltaInv.sums {v : RealtimeView} (h : DeltaInv v) : Sums (wire v.shared.log) := by
  intro e he r x hrep
  obtain ⟨snap, hs, rfl, rfl⟩ := h.reported e he r x hrep
  exact h.snaps snap hs

variable {t : Task} {v : RealtimeView} {s s' : Shared} {r : ResponseId}

/-- Stopping after an update that neither appends, opens nor completes. -/
theorem DeltaInv.stop {l : Site} (es : List ServerEvent) (h : DeltaInv v)
    (hf : FinishInv (v.stop t l s'))
    (hact : ∀ r, s'.conv.active = some r → v.shared.conv.active = some r ∧
      s'.conv.assistantTranscript = v.shared.conv.assistantTranscript)
    (hg : s'.conv.responseGeneration = v.shared.conv.responseGeneration)
    (hcomp : completions s'.log = completions v.shared.log)
    (hw : wire s'.log = wire v.shared.log ++ es) (hes : ∀ e ∈ es, Silent e) :
    DeltaInv (v.stop t l s') := by
  have hdeltas : ∀ r, deltas r (wire s'.log) = deltas r (wire v.shared.log) := by
    intro r
    rw [hw, deltas_append, deltas_silent hes, List.append_nil]
  refine ⟨hf, fun r hr => ?_, fun r hr => ?_, fun snap hs => ?_, fun e he r x hrep => ?_⟩
  · obtain ⟨hold, htr⟩ := hact r hr
    rw [View.stop_shared, hdeltas, htr]
    exact h.progress r hold
  · rw [View.stop_shared, hdeltas]
    exact h.future r (by simpa only [View.stop_shared, hg] using hr)
  · rw [View.stop_shared, hcomp] at hs
    rw [View.stop_shared, hdeltas]
    exact h.snaps snap hs
  · rw [View.stop_shared, hw, List.mem_append] at he
    rw [View.stop_shared, hcomp]
    rcases he with he | he
    · exact h.reported e he r x hrep
    · rw [(hes e he).2] at hrep
      cases hrep

theorem DeltaInv.keep {l l' : Site} (es : List ServerEvent) (h : DeltaInv (v.stop t l s))
    (hf : FinishInv (v.stop t l' s'))
    (hact : ∀ r, s'.conv.active = some r → s.conv.active = some r ∧
      s'.conv.assistantTranscript = s.conv.assistantTranscript)
    (hg : s'.conv.responseGeneration = s.conv.responseGeneration)
    (hcomp : completions s'.log = completions s.log) (hw : wire s'.log = wire s.log ++ es)
    (hes : ∀ e ∈ es, Silent e) : DeltaInv (v.stop t l' s') := by
  rw [← View.stop_stop v t l l' s s'] at hf ⊢
  exact h.stop es hf hact hg hcomp hw hes

/-- No cancel is handled while LLM text is buffered that nobody has been told. -/
def nothingToDrain (v : RealtimeView) (t : Task) : Reply → Prop
  | .receive m => t = .client → v.site t = .ready → cancels v.shared.conv m.event →
      v.shared.obs.llmTextBuffer = [] ∨ v.shared.conv.assistantTranscript ≠ []
  | _ => True

instance (v : RealtimeView) (t : Task) : ∀ i, Decidable (nothingToDrain v t i)
  | .receive m => inferInstanceAs (Decidable (t = .client → v.site t = .ready →
      cancels v.shared.conv m.event →
        v.shared.obs.llmTextBuffer = [] ∨ v.shared.conv.assistantTranscript ≠ []))
  | .go | .failed | .push _ | .play _ => instDecidableTrue

def deltaReading : Reading where
  inv := DeltaInv
  allowed := nothingToDrain
  ann _ _ _ := True
  item _ _ := True
  fits _ _ := True
  may _ _ := True
  drain s := s.obs.llmTextBuffer = [] ∨ s.conv.assistantTranscript ≠ []

section Rules

theorem finishRules : SlotRules (finishReading nothingToDrain) := finish_rules nothingToDrain

/-- The response that text will be appended to, whether it is in progress or opened for it. -/
theorem DeltaInv.begun (h : DeltaInv (v.stop t .ready s)) :
    ∃ r, s.conv.beginResponse.2.active = some r ∧ s.conv.beginResponse.2.responseId = some r ∧
      r.generation = s.conv.beginResponse.2.responseGeneration ∧
      s.conv.responseGeneration ≤ r.generation ∧
      deltas (some r) (wire s.log) = s.conv.beginResponse.2.assistantTranscript ∧
      ∀ snap ∈ completions s.log, snap.responseId ≠ r := by
  cases hact : s.conv.active with
  | some r =>
    obtain ⟨hr, -, -, hid⟩ := h.finish.coherent.active_eq hact
    have hg : r.generation = s.conv.responseGeneration := by rw [hr]; rfl
    rw [beginResponse_of_active hact]
    refine ⟨r, hact, hid, hg, hg.ge, h.progress r hact, fun snap hs heq => ?_⟩
    have hgen := (h.finish.bounded snap hs).2
    rw [heq] at hgen
    exact (h.finish.fresh hact).2 snap hs (by rw [View.stop_shared, ← hg, hgen])
  | none =>
    rw [beginResponse_of_none hact]
    refine ⟨_, active_openResponse s.conv, rfl, rfl, Nat.le_succ _, ?_, fun snap hs heq => ?_⟩
    · exact h.future _ (Nat.lt_succ_self _)
    · obtain ⟨hle, hgen⟩ := h.finish.bounded snap hs
      rw [heq, ResponseId.mk.injEq] at hgen
      simp only [View.stop_shared] at hle
      omega

/-- Text appended and told in one step. -/
theorem DeltaInv.told {l : Site} {text : Text} (h : DeltaInv (v.stop t .ready s))
    (hf : FinishInv (v.stop t l s')) (hne : text ≠ [])
    (hconv : s'.conv = s.conv.appendAssistantTranscript text)
    (hcomp : completions s'.log = completions s.log)
    (hw : wire s'.log = wire s.log ++
      [.outputAudioTranscriptDelta s'.conv.responseId s'.conv.assistantItemId text]) :
    DeltaInv (v.stop t l s') := by
  obtain ⟨r₀, hact, hid, hg, hle, hsum, hother⟩ := h.begun
  have happ : s'.conv = s.conv.beginResponse.2.extendTranscript text := by
    rw [hconv, ConversationState.appendAssistantTranscript, if_neg hne]
  have hid' : s'.conv.responseId = some r₀ := by rw [happ]; exact hid
  have hact' : s'.conv.active = some r₀ := by rw [happ]; exact hact
  have hg' : s'.conv.responseGeneration = r₀.generation := by rw [happ, hg]; rfl
  have hdeltas : ∀ r, deltas r (wire s'.log) =
      deltas r (wire s.log) ++ if some r₀ = r then text else [] := by
    intro r
    rw [hw, deltas_append, deltas_single, hid']
    rfl
  refine ⟨hf, fun r hr => ?_, fun r hr => ?_, fun snap hs => ?_, fun e he r x hrep => ?_⟩
  · obtain rfl : r₀ = r := Option.some.inj (hact'.symm.trans hr)
    rw [View.stop_shared, hdeltas, if_pos rfl, hsum, happ]
    rfl
  · rw [View.stop_shared, hg'] at hr
    have hne' : some r₀ ≠ some r := by
      intro heq
      rw [Option.some.inj heq] at hr
      exact lt_irrefl _ hr
    rw [View.stop_shared, hdeltas, if_neg hne', List.append_nil]
    exact h.future r (lt_of_le_of_lt hle hr)
  · rw [View.stop_shared, hcomp] at hs
    have hne' : some r₀ ≠ some snap.responseId := fun heq =>
      hother snap hs (Option.some.inj heq).symm
    rw [View.stop_shared, hdeltas, if_neg hne', List.append_nil]
    exact h.snaps snap hs
  · rw [View.stop_shared, hw, List.mem_append, List.mem_singleton] at he
    rw [View.stop_shared, hcomp]
    rcases he with he | rfl
    · exact h.reported e he r x hrep
    · cases hrep

theorem delta_created (o : List ℕ) (h : DeltaInv (v.stop t .ready s))
    (hact : s.conv.active = none) :
    DeltaInv (v.stop t (.announcing ⟨s.conv.responseGeneration + 1⟩ o)
      ((opened s).emits (.responseCreated ⟨s.conv.responseGeneration + 1⟩) [])) := by
  have hdeltas : ∀ r, deltas r (wire ((opened s).emits
      (.responseCreated ⟨s.conv.responseGeneration + 1⟩) []).log) = deltas r (wire s.log) := by
    intro r
    rw [wire_emits, deltas_append, deltas_single]
    exact List.append_nil _
  refine ⟨finishRules.created o h.finish hact, fun r hr => ?_, fun r hr => ?_, fun snap hs => ?_,
    fun e he r x hrep => ?_⟩
  · obtain rfl := Option.some.inj hr
    rw [View.stop_shared, hdeltas]
    exact h.future _ (Nat.lt_succ_self _)
  · rw [View.stop_shared, hdeltas]
    exact h.future r (lt_trans (Nat.lt_succ_self _) hr)
  · rw [View.stop_shared, hdeltas]
    rw [View.stop_shared, completions_emits] at hs
    exact h.snaps snap hs
  · rw [View.stop_shared, wire_emits, List.mem_append, List.mem_singleton] at he
    rw [View.stop_shared, completions_emits]
    rcases he with he | rfl
    · exact h.reported e he r x hrep
    · cases hrep

/-- Nobody is told, and nothing is appended. -/
theorem DeltaInv.hush {l l' : Site} (h : DeltaInv (v.stop t l s))
    (hf : FinishInv (v.stop t l' s')) (hslot : slot s'.conv = slot s.conv)
    (hcomp : completions s'.log = completions s.log) (es : List ServerEvent)
    (hw : wire s'.log = wire s.log ++ es) (hes : ∀ e ∈ es, Silent e) :
    DeltaInv (v.stop t l' s') := by
  have hact := active_congr hslot
  simp only [slot, Prod.mk.injEq] at hslot
  obtain ⟨-, -, hg, -, htr, -⟩ := hslot
  exact h.keep es hf (fun r hr => ⟨hact.symm.trans hr, htr⟩) hg hcomp hw hes

theorem delta_aside {l : Site} (hl : calm l) (h : DeltaInv (v.stop t l s)) (ha : Aside s s') :
    DeltaInv (v.stop t l s') := by
  obtain ⟨es, hes, hp⟩ := ha.log
  refine h.hush (finishRules.aside hl h.finish ha) ha.slot ?_ (wire es)
    (by rw [hes, wire_append]) ?_
  · rw [hes, completions_append, completions_plain fun e he => plain_of_aside (hp e he),
      List.append_nil]
  · intro event he
    obtain ⟨origins, hmem⟩ := mem_wire.mp he
    have haside := hp _ hmem
    simp only [asideEntry, Bool.and_eq_true] at haside
    exact silent_of_aside haside.1

theorem delta_finished {status : ResponseStatus} {tel : Option RealtimeResponseTelemetry}
    {c : Option ℕ} {e : ServerEvent} {rest : List ServerEvent} {l : Site}
    (h : DeltaInv (v.stop t l s)) (hact : s.conv.active = some r)
    (hs : status ≠ .inProgress) (he : finishEvents (s.conv.snapshot r status) tel = e :: rest) :
    DeltaInv (v.stop t (.finishing (s.conv.snapshot r status) rest)
      ((completed s r status c).emits e [])) := by
  have hmem : e ∈ finishEvents (s.conv.snapshot r status) tel := by
    rw [he]
    exact List.mem_cons_self
  have hw : wire ((completed s r status c).emits e []).log = wire s.log ++ [e] := by simp
  have hdeltas : ∀ r', deltas r' (wire ((completed s r status c).emits e []).log) =
      deltas r' (wire s.log) := by
    intro r'
    rw [hw, deltas_append, deltas_single, deltaFor_finishEvents hmem, List.append_nil]
  have hg : (s.conv.completeResponse status).2.responseGeneration = s.conv.responseGeneration := by
    simp [ConversationState.completeResponse, hact, ConversationState.openClientText]
  refine ⟨h.finish.finished hact hs he, fun r' hr' => ?_, fun r' hr' => ?_, fun snap hs' => ?_,
    fun e' he' r' x hrep => ?_⟩
  · exact absurd (hr'.symm.trans (active_completeResponse hs)) (by simp)
  · rw [View.stop_shared, hdeltas]
    refine h.future r' ?_
    change (s.conv.completeResponse status).2.responseGeneration < r'.generation at hr'
    rwa [hg] at hr'
  · rw [View.stop_shared, completions_emits, completions_completed, List.mem_append,
      List.mem_singleton] at hs'
    rw [View.stop_shared, hdeltas]
    rcases hs' with hs' | rfl
    · exact h.snaps snap hs'
    · exact h.progress r hact
  · rw [View.stop_shared, hw, List.mem_append, List.mem_singleton] at he'
    rw [View.stop_shared, completions_emits, completions_completed]
    rcases he' with he' | rfl
    · obtain ⟨snap, hs', hid, hx⟩ := h.reported e' he' r' x hrep
      exact ⟨snap, List.mem_append_left _ hs', hid, hx⟩
    · refine ⟨s.conv.snapshot r status, by simp, ?_⟩
      exact reported_finishEvents hmem hrep

theorem delta_finishing {snap : ResponseSnapshot} {e : ServerEvent} {rest : List ServerEvent}
    (h : DeltaInv v) (hl : v.site t = .finishing snap (e :: rest)) :
    DeltaInv (v.stop t (.finishing snap rest) (v.shared.emits e [])) := by
  obtain ⟨hs, tel, heq⟩ := h.finish.finishing t snap (e :: rest) hl
  have hmem : e ∈ finishEvents snap tel := by
    rw [← heq]
    simp
  have hdeltas : ∀ r, deltas r (wire (v.shared.emits e []).log) =
      deltas r (wire v.shared.log) := by
    intro r
    rw [wire_emits, deltas_append, deltas_single, deltaFor_finishEvents hmem, List.append_nil]
  refine ⟨h.finish.finishStep hl, fun r hr => ?_, fun r hr => ?_, fun snap' hs' => ?_,
    fun e' he' r x hrep => ?_⟩
  · rw [View.stop_shared, hdeltas]
    exact h.progress r hr
  · rw [View.stop_shared, hdeltas]
    exact h.future r hr
  · rw [View.stop_shared, completions_emits] at hs'
    rw [View.stop_shared, hdeltas]
    exact h.snaps snap' hs'
  · rw [View.stop_shared, wire_emits, List.mem_append, List.mem_singleton] at he'
    rw [View.stop_shared, completions_emits]
    rcases he' with he' | rfl
    · exact h.reported e' he' r x hrep
    · exact ⟨snap, hs, reported_finishEvents hmem hrep⟩

theorem delta_reset {snap : ResponseSnapshot} (h : DeltaInv v)
    (hl : v.site t = .finishing snap []) :
    DeltaInv (v.stop t (.finishing snap []) (slotReset v.shared snap.generation)) := by
  have hg : (slotReset v.shared snap.generation).conv.responseGeneration =
      v.shared.conv.responseGeneration := by
    simp only [slotReset, ConversationState.resetResponseSlot]
    split <;> rfl
  have hw : wire (slotReset v.shared snap.generation).log = wire v.shared.log := by
    simp [slotReset, wire]
  have hcomp : completions (slotReset v.shared snap.generation).log =
      completions v.shared.log := by simp [slotReset, completions]
  refine h.stop [] (h.finish.finishReset hl) (fun r hr => ?_) hg hcomp (by simpa using hw)
    (by simp)
  change (v.shared.conv.resetResponseSlot snap.generation).active = some r at hr
  have hsame : (slotReset v.shared snap.generation).conv = v.shared.conv :=
    resetResponseSlot_of_active hr
  rw [resetResponseSlot_of_active hr] at hr
  exact ⟨hr, by rw [hsame]⟩

/-- A drain that finds nothing to append only forgets the buffer. -/
theorem delta_drained (h : DeltaInv (v.stop t .ready s))
    (hd : s.obs.llmTextBuffer = [] ∨ s.conv.assistantTranscript ≠ []) :
    DeltaInv (v.stop t .ready (drained s)) := by
  rcases drained_cases s with hdr | ⟨hbuf, htr, -⟩
  · rw [hdr]
    exact h.hush (h.finish.onward (onward_llmCleared h.finish.coherent false) nofun) rfl rfl []
      (by simp [llmCleared]) (by simp)
  · rcases hd with hd | hd
    · exact absurd hd hbuf
    · exact absurd htr hd

end Rules

theorem delta_rules : SlotRules deltaReading where
  quiet t h ht := h.stop [] (finishRules.quiet t h.finish ht) (fun _ hr => ⟨hr, rfl⟩) rfl rfl
    (by simp) (by simp)
  emitting h := h.hush (finishRules.emitting h.finish) rfl rfl [] (by simp) (by simp)
  resampling o h := h.hush (finishRules.resampling o h.finish) rfl rfl [] (by simp) (by simp)
  aside := delta_aside
  created := delta_created
  annActive _ _ _ := trivial
  annResumed _ _ _ := trivial
  itemOf _ _ := trivial
  itemCreated h _ := h.keep [_] (finishRules.itemCreated h.finish trivial)
    (fun _ hr => ⟨hr, rfl⟩) rfl (completions_emits ..) (wire_emits ..)
    (by simp [Silent, deltaFor, ServerEvent.reported?])
  itemAdded h _ _ := h.hush (finishRules.itemAdded h.finish trivial trivial) rfl
    (completions_emits ..) [_] (wire_emits ..) (by simp [Silent, deltaFor, ServerEvent.reported?])
  contentPart h _ := h.keep [_] (finishRules.contentPart h.finish trivial)
    (fun _ hr => ⟨hr, rfl⟩) rfl (completions_emits ..) (wire_emits ..)
    (by simp [Silent, deltaFor, ServerEvent.reported?])
  audioFits _ _ _ _ _ := trivial
  audio h _ _ := h.hush (finishRules.audio h.finish trivial trivial) rfl
    (completions_emits ..) [_] (wire_emits ..) (by simp [Silent, deltaFor, ServerEvent.reported?])
  textFits _ _ _ _ _ := trivial
  spoken {_ _ r _ _} h _ _ hne := h.told
    (finishRules.spoken (r := r) h.finish trivial trivial hne) hne rfl
    (by simp [deltaEmitted, llmCleared])
    (by simp [deltaEmitted, llmCleared, appended, wire, Shared.emits, Shared.record])
  buffered h _ _ := h.hush (h.finish.onward (onward_llmBuffered h.finish.coherent) nofun) rfl rfl []
    (by simp [llmBuffered]) (by simp)
  cleared b hl h := h.hush (finishRules.cleared b hl h.finish) rfl rfl [] (by simp [llmCleared])
    (by simp)
  mayPush _ _ _ _ _ := trivial
  mayNone _ := trivial
  mayKept _ _ := trivial
  mayFlushed _ _ _ := trivial
  flushed c h hact htr hbuf hgen := h.told (finishRules.flushed c h.finish hact htr hbuf hgen) hbuf
    rfl (by simp [deltaEmitted])
    (by simp [deltaEmitted, appended, wire, Shared.emits, Shared.record])
  slotId h := finishRules.slotId h.finish
  finished _ h hact _ hs _ he := delta_finished h hact hs he
  finishing := delta_finishing
  finishReset := delta_reset
  left hl ht h := h.hush (finishRules.left hl ht h.finish) rfl rfl [] (by simp) (by simp)
  drainPush hi hl ha hc := ha rfl hl hc
  drainKept ha hd := by
    have hslot := ha.slot
    have hllm := ha.llm
    simp only [slot, llm, Prod.mk.injEq] at hslot hllm
    obtain ⟨-, -, -, -, htr, -⟩ := hslot
    change _ = [] ∨ _ ≠ [] at hd ⊢
    rwa [htr, hllm.1]
  drained h _ hd := delta_drained h hd

theorem deltaInv_fresh (maxFrames : ℕ) (textOpen : Bool) :
    DeltaInv (freshSession maxFrames textOpen).view where
  finish := finishInv_fresh maxFrames textOpen
  progress := by simp [ConversationState.active]
  future := by simp [deltas]
  snaps := by simp [completions]
  reported := by simp

/-- In every run whose cancels find no untold text to drain, whatever finished a
response, its deltas add up to the transcript that its done events report. -/
theorem transcripts_sum {maxFrames : ℕ} {textOpen : Bool}
    {p : Pool Empty Shared Site Reply Task Unit}
    (h : realtime.Reach nothingToDrain closedWorld (freshSession maxFrames textOpen) p) :
    Sums (wire p.shared.log) :=
  (delta_rules.invariant (deltaInv_fresh maxFrames textOpen) h).sums

/-- LLM text that is never spoken, flushed when the reply ends. -/
def silentReply : List (System.Act Shared Reply Task) :=
  [.turn .observer (.push { id := 1, frame := .llmText "hi".toList }),
   .turn .observer .go, .turn .observer .go, .turn .observer .go, .turn .observer .go,
   .turn .observer (.push { id := 2, frame := .llmFullResponseEnd true }),
   .turn .observer .go, .turn .observer .go, .turn .observer .go, .turn .observer .go]

theorem transcripts_sum_silent :
    deltas (some ⟨1⟩) (wire (realtime.play (freshSession 4096 true) silentReply).shared.log) =
      "hi".toList ∧
    Sums (wire (realtime.play (freshSession 4096 true) silentReply).shared.log) :=
  ⟨by decide +kernel, transcripts_sum (System.reach_play (by decide +kernel))⟩

/-- The same text, with the response cancelled before it is flushed. -/
def cancelledReply : List (System.Act Shared Reply Task) :=
  [.turn .observer (.push { id := 1, frame := .llmText "hi".toList }),
   .turn .observer .go, .turn .observer .go, .turn .observer .go, .turn .observer .go,
   .turn .client (.receive { event := .responseCancel none }),
   .turn .client .go, .turn .client .go]

theorem cancel_drains_untold_text :
    ∃ p, realtime.Reach anyReply closedWorld (freshSession 4096 true) p ∧
      ¬ Sums (wire p.shared.log) := by
  refine ⟨realtime.play (freshSession 4096 true) cancelledReply,
    System.reach_play (by decide +kernel), fun h => ?_⟩
  have hmem : .outputAudioTranscriptDone (some ⟨1⟩) (some (.assistant 1)) "hi".toList ∈
      wire (realtime.play (freshSession 4096 true) cancelledReply).shared.log := by decide +kernel
  have hsum := h _ hmem (some ⟨1⟩) "hi".toList rfl
  have hnone : deltas (some ⟨1⟩)
      (wire (realtime.play (freshSession 4096 true) cancelledReply).shared.log) = [] := by
    decide +kernel
  rw [hnone] at hsum
  exact absurd hsum (by decide)

end VoiceAgent.TranscriptDeltas
