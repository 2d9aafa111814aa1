import VoiceAgent.RealtimeRules

/-!
Each response generation is finished at most once. A completion takes the snapshot
and ends the progress of its generation in one atomic step, so no second finish can
take another; the done sequence is the snapshot's, however the tasks interleave
with it; and the reset at its end spares any generation that came after.
-/
namespace VoiceAgent.ResponseFinish

open RealtimeEvents Conversation Coroutine Interleaving RealtimeLifecycle RealtimeSerializer
  RealtimeRules

section Log

/-- The response that a done event finishes. -/
def doneOf : ServerEvent → Option (Option ResponseId)
  | .outputAudioDone r _ | .outputAudioTranscriptDone r _ _ | .contentPartDone r _ _
  | .outputItemDone r _ _ _ => some r
  | .responseDone r _ _ _ _ _ => some (some r)
  | _ => none

/-- The done events logged for a response, in order. -/
def doneEvents (r : Option ResponseId) (log : List Entry) : List ServerEvent :=
  (wire log).filter fun event => doneOf event = some r

/-- The snapshots taken so far. -/
def completions (log : List Entry) : List ResponseSnapshot :=
  log.filterMap fun
    | .completed snap _ => some snap
    | _ => none

/-- Entries that finish nothing. -/
def plain : Entry → Bool
  | .emitted event _ => (doneOf event).isNone
  | .completed .. | .reset .. => false
  | _ => true

variable {log es : List Entry} {r : Option ResponseId}

@[simp] theorem doneEvents_append : doneEvents r (log ++ es) =
    doneEvents r log ++ doneEvents r es := by simp [doneEvents]

@[simp] theorem completions_append : completions (log ++ es) =
    completions log ++ completions es := List.filterMap_append

theorem doneEvents_plain (h : ∀ e ∈ es, plain e = true) : doneEvents r es = [] := by
  simp only [doneEvents, List.filter_eq_nil_iff, decide_eq_true_eq]
  intro event he
  obtain ⟨origins, hmem⟩ := mem_wire.mp he
  have hp := h _ hmem
  simp only [plain, Option.isNone_iff_eq_none] at hp
  simp [hp]

theorem completions_plain (h : ∀ e ∈ es, plain e = true) : completions es = [] := by
  simp only [completions, List.filterMap_eq_nil_iff]
  intro e he
  have hp := h e he
  cases e with
  | completed snap cause => cases hp
  | _ => rfl

theorem plain_of_aside {e : Entry} (h : asideEntry e = true) : plain e = true := by
  cases e with
  | emitted event origins => cases event <;> simp_all [asideEntry, asideEvent, plain, doneOf,
      ServerEvent.response?]
  | completed | reset | appended => cases h
  | _ => rfl

end Log

section Sequence
variable {snap : ResponseSnapshot} {tel : Option RealtimeResponseTelemetry} {e : ServerEvent}

theorem doneOf_finishEvents (h : e ∈ finishEvents snap tel) :
    doneOf e = some (some snap.responseId) := by
  simp only [finishEvents, List.mem_append, List.mem_cons, List.not_mem_nil, or_false] at h
  rcases h with (h | h) | rfl | rfl | rfl
  · split at h <;> simp_all [doneOf]
  · split at h <;> simp_all [doneOf]
  all_goals rfl

/-- A done sequence carries nothing but what its snapshot holds. -/
theorem finishEvents_carry (h : e ∈ finishEvents snap tel) :
    e.response? = some (some snap.responseId, snap.itemId) ∧
      (∀ r x, e.reported? = some (r, x) → x = snap.transcript) ∧
      ∀ r status i itemStatus x tel', e = .responseDone r status i itemStatus x tel' →
        status = snap.status := by
  simp only [finishEvents, List.mem_append, List.mem_cons, List.not_mem_nil, or_false] at h
  rcases h with (h | h) | rfl | rfl | rfl
  · split at h <;> simp_all [ServerEvent.response?, ServerEvent.reported?]
  · split at h <;> simp_all [ServerEvent.response?, ServerEvent.reported?]
  all_goals simp_all [ServerEvent.response?, ServerEvent.reported?]

end Sequence

/-- What every interleaving keeps about completions and done sequences. -/
structure FinishInv (v : RealtimeView) : Prop where
  coherent : Coherent v.shared.conv
  once : (completions v.shared.log).Pairwise (·.generation ≠ ·.generation)
  bounded : ∀ snap ∈ completions v.shared.log,
    snap.generation ≤ v.shared.conv.responseGeneration ∧ snap.responseId = ⟨snap.generation⟩
  ended : ∀ snap ∈ completions v.shared.log,
    snap.generation = v.shared.conv.responseGeneration →
      v.shared.conv.responseStatus ≠ some .inProgress
  done : ∀ r, doneEvents r v.shared.log = [] ∨ ∃ snap ∈ completions v.shared.log, ∃ tel,
    r = some snap.responseId ∧ doneEvents r v.shared.log <+: finishEvents snap tel
  finishing : ∀ t snap rest, v.site t = .finishing snap rest →
    snap ∈ completions v.shared.log ∧
      ∃ tel, doneEvents (some snap.responseId) v.shared.log ++ rest = finishEvents snap tel
  alone : ∀ t u snap snap' rest rest', v.site t = .finishing snap rest →
    v.site u = .finishing snap' rest' → snap.generation = snap'.generation → t = u
  spared : ∀ g before after, .reset g before after ∈ v.shared.log →
    g ≤ before.responseGeneration ∧ (g = before.responseGeneration → before.active = none) ∧
      (g ≠ before.responseGeneration → after = before)

/-- What an update that finishes nothing does. -/
structure Onward (s s' : Shared) : Prop where
  coherent : Coherent s'.conv
  generation : s.conv.responseGeneration ≤ s'.conv.responseGeneration
  progress : s'.conv.responseStatus = some .inProgress →
    s.conv.responseGeneration < s'.conv.responseGeneration ∨
      s.conv.responseStatus = some .inProgress
  log : ∃ es, s'.log = s.log ++ es ∧ ∀ e ∈ es, plain e = true

variable {t : Task} {v : RealtimeView} {s s' s'' : Shared}

theorem Onward.refl (hc : Coherent s.conv) : Onward s s :=
  ⟨hc, le_rfl, .inr, [], by simp, by simp⟩

theorem Onward.trans (h : Onward s s') (h' : Onward s' s'') : Onward s s'' := by
  obtain ⟨es, hes, hp⟩ := h.log
  obtain ⟨es', hes', hp'⟩ := h'.log
  refine ⟨h'.coherent, h.generation.trans h'.generation, fun hin => ?_,
    es ++ es', by rw [hes', hes, List.append_assoc], fun e he => ?_⟩
  · rcases h'.progress hin with hlt | hin'
    · exact .inl (lt_of_le_of_lt h.generation hlt)
    · rcases h.progress hin' with hlt | hin''
      · exact .inl (lt_of_lt_of_le hlt h'.generation)
      · exact .inr hin''
  · rcases List.mem_append.mp he with he | he
    · exact hp e he
    · exact hp' e he

theorem Onward.emits (s : Shared) (hc : Coherent s.conv) {event : ServerEvent}
    (h : doneOf event = none) (origins : List ℕ) : Onward s (s.emits event origins) :=
  ⟨hc, le_rfl, .inr, [.emitted event origins], rfl, by simp [plain, h]⟩

/-- Stopping after an update that finishes nothing, at any site but a finish. -/
theorem FinishInv.stop {l : Site} (h : FinishInv v) (ho : Onward v.shared s')
    (hl : ∀ snap rest, l ≠ .finishing snap rest) : FinishInv (v.stop t l s') := by
  obtain ⟨es, hes, hplain⟩ := ho.log
  have hdone : ∀ r, doneEvents r s'.log = doneEvents r v.shared.log := fun r => by
    rw [hes, doneEvents_append, doneEvents_plain hplain, List.append_nil]
  have hcomp : completions s'.log = completions v.shared.log := by
    rw [hes, completions_append, completions_plain hplain, List.append_nil]
  have hsite : ∀ u snap rest, (v.stop t l s').site u = .finishing snap rest →
      v.site u = .finishing snap rest := by
    intro u snap rest hu
    by_cases hut : u = t
    · subst u
      exact absurd (by simpa using hu) (hl snap rest)
    · rwa [View.stop_site_of_ne _ hut] at hu
  refine ⟨ho.coherent, ?_, ?_, ?_, ?_, ?_, ?_, ?_⟩
  · simpa only [View.stop_shared, hcomp] using h.once
  · simp only [View.stop_shared, hcomp]
    intro snap hs
    obtain ⟨hle, hid⟩ := h.bounded snap hs
    exact ⟨hle.trans ho.generation, hid⟩
  · simp only [View.stop_shared, hcomp]
    intro snap hs hg hin
    have hle := (h.bounded snap hs).1
    have hgen := ho.generation
    rcases ho.progress hin with hlt | hin'
    · omega
    · exact h.ended snap hs (by omega) hin'
  · simpa only [View.stop_shared, hcomp, hdone] using h.done
  · intro u snap rest hu
    simpa only [View.stop_shared, hcomp, hdone] using h.finishing u snap rest (hsite u snap rest hu)
  · intro u w snap snap' rest rest' hu hw
    exact h.alone u w snap snap' rest rest' (hsite u snap rest hu) (hsite w snap' rest' hw)
  · intro g before after hr
    simp only [View.stop_shared, hes, List.mem_append] at hr
    rcases hr with hr | hr
    · exact h.spared g before after hr
    · exact absurd (hplain _ hr) (by simp [plain])

theorem FinishInv.onward {l l' : Site} (h : FinishInv (v.stop t l s)) (ho : Onward s s')
    (hl : ∀ snap rest, l' ≠ .finishing snap rest) : FinishInv (v.stop t l' s') := by
  simpa only [View.stop_stop] using FinishInv.stop (t := t) h ho hl

section Updates

theorem onward_opened (s : Shared) : Onward s (opened s) :=
  ⟨coherent_openResponse s.conv, Nat.le_succ _, fun _ => .inl (Nat.lt_succ_self _), [],
    by simp [opened], by simp⟩

theorem onward_aside (hc : Coherent s.conv) (h : Aside s s') : Onward s s' := by
  obtain ⟨hslot, -, es, hes, hp⟩ := h
  simp only [slot, Prod.mk.injEq] at hslot
  obtain ⟨hid, hst, hg, hit, -⟩ := hslot
  refine ⟨⟨fun r hr => ?_, fun hin => ?_⟩, hg.ge, fun hin => .inr (hst ▸ hin), es, hes,
    fun e he => plain_of_aside (hp e he)⟩
  · rw [hg]
    exact hc.response r (hid ▸ hr)
  · rw [hid, hit, hg]
    exact hc.item (hst ▸ hin)

theorem onward_appended (hc : Coherent s.conv) {text : Text} {origins : List ℕ} :
    Onward s (appended s text origins) := by
  have happ : Onward s { s with conv := s.conv.appendAssistantTranscript text } := by
    unfold ConversationState.appendAssistantTranscript
    split
    · exact ⟨hc, le_rfl, .inr, [], by simp, by simp⟩
    · cases hact : s.conv.active with
      | some r =>
        rw [beginResponse_of_active hact]
        exact ⟨hc.extendTranscript text, le_rfl, .inr, [], by simp, by simp⟩
      | none =>
        rw [beginResponse_of_none hact]
        exact ⟨(coherent_openResponse s.conv).extendTranscript text, Nat.le_succ _,
          fun _ => .inl (Nat.lt_succ_self _), [], by simp, by simp⟩
  refine happ.trans ⟨happ.coherent, le_rfl, .inr, _, rfl, ?_⟩
  simp [plain]

theorem onward_llmBuffered (hc : Coherent s.conv) {text : Text} {origins : List ℕ} :
    Onward s (llmBuffered s text origins) := ⟨hc, le_rfl, .inr, [], by simp [llmBuffered], by simp⟩

theorem onward_llmCleared (hc : Coherent s.conv) (b : Bool) : Onward s (llmCleared s b) :=
  ⟨hc, le_rfl, .inr, [], by simp [llmCleared], by simp⟩

theorem onward_deltaEmitted (hc : Coherent s.conv) {text : Text} {origins : List ℕ} :
    Onward s (deltaEmitted s text origins) := .emits s hc rfl origins

theorem onward_drained (hc : Coherent s.conv) : Onward s (drained s) := by
  have hclear := onward_llmCleared hc false
  unfold drained
  split
  · exact hclear.trans (onward_appended hclear.coherent)
  · exact hclear

end Updates

section Finish
variable {snap : ResponseSnapshot} {tel : Option RealtimeResponseTelemetry}
  {rest : List ServerEvent}

/-- The generation in progress has not been completed, so none of its done events are out. -/
theorem FinishInv.fresh (h : FinishInv v) {r : ResponseId} (hact : v.shared.conv.active = some r) :
    doneEvents (some r) v.shared.log = [] ∧
      ∀ snap ∈ completions v.shared.log, snap.generation ≠ v.shared.conv.responseGeneration := by
  obtain ⟨hr, -, hin, -⟩ := h.coherent.active_eq hact
  have hne : ∀ snap ∈ completions v.shared.log,
      snap.generation ≠ v.shared.conv.responseGeneration :=
    fun snap hs hg => h.ended snap hs hg hin
  refine ⟨?_, hne⟩
  rcases h.done (some r) with hnil | ⟨snap, hs, tel, hid, -⟩
  · exact hnil
  · have hgen := (h.bounded snap hs).2
    rw [← Option.some.inj hid, hr, ResponseId.mk.injEq] at hgen
    exact absurd hgen.symm (hne snap hs)

@[simp] theorem doneEvents_emits (r : Option ResponseId) (s : Shared) (e : ServerEvent)
    (origins : List ℕ) : doneEvents r (s.emits e origins).log =
      doneEvents r s.log ++ if doneOf e = some r then [e] else [] := by
  by_cases h : doneOf e = some r <;> simp [doneEvents, h]

@[simp] theorem completions_emits (s : Shared) (e : ServerEvent) (origins : List ℕ) :
    completions (s.emits e origins).log = completions s.log := by
  simp [Shared.emits, Shared.record, completions]

@[simp] theorem doneEvents_completed (r' : Option ResponseId) (s : Shared) (r : ResponseId)
    (status : ResponseStatus) (c : Option ℕ) :
    doneEvents r' (completed s r status c).log = doneEvents r' s.log := by
  simp [completed, doneEvents, wire]

@[simp] theorem completions_completed (s : Shared) (r : ResponseId) (status : ResponseStatus)
    (c : Option ℕ) : completions (completed s r status c).log =
      completions s.log ++ [s.conv.snapshot r status] := by
  simp [completed, completions]

@[simp] theorem completions_appended {text : Text} {origins : List ℕ} :
    completions (appended s text origins).log = completions s.log := by
  simp [appended, completions]

@[simp] theorem completions_drained : completions (drained s).log = completions s.log := by
  rcases drained_cases s with h | ⟨-, -, h⟩ <;> simp [h, llmCleared]

/-- Another task in the middle of its finish is not disturbed by events of other responses. -/
theorem FinishInv.others (h : FinishInv v) {u : Task} (hu : v.site u = .finishing snap rest)
    {r : ResponseId} (hr : r ≠ snap.responseId) {e : ServerEvent}
    (he : doneOf e = some (some r)) : ∃ tel,
      (doneEvents (some snap.responseId) v.shared.log ++
        if doneOf e = some (some snap.responseId) then [e] else []) ++ rest =
          finishEvents snap tel := by
  obtain ⟨-, tel, heq⟩ := h.finishing u snap rest hu
  refine ⟨tel, ?_⟩
  rw [if_neg (by simpa [he] using hr), List.append_nil, heq]

/-- A task that finishes a generation of its own leaves every generation to one task. -/
theorem FinishInv.alone_stop (h : FinishInv v) {site : Task → Site}
    (ht : site t = .finishing snap rest)
    (hother : ∀ u snap' rest', u ≠ t → site u = .finishing snap' rest' →
      v.site u = .finishing snap' rest')
    (hne : ∀ u snap' rest', u ≠ t → v.site u = .finishing snap' rest' →
      snap'.generation ≠ snap.generation) (u w : Task) (snap' snap'' : ResponseSnapshot)
    (rest' rest'' : List ServerEvent) (hu : site u = .finishing snap' rest')
    (hw : site w = .finishing snap'' rest'') (hg : snap'.generation = snap''.generation) :
    u = w := by
  by_cases hut : u = t
  · by_cases hwt : w = t
    · rw [hut, hwt]
    · subst u
      obtain ⟨rfl, rfl⟩ := Site.finishing.inj (ht.symm.trans hu)
      exact absurd hg.symm (hne w snap'' rest'' hwt (hother w snap'' rest'' hwt hw))
  · have hu' := hother u snap' rest' hut hu
    by_cases hwt : w = t
    · subst w
      obtain ⟨rfl, rfl⟩ := Site.finishing.inj (ht.symm.trans hw)
      exact absurd hg (hne u snap' rest' hut hu')
    · exact h.alone u w snap' snap'' rest' rest'' hu' (hother w snap'' rest'' hwt hw) hg

/-- Completing takes the snapshot and the first done event goes out with it. -/
theorem FinishInv.finished {r : ResponseId} {status : ResponseStatus} {c : Option ℕ}
    {e : ServerEvent} {l : Site} (h : FinishInv (v.stop t l s)) (hact : s.conv.active = some r)
    (hs : status ≠ .inProgress) (he : finishEvents (s.conv.snapshot r status) tel = e :: rest) :
    FinishInv (v.stop t (.finishing (s.conv.snapshot r status) rest)
      ((completed s r status c).emits e [])) := by
  obtain ⟨hfresh, hne⟩ := h.fresh hact
  obtain ⟨hr, -, -, -⟩ := h.coherent.active_eq hact
  have hcoh := Coherent.completeResponse h.coherent hs
  have hconv : (s.conv.completeResponse status).2.responseStatus = some status ∧
      (s.conv.completeResponse status).2.responseGeneration = s.conv.responseGeneration := by
    simp [ConversationState.completeResponse, hact, ConversationState.openClientText]
  have hmem : e ∈ finishEvents (s.conv.snapshot r status) tel := by
    rw [he]
    exact List.mem_cons_self
  have hdoneOf : doneOf e = some (some r) := doneOf_finishEvents hmem
  simp only [View.stop_shared] at hfresh hne hr hcoh
  have hother : ∀ u snap' rest', u ≠ t →
      (v.stop t (.finishing (s.conv.snapshot r status) rest)
        ((completed s r status c).emits e [])).site u = .finishing snap' rest' →
      (v.stop t l s).site u = .finishing snap' rest' := by
    intro u snap' rest' hut hu
    rw [View.stop_site_of_ne _ hut] at hu ⊢
    exact hu
  refine ⟨hcoh, ?_, ?_, ?_, ?_, ?_, ?_, ?_⟩
  · simp only [View.stop_shared, completions_emits, completions_completed, List.pairwise_append,
      List.pairwise_singleton, List.mem_singleton, forall_eq, true_and]
    exact ⟨h.once, hne⟩
  · simp only [View.stop_shared, completions_emits, completions_completed, List.mem_append,
      List.mem_singleton]
    rintro snap' (hs' | rfl)
    · obtain ⟨hle, hid⟩ := h.bounded snap' hs'
      exact ⟨hle.trans hconv.2.ge, hid⟩
    · exact ⟨hconv.2.ge, hr⟩
  · intro _ _ _ hin
    exact hs (Option.some.inj (hconv.1.symm.trans hin))
  · intro r'
    simp only [View.stop_shared, completions_emits, completions_completed, doneEvents_emits,
      doneEvents_completed, hdoneOf, Option.some.injEq]
    by_cases hr' : some r = r'
    · subst hr'
      refine .inr ⟨s.conv.snapshot r status, by simp, tel, rfl, ?_⟩
      rw [hfresh, he]
      simp
    · rw [if_neg hr', List.append_nil]
      rcases h.done r' with hnil | ⟨snap', hs', tel', hid, hpre⟩
      · exact .inl hnil
      · exact .inr ⟨snap', List.mem_append_left _ hs', tel', hid, hpre⟩
  · intro u snap' rest' hu
    simp only [View.stop_shared, completions_emits, completions_completed, doneEvents_emits,
      doneEvents_completed]
    by_cases hut : u = t
    · subst u
      simp only [View.stop_site_self, Site.finishing.injEq] at hu
      obtain ⟨rfl, rfl⟩ := hu
      refine ⟨by simp, tel, ?_⟩
      change (doneEvents (some r) s.log ++ if doneOf e = some (some r) then [e] else []) ++ rest = _
      rw [hfresh, hdoneOf, he]
      simp
    · have hu' := hother u snap' rest' hut hu
      have hs' := (h.finishing u snap' rest' hu').1
      have hid : r ≠ snap'.responseId := by
        intro hid
        have hgen := (h.bounded snap' hs').2
        rw [← hid, hr, ResponseId.mk.injEq] at hgen
        exact hne snap' hs' hgen.symm
      exact ⟨List.mem_append_left _ hs', h.others hu' hid hdoneOf⟩
  · -- a task that is already finishing has a generation that was completed before
    refine h.alone_stop (View.stop_site_self ..) hother fun u snap' rest' _ hu => ?_
    exact hne snap' (h.finishing u snap' rest' hu).1
  · intro g before after hmem
    simp only [View.stop_shared, completed, Shared.emits, Shared.record, List.mem_append,
      List.mem_singleton, reduceCtorEq, or_false] at hmem
    exact h.spared g before after hmem

/-- The next done event of the snapshot goes out. -/
theorem FinishInv.finishStep {e : ServerEvent} (h : FinishInv v)
    (hl : v.site t = .finishing snap (e :: rest)) :
    FinishInv (v.stop t (.finishing snap rest) (v.shared.emits e [])) := by
  obtain ⟨hs, tel, heq⟩ := h.finishing t snap (e :: rest) hl
  have hmem : e ∈ finishEvents snap tel := by
    rw [← heq]
    simp
  have hdoneOf : doneOf e = some (some snap.responseId) := doneOf_finishEvents hmem
  have hother : ∀ u snap' rest', u ≠ t →
      (v.stop t (.finishing snap rest) (v.shared.emits e [])).site u = .finishing snap' rest' →
      v.site u = .finishing snap' rest' := by
    intro u snap' rest' hut hu
    rwa [View.stop_site_of_ne _ hut] at hu
  refine ⟨h.coherent, ?_, ?_, ?_, ?_, ?_, ?_, ?_⟩
  · simpa only [View.stop_shared, completions_emits] using h.once
  · simp only [View.stop_shared, completions_emits]
    exact h.bounded
  · simp only [View.stop_shared, completions_emits]
    exact h.ended
  · intro r
    simp only [View.stop_shared, completions_emits, doneEvents_emits, hdoneOf, Option.some.injEq]
    by_cases hr : some snap.responseId = r
    · subst hr
      refine .inr ⟨snap, hs, tel, rfl, rest, ?_⟩
      simpa using heq
    · rw [if_neg hr, List.append_nil]
      exact h.done r
  · intro u snap' rest' hu
    simp only [View.stop_shared, completions_emits, doneEvents_emits]
    by_cases hut : u = t
    · subst u
      simp only [View.stop_site_self, Site.finishing.injEq] at hu
      obtain ⟨rfl, rfl⟩ := hu
      refine ⟨hs, tel, ?_⟩
      rw [hdoneOf, if_pos rfl, ← heq]
      simp
    · have hu' := hother u snap' rest' hut hu
      have hs' := (h.finishing u snap' rest' hu').1
      have hid : snap.responseId ≠ snap'.responseId := by
        intro hid
        rw [(h.bounded snap hs).2, (h.bounded snap' hs').2, ResponseId.mk.injEq] at hid
        exact hut (h.alone t u _ _ _ _ hl hu' hid).symm
      exact ⟨hs', h.others hu' hid hdoneOf⟩
  · refine h.alone_stop (View.stop_site_self ..) hother fun u snap' rest' hut hu hg => ?_
    exact hut (h.alone u t snap' snap rest' (e :: rest) hu hl hg)
  · intro g before after hmem
    simp only [View.stop_shared, Shared.emits, Shared.record, List.mem_append,
      List.mem_singleton, reduceCtorEq, or_false] at hmem
    exact h.spared g before after hmem

/-- The guarded reset: no response in progress loses its slot. -/
theorem FinishInv.finishReset (h : FinishInv v) (hl : v.site t = .finishing snap []) :
    FinishInv (v.stop t (.finishing snap []) (slotReset v.shared snap.generation)) := by
  obtain ⟨hs, -⟩ := h.finishing t snap [] hl
  have hgen : (v.shared.conv.resetResponseSlot snap.generation).responseGeneration =
      v.shared.conv.responseGeneration := by
    unfold ConversationState.resetResponseSlot
    split <;> rfl
  have hst : (v.shared.conv.resetResponseSlot snap.generation).responseStatus =
      some .inProgress → v.shared.conv.responseStatus = some .inProgress := by
    unfold ConversationState.resetResponseSlot
    split <;> simp
  have hcomp : completions (slotReset v.shared snap.generation).log =
      completions v.shared.log := by simp [slotReset, completions]
  have hdone : ∀ r, doneEvents r (slotReset v.shared snap.generation).log =
      doneEvents r v.shared.log := fun r => by simp [slotReset, doneEvents, wire]
  have hsite : (v.stop t (.finishing snap []) (slotReset v.shared snap.generation)).site =
      v.site := by
    rw [← hl, View.stop, Function.update_eq_self]
  refine ⟨h.coherent.resetResponseSlot snap.generation, ?_, ?_, ?_, ?_, ?_, ?_, ?_⟩
  · simpa only [View.stop_shared, hcomp] using h.once
  · simp only [View.stop_shared, hcomp]
    intro snap' hs'
    obtain ⟨hle, hid⟩ := h.bounded snap' hs'
    exact ⟨hle.trans hgen.ge, hid⟩
  · simp only [View.stop_shared, hcomp]
    exact fun snap' hs' hg hin => h.ended snap' hs' (hg.trans hgen) (hst hin)
  · simpa only [View.stop_shared, hcomp, hdone] using h.done
  · rw [hsite]
    simpa only [View.stop_shared, hcomp, hdone] using h.finishing
  · rw [hsite]
    exact h.alone
  · intro g before after hmem
    simp only [View.stop_shared, slotReset, List.mem_append, List.mem_singleton,
      Entry.reset.injEq] at hmem
    rcases hmem with hmem | ⟨rfl, rfl, rfl⟩
    · exact h.spared g before after hmem
    · refine ⟨(h.bounded snap hs).1, fun hg => ?_, fun hg => resetResponseSlot_of_ne hg⟩
      unfold ConversationState.active
      rw [if_neg (h.ended snap hs hg)]

end Finish

/-- The finish discipline asks nothing of the scheduler. -/
def finishReading (allowed : RealtimeView → Task → Reply → Prop) : Reading where
  inv := FinishInv
  allowed := allowed
  ann _ _ _ := True
  item _ _ := True
  fits _ _ := True
  may _ _ := True
  drain _ := True

theorem not_finishing_of_calm {l : Site} (h : calm l) :
    ∀ snap rest, l ≠ .finishing snap rest := by
  rintro snap rest rfl
  exact h

theorem finish_rules (allowed : RealtimeView → Task → Reply → Prop) :
    SlotRules (finishReading allowed) where
  quiet t h _ := h.stop (.refl h.coherent) nofun
  emitting h := h.onward (.refl h.coherent) nofun
  resampling o h := h.onward (.refl h.coherent) nofun
  aside hl h ha := h.onward (onward_aside h.coherent ha) (not_finishing_of_calm hl)
  created o h _ :=
    h.onward ((onward_opened _).trans (.emits _ (coherent_openResponse _) rfl _)) nofun
  annActive _ _ _ := trivial
  annResumed _ _ _ := trivial
  itemOf _ _ := trivial
  itemCreated h _ := h.onward ⟨⟨h.coherent.response, h.coherent.item⟩, le_rfl, .inr, _, rfl,
    by simp [plain, doneOf]⟩ nofun
  itemAdded h _ _ := h.onward (.emits _ h.coherent rfl _) nofun
  contentPart h _ := h.onward ⟨⟨h.coherent.response, h.coherent.item⟩, le_rfl, .inr, _, rfl,
    by simp [plain, doneOf]⟩ nofun
  audioFits _ _ _ _ _ := trivial
  audio h _ _ := h.onward (.emits _ h.coherent rfl _) nofun
  textFits _ _ _ _ _ := trivial
  spoken h _ _ _ :=
    have happ := onward_appended h.coherent
    have hclr := onward_llmCleared happ.coherent true
    h.onward ((happ.trans hclr).trans (onward_deltaEmitted hclr.coherent)) nofun
  buffered h _ _ := h.onward (onward_llmBuffered h.coherent) nofun
  cleared b _ h := h.onward (onward_llmCleared h.coherent b) nofun
  mayPush _ _ _ _ _ := trivial
  mayNone _ := trivial
  mayKept _ _ := trivial
  mayFlushed _ _ _ := trivial
  flushed c h _ _ _ _ :=
    have happ := onward_appended h.coherent
    h.onward (happ.trans (onward_deltaEmitted happ.coherent)) nofun
  slotId h hin := (h.coherent.item hin).1
  finished _ h hact _ hs _ he := h.finished hact hs he
  finishing h hl := h.finishStep hl
  finishReset h hl := h.finishReset hl
  left _ _ h := h.onward (.refl h.coherent) nofun
  drainPush _ _ _ _ := trivial
  drainKept _ _ := trivial
  drained h _ _ := h.onward (onward_drained h.coherent) nofun

theorem finishInv_fresh (maxFrames : ℕ) (textOpen : Bool) :
    FinishInv (freshSession maxFrames textOpen).view where
  coherent := ⟨by simp, by simp⟩
  once := by simp [completions]
  bounded := by simp [completions]
  ended := by simp [completions]
  done _ := .inl rfl
  finishing := by simp
  alone := by simp
  spared := by simp

theorem finishInv_reach {allowed : RealtimeView → Task → Reply → Prop} {maxFrames : ℕ}
    {textOpen : Bool} {p : Pool Empty Shared Site Reply Task Unit}
    (h : realtime.Reach allowed closedWorld (freshSession maxFrames textOpen) p) :
    FinishInv p.view :=
  (finish_rules allowed).invariant (finishInv_fresh maxFrames textOpen) h

/-- A generation is completed at most once; the done events out for a response are the
beginning of the one done sequence of its snapshot and carry what the snapshot holds;
a reset leaves the slot of another generation alone and never ends a response. -/
structure FinishedOnce (log : List Entry) : Prop where
  once : (completions log).Pairwise (·.generation ≠ ·.generation)
  named : ∀ snap ∈ completions log, snap.responseId = ⟨snap.generation⟩
  done : ∀ r, doneEvents r log = [] ∨ ∃ snap ∈ completions log, ∃ tel,
    r = some snap.responseId ∧ doneEvents r log <+: finishEvents snap tel ∧
    ∀ e ∈ doneEvents r log,
      e.response? = some (some snap.responseId, snap.itemId) ∧
      (∀ r x, e.reported? = some (r, x) → x = snap.transcript) ∧
      ∀ r status i itemStatus x tel', e = .responseDone r status i itemStatus x tel' →
        status = snap.status
  spared : ∀ g before after, .reset g before after ∈ log →
    g ≤ before.responseGeneration ∧ (g = before.responseGeneration → before.active = none) ∧
      (g ≠ before.responseGeneration → after = before)

/-- In every interleaving each generation is finished at most once. -/
theorem finished_once {maxFrames : ℕ} {textOpen : Bool}
    {p : Pool Empty Shared Site Reply Task Unit}
    (h : realtime.Reach anyReply closedWorld (freshSession maxFrames textOpen) p) :
    FinishedOnce p.shared.log := by
  have hinv := finishInv_reach h
  refine ⟨hinv.once, fun snap hs => (hinv.bounded snap hs).2, fun r => ?_, hinv.spared⟩
  rcases hinv.done r with hnil | ⟨snap, hs, tel, hid, hpre⟩
  · exact .inl hnil
  · exact .inr ⟨snap, hs, tel, hid, hpre, fun e he => finishEvents_carry (hpre.subset he)⟩

/-- A spoken turn, cancelled by the client while the TTS stop is being handled. -/
def racedFinish : List (System.Act Shared Reply Task) :=
  [.turn .observer (.push { id := 1, frame := .botStartedSpeaking }),
   .turn .observer .go, .turn .observer .go, .turn .observer .go, .turn .observer .go,
   .turn .observer (.push { id := 2, frame := .ttsStopped, fromOutputTransport := true }),
   .turn .observer .go,
   .turn .client (.receive { event := .responseCancel none }),
   .turn .client (.receive { event := .responseCreate false }),
   .turn .observer .go, .turn .observer .go, .turn .observer .go, .turn .observer .go]

theorem finished_once_raced :
    (doneEvents (some ⟨1⟩)
      (realtime.play (freshSession 4096 true) racedFinish).shared.log).length = 5 ∧
      FinishedOnce (realtime.play (freshSession 4096 true) racedFinish).shared.log := by
  exact ⟨by decide +kernel, finished_once (System.reach_play (by decide +kernel))⟩

end VoiceAgent.ResponseFinish
