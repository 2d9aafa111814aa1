import VoiceAgent.ResponseFinish
import VoiceAgent.History

/-!
Every event of a response lies between its `response.created` and its
`response.done` and names the response's own item. `announce_response` holds the id
of its response across awaits but reads the slot again after each, so this needs
the response to be still active whenever the announcement goes on.
-/
namespace VoiceAgent.ResponseBracketing

open RealtimeEvents Conversation Coroutine Interleaving RealtimeLifecycle RealtimeSerializer
  RealtimeRules ResponseFinish History

section Wire

/-- The response has been created and is not done. -/
def Open (pre : List ServerEvent) (r : ResponseId) : Prop :=
  .responseCreated r ∈ pre ∧ ∀ status i itemStatus x tel,
    .responseDone r status i itemStatus x tel ∉ pre

/-- What the wire must have carried before an event of a response. -/
def Bracketed (pre : List ServerEvent) (event : ServerEvent) : Prop :=
  (∀ r? i?, event.response? = some (r?, i?) →
    ∃ r, r? = some r ∧ i? = some (.assistant r.generation) ∧ Open pre r) ∧
  ∀ i?, event = .assistantItemCreated i? →
    ∃ r : ResponseId, i? = some (.assistant r.generation) ∧ Open pre r

variable {pre : List ServerEvent} {event : ServerEvent} {r : ResponseId}

theorem bracketed_of_aside (h : asideEvent event = true) : Bracketed pre event := by
  cases event <;> simp_all [asideEvent, Bracketed, ServerEvent.response?]

theorem bracketed_created : Bracketed pre (.responseCreated r) := by
  simp [Bracketed, ServerEvent.response?]

theorem bracketed_item (h : Open pre r) :
    Bracketed pre (.assistantItemCreated (some (.assistant r.generation))) := by
  refine ⟨by simp [ServerEvent.response?], fun i? hi => ⟨r, ?_, h⟩⟩
  exact (ServerEvent.assistantItemCreated.inj hi).symm

theorem bracketed_response (h : Open pre r)
    (he : event.response? = some (some r, some (.assistant r.generation))) :
    Bracketed pre event := by
  refine ⟨fun r? i? hri => ?_, fun i? hi => ?_⟩
  · rw [he] at hri
    obtain ⟨rfl, rfl⟩ := Prod.mk.inj (Option.some.inj hri)
    exact ⟨r, rfl, rfl, h⟩
  · subst hi
    cases he

/-- In a done sequence `response.done` comes last. -/
theorem done_last {snap : ResponseSnapshot} {tel : Option RealtimeResponseTelemetry}
    {es rest : List ServerEvent} (h : es ++ event :: rest = finishEvents snap tel) :
    ∀ status i itemStatus x tel',
      .responseDone snap.responseId status i itemStatus x tel' ∉ es := by
  obtain ⟨init, last, hsplit, hinit⟩ : ∃ init last, finishEvents snap tel = init ++ [last] ∧
      ∀ status i itemStatus x tel',
        .responseDone snap.responseId status i itemStatus x tel' ∉ init := by
    refine ⟨(finishEvents snap tel).dropLast, _, (List.dropLast_append_getLast
      (finishEvents_ne_nil snap tel)).symm, ?_⟩
    cases ha : snap.audioDoneEmitted <;> cases ht : snap.transcriptDoneEmitted <;>
      simp [finishEvents, ha, ht]
  intro status i itemStatus x tel' hmem
  rw [hsplit] at h
  obtain ⟨post, last', hpost⟩ : ∃ post last', event :: rest = post ++ [last'] :=
    ⟨(event :: rest).dropLast, _, (List.dropLast_append_getLast (by simp)).symm⟩
  rw [hpost, ← List.append_assoc] at h
  have hes : es ++ post = init := List.append_inj_left' h rfl
  exact hinit status i itemStatus x tel' (by rw [← hes]; exact List.mem_append_left _ hmem)

end Wire

/-- The discipline of the wire, next to that of the finish. -/
structure BracketInv (v : RealtimeView) : Prop where
  finish : FinishInv v
  along : Along Bracketed (wire v.shared.log)
  begun : ∀ r, v.shared.conv.active = some r → .responseCreated r ∈ wire v.shared.log
  snaps : ∀ snap ∈ completions v.shared.log, .responseCreated snap.responseId ∈ wire v.shared.log ∧
    snap.itemId = some (.assistant snap.generation)

variable {t : Task} {v : RealtimeView} {s s' : Shared} {r : ResponseId}

/-- The response in progress is open on the wire. -/
theorem BracketInv.isOpen (h : BracketInv v) (hact : v.shared.conv.active = some r) :
    Open (wire v.shared.log) r := by
  refine ⟨h.begun r hact, fun status i itemStatus x tel hmem => ?_⟩
  have hnone := (h.finish.fresh hact).1
  simp only [doneEvents, List.filter_eq_nil_iff] at hnone
  exact hnone _ hmem (by simp [doneOf])

theorem BracketInv.item (h : BracketInv v) (hact : v.shared.conv.active = some r) :
    v.shared.conv.assistantItemId = some (.assistant r.generation) := by
  obtain ⟨rfl, hi, -⟩ := h.finish.coherent.active_eq hact
  exact hi

/-- Stopping after an update that opens and completes nothing. -/
theorem BracketInv.stop {l : Site} (es : List ServerEvent) (h : BracketInv v)
    (hf : FinishInv (v.stop t l s'))
    (hact : ∀ r, s'.conv.active = some r → v.shared.conv.active = some r)
    (hcomp : completions s'.log = completions v.shared.log)
    (hw : wire s'.log = wire v.shared.log ++ es)
    (halong : Along Bracketed (wire v.shared.log ++ es)) : BracketInv (v.stop t l s') := by
  refine ⟨hf, ?_, fun r hr => ?_, fun snap hs => ?_⟩
  · rw [View.stop_shared, hw]
    exact halong
  · rw [View.stop_shared, hw]
    exact List.mem_append_left _ (h.begun r (hact r hr))
  · rw [View.stop_shared, hcomp] at hs
    rw [View.stop_shared, hw]
    obtain ⟨hmem, hi⟩ := h.snaps snap hs
    exact ⟨List.mem_append_left _ hmem, hi⟩

/-- The same in the middle of a turn, when nobody is told. -/
theorem BracketInv.keep {l l' : Site} (h : BracketInv (v.stop t l s))
    (hf : FinishInv (v.stop t l' s'))
    (hact : ∀ r, s'.conv.active = some r → s.conv.active = some r)
    (hcomp : completions s'.log = completions s.log) (hw : wire s'.log = wire s.log) :
    BracketInv (v.stop t l' s') := by
  rw [← View.stop_stop v t l l' s s'] at hf ⊢
  exact h.stop [] hf hact hcomp (by simpa using hw) (by simpa using h.along)

/-- The same after one event of the response in progress, or of none. -/
theorem BracketInv.tell {l : Site} {e : ServerEvent} (h : BracketInv (v.stop t .ready s))
    (hf : FinishInv (v.stop t l s'))
    (hact : ∀ r, s'.conv.active = some r → s.conv.active = some r)
    (hcomp : completions s'.log = completions s.log) (hw : wire s'.log = wire s.log ++ [e])
    (he : Bracketed (wire s.log) e) : BracketInv (v.stop t l s') := by
  rw [← View.stop_stop v t .ready l s s'] at hf ⊢
  exact h.stop [e] hf hact hcomp hw (along_concat.mpr ⟨h.along, he⟩)

/-- `announce_response` goes on only while the response it announces is active. -/
def announcesActive (v : RealtimeView) (t : Task) (_ : Reply) : Prop :=
  ∀ r ∈ (v.site t).announced, v.shared.conv.active = some r.1

instance (v : RealtimeView) (t : Task) (i : Reply) : Decidable (announcesActive v t i) :=
  inferInstanceAs (Decidable (∀ r ∈ (v.site t).announced, v.shared.conv.active = some r.1))

def bracketReading : Reading where
  inv := BracketInv
  allowed := announcesActive
  ann r _ s := s.conv.active = some r
  item r i := i = some (.assistant r.generation)
  fits _ _ := True
  may _ _ := True
  drain _ := True

section Rules

/-- The finish discipline of the same runs. -/
theorem finishRules : SlotRules (finishReading announcesActive) := finish_rules announcesActive

theorem bracket_created (o : List ℕ) (h : BracketInv (v.stop t .ready s))
    (hact : s.conv.active = none) :
    BracketInv (v.stop t (.announcing ⟨s.conv.responseGeneration + 1⟩ o)
      ((opened s).emits (.responseCreated ⟨s.conv.responseGeneration + 1⟩) [])) := by
  refine ⟨finishRules.created o h.finish hact, ?_, fun r hr => ?_, fun snap hs => ?_⟩
  · rw [View.stop_shared, wire_emits]
    exact along_concat.mpr ⟨h.along, bracketed_created⟩
  · obtain rfl := Option.some.inj hr
    simp
  · simp only [View.stop_shared, completions_emits] at hs
    obtain ⟨hmem, hi⟩ := h.snaps snap hs
    rw [View.stop_shared, wire_emits]
    exact ⟨List.mem_append_left _ hmem, hi⟩

theorem bracket_item (o : List ℕ) (h : BracketInv (v.stop t .ready s))
    (hact : s.conv.active = some r) :
    BracketInv (v.stop t (.announcing r o)
      ((itemFlagged s).emits (.assistantItemCreated s.conv.assistantItemId) [])) := by
  refine h.tell (finishRules.itemCreated h.finish trivial) (fun _ hr => hr)
    (completions_emits ..) (wire_emits ..) ?_
  have hi : s.conv.assistantItemId = _ := h.item hact
  rw [hi]
  exact bracketed_item (h.isOpen hact)

/-- Any event of the response in progress that names its item. -/
theorem bracket_emits {l : Site} {e : ServerEvent} {origins : List ℕ}
    (h : BracketInv (v.stop t .ready s)) (hact : s.conv.active = some r)
    (hf : FinishInv (v.stop t l (s.emits e origins)))
    (he : e.response? = some (some r, some (.assistant r.generation))) :
    BracketInv (v.stop t l (s.emits e origins)) :=
  h.tell hf (fun _ hr => hr) (completions_emits ..) (wire_emits ..)
    (bracketed_response (h.isOpen hact) he)

/-- The transcript delta after text of the response in progress was appended. -/
theorem bracket_delta {l : Site} {text : Text} {origins : List ℕ}
    (h : BracketInv (v.stop t .ready s)) (hact : s.conv.active = some r)
    (hf : FinishInv (v.stop t l (deltaEmitted s text origins))) :
    BracketInv (v.stop t l (deltaEmitted s text origins)) := by
  refine bracket_emits h hact hf ?_
  obtain ⟨-, -, -, hid⟩ := h.finish.coherent.active_eq hact
  have hi : s.conv.assistantItemId = _ := h.item hact
  rw [View.stop_shared] at hid
  simp [ServerEvent.response?, hid, hi]

theorem bracket_appended {text : Text} {origins : List ℕ} (h : BracketInv (v.stop t .ready s))
    (hact : s.conv.active = some r) (hne : text ≠ []) :
    BracketInv (v.stop t .ready (appended s text origins)) := by
  have hf : FinishInv (v.stop t .ready (appended s text origins)) :=
    h.finish.onward (onward_appended h.finish.coherent) nofun
  rw [appended_of_active hact hne] at hf ⊢
  exact h.keep hf (fun _ hr => hr) (by simp [completions]) (by simp [wire])

theorem bracket_cleared {l : Site} (b : Bool) (h : BracketInv (v.stop t l s)) :
    BracketInv (v.stop t .ready (llmCleared s b)) :=
  h.keep (h.finish.onward (onward_llmCleared h.finish.coherent b) nofun) (fun _ hr => hr) rfl rfl

theorem bracket_finished {status : ResponseStatus} {tel : Option RealtimeResponseTelemetry}
    {c : Option ℕ} {e : ServerEvent} {rest : List ServerEvent} {l : Site}
    (h : BracketInv (v.stop t l s)) (hact : s.conv.active = some r)
    (hs : status ≠ .inProgress) (he : finishEvents (s.conv.snapshot r status) tel = e :: rest) :
    BracketInv (v.stop t (.finishing (s.conv.snapshot r status) rest)
      ((completed s r status c).emits e [])) := by
  have hw : wire ((completed s r status c).emits e []).log = wire s.log ++ [e] := by
    simp
  have hi : s.conv.assistantItemId = _ := h.item hact
  obtain ⟨hr, -, -⟩ := h.finish.coherent.active_eq hact
  have hmem : e ∈ finishEvents (s.conv.snapshot r status) tel := by
    rw [he]
    exact List.mem_cons_self
  refine ⟨h.finish.finished hact hs he, ?_, fun r' hr' => ?_, fun snap hs' => ?_⟩
  · rw [View.stop_shared, hw]
    refine along_concat.mpr ⟨h.along, bracketed_response (h.isOpen hact) ?_⟩
    rw [(finishEvents_carry hmem).1, ← hi]
    rfl
  · exact absurd (hr'.symm.trans (active_completeResponse hs)) (by simp)
  · simp only [View.stop_shared, completions_emits, completions_completed, List.mem_append,
      List.mem_singleton] at hs'
    rw [View.stop_shared, hw]
    rcases hs' with hs' | rfl
    · obtain ⟨hold, hi'⟩ := h.snaps snap hs'
      exact ⟨List.mem_append_left _ hold, hi'⟩
    · refine ⟨List.mem_append_left _ (h.begun r hact), ?_⟩
      change s.conv.assistantItemId = some (.assistant s.conv.responseGeneration)
      rw [hr] at hi
      exact hi

theorem bracket_finishing {snap : ResponseSnapshot} {e : ServerEvent} {rest : List ServerEvent}
    (h : BracketInv v) (hl : v.site t = .finishing snap (e :: rest)) :
    BracketInv (v.stop t (.finishing snap rest) (v.shared.emits e [])) := by
  obtain ⟨hs, tel, heq⟩ := h.finish.finishing t snap (e :: rest) hl
  obtain ⟨hcreated, hi⟩ := h.snaps snap hs
  obtain ⟨-, hid⟩ := h.finish.bounded snap hs
  have hopen : Open (wire v.shared.log) snap.responseId := by
    refine ⟨hcreated, fun status i itemStatus x tel' hmem => ?_⟩
    refine done_last heq status i itemStatus x tel' ?_
    simp only [doneEvents, List.mem_filter]
    exact ⟨hmem, by simp [doneOf]⟩
  have hmem : e ∈ finishEvents snap tel := by
    rw [← heq]
    simp
  refine h.stop [e] (h.finish.finishStep hl) (fun _ hr => hr) (completions_emits ..)
    (wire_emits ..) (along_concat.mpr ⟨h.along, bracketed_response hopen ?_⟩)
  rw [(finishEvents_carry hmem).1, hi, hid]

theorem bracket_spoken {text : Text} {origins : List ℕ}
    (h : BracketInv (v.stop .observer .ready s)) (hact : s.conv.active = some r) (hne : text ≠ []) :
    BracketInv (v.stop .observer .emitting (deltaEmitted (llmCleared (appended s text origins) true)
      text origins)) := by
  have hact' : (llmCleared (appended s text origins) true).conv.active = some r := by
    rw [appended_of_active hact hne]
    exact hact
  exact bracket_delta (bracket_cleared true (bracket_appended h hact hne)) hact'
    (finishRules.spoken (r := r) h.finish trivial trivial hne)

/-- Entries of no response leave the wire as disciplined as it was. -/
theorem bracket_aside {l : Site} (hl : calm l) (h : BracketInv (v.stop t l s))
    (ha : Aside s s') : BracketInv (v.stop t l s') := by
  obtain ⟨es, hes, hp⟩ := ha.log
  have hf : FinishInv (v.stop t l s') := finishRules.aside hl h.finish ha
  have hcomp : completions s'.log = completions s.log := by
    rw [hes, completions_append, completions_plain fun e he => plain_of_aside (hp e he),
      List.append_nil]
  have hevents : ∀ pre, ∀ event ∈ wire es, Bracketed pre event := by
    intro pre event he
    obtain ⟨origins, hmem⟩ := mem_wire.mp he
    have haside := hp _ hmem
    simp only [asideEntry, Bool.and_eq_true] at haside
    exact bracketed_of_aside haside.1
  rw [← View.stop_stop v t l l s s'] at hf ⊢
  refine h.stop (wire es) hf (fun r hr => ?_) hcomp (by rw [hes, wire_append]; rfl)
    (h.along.append hevents)
  rwa [active_congr ha.slot] at hr

theorem bracket_reset {snap : ResponseSnapshot} (h : BracketInv v)
    (hl : v.site t = .finishing snap []) :
    BracketInv (v.stop t (.finishing snap []) (slotReset v.shared snap.generation)) := by
  have hw : wire (slotReset v.shared snap.generation).log = wire v.shared.log := by
    simp [slotReset, wire]
  have hcomp : completions (slotReset v.shared snap.generation).log =
      completions v.shared.log := by simp [slotReset, completions]
  refine h.stop [] (h.finish.finishReset hl) (fun r hr => ?_) hcomp (by simpa using hw)
    (by simpa using h.along)
  change (v.shared.conv.resetResponseSlot snap.generation).active = some r at hr
  rwa [resetResponseSlot_of_active hr] at hr

end Rules

theorem bracket_rules : SlotRules bracketReading where
  quiet t h ht := h.stop [] (finishRules.quiet t h.finish ht) (fun _ hr => hr) rfl (by simp)
    (by simpa using h.along)
  emitting h := h.keep (finishRules.emitting h.finish) (fun _ hr => hr) rfl rfl
  resampling o h := h.keep (finishRules.resampling o h.finish) (fun _ hr => hr) rfl rfl
  aside := bracket_aside
  created := bracket_created
  annActive _ _ hact := hact
  annResumed {_ _ _ r o} _ hl ha := ha (r, o) (by rw [hl]; rfl)
  itemOf h hact := h.item hact
  itemCreated h hact := bracket_item _ h hact
  itemAdded h hact hi := bracket_emits h hact (finishRules.itemAdded h.finish trivial trivial)
    (congrArg (fun i => some (some _, i)) hi)
  contentPart h hact := h.tell (finishRules.contentPart h.finish trivial) (fun _ hr => hr)
    (completions_emits ..) (wire_emits ..) (bracketed_response (h.isOpen hact)
      (congrArg (fun i => some (some _, i)) (h.item hact)))
  audioFits _ _ _ _ _ := trivial
  audio h hact _ := bracket_emits h hact (finishRules.audio h.finish trivial trivial)
    (congrArg (fun i => some (some _, i)) (h.item hact))
  textFits _ _ _ _ _ := trivial
  spoken h hact _ hne := bracket_spoken h hact hne
  buffered h _ _ := h.keep (h.finish.onward (onward_llmBuffered h.finish.coherent) nofun)
    (fun _ hr => hr) rfl rfl
  cleared b _ h := bracket_cleared b h
  mayPush _ _ _ _ _ := trivial
  mayNone _ := trivial
  mayKept _ _ := trivial
  mayFlushed _ _ _ := trivial
  flushed c h hact htr hbuf hgen :=
    bracket_delta (bracket_appended h hact hbuf)
      (by rw [appended_of_active hact hbuf]; exact hact)
      (finishRules.flushed c h.finish hact htr hbuf hgen)
  slotId h := finishRules.slotId h.finish
  finished _ h hact _ hs _ he := bracket_finished h hact hs he
  finishing := bracket_finishing
  finishReset := bracket_reset
  left hl ht h := h.keep (finishRules.left hl ht h.finish) (fun _ hr => hr) rfl rfl
  drainPush _ _ _ _ := trivial
  drainKept _ _ := trivial
  drained h hact _ := h.keep (finishRules.drained h.finish hact trivial)
    (fun _ hr => by rwa [active_drained hact, ← hact] at hr) completions_drained wire_drained

theorem bracketInv_fresh (maxFrames : ℕ) (textOpen : Bool) :
    BracketInv (freshSession maxFrames textOpen).view where
  finish := finishInv_fresh maxFrames textOpen
  along := by simp
  begun := by simp [ConversationState.active]
  snaps := by simp [completions]

/-- In every run that never goes on announcing a response which has left the slot, each
event of a response lies between its created and its done event and names its item. -/
theorem bracketed_wire {maxFrames : ℕ} {textOpen : Bool}
    {p : Pool Empty Shared Site Reply Task Unit}
    (h : realtime.Reach announcesActive closedWorld (freshSession maxFrames textOpen) p) :
    Along Bracketed (wire p.shared.log) :=
  (bracket_rules.invariant (bracketInv_fresh maxFrames textOpen) h).along

/-- The bot starts to speak, and everything it announces is sent. -/
def announcedTurn : List (System.Act Shared Reply Task) :=
  [.turn .observer (.push { id := 1, frame := .botStartedSpeaking }),
   .turn .observer .go, .turn .observer .go, .turn .observer .go]

theorem bracketed_wire_announced :
    (wire (realtime.play (freshSession 4096 true) announcedTurn).shared.log).length = 4 ∧
      Along Bracketed (wire (realtime.play (freshSession 4096 true) announcedTurn).shared.log) := by
  exact ⟨by decide +kernel, bracketed_wire (System.reach_play (by decide +kernel))⟩

/-- The client cancels while `response.created` is being sent; the announcement then
goes on with the item id of an empty slot. -/
def cancelledAnnouncement : List (System.Act Shared Reply Task) :=
  [.turn .observer (.push { id := 1, frame := .botStartedSpeaking }),
   .turn .client (.receive { event := .responseCancel none }),
   .turn .client .go, .turn .client .go, .turn .client .go, .turn .client .go, .turn .client .go,
   .turn .observer .go]

theorem announcement_outlives_response :
    ∃ p, realtime.Reach anyReply closedWorld (freshSession 4096 true) p ∧
      ¬ Along Bracketed (wire p.shared.log) := by
  refine ⟨realtime.play (freshSession 4096 true) cancelledAnnouncement,
    System.reach_play (by decide +kernel), fun h => ?_⟩
  have hwire : ∃ pre,
      wire (realtime.play (freshSession 4096 true) cancelledAnnouncement).shared.log =
      pre ++ [.assistantItemCreated none] :=
    ⟨(wire (realtime.play (freshSession 4096 true) cancelledAnnouncement).shared.log).dropLast,
      by decide +kernel⟩
  obtain ⟨pre, hpre⟩ := hwire
  obtain ⟨r, hr, -⟩ := (h pre _ [] hpre).2 none rfl
  cases hr

end VoiceAgent.ResponseBracketing
