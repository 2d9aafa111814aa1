import VoiceAgent.RealtimeObserver
import VoiceAgent.History

/-!
The user side of the observer: turns, items and final transcripts. A final that
arrives before its turn has stopped is parked in one slot of the conversation. What
the slot loses is counted here: a transcript reaches the client exactly when nothing
takes its place before the next stop.
-/
namespace VoiceAgent.UserTranscripts

open RealtimeEvents Conversation ConversationState Coroutine RealtimeLifecycle RealtimeObserver
open History

/-- The frames of the user branch of `_handle_frame`. -/
inductive UserFrame
  | started
  | stopped
  | interim (text : Text)
  | final (text : Text)
  deriving DecidableEq

def UserFrame.frame : UserFrame → Frame
  | started => .userStartedSpeaking
  | stopped => .userStoppedSpeaking
  | interim text => .interimTranscription text
  | final text => .transcription text

/-- The session after the observer has handled a frame. -/
def observe (s : Shared) (f : UserFrame) : Shared :=
  (alone .go (handleFrame { id := 0, frame := f.frame }) s).2

def observeAll (s : Shared) (fs : List UserFrame) : Shared := fs.foldl observe s

section Texts

/-- A text, unless it is empty. -/
def spoken (text : Text) : List Text := if text = [] then [] else [text]

/-- The texts of the non-empty finals. -/
def finals (fs : List UserFrame) : List Text :=
  fs.flatMap fun
    | .final text => spoken text
    | _ => []

/-- The texts that completed transcription events carry. -/
def transcribed (es : List ServerEvent) : List Text :=
  es.flatMap fun
    | .inputTranscriptCompleted _ text => spoken text
    | _ => []

@[simp] theorem transcribed_append (es es' : List ServerEvent) :
    transcribed (es ++ es') = transcribed es ++ transcribed es' := List.flatMap_append

/-- The text that waits for the stop of its turn. -/
def parked (c : ConversationState) : List Text := c.pendingUserTranscript.elim [] spoken

end Texts

section Condition

/-- The frame leaves a parked text where it is. -/
def Leaves (c : ConversationState) : UserFrame → Prop
  | .final _ => parked c = []
  | .started => c.userTurnStartSample = none → parked c = []
  | _ => True

/-- Every turn that is started is stopped later. -/
def TurnsStopped : List UserFrame → Prop
  | [] => True
  | .started :: fs => .stopped ∈ fs ∧ TurnsStopped fs
  | _ :: fs => TurnsStopped fs

/-- No frame takes the place of a parked text, and at the end none is parked. -/
def NoneDropped (s : Shared) : List UserFrame → Prop
  | [] => parked s.conv = []
  | f :: fs => Leaves s.conv f ∧ NoneDropped (observe s f) fs

end Condition

section Announced

/-- The item has been stopped, committed and created. -/
structure Announced (item : ItemId) (es : List ServerEvent) : Prop where
  stopped : ∃ ms, .speechStopped item ms ∈ es
  committed : .audioCommitted item ∈ es
  created : ∃ content, .userItemCreated item content ∈ es

/-- A transcript completes an announced item, and nothing is announced of it later. -/
def InOrder (before : List ServerEvent) : ServerEvent → Prop
  | .inputTranscriptCompleted item _ => Announced item before
  | .speechStopped item _ | .audioCommitted item | .userItemCreated item _ =>
    ∀ text, .inputTranscriptCompleted item text ∉ before
  | _ => True

theorem Announced.append {item : ItemId} {es : List ServerEvent} (h : Announced item es)
    (es' : List ServerEvent) : Announced item (es ++ es') := by
  obtain ⟨ms, hms⟩ := h.stopped
  obtain ⟨content, hcontent⟩ := h.created
  exact ⟨⟨ms, List.mem_append_left _ hms⟩, List.mem_append_left _ h.committed,
    ⟨content, List.mem_append_left _ hcontent⟩⟩

end Announced

section Frames
variable (s : Shared)

@[simp] theorem alone_emit (site : Site) (event : ServerEvent) (origins : List ℕ) :
    alone .go (emit site event origins) s = ((), s.emits event origins) := rfl

/-- The session once the item has been created. -/
def created (item : ItemId) : Shared :=
  ({ s with conv := { s.conv with userItemAnnounced := true } } : Shared).emits
    (.userItemCreated item (s.conv.pendingUserTranscript.getD [])) []

/-- The session once the transcript has completed its item. -/
def completed (item : ItemId) (text : Text) : Shared :=
  let done := s.emits (.inputTranscriptCompleted item text) []
  { done with conv := done.conv.clearUserItem }

variable {s}

theorem alone_itemIfNeeded (item : ItemId) :
    (alone .go (emitUserItemIfNeeded item) s).2 =
      if s.conv.userItemAnnounced then s else created s item := by
  cases h : s.conv.userItemAnnounced
  · simp [emitUserItemIfNeeded, askConversation, announceUserItem, h, created]
  · simp [emitUserItemIfNeeded, askConversation, announceUserItem, h]
    simp [← h]

theorem alone_transcriptIfReady {item : ItemId} {text : Text}
    (hitem : s.conv.userItemId = some item) (hann : s.conv.userItemAnnounced = true)
    (hstop : s.conv.userTurnStopped = true) (hp : s.conv.pendingUserTranscript = some text) :
    (alone .go emitUserTranscriptIfReady s).2 = completed s item text := by
  have hready : s.conv.readyUserTranscript = (some (item, text), s.conv) := by
    simp [readyUserTranscript, beginUserItem, hstop, hp, hitem]
  simp [emitUserTranscriptIfReady, askConversation, onConversation, hready, alone_itemIfNeeded,
    hann, completed]

theorem alone_transcriptNotReady
    (h : s.conv.userTurnStopped = false ∨ s.conv.pendingUserTranscript = none) :
    (alone .go emitUserTranscriptIfReady s).2 = s := by
  have hready : s.conv.readyUserTranscript = (none, s.conv) := by
    rcases h with hstop | hp
    · simp [readyUserTranscript, hstop]
    · simp [readyUserTranscript, hp]
  simp [emitUserTranscriptIfReady, askConversation, hready]

/-- The session once the turn has been stopped and its audio committed. -/
def stopTold (s : Shared) : Shared :=
  let r := s.conv.stopUserTurn
  (({ s with conv := r.2 } : Shared).emits (.speechStopped r.1.1 r.1.2) []).emits
    (.audioCommitted r.1.1) []

theorem observe_stopped : observe s .stopped =
    (alone .go emitUserTranscriptIfReady
      (if s.conv.beginUserItem.2.userItemAnnounced then stopTold s
        else created (stopTold s) s.conv.beginUserItem.1)).2 := by
  have hann : (stopTold s).conv.userItemAnnounced = s.conv.beginUserItem.2.userItemAnnounced := rfl
  have hitem : s.conv.stopUserTurn.1.1 = s.conv.beginUserItem.1 := rfl
  rw [← hann, ← alone_itemIfNeeded]
  change (alone .go userStopped s).2 = _
  simp only [userStopped, alone_bind, askConversation, alone_modifyGet, alone_emit, hitem]
  rfl

theorem observe_started : observe s .started =
    ({ s with conv := s.conv.beginUserTurn.2 } : Shared).emits
      (.speechStarted s.conv.beginUserTurn.1.1 s.conv.beginUserTurn.1.2) [] := rfl

theorem observe_final (text : Text) : observe s (.final text) =
    (alone .go emitUserTranscriptIfReady
      ({ s with conv := s.conv.setUserTranscript text } : Shared)).2 := rfl

end Frames

section Rest

/-- The user item that is open, and those still to be drawn, have no transcript yet. -/
structure Fresh (c : ConversationState) (es : List ServerEvent) : Prop where
  drawn : ∀ item, c.userItemId = some item → ∃ k < c.userItems, item = .user k
  current : ∀ item, c.userItemId = some item → ∀ text, .inputTranscriptCompleted item text ∉ es
  later : ∀ k, c.userItems ≤ k → ∀ text, .inputTranscriptCompleted (.user k) text ∉ es

/-- What holds between two frames. -/
structure Rest (s : Shared) : Prop where
  empty : s.conv.userTurnStopped = true → s.conv.pendingUserTranscript = none
  flag : s.conv.userItemAnnounced = s.conv.userTurnStopped
  told : s.conv.userTurnStopped = true →
    ∃ item, s.conv.userItemId = some item ∧ Announced item (wire s.log)
  fresh : Fresh s.conv (wire s.log)
  order : Along InOrder (wire s.log)

variable {s : Shared} {c c' : ConversationState} {es es' : List ServerEvent}

theorem rest_fresh : Rest {} where
  empty := by simp
  flag := rfl
  told := by simp
  fresh := ⟨by simp, by simp, by simp⟩
  order := along_nil

theorem Fresh.mono (h : Fresh c es) (hid : c'.userItemId = c.userItemId)
    (hn : c'.userItems = c.userItems)
    (hes : ∀ item text, .inputTranscriptCompleted item text ∈ es' →
      .inputTranscriptCompleted item text ∈ es) : Fresh c' es' where
  drawn item hitem := by
    rw [hn]
    exact h.drawn item (by rw [← hid]; exact hitem)
  current item hitem text hmem :=
    h.current item (by rw [← hid]; exact hitem) text (hes item text hmem)
  later k hk text hmem := h.later k (by rw [← hn]; exact hk) text (hes _ text hmem)

/-- `begin_user_item` keeps the current item or draws the next one. -/
theorem Fresh.begin (h : Fresh c es) : Fresh c.beginUserItem.2 es ∧
    c.beginUserItem.2.userItemId = some c.beginUserItem.1 := by
  cases hid : c.userItemId with
  | some item => simp [beginUserItem, hid, h]
  | none =>
    simp only [beginUserItem, hid, newItemId, and_true]
    refine ⟨fun item hitem => ?_, fun item hitem text => ?_, fun k hk text => ?_⟩
    · exact ⟨c.userItems, by simp, (Option.some.inj hitem).symm⟩
    · obtain rfl : ItemId.user c.userItems = item := Option.some.inj hitem
      exact h.later _ (Nat.le_refl _) text
    · exact h.later k (by simp only at hk; omega) text

/-- The item that is open completes, and the conversation forgets it. -/
theorem Fresh.complete {item : ItemId} {text : Text} (h : Fresh c es)
    (hitem : c.userItemId = some item) :
    Fresh c.clearUserItem (es ++ [.inputTranscriptCompleted item text]) where
  drawn := by simp [clearUserItem]
  current := by simp [clearUserItem]
  later k hk text' hmem := by
    obtain ⟨j, hj, rfl⟩ := h.drawn item hitem
    rcases List.mem_append.mp hmem with hold | hnew
    · exact h.later k hk text' hold
    · simp only [List.mem_singleton, ServerEvent.inputTranscriptCompleted.injEq,
        ItemId.user.injEq] at hnew
      simp only [clearUserItem] at hk
      omega

/-- Nothing is known to have happened to a conversation without an item. -/
theorem Fresh.clear (h : Fresh c es) : Fresh c.clearUserItem es where
  drawn := by simp [clearUserItem]
  current := by simp [clearUserItem]
  later := h.later

/-- What `begin_user_turn` makes of the turn: it keeps an open one and opens a new one else. -/
theorem beginUserTurn_cases (c : ConversationState) :
    (c.userTurnStopped = false ∧ c.userTurnStartSample ≠ none ∧
      c.beginUserTurn.2 = c.beginUserItem.2) ∨
    ∃ start c₁, (c₁ = c ∨ c₁ = c.clearUserItem) ∧
      (c.userTurnStopped = true ∨ c.userTurnStartSample = none) ∧
      c.beginUserTurn.2 = { c₁.beginUserItem.2 with
        userTurnStartSample := start, userTurnEndSample := none, userTurnStopped := false,
        userItemAnnounced := false, pendingUserTranscript := none } := by
  have hstart : ∀ d : ConversationState,
      d.beginUserItem.2.userTurnStartSample = d.userTurnStartSample := by
    intro d
    unfold beginUserItem
    split <;> rfl
  cases hstop : c.userTurnStopped with
  | true =>
    right
    have hnone : c.clearUserItem.beginUserItem.2.userTurnStartSample = none := hstart _
    refine ⟨some c.clearUserItem.beginUserItem.2.inputAudioSamples, c.clearUserItem, .inr rfl,
      .inl rfl, ?_⟩
    simp [beginUserTurn, hstop, hnone]
  | false =>
    cases hs : c.userTurnStartSample with
    | none =>
      right
      have hnone : c.beginUserItem.2.userTurnStartSample = none := (hstart c).trans hs
      refine ⟨some c.beginUserItem.2.inputAudioSamples, c, .inl rfl, .inr rfl, ?_⟩
      simp [beginUserTurn, hstop, hnone]
    | some n =>
      left
      have hsome : c.beginUserItem.2.userTurnStartSample = some n := (hstart c).trans hs
      refine ⟨rfl, by simp, ?_⟩
      simp [beginUserTurn, hstop, hsome]

/-- `begin_user_item` touches nothing but the item. -/
theorem beginUserItem_rest (c : ConversationState) :
    c.beginUserItem.2.userTurnStopped = c.userTurnStopped ∧
      c.beginUserItem.2.userItemAnnounced = c.userItemAnnounced ∧
      c.beginUserItem.2.pendingUserTranscript = c.pendingUserTranscript := by
  unfold beginUserItem
  split <;> exact ⟨rfl, rfl, rfl⟩

/-- A turn that has not been stopped. -/
theorem Rest.of_open (hstop : s.conv.userTurnStopped = false)
    (hann : s.conv.userItemAnnounced = false) (hfresh : Fresh s.conv (wire s.log))
    (horder : Along InOrder (wire s.log)) : Rest s := by
  refine ⟨fun hs => ?_, hann.trans hstop.symm, fun hs => ?_, hfresh, horder⟩
  · simp [hstop] at hs
  · simp [hstop] at hs

theorem Rest.started (h : Rest s) : Rest (observe s .started) := by
  have hopen : s.conv.beginUserTurn.2.userTurnStopped = false ∧
      s.conv.beginUserTurn.2.userItemAnnounced = false ∧
      Fresh s.conv.beginUserTurn.2 (wire s.log) := by
    rcases beginUserTurn_cases s.conv with ⟨hstop, -, heq⟩ | ⟨start, c₁, hc, -, heq⟩
    · obtain ⟨hst, hann, -⟩ := beginUserItem_rest s.conv
      rw [heq]
      exact ⟨hst.trans hstop, by rw [hann, h.flag, hstop], h.fresh.begin.1⟩
    · have hfresh : Fresh c₁ (wire s.log) := by
        rcases hc with rfl | rfl
        · exact h.fresh
        · exact h.fresh.clear
      rw [heq]
      exact ⟨rfl, rfl, hfresh.begin.1.mono rfl rfl fun _ _ hmem => hmem⟩
  obtain ⟨hstop, hann, hfresh⟩ := hopen
  rw [observe_started]
  refine .of_open hstop hann ?_ ?_
  · rw [wire_emits]
    exact hfresh.mono rfl rfl (by simp)
  · rw [wire_emits, along_concat]
    exact ⟨h.order, trivial⟩

/-- An interim outside of an open turn is passed over. -/
theorem observe_interim_cases (s : Shared) (text : Text) : observe s (.interim text) = s ∨
    s.conv.userTurnStopped = false ∧ observe s (.interim text) =
      ({ s with conv := s.conv.beginUserItem.2 } : Shared).emits
        (.inputTranscriptDelta s.conv.beginUserItem.1 text) [] := by
  by_cases hc : s.conv.userTurnStartSample = none ∨ s.conv.userTurnStopped = true
  · left
    change (alone .go (interimTranscription text) s).2 = s
    simp [interimTranscription, hc]
  · right
    refine ⟨by push Not at hc; simpa using hc.2, ?_⟩
    change (alone .go (interimTranscription text) s).2 = _
    simp [interimTranscription, hc, askConversation]

theorem Rest.interim (h : Rest s) (text : Text) : Rest (observe s (.interim text)) := by
  rcases observe_interim_cases s text with heq | ⟨hstop, heq⟩
  · rw [heq]
    exact h
  · obtain ⟨hst, hann, -⟩ := beginUserItem_rest s.conv
    rw [heq]
    refine .of_open (hst.trans hstop) (hann.trans (h.flag.trans hstop)) ?_ ?_
    · rw [wire_emits]
      exact h.fresh.begin.1.mono rfl rfl (by simp)
    · rw [wire_emits, along_concat]
      exact ⟨h.order, trivial⟩

/-- An announced item completes. -/
theorem rest_completed {item : ItemId} {text : Text} (hitem : s.conv.userItemId = some item)
    (hfresh : Fresh s.conv (wire s.log)) (horder : Along InOrder (wire s.log))
    (htold : Announced item (wire s.log)) : Rest (completed s item text) := by
  refine .of_open rfl rfl ?_ ?_
  · change Fresh s.conv.clearUserItem (wire (s.emits _ _).log)
    rw [wire_emits]
    exact hfresh.complete hitem
  · change Along InOrder (wire (s.emits _ _).log)
    rw [wire_emits, along_concat]
    exact ⟨horder, htold⟩

/-- A final is parked, unless its turn has been stopped. -/
theorem observe_final_cases (h : Rest s) (text : Text) :
    (s.conv.userTurnStopped = false ∧
      observe s (.final text) = { s with conv := s.conv.setUserTranscript text }) ∨
    ∃ item, s.conv.userItemId = some item ∧ Announced item (wire s.log) ∧
      s.conv.userTurnStopped = true ∧ observe s (.final text) =
        completed { s with conv := { s.conv with pendingUserTranscript := some text } } item
          text := by
  obtain ⟨hst, hann, -⟩ := beginUserItem_rest s.conv
  rw [observe_final]
  cases hstop : s.conv.userTurnStopped with
  | false => exact .inl ⟨rfl, alone_transcriptNotReady (.inl (hst.trans hstop))⟩
  | true =>
    right
    obtain ⟨item, hitem, htold⟩ := h.told hstop
    have hset : s.conv.setUserTranscript text =
        { s.conv with pendingUserTranscript := some text } := by
      simp [setUserTranscript, beginUserItem, hitem]
    rw [hset]
    exact ⟨item, hitem, htold, rfl, alone_transcriptIfReady hitem (h.flag.trans hstop) hstop rfl⟩

theorem Rest.final (h : Rest s) (text : Text) : Rest (observe s (.final text)) := by
  obtain ⟨hst, hann, -⟩ := beginUserItem_rest s.conv
  rcases observe_final_cases h text with ⟨hstop, heq⟩ | ⟨item, hitem, htold, -, heq⟩
  · rw [heq]
    exact .of_open (hst.trans hstop) (hann.trans (h.flag.trans hstop))
      (h.fresh.begin.1.mono rfl rfl fun _ _ hmem => hmem) h.order
  · rw [heq]
    exact rest_completed hitem (h.fresh.mono rfl rfl fun _ _ hmem => hmem) h.order htold

/-- The events of a stop are right for an item without a transcript. -/
theorem along_stopTold (h : Rest s) : Along InOrder (wire (stopTold s).log) ∧
    Fresh (stopTold s).conv (wire (stopTold s).log) ∧
    (stopTold s).conv.userItemId = some s.conv.beginUserItem.1 := by
  obtain ⟨hfresh, hitem⟩ := h.fresh.begin
  have hnone := hfresh.current _ hitem
  refine ⟨?_, ?_, hitem⟩
  · simp only [stopTold, wire_emits, along_concat]
    refine ⟨⟨h.order, hnone⟩, fun text hmem => ?_⟩
    rcases List.mem_append.mp hmem with hold | hnew
    · exact hnone text hold
    · simp at hnew
  · refine hfresh.mono rfl rfl fun item text hmem => ?_
    simpa [stopTold] using hmem

/-- A second stop adds nothing; the first one creates the item and completes what was parked. -/
theorem observe_stopped_cases (h : Rest s) :
    (s.conv.userTurnStopped = true ∧ observe s .stopped = stopTold s) ∨
    (s.conv.userTurnStopped = false ∧ s.conv.pendingUserTranscript = none ∧
      observe s .stopped = created (stopTold s) s.conv.beginUserItem.1) ∨
    ∃ text, s.conv.userTurnStopped = false ∧ s.conv.pendingUserTranscript = some text ∧
      observe s .stopped =
        completed (created (stopTold s) s.conv.beginUserItem.1) s.conv.beginUserItem.1 text := by
  obtain ⟨-, hann, hp⟩ := beginUserItem_rest s.conv
  have hitem : (stopTold s).conv.userItemId = some s.conv.beginUserItem.1 := h.fresh.begin.2
  rw [observe_stopped, hann, h.flag]
  cases hstop : s.conv.userTurnStopped with
  | true =>
    left
    refine ⟨rfl, ?_⟩
    rw [if_pos rfl]
    exact alone_transcriptNotReady (.inr (hp.trans (h.empty hstop)))
  | false =>
    right
    rw [if_neg (by simp)]
    cases hpend : s.conv.pendingUserTranscript with
    | none => exact .inl ⟨rfl, rfl, alone_transcriptNotReady (.inr (hp.trans hpend))⟩
    | some text =>
      refine .inr ⟨text, rfl, rfl, ?_⟩
      exact alone_transcriptIfReady (s := created (stopTold s) s.conv.beginUserItem.1) hitem rfl rfl
        (hp.trans hpend)

theorem Rest.stopped (h : Rest s) : Rest (observe s .stopped) := by
  obtain ⟨-, hann, hp⟩ := beginUserItem_rest s.conv
  obtain ⟨horder, hfresh, hitem⟩ := along_stopTold h
  have hmade : Along InOrder (wire (created (stopTold s) s.conv.beginUserItem.1).log) := by
    simp only [created, wire_emits, along_concat]
    exact ⟨horder, hfresh.current _ hitem⟩
  have hfresh' : Fresh (created (stopTold s) s.conv.beginUserItem.1).conv
      (wire (created (stopTold s) s.conv.beginUserItem.1).log) := by
    refine hfresh.mono rfl rfl fun item text hmem => ?_
    simpa [created] using hmem
  have htold : Announced s.conv.beginUserItem.1
      (wire (created (stopTold s) s.conv.beginUserItem.1).log) := by
    refine ⟨⟨s.conv.stopUserTurn.1.2, ?_⟩, ?_,
      ⟨(stopTold s).conv.pendingUserTranscript.getD [], ?_⟩⟩ <;>
      simp [created, stopTold, stopUserTurn]
  rcases observe_stopped_cases h with ⟨hstop, heq⟩ | ⟨-, hpend, heq⟩ | ⟨text, -, -, heq⟩
  · rw [heq]
    refine ⟨fun _ => hp.trans (h.empty hstop), hann.trans (h.flag.trans hstop),
      fun _ => ⟨_, hitem, ?_⟩, hfresh, horder⟩
    obtain ⟨item, hid, hold⟩ := h.told hstop
    have hsame : s.conv.beginUserItem.1 = item := by simp [beginUserItem, hid]
    rw [hsame]
    simp only [stopTold, wire_emits, List.append_assoc]
    exact hold.append _
  · rw [heq]
    exact ⟨fun _ => hp.trans hpend, rfl, fun _ => ⟨_, hitem, htold⟩, hfresh', hmade⟩
  · rw [heq]
    exact rest_completed hitem hfresh' hmade htold

theorem Rest.observe (h : Rest s) (f : UserFrame) : Rest (observe s f) := by
  cases f with
  | started => exact h.started
  | stopped => exact h.stopped
  | interim text => exact h.interim text
  | final text => exact h.final text

theorem Rest.observeAll (h : Rest s) (fs : List UserFrame) : Rest (observeAll s fs) := by
  induction fs generalizing s with
  | nil => exact h
  | cons f fs ih => exact ih (h.observe f)

end Rest

section Accounting
variable {s : Shared}

/-- The texts that have reached the client and the one that still waits. -/
def held (s : Shared) : List Text := transcribed (wire s.log) ++ parked s.conv

theorem held_interim (text : Text) : held (observe s (.interim text)) = held s := by
  rcases observe_interim_cases s text with heq | ⟨-, heq⟩
  · rw [heq]
  · obtain ⟨-, -, hp⟩ := beginUserItem_rest s.conv
    rw [heq, held, wire_emits, transcribed_append]
    simp [held, transcribed, parked, hp, Shared.emits, Shared.record]

theorem held_started (h : Rest s) : held (observe s .started) =
    transcribed (wire s.log) ++
      if s.conv.userTurnStartSample = none then [] else parked s.conv := by
  have hwire : transcribed (wire (observe s .started).log) = transcribed (wire s.log) := by
    rw [observe_started, wire_emits, transcribed_append]
    simp [transcribed]
  rw [held, hwire]
  change _ ++ parked s.conv.beginUserTurn.2 = _
  rcases beginUserTurn_cases s.conv with ⟨-, hstart, heq⟩ | ⟨start, c₁, -, hreset, heq⟩
  · obtain ⟨-, -, hp⟩ := beginUserItem_rest s.conv
    rw [heq, if_neg hstart]
    simp [parked, hp]
  · rw [heq]
    have hnone : s.conv.userTurnStartSample ≠ none → parked s.conv = [] := by
      intro hstart
      simp [parked, h.empty (hreset.resolve_right hstart)]
    by_cases hstart : s.conv.userTurnStartSample = none
    · simp [hstart, parked]
    · simp [hstart, hnone hstart]
      simp [parked]

theorem held_stopped (h : Rest s) : held (observe s .stopped) = held s := by
  obtain ⟨-, -, hp⟩ := beginUserItem_rest s.conv
  have hstop : transcribed (wire (stopTold s).log) = transcribed (wire s.log) := by
    simp [stopTold, transcribed]
  have hpark : parked (stopTold s).conv = parked s.conv := by
    simp [parked, stopTold, stopUserTurn, Shared.emits, Shared.record, hp]
  have hmade : transcribed (wire (created (stopTold s) s.conv.beginUserItem.1).log) =
      transcribed (wire s.log) := by
    rw [← hstop]
    simp [created, transcribed]
  rcases observe_stopped_cases h with ⟨-, heq⟩ | ⟨-, -, heq⟩ | ⟨text, -, hpend, heq⟩
  · rw [heq, held, hstop, hpark, held]
  · rw [heq, held, hmade, held, ← hpark]
    rfl
  · have hdone : wire (completed (created (stopTold s) s.conv.beginUserItem.1)
        s.conv.beginUserItem.1 text).log = wire (created (stopTold s) s.conv.beginUserItem.1).log ++
          [.inputTranscriptCompleted s.conv.beginUserItem.1 text] := wire_emits _ _ _
    rw [heq, held, hdone, transcribed_append, hmade, held]
    simp [parked, hpend, completed, clearUserItem, transcribed]

theorem held_final (h : Rest s) (text : Text) :
    held (observe s (.final text)) = transcribed (wire s.log) ++ spoken text := by
  rcases observe_final_cases h text with ⟨-, heq⟩ | ⟨item, -, -, -, heq⟩
  · rw [heq]
    rfl
  · rw [heq, held]
    have hdone : wire (completed
        { s with conv := { s.conv with pendingUserTranscript := some text } } item text).log =
          wire s.log ++ [.inputTranscriptCompleted item text] := wire_emits _ _ _
    rw [hdone, transcribed_append]
    simp [parked, completed, clearUserItem, transcribed]

/-- A frame that leaves a parked text where it is adds its own text. -/
theorem held_of_leaves (h : Rest s) {f : UserFrame} (hl : Leaves s.conv f) :
    held (observe s f) = held s ++ finals [f] := by
  cases f with
  | interim text => simp [held_interim, finals]
  | stopped => simp [held_stopped h, finals]
  | final text =>
    have hnone : parked s.conv = [] := hl
    rw [held_final h, held, hnone]
    simp [finals]
  | started =>
    rw [held_started h, held]
    by_cases hs : s.conv.userTurnStartSample = none
    · have hnone : parked s.conv = [] := hl hs
      simp [hs, hnone, finals]
    · simp [hs, finals]

/-- Any other frame loses the parked text. -/
theorem held_of_not_leaves (h : Rest s) {f : UserFrame} (hl : ¬ Leaves s.conv f) :
    (held (observe s f)).length < (held s ++ finals [f]).length := by
  cases f with
  | interim text => exact absurd trivial hl
  | stopped => exact absurd trivial hl
  | final text =>
    have hpos : 0 < (parked s.conv).length := List.length_pos_iff.mpr hl
    rw [held_final h, held]
    simp only [finals, List.flatMap_cons, List.flatMap_nil, List.length_append, List.append_nil]
    omega
  | started =>
    have hl' : s.conv.userTurnStartSample = none ∧ parked s.conv ≠ [] := by
      by_contra hc
      exact hl fun hs => by_contra fun hp => hc ⟨hs, hp⟩
    have hpos : 0 < (parked s.conv).length := List.length_pos_iff.mpr hl'.2
    rw [held_started h, if_pos hl'.1, held]
    simp only [finals, List.flatMap_cons, List.flatMap_nil, List.length_append, List.append_nil]
    omega

/-- Nothing is held that was not there before or has not been said. -/
theorem length_transcribed_le (h : Rest s) (fs : List UserFrame) :
    (transcribed (wire (observeAll s fs).log)).length ≤ (held s ++ finals fs).length := by
  induction fs generalizing s with
  | nil =>
    simp only [observeAll, List.foldl_nil, held, finals, List.flatMap_nil, List.length_append]
    omega
  | cons f fs ih =>
    have hfs := ih (h.observe f)
    have hfinals : finals (f :: fs) = finals [f] ++ finals fs := by simp [finals]
    have hstep : (held (observe s f)).length ≤ (held s ++ finals [f]).length := by
      by_cases hl : Leaves s.conv f
      · rw [held_of_leaves h hl]
      · exact (held_of_not_leaves h hl).le
    rw [hfinals]
    simp only [observeAll, List.foldl_cons, List.length_append] at hfs hstep ⊢
    omega

/-- Run lemma: what has been said reaches the client if and only if nothing is dropped. -/
theorem transcribed_perm_iff (h : Rest s) (fs : List UserFrame) :
    (transcribed (wire (observeAll s fs).log)).Perm (held s ++ finals fs) ↔ NoneDropped s fs := by
  induction fs generalizing s with
  | nil =>
    simp only [observeAll, List.foldl_nil, held, finals, List.flatMap_nil, List.append_nil,
      NoneDropped]
    constructor
    · intro hperm
      have hlen := hperm.length_eq
      simp only [List.length_append] at hlen
      exact List.length_eq_zero_iff.mp (by omega)
    · intro hnone
      rw [hnone, List.append_nil]
  | cons f fs ih =>
    have hfinals : finals (f :: fs) = finals [f] ++ finals fs := by simp [finals]
    rw [NoneDropped, hfinals, ← List.append_assoc]
    by_cases hl : Leaves s.conv f
    · rw [← held_of_leaves h hl]
      simpa [hl, observeAll] using ih (h.observe f)
    · simp only [hl, false_and, iff_false]
      intro hperm
      have hlen := hperm.length_eq
      have hle := length_transcribed_le (h.observe f) fs
      have hlt := held_of_not_leaves h hl
      simp only [observeAll, List.foldl_cons, List.length_append] at hlen hle hlt
      omega

end Accounting

/-- No transcript is lost or duplicated exactly when none is dropped from the slot; and
every transcript that completes does so for an item that has been announced. -/
theorem transcripts_complete (fs : List UserFrame) :
    Along InOrder (wire (observeAll {} fs).log) ∧
      ((transcribed (wire (observeAll {} fs).log)).Perm (finals fs) ↔ NoneDropped {} fs) :=
  ⟨(rest_fresh.observeAll fs).order, transcribed_perm_iff rest_fresh fs⟩

/-- Two finals before the stop: the second takes the place of the first. -/
theorem second_final_overwrites :
    TurnsStopped [.started, .final ['a'], .final ['b'], .stopped] ∧
      ¬ (transcribed (wire (observeAll {}
        [.started, .final ['a'], .final ['b'], .stopped]).log)).Perm
          (finals [.started, .final ['a'], .final ['b'], .stopped]) := by
  refine ⟨by simp [TurnsStopped], fun hperm => ?_⟩
  have hlen := hperm.length_eq
  revert hlen
  decide

end VoiceAgent.UserTranscripts
