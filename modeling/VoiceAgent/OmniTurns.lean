import VoiceAgent.OmniService

/-!
One live turn in the Omni service. Both handlers wait for the turn in the slot and then
replace it. As long as no handler comes back from its wait to find that the other one has
put a newer turn there, every unfinished turn is the one in the slot.
-/
namespace VoiceAgent.OmniTurns

open StreamingEvents Coroutine Interleaving OmniService

/-- Every unfinished turn can be reached through the slot. -/
def Slotted (s : Service) : Prop := ∀ k, s.Unfinished k → s.pendingRequest = some k

/-- A handler that waited for a turn finds nothing unfinished in the slot. -/
def notOvertaken (v : OmniView) (t : Task) (_ : Reply) : Prop :=
  (v.site t).waitsFor ≠ none → v.shared.inFlight = none

instance (v : OmniView) (t : Task) (i : Reply) : Decidable (notOvertaken v t i) :=
  inferInstanceAs (Decidable (_ → _))

def slotContract : Contract Task Site Service Reply where
  inv v := Slotted v.shared
  rely _ _ _ := True
  allowed v t i := turnsAwaited v t i ∧ notOvertaken v t i

/-- Turns are neither created nor taken out of the slot, and none is undone. -/
def Settles (s s' : Service) : Prop :=
  s'.turns = s.turns ∧ s'.pendingRequest = s.pendingRequest ∧
    ∀ k, s'.outcome k = none → s.outcome k = none

section States
variable {s s' : Service} {k : ℕ}

theorem Settles.unfinished (h : Settles s s') (hk : s'.Unfinished k) : s.Unfinished k :=
  ⟨h.1 ▸ hk.1, h.2.2 k hk.2⟩

theorem Slotted.settles (hs : Slotted s) (h : Settles s s') : Slotted s' := by
  intro k hk
  rw [h.2.1]
  exact hs k (h.unfinished hk)

theorem inFlight_eq_some : s.inFlight = some k ↔ s.pendingRequest = some k ∧ s.Unfinished k := by
  simp only [Service.inFlight, Option.filter_eq_some_iff, decide_eq_true_eq]

/-- With nothing unfinished in the slot there is no unfinished turn. -/
theorem Slotted.none_unfinished (hs : Slotted s) (h : s.inFlight = none) (k : ℕ) :
    ¬ s.Unfinished k := by
  intro hk
  have hsome : s.inFlight = some k := inFlight_eq_some.mpr ⟨hs k hk, hk⟩
  rw [h] at hsome
  cases hsome

theorem slotted_of_none (h : ∀ k, ¬ s.Unfinished k) : Slotted s := fun k hk => absurd hk (h k)

theorem settles_cancel (s : Service) (k : ℕ) : Settles s (s.cancel k) := by
  unfold Service.cancel
  split
  · exact ⟨rfl, rfl, fun _ h => h⟩
  · exact ⟨rfl, rfl, fun _ h => h⟩

/-- When nothing is unfinished a turn may be created. -/
theorem slotted_create (h : ∀ k, ¬ s.Unfinished k) (turn : Turn) (audio : Bool) :
    Slotted { s with
      turns := s.turns ++ [turn]
      pendingRequest := some s.turns.length
      pendingRequestIsAudio := audio } := by
  rintro k ⟨hlt, ho⟩
  have hk : ¬ k < s.turns.length := fun hlt' => h k ⟨hlt', ho⟩
  have hle : k < s.turns.length + 1 := by simpa using hlt
  have heq : s.turns.length = k := by omega
  simp [heq]

end States

section Handlers
variable {v : OmniView} {s : Service} {t : Task} {Q : Unit → OmniView → Service → Prop}
  {E : Exception → OmniView → Service → Prop}

theorem stops_of_slotted (l : Site) (h : Slotted s) : slotContract.Stops t l v s :=
  ⟨h, fun _ _ => trivial⟩

theorem wp_checkpoint (l : Site) (h : Slotted s) (hQ : ∀ v s, Slotted s → Q () v s)
    (hE : ∀ e v s, Slotted s → E e v s) : Wp slotContract t Q E (checkpoint l) v s := by
  simp only [checkpoint, wp_bind]
  rw [wp_pause]
  refine ⟨stops_of_slotted l h, fun v' i _ hi _ _ => ?_⟩
  split
  · exact hE _ v' _ hi
  · exact hE _ v' _ hi
  · exact hQ v' _ hi

/-- A handler that comes back from its wait finds every turn done. -/
theorem wp_awaitTurn {l : Site} {k : ℕ} (hl : l.waitsFor = some k) (h : Slotted s)
    (hQ : ∀ v s, (∀ k, ¬ s.Unfinished k) → Q () v s) (hE : ∀ e v s, Slotted s → E e v s) :
    Wp slotContract t Q E (awaitTurn l k) v s := by
  simp only [awaitTurn, wp_bind]
  rw [wp_pause]
  refine ⟨stops_of_slotted l h, fun v' i _ hi hsite hallow => ?_⟩
  have hwait : (v'.site t).waitsFor ≠ none := by
    rw [hsite, hl]
    exact Option.some_ne_none k
  have hnone : ∀ j, ¬ v'.shared.Unfinished j := Slotted.none_unfinished hi (hallow.2 hwait)
  simp only [wp_get]
  split
  · exact hQ v' _ hnone
  · exact hE _ v' _ hi
  · exact hQ v' _ hnone

theorem wp_unwindPending (h : Slotted s) (hQ : ∀ v s, (∀ k, ¬ s.Unfinished k) → Q () v s)
    (hE : ∀ e v s, Slotted s → E e v s) : Wp slotContract t Q E unwindPending v s := by
  simp only [unwindPending, wp_bind, wp_get]
  split
  · rename_i hnone
    exact hQ v s (h.none_unfinished hnone)
  · rename_i k _
    simp only [wp_bind, wp_modify]
    exact wp_awaitTurn rfl (h.settles (settles_cancel s k)) hQ hE

theorem wp_cancelPendingRequest (h : Slotted s)
    (hQ : ∀ v s, (∀ k, ¬ s.Unfinished k) → Q () v s) (hE : ∀ e v s, Slotted s → E e v s) :
    Wp slotContract t Q E cancelPendingRequest v s := by
  simp only [cancelPendingRequest, wp_bind, wp_modify]
  exact wp_unwindPending h (fun v' s' hnone => hQ v' _ hnone) hE

theorem wp_preempt (h : Slotted s) (hQ : ∀ v s, (∀ k, ¬ s.Unfinished k) → Q () v s)
    (hE : ∀ e v s, Slotted s → E e v s) : Wp slotContract t Q E preempt v s := by
  simp only [preempt, wp_bind]
  exact wp_checkpoint _ h (fun v' s' hs => wp_cancelPendingRequest hs hQ hE) hE

theorem wp_createTurn (audio : Bool) (turn : Service → Turn) (h : ∀ k, ¬ s.Unfinished k)
    (hQ : ∀ v s, Slotted s → Q () v s) :
    Wp slotContract t Q E (createTurn audio turn) v s := by
  simp only [createTurn, wp_modify]
  exact hQ v _ (slotted_create h (turn s) audio)

theorem wp_answer (payload : List UInt8) (h : Slotted s) (hQ : ∀ v s, Slotted s → Q () v s)
    (hE : ∀ e v s, Slotted s → E e v s) : Wp slotContract t Q E (answer payload) v s := by
  simp only [answer, wp_bind, wp_get]
  split
  · rename_i hnone
    exact wp_createTurn _ _ (h.none_unfinished hnone) hQ
  · simp only [wp_bind]
    exact wp_preempt h (fun v' s' hnone => wp_createTurn _ _ hnone hQ) hE

theorem wp_maybeRunAudioTurn (h : Slotted s) (hQ : ∀ v s, Slotted s → Q () v s)
    (hE : ∀ e v s, Slotted s → E e v s) : Wp slotContract t Q E maybeRunAudioTurn v s := by
  simp only [maybeRunAudioTurn, wp_bind, wp_get]
  split
  · exact hQ v s h
  · simp only [wp_bind, wp_modify]
    split
    · exact hQ v _ h
    · exact wp_answer _ h hQ hE

theorem wp_complete (context : ℕ) (trigger : Option Trigger) (h : Slotted s)
    (hQ : ∀ v s, Slotted s → Q () v s) (hE : ∀ e v s, Slotted s → E e v s) :
    Wp slotContract t Q E (complete context trigger) v s := by
  simp only [complete, wp_bind, wp_get]
  split
  · rename_i hnone
    exact wp_createTurn _ _ (h.none_unfinished hnone) hQ
  · split
    · simp only [wp_bind]
      exact wp_awaitTurn rfl h (fun v' s' hnone => wp_createTurn _ _ hnone hQ) hE
    · split
      · exact hQ v s h
      · simp only [wp_bind]
        exact wp_preempt h (fun v' s' hnone => wp_createTurn _ _ hnone hQ) hE

theorem wp_maybeRunTextTurn (context : Option ℕ) (force : Bool) (h : Slotted s)
    (hQ : ∀ v s, Slotted s → Q () v s) (hE : ∀ e v s, Slotted s → E e v s) :
    Wp slotContract t Q E (maybeRunTextTurn context force) v s := by
  unfold maybeRunTextTurn
  split
  · exact hQ v s h
  · simp only [wp_bind, wp_get]
    split
    · exact hQ v s h
    · exact wp_complete _ _ h hQ hE

theorem wp_handleUserStarted (h : Slotted s) (hQ : ∀ v s, Slotted s → Q () v s)
    (hE : ∀ e v s, Slotted s → E e v s) : Wp slotContract t Q E handleUserStarted v s := by
  simp only [handleUserStarted, wp_bind, wp_get]
  split
  · exact hQ v s h
  · split
    · simp only [startUtterance, wp_bind, wp_modify]
      exact wp_cancelPendingRequest h (fun v' s' hnone => hQ v' _ (slotted_of_none hnone)) hE
    · simp only [startUtterance, wp_modify]
      exact hQ v _ h

theorem wp_handleUserStopped (h : Slotted s) (hQ : ∀ v s, Slotted s → Q () v s)
    (hE : ∀ e v s, Slotted s → E e v s) : Wp slotContract t Q E handleUserStopped v s := by
  simp only [handleUserStopped, wp_bind, wp_get]
  split
  · exact hQ v s h
  · simp only [wp_bind, wp_modify]
    exact wp_maybeRunAudioTurn h hQ hE

theorem wp_handleInterruption (h : Slotted s) (hQ : ∀ v s, Slotted s → Q () v s)
    (hE : ∀ e v s, Slotted s → E e v s) : Wp slotContract t Q E handleInterruption v s := by
  simp only [handleInterruption, wp_bind, wp_modify]
  refine wp_checkpoint _ h (fun v' s' hs => ?_) hE
  refine wp_cancelPendingRequest hs (fun v'' s'' hnone => hQ v'' _ ?_) hE
  split
  · exact slotted_of_none hnone
  · exact slotted_of_none hnone

theorem settles_handleAudioFrame (audio : List UInt8) (sampleRate channels : ℕ) :
    Settles s (s.handleAudioFrame audio sampleRate channels) := by
  simp only [Service.handleAudioFrame]
  split
  · exact ⟨rfl, rfl, fun _ h => h⟩
  · split
    · exact ⟨rfl, rfl, fun _ h => h⟩
    · exact ⟨rfl, rfl, fun _ h => h⟩

theorem wp_processFrame (f : Frame) (h : Slotted s) (hQ : ∀ v s, Slotted s → Q () v s)
    (hE : ∀ e v s, Slotted s → E e v s) : Wp slotContract t Q E (processFrame f) v s := by
  have push : ∀ v s, Slotted s → Wp slotContract t Q E (checkpoint .pushing) v s :=
    fun v' s' hs => wp_checkpoint _ hs hQ hE
  simp only [processFrame, wp_bind]
  refine wp_checkpoint _ h (fun v' s' hs => ?_) hE
  cases f with
  | llmContext context =>
    simp only [wp_bind, wp_modify]
    exact wp_maybeRunTextTurn _ _ hs hQ hE
  | llmRun =>
    simp only [wp_bind, wp_get]
    exact wp_maybeRunTextTurn _ _ hs hQ hE
  | interruption =>
    simp only [wp_bind]
    exact wp_handleInterruption hs push hE
  | userStartedSpeaking =>
    simp only [wp_bind]
    exact wp_handleUserStarted hs push hE
  | userStoppedSpeaking =>
    simp only [wp_bind]
    exact wp_handleUserStopped hs push hE
  | endFrame | cancelFrame =>
    simp only [stop, wp_bind]
    refine wp_cancelPendingRequest hs (fun v'' s'' hnone => ?_) hE
    exact wp_checkpoint _ (slotted_of_none hnone) push hE
  | start | botStartedSpeaking | botStoppedSpeaking =>
    simp only [wp_bind, wp_modify]
    exact push v' _ hs
  | inputAudio audio sampleRate channels =>
    simp only [wp_bind, wp_modify]
    exact push v' _ (hs.settles (settles_handleAudioFrame audio sampleRate channels))
  | other system => exact push v' s' hs

end Handlers

section Turns
variable {k n : ℕ}

theorem always_turnPause (l : Site) : Always Settles (turnPause k l) := by
  refine .bind (.pause l) fun reply => .bind .get fun s => .ite (.bind ?_ fun _ => .raise _) ?_
  · exact .modify fun s => ⟨rfl, rfl, fun _ h => h⟩
  · split
    · exact .raise _
    · exact .pure _

theorem always_endTurn (o : Outcome) : Always Settles (endTurn k o) := by
  refine .bind (.modify fun s => ⟨rfl, rfl, fun j hj => ?_⟩) fun _ => .pure _
  by_cases hjk : j = k
  · simp [hjk] at hj
  · simpa [hjk] using hj

theorem always_closeTurn (o : Outcome) : Always Settles (closeTurn k o) := by
  refine .bind (.modify fun s => ⟨rfl, rfl, fun _ h => h⟩) fun _ => .handle ?_
    fun e => always_endTurn _
  refine .bind (always_turnPause _) fun _ => .bind (.modify fun s => ⟨rfl, rfl, fun _ h => h⟩)
    fun _ => .bind (always_turnPause _) fun _ => always_endTurn o

theorem always_openTurn (turn : Turn) : Always Settles (openTurn k turn) := by
  refine .bind (.modify fun s => ⟨rfl, rfl, fun _ h => h⟩) fun _ => .handle ?_
    fun e => always_endTurn _
  refine .bind (.modify fun s => ⟨rfl, rfl, fun _ h => h⟩) fun _ =>
    .bind (always_turnPause _) fun _ => .bind (always_turnPause _) fun _ => .pure _

theorem always_processContext (turn : Turn) (reply : Reply) :
    Always Settles (processContext k turn reply) := by
  unfold processContext
  split
  · exact .bind (.modify fun s => ⟨rfl, rfl, fun _ h => h⟩) fun _ => .pure _
  · refine .bind (.modify fun s => ?_) fun _ => .pure _
    unfold Service.emitTranscript
    split
    · exact ⟨rfl, rfl, fun _ h => h⟩
    · exact ⟨rfl, rfl, fun _ h => h⟩
  · exact .handle (.bind (always_turnPause _) fun _ => always_closeTurn _)
      fun e => always_closeTurn _
  · exact always_closeTurn _
  · exact .pure _

theorem always_runTurn (loop : Loop) (reply : Reply) :
    Always Settles (runTurn k loop reply) := by
  refine .bind .get fun s => ?_
  split
  · exact .ite (always_endTurn _) (always_openTurn _)
  · refine .ite (.bind (.modify fun s => ⟨rfl, rfl, fun _ h => h⟩) fun _ => always_closeTurn _) ?_
    exact always_processContext _ reply
  · exact .pure _

theorem always_hideTurn : Always Settles (hideTurn n) :=
  .modifyGet fun _ => ⟨rfl, rfl, fun _ h => h⟩

theorem always_restoreTurn (active : Option (List Part)) :
    Always Settles (restoreTurn n active) := .modify fun _ => ⟨rfl, rfl, fun _ h => h⟩

theorem always_buildOutOfBand (context : ℕ) : Always Settles (buildOutOfBand n context) :=
  .modify fun _ => ⟨rfl, rfl, fun _ h => h⟩

theorem always_endCall : Always Settles (endCall n) :=
  .bind (.modify fun _ => ⟨rfl, rfl, fun _ h => h⟩) fun _ => .pure _

theorem always_callTurn (loop : Loop) (reply : Reply) :
    Always Settles (callTurn n loop reply) := by
  unfold callTurn
  split
  · refine .bind (.handle ?_ fun _ => .pure _) fun _ => always_endCall
    exact .bind always_hideTurn fun active =>
      .ensure (.bind (always_buildOutOfBand _) fun _ => always_checkpoint _ _)
        (always_restoreTurn active)
  · refine .bind ?_ fun _ => always_endCall
    exact .bind always_hideTurn fun active =>
      .ensure (always_buildOutOfBand _) (always_restoreTurn active)
  · exact .pure _

end Turns

theorem wp_of_settles {t : Task} {c : Prog Loop} {v : OmniView} (hc : Always Settles c)
    (h : Slotted v.shared) :
    Wp slotContract t (fun b v s => Ends slotContract omni t b v s)
      (fun e v s => Ends slotContract omni t (omni.crash t e) v s) c v v.shared :=
  wp_mono (fun _ _ _ hs => stops_of_slotted _ hs) (fun _ _ _ hs => stops_of_slotted _ hs)
    (wp_of_within (J := fun _ s => Slotted s) (fun l _ _ hs => stops_of_slotted l hs)
      (fun _ _ _ hs hr => hs.settles hr) (fun _ hs => hs) (hc.within _) h)

theorem keeps_slotContract : Keeps slotContract omni outside where
  refl _ _ := trivial
  trans _ _ _ _ _ _ := trivial
  outside v s hi henv := by
    refine ⟨?_, fun _ => trivial⟩
    rcases henv with ⟨heap, settings, rfl⟩ | ⟨k, rfl⟩
    · exact hi
    · exact Slotted.settles hi (settles_cancel v.shared k)
  body t b i v hi hl ha := by
    cases t with
    | handler system =>
      change Wp slotContract _ _ _ (handlerTurn system b i) v v.shared
      unfold handlerTurn
      split
      · split
        · simp only [wp_bind]
          exact wp_processFrame _ hi (fun _ _ hs => stops_of_slotted _ hs)
            (fun _ _ _ hs => stops_of_slotted _ hs)
        · exact stops_of_slotted _ hi
      · exact stops_of_slotted _ hi
    | turn k => exact wp_of_settles (always_runTurn b i) hi
    | call n => exact wp_of_settles (always_callTurn b i) hi

/-- No handler is overtaken while it waits: at most one turn is unfinished, and it is the
one in the slot. -/
theorem one_live_turn {settings : Settings} {p : OmniPool}
    (h : omni.Reach (fun v t i => turnsAwaited v t i ∧ notOvertaken v t i) outside
      (freshOmni settings) p) :
    (∀ j k, p.shared.Unfinished j → p.shared.Unfinished k → j = k) ∧
      ∀ k, p.shared.Unfinished k → p.shared.pendingRequest = some k := by
  have hfresh : Slotted (freshOmni settings).shared :=
    fun k hk => absurd hk.1 (Nat.not_lt_zero k)
  have hs : Slotted p.shared := keeps_slotContract.invariant hfresh h
  refine ⟨fun j k hj hk => ?_, hs⟩
  have heq : some j = some k := (hs j hj).symm.trans (hs k hk)
  exact Option.some.inj heq

/-- Settings under which an utterance of one byte is long enough. -/
def briefly : Settings := { minBytes := fun _ => 1 }

/-- A text turn begins, and the user then speaks. -/
def spokenOver : List (System.Act Service Reply Task) :=
  [.turn (.handler false) (.frame (.llmContext 0)), .turn (.handler false) .go,
    .turn (.handler false) (.frame .llmRun), .turn (.handler false) .go,
    .turn (.turn 0) .go, .turn (.turn 0) .go, .turn (.turn 0) .go,
    .turn (.handler true) (.frame .userStartedSpeaking), .turn (.handler true) .go,
    .turn (.handler true) .go,
    .turn (.handler true) (.frame (.inputAudio [7] 16000 1)), .turn (.handler true) .go,
    .turn (.handler true) .go,
    .turn (.handler true) (.frame .userStoppedSpeaking), .turn (.handler true) .go,
    .turn (.handler true) .go]

/-- The text turn unwinds and the audio turn takes its place. -/
def preempted : List (System.Act Service Reply Task) :=
  spokenOver ++ [.turn (.turn 0) .go, .turn (.turn 0) .go, .turn (.turn 0) .go,
    .turn (.handler true) .go]

theorem one_live_turn_preempted :
    let p := omni.play (freshOmni briefly) preempted
    p.shared.Unfinished 1 ∧ p.shared.pendingRequest = some 1 := by
  intro p
  have hreach : omni.Reach (fun v t i => turnsAwaited v t i ∧ notOvertaken v t i)
      (fun _ _ => False) (freshOmni briefly) p := System.reach_play (by decide +kernel)
  have hlive : p.shared.Unfinished 1 := by decide +kernel
  exact ⟨hlive,
    (one_live_turn (hreach.mono (fun _ _ _ h => h) fun _ _ h => h.elim)).2 1 hlive⟩

/-- Both handlers wait for the text turn, and each then creates a turn. -/
def overtaken : List (System.Act Service Reply Task) :=
  spokenOver ++ [.turn (.handler false) (.frame .llmRun), .turn (.handler false) .go,
    .turn (.handler false) .go, .turn (.turn 0) .go, .turn (.turn 0) .go, .turn (.turn 0) .go,
    .turn (.handler true) .go, .turn (.handler false) .go]

theorem overtaken_handler_leaves_two :
    ∃ p, omni.Reach turnsAwaited outside (freshOmni briefly) p ∧
      p.shared.Unfinished 1 ∧ p.shared.Unfinished 2 ∧
      p.shared.cancelRequested 1 = false ∧ p.shared.pendingRequest = some 2 := by
  have hreach : omni.Reach turnsAwaited (fun _ _ => False) (freshOmni briefly)
      (omni.play (freshOmni briefly) overtaken) := System.reach_play (by decide +kernel)
  exact ⟨_, hreach.mono (fun _ _ _ h => h) (fun _ _ h => h.elim), by decide +kernel,
    by decide +kernel, by decide +kernel, by decide +kernel⟩

end VoiceAgent.OmniTurns
