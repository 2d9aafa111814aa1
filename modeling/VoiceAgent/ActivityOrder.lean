import Mathlib.Data.List.Nodup
import VoiceAgent.ActivityCheck
import VoiceAgent.History
import VoiceAgent.Triples

/-!
What the activity check knows of the order of events. Its counters and flags are functions of
what it has heard: a completion is retired when a watchdog runs out after the audio of its
warning has started, or when audio starts after its watchdog has run out.
-/
namespace VoiceAgent.ActivityOrder

open Coroutine Interleaving History ActivityCheck

section Latest
variable {kind : Heard → Bool} {l : List Heard} {e : Heard}

/-- The latest of the events of a kind. -/
def latest (kind : Heard → Bool) (l : List Heard) : Option Heard := (l.filter kind).getLast?

theorem latest_concat : latest kind (l ++ [e]) = if kind e then some e else latest kind l := by
  by_cases h : kind e <;> simp [latest, h]

end Latest

section Order

def ofFinal : Heard → Bool
  | .reset | .fired _ | .timedOut | .stopped _ => true
  | _ => false

def ofAudio (stage : ℕ) : Heard → Bool
  | .reset => true
  | .audio k | .lateAudio k | .ended k => k = stage
  | _ => false

def ofDelay (stage : ℕ) : Heard → Bool
  | .reset | .missed _ => true
  | .lateAudio k | .ended k => k = stage
  | _ => false

/-- The final message has fired, and nothing has ended the wait for it. -/
def Awaited (l : List Heard) : Prop := latest ofFinal l = some (.fired stages)

instance (l : List Heard) : Decidable (Awaited l) := inferInstanceAs (Decidable (_ = _))

/-- The audio of a warning has started, and its response has not ended. -/
def Underway (stage : ℕ) (l : List Heard) : Prop :=
  latest (ofAudio stage) l = some (.audio stage) ∨
    latest (ofAudio stage) l = some (.lateAudio stage)

/-- The watchdog of a warning has run out before its audio, which may still start. -/
def Late (stage : ℕ) (l : List Heard) : Prop := latest (ofDelay stage) l = some (.missed stage)

def retires : Heard → Bool
  | .lateAudio _ | .overdue _ => true
  | _ => false

def completes : Heard → Bool
  | .excused _ | .stopped _ => true
  | _ => false

/-- In what was heard last, since the reset, completions were retired more often than speech
was completed, by over `n`. -/
def Exceeds (n : ℕ) (l : List Heard) : Prop :=
  ∃ recent, recent <:+ l ∧ .reset ∉ recent ∧
    recent.countP completes + n < recent.countP retires

/-- A retired completion is still to come. -/
def Outstanding (l : List Heard) : Prop := Exceeds 0 l

/-- When each event is heard that goes by what was heard before. -/
def Placed (before : List Heard) : Heard → Prop
  | .audio stage => ¬Late stage before
  | .lateAudio stage => Late stage before
  | .overdue stage => Underway stage before
  | .missed stage => ¬Underway stage before
  | .excused _ => Outstanding before
  | .stopped _ => ¬Outstanding before
  | _ => True

end Order

section Counters

/-- What an event does to `_retired_warning_completions`. -/
def retired : Heard → ℕ → ℕ
  | .reset, _ => 0
  | .lateAudio _, n | .overdue _, n => n + 1
  | .excused _, n | .stopped _, n => n - 1
  | _, n => n

def awaits : Heard → Bool → Bool
  | .reset, _ | .timedOut, _ | .stopped _, _ => false
  | .fired stage, _ => stage = stages
  | _, b => b

def started : Heard → List ℕ → List ℕ
  | .reset, _ => []
  | .audio stage, l | .lateAudio stage, l => l.insert stage
  | .ended stage, l => l.erase stage
  | _, l => l

def delayed : Heard → Option ℕ → Option ℕ
  | .reset, _ | .lateAudio _, _ => none
  | .missed stage, _ => some stage
  | .ended stage, o => if o = some stage then none else o
  | _, o => o

variable {l : List Heard}

theorem exceeds_concat (e : Heard) (n : ℕ) : Exceeds n (l ++ [e]) ↔
    e ≠ .reset ∧ ((∃ recent, recent <:+ l ∧ .reset ∉ recent ∧
      (recent ++ [e]).countP completes + n < (recent ++ [e]).countP retires)) := by
  constructor
  · rintro ⟨recent, hsuffix, hreset, hcount⟩
    rcases List.suffix_concat_iff.mp hsuffix with rfl | ⟨rest, rfl, hrest⟩
    · simp at hcount
    · simp only [List.mem_append, List.mem_singleton, not_or] at hreset
      exact ⟨fun h => hreset.2 h.symm, rest, hrest, hreset.1, hcount⟩
  · rintro ⟨hne, recent, hsuffix, hreset, hcount⟩
    refine ⟨recent ++ [e], List.suffix_concat_iff.mpr (.inr ⟨recent, rfl, hsuffix⟩), ?_, hcount⟩
    simpa [hreset] using hne.symm

/-- The counter goes with the events: one up, one down, never below zero. -/
theorem exceeds_event {r : ℕ} (h : ∀ n, Exceeds n l ↔ n < r) (e : Heard) (n : ℕ) :
    Exceeds n (l ++ [e]) ↔ n < retired e r := by
  have hsame : ∀ m, (∃ recent, recent <:+ l ∧ .reset ∉ recent ∧
      recent.countP completes + m < recent.countP retires) ↔ m < r := h
  have hup : (∃ recent, recent <:+ l ∧ .reset ∉ recent ∧
      recent.countP completes + n ≤ recent.countP retires) ↔ n ≤ r := by
    cases n with
    | zero => exact iff_of_true ⟨[], List.nil_suffix, by simp, by simp⟩ (Nat.zero_le r)
    | succ m => exact hsame m
  have hdown : (∃ recent, recent <:+ l ∧ .reset ∉ recent ∧
      recent.countP completes + 1 + n < recent.countP retires) ↔ n < r - 1 := by
    have hnext := hsame (n + 1)
    rw [show n < r - 1 ↔ n + 1 < r by omega, ← hnext]
    simp only [Nat.add_assoc, Nat.add_comm 1 n]
  rw [exceeds_concat]
  cases e <;> simp [retired, completes, retires, Nat.lt_add_one_iff, hsame, hup, hdown]

theorem awaited_event {b : Bool} (h : Awaited l ↔ b = true) (e : Heard) :
    Awaited (l ++ [e]) ↔ awaits e b = true := by
  rw [Awaited, latest_concat]
  cases e <;> simp [ofFinal, awaits, ← h, Awaited]

theorem underway_event {audio : List ℕ} (hnodup : audio.Nodup)
    (h : ∀ stage, Underway stage l ↔ stage ∈ audio) (e : Heard) (stage : ℕ) :
    Underway stage (l ++ [e]) ↔ stage ∈ started e audio := by
  have hl := h stage
  rw [Underway] at hl
  rw [Underway, latest_concat]
  cases e with
  | audio k =>
    rcases eq_or_ne k stage with rfl | hk
    · simp [ofAudio, started]
    · simp [ofAudio, started, hk, hk.symm, hl]
  | lateAudio k =>
    rcases eq_or_ne k stage with rfl | hk
    · simp [ofAudio, started]
    · simp [ofAudio, started, hk, hk.symm, hl]
  | ended k =>
    rcases eq_or_ne k stage with rfl | hk
    · simp [ofAudio, started, hnodup.mem_erase_iff]
    · simp [ofAudio, started, hk, hk.symm, hl, hnodup.mem_erase_iff]
  | _ => simp [ofAudio, started, hl]

theorem late_event {o : Option ℕ} (h : ∀ stage, Late stage l ↔ o = some stage) (e : Heard)
    (hplaced : Placed l e) (stage : ℕ) : Late stage (l ++ [e]) ↔ delayed e o = some stage := by
  have hl := h stage
  rw [Late] at hl
  rw [Late, latest_concat]
  cases e with
  | lateAudio k =>
    obtain rfl := (h k).mp hplaced
    by_cases hk : k = stage <;> simp [ofDelay, delayed, hk, hl]
  | ended k =>
    by_cases hk : k = stage
    · subst hk
      by_cases ho : o = some k <;> simp [ofDelay, delayed, ho]
    · by_cases ho : o = some k <;> simp [ofDelay, delayed, hk, hl, ho]
  | _ => simp [ofDelay, delayed, hl]

end Counters

section Invariant

/-- The counters and flags are what the events make of them, and each event is heard in its
place. -/
structure Told (s : Check) : Prop where
  balance : ∀ n, Exceeds n s.heard ↔ n < s.retiredWarningCompletions
  awaited : Awaited s.heard ↔ s.disconnectAfterSpeech = true
  underway : ∀ stage, Underway stage s.heard ↔ stage ∈ s.warningAudioStartedStages
  late : ∀ stage, Late stage s.heard ↔ s.retiredWarningStage = some stage
  nodup : s.warningAudioStartedStages.Nodup
  placed : Along Placed s.heard

variable {s s' : Check} {e : Heard}

theorem Told.outstanding (h : Told s) :
    Outstanding s.heard ↔ s.retiredWarningCompletions ≠ 0 :=
  (h.balance 0).trans Nat.pos_iff_ne_zero

/-- One more event, and what it does to the counters and flags. -/
theorem Told.event (h : Told s) (hplaced : Placed s.heard e) (hheard : s'.heard = s.heard ++ [e])
    (hretired : s'.retiredWarningCompletions = retired e s.retiredWarningCompletions)
    (hawaits : s'.disconnectAfterSpeech = awaits e s.disconnectAfterSpeech)
    (hstarted : s'.warningAudioStartedStages = started e s.warningAudioStartedStages)
    (hdelayed : s'.retiredWarningStage = delayed e s.retiredWarningStage) : Told s' where
  balance n := by
    rw [hheard, hretired]
    exact exceeds_event h.balance e n
  awaited := by
    rw [hheard, hawaits]
    exact awaited_event h.awaited e
  underway stage := by
    rw [hheard, hstarted]
    exact underway_event h.nodup h.underway e stage
  late stage := by
    rw [hheard, hdelayed]
    exact late_event h.late e hplaced stage
  nodup := by
    rw [hstarted]
    cases e <;> simp [started, h.nodup, List.Nodup.insert, List.Nodup.erase]
  placed := by
    rw [hheard]
    exact along_concat.mpr ⟨h.placed, hplaced⟩

theorem Told.same (h : Told s) (hheard : s'.heard = s.heard)
    (hretired : s'.retiredWarningCompletions = s.retiredWarningCompletions)
    (hawaits : s'.disconnectAfterSpeech = s.disconnectAfterSpeech)
    (hstarted : s'.warningAudioStartedStages = s.warningAudioStartedStages)
    (hdelayed : s'.retiredWarningStage = s.retiredWarningStage) : Told s' where
  balance n := by
    rw [hheard, hretired]
    exact h.balance n
  awaited := by
    rw [hheard, hawaits]
    exact h.awaited
  underway stage := by
    rw [hheard, hstarted]
    exact h.underway stage
  late stage := by
    rw [hheard, hdelayed]
    exact h.late stage
  nodup := hstarted ▸ h.nodup
  placed := hheard ▸ h.placed

theorem told_fresh : Told {} where
  balance n := by simp [Exceeds]
  awaited := by simp [Awaited, latest]
  underway stage := by simp [Underway, latest]
  late stage := by simp [Late, latest]
  nodup := List.nodup_nil
  placed := along_nil

theorem Told.reset (h : Told s) : Told s.reset := by
  rw [Check.reset_eq]
  exact h.event (e := .reset) trivial rfl rfl rfl rfl rfl

theorem Told.armTimer (h : Told s) : Told s.armTimer := by
  unfold Check.armTimer
  simp only
  split
  · exact h.same rfl rfl rfl rfl rfl
  · exact h.same rfl rfl rfl rfl rfl

theorem Told.scheduleDisconnect (h : Told s) (cause : Cause) :
    Told (s.scheduleDisconnect cause) := by
  unfold Check.scheduleDisconnect
  split
  · exact h.same rfl rfl rfl rfl rfl
  · exact h

theorem Told.handleTtsStarted (h : Told s) : Told s.handleTtsStarted := by
  unfold Check.handleTtsStarted
  split
  · exact h
  · next stage rest _ =>
    simp only
    split
    · next hlate =>
      exact h.event (e := .lateAudio stage) ((h.late stage).mpr hlate) rfl rfl rfl rfl rfl
    · next hlate =>
      exact h.event (e := .audio stage) ((h.late stage).not.mpr hlate) rfl rfl rfl rfl rfl

theorem Told.handleLlmResponseEnded (h : Told s) : Told s.handleLlmResponseEnded := by
  unfold Check.handleLlmResponseEnded
  split
  · exact h
  · next stage rest _ =>
    simp only
    split
    · next hlate =>
      exact h.event (e := .ended stage) trivial rfl rfl rfl rfl
        (by simp [delayed, hlate, Check.note])
    · next hlate =>
      exact h.event (e := .ended stage) trivial rfl rfl rfl rfl
        (by simp [delayed, hlate, Check.note])

theorem Told.handleBotStoppedSpeaking (h : Told s) (speech : Speech) :
    Told (s.handleBotStoppedSpeaking speech) := by
  unfold Check.handleBotStoppedSpeaking
  split
  · next hretired =>
    exact h.event (e := .excused speech) (h.outstanding.mpr hretired) rfl rfl rfl rfl rfl
  · next hretired =>
    have hcounter : s.retiredWarningCompletions = retired (.stopped speech)
        s.retiredWarningCompletions := by
      rw [not_not.mp hretired]
      rfl
    have hplaced : Placed s.heard (.stopped speech) := h.outstanding.not.mpr hretired
    simp only
    split
    · have hstopped : Told { s.cancelWarningCompletionTimer.note (.stopped speech) with
          disconnectAfterSpeech := false } :=
        h.event (e := .stopped speech) hplaced rfl hcounter rfl rfl rfl
      exact hstopped.scheduleDisconnect _
    · next hawaits =>
      have hstopped : Told (s.cancelWarningCompletionTimer.note (.stopped speech)) :=
        h.event (e := .stopped speech) hplaced rfl hcounter (Bool.eq_false_iff.mpr hawaits) rfl rfl
      exact hstopped.armTimer

theorem Told.handle (h : Told s) (input : Input) : Told (s.handle input) := by
  cases input with
  | userStartedSpeaking => exact h.reset
  | cancelFrame => exact h.reset
  | endFrame => exact h.reset
  | cleanup => exact h.reset
  | botStoppedSpeaking speech => exact h.handleBotStoppedSpeaking speech
  | ttsStarted => exact h.handleTtsStarted
  | llmResponseEnded => exact h.handleLlmResponseEnded
  | start =>
    simp only [Check.handle, Check.start]
    split
    · exact h.armTimer
    · exact h

end Invariant

section Programs

/-- A write that keeps the record right. -/
def KeepsTold (s s' : Check) : Prop := Told s → Told s'

theorem always_emitWarning (k stage : ℕ) : Always KeepsTold (emitWarning k stage) := by
  refine (Always.modify fun s h => ?_).bind fun _ => (Always.pause _).bind fun reply =>
    Always.modify fun s h => ?_
  · exact h.event (e := .fired stage) trivial rfl rfl rfl rfl rfl
  · split
    · exact h.same rfl rfl rfl rfl rfl
    · exact h

theorem always_completionExpired (k stage : ℕ) :
    Always KeepsTold (completionExpired k stage) := by
  refine Always.get.bind fun s => .ite (.pure ()) ((Always.modify fun s h => ?_).bind fun _ =>
    .ite (Always.modify fun s h => ?_) ((Always.modify fun s h => ?_).bind fun _ =>
      always_emitWarning k (stage + 1)))
  · exact h.same rfl rfl rfl rfl rfl
  · unfold Check.scheduleDisconnect
    split
    · exact h.event (e := .timedOut) trivial rfl rfl rfl rfl rfl
    · exact h.event (e := .timedOut) trivial rfl rfl rfl rfl rfl
  · split
    · next hstarted =>
      exact h.event (e := .overdue stage) ((h.underway stage).mpr hstarted) rfl rfl rfl rfl rfl
    · next hstarted =>
      exact h.event (e := .missed stage) ((h.underway stage).not.mpr hstarted) rfl rfl rfl rfl rfl

theorem always_runTask (k : ℕ) (kind : Kind) : Always KeepsTold (runTask k kind) := by
  cases kind with
  | check =>
    refine (Always.modify fun s h => ?_).bind fun _ => Always.get.bind fun s =>
      always_emitWarning k _
    exact h.same rfl rfl rfl rfl rfl
  | completion stage => exact always_completionExpired k stage
  | disconnect cause =>
    refine (Always.modify fun s h => ?_).bind fun _ => (Always.pause _).bind fun _ =>
      Always.modify fun s h => ?_
    · exact h.same rfl rfl rfl rfl rfl
    · split
      · exact h
      · exact h.same rfl rfl rfl rfl rfl

theorem always_turn (k : ℕ) (loop : Loop) (i : Reply) : Always KeepsTold (turn k loop i) := by
  refine Always.get.bind fun s => ?_
  split
  · next kind _ =>
    have hdone : ∀ s : Check, Told s → Told { s with done := s.done ++ [k] } :=
      fun s h => h.same rfl rfl rfl rfl rfl
    simp only
    split
    · exact (Always.modify hdone).bind fun _ => .pure _
    · exact (always_runTask k kind).bind fun _ => (Always.modify hdone).bind fun _ => .pure _
  · exact .pure _

/-- Nothing but the record is asked for, and nothing at all is relied on. -/
def orderContract : Contract ℕ Site Check Reply where
  inv v := Told v.shared
  rely _ _ _ := True
  allowed _ _ _ := True

theorem stable_told (k : ℕ) : Stable orderContract k fun _ s => Told s where
  stops _ _ _ h := ⟨h, fun _ _ => trivial⟩
  resumes _ _ _ _ _ _ hi := hi

theorem keeps_orderContract :
    Keeps orderContract activity (outside fun _ _ => True) where
  refl _ _ := trivial
  trans _ _ _ _ _ _ := trivial
  outside v s hi henv := by
    obtain ⟨input, -, rfl⟩ := henv
    exact ⟨Told.handle hi input, fun _ => trivial⟩
  body k loop i v hi _ _ := by
    have hkept := Kept.of_always (stable_told k) (always_turn k loop i) fun _ _ _ h hs => hs h
    exact wp_mono (fun _ _ _ h => ⟨h, fun _ _ => trivial⟩) (fun _ _ _ h => ⟨h, fun _ _ => trivial⟩)
      (hkept.wp v v.shared hi)

/-- Run lemma: after any inputs and turns the counters and flags are what was heard. -/
theorem told_run {p : CheckPool}
    (h : activity.Reach (fun _ _ _ => True) (outside fun _ _ => True) freshCheck p) :
    Told p.shared :=
  keeps_orderContract.invariant told_fresh h

end Programs

end VoiceAgent.ActivityOrder
