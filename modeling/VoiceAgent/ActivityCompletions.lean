import VoiceAgent.ActivityOrder

/-!
Which completion of bot speech ends the session. A completion has no name, so that of the first
warning, or of earlier speech, passes for the final message's once that is awaited, unless the
watchdog has retired it: an earlier completion is accounted for exactly when it does no harm.
-/
namespace VoiceAgent.ActivityCompletions

open Coroutine Interleaving History ActivityCheck ActivityOrder

/-- A completion that is the final message's, for which one is retired, or that comes when no
final message is awaited; all of it told by the order of events. -/
def Accounted (heard : List Heard) (speech : Speech) : Prop :=
  speech = .final ∨ Outstanding heard ∨ ¬Awaited heard

/-- Every completion that comes in is accounted for. -/
def accounts (s : Check) (input : Input) : Prop :=
  ∀ speech, input = .botStoppedSpeaking speech → Accounted s.heard speech

/-- The same by the counter and the flag of the processor. -/
def Harmless (s : Check) (speech : Speech) : Prop :=
  speech = .final ∨ s.retiredWarningCompletions ≠ 0 ∨ s.disconnectAfterSpeech = false

def harmless (s : Check) (input : Input) : Prop :=
  ∀ speech, input = .botStoppedSpeaking speech → Harmless s speech

theorem accounted_iff {s : Check} (h : Told s) (speech : Speech) :
    Accounted s.heard speech ↔ Harmless s speech := by
  rw [Accounted, Harmless, h.outstanding, h.awaited, Bool.not_eq_true]

/-- The final message has been spoken, or it has timed out. -/
def Proper (cause : Cause) : Prop := cause = .speech .final ∨ cause = .timeout stages

def ProperEvent (e : Event) : Prop :=
  ∀ cause, e = .requests cause ∨ e = .endTask cause → Proper cause

structure Founded (site : ℕ → Site) (s : Check) : Prop where
  causes : ∀ cause, .disconnect cause ∈ s.created → Proper cause
  pushing : ∀ k cause, site k = .pushing cause → Proper cause
  events : ∀ e ∈ s.log, ProperEvent e
  early : s.stage < stages → s.disconnectTask = none
  awaited : s.disconnectAfterSpeech = true → s.stage = stages ∧ s.disconnectTask = none

def completionContract : Contract ℕ Site Check Reply where
  inv v := Founded v.site v.shared
  rely _ _ _ := True
  allowed _ _ _ := True

section Moves
variable {site : ℕ → Site} {s s' : Check} {k : ℕ} {l : Site} {kind : Kind} {cause : Cause}

theorem Founded.same (h : Founded site s) (hs : s'.stage = s.stage)
    (hf : s'.disconnectAfterSpeech = true → s.disconnectAfterSpeech = true)
    (ht : s'.disconnectTask = s.disconnectTask) (hc : s'.created = s.created)
    (hl : s'.log = s.log) : Founded site s' where
  causes := by
    rw [hc]
    exact h.causes
  pushing := h.pushing
  events := by
    rw [hl]
    exact h.events
  early := by
    rw [hs, ht]
    exact h.early
  awaited hawait := by
    rw [hs, ht]
    exact h.awaited (hf hawait)

theorem Founded.note (h : Founded site s) (e : Heard) : Founded site (s.note e) :=
  h.same rfl id rfl rfl rfl

theorem Founded.create (h : Founded site s)
    (hk : ∀ cause, kind = .disconnect cause → Proper cause) :
    Founded site (s.create kind) where
  causes cause hcause := by
    rcases List.mem_append.mp hcause with hold | hnew
    · exact h.causes cause hold
    · exact hk cause (List.mem_singleton.mp hnew).symm
  pushing := h.pushing
  events := h.events
  early := h.early
  awaited := h.awaited

theorem Founded.scheduleDisconnect (h : Founded site s) (hcause : Proper cause)
    (hs : stages ≤ s.stage) (hf : s.disconnectAfterSpeech = false) :
    Founded site (s.scheduleDisconnect cause) := by
  unfold Check.scheduleDisconnect
  split
  · have hnew : Founded site (s.create (.disconnect cause)) := by
      refine h.create fun cause' hcause' => ?_
      rw [← Kind.disconnect.inj hcause']
      exact hcause
    exact
      { causes := hnew.causes
        pushing := h.pushing
        events := h.events
        early := fun hlt => absurd hs (Nat.not_le.mpr hlt)
        awaited := fun hawait => by
          rw [show s.disconnectAfterSpeech = true from hawait] at hf
          cases hf }
  · exact h

theorem Founded.armTimer (h : Founded site s) : Founded site s.armTimer := by
  unfold Check.armTimer
  simp only
  split
  · exact h.same rfl id rfl rfl rfl
  · have hcreated : Founded site ((s.cancel s.timer).create .check) :=
      (h.same rfl id rfl rfl rfl : Founded site (s.cancel s.timer)).create (by simp)
    exact hcreated.same rfl id rfl rfl rfl

theorem Founded.reset (h : Founded site s) : Founded site s.reset := by
  rw [Check.reset_eq]
  constructor
  case causes => exact h.causes
  case pushing => exact h.pushing
  case events =>
    intro e he
    rcases List.mem_append.mp he with hold | hnew
    · exact h.events e hold
    · obtain rfl := List.mem_singleton.mp hnew
      rintro cause (hc | hc) <;> cases hc
  case early => exact fun _ => rfl
  case awaited =>
    intro hawait
    cases hawait

theorem Founded.handle (h : Founded site s) {input : Input} (hok : harmless s input) :
    Founded site (s.handle input) := by
  cases input with
  | userStartedSpeaking => exact h.reset
  | cancelFrame => exact h.reset
  | endFrame => exact h.reset
  | cleanup => exact h.reset
  | botStoppedSpeaking speech =>
    simp only [Check.handle, Check.handleBotStoppedSpeaking]
    split
    · exact h.same rfl id rfl rfl rfl
    · rename_i hretired
      have hcan : Founded site (s.cancelWarningCompletionTimer.note (.stopped speech)) :=
        h.same rfl id rfl rfl rfl
      split
      · rename_i hawait
        have hfinal : speech = .final := by
          rcases hok speech rfl with hfinal | hne | hoff
          · exact hfinal
          · exact absurd hne hretired
          · have hon : s.disconnectAfterSpeech = true := hawait
            rw [hoff] at hon
            cases hon
        have hcleared : Founded site { s.cancelWarningCompletionTimer.note (.stopped speech) with
            disconnectAfterSpeech := false } := hcan.same rfl (by simp) rfl rfl rfl
        exact hcleared.scheduleDisconnect (.inl (by rw [hfinal])) (hcan.awaited hawait).1.ge rfl
      · exact hcan.armTimer
  | ttsStarted =>
    simp only [Check.handle, Check.handleTtsStarted]
    split
    · exact h
    · split <;> exact h.same rfl id rfl rfl rfl
  | llmResponseEnded =>
    simp only [Check.handle, Check.handleLlmResponseEnded]
    split
    · exact h
    · split <;> exact h.same rfl id rfl rfl rfl
  | start =>
    simp only [Check.handle, Check.start]
    split
    · exact h.armTimer
    · exact h

theorem Founded.fire (h : Founded site s) {stage : ℕ} (hs : stage = s.stage + 1) :
    Founded site ({ s.create (.completion stage) with
      stage := stage
      disconnectAfterSpeech := stage = stages
      pendingWarningResponseStages := s.pendingWarningResponseStages ++ [stage]
      warningCompletionTimer := some s.created.length }.record (.fired stage)) where
  causes := by
    have hnew : Founded site (s.create (.completion stage)) := h.create (by simp)
    exact hnew.causes
  pushing := h.pushing
  events e he := by
    rcases List.mem_append.mp he with hold | hnew
    · exact h.events e hold
    · obtain rfl := List.mem_singleton.mp hnew
      rintro cause (hc | hc) <;> cases hc
  early hlt := by
    have hlt' : stage < stages := hlt
    exact h.early (by omega)
  awaited hawait := by
    have hstage : stage = stages := by simpa [Check.record] using hawait
    exact ⟨hstage, h.early (by omega)⟩

/-- Where a task stands counts only while it pushes. -/
theorem Founded.move (h : Founded site s) (hl : ∀ cause, l = .pushing cause → Proper cause) :
    Founded (Function.update site k l) s where
  causes := h.causes
  pushing j cause hj := by
    by_cases hjk : j = k
    · exact hl cause (by simpa [hjk] using hj)
    · exact h.pushing j cause (by simpa [hjk] using hj)
  events := h.events
  early := h.early
  awaited := h.awaited

theorem Founded.request (h : Founded site s) (hcause : Proper cause) {e : Event}
    (he : e = .requests cause ∨ e = .endTask cause) : Founded site (s.record e) where
  causes := h.causes
  pushing := h.pushing
  events e' he' := by
    rcases List.mem_append.mp he' with hold | hnew
    · exact h.events e' hold
    · obtain rfl := List.mem_singleton.mp hnew
      rintro cause' hc
      rcases he with rfl | rfl <;> rcases hc with hc | hc <;> cases hc <;> exact hcause
  early := h.early
  awaited := h.awaited

end Moves

section Programs
variable {v : CheckView} {s : Check} {k : ℕ} {kind : Kind} {cause : Cause}
  {Q : Unit → CheckView → Check → Prop} {E : Empty → CheckView → Check → Prop}

theorem wp_emitWarning {stage : ℕ} (hs : Founded v.site s) (hstage : stage = s.stage + 1)
    (h : ∀ (v' : CheckView) s', Founded v'.site s' → Q () v' s') :
    Wp completionContract k Q E (emitWarning k stage) v s := by
  simp only [emitWarning, wp_bind, wp_modify]
  rw [wp_pause]
  refine ⟨⟨((hs.fire hstage).note _).move (by simp), fun _ _ => trivial⟩,
    fun v' i _ hi _ _ => h v' _ ?_⟩
  split
  · exact Founded.same hi rfl id rfl rfl rfl
  · exact hi

theorem wp_runTask (hs : Founded v.site s) (hk : kind ∈ s.created)
    (h : ∀ (v' : CheckView) s', Founded v'.site s' → Q () v' s') :
    Wp completionContract k Q E (runTask k kind) v s := by
  cases kind with
  | check =>
    simp only [runTask, checkExpired, wp_bind, wp_modify, wp_get]
    have hcleared : Founded v.site { s with timer := none } := hs.same rfl id rfl rfl rfl
    exact wp_emitWarning hcleared rfl h
  | completion stage =>
    simp only [runTask, completionExpired, wp_bind, wp_get]
    split
    · exact h v s hs
    · rename_i hne
      have hstage : s.stage = stage := not_not.mp hne
      simp only [wp_bind, wp_modify]
      split
      · rename_i hfinal
        have hcleared : Founded v.site
            { s with warningCompletionTimer := none, disconnectAfterSpeech := false } :=
          hs.same rfl (by simp) rfl rfl rfl
        refine h v _ ((hcleared.scheduleDisconnect (.inr (by rw [hfinal])) ?_ rfl).note _)
        exact (hstage.trans hfinal).ge
      · simp only [wp_bind, wp_modify]
        refine wp_emitWarning ?_ ?_ h
        · split <;> exact hs.same rfl id rfl rfl rfl
        · rw [← hstage]
          split <;> rfl
  | disconnect cause =>
    have hcause : Proper cause := hs.causes cause hk
    simp only [runTask, requestDisconnect, wp_bind, wp_modify]
    rw [wp_pause]
    refine ⟨⟨(hs.request hcause (.inl rfl)).move fun c hc => ?_, fun _ _ => trivial⟩,
      fun v' i _ hi _ _ => h v' _ ?_⟩
    · rw [← Site.pushing.inj hc]
      exact hcause
    · split
      · exact hi
      · exact Founded.request hi hcause (.inr rfl)

theorem wp_turn {loop : Loop} (i : Reply) (hi : Founded v.site v.shared)
    (hl : v.site k = activity.head k loop) :
    Wp completionContract k (fun b v s => Ends completionContract activity k b v s)
      (fun e v s => Ends completionContract activity k (activity.crash k e) v s)
      (turn k loop i) v v.shared := by
  simp only [turn, wp_bind, wp_get]
  have hfinish : ∀ (v' : CheckView) s', Founded v'.site s' →
      Ends completionContract activity k Loop.finished v' { s' with done := s'.done ++ [k] } := by
    intro v' s' hs'
    have hdone : Founded v'.site { s' with done := s'.done ++ [k] } := hs'.same rfl id rfl rfl rfl
    exact ⟨hdone.move (by simp [activity]), fun _ _ => trivial⟩
  split
  · rename_i kind hkind
    split
    · exact hfinish v _ hi
    · simp only [wp_bind, wp_modify, wp_pure]
      exact wp_runTask hi (List.mem_of_getElem? hkind) hfinish
  · refine ⟨?_, fun _ _ => trivial⟩
    rw [View.stop_self hl]
    exact hi

theorem keeps_completionContract : Keeps completionContract activity (outside harmless) where
  refl _ _ := trivial
  trans _ _ _ _ _ _ := trivial
  outside v s hi henv := by
    obtain ⟨input, hok, rfl⟩ := henv
    exact ⟨Founded.handle hi hok, fun _ => trivial⟩
  body k loop i _ hi hl _ := wp_turn i hi hl

end Programs

theorem founded_fresh : Founded freshCheck.view.site freshCheck.view.shared where
  causes cause hcause := absurd hcause List.not_mem_nil
  pushing k cause hk := by
    have hasleep : Site.asleep = .pushing cause := hk
    cases hasleep
  events e he := absurd he List.not_mem_nil
  early _ := rfl
  awaited hawait := by cases hawait

/-- A completion that is not accounted for is taken for the final message's. -/
theorem handle_unaccounted {site : ℕ → Site} {s : Check} (h : Founded site s) {speech : Speech}
    (hs : ¬ Harmless s speech) :
    .disconnect (.speech speech) ∈ (s.handle (.botStoppedSpeaking speech)).created := by
  obtain ⟨-, hretired, hawait⟩ : speech ≠ .final ∧ s.retiredWarningCompletions = 0 ∧
      s.disconnectAfterSpeech = true := by
    simpa [Harmless, not_or] using hs
  have hnone : s.disconnectTask = none := (h.awaited hawait).2
  simp [Check.handle, Check.handleBotStoppedSpeaking, Check.cancelWarningCompletionTimer,
    Check.cancel, Check.note, Check.scheduleDisconnect, Check.create, hretired, hawait, hnone]

/-- In a run whose completions are all accounted for by the order of events, only the final
message's completion or its timeout has the end requested, and the next completion keeps it so
if and only if it is accounted for too. -/
theorem ends_for_final {p : CheckPool}
    (h : activity.Reach (fun _ _ _ => True) (outside accounts) freshCheck p) :
    (∀ e ∈ p.shared.log, ∀ cause, e = .requests cause ∨ e = .endTask cause →
      cause = .speech .final ∨ cause = .timeout stages) ∧
    (∀ speech, (∀ cause,
      .disconnect cause ∈ (p.shared.handle (.botStoppedSpeaking speech)).created →
        cause = .speech .final ∨ cause = .timeout stages) ↔ Accounted p.shared.heard speech) ∧
    Along Placed p.shared.heard := by
  have hany : ∀ {r : CheckPool},
      activity.Reach (fun _ _ _ => True) (outside accounts) freshCheck r → Told r.shared :=
    fun hr => told_run (hr.mono (fun _ _ _ _ => trivial) fun _ _ ⟨i, _, hi⟩ => ⟨i, trivial, hi⟩)
  have hharmless : activity.Reach (fun _ _ _ => True) (outside harmless) freshCheck p := by
    refine h.mono_reached fun r hr s ⟨input, hok, hs⟩ => ⟨input, fun speech hspeech => ?_, hs⟩
    exact (accounted_iff (hany hr) speech).mp (hok speech hspeech)
  have hinv : Founded p.view.site p.shared :=
    keeps_completionContract.invariant founded_fresh hharmless
  refine ⟨hinv.events, fun speech => ?_, (hany h).placed⟩
  rw [accounted_iff (hany h)]
  refine ⟨fun hall => ?_, fun hacc => ?_⟩
  · by_contra hnot
    rcases hall _ (handle_unaccounted hinv hnot) with hc | hc
    · exact hnot (.inl (Cause.speech.inj hc))
    · cases hc
  · have hok : harmless p.shared (.botStoppedSpeaking speech) := by
      intro speech' hs
      rw [← Input.botStoppedSpeaking.inj hs]
      exact hacc
    exact (hinv.handle hok).causes

/-- Both warnings are spoken and finished in time. -/
def bothSpoken : List (System.Act Check Reply ℕ) :=
  [.outside (·.handle .start), .turn 0 .go, .outside (·.handle .ttsStarted),
    .outside (·.handle .llmResponseEnded), .outside (·.handle (.botStoppedSpeaking .first)),
    .turn 2 .go, .outside (·.handle .ttsStarted), .outside (·.handle .llmResponseEnded),
    .outside (·.handle (.botStoppedSpeaking .final)), .turn 4 .go]

theorem ends_for_final_bothSpoken :
    (activity.play freshCheck bothSpoken).shared.log =
      [.fired 1, .fired 2, .requests (.speech .final)] ∧
    ∀ e ∈ (activity.play freshCheck bothSpoken).shared.log, ∀ cause,
      e = .requests cause ∨ e = .endTask cause →
        cause = .speech .final ∨ cause = .timeout stages := by
  have hplay : activity.Playable (fun _ _ _ => True) (outside accounts) freshCheck bothSpoken := by
    refine ⟨⟨.start, by simp [accounts], rfl⟩, trivial, ⟨.ttsStarted, by simp [accounts], rfl⟩,
      ⟨.llmResponseEnded, by simp [accounts], rfl⟩, ⟨.botStoppedSpeaking .first, ?_, rfl⟩, trivial,
      ⟨.ttsStarted, by simp [accounts], rfl⟩, ⟨.llmResponseEnded, by simp [accounts], rfl⟩,
      ⟨.botStoppedSpeaking .final, ?_, rfl⟩, trivial, trivial⟩
    · intro speech hs
      rw [← Input.botStoppedSpeaking.inj hs]
      exact .inr (.inr (by decide +kernel))
    · intro speech hs
      rw [← Input.botStoppedSpeaking.inj hs]
      exact .inl rfl
  exact ⟨by decide +kernel, (ends_for_final (System.reach_play hplay)).1⟩

/-- The first warning is still being spoken when its watchdog fires, its response over. -/
def longFirstWarning : List (System.Act Check Reply ℕ) :=
  [.outside (·.handle .start), .turn 0 .go, .outside (·.handle .ttsStarted),
    .outside (·.handle .llmResponseEnded), .turn 1 .go,
    .outside (·.handle (.botStoppedSpeaking .first)), .turn 3 .go]

theorem first_warning_ends_session :
    ¬ ∀ p, activity.Reach (fun _ _ _ => True) (outside fun _ _ => True) freshCheck p →
      ∀ e ∈ p.shared.log, ∀ cause, e = .requests cause ∨ e = .endTask cause →
        cause = .speech .final ∨ cause = .timeout stages := by
  intro h
  have hplay : activity.Playable (fun _ _ _ => True) (outside fun _ _ => True) freshCheck
      longFirstWarning :=
    ⟨⟨.start, trivial, rfl⟩, trivial, ⟨.ttsStarted, trivial, rfl⟩,
      ⟨.llmResponseEnded, trivial, rfl⟩, trivial, ⟨.botStoppedSpeaking .first, trivial, rfl⟩,
      trivial, trivial⟩
  have hlog : Event.requests (.speech .first) ∈
      (activity.play freshCheck longFirstWarning).shared.log := by
    decide +kernel
  rcases h _ (System.reach_play hplay) _ hlog _ (.inl rfl) with hc | hc
  · exact absurd hc (by decide)
  · cases hc

end VoiceAgent.ActivityCompletions
