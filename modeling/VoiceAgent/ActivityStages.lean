import VoiceAgent.ActivityCheck
import VoiceAgent.History

/-!
The idle stages in their order: whatever the frames and however the timers interleave, the end
of the session is requested only after both warnings have fired since the last reset, the first
before the second, each once.
-/
namespace VoiceAgent.ActivityStages

open Coroutine Interleaving History ActivityCheck

def refire (fired : List ℕ) : Event → List ℕ
  | .reset => []
  | .fired stage => fired ++ [stage]
  | _ => fired

/-- The warnings fired since the last reset. -/
def firedSince (log : List Event) : List ℕ := log.foldl refire []

theorem firedSince_snoc (log : List Event) (e : Event) :
    firedSince (log ++ [e]) = refire (firedSince log) e := by
  simp [firedSince, List.foldl_append]

def Requests (e : Event) : Prop := ∃ cause, e = .requests cause ∨ e = .endTask cause

/-- The end is requested after the first and the second warning, each fired once. -/
def InOrder (before : List Event) (e : Event) : Prop :=
  Requests e → [1, 2] <+: firedSince before ∧ (firedSince before).Nodup

structure Staged (site : ℕ → Site) (s : Check) : Prop where
  fired : firedSince s.log = List.range' 1 s.stage
  final : s.disconnectAfterSpeech = true → s.stage = stages
  live : ∀ k cause, s.created[k]? = some (.disconnect cause) → k ∉ s.done → k ∉ s.cancelling →
    s.disconnectTask = some k ∧ stages ≤ s.stage
  done : ∀ k ∈ s.done, site k = .finished
  pushing : ∀ k cause, site k = .pushing cause → s.created[k]? = some (.disconnect cause)
  ordered : Along InOrder s.log

def stageContract : Contract ℕ Site Check Reply where
  inv v := Staged v.site v.shared
  rely _ _ _ := True
  allowed _ _ _ := True

section Moves
variable {site : ℕ → Site} {s s' : Check} {k : ℕ} {l : Site} {kind : Kind} {cause : Cause}

theorem getElem?_create {j : ℕ} {kind' : Kind} : (s.create kind).created[j]? = some kind' ↔
    s.created[j]? = some kind' ∨ (j = s.created.length ∧ kind = kind') := by
  rw [Check.create, List.getElem?_append]
  split
  · rename_i hj
    simp [hj.ne]
  · rename_i hj
    have hnone : s.created[j]? = none := List.getElem?_eq_none (by omega)
    rw [hnone, List.getElem?_singleton]
    by_cases hj' : j = s.created.length
    · simp [hj']
    · simp [hj', show j - s.created.length ≠ 0 by omega]

/-- A change that leaves the warnings, the tasks and the request as they are. -/
theorem Staged.same (h : Staged site s) (hs : s'.stage = s.stage)
    (hf : s'.disconnectAfterSpeech = true → s.disconnectAfterSpeech = true)
    (ht : s'.disconnectTask = s.disconnectTask) (hc : s'.created = s.created)
    (hx : ∀ j ∈ s.cancelling, j ∈ s'.cancelling) (hd : s'.done = s.done)
    (hl : s'.log = s.log) : Staged site s' where
  fired := by
    rw [hl, hs]
    exact h.fired
  final hfin := by
    rw [hs]
    exact h.final (hf hfin)
  live j cause hj hdone hcan := by
    rw [hc] at hj
    rw [hd] at hdone
    rw [ht, hs]
    exact h.live j cause hj hdone fun hold => hcan (hx j hold)
  done j hj := by
    rw [hd] at hj
    exact h.done j hj
  pushing j cause hj := by
    rw [hc]
    exact h.pushing j cause hj
  ordered := by
    rw [hl]
    exact h.ordered

theorem Staged.cancel (h : Staged site s) (task : Option ℕ) : Staged site (s.cancel task) :=
  h.same rfl id rfl rfl (fun _ hj => List.mem_append_left _ hj) rfl rfl

theorem Staged.cancelWarningCompletionTimer (h : Staged site s) :
    Staged site s.cancelWarningCompletionTimer :=
  (h.cancel s.warningCompletionTimer).same rfl id rfl rfl (fun _ hj => hj) rfl rfl

theorem Staged.create (h : Staged site s) (hk : ∀ cause, kind ≠ .disconnect cause) :
    Staged site (s.create kind) where
  fired := h.fired
  final := h.final
  live j cause hj hdone hcan :=
    h.live j cause ((getElem?_create.mp hj).resolve_right fun hnew => hk cause hnew.2) hdone hcan
  done := h.done
  pushing j cause hj := getElem?_create.mpr (.inl (h.pushing j cause hj))
  ordered := h.ordered

theorem Staged.scheduleDisconnect (h : Staged site s) (hs : stages ≤ s.stage) (cause : Cause) :
    Staged site (s.scheduleDisconnect cause) := by
  unfold Check.scheduleDisconnect
  split
  · rename_i hnone
    exact
      { fired := h.fired
        final := h.final
        live := by
          intro j cause' hj hdone hcan
          rcases getElem?_create.mp hj with hold | ⟨rfl, -⟩
          · exact absurd (hnone j (h.live j cause' hold hdone hcan).1) hdone
          · exact ⟨rfl, hs⟩
        done := h.done
        pushing := fun j cause' hj => getElem?_create.mpr (.inl (h.pushing j cause' hj))
        ordered := h.ordered }
  · exact h

theorem Staged.armTimer (h : Staged site s) : Staged site s.armTimer := by
  unfold Check.armTimer
  simp only
  split
  · exact h.cancel _
  · exact ((h.cancel s.timer).create (by simp)).same rfl id rfl rfl (fun _ hj => hj) rfl rfl

theorem Staged.note (h : Staged site s) (e : Heard) : Staged site (s.note e) :=
  h.same rfl id rfl rfl (fun _ hj => hj) rfl rfl

theorem Staged.reset (h : Staged site s) : Staged site s.reset := by
  rw [Check.reset_eq]
  constructor
  case fired =>
    rw [firedSince_snoc]
    rfl
  case final =>
    intro hfin
    cases hfin
  case live =>
    -- the only task that could still request the end is cancelled here
    intro j cause hj hdone hcan
    simp only [List.mem_append, not_or, Option.mem_toList] at hcan
    exact absurd (h.live j cause hj hdone hcan.1.1.1).1 hcan.2
  case done => exact h.done
  case pushing => exact h.pushing
  case ordered =>
    rw [along_concat]
    refine ⟨h.ordered, ?_⟩
    rintro ⟨cause, hc | hc⟩ <;> cases hc

theorem Staged.handle (h : Staged site s) (input : Input) : Staged site (s.handle input) := by
  cases input with
  | userStartedSpeaking => exact h.reset
  | cancelFrame => exact h.reset
  | endFrame => exact h.reset
  | cleanup => exact h.reset
  | botStoppedSpeaking speech =>
    simp only [Check.handle, Check.handleBotStoppedSpeaking]
    split
    · exact h.same rfl id rfl rfl (fun _ hj => hj) rfl rfl
    · have hcan := h.cancelWarningCompletionTimer.note (.stopped speech)
      split
      · rename_i hfin
        have hstage : s.cancelWarningCompletionTimer.stage = stages := hcan.final hfin
        have hcleared : Staged site { s.cancelWarningCompletionTimer.note (.stopped speech) with
            disconnectAfterSpeech := false } :=
          hcan.same rfl (by simp) rfl rfl (fun _ hj => hj) rfl rfl
        exact hcleared.scheduleDisconnect hstage.ge _
      · exact hcan.armTimer
  | ttsStarted =>
    simp only [Check.handle, Check.handleTtsStarted]
    split
    · exact h
    · split <;> exact h.same rfl id rfl rfl (fun _ hj => hj) rfl rfl
  | llmResponseEnded =>
    simp only [Check.handle, Check.handleLlmResponseEnded]
    split
    · exact h
    · split <;> exact h.same rfl id rfl rfl (fun _ hj => hj) rfl rfl
  | start =>
    simp only [Check.handle, Check.start]
    split
    · exact h.armTimer
    · exact h

/-- A warning fires: the stage after the current one. -/
theorem Staged.fire (h : Staged site s) {stage : ℕ} (hs : stage = s.stage + 1) :
    Staged site ({ s.create (.completion stage) with
      stage := stage
      disconnectAfterSpeech := stage = stages
      pendingWarningResponseStages := s.pendingWarningResponseStages ++ [stage]
      warningCompletionTimer := some s.created.length }.record (.fired stage)) where
  fired := by
    change firedSince (s.log ++ [.fired stage]) = List.range' 1 stage
    rw [firedSince_snoc, h.fired, hs, List.range'_concat]
    simp [refire, Nat.add_comm]
  final hfin := by simpa [Check.record] using hfin
  live j cause hj hdone hcan := by
    have hold := (getElem?_create.mp hj).resolve_right fun hnew => by cases hnew.2
    obtain ⟨htask, hstage⟩ := h.live j cause hold hdone hcan
    refine ⟨htask, ?_⟩
    change stages ≤ stage
    omega
  done := h.done
  pushing j cause hj := getElem?_create.mpr (.inl (h.pushing j cause hj))
  ordered := by
    change Along InOrder (s.log ++ [.fired stage])
    rw [along_concat]
    refine ⟨h.ordered, ?_⟩
    rintro ⟨cause, hc | hc⟩ <;> cases hc

/-- At the second stage both warnings have fired. -/
theorem Staged.both (h : Staged site s) (hs : stages ≤ s.stage) :
    [1, 2] <+: firedSince s.log ∧ (firedSince s.log).Nodup := by
  rw [h.fired]
  obtain ⟨n, hn⟩ := Nat.exists_eq_add_of_le' hs
  rw [hn]
  exact ⟨⟨List.range' 3 n, by simp [List.range'_succ, stages]⟩, List.nodup_range'⟩

/-- A live task that may request the end does so. -/
theorem Staged.request (h : Staged site s) {e : Event} (he : Requests e)
    (hk : s.created[k]? = some (.disconnect cause)) (hdone : k ∉ s.done)
    (hcan : k ∉ s.cancelling) : Staged site (s.record e) where
  fired := by
    change firedSince (s.log ++ [e]) = List.range' 1 s.stage
    rw [firedSince_snoc]
    obtain ⟨c, rfl | rfl⟩ := he
    · exact h.fired
    · exact h.fired
  final := h.final
  live := h.live
  done := h.done
  pushing := h.pushing
  ordered := by
    change Along InOrder (s.log ++ [e])
    rw [along_concat]
    exact ⟨h.ordered, fun _ => h.both (h.live k cause hk hdone hcan).2⟩

/-- A task that is not over is on its way. -/
theorem Staged.wake (h : Staged site s) (hk : site k ≠ .finished) :
    Staged (Function.update site k .warning) s where
  fired := h.fired
  final := h.final
  live := h.live
  done j hj := by
    have hjk : j ≠ k := by
      rintro rfl
      exact hk (h.done j hj)
    simpa [hjk] using h.done j hj
  pushing j cause hj := by
    by_cases hjk : j = k
    · simp [hjk] at hj
    · exact h.pushing j cause (by simpa [hjk] using hj)
  ordered := h.ordered

theorem Staged.push (h : Staged (Function.update site k .warning) s)
    (hk : s.created[k]? = some (.disconnect cause)) :
    Staged (Function.update site k (.pushing cause)) s where
  fired := h.fired
  final := h.final
  live := h.live
  done j hj := by
    have hjk : j ≠ k := by
      rintro rfl
      simpa using h.done j hj
    simpa [hjk] using h.done j hj
  pushing j cause' hj := by
    by_cases hjk : j = k
    · subst j
      obtain rfl : cause = cause' := by simpa using hj
      exact hk
    · exact h.pushing j cause' (by simpa [hjk] using hj)
  ordered := h.ordered

theorem Staged.finish (h : Staged (Function.update site k l) s) :
    Staged (Function.update site k .finished) { s with done := s.done ++ [k] } where
  fired := h.fired
  final := h.final
  live j cause hj hdone hcan :=
    h.live j cause hj (fun hold => hdone (List.mem_append_left _ hold)) hcan
  done j hj := by
    by_cases hjk : j = k
    · simp [hjk]
    · have hold : j ∈ s.done := by simpa [hjk] using hj
      simpa [hjk] using h.done j hold
  pushing j cause hj := by
    have hjk : j ≠ k := by
      rintro rfl
      simp at hj
    exact h.pushing j cause (by simpa [hjk] using hj)
  ordered := h.ordered

end Moves

section Programs
variable {v : CheckView} {s : Check} {k : ℕ} {kind : Kind} {cause : Cause}
  {Q : Unit → CheckView → Check → Prop} {E : Empty → CheckView → Check → Prop}

/-- Task `k` in the middle of a turn. -/
abbrev Running (k : ℕ) (v : CheckView) (s : Check) : Prop :=
  Staged (Function.update v.site k .warning) s

theorem wp_emitWarning {stage : ℕ} (hs : Running k v s) (hstage : stage = s.stage + 1)
    (h : ∀ v' s', Running k v' s' → Q () v' s') :
    Wp stageContract k Q E (emitWarning k stage) v s := by
  simp only [emitWarning, wp_bind, wp_modify]
  rw [wp_pause]
  refine ⟨⟨(hs.fire hstage).note _, fun _ _ => trivial⟩, fun v' i _ hi hl _ => h v' _ ?_⟩
  have hrun : Running k v' v'.shared := hi.wake (by rw [hl]; simp)
  split
  · exact hrun.same rfl id rfl rfl (fun _ hj => hj) rfl rfl
  · exact hrun

theorem wp_checkExpired (hs : Running k v s) (h : ∀ v' s', Running k v' s' → Q () v' s') :
    Wp stageContract k Q E (checkExpired k) v s := by
  simp only [checkExpired, wp_bind, wp_modify, wp_get]
  have hcleared : Running k v { s with timer := none } :=
    hs.same rfl id rfl rfl (fun _ hj => hj) rfl rfl
  exact wp_emitWarning hcleared rfl h

theorem wp_completionExpired {stage : ℕ} (hs : Running k v s)
    (h : ∀ v' s', Running k v' s' → Q () v' s') :
    Wp stageContract k Q E (completionExpired k stage) v s := by
  simp only [completionExpired, wp_bind, wp_get]
  split
  · exact h v s hs
  · rename_i hne
    have hstage : s.stage = stage := not_not.mp hne
    simp only [wp_bind, wp_modify]
    split
    · rename_i hfinal
      have hcleared : Running k v
          { s with warningCompletionTimer := none, disconnectAfterSpeech := false } :=
        hs.same rfl (by simp) rfl rfl (fun _ hj => hj) rfl rfl
      refine h v _ ((hcleared.scheduleDisconnect ?_ _).note _)
      exact (hstage.trans hfinal).ge
    · simp only [wp_bind, wp_modify]
      refine wp_emitWarning ?_ ?_ h
      · split <;> exact hs.same rfl id rfl rfl (fun _ hj => hj) rfl rfl
      · rw [← hstage]
        split <;> rfl

theorem wp_requestDisconnect (hs : Running k v s)
    (hk : s.created[k]? = some (.disconnect cause)) (hcan : k ∉ s.cancelling)
    (h : ∀ v' s', Running k v' s' → Q () v' s') :
    Wp stageContract k Q E (requestDisconnect k cause) v s := by
  simp only [requestDisconnect, wp_bind, wp_modify]
  rw [wp_pause]
  have hdone : k ∉ s.done := by
    intro hk'
    simpa using hs.done k hk'
  refine ⟨⟨(hs.request ⟨cause, .inl rfl⟩ hk hdone hcan).push hk, fun _ _ => trivial⟩,
    fun v' i _ hi hl _ => h v' _ ?_⟩
  have hrun : Running k v' v'.shared := hi.wake (by rw [hl]; simp)
  split
  · exact hrun
  · rename_i hcan'
    have hdone' : k ∉ v'.shared.done := by
      intro hk'
      simpa using hrun.done k hk'
    exact hrun.request ⟨cause, .inr rfl⟩ (hi.pushing k cause hl) hdone' hcan'

theorem wp_turn {loop : Loop} (i : Reply) (hi : Staged v.site v.shared)
    (hl : v.site k = activity.head k loop) :
    Wp stageContract k (fun b v s => Ends stageContract activity k b v s)
      (fun e v s => Ends stageContract activity k (activity.crash k e) v s)
      (turn k loop i) v v.shared := by
  simp only [turn, wp_bind, wp_get]
  have hfinish : ∀ (v' : CheckView) s', Running k v' s' →
      Ends stageContract activity k Loop.finished v' { s' with done := s'.done ++ [k] } :=
    fun _ _ hrun => ⟨hrun.finish, fun _ _ => trivial⟩
  split
  · rename_i kind hkind
    have hrun : Running k v v.shared := hi.wake (by rw [hl]; simp [activity])
    split
    · exact hfinish v _ hrun
    · rename_i hcan
      simp only [wp_bind, wp_modify, wp_pure]
      cases kind with
      | check
      => exact wp_checkExpired hrun hfinish
      | completion stage
      => exact wp_completionExpired hrun hfinish
      | disconnect cause
      => exact wp_requestDisconnect hrun hkind hcan hfinish
  · refine ⟨?_, fun _ _ => trivial⟩
    rw [View.stop_self hl]
    exact hi

theorem keeps_stageContract (ok : Check → Input → Prop) :
    Keeps stageContract activity (outside ok) where
  refl _ _ := trivial
  trans _ _ _ _ _ _ := trivial
  outside v s hi henv := by
    obtain ⟨input, -, rfl⟩ := henv
    exact ⟨Staged.handle hi input, fun _ => trivial⟩
  body k loop i _ hi hl _ := wp_turn i hi hl

end Programs

theorem staged_fresh : Staged freshCheck.view.site freshCheck.view.shared where
  fired := rfl
  final hfin := by cases hfin
  live j cause hj := by
    have hnone : (none : Option Kind) = some (.disconnect cause) := hj
    cases hnone
  done j hj := absurd hj List.not_mem_nil
  pushing j cause hj := by
    have hasleep : Site.asleep = .pushing cause := hj
    cases hasleep
  ordered := along_nil

/-- What follows a reset requests the end only after both warnings have fired anew. -/
theorem refired {pre post : List Event} {e : Event} (h : Along InOrder (pre ++ .reset :: post))
    (he : e ∈ post) (hr : Requests e) : .fired 1 ∈ post ∧ .fired 2 ∈ post := by
  obtain ⟨mid, rest, rfl⟩ := List.append_of_mem he
  have hjudged := h (pre ++ .reset :: mid) e rest (by simp)
  have hmem : ∀ stage, stage ∈ firedSince (pre ++ .reset :: mid) → Event.fired stage ∈ mid := by
    clear hjudged h he
    induction mid using List.reverseRecOn with
    | nil =>
      intro stage hstage
      rw [firedSince_snoc] at hstage
      cases hstage
    | append_singleton mid e ih =>
      intro stage hstage
      have hsplit : pre ++ .reset :: (mid ++ [e]) = (pre ++ .reset :: mid) ++ [e] := by simp
      rw [hsplit, firedSince_snoc] at hstage
      cases e with
      | reset => cases hstage
      | fired n =>
        rcases List.mem_append.mp hstage with hold | hnew
        · exact List.mem_append_left _ (ih stage hold)
        · obtain rfl := List.mem_singleton.mp hnew
          simp
      | requests cause => exact List.mem_append_left _ (ih stage hstage)
      | endTask cause => exact List.mem_append_left _ (ih stage hstage)
  have hboth := (hjudged hr).1
  exact ⟨List.mem_append_left _ (hmem 1 (hboth.subset (by simp))),
    List.mem_append_left _ (hmem 2 (hboth.subset (by simp)))⟩

/-- The end of the session is requested only when, since the last reset, the first warning and
then the second have fired, each once; a reset calls off what has not been requested. -/
theorem requests_in_order {p : CheckPool}
    (h : activity.Reach (fun _ _ _ => True) (outside fun _ _ => True) freshCheck p) :
    Along InOrder p.shared.log ∧
      ∀ pre post, p.shared.log = pre ++ .reset :: post →
        .fired 1 ∉ post ∨ .fired 2 ∉ post → ∀ e ∈ post, ¬ Requests e := by
  have hinv : Staged p.view.site p.shared :=
    (keeps_stageContract fun _ _ => True).invariant staged_fresh h
  refine ⟨hinv.ordered, fun pre post hlog hnot e he hr => ?_⟩
  have hordered : Along InOrder (pre ++ .reset :: post) := by
    rw [← hlog]
    exact hinv.ordered
  obtain ⟨h1, h2⟩ := refired hordered he hr
  rcases hnot with hnot | hnot
  · exact hnot h1
  · exact hnot h2

/-- Two warnings time out, and the session is ended; user speech comes while it is pushed. -/
def twoTimeouts : List (System.Act Check Reply ℕ) :=
  [.outside (·.handle .start), .turn 0 .go, .turn 1 .go, .turn 2 .go, .turn 3 .go,
    .outside (·.handle .userStartedSpeaking), .turn 3 .go]

theorem requests_in_order_timeouts :
    (activity.play freshCheck twoTimeouts).shared.log =
      [.fired 1, .fired 2, .requests (.timeout 2), .reset] ∧
    Along InOrder (activity.play freshCheck twoTimeouts).shared.log := by
  have hplay : activity.Playable (fun _ _ _ => True) (outside fun _ _ => True) freshCheck
      twoTimeouts :=
    ⟨⟨.start, trivial, rfl⟩, trivial, trivial, trivial, trivial,
      ⟨.userStartedSpeaking, trivial, rfl⟩, trivial, trivial⟩
  exact ⟨by decide +kernel, (requests_in_order (System.reach_play hplay)).1⟩

end VoiceAgent.ActivityStages
