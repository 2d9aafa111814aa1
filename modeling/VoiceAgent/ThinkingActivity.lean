import VoiceAgent.ThinkingController
import VoiceAgent.History

/-!
What `_active` and `_active_task_id` say of the passes. They are right as long as a job is
answered after its dispatch has returned, no request is taken while a pass is active, and no
dispatch fails once a later pass has taken its place.
-/
namespace VoiceAgent.ThinkingActivity

open StreamingEvents Coroutine Interleaving History ThinkingController

/-- A response belongs to a pass whose dispatch has begun. -/
def jobExists (v : ThinkingView) (t : Task) (i : Reply) : Prop := match t, i with
  | .respond _, .response n _ => ∃ request, .starts n request ∈ v.shared.log
  | _, _ => True

/-- A response comes when the call that requested the job has its id, or has failed. -/
def answersKnown (v : ThinkingView) (t : Task) (i : Reply) : Prop := match t, i with
  | .respond m, .response n _ => v.site (.respond m) = .idle →
    .dispatched n ∈ v.shared.log ∨ .failed n ∈ v.shared.log
  | _, _ => True

/-- `start_pending` finds a request only when no pass is active. -/
def startsFree (v : ThinkingView) (t : Task) (i : Reply) : Prop := match t, i with
  | .start n, .start => v.site (.start n) = .idle → v.shared.pending ≠ none →
    v.shared.active = false
  | _, _ => True

/-- A dispatch that fails has not been cleared, or no pass is active. -/
def failsCurrent (v : ThinkingView) (t : Task) (i : Reply) : Prop := match t, i with
  | .start n, .failed => ∀ g, v.site (.start n) = .requesting g →
    g = v.shared.generation ∨ v.shared.active = false
  | _, _ => True

/-- A dispatched pass that has neither been cleared nor answered. -/
def Outstanding (log : List Event) (n : ℕ) : Prop :=
  .dispatched n ∈ log ∧ n ∈ current log ∧ .answered n ∉ log

/-- A current pass whose dispatch has not failed and that is not answered. -/
def Open (log : List Event) (n : ℕ) : Prop :=
  n ∈ current log ∧ .failed n ∉ log ∧ .answered n ∉ log

def TakesQueued (before : List Event) (e : Event) : Prop :=
  ∀ n request, e = .starts n request → waiting before = some request

structure Tracked (site : Task → Site) (s : Thinking) : Prop where
  active : s.active = true ↔ ∃ n, Open s.log n
  only : ∀ n k, Open s.log n → Open s.log k → n = k
  named : ∀ n, Open s.log n →
    (site (.start n) = .requesting s.generation ∧ s.activeTaskId = none) ∨
      (s.activeTaskId = some n ∧ .dispatched n ∈ s.log)
  task : ∀ n, s.activeTaskId = some n → Open s.log n
  requesting : ∀ n g, site (.start n) = .requesting g →
    g ≤ s.generation ∧ (g = s.generation → Open s.log n) ∧
      (g ≠ s.generation → n ∉ current s.log) ∧
      .dispatched n ∉ s.log ∧ .failed n ∉ s.log ∧ .answered n ∉ s.log
  idle : ∀ n, site (.start n) = .idle →
    n ∉ current s.log ∧ .dispatched n ∉ s.log ∧ .failed n ∉ s.log ∧ .answered n ∉ s.log
  dispatched : ∀ n, .dispatched n ∈ s.log → .failed n ∉ s.log
  pending : s.pending = waiting s.log
  taken : Along TakesQueued s.log

def activityContract : Contract Task Site Thinking Reply where
  inv v := Tracked v.site v.shared
  rely _ _ _ := True
  allowed v t i := answersKnown v t i ∧ startsFree v t i ∧ failsCurrent v t i

section Moves
variable {site site' : Task → Site} {s s' : Thinking} {n m : ℕ} {l : Site} {t : Task}

/-- Only what `start_pending` calls, the passes and the request do counts. -/
theorem Tracked.same (h : Tracked site s) (ha : s'.active = s.active)
    (hg : s'.generation = s.generation) (ht : s'.activeTaskId = s.activeTaskId)
    (hp : s'.pending = s.pending) (hl : s'.log = s.log) : Tracked site s' := by
  constructor
  · rw [ha, hl]
    exact h.active
  · rw [hl]
    exact h.only
  · rw [hg, ht, hl]
    exact h.named
  · rw [ht, hl]
    exact h.task
  · rw [hg, hl]
    exact h.requesting
  · rw [hl]
    exact h.idle
  · rw [hl]
    exact h.dispatched
  · rw [hp, hl]
    exact h.pending
  · rw [hl]
    exact h.taken

/-- Where the responses stand makes no difference. -/
theorem Tracked.sites (h : Tracked site s) (hs : ∀ n, site' (.start n) = site (.start n)) :
    Tracked site' s where
  active := h.active
  only := h.only
  named n hn := by
    rw [hs]
    exact h.named n hn
  task := h.task
  requesting n g hn := h.requesting n g (by rw [← hs]; exact hn)
  idle n hn := h.idle n (by rw [← hs]; exact hn)
  dispatched := h.dispatched
  pending := h.pending
  taken := h.taken

theorem Tracked.respond (h : Tracked site s) (m : ℕ) (l : Site) :
    Tracked (Function.update site (.respond m) l) s := h.sites fun n => by simp

theorem Tracked.at (h : Tracked site s) (hl : site t = l) :
    Tracked (Function.update site t l) s := by
  rw [← hl, Function.update_eq_self]
  exact h

/-- A call that leaves, when its pass is not the one that waits for a name. -/
theorem Tracked.leave (h : Tracked site s) (hn : Open s.log n → s.activeTaskId = some n)
    (hl : l = .framing ∨ l = .finished) : Tracked (Function.update site (.start n) l) s where
  active := h.active
  only := h.only
  named k hk := by
    rcases h.named k hk with ⟨hreq, hnone⟩ | hname
    · by_cases hkn : k = n
      · subst k
        rw [hn hk] at hnone
        cases hnone
      · exact .inl ⟨by simpa [hkn] using hreq, hnone⟩
    · exact .inr hname
  task := h.task
  requesting k g hk := by
    by_cases hkn : k = n
    · subst k
      rcases hl with rfl | rfl <;> simp at hk
    · exact h.requesting k g (by simpa [hkn] using hk)
  idle k hk := by
    by_cases hkn : k = n
    · subst k
      rcases hl with rfl | rfl <;> simp at hk
    · exact h.idle k (by simpa [hkn] using hk)
  dispatched := h.dispatched
  pending := h.pending
  taken := h.taken

/-- An event that changes neither the passes nor the request. -/
theorem Tracked.record (h : Tracked site s) (e : Event)
    (hcur : begun (current s.log) e = current s.log)
    (hreq : requeue (waiting s.log) e = waiting s.log)
    (hd : ∀ n, e ≠ .dispatched n) (hf : ∀ n, e ≠ .failed n) (ha : ∀ n, e ≠ .answered n)
    (hst : ∀ n r, e ≠ .starts n r) : Tracked site (s.record e) := by
  have hdis : ∀ n, Event.dispatched n ∈ s.log ++ [e] ↔ .dispatched n ∈ s.log := by
    intro n
    simp [Ne.symm (hd n)]
  have hfail : ∀ n, Event.failed n ∈ s.log ++ [e] ↔ .failed n ∈ s.log := by
    intro n
    simp [Ne.symm (hf n)]
  have hans : ∀ n, Event.answered n ∈ s.log ++ [e] ↔ .answered n ∈ s.log := by
    intro n
    simp [Ne.symm (ha n)]
  have hcurrent : current (s.log ++ [e]) = current s.log := by rw [current_snoc, hcur]
  have hopen : ∀ n, Open (s.log ++ [e]) n ↔ Open s.log n := by
    intro n
    rw [Open, Open, hcurrent, hfail, hans]
  constructor
  · simpa only [Thinking.record_log, Thinking.record_active, hopen] using h.active
  · simpa only [Thinking.record_log, hopen] using h.only
  · simpa only [Thinking.record_log, Thinking.record_generation, Thinking.record_activeTaskId,
      hopen, hdis] using h.named
  · simpa only [Thinking.record_log, Thinking.record_activeTaskId, hopen] using h.task
  · simpa only [Thinking.record_log, Thinking.record_generation, hopen, hcurrent, hdis, hfail,
      hans] using h.requesting
  · simpa only [Thinking.record_log, hcurrent, hdis, hfail, hans] using h.idle
  · simpa only [Thinking.record_log, hdis, hfail] using h.dispatched
  · rw [Thinking.record_log, waiting_snoc, hreq]
    exact h.pending
  · rw [Thinking.record_log, along_concat]
    exact ⟨h.taken, fun n r hr => absurd hr (hst n r)⟩

/-- Without an active pass none is open, and none has a name. -/
theorem Tracked.noneOpen (h : Tracked site s) (ha : s.active = false) (n : ℕ) :
    ¬ Open s.log n := by
  intro hn
  have := h.active.mpr ⟨n, hn⟩
  rw [ha] at this
  cases this

/-- A request is taken when no pass is active. -/
theorem Tracked.start (h : Tracked site s) (hl : site (.start n) = .idle) (ha : s.active = false)
    {request : Request} (hp : s.pending = some request) :
    Tracked (Function.update site (.start n) (.requesting s.generation))
      ({ s with pending := none, active := true }.record (.starts n request)) := by
  obtain ⟨-, hdis, hfail, hans⟩ := h.idle n hl
  have hcur : current (s.log ++ [.starts n request]) = n :: current s.log := by
    rw [current_snoc]
    rfl
  have hopen : ∀ k, Open (s.log ++ [.starts n request]) k ↔ k = n := by
    intro k
    constructor
    · rintro ⟨hc, hf, hk⟩
      rw [hcur] at hc
      refine (List.mem_cons.mp hc).resolve_right fun hold => h.noneOpen ha k ⟨hold, ?_, ?_⟩
      · simpa using hf
      · simpa using hk
    · rintro rfl
      refine ⟨by simp [hcur], by simpa using hfail, by simpa using hans⟩
  have htask : s.activeTaskId = none := by
    cases htask : s.activeTaskId with
    | none => rfl
    | some k => exact absurd (h.task k htask) (h.noneOpen ha k)
  constructor
  · simp only [Thinking.record_active, Thinking.record_log, hopen, exists_eq]
  · simp only [Thinking.record_log, hopen]
    rintro k j rfl rfl
    rfl
  · simp only [Thinking.record_log, hopen]
    rintro k rfl
    exact .inl ⟨by simp, htask⟩
  · intro k hk
    have hk' : s.activeTaskId = some k := hk
    rw [htask] at hk'
    cases hk'
  · intro k g hk
    simp only [Thinking.record_log, Thinking.record_generation, hopen, hcur]
    by_cases hkn : k = n
    · subst k
      obtain rfl : s.generation = g := by simpa using hk
      exact ⟨le_rfl, fun _ => rfl, fun hne => absurd rfl hne, by simpa using hdis,
        by simpa using hfail, by simpa using hans⟩
    · obtain ⟨hg, hcurr, hold, hd, hf, hk'⟩ := h.requesting k g (by simpa [hkn] using hk)
      exact ⟨hg, fun he => absurd (hcurr he) (h.noneOpen ha k), fun hne => by simp [hkn, hold hne],
        by simpa using hd, by simpa using hf, by simpa using hk'⟩
  · intro k hk
    have hkn : k ≠ n := by
      rintro rfl
      simp at hk
    obtain ⟨hc, hd, hf, hk'⟩ := h.idle k (by simpa [hkn] using hk)
    simp only [Thinking.record_log, hcur]
    exact ⟨by simp [hkn, hc], by simpa using hd, by simpa using hf, by simpa using hk'⟩
  · intro k hk
    simpa using h.dispatched k (by simpa using hk)
  · rw [Thinking.record_log, waiting_snoc]
    rfl
  · rw [Thinking.record_log, along_concat]
    refine ⟨h.taken, fun k r hr => ?_⟩
    obtain ⟨-, rfl⟩ : n = k ∧ request = r := by simpa using hr
    rw [← h.pending]
    exact hp

/-- A dispatch fails; no pass is active any more. -/
theorem Tracked.fail (h : Tracked site s) {g : ℕ} (hl : site (.start n) = .requesting g)
    (hg : g = s.generation ∨ s.active = false) :
    Tracked (Function.update site (.start n) .finished)
      ({ s with active := false }.record (.failed n)) := by
  obtain ⟨-, hcurr, -, hdis, -, hans⟩ := h.requesting n g hl
  -- the only open pass, if there is one, is the one that fails
  have hopen : ∀ k, ¬ Open (s.log ++ [.failed n]) k := by
    rintro k ⟨hc, hf, hk⟩
    have hkn : k ≠ n := by
      rintro rfl
      exact hf (by simp)
    have hold : Open s.log k := by
      refine ⟨?_, by simpa [hkn] using hf, by simpa using hk⟩
      rw [current_snoc] at hc
      exact hc
    rcases hg with rfl | ha
    · exact hkn (h.only k n hold (hcurr rfl))
    · exact h.noneOpen ha k hold
  have htask : s.activeTaskId = none := by
    cases htask : s.activeTaskId with
    | none => rfl
    | some k =>
      have hk : Open s.log k := h.task k htask
      rcases hg with rfl | ha
      · obtain rfl := h.only k n hk (hcurr rfl)
        rcases h.named k hk with ⟨-, hnone⟩ | ⟨-, hname⟩
        · rw [htask] at hnone
          cases hnone
        · exact absurd hname hdis
      · exact absurd hk (h.noneOpen ha k)
  have hcur : current (s.log ++ [.failed n]) = current s.log := by
    rw [current_snoc]
    rfl
  constructor
  · simp only [Thinking.record_active, Thinking.record_log, hopen]
    simp
  · exact fun k j hk => absurd hk (hopen k)
  · exact fun k hk => absurd hk (hopen k)
  · intro k hk
    have hk' : s.activeTaskId = some k := hk
    rw [htask] at hk'
    cases hk'
  · intro k g' hk
    have hkn : k ≠ n := by
      rintro rfl
      simp at hk
    obtain ⟨hle, hc, hold, hd, hf, hk'⟩ := h.requesting k g' (by simpa [hkn] using hk)
    simp only [Thinking.record_log, Thinking.record_generation, hcur]
    refine ⟨hle, fun he => ?_, hold, by simpa using hd, by simpa [hkn] using hf, by simpa using hk'⟩
    -- another dispatch of this generation would be open as well
    rcases hg with rfl | ha
    · exact absurd (h.only k n (hc he) (hcurr rfl)) hkn
    · exact absurd (hc he) (h.noneOpen ha k)
  · intro k hk
    have hkn : k ≠ n := by
      rintro rfl
      simp at hk
    obtain ⟨hc, hd, hf, hk'⟩ := h.idle k (by simpa [hkn] using hk)
    simp only [Thinking.record_log, hcur]
    exact ⟨hc, by simpa using hd, by simpa [hkn] using hf, by simpa using hk'⟩
  · intro k hk
    have hkd : Event.dispatched k ∈ s.log := by simpa using hk
    have hkn : k ≠ n := by
      rintro rfl
      exact hdis hkd
    simpa [hkn] using h.dispatched k hkd
  · rw [Thinking.record_log, waiting_snoc]
    exact h.pending
  · rw [Thinking.record_log, along_concat]
    exact ⟨h.taken, fun k r hr => by cases hr⟩

/-- A dispatch returns the id of its job, which counts only if nothing was cleared. -/
theorem Tracked.dispatch (h : Tracked site s) {g : ℕ} (hl : site (.start n) = .requesting g)
    (hla : l = .framing ∨ l = .finished) {s' : Thinking}
    (hs : s' = if g = s.generation then { s.record (.dispatched n) with activeTaskId := some n }
      else s.record (.dispatched n)) :
    Tracked (Function.update site (.start n) l) s' := by
  obtain ⟨-, hcurr, hold, hdis, hfail, hans⟩ := h.requesting n g hl
  have hcur : current (s.log ++ [.dispatched n]) = current s.log := by
    rw [current_snoc]
    rfl
  have hopen : ∀ k, Open (s.log ++ [.dispatched n]) k ↔ Open s.log k := by
    intro k
    simp [Open, hcur]
  have hlog : s'.log = s.log ++ [.dispatched n] := by rw [hs]; split <;> rfl
  have hgen : s'.generation = s.generation := by rw [hs]; split <;> rfl
  have hact : s'.active = s.active := by rw [hs]; split <;> rfl
  have hpend : s'.pending = s.pending := by rw [hs]; split <;> rfl
  have htask : s'.activeTaskId = if g = s.generation then some n else s.activeTaskId := by
    rw [hs]
    split <;> rfl
  constructor
  · simpa only [hact, hlog, hopen] using h.active
  · simpa only [hlog, hopen] using h.only
  · intro k hk
    rw [hlog, hopen] at hk
    rw [hlog, hgen, htask]
    by_cases hg : g = s.generation
    · obtain rfl := h.only k n hk (hcurr hg)
      exact .inr ⟨if_pos hg, by simp⟩
    · have hkn : k ≠ n := by
        rintro rfl
        exact hold hg hk.1
      rw [if_neg hg]
      rcases h.named k hk with ⟨hreq, hnone⟩ | ⟨hname, hkd⟩
      · exact .inl ⟨by simpa [hkn] using hreq, hnone⟩
      · exact .inr ⟨hname, List.mem_append_left _ hkd⟩
  · intro k hk
    rw [htask] at hk
    rw [hlog, hopen]
    split at hk
    · rename_i hg
      obtain rfl := Option.some.inj hk
      exact hcurr hg
    · exact h.task k hk
  · intro k g' hk
    have hkn : k ≠ n := by
      rintro rfl
      rcases hla with rfl | rfl <;> simp at hk
    simpa [hlog, hgen, hopen, hcur, hkn] using h.requesting k g' (by simpa [hkn] using hk)
  · intro k hk
    have hkn : k ≠ n := by
      rintro rfl
      rcases hla with rfl | rfl <;> simp at hk
    simpa [hlog, hcur, hkn] using h.idle k (by simpa [hkn] using hk)
  · intro k hk
    rw [hlog] at hk ⊢
    rcases List.mem_append.mp hk with hk | hk
    · simpa using h.dispatched k hk
    · obtain rfl : k = n := by simpa using hk
      simpa using hfail
  · rw [hpend, hlog, waiting_snoc]
    exact h.pending
  · rw [hlog, along_concat]
    exact ⟨h.taken, fun k r hr => by cases hr⟩

/-- A pass is answered; if it is the active one, it is open no more. -/
theorem Tracked.answer (h : Tracked site s)
    (hk : .dispatched n ∈ s.log ∨ .failed n ∈ s.log) {s' : Thinking}
    (hs : s' = if s.activeTaskId = some n then
        { s.record (.answered n) with active := false, activeTaskId := none }
      else s.record (.answered n)) : Tracked site s' := by
  have hcur : current (s.log ++ [.answered n]) = current s.log := by
    rw [current_snoc]
    rfl
  have hopen : ∀ k, Open (s.log ++ [.answered n]) k ↔ Open s.log k ∧ k ≠ n := by
    intro k
    simp only [Open, hcur, List.mem_append, List.mem_singleton, reduceCtorEq, or_false,
      Event.answered.injEq]
    tauto
  -- an open pass that is answered is the active one
  have hactive : Open s.log n → s.activeTaskId = some n := by
    intro hn
    rcases h.named n hn with ⟨hreq, -⟩ | ⟨hname, -⟩
    · obtain ⟨-, -, -, hd, hf, -⟩ := h.requesting n _ hreq
      rcases hk with hk | hk
      · exact absurd hk hd
      · exact absurd hk hf
    · exact hname
  have hlog : s'.log = s.log ++ [.answered n] := by rw [hs]; split <;> rfl
  have hgen : s'.generation = s.generation := by rw [hs]; split <;> rfl
  have hpend : s'.pending = s.pending := by rw [hs]; split <;> rfl
  have hknown : ∀ k, Event.dispatched k ∉ s.log → Event.failed k ∉ s.log → k ≠ n := by
    rintro k hd hf rfl
    exact hk.elim hd hf
  have hrequesting : ∀ k g, site (.start k) = .requesting g → g ≤ s'.generation ∧
      (g = s'.generation → Open s'.log k) ∧ (g ≠ s'.generation → k ∉ current s'.log) ∧
      .dispatched k ∉ s'.log ∧ .failed k ∉ s'.log ∧ .answered k ∉ s'.log := by
    intro k g hreq
    obtain ⟨hle, hc, hold, hd, hf, ha⟩ := h.requesting k g hreq
    have hkn : k ≠ n := hknown k hd hf
    simp only [hlog, hgen, hopen, hcur]
    exact ⟨hle, fun he => ⟨hc he, hkn⟩, hold, by simpa using hd, by simpa using hf,
      by simpa [hkn] using ha⟩
  have hidle : ∀ k, site (.start k) = .idle → k ∉ current s'.log ∧ .dispatched k ∉ s'.log ∧
      .failed k ∉ s'.log ∧ .answered k ∉ s'.log := by
    intro k hid
    obtain ⟨hc, hd, hf, ha⟩ := h.idle k hid
    have hkn : k ≠ n := hknown k hd hf
    simp only [hlog, hcur]
    exact ⟨hc, by simpa using hd, by simpa using hf, by simpa [hkn] using ha⟩
  have hdispatched : ∀ k, Event.dispatched k ∈ s'.log → Event.failed k ∉ s'.log := by
    intro k hkd
    rw [hlog] at hkd ⊢
    simpa using h.dispatched k (by simpa using hkd)
  have hpending : s'.pending = waiting s'.log := by
    rw [hpend, hlog, waiting_snoc]
    exact h.pending
  have htaken : Along TakesQueued s'.log := by
    rw [hlog, along_concat]
    exact ⟨h.taken, fun k r hr => by cases hr⟩
  by_cases ha : s.activeTaskId = some n
  · have hnone : ∀ k, ¬ Open s'.log k := by
      intro k hko
      rw [hlog, hopen] at hko
      exact hko.2 (h.only k n hko.1 (h.task n ha))
    have hs' : s' = { s.record (.answered n) with active := false, activeTaskId := none } := by
      rw [hs, if_pos ha]
    refine ⟨?_, fun k j hko => absurd hko (hnone k), fun k hko => absurd hko (hnone k), ?_,
      hrequesting, hidle, hdispatched, hpending, htaken⟩
    · simp only [hnone, exists_false, iff_false]
      rw [hs']
      simp
    · intro k hkt
      rw [hs'] at hkt
      cases hkt
  · have hnot : ¬ Open s.log n := fun hn => ha (hactive hn)
    have hsame : ∀ k, Open s'.log k ↔ Open s.log k := by
      intro k
      rw [hlog, hopen]
      refine ⟨And.left, fun hko => ⟨hko, ?_⟩⟩
      rintro rfl
      exact hnot hko
    have hs' : s' = s.record (.answered n) := by rw [hs, if_neg ha]
    refine ⟨?_, ?_, ?_, ?_, hrequesting, hidle, hdispatched, hpending, htaken⟩
    · simp only [hsame]
      rw [hs']
      exact h.active
    · simpa only [hsame] using h.only
    · intro k hko
      rw [hsame] at hko
      rw [hs']
      exact (h.named k hko).imp_right fun hn => ⟨hn.1, List.mem_append_left _ hn.2⟩
    · intro k hkt
      rw [hsame]
      rw [hs'] at hkt
      exact h.task k hkt

theorem Tracked.clear (h : Tracked site s) : Tracked site s.clearPending := by
  have hcur : current (s.log ++ [.cleared]) = [] := by
    rw [current_snoc]
    rfl
  have hlog : s.clearPending.log = s.log ++ [.cleared] := rfl
  have hopen : ∀ k, ¬ Open s.clearPending.log k := by
    intro k hk
    have hmem := hk.1
    rw [hlog, hcur] at hmem
    cases hmem
  constructor
  · simp only [hopen, exists_false, iff_false]
    simp [Thinking.clearPending]
  · exact fun k j hk => absurd hk (hopen k)
  · exact fun k hk => absurd hk (hopen k)
  · intro k hk
    cases hk
  · intro k g hk
    obtain ⟨hle, -, -, hd, hf, ha⟩ := h.requesting k g hk
    refine ⟨le_trans hle (Nat.le_succ _), fun he => ?_, fun _ => ?_, ?_⟩
    · have hsucc : g = s.generation + 1 := he
      omega
    · rw [hlog, hcur]
      exact List.not_mem_nil
    · rw [hlog]
      exact ⟨by simpa using hd, by simpa using hf, by simpa using ha⟩
  · intro k hk
    obtain ⟨-, hd, hf, ha⟩ := h.idle k hk
    rw [hlog, hcur]
    exact ⟨List.not_mem_nil, by simpa using hd, by simpa using hf, by simpa using ha⟩
  · intro k hk
    rw [hlog] at hk ⊢
    simpa using h.dispatched k (by simpa using hk)
  · rw [hlog, waiting_snoc]
    rfl
  · rw [hlog, along_concat]
    exact ⟨h.taken, fun k r hr => by cases hr⟩

theorem Tracked.queue (h : Tracked site s) (transcript reason : Text) :
    Tracked site (s.queue transcript reason) := by
  unfold Thinking.queue
  simp only
  split
  · exact h
  · have hcur : current (s.log ++ [.queued ⟨strip transcript, reason⟩]) = current s.log := by
      rw [current_snoc]
      rfl
    have hopen : ∀ k, Open (s.log ++ [.queued ⟨strip transcript, reason⟩]) k ↔ Open s.log k := by
      intro k
      simp [Open, hcur]
    constructor
    · simpa only [Thinking.record_active, Thinking.record_log, hopen] using h.active
    · simpa only [Thinking.record_log, hopen] using h.only
    · intro k hk
      rw [Thinking.record_log, hopen] at hk
      exact (h.named k hk).imp_right fun hn => ⟨hn.1, List.mem_append_left _ hn.2⟩
    · intro k hk
      rw [Thinking.record_log, hopen]
      exact h.task k hk
    · intro k g hk
      simpa [hopen, hcur] using h.requesting k g hk
    · intro k hk
      simpa [hcur] using h.idle k hk
    · intro k hk
      simpa using h.dispatched k (by simpa using hk)
    · rw [Thinking.record_log, waiting_snoc]
      rfl
    · rw [Thinking.record_log, along_concat]
      exact ⟨h.taken, fun k r hr => by cases hr⟩

end Moves

section Programs
variable {v : ThinkingView} {s : Thinking} {t : Task} {n m : ℕ}
  {Q : Unit → ThinkingView → Thinking → Prop} {E : Exception → ThinkingView → Thinking → Prop}

/-- A call that leaves. -/
abbrev Left (t : Task) (v : ThinkingView) (s : Thinking) : Prop :=
  Tracked (Function.update v.site t .finished) s

theorem wp_queueFrame (f : Frame) (hs : Tracked (Function.update v.site t .framing) s)
    (h : ∀ v', Left t v' v'.shared → Q () v' v'.shared)
    (hE : ∀ e v', Left t v' v'.shared → E e v' v'.shared) :
    Wp activityContract t Q E (queueFrame f) v s := by
  simp only [queueFrame, wp_bind, wp_modify]
  rw [wp_pause]
  refine ⟨⟨hs.same rfl rfl rfl rfl rfl, fun _ _ => trivial⟩, fun v' i _ hi hl _ => ?_⟩
  have hleft : Left t v' v'.shared := by
    cases t with
    | respond m => exact hi.respond m _
    | start n =>
      refine hi.leave (fun hn => ?_) (.inr rfl)
      rcases hi.named n hn with ⟨hreq, -⟩ | ⟨hname, -⟩
      · rw [hl] at hreq
        cases hreq
      · exact hname
  split
  · exact hE _ v' hleft
  · exact h v' hleft

theorem wp_startPending (hi : Tracked v.site v.shared) (hl : v.site (.start n) = .idle)
    (hfree : startsFree v (.start n) .start)
    (h : ∀ v' s', Left (.start n) v' s' → Q () v' s')
    (hE : ∀ e v' s', Left (.start n) v' s' → E e v' s') :
    Wp activityContract (.start n) Q E (startPending n) v v.shared := by
  simp only [startPending, wp_bind, wp_get, wp_modify]
  have hnot : Open v.shared.log n → v.shared.activeTaskId = some n := by
    intro hn
    exact absurd hn.1 (hi.idle n hl).1
  split
  · rename_i hnone
    have hnone' : v.shared.pending = none := hnone
    have htaken : Tracked v.site { v.shared with pending := none } :=
      hi.same rfl rfl rfl hnone'.symm rfl
    exact h v _ (htaken.leave hnot (.inr rfl))
  · rename_i request hsome
    have hsome' : v.shared.pending = some request := hsome
    have hact : v.shared.active = false := hfree hl (by rw [hsome']; simp)
    rw [if_neg (by rw [hact]; simp)]
    simp only [wp_bind, wp_modify]
    rw [wp_pause]
    refine ⟨⟨hi.start hl hact hsome', fun _ _ => trivial⟩, fun v' i _ hi' hl' hallow => ?_⟩
    split
    · rename_i hfailed
      refine h v' _ (hi'.fail hl' ?_)
      have hcurrent : failsCurrent v' (.start n) i := hallow.2.2
      rw [hfailed] at hcurrent
      exact hcurrent _ hl'
    · simp only [wp_bind, wp_modify, wp_get]
      split
      · rename_i hg
        refine h v' _ (hi'.dispatch hl' (.inr rfl) ?_)
        exact (if_neg hg).symm
      · rename_i hg
        have hgen : v.shared.generation = v'.shared.generation := not_not.mp hg
        simp only [wp_bind, wp_modify]
        refine wp_queueFrame _ (hi'.dispatch hl' (.inl rfl) ?_) (fun v₂ => h v₂ _)
          fun e v₂ => hE e v₂ _
        exact (if_pos hgen).symm

theorem wp_handleJobResponse {r : Response} (hi : Tracked v.site v.shared)
    (hk : .dispatched n ∈ v.shared.log ∨ .failed n ∈ v.shared.log)
    (h : ∀ v' s', Left (.respond m) v' s' → Q () v' s')
    (hE : ∀ e v' s', Left (.respond m) v' s' → E e v' s') :
    Wp activityContract (.respond m) Q E (handleJobResponse n r) v v.shared := by
  have hframe : ∀ f (v' : ThinkingView) s' {Q' : Unit → ThinkingView → Thinking → Prop},
      Tracked v'.site s' → (∀ v', Tracked v'.site v'.shared → Q' () v' v'.shared) →
      Wp activityContract (.respond m) Q' E (queueFrame f) v' s' := by
    intro f v' s' Q' hs hQ'
    simp only [queueFrame, wp_bind, wp_modify]
    rw [wp_pause]
    have hframes : Tracked v'.site { s' with frames := s'.frames ++ [f] } :=
      hs.same rfl rfl rfl rfl rfl
    refine ⟨⟨hframes.respond m _, fun _ _ => trivial⟩, fun v₂ i _ hi₂ _ _ => ?_⟩
    split
    · exact hE _ v₂ _ (hi₂.respond m _)
    · exact hQ' v₂ hi₂
  simp only [handleJobResponse, wp_bind, wp_get, wp_modify]
  split
  · rename_i hne
    refine h v _ ((hi.answer hk ?_).respond m _)
    exact (if_neg hne).symm
  · rename_i heq
    have hactive : v.shared.activeTaskId = some n := not_not.mp heq
    have hdone : Tracked v.site
        { v.shared.record (.answered n) with active := false, activeTaskId := none } :=
      hi.answer hk (if_pos hactive).symm
    simp only [wp_bind, wp_modify]
    split
    · exact hframe _ v _ hdone fun v' hi' => h v' _ (hi'.respond m _)
    · rw [wp_bind, wp_pause]
      refine ⟨⟨hdone.respond m _, fun _ _ => trivial⟩, fun v' i _ hi' _ _ => ?_⟩
      simp only [wp_bind, wp_get]
      split
      · exact h v' _ (hi'.respond m _)
      · simp only [speak, wp_bind, wp_modify]
        have hspeak : Tracked v'.site (v'.shared.record (.speaks n)) :=
          hi'.record _ rfl rfl (by simp) (by simp) (by simp) (by simp)
        refine hframe _ v' _ hspeak fun v₁ hi₁ => ?_
        refine hframe _ v₁ _ hi₁ fun v₂ hi₂ => ?_
        refine hframe _ v₂ _ hi₂ fun v₃ hi₃ => ?_
        exact hframe _ v₃ _ hi₃ fun v₄ hi₄ => h v₄ _ (hi₄.respond m _)

theorem wp_turn {loop : Loop} {i : Reply} (hi : Tracked v.site v.shared)
    (hl : v.site t = thinking.head t loop) (ha : activityContract.allowed v t i) :
    Wp activityContract t (fun b v s => Ends activityContract thinking t b v s)
      (fun e v s => Ends activityContract thinking t (thinking.crash t e) v s)
      (turn t loop i) v v.shared := by
  unfold turn
  split
  · simp only [wp_bind, wp_pure]
    exact wp_startPending hi hl ha.2.1 (fun _ _ hleft => ⟨hleft, fun _ _ => trivial⟩)
      fun _ _ _ hleft => ⟨hleft, fun _ _ => trivial⟩
  · simp only [wp_bind, wp_pure]
    exact wp_handleJobResponse hi (ha.1 hl) (fun _ _ hleft => ⟨hleft, fun _ _ => trivial⟩)
      fun _ _ _ hleft => ⟨hleft, fun _ _ => trivial⟩
  · exact ⟨hi.at hl, fun _ _ => trivial⟩

theorem keeps_activityContract : Keeps activityContract thinking outside where
  refl _ _ := trivial
  trans _ _ _ _ _ _ := trivial
  outside v s hi henv := by
    refine ⟨?_, fun _ => trivial⟩
    rcases henv with ⟨transcript, reason, rfl⟩ | rfl
    · exact Tracked.queue hi transcript reason
    · exact Tracked.clear hi
  body _ _ _ _ hi hl ha := wp_turn hi hl ha

end Programs

theorem tracked_fresh : Tracked freshThinking.view.site freshThinking.view.shared where
  active := by
    simp [freshThinking, System.start, Pool.view, Open, current]
  only n k hn := absurd hn.1 List.not_mem_nil
  named n hn := absurd hn.1 List.not_mem_nil
  task n hn := by
    have hnone : (none : Option ℕ) = some n := hn
    cases hnone
  requesting n g hn := by
    have hidle : Site.idle = .requesting g := hn
    cases hidle
  idle n _ := ⟨List.not_mem_nil, List.not_mem_nil, List.not_mem_nil, List.not_mem_nil⟩
  dispatched n hn := absurd hn List.not_mem_nil
  pending := rfl
  taken := along_nil

/-- No call of `start_pending` is suspended. -/
def Quiet (p : ThinkingPool) : Prop :=
  ∀ n, p.view.site (.start n) = .idle ∨ p.view.site (.start n) = .finished

/-- `_active` tells whether a dispatched pass is outstanding and `_active_task_id` which one it
is; a queued request stays until it is dispatched, replaced or cleared. -/
theorem activity_tracked {p : ThinkingPool}
    (h : thinking.Reach (fun v t i => answersKnown v t i ∧ startsFree v t i ∧ failsCurrent v t i)
      outside freshThinking p) :
    (Quiet p → (p.shared.active = true ↔ ∃ n, Outstanding p.shared.log n) ∧
      ∀ n, Outstanding p.shared.log n → p.shared.activeTaskId = some n) ∧
    p.shared.pending = waiting p.shared.log ∧ Along TakesQueued p.shared.log := by
  have hinv : Tracked p.view.site p.shared := keeps_activityContract.invariant tracked_fresh h
  refine ⟨fun hquiet => ?_, hinv.pending, hinv.taken⟩
  have hnamed : ∀ n, Open p.shared.log n →
      p.shared.activeTaskId = some n ∧ .dispatched n ∈ p.shared.log := by
    intro n hn
    rcases hinv.named n hn with ⟨hreq, -⟩ | hname
    · rcases hquiet n with hq | hq
      · rw [hreq] at hq
        cases hq
      · rw [hreq] at hq
        cases hq
    · exact hname
  have hopen : ∀ n, Open p.shared.log n ↔ Outstanding p.shared.log n := fun n =>
    ⟨fun hn => ⟨(hnamed n hn).2, hn.1, hn.2.2⟩,
      fun hn => ⟨hn.2.1, hinv.dispatched n hn.1, hn.2.2⟩⟩
  refine ⟨hinv.active.trans (exists_congr hopen), fun n hn => ?_⟩
  exact (hnamed n ((hopen n).mpr hn)).1

/-- A request and its dispatch. -/
def dispatchedOnce : List (System.Act Thinking Reply Task) :=
  [.outside fun s => s.queue ['a'] [], .turn (.start 0) .start, .turn (.start 0) .go,
    .turn (.start 0) .go]

theorem activity_tracked_once :
    let p := thinking.play freshThinking dispatchedOnce
    (p.shared.active = true ↔ ∃ n, Outstanding p.shared.log n) ∧
      p.shared.pending = waiting p.shared.log := by
  intro p
  have hplay : thinking.Playable
      (fun v t i => answersKnown v t i ∧ startsFree v t i ∧ failsCurrent v t i) outside
      freshThinking dispatchedOnce :=
    ⟨.inl ⟨['a'], [], rfl⟩, ⟨trivial, fun _ _ => rfl, trivial⟩, ⟨trivial, trivial, trivial⟩,
      ⟨trivial, trivial, trivial⟩, trivial⟩
  have htracked := activity_tracked (System.reach_play hplay)
  refine ⟨(htracked.1 fun n => ?_).1, htracked.2.1⟩
  cases n with
  | zero => exact .inr (by decide)
  | succ n => exact .inl rfl

/-- The job is answered before the call that requests it has its id. -/
def answeredEarly : List (System.Act Thinking Reply Task) :=
  [.outside fun s => s.queue ['a'] [], .turn (.start 0) .start,
    .turn (.respond 0) (.response 0 { response := ['b'] }), .turn (.start 0) .go,
    .turn (.start 0) .go]

/-- The pass then stays active though nothing is outstanding. -/
theorem answered_early_stuck :
    ¬ ∀ p, thinking.Reach jobExists outside freshThinking p → Quiet p →
      (p.shared.active = true ↔ ∃ n, Outstanding p.shared.log n) := by
  intro h
  have hplay : thinking.Playable jobExists outside freshThinking answeredEarly :=
    ⟨.inl ⟨['a'], [], rfl⟩, trivial, ⟨⟨['a'], []⟩, by decide⟩, trivial, trivial, trivial⟩
  have hiff := h _ (System.reach_play hplay) fun n => by
    cases n with
    | zero => exact .inr (by decide)
    | succ n => exact .inl rfl
  obtain ⟨n, hdis, -, hans⟩ := hiff.mp (by decide)
  have hlog : (thinking.play freshThinking answeredEarly).shared.log =
      [.queued ⟨['a'], []⟩, .starts 0 ⟨['a'], []⟩, .answered 0, .dispatched 0] := by
    decide
  rw [hlog] at hdis hans
  obtain rfl : n = 0 := by simpa using hdis
  exact hans (by simp)

end VoiceAgent.ThinkingActivity
