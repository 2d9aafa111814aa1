import VoiceAgent.ThinkingController
import VoiceAgent.History

/-!
No stale answer of the Thinker: whatever the interleaving, an answer begins to be spoken only
for a pass that was dispatched and not cleared since its dispatch began, and only once.
-/
namespace VoiceAgent.ThinkingFreshness

open StreamingEvents Coroutine Interleaving History ThinkingController

/-- A pass is spoken when it is current and dispatched, and for the first time. -/
def Timely (before : List Event) (e : Event) : Prop :=
  ∀ n, e = .speaks n → n ∈ current before ∧ .dispatched n ∈ before ∧ .speaks n ∉ before

/-- The answer of a pass is spoken, or about to be. -/
def Spent (site : Task → Site) (log : List Event) (n : ℕ) : Prop :=
  .speaks n ∈ log ∨ ∃ m g, site (.respond m) = .delaying n g

/-- The job of a pass has no known id yet. -/
def Unnamed : Site → Bool
  | .idle | .requesting _ => true
  | _ => false

structure Fresh (site : Task → Site) (s : Thinking) : Prop where
  requesting : ∀ n g, site (.start n) = .requesting g →
    g ≤ s.generation ∧ (g = s.generation → n ∈ current s.log)
  unnamed : ∀ n, Unnamed (site (.start n)) = true →
    s.activeTaskId ≠ some n ∧ ¬ Spent site s.log n
  active : ∀ n, s.activeTaskId = some n →
    n ∈ current s.log ∧ .dispatched n ∈ s.log ∧ ¬ Spent site s.log n
  delaying : ∀ m n g, site (.respond m) = .delaying n g →
    g ≤ s.generation ∧ (g = s.generation → n ∈ current s.log) ∧ .dispatched n ∈ s.log ∧
      .speaks n ∉ s.log
  alone : ∀ m m' n g g', site (.respond m) = .delaying n g →
    site (.respond m') = .delaying n g' → m = m'
  timely : Along Timely s.log

def freshContract : Contract Task Site Thinking Reply where
  inv v := Fresh v.site v.shared
  rely _ _ _ := True
  allowed _ _ _ := True

section Moves
variable {site : Task → Site} {s s' : Thinking} {n m : ℕ} {l : Site} {t : Task}

/-- Only the generation, the active job and the record count. -/
theorem Fresh.same (h : Fresh site s) (hg : s'.generation = s.generation)
    (ha : s'.activeTaskId = s.activeTaskId) (hl : s'.log = s.log) : Fresh site s' := by
  constructor
  · rw [hg, hl]
    exact h.requesting
  · rw [ha, hl]
    exact h.unnamed
  · rw [ha, hl]
    exact h.active
  · rw [hg, hl]
    exact h.delaying
  · exact h.alone
  · rw [hl]
    exact h.timely

/-- A call stands where it stands. -/
theorem Fresh.at (h : Fresh site s) (hl : site t = l) : Fresh (Function.update site t l) s := by
  rw [← hl, Function.update_eq_self]
  exact h

/-- An event that neither begins, clears nor speaks a pass. -/
theorem Fresh.record (h : Fresh site s) (e : Event) (hcur : begun (current s.log) e = current s.log)
    (he : ∀ n, e ≠ .speaks n) : Fresh site (s.record e) := by
  have hlog : (s.record e).log = s.log ++ [e] := rfl
  have hmem : ∀ n, Event.speaks n ∈ s.log ++ [e] ↔ Event.speaks n ∈ s.log := by
    intro n
    simp [Ne.symm (he n)]
  have hspent : ∀ n, Spent site (s.log ++ [e]) n ↔ Spent site s.log n := by
    intro n
    rw [Spent, hmem, Spent]
  have hcurrent : current (s.log ++ [e]) = current s.log := by rw [current_snoc, hcur]
  constructor
  · rw [hlog, hcurrent]
    exact h.requesting
  · intro k hk
    rw [hlog, hspent]
    exact h.unnamed k hk
  · intro k hk
    rw [hlog, hspent, hcurrent]
    obtain ⟨hc, hd, hs⟩ := h.active k hk
    exact ⟨hc, List.mem_append_left _ hd, hs⟩
  · intro k j g hk
    rw [hlog, hmem, hcurrent]
    obtain ⟨hg, hc, hd, hs⟩ := h.delaying k j g hk
    exact ⟨hg, hc, List.mem_append_left _ hd, hs⟩
  · exact h.alone
  · rw [hlog, along_concat]
    exact ⟨h.timely, fun n hn => absurd hn (he n)⟩

/-- A call that leaves for a place of no account. -/
theorem Fresh.leave (h : Fresh site s) (t : Task) (hl : l = .framing ∨ l = .finished) :
    Fresh (Function.update site t l) s := by
  have hdelay : ∀ m n g, Function.update site t l (.respond m) = .delaying n g →
      site (.respond m) = .delaying n g := by
    intro m n g hm
    by_cases ht : Task.respond m = t
    · subst t
      rcases hl with rfl | rfl <;> simp at hm
    · simpa [ht] using hm
  have hspent : ∀ n, Spent (Function.update site t l) s.log n → Spent site s.log n := by
    rintro n (hs | ⟨m, g, hm⟩)
    · exact .inl hs
    · exact .inr ⟨m, g, hdelay m n g hm⟩
  constructor
  · intro n g hn
    by_cases ht : Task.start n = t
    · subst t
      rcases hl with rfl | rfl <;> simp at hn
    · exact h.requesting n g (by simpa [ht] using hn)
  · intro n hn
    by_cases ht : Task.start n = t
    · subst t
      rcases hl with rfl | rfl <;> simp [Unnamed] at hn
    · obtain ⟨ha, hs⟩ := h.unnamed n (by simpa [ht] using hn)
      exact ⟨ha, fun hsp => hs (hspent n hsp)⟩
  · intro n hn
    obtain ⟨hc, hd, hs⟩ := h.active n hn
    exact ⟨hc, hd, fun hsp => hs (hspent n hsp)⟩
  · exact fun m n g hm => h.delaying m n g (hdelay m n g hm)
  · exact fun m m' n g g' hm hm' => h.alone m m' n g g' (hdelay _ _ _ hm) (hdelay _ _ _ hm')
  · exact h.timely

/-- A dispatch begins. -/
theorem Fresh.start (h : Fresh site s) (hl : site (.start n) = .idle) (request : Request) :
    Fresh (Function.update site (.start n) (.requesting s.generation))
      ({ s with active := true }.record (.starts n request)) := by
  have hcur : current (s.log ++ [.starts n request]) = n :: current s.log := by
    rw [current_snoc]
    rfl
  have hspent : ∀ k, Spent (Function.update site (.start n) (.requesting s.generation))
      (s.log ++ [.starts n request]) k ↔ Spent site s.log k := by
    intro k
    simp [Spent]
  have hlog : ({ s with active := true }.record (.starts n request)).log =
      s.log ++ [.starts n request] := rfl
  constructor
  · intro k g hk
    rw [hlog, hcur]
    by_cases hkn : k = n
    · subst k
      obtain rfl : s.generation = g := by simpa using hk
      exact ⟨le_rfl, fun _ => List.mem_cons_self⟩
    · obtain ⟨hg, hc⟩ := h.requesting k g (by simpa [hkn] using hk)
      exact ⟨hg, fun he => List.mem_cons_of_mem _ (hc he)⟩
  · intro k hk
    rw [hlog, hspent]
    by_cases hkn : k = n
    · subst k
      exact h.unnamed n (by rw [hl]; rfl)
    · exact h.unnamed k (by simpa [hkn] using hk)
  · intro k hk
    obtain ⟨hc, hd, hs⟩ := h.active k hk
    rw [hlog, hspent, hcur]
    exact ⟨List.mem_cons_of_mem _ hc, List.mem_append_left _ hd, hs⟩
  · intro m k g hm
    obtain ⟨hg, hc, hd, hs⟩ := h.delaying m k g (by simpa using hm)
    rw [hlog, hcur]
    exact ⟨hg, fun he => List.mem_cons_of_mem _ (hc he), List.mem_append_left _ hd,
      by simpa using hs⟩
  · intro m m' k g g' hm hm'
    exact h.alone m m' k g g' (by simpa using hm) (by simpa using hm')
  · change Along Timely (s.log ++ [.starts n request])
    rw [along_concat]
    exact ⟨h.timely, fun k hk => by cases hk⟩

/-- The job of a pass is known, and the pass still current. -/
theorem Fresh.name (h : Fresh site s) (hl : site (.start n) = .requesting s.generation)
    (hd : .dispatched n ∈ s.log) :
    Fresh (Function.update site (.start n) .framing) { s with activeTaskId := some n } := by
  have hleft := h.leave (.start n) (.inl rfl)
  have hunspent : ¬ Spent site s.log n := (h.unnamed n (by rw [hl]; rfl)).2
  constructor
  · exact hleft.requesting
  · intro k hk
    have hkn : n ≠ k := by
      rintro rfl
      simp [Unnamed] at hk
    exact ⟨fun he => hkn (Option.some.inj he), (hleft.unnamed k hk).2⟩
  · intro k hk
    obtain rfl : n = k := Option.some.inj hk
    refine ⟨(h.requesting n _ hl).2 rfl, hd, ?_⟩
    simpa [Spent] using hunspent
  · exact hleft.delaying
  · exact hleft.alone
  · exact hleft.timely

/-- The active pass is answered. -/
theorem Fresh.drop (h : Fresh site s) :
    Fresh site { s with active := false, activeTaskId := none } where
  requesting := h.requesting
  unnamed n hn := ⟨by simp, (h.unnamed n hn).2⟩
  active n hn := by cases hn
  delaying := h.delaying
  alone := h.alone
  timely := h.timely

/-- The answer of the active pass waits for its delay. -/
theorem Fresh.accept (h : Fresh site s) (ha : s.activeTaskId = some n) (m : ℕ) :
    Fresh (Function.update site (.respond m) (.delaying n s.generation))
      { s with active := false, activeTaskId := none } := by
  obtain ⟨hcur, hdis, hunspent⟩ := h.active n ha
  have hspent : ∀ k, Spent (Function.update site (.respond m) (.delaying n s.generation)) s.log k →
      Spent site s.log k ∨ k = n := by
    rintro k (hs | ⟨j, g, hj⟩)
    · exact .inl (.inl hs)
    · by_cases hjm : j = m
      · subst j
        obtain ⟨rfl, -⟩ : n = k ∧ s.generation = g := by simpa using hj
        exact .inr rfl
      · exact .inl (.inr ⟨j, g, by simpa [hjm] using hj⟩)
  have hnone : ∀ j g, site (.respond j) ≠ .delaying n g := fun j g hj => hunspent (.inr ⟨j, g, hj⟩)
  constructor
  · intro k g hk
    exact h.requesting k g (by simpa using hk)
  · intro k hk
    obtain ⟨hak, hsk⟩ := h.unnamed k (by simpa using hk)
    refine ⟨by simp, fun hsp => ?_⟩
    rcases hspent k hsp with hs | rfl
    · exact hsk hs
    · exact hak ha
  · intro k hk
    cases hk
  · intro j k g hj
    by_cases hjm : j = m
    · subst j
      obtain ⟨rfl, rfl⟩ : n = k ∧ s.generation = g := by simpa using hj
      exact ⟨le_rfl, fun _ => hcur, hdis, fun hs => hunspent (.inl hs)⟩
    · exact h.delaying j k g (by simpa [hjm] using hj)
  · intro j j' k g g' hj hj'
    by_cases hjm : j = m
    · by_cases hjm' : j' = m
      · rw [hjm, hjm']
      · subst j
        obtain ⟨rfl, -⟩ : n = k ∧ s.generation = g := by simpa using hj
        exact absurd (by simpa [hjm'] using hj') (hnone j' g')
    · by_cases hjm' : j' = m
      · subst j'
        obtain ⟨rfl, -⟩ : n = k ∧ s.generation = g' := by simpa using hj'
        exact absurd (by simpa [hjm] using hj) (hnone j g)
      · exact h.alone j j' k g g' (by simpa [hjm] using hj) (by simpa [hjm'] using hj')
  · exact h.timely

/-- The first frame of an answer whose pass is still current. -/
theorem Fresh.speak (h : Fresh site s) (hl : site (.respond m) = .delaying n s.generation) :
    Fresh (Function.update site (.respond m) .framing) (s.record (.speaks n)) := by
  have hleft := h.leave (.respond m) (.inl rfl)
  obtain ⟨-, hcur, hdis, hsp⟩ := h.delaying m n _ hl
  have hcurrent : current (s.log ++ [.speaks n]) = current s.log := by
    rw [current_snoc]
    rfl
  have hspent : ∀ k, Spent (Function.update site (.respond m) .framing) (s.log ++ [.speaks n]) k →
      Spent site s.log k := by
    rintro k (hs | ⟨j, g, hj⟩)
    · rcases List.mem_append.mp hs with hs | hs
      · exact .inl hs
      · obtain rfl : k = n := by simpa using hs
        exact .inr ⟨m, _, hl⟩
    · by_cases hjm : j = m
      · simp [hjm] at hj
      · exact .inr ⟨j, g, by simpa [hjm] using hj⟩
  constructor
  · intro k g hk
    obtain ⟨hg, hc⟩ := hleft.requesting k g hk
    exact ⟨hg, fun he => by rw [Thinking.record, hcurrent]; exact hc he⟩
  · intro k hk
    obtain ⟨ha, hs⟩ := h.unnamed k (by simpa using hk)
    exact ⟨ha, fun hspk => hs (hspent k hspk)⟩
  · intro k hk
    obtain ⟨hc, hd, hs⟩ := h.active k hk
    refine ⟨?_, List.mem_append_left _ hd, fun hspk => hs (hspent k hspk)⟩
    rw [Thinking.record, hcurrent]
    exact hc
  · intro j k g hj
    have hjm : j ≠ m := by
      rintro rfl
      simp at hj
    have hj' : site (.respond j) = .delaying k g := by simpa [hjm] using hj
    obtain ⟨hg, hc, hd, hs⟩ := h.delaying j k g hj'
    refine ⟨hg, fun he => by rw [Thinking.record, hcurrent]; exact hc he,
      List.mem_append_left _ hd, fun hmem => ?_⟩
    rcases List.mem_append.mp hmem with hmem | hmem
    · exact hs hmem
    · obtain rfl : k = n := by simpa using hmem
      exact hjm (h.alone j m k g _ hj' hl)
  · exact hleft.alone
  · change Along Timely (s.log ++ [.speaks n])
    rw [along_concat]
    refine ⟨h.timely, fun k hk => ?_⟩
    obtain rfl : n = k := by simpa using hk
    exact ⟨hcur rfl, hdis, hsp⟩

theorem Fresh.clear (h : Fresh site s) : Fresh site s.clearPending := by
  have hcurrent : current (s.log ++ [.cleared]) = [] := by
    rw [current_snoc]
    rfl
  have hspent : ∀ k, Spent site (s.log ++ [.cleared]) k ↔ Spent site s.log k := by
    intro k
    simp [Spent]
  constructor
  · intro k g hk
    obtain ⟨hg, -⟩ := h.requesting k g hk
    refine ⟨le_trans hg (Nat.le_succ _), fun he => ?_⟩
    have hg' : g = s.generation + 1 := he
    omega
  · intro k hk
    exact ⟨by simp [Thinking.clearPending, Thinking.record],
      fun hs => (h.unnamed k hk).2 ((hspent k).mp hs)⟩
  · intro k hk
    cases hk
  · intro m k g hm
    obtain ⟨hg, -, hd, hs⟩ := h.delaying m k g hm
    refine ⟨le_trans hg (Nat.le_succ _), fun he => ?_, List.mem_append_left _ hd, ?_⟩
    · have hg' : g = s.generation + 1 := he
      omega
    · simpa [Thinking.clearPending, Thinking.record] using hs
  · exact h.alone
  · change Along Timely (s.log ++ [.cleared])
    rw [along_concat]
    exact ⟨h.timely, fun k hk => by cases hk⟩

end Moves

section Programs
variable {v : ThinkingView} {s : Thinking} {t : Task} {n m : ℕ}
  {Q : Unit → ThinkingView → Thinking → Prop} {E : Exception → ThinkingView → Thinking → Prop}

/-- A call that leaves. -/
abbrev Left (t : Task) (v : ThinkingView) (s : Thinking) : Prop :=
  Fresh (Function.update v.site t .finished) s

theorem Fresh.left (h : Fresh v.site s) (t : Task) : Left t v s := h.leave t (.inr rfl)

/-- A frame is queued by a call that no longer counts. -/
theorem wp_queueFrame (f : Frame) (hs : Fresh (Function.update v.site t .framing) s)
    (h : ∀ v', Fresh v'.site v'.shared → Q () v' v'.shared)
    (hE : ∀ e v', Fresh v'.site v'.shared → E e v' v'.shared) :
    Wp freshContract t Q E (queueFrame f) v s := by
  simp only [queueFrame, wp_bind, wp_modify]
  rw [wp_pause]
  refine ⟨⟨hs.same rfl rfl rfl, fun _ _ => trivial⟩, fun v' i _ hi _ _ => ?_⟩
  split
  · exact hE _ v' hi
  · exact h v' hi

theorem wp_startPending (hi : Fresh v.site v.shared) (hl : v.site (.start n) = .idle)
    (h : ∀ v' s', Left (.start n) v' s' → Q () v' s')
    (hE : ∀ e v' s', Left (.start n) v' s' → E e v' s') :
    Wp freshContract (.start n) Q E (startPending n) v v.shared := by
  simp only [startPending, wp_bind, wp_get, wp_modify]
  have htaken : Fresh v.site { v.shared with pending := none } := hi.same rfl rfl rfl
  split
  · exact h v _ (htaken.left _)
  · rename_i request _
    split
    · exact h v _ (htaken.left _)
    · simp only [wp_bind, wp_modify]
      rw [wp_pause]
      refine ⟨⟨htaken.start hl request, fun _ _ => trivial⟩, fun v' i _ hi' hl' _ => ?_⟩
      split
      · have hfailed : Fresh v'.site { v'.shared with active := false } := hi'.same rfl rfl rfl
        exact h v' _ ((hfailed.record (.failed n) rfl (by simp)).left _)
      · simp only [wp_bind, wp_modify, wp_get]
        have hdis := hi'.record (.dispatched n) rfl (by simp)
        split
        · exact h v' _ (hdis.left _)
        · rename_i hg
          have hgen : v.shared.generation = v'.shared.generation := not_not.mp hg
          have hsite : v'.site (.start n) = .requesting v'.shared.generation := by
            rw [hl', ← hgen]
          simp only [wp_bind, wp_modify]
          refine wp_queueFrame _ (hdis.name hsite (by simp [Thinking.record])) ?_ ?_
          · exact fun v₂ hi₂ => h v₂ _ (hi₂.left _)
          · exact fun e v₂ hi₂ => hE e v₂ _ (hi₂.left _)

theorem wp_speak {answer reasoning agent : Text} (hi : Fresh v.site v.shared)
    (hl : v.site (.respond m) = .delaying n v.shared.generation)
    (h : ∀ v' s', Left (.respond m) v' s' → Q () v' s')
    (hE : ∀ e v' s', Left (.respond m) v' s' → E e v' s') :
    Wp freshContract (.respond m) Q E (speak n answer reasoning agent) v v.shared := by
  have hfail : ∀ e (v' : ThinkingView), Fresh v'.site v'.shared → E e v' v'.shared :=
    fun e v' hi' => hE e v' _ (hi'.left _)
  simp only [speak, wp_bind, wp_modify]
  refine wp_queueFrame _ (hi.speak hl) (fun v₁ hi₁ => ?_) hfail
  refine wp_queueFrame _ (hi₁.leave _ (.inl rfl)) (fun v₂ hi₂ => ?_) hfail
  refine wp_queueFrame _ (hi₂.leave _ (.inl rfl)) (fun v₃ hi₃ => ?_) hfail
  exact wp_queueFrame _ (hi₃.leave _ (.inl rfl)) (fun v₄ hi₄ => h v₄ _ (hi₄.left _)) hfail

theorem wp_handleJobResponse {r : Response} (hi : Fresh v.site v.shared)
    (h : ∀ v' s', Left (.respond m) v' s' → Q () v' s')
    (hE : ∀ e v' s', Left (.respond m) v' s' → E e v' s') :
    Wp freshContract (.respond m) Q E (handleJobResponse n r) v v.shared := by
  simp only [handleJobResponse, wp_bind, wp_get, wp_modify]
  have hrec := hi.record (.answered n) rfl (by simp)
  split
  · exact h v _ (hrec.left _)
  · rename_i ha
    have hactive : (v.shared.record (.answered n)).activeTaskId = some n := not_not.mp ha
    simp only [wp_bind, wp_modify]
    split
    · refine wp_queueFrame _ (hrec.drop.leave _ (.inl rfl)) ?_ ?_
      · exact fun v' hi' => h v' _ (hi'.left _)
      · exact fun e v' hi' => hE e v' _ (hi'.left _)
    · rw [wp_bind, wp_pause]
      refine ⟨⟨hrec.accept hactive m, fun _ _ => trivial⟩, fun v' i _ hi' hl' _ => ?_⟩
      simp only [wp_bind, wp_get]
      split
      · exact h v' _ (hi'.left _)
      · rename_i hg
        have hgen : v.shared.generation = v'.shared.generation := not_not.mp hg
        refine wp_speak hi' ?_ h hE
        rw [hl', ← hgen]
        rfl

/-- A task that does not move. -/
theorem Fresh.stay {loop : Loop} (hi : Fresh v.site v.shared)
    (hl : v.site t = thinking.head t loop) :
    Ends freshContract thinking t loop v v.shared :=
  ⟨hi.at hl, fun _ _ => trivial⟩

theorem wp_turn {loop : Loop} {i : Reply} (hi : Fresh v.site v.shared)
    (hl : v.site t = thinking.head t loop) :
    Wp freshContract t (fun b v s => Ends freshContract thinking t b v s)
      (fun e v s => Ends freshContract thinking t (thinking.crash t e) v s)
      (turn t loop i) v v.shared := by
  unfold turn
  split
  · simp only [wp_bind, wp_pure]
    exact wp_startPending hi hl (fun _ _ hleft => ⟨hleft, fun _ _ => trivial⟩)
      fun _ _ _ hleft => ⟨hleft, fun _ _ => trivial⟩
  · simp only [wp_bind, wp_pure]
    exact wp_handleJobResponse hi (fun _ _ hleft => ⟨hleft, fun _ _ => trivial⟩)
      fun _ _ _ hleft => ⟨hleft, fun _ _ => trivial⟩
  · exact hi.stay hl

theorem keeps_freshContract : Keeps freshContract thinking outside where
  refl _ _ := trivial
  trans _ _ _ _ _ _ := trivial
  outside v s hi henv := by
    refine ⟨?_, fun _ => trivial⟩
    rcases henv with ⟨transcript, reason, rfl⟩ | rfl
    · change Fresh v.site (v.shared.queue transcript reason)
      unfold Thinking.queue
      simp only
      split
      · exact hi
      · exact (hi.same rfl rfl rfl : Fresh v.site
          { v.shared with pending := some ⟨strip transcript, reason⟩ }).record _ rfl (by simp)
    · exact Fresh.clear hi
  body _ _ _ _ hi hl _ := wp_turn hi hl

end Programs

theorem fresh_start : Fresh freshThinking.view.site freshThinking.view.shared where
  requesting n g hn := by
    have hidle : Site.idle = .requesting g := hn
    cases hidle
  unnamed n _ := by
    refine ⟨by simp [freshThinking, System.start, Pool.view], ?_⟩
    rintro (hs | ⟨m, g, hm⟩)
    · exact absurd hs List.not_mem_nil
    · have hidle : Site.idle = .delaying n g := hm
      cases hidle
  active n hn := by
    have hnone : (none : Option ℕ) = some n := hn
    cases hnone
  delaying m n g hm := by
    have hidle : Site.idle = .delaying n g := hm
    cases hidle
  alone m m' n g g' hm := by
    have hidle : Site.idle = .delaying n g := hm
    cases hidle
  timely := along_nil

/-- An answer begins to be spoken only for a pass that was dispatched, that no `clear_pending`
has overtaken since its dispatch began, and that has not been spoken before. -/
theorem no_stale_answer {p : ThinkingPool}
    (h : thinking.Reach (fun _ _ _ => True) outside freshThinking p) :
    Along (fun before e => ∀ n, e = .speaks n →
      n ∈ current before ∧ .dispatched n ∈ before ∧ .speaks n ∉ before) p.shared.log :=
  (keeps_freshContract.invariant fresh_start h).timely

/-- A request, its pass, the answer given twice, and the delay of each. -/
def answeredTwice : List (System.Act Thinking Reply Task) :=
  [.outside fun s => s.queue ['a'] [], .turn (.start 0) .start, .turn (.start 0) .go,
    .turn (.start 0) .go, .turn (.respond 0) (.response 0 { response := ['b'] }),
    .turn (.respond 1) (.response 0 { response := ['b'] }), .turn (.respond 0) .go]

theorem no_stale_answer_twice :
    (thinking.play freshThinking answeredTwice).shared.log =
      [.queued ⟨['a'], []⟩, .starts 0 ⟨['a'], []⟩, .dispatched 0, .answered 0, .answered 0,
        .speaks 0] ∧
    Along (fun before e => ∀ n, e = .speaks n →
      n ∈ current before ∧ .dispatched n ∈ before ∧ .speaks n ∉ before)
      (thinking.play freshThinking answeredTwice).shared.log := by
  have hplay : thinking.Playable (fun _ _ _ => True) outside freshThinking answeredTwice :=
    ⟨.inl ⟨['a'], [], rfl⟩, trivial, trivial, trivial, trivial, trivial, trivial, trivial⟩
  exact ⟨by decide +kernel, no_stale_answer (System.reach_play hplay)⟩

end VoiceAgent.ThinkingFreshness
