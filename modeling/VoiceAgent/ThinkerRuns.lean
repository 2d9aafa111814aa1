import VoiceAgent.ThinkerCalls

/-!
One Thinker run at a time. Calls that begin while another call has yet to install its
run pass the same check and leave two runs behind; where no call begins then, the
run of the latest call is the only one that goes on.
-/
namespace VoiceAgent.ThinkerRuns

open StreamingEvents Coroutine Interleaving ThinkerCalls

/-- A stopped call that has begun and has yet to install its run. -/
def Pending : Site → Bool
  | .joining _ | .starting => true
  | _ => false

/-- A call begins only when no other call is about to install its run. -/
def callsApart (v : ThinkerView) (t : Task) (i : Reply) : Prop := match t, i with
  | .call n, .call _ _ =>
    v.site (.call n) = .idle → ∀ m ∈ v.shared.calls, ¬ Pending (v.site (.call m))
  | _, _ => True

instance (v : ThinkerView) (t : Task) (i : Reply) : Decidable (callsApart v t i) :=
  match t, i with
  | .call _, .call _ _ => inferInstanceAs (Decidable (_ → _))
  | .call _, .go | .call _, .failed | .call _, .cancelled | .call _, .segment _
  | .call _, .book | .run _, _ => isTrue trivial

/-- A superseded run that is being cancelled does not wait for `create_booking`. -/
def bookingSafe (v : ThinkerView) (t : Task) (_ : Reply) : Prop := match t with
  | .run k => v.site (.run k) = .booking → v.shared.cancelling k = true →
    v.shared.owner k = v.shared.latest
  | .call _ => True

instance (v : ThinkerView) (t : Task) (i : Reply) : Decidable (bookingSafe v t i) :=
  match t with
  | .run _ => inferInstanceAs (Decidable (_ → _))
  | .call _ => isTrue trivial

/-- What holds at every await, as long as calls keep apart. -/
structure Inv (site : Task → Site) (s : Thinker) : Prop where
  fresh : ∀ k, s.runs.length ≤ k → s.outcome k = none ∧ site (.run k) = .unborn
  alone : ∀ j k, s.Unfinished j → s.Unfinished k → j = k
  installed : ∀ k, s.Unfinished k → s.activeTask = some k ∧
    ∃ n, s.owner k = some n ∧ site (.call n) = .awaiting k
  latest : ∀ k, s.Unfinished k → s.cancelling k = true ∨ s.owner k = s.latest
  joining : ∀ n k, site (.call n) = .joining k →
    s.latest = some n ∧ ∀ j, s.Unfinished j → j = k ∧ s.cancelling j = true
  starting : ∀ n, site (.call n) = .starting → s.latest = some n ∧ ∀ j, ¬ s.Unfinished j
  changes : ∀ c ∈ s.changes, some c.1 = c.2
  known : ∀ c ∈ s.cancels, c.1 < s.runs.length
  superseded : ∀ c ∈ s.cancels, s.Unfinished c.1 → s.owner c.1 ≠ s.latest
  marked : ∀ c ∈ s.cancels, s.cancelling c.1 = true
  doomed : ∀ k, s.cancelling k = true → s.outcome k ≠ some .returned

def runContract : Contract Task Site Thinker Reply where
  inv v := Inv v.site v.shared
  rely _ _ _ := True
  allowed v t i := runsAwaited v t i ∧ callsApart v t i ∧ bookingSafe v t i

section Moves
variable {site : Task → Site} {s s' : Thinker} {n k : ℕ} {l : Site}

/-- A change of what the invariant does not look at. -/
theorem Inv.same (h : Inv site s) (ha : s'.activeTask = s.activeTask) (hr : s'.runs = s.runs)
    (hc : s'.cancelling = s.cancelling) (ho : s'.outcome = s.outcome) (hl : s'.calls = s.calls)
    (hx : s'.cancels = s.cancels) (hg : s'.changes = s.changes) : Inv site s' := by
  have hu : ∀ j, s'.Unfinished j ↔ s.Unfinished j := by
    intro j
    rw [Thinker.Unfinished, Thinker.Unfinished, hr, ho]
  have hown : ∀ j, s'.owner j = s.owner j := by
    intro j
    rw [Thinker.owner, Thinker.owner, hr]
  have hlat : s'.latest = s.latest := by rw [Thinker.latest, Thinker.latest, hl]
  refine ⟨?_, ?_, ?_, ?_, ?_, ?_, ?_, ?_, ?_, ?_, ?_⟩
  · rw [hr, ho]
    exact h.fresh
  · simpa only [hu] using h.alone
  · simpa only [hu, ha, hown] using h.installed
  · simpa only [hu, hc, hown, hlat] using h.latest
  · simpa only [hu, hc, hlat] using h.joining
  · simpa only [hu, hlat] using h.starting
  · rw [hg]
    exact h.changes
  · rw [hx, hr]
    exact h.known
  · simpa only [hx, hu, hown, hlat] using h.superseded
  · rw [hx, hc]
    exact h.marked
  · rw [hc, ho]
    exact h.doomed

/-- A task stands where it stands. -/
theorem Inv.at (h : Inv site s) {t : Task} (hl : site t = l) :
    Inv (Function.update site t l) s := by
  rw [← hl, Function.update_eq_self]
  exact h

/-- A call moves on, when it does not leave an unfinished run behind. -/
theorem Inv.move (h : Inv (Function.update site (.call n) l) s) {l' : Site}
    (hl : ∀ k, l = .awaiting k → ¬ s.Unfinished k)
    (hj : ∀ k, l' = .joining k →
      s.latest = some n ∧ ∀ j, s.Unfinished j → j = k ∧ s.cancelling j = true)
    (hs : l' = .starting → s.latest = some n ∧ ∀ j, ¬ s.Unfinished j) :
    Inv (Function.update site (.call n) l') s where
  fresh j hj' := by simpa using h.fresh j hj'
  alone := h.alone
  installed j hu := by
    obtain ⟨ha, m, hown, hm⟩ := h.installed j hu
    have hmn : m ≠ n := by
      rintro rfl
      exact hl j (by simpa using hm) hu
    exact ⟨ha, m, hown, by simpa [hmn] using hm⟩
  latest := h.latest
  joining m j hm := by
    by_cases hmn : m = n
    · subst m
      exact hj j (by simpa using hm)
    · exact h.joining m j (by simpa [hmn] using hm)
  starting m hm := by
    by_cases hmn : m = n
    · subst m
      exact hs (by simpa using hm)
    · exact h.starting m (by simpa [hmn] using hm)
  changes := h.changes
  known := h.known
  superseded := h.superseded
  marked := h.marked
  doomed := h.doomed

/-- Without an unfinished run a call may install its own. -/
theorem Inv.install (h : Inv (Function.update site (.call n) .starting) s) (query : Text) :
    Inv (Function.update site (.call n) (.awaiting s.runs.length))
      { s with
        runs := s.runs ++ [(n, query)]
        activeTask := some s.runs.length } := by
  obtain ⟨hlat, hnone⟩ := h.starting n (by simp)
  have hnew : ∀ j, (j < (s.runs ++ [(n, query)]).length ∧ s.outcome j = none) →
      j = s.runs.length := by
    intro j hj
    have := hnone j
    simp only [Thinker.Unfinished, hj.2, and_true] at this
    simp only [List.length_append, List.length_singleton] at hj
    omega
  have hown : ((s.runs ++ [(n, query)])[s.runs.length]?).map Prod.fst = some n := by simp
  refine ⟨?_, ?_, ?_, ?_, ?_, ?_, h.changes, ?_, ?_, h.marked, h.doomed⟩
  · intro j hj
    simp only [List.length_append, List.length_singleton] at hj
    obtain ⟨ho, hs⟩ := h.fresh j (by omega)
    exact ⟨ho, by simpa using hs⟩
  · intro j k hj hk
    rw [hnew j hj, hnew k hk]
  · intro j hj
    obtain rfl := hnew j hj
    exact ⟨rfl, n, hown, by simp⟩
  · intro j hj
    obtain rfl := hnew j hj
    exact .inr (hown.trans hlat.symm)
  · intro m j hm
    have hmn : m ≠ n := by
      rintro rfl
      simp at hm
    have := (h.joining m j (by simpa [hmn] using hm)).1
    exact absurd (Option.some.inj (this.symm.trans hlat)) hmn
  · intro m hm
    have hmn : m ≠ n := by
      rintro rfl
      simp at hm
    have := (h.starting m (by simpa [hmn] using hm)).1
    exact absurd (Option.some.inj (this.symm.trans hlat)) hmn
  · intro c hc
    have := h.known c hc
    simp only [List.length_append, List.length_singleton]
    omega
  · intro c hc hu
    have := h.known c hc
    have := hnew _ hu
    omega

/-- The call that begins is the latest, and it is not the one that awaits a run. -/
theorem latest_ne_owner (h : Inv site s) (hn : site (.call n) = .idle) (hu : s.Unfinished k) :
    s.owner k ≠ some n := by
  obtain ⟨-, m, hown, hm⟩ := h.installed k hu
  rw [hown]
  intro hmn
  rw [Option.some.inj hmn, hn] at hm
  cases hm

/-- A call begins when nothing runs. -/
theorem Inv.beginClear (h : Inv site s) (hn : site (.call n) = .idle)
    (hp : ∀ m, ¬ Pending (site (.call m))) (hnone : ∀ j, ¬ s.Unfinished j) :
    Inv (Function.update site (.call n) .starting) { s with calls := s.calls ++ [n] } := by
  have hlat : (s.calls ++ [n]).getLast? = some n := by simp
  refine ⟨fun j hj => by simpa using h.fresh j hj, h.alone, fun j hu => absurd hu (hnone j),
    fun j hu => absurd hu (hnone j), ?_, ?_, h.changes, h.known,
    fun c _ hu => absurd hu (hnone c.1), h.marked, h.doomed⟩
  · intro m j hm
    have hmn : m ≠ n := by
      rintro rfl
      simp at hm
    have hm' : site (.call m) = .joining j := by simpa [hmn] using hm
    exact absurd (by rw [hm']; rfl) (hp m)
  · intro m hm
    by_cases hmn : m = n
    · subst m
      exact ⟨hlat, hnone⟩
    · have hm' : site (.call m) = .starting := by simpa [hmn] using hm
      exact absurd (by rw [hm']; rfl) (hp m)

theorem update_of_cancelling {j : ℕ} (h : s.cancelling j = true) :
    Function.update s.cancelling k true j = true := by
  by_cases hjk : j = k <;> simp [hjk, h]

theorem doomed_update (h : Inv site s) (hu : s.Unfinished k) (j : ℕ)
    (hj : Function.update s.cancelling k true j = true) : s.outcome j ≠ some .returned := by
  by_cases hjk : j = k
  · rw [hjk, hu.2]
    simp
  · exact h.doomed j (by simpa [hjk] using hj)

/-- A call begins and cancels the run of the call before it. -/
theorem Inv.beginJoin (h : Inv site s) (hn : site (.call n) = .idle)
    (hp : ∀ m, ¬ Pending (site (.call m))) (hu : s.Unfinished k) :
    Inv (Function.update site (.call n) (.joining k))
      { { s with calls := s.calls ++ [n] }.cancel k with cancels := s.cancels ++ [(k, n)] } := by
  have hlat : (s.calls ++ [n]).getLast? = some n := by simp
  have hcancel : ({ s with calls := s.calls ++ [n] } : Thinker).cancel k =
      { s with
        calls := s.calls ++ [n]
        cancelling := Function.update s.cancelling k true } := if_pos hu
  rw [hcancel]
  refine ⟨fun j hj => by simpa using h.fresh j hj, h.alone, ?_, ?_, ?_, ?_, h.changes, ?_, ?_,
    ?_, doomed_update h hu⟩
  · intro j hj
    obtain ⟨ha, m, hown, hm⟩ := h.installed j hj
    have hmn : m ≠ n := by
      rintro rfl
      simp [hn] at hm
    exact ⟨ha, m, hown, by simpa [hmn] using hm⟩
  · intro j hj
    obtain rfl := h.alone j k hj hu
    exact .inl (by simp)
  · intro m j hm
    by_cases hmn : m = n
    · subst m
      obtain rfl : k = j := by simpa using hm
      refine ⟨hlat, fun i hi => ?_⟩
      obtain rfl := h.alone i k hi hu
      exact ⟨rfl, by simp⟩
    · have hm' : site (.call m) = .joining j := by simpa [hmn] using hm
      exact absurd (by rw [hm']; rfl) (hp m)
  · intro m hm
    have hmn : m ≠ n := by
      rintro rfl
      simp at hm
    have hm' : site (.call m) = .starting := by simpa [hmn] using hm
    exact absurd (by rw [hm']; rfl) (hp m)
  · intro c hc
    rcases List.mem_append.mp hc with hold | hnew
    · exact h.known c hold
    · obtain rfl := List.mem_singleton.mp hnew
      exact hu.1
  · intro c _ hc
    have hne := latest_ne_owner h hn (hc : s.Unfinished c.1)
    intro heq
    exact hne (heq.trans hlat)
  · intro c hc
    rcases List.mem_append.mp hc with hold | hnew
    · exact update_of_cancelling (h.marked c hold)
    · obtain rfl := List.mem_singleton.mp hnew
      exact Function.update_self _ _ _

/-- A run that is cancelled is the same run. -/
theorem Inv.cancel (h : Inv site s) (k : ℕ) : Inv site (s.cancel k) := by
  unfold Thinker.cancel
  split
  · next hu =>
    exact { h with
      latest := fun j hj => (h.latest j hj).imp_left update_of_cancelling
      joining := fun m j hm => ⟨(h.joining m j hm).1, fun i hi =>
        ⟨((h.joining m j hm).2 i hi).1, update_of_cancelling ((h.joining m j hm).2 i hi).2⟩⟩
      marked := fun c hc => update_of_cancelling (h.marked c hc)
      doomed := doomed_update h hu }
  · exact h

/-- Where a run that has been created stands makes no difference. -/
theorem Inv.runMoves (h : Inv site s) (hk : k < s.runs.length) :
    Inv (Function.update site (.run k) l) s where
  fresh j hj := by
    have hjk : j ≠ k := by omega
    simpa [hjk] using h.fresh j hj
  alone := h.alone
  installed j hu := by simpa using h.installed j hu
  latest := h.latest
  joining := by simpa using h.joining
  starting := by simpa using h.starting
  changes := h.changes
  known := h.known
  superseded := h.superseded
  marked := h.marked
  doomed := h.doomed

theorem Inv.change (h : Inv site s) {c : List (ℕ × Option ℕ)} (hc : ∀ x ∈ c, some x.1 = x.2) :
    Inv site { s with changes := s.changes ++ c } where
  __ := h
  changes x hx := by
    rcases List.mem_append.mp hx with hold | hnew
    · exact h.changes x hold
    · exact hc x hnew

theorem Inv.ends (h : Inv site s) (hk : k < s.runs.length) {o : Outcome}
    (hreturns : s.cancelling k = true → o ≠ .returned) :
    Inv site { s with outcome := Function.update s.outcome k (some o) } := by
  have hu : ∀ j, Thinker.Unfinished { s with outcome := Function.update s.outcome k (some o) } j →
      s.Unfinished j := by
    rintro j ⟨hlt, ho⟩
    refine ⟨hlt, ?_⟩
    by_cases hjk : j = k
    · simp [hjk] at ho
    · simpa [hjk] using ho
  refine ⟨?_, fun i j hi hj => h.alone i j (hu i hi) (hu j hj), fun j hj => h.installed j (hu j hj),
    fun j hj => h.latest j (hu j hj), ?_, ?_, h.changes, h.known,
    fun c hc hj => h.superseded c hc (hu c.1 hj), h.marked, ?_⟩
  · intro j hj
    have hjk : j ≠ k := by
      have : s.runs.length ≤ j := hj
      omega
    simpa [hjk] using h.fresh j hj
  · exact fun m j hm => ⟨(h.joining m j hm).1, fun i hi => (h.joining m j hm).2 i (hu i hi)⟩
  · exact fun m hm => ⟨(h.starting m hm).1, fun i hi => (h.starting m hm).2 i (hu i hi)⟩
  · intro j hj
    by_cases hjk : j = k
    · subst hjk
      simpa using hreturns hj
    · simpa [hjk] using h.doomed j hj

end Moves

section Programs
variable {v : ThinkerView} {s : Thinker} {n k : ℕ}

/-- A call in the middle of a turn, with nothing unfinished, is about to install its run. -/
abbrev Ready (n : ℕ) (v : ThinkerView) (s : Thinker) : Prop :=
  Inv (Function.update v.site (.call n) .starting) s

/-- A call that leaves. -/
abbrev Left (n : ℕ) (v : ThinkerView) (s : Thinker) : Prop :=
  Inv (Function.update v.site (.call n) .finished) s

theorem Inv.leave {l : Site} (h : Inv (Function.update v.site (.call n) l) s)
    (hl : ∀ k, l = .awaiting k → ¬ s.Unfinished k) : Left n v s :=
  h.move hl (by simp) (by simp)

theorem Inv.event {site : Task → Site} (h : Inv site s) (e : LifecycleEvent) :
    Inv site (s.addEvent e) := by
  obtain ⟨events, he⟩ : ∃ events, s.addEvent e = { s with lifecycleEvents := events } := ⟨_, rfl⟩
  rw [he]
  exact h.same rfl rfl rfl rfl rfl rfl rfl

theorem unfinished_addEvent (e : LifecycleEvent) :
    (s.addEvent e).Unfinished k ↔ s.Unfinished k := by
  simp only [Thinker.Unfinished, Thinker.addEvent]

/-- The active task is cleared only when nothing runs. -/
theorem Inv.clear {site : Task → Site} (h : Inv site s) (hk : ¬ s.Unfinished k) :
    Inv site
      (if s.activeTask = some k then { s with activeTask := none, activeCallId := none }
        else s) := by
  split
  · rename_i ha
    refine { h with installed := fun j hu => ?_ }
    have hj := (h.installed j hu).1
    rw [ha] at hj
    obtain rfl := Option.some.inj hj
    exact absurd hu hk
  · exact h

/-- When the run it waited for is done, a call is about to install its own. -/
theorem ready_of_joined (hi : Inv v.site v.shared) (hl : v.site (.call n) = .joining k)
    (hdone : v.shared.outcome k ≠ none) : Ready n v v.shared := by
  obtain ⟨hlat, hall⟩ := hi.joining n k hl
  refine (hi.at hl).move (by simp) (by simp) fun _ => ⟨hlat, fun j hu => ?_⟩
  obtain ⟨rfl, -⟩ := hall j hu
  exact hdone hu.2

/-- A call that is about to install its run is known to have begun. -/
theorem not_pending (hi : Inv v.site v.shared)
    (hp : ∀ m ∈ v.shared.calls, ¬ Pending (v.site (.call m))) (m : ℕ) :
    ¬ Pending (v.site (.call m)) := by
  intro hm
  have hlat : v.shared.latest = some m := by
    cases hs : v.site (.call m) with
    | joining k => exact (hi.joining m k hs).1
    | starting => exact (hi.starting m hs).1
    | _ => simp [hs, Pending] at hm
  exact hp m (List.mem_of_getLast? hlat) hm

theorem wp_supersede {Q : Unit → ThinkerView → Thinker → Prop}
    {E : Exception → ThinkerView → Thinker → Prop} (hi : Inv v.site v.shared)
    (hl : v.site (.call n) = .idle) (hp : ∀ m, ¬ Pending (v.site (.call m)))
    (h : ∀ v' s', Ready n v' s' → Q () v' s') (hE : ∀ e v' s', Left n v' s' → E e v' s') :
    Wp runContract (.call n) Q E (supersede n) v
      { v.shared with calls := v.shared.calls ++ [n] } := by
  have clear : (∀ j, ¬ v.shared.Unfinished j) →
      Q () v { v.shared with calls := v.shared.calls ++ [n] } :=
    fun hnone => h v _ (hi.beginClear hl hp hnone)
  simp only [supersede, wp_bind, wp_get]
  split
  · rename_i ha
    refine clear fun j hu => ?_
    have hj := (hi.installed j hu).1
    have hnone : v.shared.activeTask = none := ha
    simp [hnone] at hj
  · rename_i previous ha
    have ha' : v.shared.activeTask = some previous := ha
    split
    swap
    · rename_i hu
      refine clear fun j hj => hu ?_
      have := (hi.installed j hj).1
      rw [ha'] at this
      obtain rfl := Option.some.inj this
      exact hj
    rename_i hu
    simp only [cancelActive, wp_bind, wp_modify]
    rw [wp_pause]
    refine ⟨⟨hi.beginJoin hl hp hu, fun _ _ => trivial⟩, fun v' i _ hi' hl' hallow => ?_⟩
    have hdone : v'.shared.outcome previous ≠ none := by
      refine hallow.1 previous ?_
      rw [hl']
      rfl
    have hready : Ready n v' v'.shared := ready_of_joined hi' hl' hdone
    have hleft : Left n v' v'.shared := hready.leave (by simp)
    simp only [wp_get]
    split
    · exact h v' _ hready
    · exact hE _ v' _ hleft
    · split
      · exact hE _ v' _ hleft
      · exact h v' _ hready

theorem wp_call {query : Text} {awaits : Bool} {Q : Unit → ThinkerView → Thinker → Prop}
    {E : Exception → ThinkerView → Thinker → Prop} (hi : Inv v.site v.shared)
    (hl : v.site (.call n) = .idle) (hp : ∀ m, ¬ Pending (v.site (.call m)))
    (h : ∀ v' s', Left n v' s' → Q () v' s') (hE : ∀ e v' s', Left n v' s' → E e v' s') :
    Wp runContract (.call n) Q E (call n query awaits) v v.shared := by
  simp only [call, wp_bind, wp_modify]
  refine wp_supersede hi hl hp (fun v₁ s₁ hr₁ => ?_) hE
  have hcall : Ready n v₁ { s₁ with activeCallId := some n } :=
    hr₁.same rfl rfl rfl rfl rfl rfl rfl
  have hr₂ := hcall.event { marker := .thinkerStarted, callId := n, query := strip query }
  -- the rest, once the callback has been awaited
  have rest : ∀ v₂ s₂, Ready n v₂ s₂ → Wp runContract (.call n) Q E
      (createRun n (strip query) >>= fun k =>
        (awaitPayload n (strip query) k).ensure (clearActive k)) v₂ s₂ := by
    intro v₂ s₂ hr
    simp only [createRun, wp_bind, wp_modifyGet, wp_ensure, awaitPayload]
    rw [wp_pause]
    refine ⟨⟨hr.install _, fun _ _ => trivial⟩, fun v₃ i _ hi₃ hl₃ hallow => ?_⟩
    have hdone : v₃.shared.outcome s₂.runs.length ≠ none := by
      refine hallow.1 s₂.runs.length ?_
      rw [hl₃]
      rfl
    have hnot : ¬ v₃.shared.Unfinished s₂.runs.length := fun hu => hdone hu.2
    have hleft : Left n v₃ v₃.shared := by
      refine (hi₃.at hl₃).leave fun k hk => ?_
      obtain rfl : s₂.runs.length = k := by simpa using hk
      exact hnot
    simp only [wp_get]
    split
    · exact h v₃ _ (hleft.clear hnot)
    · exact hE _ v₃ _ (hleft.clear hnot)
    · exact hE _ v₃ _ (Inv.clear (hleft.event _) ((unfinished_addEvent _).not.mpr hnot))
  split
  · simp only [awaitCallback, wp_bind]
    rw [wp_pause]
    refine ⟨⟨hr₂, fun _ _ => trivial⟩, fun v₂ i _ hi₂ hl₂ _ => ?_⟩
    have hready : Ready n v₂ v₂.shared := hi₂.at hl₂
    have hleft : Left n v₂ v₂.shared := hready.leave (by simp)
    split
    · exact hE _ v₂ _ hleft
    · exact hE _ v₂ _ hleft
    · exact rest v₂ _ hready
  · exact rest v₁ _ hr₂

/-- Where a segment of run `k` may leave the Thinker. -/
abbrev Stopped (k : ℕ) (loop : Loop) (v : ThinkerView) (s : Thinker) : Prop :=
  Ends runContract thinker (.run k) loop v s

theorem Inv.stopped (h : Inv v.site s) (hk : k < s.runs.length) (loop : Loop) :
    Stopped k loop v s := ⟨h.runMoves hk, fun _ _ => trivial⟩

theorem Inv.recordChange (h : Inv v.site s) (hlat : s.owner k = s.latest) :
    Inv v.site
      { s with changes := s.changes ++ ((s.owner k).map fun n => (n, s.latest)).toList } := by
  refine h.change fun c hc => ?_
  obtain ⟨n, hn, rfl⟩ : ∃ n, s.owner k = some n ∧ (n, s.latest) = c := by simpa using hc
  exact hn.symm.trans hlat

theorem wp_endRun {E : Exception → ThinkerView → Thinker → Prop} (h : Inv v.site s)
    (hk : k < s.runs.length) {o : Outcome} (ho : s.cancelling k = true → o ≠ .returned) :
    Wp runContract (.run k) (fun b v s => Stopped k b v s) E (endRun k o) v s := by
  simp only [endRun, wp_bind, wp_modify, wp_pure]
  exact (h.ends hk ho).stopped hk .finished

theorem wp_unwind {E : Exception → ThinkerView → Thinker → Prop} {loop : Loop}
    (h : Inv v.site s) (hk : k < s.runs.length)
    (hlat : loop = .booking → s.owner k = s.latest) :
    Wp runContract (.run k) (fun b v s => Stopped k b v s) E (unwind k loop) v s := by
  unfold unwind
  split
  · rename_i hb
    simp only [ThinkerCalls.recordChange, wp_bind, wp_modify]
    exact wp_endRun (h.recordChange (hlat hb)) hk fun _ => by decide
  · exact wp_endRun h hk fun _ => by decide

theorem wp_complete {E : Exception → ThinkerView → Thinker → Prop} (h : Inv v.site s)
    (hk : k < s.runs.length) (hc : s.cancelling k ≠ true) :
    Wp runContract (.run k) (fun b v s => Stopped k b v s) E (complete k) v s := by
  simp only [complete, wp_bind, wp_get]
  split
  · exact h.stopped hk .unborn
  · rename_i n query _
    simp only [wp_bind, wp_modify]
    refine wp_endRun ((h.event _).event _) ?_ fun hcancelling => absurd hcancelling hc
    simpa only [Thinker.addEvent] using hk

theorem wp_runTurn {E : Exception → ThinkerView → Thinker → Prop} {loop : Loop} {i : Reply}
    (h : Inv v.site v.shared) (hl : v.site (.run k) = thinker.head (.run k) loop)
    (hsafe : bookingSafe v (.run k) i) :
    Wp runContract (.run k) (fun b v s => Stopped k b v s) E (runTurn k loop i) v v.shared := by
  have stay : Stopped k loop v v.shared := by
    refine ⟨?_, fun _ _ => trivial⟩
    rw [View.stop_self hl]
    exact h
  simp only [runTurn, wp_bind, wp_get]
  split
  swap
  · exact stay
  rename_i hu
  split
  · rename_i hc
    refine wp_unwind h hu.1 fun hb => hsafe ?_ hc
    rw [hl, hb]
    rfl
  · rename_i hc
    have hlat : v.shared.owner k = v.shared.latest := (h.latest k hu).resolve_left hc
    split
    · simp only [ThinkerCalls.recordChange, wp_bind, wp_modify, wp_pure]
      exact (h.recordChange hlat).stopped hu.1 .working
    · exact h.stopped hu.1 .working
    · exact h.stopped hu.1 .booking
    · exact wp_endRun h hu.1 fun _ => by decide
    · exact wp_complete h hu.1 hc
    · exact stay

theorem wp_callTurn {loop : Loop} {i : Reply} (h : Inv v.site v.shared)
    (hl : v.site (.call n) = thinker.head (.call n) loop) (hapart : callsApart v (.call n) i) :
    Wp runContract (.call n) (fun b v s => Ends runContract thinker (.call n) b v s)
      (fun e v s => Ends runContract thinker (.call n) (thinker.crash (.call n) e) v s)
      (callTurn n loop i) v v.shared := by
  unfold callTurn
  split
  · rename_i query awaits
    simp only [wp_bind, wp_pure]
    exact wp_call h hl (not_pending h (hapart hl))
      (fun v' s' hleft => ⟨hleft, fun _ _ => trivial⟩)
      (fun _ v' s' hleft => ⟨hleft, fun _ _ => trivial⟩)
  · refine ⟨?_, fun _ _ => trivial⟩
    rw [View.stop_self hl]
    exact h

theorem keeps_runContract : Keeps runContract thinker cancelledOutside where
  refl _ _ := trivial
  trans _ _ _ _ _ _ := trivial
  outside v s hi henv := by
    obtain ⟨k, rfl⟩ := henv
    exact ⟨Inv.cancel hi k, fun _ => trivial⟩
  body t b i v hi hl ha := by
    cases t with
    | call n => exact wp_callTurn hi hl ha.2.1
    | run k => exact wp_runTurn hi hl ha.2.2

end Programs

theorem inv_fresh : Inv freshThinker.view.site freshThinker.view.shared where
  fresh _ _ := ⟨rfl, rfl⟩
  alone j _ hj := absurd hj.1 (Nat.not_lt_zero j)
  installed j hj := absurd hj.1 (Nat.not_lt_zero j)
  latest j hj := absurd hj.1 (Nat.not_lt_zero j)
  joining n k hn := by
    have hidle : Site.idle = .joining k := hn
    cases hidle
  starting n hn := by
    have hidle : Site.idle = .starting := hn
    cases hidle
  changes c hc := absurd hc List.not_mem_nil
  known c hc := absurd hc List.not_mem_nil
  superseded c hc := absurd hc List.not_mem_nil
  marked c hc := absurd hc List.not_mem_nil
  doomed k hk := by cases hk

/-- Calls that keep apart: one run at a time, all but the latest call's are being cancelled and
end without a result, and only the latest call's run changes the booking. -/
theorem one_run_at_a_time {p : ThinkerPool}
    (h : thinker.Reach runContract.allowed cancelledOutside freshThinker p) :
    (∀ j k, p.shared.Unfinished j → p.shared.Unfinished k → j = k) ∧
      (∀ k, p.shared.Unfinished k →
        p.shared.cancelling k = true ∨ p.shared.owner k = p.shared.latest) ∧
      (∀ c ∈ p.shared.cancels, p.shared.Unfinished c.1 →
        p.shared.owner c.1 ≠ p.shared.latest) ∧
      (∀ c ∈ p.shared.cancels, p.shared.outcome c.1 ≠ some .returned) ∧
      (∀ k, p.shared.cancelling k = true → p.shared.outcome k ≠ some .returned) ∧
      ∀ c ∈ p.shared.changes, some c.1 = c.2 := by
  have hinv : Inv p.view.site p.shared := keeps_runContract.invariant inv_fresh h
  exact ⟨hinv.alone, hinv.latest, hinv.superseded,
    fun c hc => hinv.doomed c.1 (hinv.marked c hc), hinv.doomed, hinv.changes⟩

/-- A call, its run, a second call that cancels it, and the second run at work. -/
def twoCalls : List (System.Act Thinker Reply Task) :=
  [.turn (.call 0) (.call ['a'] true), .turn (.call 0) .go, .turn (.run 0) (.segment true),
    .turn (.call 1) (.call ['b'] false), .turn (.run 0) .go, .turn (.call 1) .go,
    .turn (.call 0) .go, .turn (.run 1) (.segment true)]

theorem one_run_at_a_time_twoCalls :
    let p := thinker.play freshThinker twoCalls
    p.shared.changes = [(0, some 0), (1, some 1)] ∧
      (∀ j k, p.shared.Unfinished j → p.shared.Unfinished k → j = k) := by
  intro p
  have hreach : thinker.Reach (fun v t i => runsAwaited v t i ∧ callsApart v t i ∧
      bookingSafe v t i) (fun _ _ => False) freshThinker p :=
    System.reach_play (by decide +kernel)
  exact ⟨by decide +kernel,
    (one_run_at_a_time (hreach.mono (fun _ _ _ h => h) fun _ _ h => h.elim)).1⟩

/-- Two calls wait for the same predecessor, and each then installs a run of its own. -/
def twoSuccessors : List (System.Act Thinker Reply Task) :=
  [.turn (.call 0) (.call ['a'] false), .turn (.call 1) (.call ['b'] false),
    .turn (.call 2) (.call ['c'] false), .turn (.run 0) .go, .turn (.call 1) .go,
    .turn (.call 2) .go]

theorem two_successors_run :
    ∃ p, thinker.Reach runsAwaited cancelledOutside freshThinker p ∧
      p.shared.Unfinished 1 ∧ p.shared.Unfinished 2 ∧
      p.shared.cancelling 1 = false ∧ p.shared.owner 1 ≠ p.shared.latest := by
  have hreach : thinker.Reach runsAwaited (fun _ _ => False) freshThinker
      (thinker.play freshThinker twoSuccessors) := System.reach_play (by decide +kernel)
  exact ⟨_, hreach.mono (fun _ _ _ h => h) (fun _ _ h => h.elim), by decide +kernel,
    by decide +kernel, by decide +kernel, by decide +kernel⟩

end VoiceAgent.ThinkerRuns
