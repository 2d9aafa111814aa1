import VoiceAgent.StreamingSession
import VoiceAgent.EngineLedger

/-!
What holds of a session at every await of every coroutine: the books of its engine
requests, which response task may still be running, and who holds a request that
has been started. The invariant is stated over the state and the await sites, so that
a coroutine in the middle of a turn keeps it too, as if it stood at a neutral site;
`hold` is then the request it has in a local variable.
-/
namespace VoiceAgent.SessionInvariant

open StreamingEvents EngineRequest EngineLedger Coroutine Interleaving StreamingSession

/-- The answer is that of a commit, with the tokens of that commit's render. -/
def Committed (vllm : Vllm) (s : Session) (a : Answer) : Prop :=
  (a.responseId, a.request) ∈ s.commits ∧ (a.request, a.promptTokenIds) ∈ s.rendered ∧
    vllm.answerParams a.request a.promptTokenIds.length = .ok a.params

theorem Committed.mono {vllm : Vllm} {s s' : Session} {a : Answer} (h : Committed vllm s a)
    (hc : s.commits ⊆ s'.commits) (hr : s.rendered ⊆ s'.rendered) : Committed vllm s' a :=
  ⟨hc h.1, hr h.2.1, h.2.2⟩

/-- No response task is running. -/
def Quiet (s : Session) : Prop := ∀ n < s.answers.length, s.ended n = true

/-- A request that has a task and whose task nobody has cancelled. -/
def Open (r : Request) : Prop := r.state ≠ .unborn ∧ r.cancelling = false

theorem open_of_act {r : Request} {act : EngineAct} (he : act.enabled r)
    (h : Open (act.apply r)) : Open r := by
  refine ⟨fun hu => ?_, by rw [← (untouched_act r act).2]; exact h.2⟩
  cases act <;> simp [EngineAct.enabled, hu] at he

/-- `owns` and `keeps` turn on the parts that hold only of runs without certain failures. -/
structure Inv (vllm : Vllm) (owns keeps : Prop) (hold : Option ℕ) (site : Task → Site)
    (s : Session) : Prop where
  ledger : ∀ k, Ledger (s.requests k)
  fresh : ∀ k, s.allocated ≤ k → s.requests k = {}
  engine : ∀ k ∈ s.engine, k < s.allocated
  standby : ∀ k ∈ s.standby, k < s.allocated
  held : ∀ n, ∀ k ∈ (site (.respond n)).holds, k < s.allocated
  asked : ∀ k, ∀ a ∈ (s.requests k).accepted, Committed vllm s a
  live : ∀ n < s.answers.length, s.ended n = false →
    s.responseTask = some n ∨ site .serve = .joining n
  unborn : ∀ n, s.answers.length ≤ n → site (.respond n) = .unstarted ∧ s.ended n = false
  done : ∀ n, s.ended n = true → site (.respond n) = .finished
  start : site .serve = .accepting → Quiet s ∧ s.engine = none ∧ s.standby = none ∧
    s.buffer = {} ∧ s.received = []
  shut : site .serve = .closed → Quiet s ∧ s.engine = none ∧ s.standby = none
  owned : owns → ∀ k, Open (s.requests k) → s.engine = some k ∨ s.standby = some k ∨
    hold = some k ∨ ∃ n, (site (.respond n)).holds = some k
  synced : keeps → site .serve = .receiving → s.buffer = replay s.received

section Updates
variable {vllm : Vllm} {owns keeps : Prop} {hold : Option ℕ} {site : Task → Site}
  {s s' : Session} {k : ℕ}

/-- A change that touches none of the requests and tasks; the logs may grow. -/
structure Aside (s s' : Session) : Prop where
  requests : s'.requests = s.requests
  allocated : s'.allocated = s.allocated
  engine : s'.engine = s.engine
  standby : s'.standby = s.standby
  responseTask : s'.responseTask = s.responseTask
  answers : s'.answers = s.answers
  ended : s'.ended = s.ended
  commits : s.commits ⊆ s'.commits
  rendered : s.rendered ⊆ s'.rendered

theorem Inv.aside (h : Inv vllm owns keeps hold site s) (ha : Aside s s')
    (hb : site .serve = .receiving ∨ site .serve = .accepting →
      s'.buffer = s.buffer ∧ s'.received = s.received) :
    Inv vllm owns keeps hold site s' where
  ledger := by rw [ha.requests]; exact h.ledger
  fresh := by rw [ha.requests, ha.allocated]; exact h.fresh
  engine := by rw [ha.engine, ha.allocated]; exact h.engine
  standby := by rw [ha.standby, ha.allocated]; exact h.standby
  held := by rw [ha.allocated]; exact h.held
  asked := by
    rw [ha.requests]
    exact fun k a hmem => (h.asked k a hmem).mono ha.commits ha.rendered
  live := by rw [ha.answers, ha.ended, ha.responseTask]; exact h.live
  unborn := by rw [ha.answers, ha.ended]; exact h.unborn
  done := by rw [ha.ended]; exact h.done
  start hl := by
    obtain ⟨hq, he, hst, hbuf, hr⟩ := h.start hl
    obtain ⟨hb₁, hb₂⟩ := hb (.inr hl)
    refine ⟨?_, ha.engine.trans he, ha.standby.trans hst, hb₁.trans hbuf, hb₂.trans hr⟩
    rw [Quiet, ha.answers, ha.ended]
    exact hq
  shut hl := by
    obtain ⟨hq, he, hst⟩ := h.shut hl
    refine ⟨?_, ha.engine.trans he, ha.standby.trans hst⟩
    rw [Quiet, ha.answers, ha.ended]
    exact hq
  owned ho := by rw [ha.requests, ha.engine, ha.standby]; exact h.owned ho
  synced hk hl := by
    obtain ⟨hb₁, hb₂⟩ := hb (.inl hl)
    rw [hb₁, hb₂]
    exact h.synced hk hl

/-- A request that is held may just as well not be. -/
theorem Inv.weaken (h : Inv vllm owns keeps none site s) (hold : Option ℕ) :
    Inv vllm owns keeps hold site s where
  __ := h
  owned ho k hk := by
    rcases h.owned ho k hk with he | hs | hn | hr
    · exact .inl he
    · exact .inr (.inl hs)
    · cases hn
    · exact .inr (.inr (.inr hr))

/-- A request that is not open need not be held. -/
theorem Inv.release (h : Inv vllm owns keeps (some k) site s)
    (hk : owns → ¬ Open (s.requests k)) : Inv vllm owns keeps none site s where
  __ := h
  owned ho j hj := by
    rcases h.owned ho j hj with he | hs | hn | hr
    · exact .inl he
    · exact .inr (.inl hs)
    · obtain rfl := Option.some.inj hn
      exact absurd hj (hk ho)
    · exact .inr (.inr (.inr hr))

/-- What changes one request alone. -/
theorem Inv.onRequest (h : Inv vllm owns keeps hold site s) {f : Request → Request}
    (hk : k < s.allocated) (hl : Ledger (f (s.requests k)))
    (ha : ∀ a ∈ (f (s.requests k)).accepted, Committed vllm s a)
    (ho : owns → Open (f (s.requests k)) → s.engine = some k ∨ s.standby = some k ∨
      hold = some k ∨ ∃ n, (site (.respond n)).holds = some k) :
    Inv vllm owns keeps hold site (s.onRequest k f) where
  __ := h
  ledger j := by
    by_cases hj : j = k
    · subst j
      simpa [Session.onRequest] using hl
    · simpa [Session.onRequest, hj] using h.ledger j
  fresh j hj := by
    have hne : j ≠ k := fun hjk => by
      subst hjk
      exact absurd hj (Nat.not_le.mpr hk)
    simpa [Session.onRequest, hne] using h.fresh j hj
  asked j a hmem := by
    by_cases hj : j = k
    · subst j
      exact ha a (by simpa [Session.onRequest] using hmem)
    · exact h.asked j a (by simpa [Session.onRequest, hj] using hmem)
  owned hw j hj := by
    by_cases hjk : j = k
    · subst j
      exact ho hw (by simpa [Session.onRequest] using hj)
    · exact h.owned hw j (by simpa [Session.onRequest, hjk] using hj)

/-- `serve` is neither before its first event nor past its last one. -/
def Busy (site : Task → Site) : Prop := site .serve ≠ .accepting ∧ site .serve ≠ .closed

theorem Inv.dropEngine (h : Inv vllm owns keeps none site s) :
    Inv vllm owns keeps s.engine site { s with engine := none } where
  __ := h
  engine := by simp
  start hl := by
    obtain ⟨hq, -, hrest⟩ := h.start hl
    exact ⟨hq, rfl, hrest⟩
  shut hl := ⟨(h.shut hl).1, rfl, (h.shut hl).2.2⟩
  owned ho k hk := by
    rcases h.owned ho k hk with he | hs | hn | hr
    · exact .inr (.inr (.inl he))
    · exact .inr (.inl hs)
    · cases hn
    · exact .inr (.inr (.inr hr))

theorem Inv.dropStandby (h : Inv vllm owns keeps none site s) :
    Inv vllm owns keeps s.standby site { s with standby := none } where
  __ := h
  standby := by simp
  start hl := by
    obtain ⟨hq, he, -, hrest⟩ := h.start hl
    exact ⟨hq, he, rfl, hrest⟩
  shut hl := ⟨(h.shut hl).1, (h.shut hl).2.1, rfl⟩
  owned ho k hk := by
    rcases h.owned ho k hk with he | hs | hn | hr
    · exact .inl he
    · exact .inr (.inr (.inl hs))
    · cases hn
    · exact .inr (.inr (.inr hr))

/-- The request in hand becomes the engine request, and the old one is in hand instead. -/
theorem Inv.setEngine (h : Inv vllm owns keeps (some k) site s) (hk : k < s.allocated)
    (hbusy : Busy site) : Inv vllm owns keeps s.engine site { s with engine := some k } where
  __ := h
  engine j hj := by
    obtain rfl : k = j := Option.some.inj hj
    exact hk
  start hl := absurd hl hbusy.1
  shut hl := absurd hl hbusy.2
  owned ho j hj := by
    rcases h.owned ho j hj with he | hs | hn | hr
    · exact .inr (.inr (.inl he))
    · exact .inr (.inl hs)
    · exact .inl hn
    · exact .inr (.inr (.inr hr))

theorem Inv.setStandby (h : Inv vllm owns keeps (some k) site s) (hk : k < s.allocated)
    (hbusy : Busy site) (hnone : s.standby = none) :
    Inv vllm owns keeps none site { s with standby := some k } where
  __ := h
  standby j hj := by
    obtain rfl : k = j := Option.some.inj hj
    exact hk
  start hl := absurd hl hbusy.1
  shut hl := absurd hl hbusy.2
  owned ho j hj := by
    rcases h.owned ho j hj with he | hs | hn | hr
    · exact .inl he
    · rw [hnone] at hs
      cases hs
    · exact .inr (.inl hn)
    · exact .inr (.inr (.inr hr))

theorem Inv.allocate (h : Inv vllm owns keeps hold site s) :
    Inv vllm owns keeps hold site { s with allocated := s.allocated + 1 } where
  __ := h
  fresh j hj := h.fresh j (by simp only at hj; omega)
  engine j hj := by
    have := h.engine j hj
    simp only
    omega
  standby j hj := by
    have := h.standby j hj
    simp only
    omega
  held n j hj := by
    have := h.held n j hj
    simp only
    omega

/-- The requests of a session are fed what they are extended by. -/
theorem Inv.feed (h : Inv vllm owns keeps hold site s) {tokens : List Token}
    {params : Option SamplingParams} {answer : Option Answer} (hk : k < s.allocated)
    (hext : (s.requests k).extendedBy tokens = true)
    (ha : ∀ a ∈ answer, a.promptTokenIds = tokens ∧ Committed vllm s a)
    (hold_ : s.engine = some k ∨ s.standby = some k ∨ hold = some k) :
    Inv vllm owns keeps hold site (s.onRequest k (·.feed tokens params answer)) := by
  refine h.onRequest hk ((h.ledger k).feed hext fun a hmem => (ha a hmem).1) ?_ ?_
  · intro a hmem
    rcases mem_accepted_feed hmem with hold' | hnew
    · exact h.asked k a hold'
    · exact (ha a hnew).2
  · intro _ _
    rcases hold_ with he | hs | hn
    · exact .inl he
    · exact .inr (.inl hs)
    · exact .inr (.inr (.inl hn))

/-- A request that is stopped need not be held any more. -/
theorem Inv.stop (h : Inv vllm owns keeps (some k) site s) (hk : k < s.allocated) :
    Inv vllm owns keeps none site (s.onRequest k Request.stop) := by
  have hclosed : ¬ Open (s.requests k).stop := by
    rintro ⟨hborn, hcancel⟩
    change (s.requests k).state ≠ .unborn at hborn
    change ((s.requests k).cancelling || (s.requests k).task) = false at hcancel
    simp only [Bool.or_eq_false_iff] at hcancel
    rcases (h.ledger k).cancelled hcancel.2 with hu | hc
    · exact hborn hu
    · simp [hcancel.1] at hc
  have hstop : Inv vllm owns keeps (some k) site (s.onRequest k Request.stop) :=
    h.onRequest hk (h.ledger k).stop (h.asked k) fun _ hopen => absurd hopen hclosed
  refine hstop.release fun _ => ?_
  simpa [Session.onRequest] using hclosed

/-- The engine and the event loop leave every request's owner alone. -/
theorem Inv.act (h : Inv vllm owns keeps hold site s) {act : EngineAct}
    (he : act.enabled (s.requests k)) :
    Inv vllm owns keeps hold site (s.onRequest k act.apply) := by
  have hk : k < s.allocated := by
    by_contra hk
    have hnone := h.fresh k (by omega)
    rw [hnone] at he
    cases act <;> simp [EngineAct.enabled] at he
  refine h.onRequest hk ((h.ledger k).act act he) ?_ ?_
  · rw [(untouched_act _ act).1]
    exact h.asked k
  · intro ho hopen
    exact h.owned ho k (open_of_act he hopen)

end Updates

section Moves
variable {vllm : Vllm} {owns keeps : Prop} {hold : Option ℕ} {site : Task → Site}
  {s : Session} {n : ℕ} {l : Site}

/-- Where a task may be thought to stand while it runs. -/
def idle : Task → Site
  | .serve => .flushing
  | .respond _ => .streaming
  | .engine => .engine

/-- `serve` goes on: the response task that it has joined is done. -/
theorem Inv.serveGoes (h : Inv vllm owns keeps none site s)
    (hj : ∀ n ∈ (site .serve).joins, s.ended n = true) :
    Inv vllm owns keeps none (Function.update site .serve .flushing) s where
  ledger := h.ledger
  fresh := h.fresh
  engine := h.engine
  standby := h.standby
  held := by simpa using h.held
  asked := h.asked
  live n hn he := by
    rcases h.live n hn he with ht | hl
    · exact .inl ht
    · have := hj n (by simp [hl, Site.joins])
      simp [he] at this
  unborn := by simpa using h.unborn
  done := by simpa using h.done
  start := by simp
  shut := by simp
  owned := by simpa using h.owned
  synced := by simp

/-- `serve` stops at a site other than a join. -/
theorem Inv.serveStops (h : Inv vllm owns keeps none (Function.update site .serve .flushing) s)
    (hstart : l ≠ .accepting)
    (hshut : l = .closed → Quiet s ∧ s.engine = none ∧ s.standby = none)
    (hsync : keeps → l = .receiving → s.buffer = replay s.received) :
    Inv vllm owns keeps none (Function.update site .serve l) s where
  ledger := h.ledger
  fresh := h.fresh
  engine := h.engine
  standby := h.standby
  held := by simpa using h.held
  asked := h.asked
  live n hn he := .inl (by simpa using h.live n hn he)
  unborn := by simpa using h.unborn
  done := by simpa using h.done
  start := by simpa using fun hl => (hstart hl).elim
  shut := by simpa using hshut
  owned := by simpa using h.owned
  synced := by simpa using hsync

/-- `_cancel_response` takes the response task and waits for it. -/
theorem Inv.serveJoins (h : Inv vllm owns keeps none (Function.update site .serve .flushing) s)
    (hn : s.responseTask = some n) :
    Inv vllm owns keeps none (Function.update site .serve (.joining n))
      { s with responseTask := none } where
  ledger := h.ledger
  fresh := h.fresh
  engine := h.engine
  standby := h.standby
  held := by simpa using h.held
  asked := h.asked
  live m hm he := by
    have ht : s.responseTask = some m := by simpa using h.live m hm he
    obtain rfl : n = m := Option.some.inj (hn.symm.trans ht)
    simp
  unborn := by simpa using h.unborn
  done := by simpa using h.done
  start := by simp
  shut := by simp
  owned := by simpa using h.owned
  synced := by simp

/-- There is no response task left to wait for. -/
theorem Inv.taskGone (h : Inv vllm owns keeps none (Function.update site .serve .flushing) s)
    (hn : ∀ n ∈ s.responseTask, s.ended n = true) :
    Quiet s ∧ Inv vllm owns keeps none (Function.update site .serve .flushing)
      { s with responseTask := none } := by
  have hquiet : Quiet s := by
    intro m hm
    by_contra he
    have ht : s.responseTask = some m := by simpa using h.live m hm (by simpa using he)
    exact he (hn m ht)
  refine ⟨hquiet, ?_⟩
  exact { h with
    live := fun m hm he => absurd (hquiet m hm) (by simpa using he)
    start := by simp
    shut := by simp
    synced := by simp }

/-- A new response task, when none is running. -/
theorem Inv.startTask (h : Inv vllm owns keeps none (Function.update site .serve .flushing) s)
    (hq : Quiet s) (answer : Answer) :
    Inv vllm owns keeps none (Function.update site .serve .flushing)
      { s with
        answers := s.answers ++ [answer]
        responseTask := some s.answers.length } where
  __ := h
  live m hm he := by
    by_cases hlt : m < s.answers.length
    · have := hq m hlt
      simp only at he
      simp [he] at this
    · simp only [List.length_append, List.length_singleton] at hm
      obtain rfl : m = s.answers.length := by omega
      exact .inl rfl
  unborn m hm := by
    simp only [List.length_append, List.length_singleton] at hm
    exact h.unborn m (by omega)
  start := by simp
  shut := by simp
  synced := by simp

/-- A response task that has not ended goes on, with what it holds in hand. -/
theorem Inv.respondGoes (h : Inv vllm owns keeps none site s) (hn : n < s.answers.length)
    (he : s.ended n = false) :
    Inv vllm owns keeps (site (.respond n)).holds (Function.update site (.respond n) .streaming) s
    where
  ledger := h.ledger
  fresh := h.fresh
  engine := h.engine
  standby := h.standby
  held m k hk := by
    by_cases hm : m = n
    · subst m
      simp [Site.holds] at hk
    · exact h.held m k (by simpa [hm] using hk)
  asked := h.asked
  live := by simpa using h.live
  unborn m hm := by
    have hne : m ≠ n := by omega
    simpa [hne] using h.unborn m hm
  done m hm := by
    have hne : m ≠ n := by
      rintro rfl
      simp [he] at hm
    simpa [hne] using h.done m hm
  start := by simpa using h.start
  shut := by simpa using h.shut
  owned ho k hk := by
    rcases h.owned ho k hk with he | hs | hnone | ⟨m, hm⟩
    · exact .inl he
    · exact .inr (.inl hs)
    · cases hnone
    · by_cases hmn : m = n
      · subst m
        exact .inr (.inr (.inl hm))
      · exact .inr (.inr (.inr ⟨m, by simpa [hmn] using hm⟩))
  synced := by simpa using h.synced

/-- A response task in the middle of a turn has been created and has not ended. -/
theorem Inv.running
    (h : Inv vllm owns keeps hold (Function.update site (.respond n) .streaming) s) :
    n < s.answers.length ∧ s.ended n = false := by
  constructor
  · by_contra hn
    have := (h.unborn n (by omega)).1
    simp at this
  · by_contra he
    have := h.done n (by simpa using he)
    simp at this

/-- A response task stops, with what it has in hand in its local variable. -/
theorem Inv.respondStops
    (h : Inv vllm owns keeps l.holds (Function.update site (.respond n) .streaming) s)
    (hl : ∀ k ∈ l.holds, k < s.allocated) :
    Inv vllm owns keeps none (Function.update site (.respond n) l) s where
  ledger := h.ledger
  fresh := h.fresh
  engine := h.engine
  standby := h.standby
  held m k hk := by
    by_cases hm : m = n
    · subst m
      exact hl k (by simpa using hk)
    · exact h.held m k (by simpa [hm] using hk)
  asked := h.asked
  live := by simpa using h.live
  unborn m hm := by
    have hne : m ≠ n := by
      have := h.running.1
      omega
    simpa [hne] using h.unborn m hm
  done m hm := by
    have hne : m ≠ n := by
      rintro rfl
      simp [h.running.2] at hm
    simpa [hne] using h.done m hm
  start := by simpa using h.start
  shut := by simpa using h.shut
  owned ho k hk := by
    rcases h.owned ho k hk with he | hs | hh | ⟨m, hm⟩
    · exact .inl he
    · exact .inr (.inl hs)
    · exact .inr (.inr (.inr ⟨n, by simpa using hh⟩))
    · have hne : m ≠ n := by
        rintro rfl
        simp [Site.holds] at hm
      exact .inr (.inr (.inr ⟨m, by simpa [hne] using hm⟩))
  synced := by simpa using h.synced

theorem Inv.respondEnds
    (h : Inv vllm owns keeps none (Function.update site (.respond n) .streaming) s) :
    Inv vllm owns keeps none (Function.update site (.respond n) .finished)
      { s with ended := Function.update s.ended n true } where
  ledger := h.ledger
  fresh := h.fresh
  engine := h.engine
  standby := h.standby
  held m k hk := by
    by_cases hm : m = n
    · subst m
      simp [Site.holds] at hk
    · exact h.held m k (by simpa [hm] using hk)
  asked := h.asked
  live m hm he := by
    have hne : m ≠ n := by
      rintro rfl
      simp at he
    simpa using h.live m hm (by simpa [hne] using he)
  unborn m hm := by
    have hne : m ≠ n := by
      have := h.running.1
      simp only at hm
      omega
    simpa [hne] using h.unborn m hm
  done m hm := by
    by_cases hne : m = n
    · subst m
      simp
    · simpa [hne] using h.done m (by simpa [hne] using hm)
  start hl := by
    obtain ⟨hq, hrest⟩ := h.start (by simpa using hl)
    refine ⟨fun m hm => ?_, hrest⟩
    have := hq m hm
    by_cases hne : m = n <;> simp [hne, this]
  shut hl := by
    obtain ⟨hq, hrest⟩ := h.shut (by simpa using hl)
    refine ⟨fun m hm => ?_, hrest⟩
    have := hq m hm
    by_cases hne : m = n <;> simp [hne, this]
  owned ho k hk := by
    rcases h.owned ho k hk with he | hs | hh | ⟨m, hm⟩
    · exact .inl he
    · exact .inr (.inl hs)
    · cases hh
    · have hne : m ≠ n := by
        rintro rfl
        simp [Site.holds] at hm
      exact .inr (.inr (.inr ⟨m, by simpa [hne] using hm⟩))
  synced hk hl := h.synced hk (by simpa using hl)

/-- Where the engine stands makes no difference. -/
theorem Inv.engineMoves (h : Inv vllm owns keeps hold site s) :
    Inv vllm owns keeps hold (Function.update site .engine l) s where
  ledger := h.ledger
  fresh := h.fresh
  engine := h.engine
  standby := h.standby
  held := by simpa using h.held
  asked := h.asked
  live := by simpa using h.live
  unborn := by simpa using h.unborn
  done := by simpa using h.done
  start := by simpa using h.start
  shut := by simpa using h.shut
  owned := by simpa using h.owned
  synced := by simpa using h.synced

end Moves

end VoiceAgent.SessionInvariant
