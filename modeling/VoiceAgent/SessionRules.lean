import VoiceAgent.SessionInvariant

/-!
The session's programs keep its invariant. Each program has one rule, which says what
it needs when it is called and what holds when it returns or raises. `serve` also
keeps a desk: what it knows of the session that no response task changes.
-/
namespace VoiceAgent.SessionRules

open StreamingEvents EngineRequest EngineLedger Coroutine Interleaving StreamingSession
open SessionInvariant

/-- What only `serve` changes. -/
structure Grows (a b : Session) : Prop where
  buffer : b.buffer = a.buffer
  received : b.received = a.received
  answers : b.answers = a.answers
  responseTask : b.responseTask = a.responseTask
  commits : b.commits = a.commits
  rendered : a.rendered ⊆ b.rendered

theorem Grows.refl (s : Session) : Grows s s := ⟨rfl, rfl, rfl, rfl, rfl, List.Subset.refl _⟩

theorem Grows.trans {a b c : Session} (h : Grows a b) (h' : Grows b c) : Grows a c :=
  ⟨h'.buffer.trans h.buffer, h'.received.trans h.received, h'.answers.trans h.answers,
    h'.responseTask.trans h.responseTask, h'.commits.trans h.commits,
    List.Subset.trans h.rendered h'.rendered⟩

/-- What stays as it is while no response task runs. -/
structure Calm (a b : Session) : Prop where
  quiet : Quiet b
  engine : a.engine = none → b.engine = none
  standby : a.standby = none → b.standby = none

/-- What `serve` relies on while it is stopped. -/
structure Steady (a b : Session) : Prop extends Grows a b where
  calm : Quiet a → Calm a b

theorem Calm.of_quiet {s : Session} (h : Quiet s) : Calm s s := ⟨h, id, id⟩

theorem Steady.refl (s : Session) : Steady s s := ⟨.refl s, .of_quiet⟩

theorem Steady.trans {a b c : Session} (h : Steady a b) (h' : Steady b c) : Steady a c :=
  ⟨h.toGrows.trans h'.toGrows, fun hq =>
    have hb := h.calm hq
    have hc := h'.calm hb.quiet
    ⟨hc.quiet, fun he => hc.engine (hb.engine he), fun hs => hc.standby (hb.standby hs)⟩⟩

def Reply.isRendered : Reply → Bool
  | .rendered _ _ => true
  | _ => false

/-- A follow-up that holds an open request is rendered. -/
def HandsOver (v : SessionView) (t : Task) (i : Reply) : Prop :=
  ∀ k ∈ (v.site t).holds, Open (v.shared.requests k) → Reply.isRendered i = true

/-- A commit is served, unless there is no user text. -/
def CommitsServed (vllm : Vllm) (v : SessionView) (t : Task) (i : Reply) : Prop :=
  v.shared.text ≠ [] → match v.site t, i with
    | .receiving, .receive (.commit _) =>
      vllm.invalid (chatRequest v.shared.request v.shared.text true) = none
    | .rendering (.commit _) request, .rendered _ tokens =>
      (vllm.answerParams request tokens.length).isOk = true
    | .rendering (.commit _) _, _ => False
    | _, _ => True

/-- What a proof about the session assumes of every step and keeps. -/
def sessionContract (vllm : Vllm) (owns keeps : Prop) : Contract Task Site Session Reply where
  inv v := Inv vllm owns keeps none v.site v.shared
  rely t v v' := t = .serve → Steady v.shared v'.shared
  allowed v t i := anyTurn v t i ∧ (owns → HandsOver v t i) ∧ (keeps → CommitsServed vllm v t i)

/-- What `serve` knows of the session between its own changes. -/
structure Desk where
  buffer : Buffer
  received : List ClientEvent
  committed : Option (ResponseId × ChatRequest) := none
  answer : Option Answer := none
  quiet : Bool := false
  noEngine : Bool := false
  noStandby : Bool := false

structure Desk.On (vllm : Vllm) (d : Desk) (s : Session) : Prop where
  buffer : s.buffer = d.buffer
  received : s.received = d.received
  committed : ∀ c ∈ d.committed, c ∈ s.commits
  asked : ∀ a ∈ d.answer, Committed vllm s a
  quiet : d.quiet = true → Quiet s
  noEngine : d.quiet = true → d.noEngine = true → s.engine = none
  noStandby : d.quiet = true → d.noStandby = true → s.standby = none

section Mid
variable {vllm : Vllm} {owns keeps : Prop} {t : Task} {d : Desk} {hold : Option ℕ}
  {v : SessionView} {s s' : Session} {l : Site}

theorem Desk.On.steady (h : d.On vllm s) (hs : Steady s s') : d.On vllm s' where
  buffer := hs.buffer.trans h.buffer
  received := hs.received.trans h.received
  committed := by rw [hs.commits]; exact h.committed
  asked a ha := (h.asked a ha).mono (by rw [hs.commits]; exact List.Subset.refl _) hs.rendered
  quiet hq := (hs.calm (h.quiet hq)).quiet
  noEngine hq he := (hs.calm (h.quiet hq)).engine (h.noEngine hq he)
  noStandby hq hn := (hs.calm (h.quiet hq)).standby (h.noStandby hq hn)

variable (vllm owns keeps) in
/-- Task `t` in the middle of a turn that it began in view `v`. -/
structure Mid (t : Task) (d : Desk) (hold : Option ℕ) (v : SessionView) (s : Session) : Prop where
  inv : Inv vllm owns keeps hold (Function.update v.site t (idle t)) s
  awake : t ≠ .serve → ¬ Quiet v.shared
  grows : t ≠ .serve → Grows v.shared s
  desk : t = .serve → d.On vllm s

/-- A change in the middle of a turn. -/
theorem Mid.step {hold' : Option ℕ} (h : Mid vllm owns keeps t d hold v s) (hs : Steady s s')
    (hi : Inv vllm owns keeps hold' (Function.update v.site t (idle t)) s') :
    Mid vllm owns keeps t d hold' v s' :=
  ⟨hi, h.awake, fun ht => (h.grows ht).trans hs.toGrows, fun ht => (h.desk ht).steady hs⟩

/-- A site where any coroutine may stop, and where it holds nothing and joins nobody. -/
structure Plain (l : Site) : Prop where
  holds : l.holds = none
  joins : l.joins = none
  head : l ≠ .accepting ∧ l ≠ .receiving ∧ l ≠ .closed ∧ l ≠ .unstarted ∧ l ≠ .finished

/-- A response task that stops leaves `serve` what it relies on. -/
theorem Mid.steady (h : Mid vllm owns keeps t d hold v s) (ht : t ≠ .serve) :
    Steady v.shared s :=
  ⟨h.grows ht, fun hq => absurd hq (h.awake ht)⟩

/-- A response task that is stopped past its start and before its end is running. -/
theorem running_of_site {n : ℕ} (hi : Inv vllm owns keeps none v.site v.shared)
    (hu : v.site (.respond n) ≠ .unstarted) (hf : v.site (.respond n) ≠ .finished) :
    n < v.shared.answers.length ∧ v.shared.ended n = false := by
  constructor
  · by_contra hn
    exact hu (hi.unborn n (by omega)).1
  · by_contra he
    exact hf (hi.done n (by simpa using he))

theorem Mid.respondGoes {n : ℕ} (hi : Inv vllm owns keeps none v.site v.shared)
    (hrun : n < v.shared.answers.length ∧ v.shared.ended n = false) :
    Mid vllm owns keeps (.respond n) d (v.site (.respond n)).holds v v.shared where
  inv := hi.respondGoes hrun.1 hrun.2
  awake _ hq := by
    have := hq n hrun.1
    simp [hrun.2] at this
  grows _ := .refl _
  desk ht := by cases ht

theorem Mid.serveGoes (hi : Inv vllm owns keeps none v.site v.shared)
    (hj : ∀ n ∈ (v.site .serve).joins, v.shared.ended n = true) (hd : d.On vllm v.shared) :
    Mid vllm owns keeps .serve d none v v.shared where
  inv := hi.serveGoes hj
  awake ht := absurd rfl ht
  grows ht := absurd rfl ht
  desk _ := hd

variable {Q : Reply → SessionView → Session → Prop}
  {E : Exception → SessionView → Session → Prop}

/-- An await of `serve`. -/
theorem wp_serveStops (hd : d.On vllm s)
    (hl : Inv vllm owns keeps none (Function.update v.site .serve l) s)
    (h : ∀ v' i, Mid vllm owns keeps .serve d none v' v'.shared → Steady s v'.shared →
      v'.site .serve = l → (sessionContract vllm owns keeps).allowed v' .serve i →
      Q i v' v'.shared) :
    Wp (sessionContract vllm owns keeps) .serve Q E (Coro.pause l) v s := by
  rw [wp_pause]
  refine ⟨⟨hl, fun u hu hs => absurd hs hu⟩, fun v' i hr hi hsite ha => ?_⟩
  exact h v' i (.serveGoes hi (ha.1 rfl).2 (hd.steady (hr rfl))) (hr rfl) hsite ha

/-- An await of a response task. -/
theorem wp_respondStops {n : ℕ} (hm : Mid vllm owns keeps (.respond n) d l.holds v s)
    (hl : ∀ k ∈ l.holds, k < s.allocated) (hsite : l ≠ .unstarted ∧ l ≠ .finished)
    (h : ∀ v' i, Mid vllm owns keeps (.respond n) d l.holds v' v'.shared →
      v'.site (.respond n) = l → (∀ k ∈ l.holds, k < v'.shared.allocated) →
      (sessionContract vllm owns keeps).allowed v' (.respond n) i → Q i v' v'.shared) :
    Wp (sessionContract vllm owns keeps) (.respond n) Q E (Coro.pause l) v s := by
  rw [wp_pause]
  refine ⟨⟨hm.inv.respondStops hl, fun u hu hs => ?_⟩, fun v' i hr hi hat ha => ?_⟩
  · exact hm.steady (by simp)
  · have hmid := Mid.respondGoes (d := d) hi
      (running_of_site hi (by rw [hat]; exact hsite.1) (by rw [hat]; exact hsite.2))
    rw [hat] at hmid
    refine h v' i hmid hat (fun k hk => hi.held n k ?_) ha
    rw [hat]
    exact hk

/-- An await at a plain site, of whichever task. -/
theorem wp_stops (ht : t ≠ .engine) (hl : Plain l) (hm : Mid vllm owns keeps t d none v s)
    (h : ∀ v' i, Mid vllm owns keeps t d none v' v'.shared → v'.site t = l →
      (sessionContract vllm owns keeps).allowed v' t i → Q i v' v'.shared) :
    Wp (sessionContract vllm owns keeps) t Q E (Coro.pause l) v s := by
  obtain ⟨hholds, hjoins, hacc, hrec, hclosed, hun, hfin⟩ := hl
  cases t with
  | engine => exact absurd rfl ht
  | serve =>
    refine wp_serveStops (hm.desk rfl) ?_ fun v' i hm' _ => h v' i hm'
    exact hm.inv.serveStops hacc (fun hc => absurd hc hclosed) fun _ hr => absurd hr hrec
  | respond n =>
    refine wp_respondStops (by rw [hholds]; exact hm) (by simp [hholds]) ⟨hun, hfin⟩ ?_
    intro v' i hm' hat _ ha
    rw [hholds] at hm'
    exact h v' i hm' hat ha

end Mid

section Updates
variable {s s' : Session}

/-- A change that keeps the engine request, the standby and all that `serve` knows. -/
theorem Steady.of_eq (hb : s'.buffer = s.buffer) (hr : s'.received = s.received)
    (ha : s'.answers = s.answers) (ht : s'.responseTask = s.responseTask)
    (hd : s'.ended = s.ended) (hc : s'.commits = s.commits) (hren : s.rendered ⊆ s'.rendered)
    (he : s.engine = none → s'.engine = none)
    (hs : s.standby = none → s'.standby = none) : Steady s s' := by
  refine ⟨⟨hb, hr, ha, ht, hc, hren⟩, fun hq => ⟨?_, he, hs⟩⟩
  rw [Quiet, ha, hd]
  exact hq

theorem steady_onRequest (k : ℕ) (f : Request → Request) : Steady s (s.onRequest k f) :=
  .of_eq rfl rfl rfl rfl rfl rfl (List.Subset.refl _) id id

theorem steady_dropEngine : Steady s { s with engine := none } :=
  .of_eq rfl rfl rfl rfl rfl rfl (List.Subset.refl _) (fun _ => rfl) id

theorem steady_dropStandby : Steady s { s with standby := none } :=
  .of_eq rfl rfl rfl rfl rfl rfl (List.Subset.refl _) id (fun _ => rfl)

/-- A change of the logs, of the parameters or of the supply of names. -/
structure Note (s s' : Session) : Prop extends Aside s s' where
  buffer : s'.buffer = s.buffer
  received : s'.received = s.received
  kept : s'.commits = s.commits

theorem Note.steady (h : Note s s') : Steady s s' :=
  .of_eq h.buffer h.received h.answers h.responseTask h.ended h.kept h.rendered
    (fun he => h.engine.trans he) (fun hs => h.standby.trans hs)

theorem note_sent (event : ServerEvent) : Note s { s with sent := s.sent ++ [event] } :=
  ⟨⟨rfl, rfl, rfl, rfl, rfl, rfl, rfl, List.Subset.refl _, List.Subset.refl _⟩, rfl, rfl, rfl⟩

theorem note_failure (failure : Failure) :
    Note s { s with failures := s.failures ++ [failure] } :=
  ⟨⟨rfl, rfl, rfl, rfl, rfl, rfl, rfl, List.Subset.refl _, List.Subset.refl _⟩, rfl, rfl, rfl⟩

theorem note_cancel (c : Option ResponseId × Option Answer) :
    Note s { s with cancels := s.cancels ++ [c] } :=
  ⟨⟨rfl, rfl, rfl, rfl, rfl, rfl, rfl, List.Subset.refl _, List.Subset.refl _⟩, rfl, rfl, rfl⟩

theorem note_minted : Note s { s with minted := s.minted + 1 } :=
  ⟨⟨rfl, rfl, rfl, rfl, rfl, rfl, rfl, List.Subset.refl _, List.Subset.refl _⟩, rfl, rfl, rfl⟩

theorem note_params (params : Option SamplingParams) : Note s { s with prefillParams := params } :=
  ⟨⟨rfl, rfl, rfl, rfl, rfl, rfl, rfl, List.Subset.refl _, List.Subset.refl _⟩, rfl, rfl, rfl⟩

theorem note_rendered (params : Option SamplingParams) (r : ChatRequest × List Token) :
    Note s { s with prefillParams := params, rendered := s.rendered ++ [r] } :=
  ⟨⟨rfl, rfl, rfl, rfl, rfl, rfl, rfl, List.Subset.refl _, List.subset_append_left _ _⟩, rfl,
    rfl, rfl⟩

end Updates

section Shared
variable {vllm : Vllm} {owns keeps : Prop} {t : Task} {d : Desk} {hold : Option ℕ}
  {v : SessionView} {s s' : Session} {k : ℕ}
  {Q : Unit → SessionView → Session → Prop} {E : Exception → SessionView → Session → Prop}

theorem Mid.note (h : Mid vllm owns keeps t d hold v s) (hn : Note s s') :
    Mid vllm owns keeps t d hold v s' :=
  h.step hn.steady (h.inv.aside hn.toAside fun _ => ⟨hn.buffer, hn.received⟩)

theorem wp_send {event : ServerEvent} (ht : t ≠ .engine) (hm : Mid vllm owns keeps t d none v s)
    (h : ∀ v' s', Mid vllm owns keeps t d none v' s' → Q () v' s')
    (hE : ∀ v' s', t ≠ .serve → Mid vllm owns keeps t d none v' s' → E .cancelled v' s') :
    Wp (sessionContract vllm owns keeps) t Q E (send event) v s := by
  have hcancel : ∀ {v' : SessionView}, (sessionContract vllm owns keeps).allowed v' t .cancelled →
      t ≠ .serve := fun ha hserve => (ha.1 hserve).1 rfl
  unfold send
  rw [wp_bind]
  refine wp_stops ht ⟨rfl, rfl, by simp⟩ hm fun v₁ i hm₁ _ ha => ?_
  split
  · exact hE v₁ _ (hcancel ha) hm₁
  · exact h v₁ _ hm₁
  · simp only [wp_bind, wp_modify]
    refine wp_stops ht ⟨rfl, rfl, by simp⟩ (hm₁.note (note_sent event)) fun v₂ j hm₂ _ ha₂ => ?_
    by_cases hj : j = .cancelled
    · subst j
      rw [if_pos rfl]
      exact hE v₂ _ (hcancel ha₂) hm₂
    · rw [if_neg hj]
      exact h v₂ _ hm₂

/-- `stop` is called on the request in hand. -/
theorem wp_stopRequest (ht : t ≠ .engine) (hk : k < s.allocated)
    (hm : Mid vllm owns keeps t d (some k) v s)
    (h : ∀ v' s', Mid vllm owns keeps t d none v' s' → Q () v' s')
    (hE : ∀ v' s', t ≠ .serve → Mid vllm owns keeps t d none v' s' → E .cancelled v' s') :
    Wp (sessionContract vllm owns keeps) t Q E (stopRequest k) v s := by
  simp only [stopRequest, wp_bind, wp_get, wp_modify]
  have hstop : Mid vllm owns keeps t d none v (s.onRequest k Request.stop) :=
    hm.step (steady_onRequest k _) (hm.inv.stop hk)
  by_cases htask : (s.requests k).task = true
  · rw [if_pos htask, wp_bind]
    refine wp_stops ht ⟨rfl, rfl, by simp⟩ hstop fun v₁ i hm₁ _ _ => ?_
    rw [wp_bind]
    refine wp_stops ht ⟨rfl, rfl, by simp⟩ hm₁ fun v₂ j hm₂ _ ha₂ => ?_
    by_cases hj : j = .cancelled
    · subst j
      rw [if_pos rfl]
      exact hE v₂ _ (fun hserve => (ha₂.1 hserve).1 rfl) hm₂
    · rw [if_neg hj]
      exact h v₂ _ hm₂
  · rw [if_neg htask]
    exact h v _ hstop

/-- A task may know more of the session than before. -/
theorem Mid.know {d' : Desk} (h : Mid vllm owns keeps t d hold v s)
    (hd : t = .serve → d'.On vllm s) : Mid vllm owns keeps t d' hold v s :=
  ⟨h.inv, h.awake, h.grows, hd⟩

theorem wp_stopStandby {e : Desk} (ht : t ≠ .engine) (hm : Mid vllm owns keeps t d none v s)
    (hd : t = .serve → e.On vllm { s with standby := none })
    (h : ∀ v' s', Mid vllm owns keeps t e none v' s' → Q () v' s')
    (hE : ∀ v' s', t ≠ .serve → Mid vllm owns keeps t e none v' s' → E .cancelled v' s') :
    Wp (sessionContract vllm owns keeps) t Q E stopStandby v s := by
  simp only [stopStandby, wp_bind, wp_get, wp_modify]
  have hdrop : Mid vllm owns keeps t e s.standby v { s with standby := none } :=
    (hm.step steady_dropStandby hm.inv.dropStandby).know hd
  cases hs : s.standby with
  | none =>
    rw [hs] at hdrop
    exact h v _ hdrop
  | some k =>
    rw [hs] at hdrop
    exact wp_stopRequest ht (hm.inv.standby k hs) hdrop h hE

theorem wp_stopEngine {e : Desk} (ht : t ≠ .engine) (hm : Mid vllm owns keeps t d none v s)
    (hd : t = .serve → e.On vllm { s with engine := none })
    (h : ∀ v' s', Mid vllm owns keeps t e none v' s' → Q () v' s')
    (hE : ∀ v' s', t ≠ .serve → Mid vllm owns keeps t e none v' s' → E .cancelled v' s') :
    Wp (sessionContract vllm owns keeps) t Q E stopEngine v s := by
  simp only [stopEngine, wp_bind, wp_get, wp_modify]
  have hdrop : Mid vllm owns keeps t e s.engine v { s with engine := none } :=
    (hm.step steady_dropEngine hm.inv.dropEngine).know hd
  cases hs : s.engine with
  | none =>
    rw [hs] at hdrop
    exact h v _ hdrop
  | some k =>
    rw [hs] at hdrop
    exact wp_stopRequest ht (hm.inv.engine k hs) hdrop h hE

theorem wp_render {Q : List ChatMessage × List Token → SessionView → Session → Prop}
    {purpose : Purpose} {request : ChatRequest} (ht : t ≠ .engine)
    (hp : (Site.rendering purpose request).holds = none)
    (hm : Mid vllm owns keeps t d none v s)
    (h : ∀ v' s' conversation tokens, Mid vllm owns keeps t d none v' s' →
      (request, tokens) ∈ s'.rendered →
      v'.site t = .rendering purpose request →
      (sessionContract vllm owns keeps).allowed v' t (.rendered conversation tokens) →
      s'.text = v'.shared.text →
      Q (conversation, tokens) v' s')
    (hE : ∀ v' s' i, Mid vllm owns keeps t d none v' s' → Reply.isRendered i = false →
      v'.site t = .rendering purpose request →
      (sessionContract vllm owns keeps).allowed v' t i → s'.text = v'.shared.text →
      E i.exception v' s') :
    Wp (sessionContract vllm owns keeps) t Q E (render purpose request) v s := by
  unfold render
  rw [wp_bind]
  refine wp_stops ht ⟨hp, rfl, by simp⟩ hm fun v₁ i hm₁ hat ha => ?_
  split
  · rename_i conversation tokens
    simp only [wp_bind, wp_modify, wp_pure]
    exact h v₁ _ conversation tokens (hm₁.note (note_rendered _ _)) (by simp) hat ha rfl
  · rename_i message
    simp only [wp_bind, wp_modify]
    exact hE v₁ _ (.unusable message) (hm₁.note (note_params _)) rfl hat ha rfl
  · rename_i hne _
    refine hE v₁ _ i hm₁ ?_ hat ha rfl
    cases i with
    | rendered c ts => exact absurd rfl (hne c ts)
    | _ => rfl

end Shared

section Serve
variable {vllm : Vllm} {owns keeps : Prop} {d : Desk} {v : SessionView} {s s' : Session}
  {Q : Unit → SessionView → Session → Prop} {E : Exception → SessionView → Session → Prop}

/-- The desk once no response task is running. -/
def Desk.settled (d : Desk) : Desk :=
  { d with quiet := true, noEngine := false, noStandby := false }

theorem Desk.On.settled (h : d.On vllm s) (hq : Quiet s) : d.settled.On vllm s :=
  ⟨h.buffer, h.received, h.committed, h.asked, fun _ => hq, by simp [Desk.settled],
    by simp [Desk.settled]⟩

theorem Mid.serve (hi : Inv vllm owns keeps none (Function.update v.site .serve .flushing) s)
    (hd : d.On vllm s) : Mid vllm owns keeps .serve d none v s :=
  ⟨hi, fun h => absurd rfl h, fun h => absurd rfl h, fun _ => hd⟩

/-- After `_cancel_response` no response task is running. -/
theorem wp_cancelResponse (hm : Mid vllm owns keeps .serve d none v s)
    (h : ∀ v' s', Mid vllm owns keeps .serve d.settled none v' s' → Q () v' s') :
    Wp (sessionContract vllm owns keeps) .serve Q E cancelResponse v s := by
  have hd : d.On vllm s := hm.desk rfl
  have hd' : d.On vllm { s with responseTask := none } :=
    ⟨hd.buffer, hd.received, hd.committed, hd.asked, hd.quiet, hd.noEngine, hd.noStandby⟩
  -- the task is gone already, or it has been joined
  have gone : (∀ n ∈ s.responseTask, s.ended n = true) →
      Q () v { s with responseTask := none } := by
    intro hgone
    obtain ⟨hq, hi⟩ := hm.inv.taskGone hgone
    exact h v _ (.serve hi (hd'.settled hq))
  simp only [cancelResponse, wp_bind, wp_get, wp_modify]
  cases htask : s.responseTask with
  | none => exact gone (by simp [htask])
  | some n =>
    simp only
    by_cases he : s.ended n = true
    · rw [if_pos he]
      exact gone (by simpa [htask] using he)
    · rw [if_neg he, wp_bind]
      refine wp_serveStops hd' (hm.inv.serveJoins htask) fun v₁ i hm₁ hs₁ hat ha => ?_
      have hnone : v₁.shared.responseTask = none := hs₁.responseTask
      have hq : Quiet v₁.shared := by
        intro m hm'
        by_contra hne
        have := hm₁.inv.live m hm' (by simpa using hne)
        simp [hnone, idle] at this
      refine wp_stopEngine (by simp) hm₁ (fun _ => ?_) h (fun _ _ hs => absurd rfl hs)
      exact ((hm₁.desk rfl).settled hq).steady steady_dropEngine

/-- `_feed`, once no response task is running. -/
theorem wp_feed {tokens : List Token} {answer : Option Answer}
    (hm : Mid vllm owns keeps .serve d.settled none v s)
    (ha : ∀ a ∈ answer, a.promptTokenIds = tokens ∧ a ∈ d.answer)
    (h : ∀ v' s', Mid vllm owns keeps .serve d.settled none v' s' → Q () v' s') :
    Wp (sessionContract vllm owns keeps) .serve Q E (feed tokens answer) v s := by
  -- the request that is fed: new, or extended by the tokens
  have feeding : ∀ {v₁ : SessionView} {s₁ : Session} {k : ℕ},
      Mid vllm owns keeps .serve d.settled none v₁ s₁ → s₁.engine = some k →
      (s₁.requests k).extendedBy tokens = true →
      Wp (sessionContract vllm owns keeps) .serve Q E (feedRequest k tokens answer) v₁ s₁ := by
    intro v₁ s₁ k hm₁ hk hext
    rw [feedRequest, wp_modify]
    refine h v₁ _ (hm₁.step (steady_onRequest k _) ?_)
    exact hm₁.inv.feed (hm₁.inv.engine k hk) hext
      (fun a hmem => ⟨(ha a hmem).1, (hm₁.desk rfl).asked a (ha a hmem).2⟩) (.inl hk)
  have fresh : ∀ {v₁ : SessionView} {s₁ : Session},
      Mid vllm owns keeps .serve d.settled none v₁ s₁ → s₁.engine = none →
      Wp (sessionContract vllm owns keeps) .serve Q E
        (ensureEngine >>= fun k => feedRequest k tokens answer) v₁ s₁ := by
    intro v₁ s₁ hm₁ hnone
    simp only [ensureEngine, wp_bind, wp_get, hnone, newRequest, wp_modifyGet, wp_modify, wp_pure]
    refine feeding (.serve ?_ ?_) rfl ?_
    · have hset := (hm₁.inv.allocate.weaken (some s₁.allocated)).setEngine
        (k := s₁.allocated) (by simp) (by constructor <;> simp [idle])
      simp only [hnone] at hset
      exact hset
    · have hd := hm₁.desk rfl
      exact ⟨hd.buffer, hd.received, hd.committed, hd.asked, hd.quiet, by simp [Desk.settled],
        by simp [Desk.settled]⟩
    · show (s₁.requests s₁.allocated).extendedBy tokens = true
      rw [hm₁.inv.fresh _ (Nat.le_refl _)]
      simp [Request.extendedBy]
  unfold feed
  simp only [wp_bind, wp_get]
  cases hk : s.engine with
  | none =>
    simp only [Option.any_none, Bool.false_eq_true, if_false]
    exact fresh hm hk
  | some k =>
    by_cases hext : (s.requests k).extendedBy tokens = true
    · simp only [Option.any_some, hext, Bool.not_true, Bool.false_eq_true, if_false, wp_pure,
        ensureEngine, wp_bind, wp_get, hk]
      exact feeding hm hk hext
    · have hstop : (!(s.requests k).extendedBy tokens) = true := by simpa using hext
      simp only [Option.any_some, hstop, if_true, wp_bind]
      let d' : Desk := { d.settled with noEngine := true }
      have hd := hm.desk rfl
      refine wp_stopEngine (e := d') (by simp) hm (fun _ => ?_) (fun v₁ s₁ hm₁ => ?_)
        (fun _ _ hs => absurd rfl hs)
      · exact ⟨hd.buffer, hd.received, hd.committed, hd.asked, hd.quiet, fun _ _ => rfl,
          by simp [d', Desk.settled]⟩
      · have hd₁ := hm₁.desk rfl
        rw [← wp_bind]
        refine fresh (hm₁.know fun _ => ?_) (hd₁.noEngine rfl rfl)
        exact ⟨hd₁.buffer, hd₁.received, hd₁.committed, hd₁.asked, hd₁.quiet,
          by simp [Desk.settled], by simp [Desk.settled]⟩

theorem wp_append {tokens : List Token} {answer : Option Answer}
    (hm : Mid vllm owns keeps .serve d none v s)
    (ha : ∀ a ∈ answer, a.promptTokenIds = tokens ∧ a ∈ d.answer)
    (h : ∀ v' s', Mid vllm owns keeps .serve d.settled none v' s' → Q () v' s') :
    Wp (sessionContract vllm owns keeps) .serve Q E (append tokens answer) v s := by
  unfold append
  rw [wp_bind]
  exact wp_cancelResponse hm fun v₁ s₁ hm₁ => wp_feed hm₁ ha h

theorem exception_error {i : Reply} (h : i ≠ .cancelled) :
    ∃ message, i.exception = .error message := by
  cases i with
  | cancelled => exact absurd rfl h
  | failed message => exact ⟨message, rfl⟩
  | unusable message => exact ⟨message, rfl⟩
  | _ => exact ⟨"", rfl⟩

theorem wp_validate {request : ChatRequest} (hok : vllm.invalid request = none → Q () v s)
    (hbad : ∀ message, vllm.invalid request = some message → E (.error message) v s) :
    Wp (sessionContract vllm owns keeps) .serve Q E (validate vllm request) v s := by
  unfold validate
  cases hv : vllm.invalid request with
  | none => exact hok hv
  | some message => exact hbad message hv

/-- A desk with nothing on it but the buffer and the events received. -/
def Desk.after (d : Desk) (b : Buffer) : Desk where
  buffer := b
  received := d.received

theorem Desk.On.after (h : d.On vllm s) : (d.after d.buffer).On vllm s :=
  ⟨h.buffer, h.received, by simp [Desk.after], by simp [Desk.after], by simp [Desk.after],
    by simp [Desk.after], by simp [Desk.after]⟩

theorem wp_prefill {b : Buffer} (hm : Mid vllm owns keeps .serve (d.after b) none v s)
    (h : ∀ v' s', Mid vllm owns keeps .serve (d.after b) none v' s' → Q () v' s')
    (hE : ∀ message v' s', Mid vllm owns keeps .serve (d.after b) none v' s' →
      E (.error message) v' s') :
    Wp (sessionContract vllm owns keeps) .serve Q E (prefill vllm) v s := by
  simp only [prefill, wp_bind, wp_get]
  split
  · exact h v s hm
  · simp only [wp_bind]
    refine wp_validate (fun _ => ?_) fun message _ => hE message v s hm
    refine wp_render (by simp) rfl hm (fun v₁ s₁ conversation tokens hm₁ _ _ _ _ => ?_)
      (fun v₁ s₁ i hm₁ _ _ ha _ => ?_)
    · refine wp_append hm₁ (by simp) fun v₂ s₂ hm₂ => h v₂ s₂ (hm₂.know fun _ => ?_)
      exact (hm₂.desk rfl).after
    · obtain ⟨message, he⟩ := exception_error (ha.1 rfl).1
      rw [he]
      exact hE message v₁ s₁ hm₁

/-- A commit empties the buffer, or fails and leaves it as it is. -/
theorem wp_commit {response : ResponseId} (hm : Mid vllm owns keeps .serve d none v s)
    (hvalid : keeps → s.text ≠ [] → vllm.invalid (chatRequest s.request s.text true) = none)
    (h : ∀ v' s', Mid vllm owns keeps .serve (d.after (d.buffer.step (.commit (some response))))
      none v' s' → Q () v' s')
    (hE : ∀ message v' s', Mid vllm owns keeps .serve (d.after d.buffer) none v' s' →
      (keeps → d.buffer.text = []) → E (.error message) v' s') :
    Wp (sessionContract vllm owns keeps) .serve Q E (commit vllm response) v s := by
  let request := chatRequest s.request s.text true
  let d₁ : Desk := { d.after d.buffer with committed := some (response, request) }
  have hd := hm.desk rfl
  have hm₁ : Mid vllm owns keeps .serve d₁ none v
      { s with commits := s.commits ++ [(response, request)] } := by
    refine .serve (hm.inv.aside ?_ (by simp [idle])) ?_
    · exact ⟨rfl, rfl, rfl, rfl, rfl, rfl, rfl, List.subset_append_left _ _, List.Subset.refl _⟩
    · exact ⟨hd.buffer, hd.received, by simp [d₁], by simp [d₁, Desk.after],
        by simp [d₁, Desk.after], by simp [d₁, Desk.after], by simp [d₁, Desk.after]⟩
  have htext : s.text = d.buffer.text := congrArg Buffer.text hd.buffer
  have after : ∀ {v' : SessionView} {s' : Session}, Mid vllm owns keeps .serve d₁ none v' s' →
      Mid vllm owns keeps .serve (d.after d.buffer) none v' s' :=
    fun hm' => hm'.know fun _ => (hm'.desk rfl).after
  simp only [commit, wp_bind, wp_get, wp_modify]
  refine wp_validate (fun _ => ?_) fun message hbad => hE message v _ (after hm₁) fun hk => ?_
  swap
  · by_contra hne
    have := hvalid hk (by rw [htext]; exact hne)
    rw [this] at hbad
    cases hbad
  refine wp_render (by simp) rfl hm₁ (fun v₂ s₂ conversation tokens hm₂ hren hat ha ht => ?_)
    (fun v₂ s₂ i hm₂ hi hat ha ht => ?_)
  swap
  · obtain ⟨message, he⟩ := exception_error (ha.1 rfl).1
    rw [he]
    refine hE message v₂ s₂ (after hm₂) fun hk => ?_
    by_contra hne
    have hv : v₂.shared.text ≠ [] := by
      rw [← ht, show s₂.text = d.buffer.text from congrArg Buffer.text (hm₂.desk rfl).buffer]
      exact hne
    have hserved := ha.2.2 hk hv
    rw [hat] at hserved
    cases i <;> simp [Reply.isRendered] at hi hserved
  have ht₂ : s₂.text = d.buffer.text := congrArg Buffer.text (hm₂.desk rfl).buffer
  unfold answerParams
  cases hp : vllm.answerParams request tokens.length with
  | error message =>
    refine hE message v₂ s₂ (after hm₂) fun hk => ?_
    by_contra hne
    have hserved := ha.2.2 hk (by rw [← ht, ht₂]; exact hne)
    rw [hat] at hserved
    simp [request, hp, Except.isOk, Except.toBool] at hserved
  | ok params =>
    let answer : Answer :=
      ⟨s.answers.length, response, request, conversation, params, tokens⟩
    let d₃ : Desk := { d.after d.buffer with answer := some answer }
    have hd₂ := hm₂.desk rfl
    have hm₃ : Mid vllm owns keeps .serve d₃ none v₂ s₂ := hm₂.know fun _ => by
      refine ⟨hd₂.buffer, hd₂.received, by simp [d₃, Desk.after], fun a ha => ?_,
        by simp [d₃, Desk.after], by simp [d₃, Desk.after], by simp [d₃, Desk.after]⟩
      obtain rfl : answer = a := Option.some.inj ha
      exact ⟨hd₂.committed _ rfl, hren, hp⟩
    simp only [wp_pure]
    refine wp_append hm₃ (fun a ha => ?_) fun v₄ s₄ hm₄ => ?_
    · obtain rfl : answer = a := Option.some.inj ha
      exact ⟨rfl, rfl⟩
    simp only [startResponse, wp_modify]
    have hd₄ := hm₄.desk rfl
    refine h v₄ _ (.serve ?_ ?_)
    · have hi : Inv vllm owns keeps none (Function.update v₄.site .serve .flushing)
          { s₄ with text := [] } := by
        refine hm₄.inv.aside ?_ (by simp [idle])
        exact ⟨rfl, rfl, rfl, rfl, rfl, rfl, rfl, List.Subset.refl _, List.Subset.refl _⟩
      exact hi.startTask (hd₄.quiet rfl) answer
    · have hreq : s₄.request = d.buffer.request := congrArg Buffer.request hd₄.buffer
      refine ⟨?_, hd₄.received, by simp [Desk.after], by simp [Desk.after],
        by simp [Desk.after], by simp [Desk.after], by simp [Desk.after]⟩
      simp [Session.buffer, Desk.after, Buffer.step, hreq]

/-- A change of the buffer or of the events received, by `serve`. -/
theorem Mid.write {d' : Desk} (hm : Mid vllm owns keeps .serve d none v s) (ha : Aside s s')
    (hd : d'.On vllm s') : Mid vllm owns keeps .serve d' none v s' :=
  .serve (hm.inv.aside ha (by simp [idle])) hd

theorem wp_handleEvent {event : ClientEvent} (hm : Mid vllm owns keeps .serve d none v s)
    (hvalid : keeps → s.text ≠ [] → ∀ response, event = .commit response →
      vllm.invalid (chatRequest s.request s.text true) = none)
    (h : ∀ v' s', Mid vllm owns keeps .serve (d.after (d.buffer.step event)) none v' s' →
      Q () v' s')
    (hE : ∀ message b v' s', (keeps → b = d.buffer.step event) →
      Mid vllm owns keeps .serve (d.after b) none v' s' → E (.error message) v' s') :
    Wp (sessionContract vllm owns keeps) .serve Q E (handle vllm event) v s := by
  have hd := hm.desk rfl
  have htext : s.text = d.buffer.text := congrArg Buffer.text hd.buffer
  have hreq : s.request = d.buffer.request := congrArg Buffer.request hd.buffer
  have written : ∀ {r : SessionRequest} {x : Text} {b : Buffer}, ⟨x, r⟩ = b →
      Mid vllm owns keeps .serve (d.after b) none v { s with request := r, text := x } := by
    rintro r x b rfl
    refine hm.write ?_ ?_
    · exact ⟨rfl, rfl, rfl, rfl, rfl, rfl, rfl, List.Subset.refl _, List.Subset.refl _⟩
    · exact ⟨rfl, hd.received, by simp [Desk.after], by simp [Desk.after], by simp [Desk.after],
        by simp [Desk.after], by simp [Desk.after]⟩
  cases event with
  | update request =>
    simp only [handle, wp_bind, wp_modify]
    have hw := written (r := request) (x := s.text) (b := d.buffer.step (.update request))
      (by simp [Buffer.step, htext])
    exact wp_prefill hw (fun v' s' hm' => h v' s' hm') fun message v' s' hm' =>
      hE message (d.buffer.step (.update request)) v' s' (fun _ => rfl) hm'
  | append text =>
    simp only [handle, wp_bind, wp_modify]
    have hw := written (r := s.request) (x := s.text ++ text)
      (b := d.buffer.step (.append text)) (by simp [Buffer.step, htext, hreq])
    exact wp_prefill hw (fun v' s' hm' => h v' s' hm') fun message v' s' hm' =>
      hE message (d.buffer.step (.append text)) v' s' (fun _ => rfl) hm'
  | clear =>
    simp only [handle, wp_modify]
    exact h v _ (written (by simp [Buffer.step, hreq]))
  | commit response =>
    have committing : ∀ {s₁ : Session} {name : ResponseId},
        Mid vllm owns keeps .serve d none v s₁ → s₁.text = s.text → s₁.request = s.request →
        Wp (sessionContract vllm owns keeps) .serve Q E (commit vllm name) v s₁ := by
      intro s₁ name hm₁ ht hr
      refine wp_commit hm₁ (fun hk hne => ?_) h fun message v' s' hm' hempty =>
        hE message d.buffer v' s' (fun hk => ?_) hm'
      · rw [ht, hr]
        exact hvalid hk (by rw [← ht]; exact hne) response rfl
      · simp only [Buffer.step]
        rw [← hempty hk]
    cases response with
    | some name => exact committing hm rfl rfl
    | none =>
      simp only [handle, responseName, wp_bind, wp_modifyGet]
      exact committing (hm.note note_minted) rfl rfl
  | cancel response =>
    simp only [handle, wp_bind, wp_modify]
    refine wp_cancelResponse (hm.note (note_cancel _)) fun v' s' hm' => h v' s' ?_
    exact hm'.know fun _ => (hm'.desk rfl).after
  | unknown type =>
    refine wp_send (by simp) hm (fun v' s' hm' => h v' s' ?_) fun _ _ hs => absurd rfl hs
    exact hm'.know fun _ => (hm'.desk rfl).after
  | malformed message =>
    exact hE message d.buffer v s (fun _ => rfl) (hm.know fun _ => hd.after)

/-- One event: the buffer and the events received move on together, if commits are served. -/
theorem wp_serveEvent {event : ClientEvent} (hm : Mid vllm owns keeps .serve d none v s)
    (hvalid : keeps → s.text ≠ [] → ∀ response, event = .commit response →
      vllm.invalid (chatRequest s.request s.text true) = none)
    (h : ∀ b v' s', (keeps → b = d.buffer.step event) →
      Mid vllm owns keeps .serve { buffer := b, received := d.received ++ [event] } none v' s' →
      Q () v' s') :
    Wp (sessionContract vllm owns keeps) .serve Q E (serveEvent vllm event) v s := by
  let d₁ : Desk := { buffer := d.buffer, received := d.received ++ [event] }
  have hd := hm.desk rfl
  have hm₁ : Mid vllm owns keeps .serve d₁ none v { s with received := s.received ++ [event] } := by
    refine hm.write ?_ ?_
    · exact ⟨rfl, rfl, rfl, rfl, rfl, rfl, rfl, List.Subset.refl _, List.Subset.refl _⟩
    · exact ⟨hd.buffer, by simp [d₁, hd.received], by simp [d₁], by simp [d₁], by simp [d₁],
        by simp [d₁], by simp [d₁]⟩
  simp only [serveEvent, wp_bind, wp_modify, Coroutine.wp_handle]
  refine wp_handleEvent hm₁ hvalid (fun v' s' hm' => ?_) fun message b v' s' hb hm' => ?_
  · exact h (d.buffer.step event) v' s' (fun _ => rfl) hm'
  · simp only [wp_bind, wp_modify]
    refine wp_send (by simp) (hm'.note (note_failure _)) (fun v'' s'' hm'' => ?_)
      fun _ _ hs => absurd rfl hs
    exact h b v'' s'' hb hm''

/-- When `serve` leaves, nothing runs and nothing is held. -/
theorem wp_closeSession (hm : Mid vllm owns keeps .serve d none v s)
    (h : ∀ v' s', Inv vllm owns keeps none (Function.update v'.site .serve .closed) s' →
      Q () v' s') :
    Wp (sessionContract vllm owns keeps) .serve Q E closeSession v s := by
  unfold closeSession
  rw [wp_bind]
  refine wp_cancelResponse hm fun v₁ s₁ hm₁ => ?_
  rw [wp_bind]
  let d₁ : Desk := { d.settled with noEngine := true }
  let d₂ : Desk := { d₁ with noStandby := true }
  have hd₁ := hm₁.desk rfl
  refine wp_stopEngine (e := d₁) (by simp) hm₁ (fun _ => ?_) (fun v₂ s₂ hm₂ => ?_)
    fun _ _ hs => absurd rfl hs
  · exact ⟨hd₁.buffer, hd₁.received, hd₁.committed, hd₁.asked, hd₁.quiet, fun _ _ => rfl,
      by simp [d₁, Desk.settled]⟩
  have hd₂ := hm₂.desk rfl
  refine wp_stopStandby (e := d₂) (by simp) hm₂ (fun _ => ?_) (fun v₃ s₃ hm₃ => ?_)
    fun _ _ hs => absurd rfl hs
  · exact ⟨hd₂.buffer, hd₂.received, hd₂.committed, hd₂.asked, hd₂.quiet, hd₂.noEngine,
      fun _ _ => rfl⟩
  have hd₃ := hm₃.desk rfl
  refine h v₃ s₃ (hm₃.inv.serveStops (by simp) (fun _ => ?_) (by simp))
  exact ⟨hd₃.quiet rfl, hd₃.noEngine rfl rfl, hd₃.noStandby rfl rfl⟩

end Serve

section Respond
variable (vllm : Vllm) (owns keeps : Prop) (n : ℕ) (d : Desk)

/-- A program of response task `n` that keeps the invariant on every way out. -/
structure Loyal {α : Type} (c : Prog α) : Prop where
  wp : ∀ {v s}, Mid vllm owns keeps (.respond n) d none v s →
    Wp (sessionContract vllm owns keeps) (.respond n)
      (fun _ v' s' => Mid vllm owns keeps (.respond n) d none v' s')
      (fun _ v' s' => Mid vllm owns keeps (.respond n) d none v' s') c v s

variable {vllm owns keeps n d} {α β : Type} {v : SessionView} {s s' : Session}
  {hold hold' : Option ℕ} {k : ℕ}

theorem Mid.respond (h : Mid vllm owns keeps (.respond n) d hold v s) (hg : Grows s s')
    (hi : Inv vllm owns keeps hold' (Function.update v.site (.respond n) .streaming) s') :
    Mid vllm owns keeps (.respond n) d hold' v s' :=
  ⟨hi, h.awake, fun ht => (h.grows ht).trans hg, fun ht => by cases ht⟩

/-- While a response task runs, `serve` is busy. -/
theorem Mid.busy (h : Mid vllm owns keeps (.respond n) d hold v s) :
    Busy (Function.update v.site (.respond n) .streaming) := by
  have hi : Inv vllm owns keeps hold (Function.update v.site (.respond n) .streaming) s := h.inv
  obtain ⟨hn, he⟩ := hi.running
  constructor
  · intro hl
    have := (hi.start hl).1 n hn
    simp [he] at this
  · intro hl
    have := (hi.shut hl).1 n hn
    simp [he] at this

theorem Loyal.bind {c : Prog α} {f : α → Prog β} (hc : Loyal vllm owns keeps n d c)
    (hf : ∀ a, Loyal vllm owns keeps n d (f a)) : Loyal vllm owns keeps n d (c >>= f) where
  wp hm := by
    rw [wp_bind]
    exact wp_mono (fun a _ _ hm' => (hf a).wp hm') (fun _ _ _ hm' => hm') (hc.wp hm)

theorem Loyal.pure (a : α) : Loyal vllm owns keeps n d (pure a : Prog α) := ⟨fun hm => hm⟩

theorem Loyal.raise (e : Exception) : Loyal vllm owns keeps n d (Coro.raise e : Prog α) :=
  ⟨fun hm => hm⟩

theorem Loyal.handle {c : Prog α} {f : Exception → Prog α} (hc : Loyal vllm owns keeps n d c)
    (hf : ∀ e, Loyal vllm owns keeps n d (f e)) : Loyal vllm owns keeps n d (c.handle f) where
  wp hm := by
    rw [Coroutine.wp_handle]
    exact wp_mono (fun _ _ _ hm' => hm') (fun e _ _ hm' => (hf e).wp hm') (hc.wp hm)

theorem Loyal.attempt {c : Prog α} (hc : Loyal vllm owns keeps n d c) :
    Loyal vllm owns keeps n d c.attempt where
  wp hm := by
    rw [wp_attempt]
    exact hc.wp hm

theorem Loyal.ite {p : Prop} [Decidable p] {c c' : Prog α} (hc : Loyal vllm owns keeps n d c)
    (hc' : Loyal vllm owns keeps n d c') : Loyal vllm owns keeps n d (if p then c else c') := by
  split
  · exact hc
  · exact hc'

theorem Loyal.note {f : Session → Session} (hf : ∀ s, Note s (f s)) :
    Loyal vllm owns keeps n d (modify f : Prog Unit) :=
  ⟨fun hm => hm.note (hf _)⟩

theorem Loyal.send (event : ServerEvent) : Loyal vllm owns keeps n d (send event) :=
  ⟨fun hm => wp_send (by simp) hm (fun _ _ hm' => hm') fun _ _ _ hm' => hm'⟩

theorem Loyal.stopStandby : Loyal vllm owns keeps n d stopStandby :=
  ⟨fun hm => wp_stopStandby (by simp) hm (by simp) (fun _ _ hm' => hm') fun _ _ _ hm' => hm'⟩

theorem Loyal.startStandby (answer : Answer) :
    Loyal vllm owns keeps n d (startStandby answer) where
  wp {v s} hm := by
    simp only [StreamingSession.startStandby, wp_bind, wp_get]
    cases hs : s.standby with
    | some k => exact hm
    | none =>
      simp only [newRequest, feedRequest, wp_bind, wp_modifyGet, wp_modify]
      have hset := (hm.inv.allocate.weaken (some s.allocated)).setStandby
        (k := s.allocated) (by simp) hm.busy hs
      refine hm.respond ?_ (hset.feed (by simp) ?_ (by simp) (.inr (.inl rfl)))
      · exact ⟨rfl, rfl, rfl, rfl, rfl, List.Subset.refl _⟩
      · show (s.requests s.allocated).extendedBy answer.promptTokenIds = true
        rw [hm.inv.fresh _ (Nat.le_refl _)]
        simp [Request.extendedBy]

/-- The request in hand is fed and takes over from the engine request. -/
theorem wp_takeOver {tokens : List Token} (hk : k < s.allocated)
    (hext : (s.requests k).extendedBy tokens = true)
    (hm : Mid vllm owns keeps (.respond n) d (some k) v s) :
    Wp (sessionContract vllm owns keeps) (.respond n)
      (fun _ v' s' => Mid vllm owns keeps (.respond n) d none v' s')
      (fun _ v' s' => Mid vllm owns keeps (.respond n) d none v' s')
      (do
        feedRequest k tokens none
        let s ← get
        modify fun s => { s with engine := some k }
        match s.engine with
        | none => pure ()
        | some finished => stopRequest finished : Prog Unit) v s := by
  simp only [feedRequest, wp_bind, wp_modify, wp_get]
  have hfed : Inv vllm owns keeps (some k) (Function.update v.site (.respond n) .streaming)
      (s.onRequest k (·.feed tokens s.prefillParams none)) :=
    hm.inv.feed hk hext (by simp) (.inr (.inr rfl))
  have hset : Mid vllm owns keeps (.respond n) d s.engine v
      { (s.onRequest k (·.feed tokens s.prefillParams none)) with engine := some k } :=
    hm.respond ⟨rfl, rfl, rfl, rfl, rfl, List.Subset.refl _⟩ (hfed.setEngine hk hm.busy)
  cases he : s.engine with
  | none =>
    have hnone : (s.onRequest k (·.feed tokens s.prefillParams none)).engine = none := he
    rw [he] at hset
    rw [hnone]
    exact hset
  | some f =>
    have hsome : (s.onRequest k (·.feed tokens s.prefillParams none)).engine = some f := he
    rw [he] at hset
    rw [hsome]
    exact wp_stopRequest (by simp) (hm.inv.engine f he) hset (fun _ _ hm' => hm')
      fun _ _ _ hm' => hm'

theorem Loyal.handOver (answer : Answer) (message : ChatMessage) :
    Loyal vllm owns keeps n d (handOver answer message) := by
  refine Loyal.bind (.startStandby answer) fun _ => ⟨fun {v s} hm => ?_⟩
  simp only [wp_bind, wp_get, wp_modify]
  have hdrop : Mid vllm owns keeps (.respond n) d s.standby v { s with standby := none } :=
    hm.step steady_dropStandby hm.inv.dropStandby
  cases hs : s.standby with
  | none =>
    rw [hs] at hdrop
    exact hdrop
  | some k =>
    rw [hs] at hdrop
    simp only [renderWithAnswer, render, wp_bind]
    refine wp_respondStops hdrop ?_ (by simp) fun v₁ i hm₁ hat hk ha => ?_
    · intro j hj
      obtain rfl : k = j := Option.some.inj hj
      exact hm.inv.standby k hs
    have hk₁ : k < v₁.shared.allocated := hk k rfl
    -- a render that fails leaves the standby to nobody, so it must not be open
    have lost : Reply.isRendered i = false →
        Mid vllm owns keeps (.respond n) d none v₁ v₁.shared := by
      intro hi
      refine ⟨hm₁.inv.release fun ho hopen => ?_, hm₁.awake, hm₁.grows, hm₁.desk⟩
      have := ha.2.1 ho k (by rw [hat]; rfl) hopen
      simp [hi] at this
    split
    · rename_i conversation tokens
      simp only [wp_bind, wp_modify, wp_pure, wp_get]
      have hm₂ := hm₁.note (note_rendered (some (prefillParams { answer.request with
        messages := answer.request.messages ++ [message]
        addGenerationPrompt := false })) ({ answer.request with
        messages := answer.request.messages ++ [message]
        addGenerationPrompt := false }, tokens))
      split
      · rename_i hext
        simp only [wp_bind, wp_pure]
        exact wp_takeOver hk₁ hext hm₂
      · simp only [wp_bind]
        refine wp_stopRequest (by simp) hk₁ hm₂ (fun v₃ s₃ hm₃ => ?_) fun _ _ _ hm' => hm'
        simp only [newRequest, wp_modifyGet]
        have hnew : Mid vllm owns keeps (.respond n) d (some s₃.allocated) v₃
            { s₃ with allocated := s₃.allocated + 1 } :=
          hm₃.respond ⟨rfl, rfl, rfl, rfl, rfl, List.Subset.refl _⟩
            (hm₃.inv.allocate.weaken _)
        refine wp_takeOver (by simp) ?_ hnew
        show (s₃.requests s₃.allocated).extendedBy tokens = true
        rw [hm₃.inv.fresh _ (Nat.le_refl _)]
        simp [Request.extendedBy]
    · exact (lost rfl).note (note_params _)
    · rename_i hne _
      refine lost ?_
      cases i with
      | rendered c ts => exact absurd rfl (hne c ts)
      | _ => rfl

theorem Loyal.streamChunk (answer : Answer) (message : ChatMessage) (calledTool : Bool)
    (chunk : Chunk) :
    Loyal vllm owns keeps n d (streamChunk answer message calledTool chunk) := by
  unfold StreamingSession.streamChunk
  refine .ite ?_ ?_
  · exact .bind (.send _) fun _ => .pure _
  · exact .bind (.startStandby answer) fun _ => .bind (.send _) fun _ => .pure _

theorem Loyal.endOfStream (answer : Answer) (message : ChatMessage) (calledTool : Bool) :
    Loyal vllm owns keeps n d (endOfStream answer message calledTool) := by
  unfold StreamingSession.endOfStream
  refine .ite ?_ ?_
  · exact .bind (.handOver answer message) fun _ => .bind (.send _) fun _ => .pure _
  · exact .bind (.send _) fun _ => .pure _

theorem Loyal.respondTurn (answer : Answer) (message : ChatMessage) (calledTool : Bool)
    (reply : Reply) :
    Loyal vllm owns keeps n d (respondTurn answer message calledTool reply) := by
  unfold StreamingSession.respondTurn
  split
  · exact .streamChunk _ _ _ _
  · exact .pure _
  · exact .endOfStream _ _ _
  · exact .raise _

theorem Loyal.guardResponse (answer : Answer) {turn : Prog Loop}
    (ht : Loyal vllm owns keeps n d turn) :
    Loyal vllm owns keeps n d (guardResponse answer turn) := by
  refine .bind (.attempt (.handle ht fun e => ?_)) fun next => ?_
  · cases e with
    | cancelled => exact .raise _
    | error message =>
      exact .bind (.note fun _ => note_failure _) fun _ => .bind (.send _) fun _ => .pure _
  · split
    · exact .pure _
    · exact .bind .stopStandby fun _ => .pure _
    · exact .bind .stopStandby fun _ => .raise _

theorem Loyal.respond (answer : Answer) (loop : Loop) (reply : Reply) :
    Loyal vllm owns keeps n d (respond answer loop reply) := by
  unfold StreamingSession.respond
  split
  · exact .pure _
  · exact .guardResponse _ (.respondTurn _ _ _ _)
  · exact .raise _

end Respond

section Tasks
variable {vllm : Vllm} {owns keeps : Prop} {v : SessionView} {loop : Loop} {i : Reply}

/-- A turn that does nothing ends where it began. -/
theorem ends_idle {t : Task} (hi : Inv vllm owns keeps none v.site v.shared)
    (hl : v.site t = (streamingSession vllm).head t loop) :
    Ends (sessionContract vllm owns keeps) (streamingSession vllm) t loop v v.shared := by
  rw [Ends, ← hl, Contract.Stops, View.stop_self rfl]
  exact ⟨hi, fun _ _ _ => .refl _⟩

theorem wp_serveTurn (hi : Inv vllm owns keeps none v.site v.shared)
    (hl : v.site .serve = (streamingSession vllm).head .serve loop)
    (ha : (sessionContract vllm owns keeps).allowed v .serve i) :
    Wp (sessionContract vllm owns keeps) .serve
      (fun b v s => Ends (sessionContract vllm owns keeps) (streamingSession vllm) .serve b v s)
      (fun e v s => Ends (sessionContract vllm owns keeps) (streamingSession vllm) .serve
        ((streamingSession vllm).crash .serve e) v s)
      (serveTurn vllm loop i) v v.shared := by
  let d : Desk := { buffer := v.shared.buffer, received := v.shared.received }
  have hd : d.On vllm v.shared :=
    ⟨rfl, rfl, by simp [d], by simp [d], by simp [d], by simp [d], by simp [d]⟩
  have hm : Mid vllm owns keeps .serve d none v v.shared := .serveGoes hi (ha.1 rfl).2 hd
  have ends : ∀ {b : Loop} {v' : SessionView} {s' : Session},
      Inv vllm owns keeps none
        (Function.update v'.site .serve ((streamingSession vllm).head .serve b)) s' →
      Ends (sessionContract vllm owns keeps) (streamingSession vllm) .serve b v' s' :=
    fun hi' => ⟨hi', fun _ hu hs => absurd hs hu⟩
  have close : ∀ {f : Unit → Prog Loop}, (∀ v' s',
      Inv vllm owns keeps none (Function.update v'.site .serve .closed) s' →
      Wp (sessionContract vllm owns keeps) .serve
        (fun b v s => Ends (sessionContract vllm owns keeps) (streamingSession vllm) .serve b v s)
        (fun e v s => Ends (sessionContract vllm owns keeps) (streamingSession vllm) .serve
          ((streamingSession vllm).crash .serve e) v s) (f ()) v' s') →
      Wp (sessionContract vllm owns keeps) .serve
        (fun b v s => Ends (sessionContract vllm owns keeps) (streamingSession vllm) .serve b v s)
        (fun e v s => Ends (sessionContract vllm owns keeps) (streamingSession vllm) .serve
          ((streamingSession vllm).crash .serve e) v s)
        (closeSession >>= f) v v.shared := by
    intro f hf
    rw [wp_bind]
    exact wp_closeSession hm hf
  unfold serveTurn
  split
  · -- the session is accepted
    obtain ⟨hq, he, hs, hbuf, hrec⟩ := hi.start hl
    simp only [wp_bind, wp_pure]
    refine wp_send (by simp) hm (fun v' s' hm' => ends (hm'.inv.serveStops ?_ ?_ ?_))
      fun _ _ hs => absurd rfl hs
    · simp [streamingSession]
    · simp [streamingSession]
    · intro _ _
      have hd' := hm'.desk rfl
      rw [hd'.buffer, hd'.received]
      simp only [d, hbuf, hrec, replay_nil]
  · obtain ⟨hq, he, hs, -, -⟩ := hi.start hl
    exact ends (hm.inv.serveStops (by simp [streamingSession]) (fun _ => ⟨hq, he, hs⟩)
      (by simp [streamingSession]))
  · rename_i event
    simp only [wp_bind, wp_attempt]
    have hsync : keeps → v.shared.buffer = replay v.shared.received := fun hk => hi.synced hk hl
    refine wp_serveEvent hm (fun hk hne response he => ?_) fun b v' s' hb hm' => ?_
    · have hserved := ha.2.2 hk hne
      rw [hl, he] at hserved
      exact hserved
    · refine ends (hm'.inv.serveStops (by simp [streamingSession]) (by simp [streamingSession]) ?_)
      intro hk _
      have hd' := hm'.desk rfl
      rw [hd'.buffer, hd'.received, replay_concat, hb hk]
      simp only [d, hsync hk]
  · exact close fun v' s' hi' => ends hi'
  · exact close fun v' s' hi' => ends hi'
  · exact ends_idle hi hl

theorem wp_responseTurn {n : ℕ} (hi : Inv vllm owns keeps none v.site v.shared)
    (hl : v.site (.respond n) = (streamingSession vllm).head (.respond n) loop) :
    Wp (sessionContract vllm owns keeps) (.respond n)
      (fun b v s => Ends (sessionContract vllm owns keeps) (streamingSession vllm)
        (.respond n) b v s)
      (fun e v s => Ends (sessionContract vllm owns keeps) (streamingSession vllm) (.respond n)
        ((streamingSession vllm).crash (.respond n) e) v s)
      (responseTurn n loop i) v v.shared := by
  simp only [responseTurn, wp_bind, wp_get]
  cases hn : v.shared.answers[n]? with
  | none => exact ends_idle hi hl
  | some answer =>
    simp only
    split
    · exact ends_idle hi hl
    rename_i he
    have hlen : n < v.shared.answers.length := (List.getElem?_eq_some_iff.mp hn).1
    have hholds : (v.site (.respond n)).holds = none := by
      rw [hl]
      cases loop <;> simp [streamingSession, Site.holds]
    have hm :
        Mid vllm owns keeps (.respond n) { buffer := {}, received := [] } none v v.shared := by
      rw [← hholds]
      exact .respondGoes hi ⟨hlen, by simpa using he⟩
    -- the task has returned or raised
    have finished : ∀ {v' : SessionView} {s' : Session},
        Mid vllm owns keeps (.respond n) { buffer := {}, received := [] } none v' s' →
        Ends (sessionContract vllm owns keeps) (streamingSession vllm) (.respond n) .finished v'
          { s' with ended := Function.update s'.ended n true } := by
      intro v' s' hm'
      refine ⟨hm'.inv.respondEnds, fun u _ _ => ?_⟩
      have hg := hm'.grows (by simp)
      exact ⟨⟨hg.buffer, hg.received, hg.answers, hg.responseTask, hg.commits, hg.rendered⟩,
        fun hq => absurd hq (hm'.awake (by simp))⟩
    simp only [wp_bind, wp_attempt]
    refine wp_mono (fun next v' s' hm' => ?_) (fun e v' s' hm' => ?_)
      ((Loyal.respond answer loop i).wp hm)
    · split
      · refine ⟨hm'.inv.respondStops (by simp [Site.holds, streamingSession]), fun u _ _ => ?_⟩
        exact hm'.steady (by simp)
      · exact finished hm'
    · exact finished hm'

/-- No interleaving of the session's coroutines breaks its invariant. -/
theorem session_keeps (vllm : Vllm) (owns keeps : Prop) :
    Keeps (sessionContract vllm owns keeps) (streamingSession vllm) closedWorld where
  refl _ _ _ := .refl _
  trans _ _ _ _ h h' ht := (h ht).trans (h' ht)
  outside _ _ _ h := h.elim
  body t loop i v hi hl ha := by
    cases t with
    | serve => exact wp_serveTurn hi hl ha
    | respond n => exact wp_responseTurn hi hl
    | engine =>
      have ends : ∀ {s : Session}, Inv vllm owns keeps none v.site s → Steady v.shared s →
          Ends (sessionContract vllm owns keeps) (streamingSession vllm) .engine .engine v s :=
        fun hi' hs => ⟨hi'.engineMoves, fun _ _ _ => hs⟩
      change Wp _ _ _ _ (engineTurn i) _ _
      simp only [engineTurn, wp_bind, wp_get]
      split
      · rename_i k act
        split
        · rename_i he
          simp only [wp_bind, wp_modify, wp_pure]
          exact ends (Inv.act hi he) (steady_onRequest k _)
        · exact ends hi (.refl _)
      · exact ends hi (.refl _)

theorem inv_fresh (vllm : Vllm) (owns keeps : Prop) :
    (sessionContract vllm owns keeps).inv (freshSession vllm).view where
  ledger k := ledger_fresh
  fresh k _ := rfl
  engine := by simp [freshSession, System.start, Pool.view]
  standby := by simp [freshSession, System.start, Pool.view]
  held := by
    simp [freshSession, System.start, Pool.view, System.atHead, streamingSession, Site.holds]
  asked := by simp [freshSession, System.start, Pool.view]
  live := by simp [freshSession, System.start, Pool.view]
  unborn := by simp [freshSession, System.start, Pool.view, System.atHead, streamingSession]
  done := by simp [freshSession, System.start, Pool.view]
  start := by simp [freshSession, System.start, Pool.view, Quiet, Session.buffer]
  shut := by simp [freshSession, System.start, Pool.view, System.atHead, streamingSession]
  owned := by simp [freshSession, System.start, Pool.view, Open]
  synced := by simp [freshSession, System.start, Pool.view, System.atHead, streamingSession]

/-- The invariant holds of every session, in runs without the failures that it excludes. -/
theorem inv_reach {p : SessionPool}
    (h : (streamingSession vllm).Reach (sessionContract vllm owns keeps).allowed closedWorld
      (freshSession vllm) p) : Inv vllm owns keeps none p.view.site p.shared :=
  (session_keeps vllm owns keeps).invariant (inv_fresh vllm owns keeps) h

end Tasks

end VoiceAgent.SessionRules
