import VoiceAgent.EngineRequest

/-!
The books of an engine request. Its prompt tokens are what has been yielded and what
is pending, an answer that waits has all of its prompt in them, and the chunk of an
answer is the last one.
-/
namespace VoiceAgent.EngineLedger

open StreamingEvents History EngineRequest

/-- A chunk follows prompt chunks only, and an answer's chunk completes its prompt. -/
def Rightly (pre : List InputChunk) (c : InputChunk) : Prop :=
  (∀ d ∈ pre, d.answer = none) ∧
    ∀ a ∈ c.answer, promptTokens (pre ++ [c]) = a.promptTokenIds ∧
      c.samplingParams = some a.params

structure Ledger (r : Request) : Prop where
  fed : r.fed = promptTokens r.yielded ++ r.pending
  next : ∀ a ∈ r.nextAnswer, r.fed = a.promptTokenIds
  chunks : Along Rightly r.yielded
  sealed : (∃ c ∈ r.yielded, c.answer ≠ none) →
    r.inputs = .returned ∨ ∃ a, r.inputs = .yielded (some a)
  idle : r.state = .unborn ∨ r.state = .scheduled → r.inputs = .fresh ∧ r.yielded = []
  opened : r.closed = false → r.task = false → r.state = .unborn
  unborn : r.state = .unborn → r.task = false
  cancelled : r.task = false → r.state = .unborn ∨ r.cancelling = true
  known : (∀ a ∈ r.nextAnswer, a ∈ r.accepted) ∧ ∀ c ∈ r.yielded, ∀ a ∈ c.answer, a ∈ r.accepted

theorem ledger_fresh : Ledger {} where
  fed := by simp
  next := by simp
  chunks := by simp
  sealed := by simp
  idle := by simp
  opened := by simp
  unborn := by simp
  cancelled := by simp
  known := by simp

section Session
variable {r : Request}

/-- Tokens that extend a request are its own tokens and what is left of them. -/
theorem fed_append_drop {tokens : List Token} (h : r.extendedBy tokens = true) :
    r.fed ++ tokens.drop r.fed.length = tokens := by
  have htake : tokens.take r.fed.length = r.fed := by
    simp only [Request.extendedBy, Bool.and_eq_true, beq_iff_eq] at h
    exact h.2
  calc r.fed ++ tokens.drop r.fed.length
      = tokens.take r.fed.length ++ tokens.drop r.fed.length := by rw [htake]
    _ = tokens := List.take_append_drop _ _

theorem not_closed_of_extendedBy {tokens : List Token} (h : r.extendedBy tokens = true) :
    r.closed = false := by
  simp only [Request.extendedBy, Bool.and_eq_true, Bool.not_eq_true'] at h
  exact h.1

theorem Ledger.enqueue (h : Ledger r) {tokens : List Token} {params : Option SamplingParams}
    {answer : Option Answer} (hext : r.extendedBy tokens = true)
    (hanswer : ∀ a ∈ answer, a.promptTokenIds = tokens) :
    Ledger (r.enqueue (tokens.drop r.fed.length) params answer) where
  fed := by
    change r.fed ++ _ = promptTokens r.yielded ++ (r.pending ++ _)
    rw [← List.append_assoc, ← h.fed]
  next a ha := (fed_append_drop hext).trans (hanswer a ha).symm
  chunks := h.chunks
  sealed := h.sealed
  idle := h.idle
  opened := h.opened
  unborn := h.unborn
  cancelled := h.cancelled
  known := by
    refine ⟨fun a ha => List.mem_append_right _ ?_, fun c hc a ha => ?_⟩
    · have hans : answer = some a := ha
      simp [hans]
    · exact List.mem_append_left _ (h.known.2 c hc a ha)

/-- A request that is still open and has no task has never had one. -/
theorem Ledger.ensureTask (h : Ledger r) (hc : r.closed = false) : Ledger r.ensureTask := by
  unfold Request.ensureTask
  split
  · exact h
  · rename_i htask
    obtain ⟨-, hnone⟩ := h.idle (.inl (h.opened hc (by simpa using htask)))
    refine ⟨h.fed, h.next, h.chunks, ?_, fun _ => ⟨rfl, hnone⟩, by simp, by simp, by simp, h.known⟩
    rintro ⟨c, hmem, -⟩
    change c ∈ r.yielded at hmem
    simp [hnone] at hmem

theorem Ledger.feed (h : Ledger r) {tokens : List Token} {params : Option SamplingParams}
    {answer : Option Answer} (hext : r.extendedBy tokens = true)
    (hanswer : ∀ a ∈ answer, a.promptTokenIds = tokens) :
    Ledger (r.feed tokens params answer) := by
  unfold Request.feed
  split
  · exact h
  · have hopen : r.closed = false := not_closed_of_extendedBy hext
    have hq : Ledger (r.enqueue (tokens.drop r.fed.length) params answer).ensureTask :=
      (h.enqueue hext hanswer).ensureTask hopen
    exact ⟨hq.fed, hq.next, hq.chunks, hq.sealed, hq.idle, hq.opened, hq.unborn, hq.cancelled,
      hq.known⟩

theorem mem_accepted_feed {tokens : List Token} {params : Option SamplingParams}
    {answer : Option Answer} {a : Answer} (h : a ∈ (r.feed tokens params answer).accepted) :
    a ∈ r.accepted ∨ answer = some a := by
  unfold Request.feed at h
  split at h
  · exact .inl h
  · have hmem : a ∈ r.accepted ++ answer.toList := by
      unfold Request.ensureTask at h
      split at h <;> exact h
    simpa using hmem

theorem Ledger.stop (h : Ledger r) : Ledger r.stop := by
  refine ⟨h.fed, h.next, h.chunks, h.sealed, h.idle, by simp [Request.stop], fun _ => rfl,
    fun _ => ?_, h.known⟩
  show r.state = .unborn ∨ (r.cancelling || r.task) = true
  cases htask : r.task with
  | true => simp
  | false => simpa using h.cancelled htask

end Session

section Engine
variable {r : Request}

theorem Ledger.endAnswer (h : Ledger r) : Ledger r.endAnswer := by
  unfold Request.endAnswer
  split <;>
    exact ⟨h.fed, h.next, h.chunks, h.sealed, h.idle, h.opened, h.unborn, h.cancelled, h.known⟩

theorem Ledger.onOutput (h : Ledger r) (o : RequestOutput) : Ledger (r.onOutput o) := by
  unfold Request.onOutput
  split
  · exact ⟨h.fed, h.next, h.chunks, h.sealed, h.idle, h.opened, h.unborn, h.cancelled, h.known⟩
  · rename_i a _
    have hput : Ledger (r.put a (some o)) :=
      ⟨h.fed, h.next, h.chunks, h.sealed, h.idle, h.opened, h.unborn, h.cancelled, h.known⟩
    split
    · exact hput.endAnswer
    · exact hput

theorem Ledger.begin (h : Ledger r) (hs : r.state = .scheduled) : Ledger r.begin := by
  have hopen : r.closed = false → r.task = false → r.state = .unborn := h.opened
  unfold Request.begin
  split
  · refine ⟨h.fed, h.next, h.chunks, h.sealed, by simp, fun hc ht => ?_, by simp,
      fun ht => (h.cancelled ht).imp (by simp [hs]) id, h.known⟩
    simp [hs] at hopen
    simp [hopen hc] at ht
  · refine ⟨h.fed, h.next, h.chunks, h.sealed, by simp, fun hc ht => ?_, by simp,
      fun ht => (h.cancelled ht).imp (by simp [hs]) id, h.known⟩
    simp [hs] at hopen
    simp [hopen hc] at ht

/-- A request whose task runs is closed or still holds the task. -/
theorem Ledger.held (h : Ledger r) (hs : r.state = .running) (hc : r.closed = false) :
    r.task = true := by
  by_contra ht
  have := h.opened hc (by simpa using ht)
  simp [hs] at this

theorem endAnswer_life (r : Request) : r.endAnswer.closed = r.closed ∧
    r.endAnswer.task = r.task ∧ r.endAnswer.cancelling = r.cancelling := by
  unfold Request.endAnswer
  split <;> exact ⟨rfl, rfl, rfl⟩

theorem Ledger.finish (h : Ledger r) (hs : r.state = .running) : Ledger r.finish := by
  have he := h.endAnswer
  obtain ⟨hclosed, htask, hcancel⟩ := endAnswer_life r
  refine ⟨he.fed, he.next, he.chunks, fun _ => .inl rfl, by simp [Request.finish],
    fun hc ht => ?_, by simp [Request.finish], fun ht => .inr ?_, he.known⟩
  · change r.endAnswer.closed = false at hc
    change r.endAnswer.task = false at ht
    rw [hclosed] at hc
    rw [htask, h.held hs hc] at ht
    cases ht
  · change r.endAnswer.task = false at ht
    show r.endAnswer.cancelling = true
    rw [htask] at ht
    rw [hcancel]
    exact (h.cancelled ht).resolve_left (by simp [hs])

/-- Before an answer's chunk the generator has yielded prompt chunks only. -/
theorem Ledger.unanswered (h : Ledger r) (hr : r.inputs ≠ .returned)
    (hy : ∀ a, r.inputs ≠ .yielded (some a)) : ∀ c ∈ r.yielded, c.answer = none := by
  intro c hc
  by_contra hanswer
  rcases h.sealed ⟨c, hc, hanswer⟩ with hret | ⟨a, ha⟩
  · exact hr hret
  · exact hy a ha

theorem Ledger.takeInput (h : Ledger r) (hs : r.state = .running)
    (hnone : ∀ c ∈ r.yielded, c.answer = none) : Ledger r.takeInput := by
  have hopen : r.closed = false → r.task = false → False := fun hc ht => by
    rw [h.held hs hc] at ht
    cases ht
  unfold Request.takeInput
  split
  · refine ⟨h.fed, h.next, h.chunks, ?_, by simp [hs], fun hc ht => (hopen hc ht).elim,
      by simp [hs], h.cancelled, h.known⟩
    rintro ⟨c, hc, hanswer⟩
    exact absurd (hnone c hc) hanswer
  · refine ⟨?_, by simp, ?_, ?_, by simp [hs], fun hc ht => (hopen hc ht).elim,
      by simp [hs], h.cancelled, by simp, fun c hc a ha => ?_⟩
    · simpa using h.fed
    · rw [along_concat]
      refine ⟨h.chunks, hnone, fun a ha => ?_⟩
      have hnext : r.nextAnswer = some a := ha
      refine ⟨?_, by simp [hnext]⟩
      rw [promptTokens_concat, ← h.fed]
      exact h.next a ha
    · rintro ⟨c, hc, hanswer⟩
      rcases List.mem_append.mp hc with hold | hnew
      · exact absurd (hnone c hold) hanswer
      · obtain rfl := List.mem_singleton.mp hnew
        obtain ⟨a, ha⟩ := Option.ne_none_iff_exists'.mp hanswer
        exact .inr ⟨a, by simpa using ha⟩
    · rcases List.mem_append.mp hc with hold | hnew
      · exact h.known.2 c hold a ha
      · obtain rfl := List.mem_singleton.mp hnew
        exact h.known.1 a ha

theorem Ledger.waking (h : Ledger r) (hs : r.state = .running)
    (hnone : ∀ c ∈ r.yielded, c.answer = none) (l : Inputs) : Ledger { r with inputs := l } := by
  refine ⟨h.fed, h.next, h.chunks, ?_, by simp [hs], h.opened, h.unborn, h.cancelled, h.known⟩
  rintro ⟨c, hc, hanswer⟩
  exact absurd (hnone c hc) hanswer

theorem Ledger.nextInput (h : Ledger r) (hs : r.state = .running)
    (hnone : ∀ c ∈ r.yielded, c.answer = none) : Ledger r.nextInput := by
  unfold Request.nextInput
  split
  · exact h.takeInput hs hnone
  · exact h.waking hs hnone .waking

theorem Ledger.resumeInputs (h : Ledger r) (hs : r.state = .running) :
    Ledger r.resumeInputs := by
  unfold Request.resumeInputs
  split
  · rename_i hl
    exact h.nextInput hs (h.unanswered (by simp [hl]) (by simp [hl]))
  · rename_i hl
    exact h.nextInput hs (h.unanswered (by simp [hl]) (by simp [hl]))
  · exact ⟨h.fed, h.next, h.chunks, fun _ => .inl rfl, by simp [hs], by simp, by simp [hs],
      h.cancelled, h.known⟩
  · rename_i hl
    have hnone := h.unanswered (by simp [hl]) (by simp [hl])
    split
    · exact h.nextInput hs hnone
    · exact h.waking hs hnone .chunkRunning
  · rename_i hl
    have hnone := h.unanswered (by simp [hl]) (by simp [hl])
    split
    · exact h.nextInput hs hnone
    · exact h.waking hs hnone .chunkRunning
  · exact h

/-- Whatever the engine does, the books stay right. -/
theorem Ledger.act (h : Ledger r) (act : EngineAct) (he : act.enabled r) :
    Ledger (act.apply r) := by
  cases act with
  | begin => exact h.begin he
  | inputs => exact h.resumeInputs he
  | output o => exact h.onOutput o
  | finish => exact h.finish he

/-- What only the session changes of a request. -/
def Untouched (r r' : Request) : Prop := r'.accepted = r.accepted ∧ r'.cancelling = r.cancelling

theorem untouched_endAnswer (r : Request) : Untouched r r.endAnswer := by
  unfold Request.endAnswer
  split <;> exact ⟨rfl, rfl⟩

theorem untouched_onOutput (r : Request) (o : RequestOutput) : Untouched r (r.onOutput o) := by
  unfold Request.onOutput
  split
  · exact ⟨rfl, rfl⟩
  · rename_i a _
    split
    · exact untouched_endAnswer (r.put a (some o))
    · exact ⟨rfl, rfl⟩

theorem untouched_nextInput (r : Request) : Untouched r r.nextInput := by
  unfold Request.nextInput Request.takeInput
  split
  · split <;> exact ⟨rfl, rfl⟩
  · exact ⟨rfl, rfl⟩

theorem untouched_resumeInputs (r : Request) : Untouched r r.resumeInputs := by
  unfold Request.resumeInputs
  split
  · exact untouched_nextInput r
  · exact untouched_nextInput r
  · exact ⟨rfl, rfl⟩
  · split
    · exact untouched_nextInput r
    · exact ⟨rfl, rfl⟩
  · split
    · exact untouched_nextInput r
    · exact ⟨rfl, rfl⟩
  · exact ⟨rfl, rfl⟩

theorem untouched_act (r : Request) (act : EngineAct) : Untouched r (act.apply r) := by
  cases act with
  | begin =>
    show Untouched r r.begin
    unfold Request.begin
    split <;> exact ⟨rfl, rfl⟩
  | inputs => exact untouched_resumeInputs r
  | output o => exact untouched_onOutput r o
  | finish => exact untouched_endAnswer r

end Engine

end VoiceAgent.EngineLedger
