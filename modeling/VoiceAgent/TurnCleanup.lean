import VoiceAgent.StreamingEvents

/-!
One run of `_run_turn`, for whatever becomes of each of its awaits. The frame that starts the
response and its metrics are awaited before the guarded block, the frame that ends it and its
metrics in the cleanup. What a run leaves unpaired is left so by those four awaits alone.
-/
namespace VoiceAgent.TurnCleanup

open StreamingEvents

section Flow

/-- A timeout of the completion, any other `Exception`, and `CancelledError`, which is none. -/
inductive Failure
  | timeout
  | error (text : Text)
  | cancelled
  deriving DecidableEq

/-- How an awaited call ends. One that fails may have taken effect before. -/
inductive Outcome
  | returned
  | raised (took : Bool) (e : Failure)
  deriving DecidableEq

def Outcome.took : Outcome → Bool
  | .returned => true
  | .raised took _ => took

def Outcome.failure : Outcome → Option Failure
  | .returned => none
  | .raised _ e => some e

/-- What a piece of a coroutine has done, and the exception that leaves it. -/
structure Run (Event : Type) where
  events : List Event
  failure : Option Failure
  deriving DecidableEq

namespace Run

variable {Event : Type}

def await (events : List Event) (o : Outcome) : Run Event :=
  { events := if o.took then events else []
    failure := o.failure }

def andThen (r next : Run Event) : Run Event :=
  match r.failure with
  | some _ => r
  | none => { next with events := r.events ++ next.events }

/-- `try` and `except`; no clause is for a failure that `handler` has nothing for. -/
def catching (r : Run Event) (handler : Failure → Option (Run Event)) : Run Event :=
  match r.failure.bind handler with
  | some handled => { handled with events := r.events ++ handled.events }
  | none => r

/-- `try` and `finally`: a failure of the cleanup takes the place of the one it follows. -/
def ensure (r cleanup : Run Event) : Run Event :=
  { events := r.events ++ cleanup.events
    failure := cleanup.failure.or r.failure }

variable {r next cleanup : Run Event} {o : Outcome} {events : List Event} {e : Event}

theorem mem_await : e ∈ (await events o).events ↔ o.took = true ∧ e ∈ events := by
  cases h : o.took <;> simp [await, h]

theorem await_returned : await events .returned = { events := events, failure := none } := rfl

theorem returned_andThen : ((await events .returned).andThen next).events = events ++ next.events :=
  rfl

theorem raised_andThen (took : Bool) (f : Failure) :
    (await events (.raised took f)).andThen next = await events (.raised took f) := rfl

theorem await_took (h : o.took = true) : (await events o).events = events := if_pos h

theorem await_not_took (h : o.took = false) : (await events o).events = [] := by
  simp [await, h]

theorem mem_await_andThen : e ∈ ((await events o).andThen next).events ↔
    (o.took = true ∧ e ∈ events) ∨ (o = .returned ∧ e ∈ next.events) := by
  cases o with
  | returned => simp [andThen, await_returned, Outcome.took]
  | raised took f => cases took <;> simp [andThen, await, Outcome.took, Outcome.failure]

theorem mem_ensure : e ∈ (r.ensure cleanup).events ↔ e ∈ r.events ∨ e ∈ cleanup.events :=
  List.mem_append

/-- What holds of all that a block and its handlers do holds of what the two do together. -/
theorem forall_catching {P : Event → Prop} {handler : Failure → Option (Run Event)}
    (hr : ∀ e ∈ r.events, P e)
    (hhandler : ∀ f handled, handler f = some handled → ∀ e ∈ handled.events, P e) :
    ∀ e ∈ (r.catching handler).events, P e := by
  unfold catching
  cases hcaught : r.failure.bind handler with
  | none => exact hr
  | some handled =>
    obtain ⟨f, -, hf⟩ := Option.bind_eq_some_iff.mp hcaught
    intro e he
    rcases List.mem_append.mp he with he | he
    · exact hr e he
    · exact hhandler f handled hf e he

end Run

end Flow

section Pairs

variable {Event : Type} {a b c : Event} {events : List Event}

/-- Each `a` is followed by exactly one `b`. -/
def Answered [DecidableEq Event] (a b : Event) (events : List Event) : Prop :=
  ∀ before after, events = before ++ a :: after → after.count b = 1

/-- No `b` comes before an `a`. -/
def Preceded (a b : Event) (events : List Event) : Prop :=
  ∀ before after, events = before ++ b :: after → a ∈ before

theorem answered_of_not_mem [DecidableEq Event] (h : a ∉ events) : Answered a b events := by
  intro before after heq
  exact absurd (by simp [heq]) h

theorem answered_skip [DecidableEq Event] (hac : a ≠ c) (h : Answered a b events) :
    Answered a b (c :: events) := by
  intro before after heq
  cases before with
  | nil => exact absurd (List.cons.inj heq).1.symm hac
  | cons x before =>
    obtain ⟨-, rfl⟩ := List.cons.inj heq
    exact h before after rfl

theorem answered_cons [DecidableEq Event] (hcount : events.count b = 1) (ha : a ∉ events) :
    Answered a b (a :: events) := by
  intro before after heq
  cases before with
  | nil =>
    obtain ⟨-, rfl⟩ := List.cons.inj heq
    exact hcount
  | cons x before =>
    obtain ⟨-, rfl⟩ := List.cons.inj heq
    exact absurd (by simp) ha

theorem Answered.mem [DecidableEq Event] (h : Answered a b (a :: events)) : b ∈ events := by
  have hcount : events.count b = 1 := h [] events rfl
  exact List.count_pos_iff.mp (by omega)

theorem preceded_of_not_mem (h : b ∉ events) : Preceded a b events := by
  intro before after heq
  exact absurd (by simp [heq]) h

theorem preceded_of_head (hab : a ≠ b) : Preceded a b (a :: events) := by
  intro before after heq
  cases before with
  | nil => exact absurd (List.cons.inj heq).1 hab
  | cons x before =>
    obtain ⟨rfl, -⟩ := List.cons.inj heq
    exact List.mem_cons_self

end Pairs

section Turn

open Run

/-- Between its frames a turn pushes what `_process_context` pushes, and reports errors. -/
inductive Event
  | responseStart
  | metricsStarted
  | text (t : Text)
  | completionTimeout
  | error (msg : Text)
  | metricsStopped
  | responseEnd
  deriving DecidableEq

/-- What becomes of the awaits of a run, in their order: the push of the start frame, the start
of the metrics, the completion with what it pushes, the handler of a timeout, the push of an
error, the stop of the metrics and the push of the end frame. -/
structure Awaits where
  opening : Outcome := .returned
  metering : Outcome := .returned
  processing : Outcome := .returned
  processed : List Text := []
  handling : Outcome := .returned
  reporting : Outcome := .returned
  unmetering : Outcome := .returned
  closing : Outcome := .returned

/-- The `except` clauses of `_run_turn`. -/
def onFailure (o : Awaits) : Failure → Option (Run Event)
  | .timeout => some ((await [.completionTimeout] o.handling).andThen
      (await [.error "LLM completion timeout".toList] o.reporting))
  | .error text => some
      (await [.error ("Error during completion: ".toList ++ text)] o.reporting)
  | .cancelled => none

/-- The completion, with its clauses. -/
def completion (o : Awaits) : Run Event :=
  { events := o.processed.map .text
    failure := o.processing.failure : Run Event }.catching (onFailure o)

/-- The `finally` of `_run_turn`. -/
def cleanup (o : Awaits) : Run Event :=
  (await [.metricsStopped] o.unmetering).andThen (await [.responseEnd] o.closing)

def runTurn (o : Awaits) : Run Event :=
  (await [.responseStart] o.opening).andThen
    ((await [.metricsStarted] o.metering).andThen ((completion o).ensure (cleanup o)))

/-- Frames and metrics of a run are paired. -/
structure Paired (events : List Event) : Prop where
  ended : Answered .responseStart .responseEnd events
  started : Preceded .responseStart .responseEnd events
  metered : Answered .metricsStarted .metricsStopped events

/-- An event that is no part of a pair. -/
def Event.Inner : Event → Prop
  | .text _ | .completionTimeout | .error _ => True
  | _ => False

variable {o : Awaits}

theorem onFailure_inner (f : Failure) (handled : Run Event) (h : onFailure o f = some handled) :
    ∀ e ∈ handled.events, e.Inner := by
  intro e he
  cases f with
  | cancelled => cases h
  | error text =>
    cases h
    obtain ⟨-, he⟩ := mem_await.mp he
    rw [List.mem_singleton.mp he]
    trivial
  | timeout =>
    cases h
    rcases mem_await_andThen.mp he with ⟨-, he⟩ | ⟨-, he⟩
    · rw [List.mem_singleton.mp he]
      trivial
    · obtain ⟨-, he⟩ := mem_await.mp he
      rw [List.mem_singleton.mp he]
      trivial

theorem completion_inner : ∀ e ∈ (completion o).events, e.Inner := by
  refine forall_catching (fun e he => ?_) onFailure_inner
  obtain ⟨t, -, rfl⟩ := List.mem_map.mp he
  trivial

theorem not_mem_completion {e : Event} (he : ¬e.Inner) : e ∉ (completion o).events :=
  fun hmem => he (completion_inner e hmem)

/-- The end frame is pushed exactly if the three awaits before it that are not guarded return. -/
theorem mem_responseEnd : .responseEnd ∈ (runTurn o).events ↔
    o.opening = .returned ∧ o.metering = .returned ∧ o.unmetering = .returned ∧
      o.closing.took = true := by
  have hinner : Event.responseEnd ∉ (completion o).events := not_mem_completion id
  simp [runTurn, cleanup, mem_await_andThen, mem_ensure, mem_await, hinner]

/-- What a run does that leaves nothing out. -/
theorem runTurn_events (hopen : o.opening = .returned) (hmeter : o.metering = .returned)
    (hunmeter : o.unmetering = .returned) (hclose : o.closing.took = true) :
    (runTurn o).events = .responseStart :: .metricsStarted ::
      ((completion o).events ++ [.metricsStopped, .responseEnd]) := by
  have hcleanup : (cleanup o).events = [.metricsStopped, .responseEnd] := by
    unfold cleanup
    rw [hunmeter, returned_andThen, await_took hclose]
    rfl
  unfold runTurn
  rw [hopen, returned_andThen, hmeter, returned_andThen, ensure, hcleanup]
  rfl

theorem runTurn_unopened (h : o.opening.took = false) : (runTurn o).events = [] := by
  cases hopen : o.opening with
  | returned => simp [hopen, Outcome.took] at h
  | raised took e =>
    rw [runTurn, hopen, raised_andThen, ← hopen]
    exact await_not_took h

theorem runTurn_opened (h : o.opening.took = true) :
    ∃ rest, (runTurn o).events = .responseStart :: rest := by
  cases hopen : o.opening with
  | returned =>
    rw [runTurn, hopen, returned_andThen]
    exact ⟨_, rfl⟩
  | raised took e =>
    rw [runTurn, hopen, raised_andThen, ← hopen]
    exact ⟨[], await_took h⟩

theorem paired_nil : Paired [] where
  ended := answered_of_not_mem (by simp)
  started := preceded_of_not_mem (by simp)
  metered := answered_of_not_mem (by simp)

theorem paired_whole {inner : List Event} (hinner : ∀ e ∈ inner, e.Inner) :
    Paired (.responseStart :: .metricsStarted ::
      (inner ++ [.metricsStopped, .responseEnd])) := by
  have habsent : ∀ {e : Event}, ¬e.Inner → e ∉ inner := fun he hmem => he (hinner _ hmem)
  have hstart : Event.responseStart ∉ inner := habsent id
  have hend : inner.count .responseEnd = 0 := List.count_eq_zero.mpr (habsent id)
  have hmetered : Event.metricsStarted ∉ inner := habsent id
  have hstopped : inner.count .metricsStopped = 0 := List.count_eq_zero.mpr (habsent id)
  constructor
  · apply answered_cons
    · simp [List.count_append, hend]
    · simp [hstart]
  · exact preceded_of_head (by simp)
  · apply answered_skip (by simp)
    apply answered_cons
    · simp [List.count_append, hstopped]
    · simp [hmetered]

/-- A run pairs its frames and its metrics exactly if the start frame is not pushed, or none of
the awaits outside the guarded block fails: only the one of the end frame may, once it is pushed. -/
theorem paired_iff (o : Awaits) :
    Paired (runTurn o).events ↔ (o.opening.took = true →
      o.opening = .returned ∧ o.metering = .returned ∧ o.unmetering = .returned ∧
        o.closing.took = true) := by
  constructor
  · intro h htook
    obtain ⟨rest, hrest⟩ := runTurn_opened htook
    have hended := h.ended
    rw [hrest] at hended
    have hmem : .responseEnd ∈ (runTurn o).events := by
      rw [hrest]
      exact List.mem_cons_of_mem _ hended.mem
    exact mem_responseEnd.mp hmem
  · intro h
    cases htook : o.opening.took with
    | false =>
      rw [runTurn_unopened htook]
      exact paired_nil
    | true =>
      obtain ⟨hopen, hmeter, hunmeter, hclose⟩ := h htook
      rw [runTurn_events hopen hmeter hunmeter hclose]
      exact paired_whole completion_inner

/-- A turn that is cancelled while its metrics are started. -/
def cancelledEarly : Awaits := { metering := .raised true .cancelled }

theorem response_left_open :
    (runTurn cancelledEarly).events = [.responseStart, .metricsStarted] ∧
      ¬Paired (runTurn cancelledEarly).events := by
  refine ⟨by decide, fun h => ?_⟩
  have hcount := h.ended [] [.metricsStarted] rfl
  exact absurd hcount (by decide)

end Turn

end VoiceAgent.TurnCleanup
