import VoiceAgent.EngineLedger

/-!
One engine request against everything that can happen to it: feeds, a stop, the turns
of its task and of its input generator, and the end of `generate` at any time. As long
as `generate` does not end early and no answer is overtaken, a request that says it
can be extended does consume what it is fed, and the queue of every answer is closed
by exactly one `None`.
-/
namespace VoiceAgent.EngineAnswers

open StreamingEvents EngineRequest EngineLedger

inductive Act
  | feed (tokens : List Token) (params : Option SamplingParams) (answer : Option Answer)
  | stop
  | engine (act : EngineAct)
  deriving DecidableEq

namespace Act

def apply (r : Request) : Act → Request
  | .feed tokens params answer => r.feed tokens params answer
  | .stop => r.stop
  | .engine act => act.apply r

/-- The session feeds what `extends` has accepted, and each answer once, with its own prompt. -/
def legal (r : Request) : Act → Prop
  | .feed tokens _ answer => r.extendedBy tokens = true ∧
      (∀ a ∈ answer, a.promptTokenIds = tokens) ∧ ∀ a ∈ answer, ∀ b ∈ r.accepted, b.id ≠ a.id
  | .stop => True
  | .engine act => act.enabled r

/-- No answer is overtaken while it waits, and `generate` ends on closed requests only. -/
def tidy (r : Request) : Act → Prop
  | .feed tokens _ answer =>
      r.nextAnswer = none ∨ tokens.drop r.fed.length = [] ∧ answer = none
  | .engine .begin => r.cancelling = true → r.nextAnswer = none
  | .engine .finish => r.closed = true ∧ r.nextAnswer = none
  | .stop | .engine .inputs | .engine (.output _) => True

end Act

/-- The steps of a request that satisfy `P`. -/
def Moves (P : Request → Act → Prop) (r r' : Request) : Prop :=
  ∃ act, P r act ∧ act.apply r = r'

/-- The states of a request after any sequence of steps that satisfy `P`. -/
def Reaches (P : Request → Act → Prop) : Request → Request → Prop :=
  Relation.ReflTransGen (Moves P)

/-- What the engine and the event loop can do by themselves. -/
def EngineRun : Request → Request → Prop := Reaches fun r act =>
  ∃ e, act = .engine e ∧ e.enabled r

/-- Whatever is fed next can still reach the engine, with the answer in its last chunk. -/
def CanConsume (r : Request) : Prop :=
  ∀ tokens params answer, Act.legal r (.feed tokens params answer) →
    tokens.drop r.fed.length ≠ [] ∨ answer ≠ none →
    ∃ r', EngineRun (r.feed tokens params answer) r' ∧ promptTokens r'.yielded = tokens ∧
      r'.yielded.getLast?.bind InputChunk.answer = answer

/-- `outputs()`, the reader of an answer's queue, on what the queue has been given:
`none` while it still waits. -/
def readOutputs : List (Option RequestOutput) → Option (List RequestOutput)
  | [] => none
  | none :: _ => some []
  | some output :: rest => (readOutputs rest).map (output :: ·)

theorem readOutputs_closed (outs : List RequestOutput) :
    readOutputs (outs.map some ++ [none]) = some outs := by
  induction outs with
  | nil => simp [readOutputs]
  | cons o rest ih => simp [readOutputs, ih]

/-- One `None`, after all of the outputs. -/
def Closed (queue : List (Option RequestOutput)) : Prop :=
  ∃ outs : List RequestOutput, queue = outs.map some ++ [none]

/-- Outputs only: the answer is still being produced. -/
def Streaming (queue : List (Option RequestOutput)) : Prop :=
  ∃ outs : List RequestOutput, queue = outs.map some

theorem Streaming.put {queue : List (Option RequestOutput)} (h : Streaming queue)
    (o : RequestOutput) : Streaming (queue ++ [some o]) := by
  obtain ⟨outs, rfl⟩ := h
  exact ⟨outs ++ [o], by simp⟩

theorem Streaming.close {queue : List (Option RequestOutput)} (h : Streaming queue) :
    Closed (queue ++ [none]) := by
  obtain ⟨outs, rfl⟩ := h
  exact ⟨outs, by simp⟩

section Alive

/-- An open request is alive, and no answer is current before its chunk has been yielded. -/
structure Alive (r : Request) : Prop where
  open_ : r.closed = false → r.state ≠ .ended ∧ r.cancelling = false ∧ r.inputs ≠ .returned
  quiet : r.inputs ≠ .returned → (∀ a, r.inputs ≠ .yielded (some a)) → r.answer = none

theorem alive_fresh : Alive {} where
  open_ := by simp
  quiet := by simp

variable {r : Request}

theorem Alive.feed (h : Alive r) (hl : Ledger r) {tokens : List Token}
    {params : Option SamplingParams} {answer : Option Answer} (hopen : r.closed = false) :
    Alive (r.feed tokens params answer) := by
  unfold Request.feed
  split
  · exact h
  by_cases htask : r.task = true
  · have hsame : (r.enqueue (tokens.drop r.fed.length) params answer).ensureTask =
        r.enqueue (tokens.drop r.fed.length) params answer := if_pos htask
    rw [hsame]
    exact ⟨h.open_, h.quiet⟩
  · have hstate := hl.opened hopen (by simpa using htask)
    have hinputs := (hl.idle (.inl hstate)).1
    have hanswer : r.answer = none := h.quiet (by simp [hinputs]) (by simp [hinputs])
    rw [Request.ensureTask, if_neg (by exact htask)]
    exact ⟨by simp, fun _ _ => hanswer⟩

theorem Alive.stop (h : Alive r) : Alive r.stop :=
  ⟨by simp [Request.stop], h.quiet⟩

theorem Alive.endAnswer (h : Alive r) : Alive r.endAnswer := by
  unfold Request.endAnswer
  split
  · exact ⟨h.open_, h.quiet⟩
  · exact ⟨h.open_, fun _ _ => rfl⟩

theorem Alive.onOutput (h : Alive r) (o : RequestOutput) : Alive (r.onOutput o) := by
  unfold Request.onOutput
  split
  · exact ⟨h.open_, h.quiet⟩
  · rename_i a _
    have hput : Alive (r.put a (some o)) := ⟨h.open_, h.quiet⟩
    split
    · exact hput.endAnswer
    · exact hput

theorem Alive.begin (h : Alive r) : Alive r.begin := by
  unfold Request.begin
  split
  · rename_i hcancel
    refine ⟨fun hopen => ?_, h.quiet⟩
    have := (h.open_ hopen).2.1
    simp [hcancel] at this
  · exact ⟨fun hopen => ⟨by simp, (h.open_ hopen).2⟩, h.quiet⟩

theorem alive_finish (hclosed : r.closed = true) : Alive r.finish := by
  refine ⟨fun hopen => ?_, fun hret => (hret rfl).elim⟩
  have hsame : r.endAnswer.closed = r.closed := by
    unfold Request.endAnswer
    split <;> rfl
  change r.endAnswer.closed = false at hopen
  rw [hsame, hclosed] at hopen
  cases hopen

theorem Alive.nextInput (h : Alive r) (hanswer : r.answer = none) : Alive r.nextInput := by
  unfold Request.nextInput
  split
  · unfold Request.takeInput
    split
    · exact ⟨fun hopen => ⟨(h.open_ hopen).1, (h.open_ hopen).2.1, by simp⟩, fun _ _ => hanswer⟩
    · refine ⟨fun hopen => ⟨(h.open_ hopen).1, (h.open_ hopen).2.1, by simp⟩, fun _ hy => ?_⟩
      cases hnext : r.nextAnswer with
      | none => simp
      | some a => exact (hy a (by simp [hnext])).elim
  · exact ⟨fun hopen => ⟨(h.open_ hopen).1, (h.open_ hopen).2.1, by simp⟩, fun _ _ => hanswer⟩

theorem Alive.resumeInputs (h : Alive r) : Alive r.resumeInputs := by
  unfold Request.resumeInputs
  split
  · rename_i hl
    exact h.nextInput (h.quiet (by simp [hl]) (by simp [hl]))
  · rename_i hl
    exact h.nextInput (h.quiet (by simp [hl]) (by simp [hl]))
  · exact ⟨by simp, fun hret => (hret rfl).elim⟩
  · rename_i hl
    have hanswer := h.quiet (by simp [hl]) (by simp [hl])
    split
    · exact h.nextInput hanswer
    · exact ⟨fun hopen => ⟨(h.open_ hopen).1, (h.open_ hopen).2.1, by simp⟩, fun _ _ => hanswer⟩
  · rename_i hl
    have hanswer := h.quiet (by simp [hl]) (by simp [hl])
    split
    · exact h.nextInput hanswer
    · exact ⟨fun hopen => ⟨(h.open_ hopen).1, (h.open_ hopen).2.1, by simp⟩, fun _ _ => hanswer⟩
  · exact h

end Alive

section Consuming
variable {r : Request}

theorem engineRun_act {r' : Request} {e : EngineAct} (he : e.enabled r)
    (h : EngineRun (e.apply r) r') : EngineRun r r' :=
  .head ⟨.engine e, ⟨e, rfl, he⟩, rfl⟩ h

/-- The generator has all that was fed on the way, and its last chunk has the answer. -/
def Consumed (r : Request) (answer : Option Answer) : Prop :=
  promptTokens r.yielded = r.fed ∧ r.yielded.getLast?.bind InputChunk.answer = answer

theorem consumed_takeInput (h : Ledger r) (hwork : r.pending ≠ [] ∨ r.nextAnswer ≠ none) :
    Consumed r.takeInput r.nextAnswer ∧ r.takeInput.fed = r.fed := by
  have hbusy : ¬(r.pending = [] ∧ r.nextAnswer = none) := by tauto
  rw [Request.takeInput, if_neg hbusy]
  refine ⟨⟨?_, by simp⟩, rfl⟩
  rw [promptTokens_concat]
  exact h.fed.symm

/-- A woken generator that is not in the middle of a chunk takes what is there. -/
theorem consume_woken (h : Ledger r) (hs : r.state = .running) (hw : r.wake = true)
    (hwork : r.pending ≠ [] ∨ r.nextAnswer ≠ none) (hgo : r.resumeInputs = r.nextInput) :
    ∃ r', EngineRun r r' ∧ Consumed r' r.nextAnswer ∧ r'.fed = r.fed := by
  have htake : EngineAct.inputs.apply r = r.takeInput := by
    change r.resumeInputs = _
    rw [hgo, Request.nextInput, if_pos hw]
  obtain ⟨hc, hfed⟩ := consumed_takeInput h hwork
  refine ⟨r.takeInput, ?_, hc, hfed⟩
  apply engineRun_act (e := .inputs) hs
  rw [htake]
  exact .refl

/-- After the throwaway token of a prompt chunk the generator goes on. -/
theorem consume_after_chunk (h : Ledger r) (hs : r.state = .running) (hw : r.wake = true)
    (hwork : r.pending ≠ [] ∨ r.nextAnswer ≠ none) (hanswer : r.answer = none)
    (hl : r.inputs = .yielded none ∨ r.inputs = .chunkRunning) :
    ∃ r', EngineRun r r' ∧ Consumed r' r.nextAnswer ∧ r'.fed = r.fed := by
  have hout : r.onOutput {} = { r with chunkDone := true } := by
    simp [Request.onOutput, hanswer]
  have hgo : (r.onOutput {}).resumeInputs = (r.onOutput {}).nextInput := by
    rw [hout]
    rcases hl with hl | hl <;> simp [Request.resumeInputs, hl]
  have hsame : (r.onOutput {}).nextAnswer = r.nextAnswer ∧ (r.onOutput {}).fed = r.fed := by
    rw [hout]
    constructor <;> rfl
  obtain ⟨r', hrun, hc, hfed⟩ := consume_woken (h.onOutput {}) (by rw [hout]; exact hs)
    (by rw [hout]; exact hw) (by rw [hout]; exact hwork) hgo
  rw [hsame.1] at hc
  rw [hsame.2] at hfed
  exact ⟨r', engineRun_act (e := .output {}) hs hrun, hc, hfed⟩

/-- A live request that has been woken consumes what is pending. -/
theorem consume_pending (h : Ledger r) (ha : Alive r) (hopen : r.closed = false)
    (hborn : r.state ≠ .unborn) (hy : ∀ a, r.inputs ≠ .yielded (some a)) (hw : r.wake = true)
    (hwork : r.pending ≠ [] ∨ r.nextAnswer ≠ none) :
    ∃ r', EngineRun r r' ∧ Consumed r' r.nextAnswer ∧ r'.fed = r.fed := by
  obtain ⟨hended, hcancel, hret⟩ := ha.open_ hopen
  have hanswer := ha.quiet hret hy
  cases hs : r.state with
  | unborn => exact (hborn hs).elim
  | ended => exact (hended hs).elim
  | running =>
    cases hl : r.inputs with
    | fresh => exact consume_woken h hs hw hwork (by simp [Request.resumeInputs, hl])
    | waking => exact consume_woken h hs hw hwork (by simp [Request.resumeInputs, hl])
    | chunkRunning => exact consume_after_chunk h hs hw hwork hanswer (.inr hl)
    | returned => exact (hret hl).elim
    | yielded answer =>
      cases answer with
      | none => exact consume_after_chunk h hs hw hwork hanswer (.inl hl)
      | some a => exact (hy a hl).elim
  | scheduled =>
    have hbegin : r.begin = { r with state := .running } := by simp [Request.begin, hcancel]
    have hfresh := (h.idle (.inr hs)).1
    have hgo : r.begin.resumeInputs = r.begin.nextInput := by
      simp [hbegin, Request.resumeInputs, hfresh]
    have hsame : r.begin.nextAnswer = r.nextAnswer ∧ r.begin.fed = r.fed := by
      rw [hbegin]
      constructor <;> rfl
    obtain ⟨r', hrun, hc, hfed⟩ := consume_woken (h.begin hs) (by rw [hbegin])
      (by rw [hbegin]; exact hw) (by rw [hbegin]; exact hwork) hgo
    rw [hsame.1] at hc
    rw [hsame.2] at hfed
    exact ⟨r', engineRun_act (e := .begin) hs hrun, hc, hfed⟩

/-- A request that is alive, open and not at the yield of its answer consumes what comes. -/
theorem canConsume (h : Ledger r) (ha : Alive r) (hy : ∀ a, r.inputs ≠ .yielded (some a)) :
    CanConsume r := by
  intro tokens params answer hlegal hnew
  obtain ⟨hext, hanswer, -⟩ := hlegal
  have hopen := not_closed_of_extendedBy hext
  have hfed : Ledger (r.feed tokens params answer) := h.feed hext hanswer
  have halive : Alive (r.feed tokens params answer) := ha.feed h hopen
  have hbusy : ¬(tokens.drop r.fed.length = [] ∧ answer = none) := by tauto
  have hpending : r.pending ++ tokens.drop r.fed.length ≠ [] ∨ answer ≠ none := by
    rcases hnew with hdrop | hans
    · exact .inl (by simp [hdrop])
    · exact .inr hans
  -- the task is the old one, or a new one whose generator has not started
  have hshape : (r.feed tokens params answer).closed = false ∧
      (r.feed tokens params answer).state ≠ .unborn ∧
      (∀ a, (r.feed tokens params answer).inputs ≠ .yielded (some a)) ∧
      (r.feed tokens params answer).wake = true ∧
      (r.feed tokens params answer).pending = r.pending ++ tokens.drop r.fed.length ∧
      (r.feed tokens params answer).nextAnswer = answer ∧
      (r.feed tokens params answer).fed = r.fed ++ tokens.drop r.fed.length := by
    rw [Request.feed, if_neg hbusy, Request.ensureTask]
    by_cases htask : r.task = true
    · rw [if_pos (by exact htask)]
      refine ⟨hopen, fun hstate => ?_, hy, rfl, rfl, rfl, rfl⟩
      exact absurd htask (by simp [h.unborn hstate])
    · rw [if_neg (by exact htask)]
      exact ⟨hopen, by simp, by simp, rfl, rfl, rfl, rfl⟩
  obtain ⟨hc, hs, hy', hw, hp, hn, hf⟩ := hshape
  obtain ⟨r', hrun, ⟨htok, hlast⟩, hsame⟩ :=
    consume_pending hfed halive hc hs hy' hw (by rw [hp, hn]; exact hpending)
  refine ⟨r', hrun, ?_, by rw [hlast, hn]⟩
  rw [htok, hsame, hf, fed_append_drop hext]

end Consuming

section Dead
variable {r r' : Request}

/-- Nothing happens to a request whose task has ended. -/
theorem engineRun_ended (hs : r.state = .ended) (h : EngineRun r r') : r' = r := by
  induction h with
  | refl => rfl
  | tail _ hstep ih =>
    obtain ⟨act, ⟨e, rfl, he⟩, -⟩ := hstep
    subst ih
    cases e <;> simp [EngineAct.enabled, hs] at he

end Dead

section Delivery

/-- Each accepted answer waits, is current, or has had its `None`. -/
structure Delivered (r : Request) : Prop where
  waiting : ∀ a ∈ r.nextAnswer, a ∈ r.accepted ∧ r.outputs a.id = [] ∧ r.answer ≠ some a
  current : ∀ a ∈ r.answer, a ∈ r.accepted ∧ Streaming (r.outputs a.id)
  settled : ∀ a ∈ r.accepted, r.nextAnswer = some a ∨ r.answer = some a ∨ Closed (r.outputs a.id)
  ids : ∀ a ∈ r.accepted, ∀ b ∈ r.accepted, a.id = b.id → a = b
  unused : ∀ n, (∀ a ∈ r.accepted, a.id ≠ n) → r.outputs n = []
  ended : r.state = .ended → r.answer = none ∧ r.nextAnswer = none

theorem delivered_fresh : Delivered {} where
  waiting := by simp
  current := by simp
  settled := by simp
  ids := by simp
  unused := by simp
  ended := by simp

variable {r : Request}

/-- The parts of a request that its deliveries depend on. -/
theorem Delivered.of_eq (h : Delivered r) {r' : Request} (hn : r'.nextAnswer = r.nextAnswer)
    (ha : r'.answer = r.answer) (hq : r'.outputs = r.outputs) (hacc : r'.accepted = r.accepted)
    (hended : r'.state = .ended → r'.answer = none ∧ r'.nextAnswer = none) : Delivered r' where
  waiting := by rw [hn, ha, hq, hacc]; exact h.waiting
  current := by rw [ha, hq, hacc]; exact h.current
  settled := by rw [hn, ha, hq, hacc]; exact h.settled
  ids := by rw [hacc]; exact h.ids
  unused := by rw [hq, hacc]; exact h.unused
  ended := hended

theorem Delivered.enqueue (h : Delivered r) {delta : List Token}
    {params : Option SamplingParams} {answer : Option Answer} (hnone : r.nextAnswer = none)
    (hstate : r.state ≠ .ended) (hnew : ∀ a ∈ answer, ∀ b ∈ r.accepted, b.id ≠ a.id) :
    Delivered (r.enqueue delta params answer) where
  waiting a ha := by
    have hans : answer = some a := ha
    refine ⟨by simp [Request.enqueue, hans], h.unused a.id (hnew a hans), fun hcur => ?_⟩
    exact hnew a hans a (h.current a hcur).1 rfl
  current a ha := ⟨List.mem_append_left _ (h.current a ha).1, (h.current a ha).2⟩
  settled a ha := by
    rcases List.mem_append.mp ha with hold | hans
    · rcases h.settled a hold with hnext | hrest
      · simp [hnone] at hnext
      · exact .inr hrest
    · refine .inl ?_
      show answer = some a
      simpa using hans
  ids a ha b hb hid := by
    rcases List.mem_append.mp ha with ha | ha <;> rcases List.mem_append.mp hb with hb | hb
    · exact h.ids a ha b hb hid
    · exact absurd hid (hnew b (by simpa using hb) a ha)
    · exact absurd hid.symm (hnew a (by simpa using ha) b hb)
    · have hab : some a = some b := by
        rw [← (by simpa using ha : answer = some a), (by simpa using hb : answer = some b)]
      exact Option.some.inj hab
  unused n hn := h.unused n fun a ha => hn a (List.mem_append_left _ ha)
  ended hs := absurd hs hstate

theorem Delivered.feed (h : Delivered r) (ha : Alive r) {tokens : List Token}
    {params : Option SamplingParams} {answer : Option Answer}
    (hlegal : Act.legal r (.feed tokens params answer))
    (htidy : Act.tidy r (.feed tokens params answer)) :
    Delivered (r.feed tokens params answer) := by
  obtain ⟨hext, -, hnew⟩ := hlegal
  unfold Request.feed
  split
  · exact h
  · rename_i hbusy
    have hstate := (ha.open_ (not_closed_of_extendedBy hext)).1
    have hq : Delivered (r.enqueue (tokens.drop r.fed.length) params answer) :=
      h.enqueue (htidy.resolve_right hbusy) hstate hnew
    unfold Request.ensureTask
    split
    · exact hq.of_eq rfl rfl rfl rfl hq.ended
    · exact hq.of_eq rfl rfl rfl rfl (by simp)

/-- Giving the current answer its `None` settles it. -/
theorem Delivered.endAnswer (h : Delivered r) : Delivered r.endAnswer := by
  unfold Request.endAnswer
  split
  · exact h.of_eq rfl rfl rfl rfl h.ended
  · rename_i a hcur
    obtain ⟨hmem, hstream⟩ := h.current a hcur
    have hkeep : ∀ b ∈ r.accepted, b ≠ a →
        Function.update r.outputs a.id (r.outputs a.id ++ [none]) b.id = r.outputs b.id := by
      intro b hb hne
      exact Function.update_of_ne (fun hid => hne (h.ids b hb a hmem hid)) _ _
    refine ⟨fun b hb => ?_, by simp, fun b hb => ?_, h.ids, fun n hn => ?_, fun hs => ?_⟩
    · obtain ⟨hacc, hempty, hnot⟩ := h.waiting b hb
      have hne : b ≠ a := fun hba => hnot (by rw [hcur, hba])
      exact ⟨hacc, (hkeep b hacc hne).trans hempty, by simp⟩
    · by_cases hba : b = a
      · subst b
        refine .inr (.inr ?_)
        change Closed (Function.update r.outputs a.id (r.outputs a.id ++ [none]) a.id)
        rw [Function.update_self]
        exact hstream.close
      · rcases h.settled b hb with hnext | hans | hclosed
        · exact .inl hnext
        · exact absurd (Option.some.inj (hans.symm.trans hcur)) hba
        · refine .inr (.inr ?_)
          change Closed (Function.update r.outputs a.id (r.outputs a.id ++ [none]) b.id)
          rwa [hkeep b hb hba]
    · exact (Function.update_of_ne (fun hna => hn a hmem hna.symm) _ _).trans (h.unused n hn)
    · exact ⟨rfl, (h.ended hs).2⟩

theorem Delivered.put (h : Delivered r) {a : Answer} (hcur : r.answer = some a)
    (o : RequestOutput) : Delivered (r.put a (some o)) := by
  obtain ⟨hmem, hstream⟩ := h.current a hcur
  have hkeep : ∀ b ∈ r.accepted, b ≠ a →
      (r.put a (some o)).outputs b.id = r.outputs b.id := by
    intro b hb hne
    exact Function.update_of_ne (fun hid => hne (h.ids b hb a hmem hid)) _ _
  have hself : (r.put a (some o)).outputs a.id = r.outputs a.id ++ [some o] := by
    simp [Request.put]
  refine ⟨fun b hb => ?_, fun b hb => ?_, fun b hb => ?_, h.ids, fun n hn => ?_, h.ended⟩
  · obtain ⟨hacc, hempty, hnot⟩ := h.waiting b hb
    have hne : b ≠ a := fun hba => hnot (by rw [hcur, hba])
    exact ⟨hacc, (hkeep b hacc hne).trans hempty, hnot⟩
  · obtain rfl : a = b := Option.some.inj (hcur.symm.trans hb)
    rw [hself]
    exact ⟨hmem, hstream.put o⟩
  · rcases h.settled b hb with hnext | hans | hclosed
    · exact .inl hnext
    · exact .inr (.inl hans)
    · by_cases hba : b = a
      · exact .inr (.inl (by rw [hba]; exact hcur))
      · exact .inr (.inr (by rw [hkeep b hb hba]; exact hclosed))
  · exact (Function.update_of_ne (fun hna => hn a hmem hna.symm) _ _).trans (h.unused n hn)

theorem Delivered.onOutput (h : Delivered r) (o : RequestOutput) : Delivered (r.onOutput o) := by
  unfold Request.onOutput
  split
  · exact h.of_eq rfl rfl rfl rfl h.ended
  · rename_i a hcur
    have hput := h.put hcur o
    split
    · exact hput.endAnswer
    · exact hput

/-- The answer that waits becomes current; there is none before it. -/
theorem Delivered.nextInput (h : Delivered r) (hs : r.state = .running)
    (hanswer : r.answer = none) : Delivered r.nextInput := by
  have hended : r.state = .ended → False := by simp [hs]
  unfold Request.nextInput
  split
  swap
  · exact h.of_eq rfl rfl rfl rfl h.ended
  unfold Request.takeInput
  split
  · exact h.of_eq rfl rfl rfl rfl h.ended
  refine ⟨by simp, fun a ha => ?_, fun a ha => ?_, h.ids, h.unused, fun he => (hended he).elim⟩
  · obtain ⟨hacc, hempty, -⟩ := h.waiting a ha
    exact ⟨hacc, [], by simpa using hempty⟩
  · rcases h.settled a ha with hnext | hcur | hclosed
    · exact .inr (.inl hnext)
    · simp [hanswer] at hcur
    · exact .inr (.inr hclosed)

theorem Delivered.resumeInputs (h : Delivered r) (ha : Alive r) (hs : r.state = .running) :
    Delivered r.resumeInputs := by
  unfold Request.resumeInputs
  split
  · rename_i hl
    exact h.nextInput hs (ha.quiet (by simp [hl]) (by simp [hl]))
  · rename_i hl
    exact h.nextInput hs (ha.quiet (by simp [hl]) (by simp [hl]))
  · exact h.of_eq rfl rfl rfl rfl h.ended
  · rename_i hl
    split
    · exact h.nextInput hs (ha.quiet (by simp [hl]) (by simp [hl]))
    · exact h.of_eq rfl rfl rfl rfl h.ended
  · rename_i hl
    split
    · exact h.nextInput hs (ha.quiet (by simp [hl]) (by simp [hl]))
    · exact h.of_eq rfl rfl rfl rfl h.ended
  · exact h

theorem Delivered.begin (h : Delivered r) (hl : Ledger r) (ha : Alive r)
    (hs : r.state = .scheduled) (hwait : r.cancelling = true → r.nextAnswer = none) :
    Delivered r.begin := by
  have hfresh := (hl.idle (.inr hs)).1
  unfold Request.begin
  split
  · rename_i hcancel
    exact h.of_eq rfl rfl rfl rfl fun _ =>
      ⟨ha.quiet (by simp [hfresh]) (by simp [hfresh]), hwait hcancel⟩
  · exact h.of_eq rfl rfl rfl rfl (by simp)

theorem Delivered.finish (h : Delivered r) (hwait : r.nextAnswer = none) :
    Delivered r.finish := by
  refine h.endAnswer.of_eq rfl rfl rfl rfl fun _ => ?_
  change r.endAnswer.answer = none ∧ r.endAnswer.nextAnswer = none
  unfold Request.endAnswer
  split
  · rename_i hnone
    exact ⟨hnone, hwait⟩
  · exact ⟨rfl, hwait⟩

end Delivery

section Runs

/-- What every orderly run of a request keeps. -/
structure EngineInv (r : Request) : Prop where
  ledger : Ledger r
  alive : Alive r
  delivered : Delivered r

theorem engineInv_fresh : EngineInv {} := ⟨ledger_fresh, alive_fresh, delivered_fresh⟩

variable {r r' : Request}

theorem EngineInv.act (h : EngineInv r) {act : Act} (hl : act.legal r) (ht : act.tidy r) :
    EngineInv (act.apply r) := by
  obtain ⟨hledger, halive, hdelivered⟩ := h
  cases act with
  | feed tokens params answer =>
    exact ⟨hledger.feed hl.1 hl.2.1, halive.feed hledger (not_closed_of_extendedBy hl.1),
      hdelivered.feed halive hl ht⟩
  | stop =>
    exact ⟨hledger.stop, halive.stop,
      hdelivered.of_eq rfl rfl rfl rfl hdelivered.ended⟩
  | engine e =>
    refine ⟨hledger.act e hl, ?_, ?_⟩
    · cases e with
      | begin => exact halive.begin
      | inputs => exact halive.resumeInputs
      | output o => exact halive.onOutput o
      | finish => exact alive_finish ht.1
    · cases e with
      | begin => exact hdelivered.begin hledger halive hl ht
      | inputs => exact hdelivered.resumeInputs halive hl
      | output o => exact hdelivered.onOutput o
      | finish => exact hdelivered.finish ht.2

theorem engineInv_run
    (h : Reaches (fun r act => act.legal r ∧ act.tidy r) {} r) : EngineInv r := by
  induction h with
  | refl => exact engineInv_fresh
  | tail _ hs ih =>
    obtain ⟨act, ⟨hl, ht⟩, rfl⟩ := hs
    exact ih.act hl ht

/-- In an orderly run a request consumes what it says it can be extended by, and
every answer it was fed has its queue closed by one `None` once the task has ended. -/
theorem inputs_consumed_answers_closed
    (h : Reaches (fun r act => act.legal r ∧ act.tidy r) {} r) :
    (∀ tokens, r.extendedBy tokens = true → (∀ a, r.inputs ≠ .yielded (some a)) →
      CanConsume r) ∧
    ∀ a ∈ r.accepted, (Streaming (r.outputs a.id) ∨ Closed (r.outputs a.id)) ∧
      (r.state = .ended → ∃ outs : List RequestOutput,
        r.outputs a.id = outs.map some ++ [none] ∧
        readOutputs (r.outputs a.id) = some outs) := by
  obtain ⟨hledger, halive, hd⟩ := engineInv_run h
  refine ⟨fun tokens _ hy => canConsume hledger halive hy, fun a ha => ⟨?_, fun hs => ?_⟩⟩
  · rcases hd.settled a ha with hnext | hcur | hclosed
    · exact .inl ⟨[], by simpa using (hd.waiting a hnext).2.1⟩
    · exact .inl (hd.current a hcur).2
    · exact .inr hclosed
  · obtain ⟨hcur, hnext⟩ := hd.ended hs
    rcases hd.settled a ha with hwait | hans | ⟨outs, hq⟩
    · simp [hnext] at hwait
    · simp [hcur] at hans
    · exact ⟨outs, hq, by rw [hq, readOutputs_closed]⟩

end Runs

section Scripts

instance (r : Request) : ∀ act : Act, Decidable (act.legal r)
  | .feed tokens _ answer => inferInstanceAs (Decidable (r.extendedBy tokens = true ∧
      (∀ a ∈ answer, a.promptTokenIds = tokens) ∧
      ∀ a ∈ answer, ∀ b ∈ r.accepted, b.id ≠ a.id))
  | .stop => instDecidableTrue
  | .engine act => inferInstanceAs (Decidable (act.enabled r))

instance (r : Request) : ∀ act : Act, Decidable (act.tidy r)
  | .feed tokens _ answer => inferInstanceAs (Decidable
      (r.nextAnswer = none ∨ tokens.drop r.fed.length = [] ∧ answer = none))
  | .engine .begin => inferInstanceAs (Decidable (r.cancelling = true → r.nextAnswer = none))
  | .engine .finish => inferInstanceAs (Decidable (r.closed = true ∧ r.nextAnswer = none))
  | .stop | .engine .inputs | .engine (.output _) => instDecidableTrue

def play (r : Request) : List Act → Request
  | [] => r
  | act :: rest => play (act.apply r) rest

/-- Every act of the script satisfies `P` when its turn comes. -/
def Playable (P : Request → Act → Prop) (r : Request) : List Act → Prop
  | [] => True
  | act :: rest => P r act ∧ Playable P (act.apply r) rest

instance decidablePlayable {P : Request → Act → Prop} [∀ r act, Decidable (P r act)] :
    ∀ (script : List Act) (r : Request), Decidable (Playable P r script)
  | [], _ => .isTrue trivial
  | act :: rest, r =>
    have := decidablePlayable (P := P) rest (act.apply r)
    inferInstanceAs (Decidable (_ ∧ _))

theorem reaches_play {P : Request → Act → Prop} {script : List Act} {r : Request}
    (h : Playable P r script) : Reaches P r (play r script) := by
  induction script generalizing r with
  | nil => exact .refl
  | cons act rest ih => exact .head ⟨act, h.1, rfl⟩ (ih h.2)

/-- A request that is prefilled, extended by an answer and run to its end. -/
def answeredScript (answer : Answer) : List Act :=
  [.feed [1] none none, .engine .begin, .engine .inputs, .engine (.output {}), .engine .inputs,
   .feed [1, 2] none (some answer), .engine .inputs, .engine (.output { tokenIds := [7] }),
   .engine (.output { tokenIds := [8], finishReason := some .stop }), .engine .inputs,
   .engine .finish]

def sampleAnswer : Answer where
  id := 0
  responseId := .named 0
  request := { messages := [] }
  conversation := []
  params := { maxTokens := some 16, temperature := 1 }
  promptTokenIds := [1, 2]

theorem inputs_consumed_answers_closed_sample :
    ∃ outs : List RequestOutput,
      (play {} (answeredScript sampleAnswer)).outputs 0 = outs.map some ++ [none] ∧
      readOutputs ((play {} (answeredScript sampleAnswer)).outputs 0) = some outs :=
  ((inputs_consumed_answers_closed (r := play {} (answeredScript sampleAnswer))
    (reaches_play (by decide))).2 sampleAnswer (by decide)).2 (by decide)

/-- `generate` raises before any answer: the flag that `extends` reads stays down, and
what is fed next goes nowhere. -/
theorem generate_ends_early :
    ∃ r, Reaches Act.legal {} r ∧ r.state ≠ .unborn ∧ r.extendedBy [1, 2] = true ∧
      ¬ CanConsume r := by
  let script : List Act := [.feed [1] none none, .engine .begin, .engine .finish]
  refine ⟨play {} script, reaches_play (by decide), by decide, by decide, fun h => ?_⟩
  obtain ⟨r', hrun, htok, -⟩ := h [1, 2] none none (by decide) (by decide)
  have hstuck : r' = (play {} script).feed [1, 2] none none :=
    engineRun_ended (by decide) hrun
  subst hstuck
  revert htok
  decide

end Scripts

end VoiceAgent.EngineAnswers
