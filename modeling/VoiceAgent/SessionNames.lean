import VoiceAgent.StreamingSession
import VoiceAgent.Moves

/-!
The session's side of response isolation: an event of a named response is sent only after its
commit has come. Where no cancel comes late, and no commit fails while an answer streams, the
answer that streams is that of the last commit, so a cancel stops the response that it names.
-/
namespace VoiceAgent.SessionNames

open StreamingEvents EngineRequest Coroutine Interleaving StreamingSession

section Names

def commitOf : ClientEvent → Option (Option ResponseId)
  | .commit response => some response
  | _ => none

/-- The name that the last commit gives its response. -/
def lastCommit (events : List ClientEvent) : Option (Option ResponseId) :=
  (events.filterMap commitOf).getLast?

theorem lastCommit_commit (events : List ClientEvent) (response : Option ResponseId) :
    lastCommit (events ++ [.commit response]) = some response := by
  simp [lastCommit, commitOf]

theorem lastCommit_concat {event : ClientEvent} (h : commitOf event = none)
    (events : List ClientEvent) : lastCommit (events ++ [event]) = lastCommit events := by
  simp [lastCommit, h]

/-- The commit of the response has been received, unless the server named it. -/
def Asked (received : List ClientEvent) (response : ResponseId) : Prop :=
  ∀ r, response = .named r → .commit (some (.named r)) ∈ received

theorem Asked.mono {received received' : List ClientEvent} {response : ResponseId}
    (h : Asked received response) (hpre : received <+: received') : Asked received' response :=
  fun r hr => hpre.subset (h r hr)

/-- The answer that streams is that of the last commit. -/
def Latest (s : Session) : Prop :=
  ∀ a, s.streaming = some a →
    ∃ name, lastCommit s.received = some name ∧ ∀ x, name = some x → a.responseId = x

structure Named (ordered : Prop) (s : Session) : Prop where
  answers : ∀ a ∈ s.answers, Asked s.received a.responseId
  sent : ∀ e ∈ s.sent, ∀ response, about e = some response → Asked s.received response
  cancels : ordered → ∀ x a, (some x, some a) ∈ s.cancels → a.responseId = x

end Names

section Speaking
variable {name : Option ResponseId} {l : Site} {i : Reply} {s s' s'' : Session}

/-- What the response tasks and the engine leave alone. -/
structure Kept (s s' : Session) : Prop where
  received : s'.received = s.received
  answers : s'.answers = s.answers
  cancels : s'.cancels = s.cancels
  task : s'.responseTask = s.responseTask ∨ s'.responseTask = none
  ended : ∀ n, s.ended n = true → s'.ended n = true

theorem Kept.refl (s : Session) : Kept s s := ⟨rfl, rfl, rfl, .inl rfl, fun _ => id⟩

theorem Kept.trans (h : Kept s s') (h' : Kept s' s'') : Kept s s'' := by
  refine ⟨h'.received.trans h.received, h'.answers.trans h.answers, h'.cancels.trans h.cancels, ?_,
    fun n hn => h'.ended n (h.ended n hn)⟩
  rcases h'.task with ht | ht
  · rw [ht]
    exact h.task
  · exact .inr ht

theorem Kept.streaming (h : Kept s s') {a : Answer} (ha : s'.streaming = some a) :
    s.streaming = some a := by
  obtain ⟨n, hn, hrest⟩ := Option.bind_eq_some_iff.mp ha
  have htask : s.responseTask = some n := by
    rcases h.task with ht | ht
    · rw [← ht, hn]
    · rw [ht] at hn
      cases hn
  split at hrest
  · cases hrest
  · rename_i hlive
    have hended : s.ended n ≠ true := fun he => hlive (h.ended n he)
    rw [h.answers] at hrest
    rw [Session.streaming, htask, Option.bind_some, if_neg hended, hrest]

theorem Latest.kept (h : Latest s) (hk : Kept s s') : Latest s' := by
  intro a ha
  rw [hk.received]
  exact h a (hk.streaming ha)

/-- The reply to a send after which the event has been written. -/
def Reply.writes : Reply → Bool
  | .cancelled | .failed _ => false
  | _ => true

/-- What a leg sends: the event that it stopped before. -/
def Sends (l : Site) (i : Reply) (s s' : Session) : Prop :=
  ∃ new, s'.sent = s.sent ++ new ∧ ∀ e ∈ new, l = .sending e ∧ Reply.writes i = true

theorem Sends.of_eq (h : s'.sent = s.sent) : Sends l i s s' := ⟨[], by simp [h]⟩

theorem Sends.trans (h : Sends l i s s') (h' : Sends l i s' s'') : Sends l i s s'' := by
  obtain ⟨new, hnew, hall⟩ := h
  obtain ⟨new', hnew', hall'⟩ := h'
  refine ⟨new ++ new', by rw [hnew', hnew, List.append_assoc], fun e he => ?_⟩
  exact (List.mem_append.mp he).elim (hall _) (hall' _)

theorem sends_moves (h : Relation.ReflTransGen (Sends l i) s s') : Sends l i s s' := by
  induction h with
  | refl => exact .of_eq rfl
  | tail _ hs ih => exact ih.trans hs

/-- What a coroutine writes that speaks of the named response, or of none. -/
structure Speaks (name : Option ResponseId) (l : Site) (i : Reply) (s s' : Session) : Prop
    extends Kept s s' where
  sends : Sends l i s s'
  about : ∀ e ∈ s'.sent, e ∈ s.sent ∨ ∀ response, about e = some response → name = some response

theorem Speaks.quiet (hk : Kept s s') (hs : s'.sent = s.sent) : Speaks name l i s s' :=
  ⟨hk, .of_eq hs, fun _ he => .inl (hs ▸ he)⟩

theorem Named.speaks {ordered : Prop} (h : Named ordered s) (hs : Speaks name l i s s')
    (hn : ∀ response ∈ name, Asked s.received response) : Named ordered s' where
  answers := by
    rw [hs.answers, hs.received]
    exact h.answers
  sent e he response ha := by
    rw [hs.received]
    rcases hs.about e he with hold | hnew
    · exact h.sent e hold response ha
    · exact hn response (hnew response ha)
  cancels := by
    rw [hs.cancels]
    exact h.cancels

/-- A write that leaves alone what is kept. -/
theorem Speaks.of_eq (hr : s'.received = s.received) (ha : s'.answers = s.answers)
    (hc : s'.cancels = s.cancels) (ht : s'.responseTask = s.responseTask)
    (he : s'.ended = s.ended) (hs : s'.sent = s.sent) : Speaks name l i s s' :=
  .quiet ⟨hr, ha, hc, .inl ht, fun n hn => by rw [he]; exact hn⟩ hs

theorem Speaks.onRequest (s : Session) (k : ℕ) (f : Request → Request) :
    Speaks name l i s (s.onRequest k f) :=
  .of_eq rfl rfl rfl rfl rfl rfl

end Speaking

section Requests
variable {name : Option ResponseId}

theorem legs_send {event : ServerEvent}
    (h : ∀ response, about event = some response → name = some response) :
    Legs (Speaks name) (send event) := by
  refine Legs.await fun i s => ?_
  split
  · trivial
  · trivial
  · rename_i hcancelled hfailed
    have hwrites : Reply.writes i = true := by
      cases i with
      | cancelled => exact absurd rfl hcancelled
      | failed message => exact absurd rfl (hfailed message)
      | _ => rfl
    have hspeaks : Speaks name (.sending event) i s { s with sent := s.sent ++ [event] } := by
      refine ⟨⟨rfl, rfl, rfl, .inl rfl, fun _ => id⟩, ⟨[event], rfl, by simp [hwrites]⟩, ?_⟩
      intro e he
      rcases List.mem_append.mp he with hold | hnew
      · exact .inl hold
      · obtain rfl := List.mem_singleton.mp hnew
        exact .inr h
    refine ⟨hspeaks, Leg.bind trivial fun _ => (Legs.pause _).bind fun reply => ?_⟩
    exact .ite (.raise _) (.pure _)

theorem legs_newRequest : Legs (Speaks name) newRequest :=
  .modifyGet fun _ _ _ => .of_eq rfl rfl rfl rfl rfl rfl

theorem legs_feedRequest (k : ℕ) (tokens : List Token) (answer : Option Answer) :
    Legs (Speaks name) (feedRequest k tokens answer) :=
  .modify fun _ _ s => .onRequest s k _

theorem legs_stopRequest (k : ℕ) : Legs (Speaks name) (stopRequest k) := by
  refine Legs.get.bind fun s => (Legs.modify fun _ _ s => .onRequest s k _).bind fun _ => ?_
  refine .ite ((Legs.pause _).bind fun _ => (Legs.pause _).bind fun reply => ?_) (.pure _)
  exact .ite (.raise _) (.pure _)

theorem legs_stopEngine : Legs (Speaks name) stopEngine := by
  refine Legs.get.bind fun s =>
    (Legs.modify fun _ _ _ => .of_eq rfl rfl rfl rfl rfl rfl).bind fun _ => ?_
  split
  · exact .pure _
  · exact legs_stopRequest _

theorem legs_stopStandby : Legs (Speaks name) stopStandby := by
  refine Legs.get.bind fun s =>
    (Legs.modify fun _ _ _ => .of_eq rfl rfl rfl rfl rfl rfl).bind fun _ => ?_
  split
  · exact .pure _
  · exact legs_stopRequest _

theorem legs_validate (vllm : Vllm) (request : ChatRequest) :
    Legs (Speaks name) (validate vllm request) := by
  unfold validate
  split
  · exact .raise _
  · exact .pure _

theorem legs_render (purpose : Purpose) (request : ChatRequest) :
    Legs (Speaks name) (render purpose request) := by
  refine (Legs.pause _).bind fun reply => ?_
  split
  · exact (Legs.modify fun _ _ _ => .of_eq rfl rfl rfl rfl rfl rfl).bind fun _ => .pure _
  · exact (Legs.modify fun _ _ _ => .of_eq rfl rfl rfl rfl rfl rfl).bind fun _ => .raise _
  · exact .raise _

theorem legs_ensureEngine : Legs (Speaks name) ensureEngine := by
  refine Legs.get.bind fun s => ?_
  split
  · exact .pure _
  · exact legs_newRequest.bind fun _ =>
      (Legs.modify fun _ _ _ => .of_eq rfl rfl rfl rfl rfl rfl).bind fun _ => .pure _

theorem legs_feed (tokens : List Token) (answer : Option Answer) :
    Legs (Speaks name) (feed tokens answer) :=
  have hfeed := legs_ensureEngine.bind fun k => legs_feedRequest k tokens answer
  Legs.get.bind fun _ => .ite (legs_stopEngine.bind fun _ => hfeed) hfeed

/-- The response task is taken, and a cancelled one is joined. -/
theorem legs_cancelResponse : Legs (Speaks name) cancelResponse := by
  refine Legs.get.bind fun s => (Legs.modify fun _ _ s => ?_).bind fun _ => ?_
  · exact .quiet ⟨rfl, rfl, rfl, .inr rfl, fun _ => id⟩ rfl
  split
  · exact .pure _
  · exact .ite (.pure _) ((Legs.pause _).bind fun _ => legs_stopEngine)

theorem legs_append (tokens : List Token) (answer : Option Answer) :
    Legs (Speaks name) (append tokens answer) :=
  legs_cancelResponse.bind fun _ => legs_feed tokens answer

theorem legs_prefill (vllm : Vllm) : Legs (Speaks name) (prefill vllm) :=
  Legs.get.bind fun _ => .ite (.pure _) ((legs_validate vllm _).bind fun _ =>
    (legs_render _ _).bind fun _ => legs_append _ _)

end Requests

section Responses

theorem legs_startStandby {name : Option ResponseId} (answer : Answer) :
    Legs (Speaks name) (startStandby answer) := by
  refine Legs.get.bind fun s => ?_
  split
  · exact .pure _
  · exact legs_newRequest.bind fun k =>
      (Legs.modify fun _ _ _ => .of_eq rfl rfl rfl rfl rfl rfl).bind fun _ =>
        legs_feedRequest k _ _

theorem legs_handOver {name : Option ResponseId} (answer : Answer) (message : ChatMessage) :
    Legs (Speaks name) (handOver answer message) := by
  refine (legs_startStandby answer).bind fun _ => Legs.get.bind fun s =>
    (Legs.modify fun _ _ _ => .of_eq rfl rfl rfl rfl rfl rfl).bind fun _ => ?_
  split
  · exact .pure _
  rename_i standby _
  have hrender : Legs (Speaks name) (renderWithAnswer standby answer message) :=
    (legs_render _ _).bind fun _ => .pure _
  refine hrender.bind fun tokens => Legs.get.bind fun s => ?_
  -- the engine is handed to the standby request, or to a new one
  refine .ite ?_ ((legs_stopRequest _).bind fun _ => legs_newRequest.bind fun standby => ?_)
  all_goals
    refine (legs_feedRequest _ _ _).bind fun _ => Legs.get.bind fun s =>
      (Legs.modify fun _ _ _ => .of_eq rfl rfl rfl rfl rfl rfl).bind fun _ => ?_
    split
    · exact .pure _
    · exact legs_stopRequest _

variable {answer : Answer}

theorem legs_respondTurn (message : ChatMessage) (calledTool : Bool) (reply : Reply) :
    Legs (Speaks (some answer.responseId)) (respondTurn answer message calledTool reply) := by
  have hsend : ∀ event (next : Loop), about event = some answer.responseId →
      Legs (Speaks (some answer.responseId)) (do send event; pure next) :=
    fun event next h => (legs_send fun response hr => h.symm.trans hr).bind fun _ => .pure _
  unfold respondTurn
  split
  · exact .ite (hsend _ _ rfl) ((legs_startStandby answer).bind fun _ => hsend _ _ rfl)
  · exact .pure _
  · exact .ite ((legs_handOver answer message).bind fun _ => hsend _ _ rfl) (hsend _ _ rfl)
  · exact .raise _

theorem legs_guardResponse {turn : Prog Loop}
    (h : Legs (Speaks (some answer.responseId)) turn) :
    Legs (Speaks (some answer.responseId)) (guardResponse answer turn) := by
  refine (h.handle fun e => ?_).attempt.bind fun next => ?_
  · cases e with
    | cancelled => exact .raise _
    | error message =>
      exact (Legs.modify fun _ _ _ => .of_eq rfl rfl rfl rfl rfl rfl).bind fun _ =>
        (legs_send fun _ ha => by cases ha).bind fun _ => .pure _
  split
  · exact .pure _
  · exact legs_stopStandby.bind fun _ => .pure _
  · exact legs_stopStandby.bind fun _ => .raise _

/-- A response task speaks of its own answer only. -/
theorem legs_respond (loop : Loop) (reply : Reply) :
    Legs (Speaks (some answer.responseId)) (respond answer loop reply) := by
  unfold respond
  split
  · exact .pure _
  · exact legs_guardResponse (legs_respondTurn _ _ _)
  · exact .raise _

end Responses

section Contract

/-- While an answer streams, a cancel that names a response comes before any later commit. -/
def CancelsLast (v : SessionView) (t : Task) (i : Reply) : Prop :=
  match v.site t, i with
  | .receiving, .receive (.cancel (some response)) => v.shared.streaming.isSome = true →
    ∀ name ∈ lastCommit v.shared.received, name = some response
  | _, _ => True

/-- No answer streams when a failed commit is reported. -/
def FailsAlone (v : SessionView) (t : Task) : Prop :=
  match v.site t with
  | .sending (.error _ _ (.commit _)) => v.shared.streaming.isNone = true
  | _ => True

instance decidableCancels (v : SessionView) (t : Task) (i : Reply) :
    Decidable (CancelsLast v t i) := by
  unfold CancelsLast
  generalize v.site t = site
  split <;> infer_instance

instance decidableFails (v : SessionView) (t : Task) : Decidable (FailsAlone v t) := by
  unfold FailsAlone
  generalize v.site t = site
  split <;> infer_instance

/-- Where the answer that streams may be that of an earlier commit. -/
def behind : Site → Bool
  | .rendering (.commit _) _ | .sending (.error _ _ (.commit _)) => true
  | _ => false

/-- The wire delivers in order what the client has sent. -/
def naming (ordered : Prop) (wire : List ClientEvent) : Contract Task Site Session Reply where
  inv v := v.shared.received <+: wire ∧ Named ordered v.shared ∧
    (ordered → behind (v.site .serve) = false → Latest v.shared)
  rely t v v' := v.shared.received <+: v'.shared.received ∧
    (t = .serve → Kept v.shared v'.shared)
  allowed v t i := (∀ event, i = .receive event → v.shared.received ++ [event] <+: wire) ∧
    (ordered → CancelsLast v t i ∧ FailsAlone v t)

variable {ordered : Prop} {name : Option ResponseId} {wire received : List ClientEvent}
  {v : SessionView} {s s' : Session} {α : Type}

/-- `serve` in the middle of a turn that it began in view `v`. -/
structure Serving (ordered : Prop) (wire received : List ClientEvent) (v : SessionView)
    (s : Session) : Prop where
  since : v.shared.received <+: received
  wired : received <+: wire
  received : s.received = received
  named : Named ordered s

structure Settled (ordered : Prop) (wire received : List ClientEvent) (v : SessionView)
    (s : Session) : Prop extends Serving ordered wire received v s where
  latest : ordered → Latest s

theorem Serving.stops (h : Serving ordered wire received v s) {l : Site} (hl : behind l = true) :
    (naming ordered wire).Stops .serve l v s := by
  refine ⟨⟨h.received ▸ h.wired, h.named, fun _ hb => ?_⟩,
    fun u hu => ⟨h.received ▸ h.since, fun ht => absurd ht hu⟩⟩
  rw [View.stop_site_self, hl] at hb
  cases hb

theorem Settled.stops (h : Settled ordered wire received v s) (l : Site) :
    (naming ordered wire).Stops .serve l v s :=
  ⟨⟨h.received ▸ h.wired, h.named, fun ho _ => h.latest ho⟩,
    fun _ hu => ⟨h.received ▸ h.since, fun ht => absurd ht hu⟩⟩

theorem Serving.resumes {v' : SessionView} {l : Site} (h : Serving ordered wire received v s)
    (hr : (naming ordered wire).rely .serve (v.stop .serve l s) v')
    (hi : (naming ordered wire).inv v') :
    Serving ordered wire received v' v'.shared := by
  have hreceived : v'.shared.received = received := (hr.2 rfl).received.trans h.received
  exact ⟨hreceived ▸ List.prefix_refl _, h.wired, hreceived, hi.2.1⟩

theorem Serving.speaks {l : Site} {i : Reply} (h : Serving ordered wire received v s)
    (hs : Speaks none l i s s') : Serving ordered wire received v s' :=
  ⟨h.since, h.wired, hs.received.trans h.received, h.named.speaks hs (by simp)⟩

theorem Settled.speaks {l : Site} {i : Reply} (h : Settled ordered wire received v s)
    (hs : Speaks none l i s s') : Settled ordered wire received v s' :=
  ⟨h.toServing.speaks hs, fun ho => (h.latest ho).kept hs.toKept⟩

/-- While `serve` starts no response, the answer that streams stays that of the last commit. -/
theorem wp_settled_leg {c : Prog α} {l : Site} {i : Reply} (hc : Leg (Speaks none) c l i s)
    (h : Settled ordered wire received v s) :
    Wp (naming ordered wire) .serve (fun _ => Settled ordered wire received)
      (fun _ => Settled ordered wire received) c v s := by
  have hwithin : Within (fun s s' => ∃ l i, Speaks none l i s s') c s :=
    hc.within fun l i s s' hs => ⟨l, i, hs⟩
  refine wp_of_stable (fun l v s h => h.stops l) ?_ ?_ hwithin h
  · rintro v s s' h ⟨l, i, hs⟩
    exact h.speaks hs
  · intro l v s v' h hr hi
    exact ⟨h.toServing.resumes hr hi, fun ho => (h.latest ho).kept (hr.2 rfl)⟩

theorem wp_settled {c : Prog α} (hc : Legs (Speaks none) c)
    (h : Settled ordered wire received v s) :
    Wp (naming ordered wire) .serve (fun _ => Settled ordered wire received)
      (fun _ => Settled ordered wire received) c v s :=
  wp_settled_leg (hc.leg .receiving .go s) h

/-- Once the response task has been taken, no answer is left to stream. -/
theorem wp_cancelResponse (h : Serving ordered wire received v s) :
    Wp (naming ordered wire) .serve (fun _ => Settled ordered wire received)
      (fun _ => Settled ordered wire received) cancelResponse v s := by
  unfold cancelResponse
  rw [wp_bind, wp_get, wp_bind, wp_modify]
  have htaken : Settled ordered wire received v { s with responseTask := none } := by
    refine ⟨h.speaks (l := .receiving) (i := .go) ?_, fun _ a ha => ?_⟩
    · exact .quiet ⟨rfl, rfl, rfl, .inr rfl, fun _ => id⟩ rfl
    · cases ha
  split
  · exact htaken
  · split
    · exact htaken
    · exact wp_settled ((Legs.pause _).bind fun _ => legs_stopEngine) htaken

theorem wp_append {tokens : List Token} {answer : Option Answer}
    (h : Serving ordered wire received v s) :
    Wp (naming ordered wire) .serve (fun _ => Settled ordered wire received)
      (fun _ => Settled ordered wire received) (append tokens answer) v s := by
  unfold append
  rw [wp_bind]
  exact wp_mono (fun _ _ _ hs => wp_settled (legs_feed _ _) hs)
    (fun _ _ _ hs => hs) (wp_cancelResponse h)

theorem wp_closeSession (h : Serving ordered wire received v s) :
    Wp (naming ordered wire) .serve (fun _ => Settled ordered wire received)
      (fun _ => Settled ordered wire received) closeSession v s := by
  unfold closeSession
  rw [wp_bind]
  exact wp_mono (fun _ _ _ hs => wp_settled (legs_stopEngine.bind fun _ => legs_stopStandby) hs)
    (fun _ _ _ hs => hs) (wp_cancelResponse h)

end Contract

section Serve
variable {vllm : Vllm} {ordered : Prop} {wire received : List ClientEvent} {v : SessionView}
  {s : Session} {response : Option ResponseId} {name : ResponseId}

/-- The answer of the last commit starts to stream. -/
theorem Settled.starts {answer : Answer} (h : Settled ordered wire received v s)
    (hlast : lastCommit received = some response)
    (hname : ∀ x, response = some x → answer.responseId = x)
    (hasked : Asked received answer.responseId) :
    Settled ordered wire received v { s with
      answers := s.answers ++ [answer], responseTask := some s.answers.length } where
  since := h.since
  wired := h.wired
  received := h.received
  named := by
    refine ⟨fun a ha => ?_, h.named.sent, h.named.cancels⟩
    rcases List.mem_append.mp ha with hold | hnew
    · exact h.named.answers a hold
    · obtain rfl := List.mem_singleton.mp hnew
      exact h.received ▸ hasked
  latest _ a ha := by
    refine ⟨response, h.received ▸ hlast, ?_⟩
    have hanswer : answer = a := by
      simp only [Session.streaming, Option.bind_some] at ha
      split at ha
      · cases ha
      · simpa using ha
    exact hanswer ▸ hname

theorem wp_commit (h : Serving ordered wire received v s)
    (hlast : lastCommit received = some response) (hname : ∀ x, response = some x → name = x)
    (hasked : Asked received name) :
    Wp (naming ordered wire) .serve (fun _ => Settled ordered wire received)
      (fun _ => Serving ordered wire received) (commit vllm name) v s := by
  unfold commit
  simp only [wp_bind, wp_get, wp_modify]
  unfold validate
  split
  · exact h.speaks (l := .receiving) (i := .go) (.of_eq rfl rfl rfl rfl rfl rfl)
  unfold render
  simp only [wp_pure, wp_bind, wp_pause]
  have hnoted : Serving ordered wire received v { s with commits := s.commits ++
      [(name, chatRequest s.request s.text true)] } :=
    h.speaks (l := .receiving) (i := .go) (.of_eq rfl rfl rfl rfl rfl rfl)
  refine ⟨hnoted.stops rfl, fun v' i hr hi _ _ => ?_⟩
  have hserving := hnoted.resumes hr hi
  split
  · rename_i conversation tokens _
    simp only [wp_bind, wp_modify, wp_pure]
    have hrendered : Serving ordered wire received v' { v'.shared with
        prefillParams := some (prefillParams (chatRequest s.request s.text true))
        rendered := v'.shared.rendered ++ [(chatRequest s.request s.text true, tokens)] } :=
      hserving.speaks (l := .receiving) (i := .go) (.of_eq rfl rfl rfl rfl rfl rfl)
    unfold answerParams
    split
    · exact hrendered
    · rw [wp_pure]
      refine wp_mono (fun _ v'' s'' hs => ?_) (fun _ _ _ hs => hs.toServing) (wp_append hrendered)
      unfold startResponse
      rw [wp_modify]
      refine Settled.starts ?_ hlast ?_ ?_
      · exact hs.speaks (l := .receiving) (i := .go) (.of_eq rfl rfl rfl rfl rfl rfl)
      · exact hname
      · exact hasked
  · exact hserving.speaks (l := .receiving) (i := .go) (.of_eq rfl rfl rfl rfl rfl rfl)
  · exact hserving

theorem Serving.receives {event : ClientEvent} (h : Named ordered s)
    (hv : v.shared.received <+: s.received) (hw : s.received ++ [event] <+: wire) :
    Serving ordered wire (s.received ++ [event]) v
      { s with received := s.received ++ [event] } where
  since := hv.trans (List.prefix_append _ _)
  wired := hw
  received := rfl
  named := ⟨fun a ha => (h.answers a ha).mono (List.prefix_append _ _),
    fun e he x hx => (h.sent e he x hx).mono (List.prefix_append _ _), h.cancels⟩

theorem Settled.receives {event : ClientEvent} (h : Settled ordered wire received v s)
    (hc : commitOf event = none) (hw : received ++ [event] <+: wire) :
    Settled ordered wire (received ++ [event]) v { s with received := s.received ++ [event] } := by
  have hserving : Serving ordered wire (s.received ++ [event]) v
      { s with received := s.received ++ [event] } :=
    .receives h.named (h.received ▸ h.since) (h.received ▸ hw)
  rw [h.received] at hserving ⊢
  refine ⟨hserving, fun ho a ha => ?_⟩
  obtain ⟨name, hlast, hname⟩ := h.latest ho a ha
  refine ⟨name, ?_, hname⟩
  rw [h.received] at hlast
  exact (lastCommit_concat hc received).trans hlast

theorem legs_handle {event : ClientEvent} (hc : commitOf event = none)
    (hn : ∀ response, event ≠ .cancel response) : Legs (Speaks none) (handle vllm event) := by
  unfold handle
  split
  · exact (Legs.modify fun _ _ _ => .of_eq rfl rfl rfl rfl rfl rfl).bind fun _ =>
      legs_prefill vllm
  · exact (Legs.modify fun _ _ _ => .of_eq rfl rfl rfl rfl rfl rfl).bind fun _ =>
      legs_prefill vllm
  · exact .modify fun _ _ _ => .of_eq rfl rfl rfl rfl rfl rfl
  · cases hc
  · exact absurd rfl (hn _)
  · exact legs_send fun _ ha => by cases ha
  · exact .raise _

/-- A cancel stops the answer that streams. -/
theorem wp_handleCancel (h : Settled ordered wire received v s)
    (ho : ordered → ∀ x, response = some x → s.streaming.isSome = true →
      ∀ name ∈ lastCommit received, name = some x) :
    Wp (naming ordered wire) .serve (fun _ => Settled ordered wire received)
      (fun _ => Settled ordered wire received) (handle vllm (.cancel response)) v s := by
  unfold handle
  simp only
  rw [wp_bind, wp_modify]
  refine wp_cancelResponse ?_
  refine ⟨h.since, h.wired, h.received, h.named.answers, h.named.sent, fun hord x a hmem => ?_⟩
  rcases List.mem_append.mp hmem with hold | hnew
  · exact h.named.cancels hord x a hold
  · have heq := List.mem_singleton.mp hnew
    obtain ⟨hx, ha⟩ := Prod.mk.inj heq
    obtain ⟨name, hlast, hname⟩ := h.latest hord a ha.symm
    rw [h.received] at hlast
    exact hname x (ho hord x hx.symm (by rw [← ha]; rfl) name hlast)

theorem wp_handleCommit (h : Serving ordered wire received v s)
    (hlast : lastCommit received = some response)
    (hmem : ∀ r, response = some (.named r) → .commit (some (.named r)) ∈ received) :
    Wp (naming ordered wire) .serve (fun _ => Settled ordered wire received)
      (fun _ => Serving ordered wire received) (handle vllm (.commit response)) v s := by
  unfold handle
  simp only
  rw [wp_bind]
  unfold responseName
  split
  · rename_i x
    rw [wp_pure]
    exact wp_commit h hlast (fun y hy => Option.some.inj hy) fun r hr => hmem r (hr ▸ rfl)
  · rw [wp_modifyGet]
    exact wp_commit (h.speaks (l := .receiving) (i := .go) (.of_eq rfl rfl rfl rfl rfl rfl)) hlast
      (fun y hy => by cases hy) fun r hr => by cases hr

/-- The report of an event that has failed, which comes alone if the event is a commit. -/
theorem wp_report {event : ClientEvent} {message : String}
    (h : Serving ordered wire received v s)
    (hs : commitOf event = none → Settled ordered wire received v s) :
    Wp (naming ordered wire) .serve (fun _ => Settled ordered wire received)
      (fun _ => Serving ordered wire received)
      (send (.error message "processing_error" event.failure)) v s := by
  cases hc : commitOf event with
  | none =>
    exact wp_mono (fun _ _ _ hs => hs) (fun _ _ _ hs => hs.toServing)
      (wp_settled (legs_send fun _ ha => by cases ha) (hs hc))
  | some response =>
    obtain rfl : event = .commit response := by
      cases event with
      | commit r => rw [Option.some.inj hc]
      | _ => cases hc
    have hlegs : Legs (Speaks none)
        (send (.error message "processing_error" (.commit response))) :=
      legs_send fun _ ha => by cases ha
    unfold send
    rw [wp_bind, wp_pause]
    refine ⟨h.stops rfl, fun v' i hr hi hsite ha => ?_⟩
    have hsettled : Settled ordered wire received v' v'.shared := by
      refine ⟨h.resumes hr hi, fun ho a hstream => ?_⟩
      have halone := (ha.2 ho).2
      unfold FailsAlone at halone
      simp only [hsite] at halone
      rw [hstream] at halone
      cases halone
    have hrest := (hlegs.leg .receiving .go v'.shared) i v'.shared
    exact wp_mono (fun _ _ _ hs => hs) (fun _ _ _ hs => hs.toServing)
      (wp_settled_leg hrest hsettled)

/-- Only a failed commit leaves behind an answer that is not that of the last commit. -/
def Failed (ordered : Prop) (wire : List ClientEvent) (event : ClientEvent)
    (received : List ClientEvent) (v : SessionView) (s : Session) : Prop :=
  Serving ordered wire received v s ∧ (commitOf event = none → Settled ordered wire received v s)

theorem wp_handleEvent {event : ClientEvent} (h : Settled ordered wire received v s)
    (hw : received ++ [event] <+: wire)
    (ho : ordered → ∀ x, event = .cancel (some x) → s.streaming.isSome = true →
      ∀ name ∈ lastCommit received, name = some x) :
    Wp (naming ordered wire) .serve (fun _ => Settled ordered wire (received ++ [event]))
      (fun _ => Failed ordered wire event (received ++ [event])) (handle vllm event) v
      { s with received := s.received ++ [event] } := by
  have quiet : commitOf event = none → (∀ response, event ≠ .cancel response) →
      Wp (naming ordered wire) .serve (fun _ => Settled ordered wire (received ++ [event]))
        (fun _ => Failed ordered wire event (received ++ [event])) (handle vllm event) v
        { s with received := s.received ++ [event] } := fun hc hn =>
    wp_mono (fun _ _ _ hs => hs) (fun _ _ _ hs => ⟨hs.toServing, fun _ => hs⟩)
      (wp_settled (legs_handle hc hn) (h.receives hc hw))
  cases event with
  | commit response =>
    have hserving : Serving ordered wire (s.received ++ [.commit response]) v
        { s with received := s.received ++ [.commit response] } :=
      .receives h.named (h.received ▸ h.since) (h.received ▸ hw)
    rw [h.received] at hserving ⊢
    refine wp_mono (fun _ _ _ hs => hs) (fun _ _ _ hs => ⟨hs, by simp [commitOf]⟩)
      (wp_handleCommit hserving (lastCommit_commit _ _) fun r hr => ?_)
    rw [hr]
    exact List.mem_append.mpr (.inr List.mem_cons_self)
  | cancel response =>
    refine wp_mono (fun _ _ _ hs => hs) (fun _ _ _ hs => ⟨hs.toServing, fun _ => hs⟩)
      (wp_handleCancel (h.receives rfl hw) fun hord x hx hs name hname => ?_)
    rw [lastCommit_concat rfl] at hname
    exact ho hord x (hx ▸ rfl) hs name hname
  | _ => exact quiet rfl (by simp)

theorem wp_serveEvent {event : ClientEvent} (h : Settled ordered wire received v s)
    (hw : received ++ [event] <+: wire)
    (ho : ordered → ∀ x, event = .cancel (some x) → s.streaming.isSome = true →
      ∀ name ∈ lastCommit received, name = some x) :
    Wp (naming ordered wire) .serve (fun _ => Settled ordered wire (received ++ [event]))
      (fun _ => Serving ordered wire (received ++ [event])) (serveEvent vllm event) v s := by
  unfold serveEvent
  rw [wp_bind, wp_modify, wp_handle]
  refine wp_mono (fun _ _ _ hs => hs) (fun e v' s' hs => ?_) (wp_handleEvent h hw ho)
  obtain ⟨hserving, hsettled⟩ := hs
  cases e with
  | cancelled => exact hserving
  | error message =>
    simp only
    rw [wp_bind, wp_modify]
    exact wp_report (hserving.speaks (l := .receiving) (i := .go) (.of_eq rfl rfl rfl rfl rfl rfl))
      fun hc => (hsettled hc).speaks (l := .receiving) (i := .go) (.of_eq rfl rfl rfl rfl rfl rfl)

end Serve

section Turns
variable {vllm : Vllm} {ordered : Prop} {wire : List ClientEvent} {v : SessionView} {s : Session}
  {loop : Loop} {i : Reply}

theorem wp_serveTurn (hi : (naming ordered wire).inv v)
    (hl : v.site .serve = (streamingSession vllm).head .serve loop)
    (ha : (naming ordered wire).allowed v .serve i) :
    Wp (naming ordered wire) .serve
      (fun b v s => Ends (naming ordered wire) (streamingSession vllm) .serve b v s)
      (fun e v s => Ends (naming ordered wire) (streamingSession vllm) .serve
        ((streamingSession vllm).crash .serve e) v s) (serveTurn vllm loop i) v v.shared := by
  have hfront : behind (v.site .serve) = false := by
    rw [hl]
    cases loop <;> rfl
  have h : Settled ordered wire v.shared.received v v.shared :=
    ⟨⟨List.prefix_refl _, hi.1, rfl, hi.2.1⟩, fun ho => hi.2.2 ho hfront⟩
  unfold serveTurn
  split
  · rw [wp_bind]
    exact wp_mono (fun _ _ _ hs => hs.stops _) (fun _ _ _ hs => hs.stops _)
      (wp_settled (legs_send fun _ ha => by cases ha) h)
  · exact h.stops _
  · rename_i event
    rw [wp_bind, wp_attempt]
    refine wp_mono (fun _ _ _ hs => hs.stops _) (fun e v' s' hs => ?_)
      (wp_serveEvent h (ha.1 event rfl) fun ho x hx hs name hname => ?_)
    · simp only
      rw [wp_bind]
      exact wp_mono (fun _ _ _ hs => hs.stops _) (fun _ _ _ hs => hs.stops _) (wp_closeSession hs)
    · have hlast := (ha.2 ho).1
      have hsite : v.site .serve = .receiving := hl
      subst hx
      unfold CancelsLast at hlast
      simp only [hsite] at hlast
      exact hlast hs name hname
  · rw [wp_bind]
    exact wp_mono (fun _ _ _ hs => hs.stops _) (fun _ _ _ hs => hs.stops _)
      (wp_closeSession h.toServing)
  · rw [wp_bind]
    exact wp_mono (fun _ _ _ hs => hs.stops _) (fun _ _ _ hs => hs.stops _)
      (wp_closeSession h.toServing)
  · exact h.stops _

/-- A task other than `serve` in the middle of a turn that it began in view `v`. -/
structure Speaking (ordered : Prop) (wire : List ClientEvent) (name : Option ResponseId)
    (v : SessionView) (s : Session) : Prop where
  wired : s.received <+: wire
  kept : Kept v.shared s
  named : Named ordered s
  asked : ∀ response ∈ name, Asked s.received response
  latest : ordered → behind (v.site .serve) = false → Latest s

/-- What speaks of a response whose commit has come keeps the names in order. -/
theorem wp_speaking {t : Task} {name : Option ResponseId} {α : Type} {c : Prog α} {l : Site}
    (ht : t ≠ .serve) (hc : Leg (Speaks name) c l i s) (h : Speaking ordered wire name v s) :
    Wp (naming ordered wire) t (fun _ v s => ∀ l, (naming ordered wire).Stops t l v s)
      (fun _ v s => ∀ l, (naming ordered wire).Stops t l v s) c v s := by
  have hstop : ∀ l v s, Speaking ordered wire name v s → (naming ordered wire).Stops t l v s := by
    intro l v s h
    have hsite : (v.stop t l s).site .serve = v.site .serve := View.stop_site_of_ne v ht.symm l s
    refine ⟨⟨h.wired, h.named, fun ho hb => h.latest ho (hsite ▸ hb)⟩,
      fun u _ => ⟨?_, fun _ => h.kept⟩⟩
    exact h.kept.received ▸ List.prefix_refl _
  have hwithin : Within (fun s s' => ∃ l i, Speaks name l i s s') c s :=
    hc.within fun l i s s' hs => ⟨l, i, hs⟩
  refine wp_mono (fun _ v s h l => hstop l v s h) (fun _ v s h l => hstop l v s h)
    (wp_of_stable hstop ?_ ?_ hwithin h)
  · rintro v s s' h ⟨l, i, hs⟩
    refine ⟨hs.received ▸ h.wired, h.kept.trans hs.toKept, h.named.speaks hs h.asked, ?_,
      fun ho hb => (h.latest ho hb).kept hs.toKept⟩
    rw [hs.received]
    exact h.asked
  · intro l v s v' h hr hi
    exact ⟨hi.1, .refl _, hi.2.1, fun x hx => (h.asked x hx).mono hr.1, hi.2.2⟩

/-- A response task speaks of the answer that it is for. -/
theorem leg_responseTurn {n : ℕ} {name : Option ResponseId} (l : Site) (j : Reply)
    (hname : ∀ a, s.answers[n]? = some a → name = some a.responseId) :
    Leg (Speaks name) (responseTurn n loop i) l j s := by
  unfold responseTurn
  rw [leg_get]
  split
  · trivial
  · rename_i answer hn
    have hend : Legs (Speaks name) (do
        modify fun s : Session => { s with ended := Function.update s.ended n true }
        pure Loop.finished : Prog Loop) := by
      refine (Legs.modify fun _ _ s => ?_).bind fun _ => .pure _
      refine .quiet ⟨rfl, rfl, rfl, .inl rfl, fun m hm => ?_⟩ rfl
      by_cases hmn : m = n
      · subst hmn
        simp
      · simpa [hmn] using hm
    have hrespond : Legs (Speaks name) (respond answer loop i) := by
      rw [hname answer hn]
      exact legs_respond loop i
    refine (Legs.ite (.pure _) (hrespond.attempt.bind fun r => ?_)).leg l j s
    split
    · exact .pure _
    · exact hend

theorem legs_engineTurn {name : Option ResponseId} : Legs (Speaks name) (engineTurn i) := by
  refine Legs.get.bind fun s => ?_
  split
  · exact .ite ((Legs.modify fun _ _ s => .onRequest s _ _).bind fun _ => .pure _) (.pure _)
  · exact .pure _

theorem naming_keeps (vllm : Vllm) (ordered : Prop) (wire : List ClientEvent) :
    Keeps (naming ordered wire) (streamingSession vllm) closedWorld where
  refl _ _ := ⟨List.prefix_refl _, fun _ => .refl _⟩
  trans _ _ _ _ h h' := ⟨h.1.trans h'.1, fun ht => (h.2 ht).trans (h'.2 ht)⟩
  outside _ _ _ h := h.elim
  body t loop i v hi hl ha := by
    cases t with
    | serve => exact wp_serveTurn hi hl ha
    | respond n =>
      have hname : ∀ a, v.shared.answers[n]? = some a →
          v.shared.answers[n]?.map Answer.responseId = some a.responseId := by
        intro a hn
        rw [hn]
        rfl
      refine wp_mono (fun _ _ _ h => h _) (fun _ _ _ h => h _)
        (wp_speaking (by simp) (leg_responseTurn .receiving i hname)
          ⟨hi.1, .refl _, hi.2.1, ?_, hi.2.2⟩)
      intro x hx
      obtain ⟨a, ha, rfl⟩ := Option.map_eq_some_iff.mp hx
      exact hi.2.1.answers a (List.mem_of_getElem? ha)
    | engine =>
      have hlegs : Legs (Speaks none) (engineTurn i) := legs_engineTurn
      exact wp_mono (fun _ _ _ h => h _) (fun _ _ _ h => h _)
        (wp_speaking (by simp) (hlegs.leg .receiving i v.shared)
          ⟨hi.1, .refl _, hi.2.1, by simp, hi.2.2⟩)

theorem naming_fresh (vllm : Vllm) (ordered : Prop) (wire : List ClientEvent) :
    (naming ordered wire).inv (freshSession vllm).view := by
  refine ⟨List.nil_prefix, ⟨fun a ha => ?_, fun e he => ?_, fun _ x a hmem => ?_⟩,
    fun _ _ a ha => ?_⟩
  · cases ha
  · cases he
  · cases hmem
  · cases ha

end Turns

section Sending
variable {vllm : Vllm} {α : Type}

theorem legs_sends {c : Prog α} (h : Legs (Speaks none) c) : Legs Sends c :=
  h.mono fun _ _ _ _ hs => hs.sends

theorem sends_commit (response : ResponseId) : Legs Sends (commit vllm response) := by
  refine Legs.get.bind fun s => (Legs.modify fun _ _ _ => .of_eq rfl).bind fun _ => ?_
  refine (legs_sends (legs_validate vllm _)).bind fun _ =>
    (legs_sends (legs_render _ _)).bind fun r => ?_
  have hstart : ∀ answer, Legs Sends (do
      append r.2 (some answer)
      modify fun s : Session => { s with text := [] }
      startResponse answer) := fun answer =>
    (legs_sends (legs_append _ _)).bind fun _ =>
      (Legs.modify fun _ _ _ => .of_eq rfl).bind fun _ => .modify fun _ _ _ => .of_eq rfl
  refine Legs.bind ?_ fun params => hstart _
  unfold answerParams
  split
  · exact .raise _
  · exact .pure _

theorem sends_handle (event : ClientEvent) : Legs Sends (handle vllm event) := by
  cases event with
  | commit response =>
    refine Legs.bind ?_ fun x => sends_commit x
    unfold responseName
    split
    · exact .pure _
    · exact .modifyGet fun _ _ _ => .of_eq rfl
  | cancel response =>
    exact (Legs.modify fun _ _ _ => .of_eq rfl).bind fun _ =>
      legs_sends (legs_cancelResponse)
  | _ => exact legs_sends (legs_handle rfl (by simp))

theorem sends_closeSession : Legs Sends closeSession :=
  legs_sends (legs_cancelResponse.bind fun _ => legs_stopEngine.bind fun _ =>
    legs_stopStandby)

theorem sends_serveEvent (event : ClientEvent) : Legs Sends (serveEvent vllm event) := by
  refine (Legs.modify fun _ _ _ => .of_eq rfl).bind fun _ =>
    (sends_handle event).handle fun e => ?_
  cases e with
  | cancelled => exact .raise _
  | error message =>
    exact (Legs.modify fun _ _ _ => .of_eq rfl).bind fun _ =>
      legs_sends (legs_send fun _ ha => by cases ha)

theorem sends_session (t : Task) (loop : Loop) (i : Reply) :
    Legs Sends ((streamingSession vllm).body t loop i) := by
  cases t with
  | respond n =>
    refine ⟨fun l j s => ?_⟩
    have hname : ∀ a, s.answers[n]? = some a →
        s.answers[n]?.map Answer.responseId = some a.responseId := by
      intro a hn
      rw [hn]
      rfl
    exact (leg_responseTurn l j hname).mono fun _ _ _ _ hs => hs.sends
  | engine => exact legs_sends (legs_engineTurn)
  | serve =>
    change Legs Sends (serveTurn vllm loop i)
    unfold serveTurn
    split
    · exact (legs_sends (legs_send fun _ ha => by cases ha)).bind fun _ => .pure _
    · exact .raise _
    · refine (sends_serveEvent _).attempt.bind fun r => ?_
      split
      · exact .pure _
      · exact sends_closeSession.bind fun _ => .raise _
    · exact sends_closeSession.bind fun _ => .pure _
    · exact sends_closeSession.bind fun _ => .raise _
    · exact .pure _

end Sending

end VoiceAgent.SessionNames
