import VoiceAgent.ClientRules
import VoiceAgent.SessionNames

/-!
Response isolation over the socket. An error event names no response, so the client takes it for
that of the response it waits for; a cancel names one, and the session stops whichever streams.
The responses of a connection stay apart in the runs in which neither makes a difference.
-/
namespace VoiceAgent.ResponseIsolation

open StreamingEvents Coroutine Interleaving StreamingClient
open StreamingAgreement StreamingAgreement.Link ClientIsolation
open StreamingSession (freshSession streamingSession anyTurn)
open SessionNames (CancelsLast FailsAlone Sends naming)

section Condition

/-- What the server has sent on a connection and the client has not read. -/
def unread (p : Link) (c : ℕ) : List ServerEvent :=
  (p.session c).shared.sent.drop (p.client.shared.received c).length

/-- No error event is unread on the connection that a commit is written on. -/
def CommitsClear (p : Link) (t : StreamingClient.Task) (i : StreamingClient.Reply) : Prop :=
  match p.client.view.site t with
  | .writing (.commit _) => i.comesBack = true →
    ∀ event ∈ unread p (p.client.shared.opened - 1), failureOf event = none
  | _ => True

/-- While the client waits for a response, no error event is sent on its connection but that of
its own commit or answer. -/
def ReportsOwn (p : Link) (c : ℕ) (t : StreamingSession.Task) (i : StreamingSession.Reply) :
    Prop :=
  match (p.session c).view.site t with
  | .sending event => SessionNames.Reply.writes i = true →
    ∀ r ∈ waiting (p.client.view.site .worker), Committed p.client.shared c r →
      ∀ failure ∈ failureOf event, Own r failure
  | _ => True

def Unmixed (p : Link) : Act → Prop
  | .client t i => CommitsClear p t i
  | .session c t i => ReportsOwn p c t i ∧ CancelsLast (p.session c).view t i ∧
    FailsAlone (p.session c).view t

end Condition

section Runs
variable {vllm : Vllm} {own : Prop} {p : Link}

/-- What holds of the two ends of every connection. -/
structure Linked (vllm : Vllm) (own : Prop) (p : Link) : Prop where
  client : ∀ wire, (∀ c, (p.session c).shared.sent <+: wire c) →
    Good (isolating own wire) streamingClient p.client
  session : ∀ c wire, p.client.shared.sent c <+: wire →
    Good (naming own wire) (streamingSession vllm) (p.session c)
  writes : Paced (fun _ => Writes) p.client
  sends : ∀ c, Paced (fun _ => Sends) (p.session c)
  unmixed : own → ∀ c r, waiting (p.client.view.site .worker) = some r →
    Committed p.client.shared c r → ∀ event ∈ unread p c, ∀ failure,
      failureOf event = some failure → Own r failure

theorem Linked.isolated (h : Linked vllm own p) :
    Isolated own (fun c => (p.session c).shared.sent) p.client.shared :=
  (h.client _ fun _ => List.prefix_refl _).1.1

theorem Linked.named (h : Linked vllm own p) (c : ℕ) :
    (p.session c).shared.received <+: p.client.shared.sent c ∧
      SessionNames.Named own (p.session c).shared :=
  have hi := (h.session c _ (List.prefix_refl _)).1
  ⟨hi.1, hi.2.1⟩

/-- An event of a response is sent on the connection that its commit has been written on. -/
theorem Linked.caused (h : Linked vllm own p) {c r : ℕ} {event : ServerEvent}
    (he : event ∈ (p.session c).shared.sent) (ha : about event = some (.named r)) :
    Committed p.client.shared c r := by
  obtain ⟨hpre, hnamed⟩ := h.named c
  exact hpre.subset (hnamed.sent event he _ ha r rfl)

theorem mem_unread {c : ℕ} {event : ServerEvent}
    (h : p.client.shared.received c ++ [event] <+: (p.session c).shared.sent) :
    event ∈ unread p c := by
  obtain ⟨rest, hrest⟩ := h
  rw [unread, ← hrest]
  simp

/-- What the client may read is what it is thought to read. -/
theorem Linked.heard (h : Linked vllm own p) {t : StreamingClient.Task}
    {i : StreamingClient.Reply} (ho : p.Open (.client t i)) {wire : ℕ → List ServerEvent}
    (hw : ∀ c, (p.session c).shared.sent <+: wire c) :
    Heard own wire p.client.view t i := by
  intro c event hc hi
  have hdelivered : p.client.shared.received c ++ [event] <+: (p.session c).shared.sent :=
    ho c hc event (by rw [hi]; rfl)
  refine ⟨hdelivered.trans (hw c), fun r ha => ?_, fun hown ht r failure hsite hf => ?_⟩
  · exact h.caused (hdelivered.subset (by simp)) ha
  · subst ht
    have hwait : waiting (p.client.view.site .worker) = some r := by rw [hsite]; rfl
    obtain ⟨d, hd, hconn⟩ := (h.client _ fun _ => List.prefix_refl _).1.2 r hwait
    obtain rfl := hconn c hc
    exact h.unmixed hown c r hwait hd.committed event (mem_unread hdelivered) failure hf

theorem linked_fresh (vllm : Vllm) (own : Prop) : Linked vllm own (freshLink vllm) where
  client wire _ := (isolating_keeps own wire).good (isolating_fresh own wire)
  session _ wire _ := (SessionNames.naming_keeps vllm own wire).good
    (SessionNames.naming_fresh vllm own wire)
  writes := paced_start (fun t b i => legs_client t b i) _ _
  sends _ := paced_start (fun t b i => SessionNames.sends_session t b i) _ _
  unmixed _ c r _ hc := by cases hc

/-- A turn of the client does not bring up an error event that is not its response's own. -/
theorem Linked.unmixed_client (h : Linked vllm own p) {t : StreamingClient.Task}
    {i : StreamingClient.Reply} (ho : p.Open (.client t i)) (hc : own → CommitsClear p t i)
    (hown : own) {c r : ℕ}
    (hwait : waiting ((p.apply vllm (.client t i)).client.view.site .worker) = some r)
    (hcommitted : Committed (p.apply vllm (.client t i)).client.shared c r) {event : ServerEvent}
    (he : event ∈ unread (p.apply vllm (.client t i)) c) {failure : Failure}
    (hf : failureOf event = some failure) : Own r failure := by
  have hheard := h.heard ho (fun c => List.prefix_refl (p.session c).shared.sent)
  obtain ⟨hgood, hrely⟩ := (h.client _ fun _ => List.prefix_refl _).turn (isolating_keeps own _)
    hheard
  -- some closer is not the one that has its turn
  have honward : Onward p.client.view (p.apply vllm (.client t i)).client.view := by
    obtain ⟨k, hk⟩ : ∃ k, StreamingClient.Task.closer k ≠ t := by
      by_cases h0 : StreamingClient.Task.closer 0 = t
      · exact ⟨1, by rw [← h0]; simp⟩
      · exact ⟨0, h0⟩
    exact (hrely (.closer k) hk).2 (by simp)
  have hunread : event ∈ unread p c := by
    have hlen := (honward.received c).length_le
    exact (List.drop_sublist_drop_left _ hlen).subset he
  by_cases hbefore : Committed p.client.shared c r
  · exact h.unmixed hown c r (honward.waits c r hwait hbefore) hbefore event hunread failure hf
  · -- the commit has been written in this turn, on the connection opened last
    have hwrites := writes_moves (h.writes.turn (fun t b i => legs_client t b i) t i).2
    obtain hold | ⟨hsite, hback⟩ := hwrites.committed hcommitted
    · exact absurd hold hbefore
    obtain ⟨d, hd, -⟩ := hgood.1.2 r hwait
    obtain rfl := hgood.1.1.once c d r hcommitted hd.committed
    have hopened : (p.apply vllm (.client t i)).client.shared.opened = p.client.shared.opened :=
      hwrites.opened.resolve_left (by rw [hsite]; simp)
    have hlast : p.client.shared.opened - 1 = c := by
      have := hd.last
      change c + 1 = (p.apply vllm (.client t i)).client.shared.opened at this
      omega
    have hclear := hc hown
    unfold CommitsClear at hclear
    rw [hsite] at hclear
    have hnone := hclear hback event (hlast ▸ hunread)
    rw [hnone] at hf
    cases hf

theorem Linked.client_turn (h : Linked vllm own p) {t : StreamingClient.Task}
    {i : StreamingClient.Reply} (ho : p.Open (.client t i)) (hc : own → CommitsClear p t i) :
    Linked vllm own (p.apply vllm (.client t i)) where
  client wire hw :=
    ((h.client wire hw).turn (isolating_keeps own wire) (h.heard ho hw)).1
  session c wire hw := by
    refine h.session c wire (List.IsPrefix.trans ?_ hw)
    obtain ⟨new, hnew, -⟩ :=
      (writes_moves (h.writes.turn (fun t b i => legs_client t b i) t i).2).sent c
    exact ⟨new, hnew.symm⟩
  writes := (h.writes.turn (fun t b i => legs_client t b i) t i).1
  sends := h.sends
  unmixed hown c r hwait hcommitted event he failure hf :=
    h.unmixed_client ho hc hown hwait hcommitted he hf

/-- What a turn of a session sends. -/
theorem Linked.sent (h : Linked vllm own p) (c : ℕ) (t : StreamingSession.Task)
    (i : StreamingSession.Reply) :
    Sends ((p.session c).view.site t) i (p.session c).shared
      ((streamingSession vllm).resume (p.session c) t i).shared :=
  SessionNames.sends_moves
    ((h.sends c).turn (fun t b i => SessionNames.sends_session t b i) t i).2

theorem Linked.session_turn (h : Linked vllm own p) {c : ℕ} {t : StreamingSession.Task}
    {i : StreamingSession.Reply} (ho : p.Open (.session c t i))
    (hc : own → Unmixed p (.session c t i)) :
    Linked vllm own (p.apply vllm (.session c t i)) := by
  obtain ⟨new, hnew, hall⟩ := h.sent c t i
  have hself : (p.apply vllm (.session c t i)).session c =
      (streamingSession vllm).resume (p.session c) t i := by simp [Link.apply]
  have hother : ∀ d, d ≠ c → (p.apply vllm (.session c t i)).session d = p.session d :=
    fun d hd => by simp [Link.apply, hd]
  refine ⟨fun wire hw => h.client wire fun d => ?_, fun d wire hw => ?_, h.writes, fun d => ?_,
    fun hown d r hwait hcommitted event he failure hf => ?_⟩
  · by_cases hd : d = c
    · subst hd
      have hwd := hw d
      rw [hself, hnew] at hwd
      exact (List.prefix_append _ _).trans hwd
    · exact hother d hd ▸ hw d
  · by_cases hd : d = c
    · subst hd
      rw [hself]
      refine ((h.session d wire hw).turn (SessionNames.naming_keeps vllm own wire) ⟨?_, ?_⟩).1
      · rintro event rfl
        exact (ho.2 event rfl).trans hw
      · exact fun hown => (hc hown).2
    · rw [hother d hd]
      exact h.session d wire hw
  · by_cases hd : d = c
    · subst hd
      rw [hself]
      exact ((h.sends d).turn (fun t b i => SessionNames.sends_session t b i) t i).1
    · rw [hother d hd]
      exact h.sends d
  · by_cases hd : d = c
    · subst hd
      rw [unread, hself, hnew] at he
      rcases List.mem_append.mp (List.drop_append ▸ he) with hold | hfresh
      · exact h.unmixed hown d r hwait hcommitted event hold failure hf
      · obtain ⟨hsite, hwrites⟩ := hall event (List.mem_of_mem_drop hfresh)
        have hreports := (hc hown).1
        unfold ReportsOwn at hreports
        rw [hsite] at hreports
        exact hreports hwrites r hwait hcommitted failure hf
    · rw [unread, hother d hd] at he
      exact h.unmixed hown d r hwait hcommitted event he failure hf

theorem linked_reach {cond : Link → Act → Prop} (hcond : ∀ p a, own → cond p a → Unmixed p a)
    (h : Reach vllm cond (freshLink vllm) p) : Linked vllm own p := by
  induction h with
  | refl => exact linked_fresh vllm own
  | @tail q _ _ hs ih =>
    cases hs with
    | act a ho hc =>
      cases a with
      | client t i => exact ih.client_turn ho fun hown => hcond q _ hown hc
      | session c t i => exact ih.session_turn ho fun hown => hcond q _ hown hc

end Runs

section Isolation
variable {vllm : Vllm} {p : Link}

/-- The chunks of a response are those that its session has sent up to its done event, as far as
they have been read, and all of them once it is finished. -/
structure InOrder (p : Link) : Prop where
  chunks : ∀ c r, Committed p.client.shared c r → p.client.shared.yielded r <+:
    deltas (.named r) (untilDone r (p.session c).shared.sent)
  finished : ∀ c r, Committed p.client.shared c r → r ∈ p.client.shared.finished →
    .done (.named r) ∈ (p.session c).shared.sent ∧ p.client.shared.yielded r =
      deltas (.named r) (untilDone r (p.session c).shared.sent)
  waits : ∀ c r, waiting (p.client.view.site .worker) = some r → Committed p.client.shared c r →
    p.client.shared.yielded r = deltas (.named r) (p.client.shared.received c)
  silent : ∀ r, (∀ c, ¬ Committed p.client.shared c r) → p.client.shared.yielded r = []

/-- A response is raised for its own failure, and a cancel stops the response that it names. -/
structure Isolates (p : Link) : Prop extends InOrder p where
  raised : ∀ r failure, (r, failure) ∈ p.client.shared.raised → Own r failure ∧
    ∃ c message code, Committed p.client.shared c r ∧
      .error message code failure ∈ (p.session c).shared.sent
  cancels : ∀ c response a, (some response, some a) ∈ (p.session c).shared.cancels →
    a.responseId = response

theorem Linked.inOrder {own : Prop} (h : Linked vllm own p) : InOrder p where
  chunks c r hc := (h.isolated.chunks c r hc).trans
    (deltas_mono (untilDone_mono (h.isolated.delivered c)))
  finished c r hc hr := by
    obtain ⟨hdone, hall⟩ := h.isolated.finished c r hc hr
    obtain ⟨rest, hrest⟩ := h.isolated.delivered c
    refine ⟨hrest ▸ List.mem_append_left rest hdone, ?_⟩
    rw [hall, ← hrest, untilDone_append_of_mem hdone]
  waits c r hwait hc := by
    obtain ⟨d, hd, -⟩ := (h.client _ fun _ => List.prefix_refl _).1.2 r hwait
    obtain rfl := h.isolated.once c d r hc hd.committed
    exact hd.chunks
  silent r hnone := (h.isolated.silent r hnone).1

/-- In every run the chunks of a response are its own, in the order in which they were sent. -/
theorem chunks_in_order {cond : Link → Act → Prop} (h : Reach vllm cond (freshLink vllm) p) :
    InOrder p :=
  have hlinked : Linked vllm False p := linked_reach (fun _ _ hown _ => hown.elim) h
  hlinked.inOrder

/-- Responses are isolated in the runs in which the events that name none do not get mixed up. -/
theorem responses_isolated (h : Reach vllm Unmixed (freshLink vllm) p) : Isolates p := by
  have hlinked : Linked vllm True p := linked_reach (fun _ _ _ hc => hc) h
  refine ⟨hlinked.inOrder, fun r failure hmem => ⟨?_, ?_⟩, fun c response a hmem => ?_⟩
  · exact hlinked.isolated.raised trivial r failure hmem
  · obtain ⟨c, message, code, hc, he⟩ := hlinked.isolated.heard r failure hmem
    exact ⟨c, message, code, hc, (hlinked.isolated.delivered c).subset he⟩
  · exact (hlinked.named c).2.cancels trivial response a hmem

end Isolation

section Samples

instance decidableClear (p : Link) (t : StreamingClient.Task) (i : StreamingClient.Reply) :
    Decidable (CommitsClear p t i) := by
  unfold CommitsClear
  split <;> infer_instance

instance decidableCommitted (s : Client) (c r : ℕ) : Decidable (Committed s c r) :=
  inferInstanceAs (Decidable (_ ∈ _))

instance decidableReports (p : Link) (c : ℕ) (t : StreamingSession.Task)
    (i : StreamingSession.Reply) : Decidable (ReportsOwn p c t i) := by
  unfold ReportsOwn
  split <;> infer_instance

instance decidableUnmixed (p : Link) : (a : Act) → Decidable (Unmixed p a)
  | .client _ _ => inferInstanceAs (Decidable (CommitsClear _ _ _))
  | .session _ _ _ => inferInstanceAs (Decidable (_ ∧ _ ∧ _))

/-- The request of a user turn, and what is left of it when the turn is sent as text. -/
def turn (text : Text) : SessionRequest :=
  { messages := some [{ role := .user, content := some text }] }

/-- The session prepares the conversation, renders the first commit and streams a chunk. -/
def answered : List Act :=
  greeted (.commit (turn ['a'])) ++ sends ++ sends ++ sends ++
    [.session 0 .serve (.receive (.update { messages := some [] })),
      .session 0 .serve (.receive (.append ['a'])),
      .session 0 .serve (.receive (.commit (some (.named 0)))),
      .session 0 .serve (.rendered [] [1]),
      .session 0 (.respond 0) .go,
      .session 0 (.respond 0) (.chunk {}),
      .session 0 (.respond 0) .go,
      .session 0 (.respond 0) .go,
      .client .worker .next,
      .client .worker (.message (.delta (.named 0) {}))]

/-- The consumer closes the response, and the cancel stops it. -/
def closedEarly : List Act :=
  answered ++ [.client .worker .close] ++ sends ++
    [.session 0 .serve (.receive (.cancel (some (.named 0))))]

theorem responses_isolated_closed :
    (play Vllm.accepting (freshLink Vllm.accepting) closedEarly).client.shared.yielded 0 = [{}] ∧
    Isolates (play Vllm.accepting (freshLink Vllm.accepting) closedEarly) := by
  have hplay : Playable Vllm.accepting Unmixed (freshLink Vllm.accepting) closedEarly := by
    decide +kernel
  exact ⟨by decide +kernel, responses_isolated (reach_play hplay)⟩

/-- A prefill fails, and the next response reads its error. -/
def misread : List Act :=
  greeted (.prefill { messages := some [] } ['a', ' ']) ++ sends ++ sends ++
    [.session 0 .serve (.receive (.update { messages := some [] })),
      .session 0 .serve (.receive (.append ['a', ' '])),
      .session 0 .serve (.failed "busy"),
      .session 0 .serve .go,
      .session 0 .serve .go,
      .client .worker (.commit (turn ['a', ' ']))] ++ sends ++
    [.client .worker .next,
      .client .worker (.message (.error "busy" "processing_error" .prefill))]

/-- The chunks of an answer are let go while its last events are under way, and the generator is
closed when the next answer streams. -/
def closedLate : List Act :=
  answered ++
    [.client .worker .abandon,
      .session 0 (.respond 0) .streamEnd,
      .session 0 (.respond 0) .go,
      .session 0 (.respond 0) .go,
      .client .worker (.commit (turn ['b']))] ++ sends ++ sends ++
    [.session 0 .serve (.receive (.append ['b'])),
      .session 0 .serve (.receive (.commit (some (.named 1)))),
      .session 0 .serve (.rendered [] [1, 2]),
      .client (.closer 0) .close, .client (.closer 0) .go, .client (.closer 0) .go,
      .session 0 .serve (.receive (.cancel (some (.named 0))))]

/-- The answer that a cancel stops, by name. -/
def stopped (x : Option ResponseId × Option EngineRequest.Answer) :
    Option ResponseId × Option ResponseId :=
  (x.1, x.2.map (·.responseId))

theorem responses_mixed_up :
    (∃ p, Reach Vllm.accepting (fun _ _ => True) (freshLink Vllm.accepting) p ∧
      p.client.shared.raised = [(0, .prefill)] ∧ ¬ Isolates p) ∧
    ∃ p, Reach Vllm.accepting (fun _ _ => True) (freshLink Vllm.accepting) p ∧
      (p.session 0).shared.cancels.map stopped = [(some (.named 0), some (.named 1))] ∧
      ¬ Isolates p := by
  have hmisread : Playable Vllm.accepting (fun _ _ => True) (freshLink Vllm.accepting) misread := by
    decide +kernel
  have hlate : Playable Vllm.accepting (fun _ _ => True) (freshLink Vllm.accepting)
      closedLate := by
    decide +kernel
  have hraised : (play Vllm.accepting (freshLink Vllm.accepting) misread).client.shared.raised =
      [(0, .prefill)] := by
    decide +kernel
  have hcancels : ((play Vllm.accepting (freshLink Vllm.accepting)
      closedLate).session 0).shared.cancels.map stopped =
        [(some (.named 0), some (.named 1))] := by
    decide +kernel
  refine ⟨⟨_, reach_play hmisread, hraised, fun h => ?_⟩,
    ⟨_, reach_play hlate, hcancels, fun h => ?_⟩⟩
  · have hown := (h.raised 0 .prefill (hraised ▸ List.mem_singleton_self _)).1
    revert hown
    decide
  · obtain ⟨⟨response, answer⟩, hmem, hx⟩ := List.mem_map.mp
      (hcancels ▸ List.mem_singleton_self (some (ResponseId.named 0), some (ResponseId.named 1)))
    obtain ⟨hresponse, hanswer⟩ := Prod.mk.inj hx
    obtain ⟨a, ha, hname⟩ := Option.map_eq_some_iff.mp hanswer
    change answer = some a at ha
    change response = some (ResponseId.named 0) at hresponse
    subst ha hresponse
    have hsame := h.cancels 0 (.named 0) a hmem
    rw [hname] at hsame
    cases hsame

end Samples

end VoiceAgent.ResponseIsolation
