import VoiceAgent.StreamingAgreement

/-!
The client's side of response isolation. On a connection on which events of a response come only
after its commit, a response yields the chunks that have come for it so far, and it is raised for
what its own reads report.
-/
namespace VoiceAgent.ClientIsolation

open StreamingEvents Coroutine Interleaving StreamingClient
open StreamingAgreement (connectionOf)

section Client
variable {own : Prop} {wire : ℕ → List ServerEvent} {s s' s'' : Client} {c r : ℕ}

/-- The commit of the response has been written on the connection. -/
def Committed (s : Client) (c r : ℕ) : Prop := .commit (some (.named r)) ∈ s.sent c

/-- What has been yielded and raised for each response, while the wire delivers in order what has
been sent on each connection. The last part is about runs in which
what is read for a response is its own failure. -/
structure Isolated (own : Prop) (wire : ℕ → List ServerEvent) (s : Client) : Prop where
  delivered : ∀ c, s.received c <+: wire c
  last : ∀ c, s.websocket = some c → c + 1 = s.opened
  named : ∀ c r, Committed s c r → r < s.named
  once : ∀ c d r, Committed s c r → Committed s d r → c = d
  caused : ∀ c, ∀ e ∈ s.received c, ∀ r, about e = some (.named r) → Committed s c r
  chunks : ∀ c r, Committed s c r →
    s.yielded r <+: deltas (.named r) (untilDone r (s.received c))
  finished : ∀ c r, Committed s c r → r ∈ s.finished → .done (.named r) ∈ s.received c ∧
    s.yielded r = deltas (.named r) (untilDone r (s.received c))
  silent : ∀ r, (∀ c, ¬ Committed s c r) → s.yielded r = [] ∧ r ∉ s.finished
  heard : ∀ r failure, (r, failure) ∈ s.raised → ∃ c message code, Committed s c r ∧
    .error message code failure ∈ s.received c
  raised : own → ∀ r failure, (r, failure) ∈ s.raised → Own r failure

/-- The response whose chunks are read. -/
structure Streams (r c : ℕ) (s : Client) : Prop where
  committed : Committed s c r
  connected : s.websocket = none ∨ s.websocket = some c
  last : c + 1 = s.opened
  undone : .done (.named r) ∉ s.received c
  chunks : s.yielded r = deltas (.named r) (s.received c)

/-- A response that is not committed yet. -/
def Fresh (r : ℕ) (s : Client) : Prop := r < s.named ∧ ∀ c, ¬ Committed s c r

/-- What the closers of old generators leave alone, and what most writes of the worker do. -/
structure Aside (s s' : Client) : Prop where
  websocket : s'.websocket = s.websocket ∨ s'.websocket = none
  opened : s'.opened = s.opened
  named : s.named ≤ s'.named
  received : s'.received = s.received
  yielded : s'.yielded = s.yielded
  finished : s'.finished = s.finished
  raised : s'.raised = s.raised
  committed : ∀ c r, Committed s' c r ↔ Committed s c r

/-- A note that the client makes of its connection, or a name that it gives. -/
theorem Aside.of_eq (hw : s'.websocket = s.websocket ∨ s'.websocket = none)
    (ho : s'.opened = s.opened) (hn : s.named ≤ s'.named) (hr : s'.received = s.received)
    (hs : s'.sent = s.sent) (hy : s'.yielded = s.yielded) (hf : s'.finished = s.finished)
    (hx : s'.raised = s.raised) : Aside s s' := by
  refine ⟨hw, ho, hn, hr, hy, hf, hx, fun c r => ?_⟩
  rw [Committed, hs]
  exact .rfl

theorem Aside.refl (s : Client) : Aside s s :=
  .of_eq (.inl rfl) rfl (Nat.le_refl _) rfl rfl rfl rfl rfl

theorem Aside.connected (h : Aside s s') (hc : s'.websocket = some c) : s.websocket = some c := by
  rcases h.websocket with hw | hw
  · rw [← hw, hc]
  · rw [hw] at hc
    cases hc

theorem Aside.trans (h : Aside s s') (h' : Aside s' s'') : Aside s s'' := by
  refine ⟨?_, h'.opened.trans h.opened, Nat.le_trans h.named h'.named,
    h'.received.trans h.received, h'.yielded.trans h.yielded, h'.finished.trans h.finished,
    h'.raised.trans h.raised, fun c r => (h'.committed c r).trans (h.committed c r)⟩
  rcases h'.websocket with hw | hw
  · rw [hw]
    exact h.websocket
  · exact .inr hw

theorem committed_wrote (e : ClientEvent) (c d r : ℕ) : Committed (s.wrote c e) d r ↔
    Committed s d r ∨ (d = c ∧ e = .commit (some (.named r))) := by
  by_cases hd : d = c
  · subst hd
    simp [Committed, Client.wrote, eq_comm]
  · simp [Committed, Client.wrote, hd]

theorem aside_wrote {e : ClientEvent} (he : ∀ r, e ≠ .commit (some (.named r))) (c : ℕ) :
    Aside s (s.wrote c e) := by
  refine ⟨.inl rfl, rfl, Nat.le_refl _, rfl, rfl, rfl, rfl, fun d r => ?_⟩
  rw [committed_wrote]
  exact or_iff_left fun h => he r h.2

theorem closes_aside : Closes (fun _ _ => Aside) where
  wrote _ _ c _ _ := aside_wrote (fun _ => by simp) c
  disconnects _ _ _ := .of_eq (.inr rfl) rfl (Nat.le_refl _) rfl rfl rfl rfl rfl
  abandons _ _ _ _ := .of_eq (.inl rfl) rfl (Nat.le_refl _) rfl rfl rfl rfl rfl

theorem Isolated.of_eq (h : Isolated own wire s)
    (hl : ∀ c, s'.websocket = some c → c + 1 = s'.opened) (hn : s.named ≤ s'.named)
    (hr : s'.received = s.received) (hy : s'.yielded = s.yielded)
    (hf : s'.finished = s.finished) (hx : s'.raised = s.raised)
    (hc : ∀ c r, Committed s' c r ↔ Committed s c r) : Isolated own wire s' where
  delivered := by
    rw [hr]
    exact h.delivered
  last := hl
  named c r hcr := Nat.lt_of_lt_of_le (h.named c r ((hc c r).mp hcr)) hn
  once c d r hcr hdr := h.once c d r ((hc c r).mp hcr) ((hc d r).mp hdr)
  caused c e he r ha := by
    rw [hr] at he
    exact (hc c r).mpr (h.caused c e he r ha)
  chunks c r hcr := by
    rw [hr, hy]
    exact h.chunks c r ((hc c r).mp hcr)
  finished c r hcr hmem := by
    rw [hf] at hmem
    rw [hr, hy]
    exact h.finished c r ((hc c r).mp hcr) hmem
  silent r hnone := by
    rw [hy, hf]
    exact h.silent r fun c hcr => hnone c ((hc c r).mpr hcr)
  heard r failure hmem := by
    rw [hx] at hmem
    obtain ⟨c, message, code, hcr, he⟩ := h.heard r failure hmem
    exact ⟨c, message, code, (hc c r).mpr hcr, hr ▸ he⟩
  raised ho := by
    rw [hx]
    exact h.raised ho

theorem Isolated.aside (h : Isolated own wire s) (ha : Aside s s') : Isolated own wire s' :=
  h.of_eq (fun c hc => ha.opened ▸ h.last c (ha.connected hc)) ha.named ha.received ha.yielded
    ha.finished ha.raised ha.committed

theorem Fresh.aside (h : Fresh r s) (ha : Aside s s') : Fresh r s' :=
  ⟨Nat.lt_of_lt_of_le h.1 ha.named, fun c hc => h.2 c ((ha.committed c r).mp hc)⟩

theorem Streams.aside (h : Streams r c s) (ha : Aside s s') : Streams r c s' where
  committed := (ha.committed c r).mpr h.committed
  connected := by
    rcases ha.websocket with hw | hw
    · rw [hw]
      exact h.connected
    · exact .inl hw
  last := ha.opened ▸ h.last
  undone := by
    rw [ha.received]
    exact h.undone
  chunks := by
    rw [ha.yielded, ha.received]
    exact h.chunks

end Client

section Updates
variable {own : Prop} {wire : ℕ → List ServerEvent} {s : Client} {c r : ℕ} {e : ServerEvent}
  {chunk : Chunk}

theorem received_reads (s : Client) (c : ℕ) (e : ServerEvent) (d : ℕ) :
    s.received d <+: (s.reads c e).received d := by
  by_cases hd : d = c
  · subst hd
    simp [Client.reads]
  · simp [Client.reads, hd]

theorem mem_reads {x : ServerEvent} {d : ℕ} (h : x ∈ (s.reads c e).received d) :
    x ∈ s.received d ∨ (d = c ∧ x = e) := by
  by_cases hd : d = c
  · subst hd
    simpa [Client.reads] using h
  · exact .inl (by simpa [Client.reads, hd] using h)

/-- An event of a response is read where its commit has been written. -/
theorem Isolated.reads (h : Isolated own wire s) (hw : s.received c ++ [e] <+: wire c)
    (he : ∀ r, about e = some (.named r) → Committed s c r) : Isolated own wire (s.reads c e) where
  delivered d := by
    by_cases hd : d = c
    · subst hd
      simpa [Client.reads] using hw
    · simpa [Client.reads, hd] using h.delivered d
  last := h.last
  named := h.named
  once := h.once
  caused d x hx r ha := by
    rcases mem_reads hx with hx | ⟨rfl, rfl⟩
    · exact h.caused d x hx r ha
    · exact he r ha
  chunks d r hd := (h.chunks d r hd).trans
    (deltas_mono (untilDone_mono (received_reads s c e d)))
  finished d r hd hr := by
    obtain ⟨hdone, hall⟩ := h.finished d r hd hr
    have hpre := received_reads s c e d
    refine ⟨hpre.subset hdone, ?_⟩
    obtain ⟨rest, hrest⟩ := hpre
    change s.yielded r = _
    rw [← hrest, untilDone_append_of_mem hdone, hall]
  silent := h.silent
  heard r failure hmem := by
    obtain ⟨d, message, code, hd, hx⟩ := h.heard r failure hmem
    exact ⟨d, message, code, hd, (received_reads s c e d).subset hx⟩
  raised := h.raised

theorem received_self (s : Client) (c : ℕ) (e : ServerEvent) :
    (s.reads c e).received c = s.received c ++ [e] := by
  simp [Client.reads]

/-- An event that is none of the response's leaves it where it was. -/
theorem Streams.reads (h : Streams r c s) (hd : ∀ chunk, e ≠ .delta (.named r) chunk)
    (hn : e ≠ .done (.named r)) : Streams r c (s.reads c e) where
  committed := h.committed
  connected := h.connected
  last := h.last
  undone := by
    rw [received_self, List.mem_append, List.mem_singleton]
    rintro (hmem | heq)
    · exact h.undone hmem
    · exact hn heq.symm
  chunks := by
    have hnone : deltas (.named r) [e] = [] := by
      rw [deltas, List.filterMap_eq_nil_iff]
      intro x hx
      obtain rfl := List.mem_singleton.mp hx
      cases x with
      | delta r' chunk =>
        have hne : r' ≠ .named r := fun heq => hd chunk (by rw [heq])
        exact if_neg hne
      | _ => rfl
    rw [received_self, deltas_append, hnone, List.append_nil]
    exact h.chunks

theorem Streams.yields (h : Streams r c s) :
    Streams r c ((s.reads c (.delta (.named r) chunk)).yields r chunk) where
  committed := h.committed
  connected := h.connected
  last := h.last
  undone := by
    change _ ∉ (s.reads c _).received c
    rw [received_self, List.mem_append, List.mem_singleton]
    rintro (hmem | heq)
    · exact h.undone hmem
    · cases heq
  chunks := by
    change _ = deltas _ ((s.reads c _).received c)
    rw [received_self, deltas_append, ← h.chunks]
    simp [Client.yields, Client.reads, deltas]

/-- The chunk that has been read is yielded. -/
theorem Isolated.yields (h : Isolated own wire (s.reads c (.delta (.named r) chunk)))
    (hs : Streams r c ((s.reads c (.delta (.named r) chunk)).yields r chunk)) :
    Isolated own wire ((s.reads c (.delta (.named r) chunk)).yields r chunk) where
  delivered := h.delivered
  last := h.last
  named := h.named
  once := h.once
  caused := h.caused
  chunks d r' hd := by
    by_cases hr : r' = r
    · subst hr
      obtain rfl := h.once d c r' hd hs.committed
      rw [untilDone_of_not_mem hs.undone]
      exact ⟨[], by rw [List.append_nil, hs.chunks]⟩
    · have hsame : ((s.reads c (.delta (.named r) chunk)).yields r chunk).yielded r' =
          (s.reads c (.delta (.named r) chunk)).yielded r' := by
        simp [Client.yields, hr]
      rw [hsame]
      exact h.chunks d r' hd
  finished d r' hd hf := by
    by_cases hr : r' = r
    · subst hr
      obtain rfl := h.once d c r' hd hs.committed
      exact absurd (h.finished d r' hd hf).1 hs.undone
    · have hsame : ((s.reads c (.delta (.named r) chunk)).yields r chunk).yielded r' =
          (s.reads c (.delta (.named r) chunk)).yielded r' := by
        simp [Client.yields, hr]
      rw [hsame]
      exact h.finished d r' hd hf
  silent r' hnone := by
    have hr : r' ≠ r := by
      rintro rfl
      exact hnone c hs.committed
    have hsame : ((s.reads c (.delta (.named r) chunk)).yields r chunk).yielded r' =
        (s.reads c (.delta (.named r) chunk)).yielded r' := by
      simp [Client.yields, hr]
    rw [hsame]
    exact h.silent r' hnone
  heard := h.heard
  raised := h.raised

/-- The done event of the response that streams has been read. -/
theorem Isolated.finishes (h : Isolated own wire (s.reads c (.done (.named r))))
    (hs : Streams r c s) :
    Isolated own wire { s.reads c (.done (.named r)) with finished := s.finished ++ [r] } where
  delivered := h.delivered
  last := h.last
  named := h.named
  once := h.once
  caused := h.caused
  chunks := h.chunks
  finished d r' hd hf := by
    rcases List.mem_append.mp hf with hf | hr
    · exact h.finished d r' hd hf
    · obtain rfl := List.mem_singleton.mp hr
      obtain rfl := h.once d c r' hd hs.committed
      change _ ∈ (s.reads d _).received d ∧ s.yielded r' = deltas _ (untilDone r' _)
      rw [received_self]
      refine ⟨by simp, ?_⟩
      rw [untilDone_done hs.undone]
      exact hs.chunks
  silent r' hnone := by
    refine ⟨(h.silent r' hnone).1, fun hf => ?_⟩
    rcases List.mem_append.mp hf with hf | hr
    · exact (h.silent r' hnone).2 hf
    · obtain rfl := List.mem_singleton.mp hr
      exact hnone c hs.committed
  heard := h.heard
  raised := h.raised

/-- The response that streams is raised for the error that has been read. -/
theorem Isolated.raises {message code : String} {failure : Failure}
    (h : Isolated own wire (s.reads c (.error message code failure))) (hs : Streams r c s)
    (ho : own → Own r failure) :
    Isolated own wire { s.reads c (.error message code failure) with
      raised := s.raised ++ [(r, failure)] } where
  delivered := h.delivered
  last := h.last
  named := h.named
  once := h.once
  caused := h.caused
  chunks := h.chunks
  finished := h.finished
  silent := h.silent
  heard r' failure' hmem := by
    rcases List.mem_append.mp hmem with hmem | hnew
    · exact h.heard r' failure' hmem
    · cases List.mem_singleton.mp hnew
      refine ⟨c, message, code, hs.committed, ?_⟩
      change _ ∈ (s.reads c _).received c
      simp [received_self]
  raised hown r' failure' hmem := by
    rcases List.mem_append.mp hmem with hmem | hnew
    · exact h.raised hown r' failure' hmem
    · cases List.mem_singleton.mp hnew
      exact ho hown

/-- The commit of a response that has a name of its own. -/
theorem Isolated.commits (h : Isolated own wire s) (hr : Fresh r s) :
    Isolated own wire (s.wrote c (.commit (some (.named r)))) where
  delivered := h.delivered
  last := h.last
  named d r' hd := by
    rcases (committed_wrote _ c d r').mp hd with hd | ⟨rfl, heq⟩
    · exact h.named d r' hd
    · cases heq
      exact hr.1
  once d d' r' hd hd' := by
    rcases (committed_wrote _ c d r').mp hd with hold | ⟨hdc, heq⟩ <;>
      rcases (committed_wrote _ c d' r').mp hd' with hold' | ⟨hdc', heq'⟩
    · exact h.once d d' r' hold hold'
    · cases heq'
      exact absurd hold (hr.2 d)
    · cases heq
      exact absurd hold' (hr.2 d')
    · exact hdc.trans hdc'.symm
  caused d x hx r' ha := (committed_wrote _ c d r').mpr (.inl (h.caused d x hx r' ha))
  chunks d r' hd := by
    rcases (committed_wrote _ c d r').mp hd with hd | ⟨rfl, heq⟩
    · exact h.chunks d r' hd
    · cases heq
      change s.yielded r <+: _
      rw [(h.silent r hr.2).1]
      exact List.nil_prefix
  finished d r' hd hf := by
    rcases (committed_wrote _ c d r').mp hd with hd | ⟨rfl, heq⟩
    · exact h.finished d r' hd hf
    · cases heq
      exact absurd hf (h.silent r hr.2).2
  silent r' hnone := h.silent r' fun d hd => hnone d ((committed_wrote _ c d r').mpr (.inl hd))
  heard r' failure hmem := by
    obtain ⟨d, message, code, hd, hx⟩ := h.heard r' failure hmem
    exact ⟨d, message, code, (committed_wrote _ c d r').mpr (.inl hd), hx⟩
  raised := h.raised

/-- Nothing of the response has come yet on the connection that its commit goes to. -/
theorem Isolated.streams (h : Isolated own wire s) (hr : Fresh r s)
    (hw : s.websocket = none ∨ s.websocket = some c) (hl : c + 1 = s.opened) :
    Streams r c (s.wrote c (.commit (some (.named r)))) where
  committed := (committed_wrote _ c c r).mpr (.inr ⟨rfl, rfl⟩)
  connected := hw
  last := hl
  undone hmem := hr.2 c (h.caused c _ hmem r rfl)
  chunks := by
    change s.yielded r = deltas _ (s.received c)
    rw [(h.silent r hr.2).1, deltas_eq_nil fun e he ha => hr.2 c (h.caused c e he r ha)]

end Updates

end VoiceAgent.ClientIsolation
