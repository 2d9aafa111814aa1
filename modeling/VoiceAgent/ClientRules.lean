import VoiceAgent.ClientIsolation

/-!
The client's programs keep its responses apart. The worker's exchanges commit nothing of their own;
the commit of a response is written last, and from then on its events are read one by one, while
the closers of old generators only cancel and disconnect. Between two awaits the client writes
nothing but the event that it stopped before.
-/
namespace VoiceAgent.ClientIsolation

open StreamingEvents Coroutine Interleaving StreamingClient
open StreamingAgreement (connectionOf)

section Contract

/-- The response that the worker waits for, from its commit to its last event. -/
def waiting : Site → Option ℕ
  | .written (.commit (some (.named r))) | .unstarted r | .reading r _ | .yielded r => some r
  | _ => none

def Standing (l : Site) (s : Client) : Prop :=
  ∀ r, waiting l = some r → ∃ c, Streams r c s ∧ ∀ d, connectionOf l = some d → d = c

/-- What has been read and committed stays so. -/
structure Since (s s' : Client) : Prop where
  received : ∀ c, s.received c <+: s'.received c
  committed : ∀ c r, Committed s c r → Committed s' c r

theorem Since.refl (s : Client) : Since s s := ⟨fun _ => List.prefix_refl _, fun _ _ => id⟩

theorem Since.trans {s s' s'' : Client} (h : Since s s') (h' : Since s' s'') : Since s s'' :=
  ⟨fun c => (h.received c).trans (h'.received c),
    fun c r hc => h'.committed c r (h.committed c r hc)⟩

theorem Aside.since {s s' : Client} (h : Aside s s') : Since s s' :=
  ⟨fun _ => h.received ▸ List.prefix_refl _, fun c r => (h.committed c r).mpr⟩

/-- A response that the worker waits for is one that it was waiting for or has just committed. -/
structure Onward (v v' : ClientView) : Prop extends Since v.shared v'.shared where
  waits : ∀ c r, waiting (v'.site .worker) = some r → Committed v.shared c r →
    waiting (v.site .worker) = some r

theorem Onward.refl (v : ClientView) : Onward v v := ⟨.refl _, fun _ _ hr _ => hr⟩

theorem Onward.trans {v v' v'' : ClientView} (h : Onward v v') (h' : Onward v' v'') :
    Onward v v'' :=
  ⟨h.toSince.trans h'.toSince, fun c r hr hc =>
    h.waits c r (h'.waits c r hr (h.committed c r hc)) hc⟩

/-- What is read on a connection: events of responses that have been committed there and, for
the response that is streamed, no failure but its own. -/
def Heard (own : Prop) (wire : ℕ → List ServerEvent) (v : ClientView) (t : Task) (i : Reply) :
    Prop :=
  ∀ c event, connectionOf (v.site t) = some c → i = .message event →
    v.shared.received c ++ [event] <+: wire c ∧
    (∀ r, about event = some (.named r) → Committed v.shared c r) ∧
    (own → t = .worker → ∀ r failure, v.site t = .reading r c → failureOf event = some failure →
      Own r failure)

def isolating (own : Prop) (wire : ℕ → List ServerEvent) : Contract Task Site Client Reply where
  inv v := Isolated own wire v.shared ∧ Standing (v.site .worker) v.shared
  rely t v v' := (t = .worker → Aside v.shared v'.shared) ∧ (t ≠ .worker → Onward v v')
  allowed := Heard own wire

/-- The worker in the middle of a turn that it began in view `v`, for a response that is not
committed yet. -/
structure Mid (own : Prop) (wire : ℕ → List ServerEvent) (name : Option ℕ) (v : ClientView)
    (s : Client) : Prop where
  isolated : Isolated own wire s
  since : Since v.shared s
  fresh : ∀ r ∈ name, Fresh r s

variable {own : Prop} {wire : ℕ → List ServerEvent} {name : Option ℕ} {v : ClientView}
  {s s' : Client} {l : Site}

theorem Mid.forget (h : Mid own wire name v s) : Mid own wire none v s :=
  ⟨h.isolated, h.since, by simp⟩

theorem Mid.aside (h : Mid own wire name v s) (ha : Aside s s') : Mid own wire name v s' :=
  ⟨h.isolated.aside ha, h.since.trans ha.since, fun r hr => (h.fresh r hr).aside ha⟩

theorem Mid.stops (h : Mid own wire name v s) (hl : waiting l = none) :
    (isolating own wire).Stops .worker l v s := by
  refine ⟨⟨h.isolated, fun r hr => ?_⟩, fun u hu => ⟨fun hw => absurd hw hu, fun _ => ?_⟩⟩
  · rw [View.stop_site_self, hl] at hr
    cases hr
  · refine ⟨h.since, fun c r hr => ?_⟩
    rw [View.stop_site_self, hl] at hr
    cases hr

/-- The worker stops while it waits for a response that it has been waiting for. -/
theorem Streams.stops {r c : ℕ} (h : Streams r c s) (hs : Mid own wire name v s)
    (hl : waiting l = some r) (hc : ∀ d, connectionOf l = some d → d = c)
    (hv : waiting (v.site .worker) = some r) : (isolating own wire).Stops .worker l v s := by
  refine ⟨⟨hs.isolated, fun r' hr => ?_⟩, fun u hu => ⟨fun hw => absurd hw hu, fun _ => ?_⟩⟩
  · rw [View.stop_site_self, hl] at hr
    cases hr
    exact ⟨c, h, by rwa [View.stop_site_self]⟩
  · refine ⟨hs.since, fun c r' hr _ => ?_⟩
    rw [View.stop_site_self, hl] at hr
    rw [hv, ← hr]

/-- An await in the midst of an exchange. -/
theorem wp_awaited {Q : Unit → ClientView → Client → Prop}
    {E : Exception → ClientView → Client → Prop} (hl : waiting l = none)
    (h : Mid own wire name v s)
    (hgo : ∀ v', Mid own wire name v' v'.shared → Aside s v'.shared → Q () v' v'.shared)
    (hE : ∀ e v', Mid own wire name v' v'.shared → E e v' v'.shared) :
    Wp (isolating own wire) .worker Q E (awaited l) v s := by
  unfold awaited
  rw [wp_bind, wp_pause]
  refine ⟨h.stops hl, fun v' i hr hi hsite ha => ?_⟩
  have hg : Aside s v'.shared := hr.1 rfl
  have hmid : Mid own wire name v' v'.shared :=
    ⟨hi.1, .refl _, fun r hr => (h.fresh r hr).aside hg⟩
  split
  · exact hE _ v' hmid
  · exact hE _ v' hmid
  · exact hgo v' hmid hg

variable (own wire name) in
/-- A coroutine of the worker that commits nothing and yields nothing. -/
structure Loyal {α : Type} (c : Prog α) : Prop where
  wp : ∀ {v s}, Mid own wire name v s → Wp (isolating own wire) .worker (fun _ => Mid own wire name)
    (fun _ => Mid own wire name) c v s

namespace Loyal
variable {α β : Type}

theorem bind {c : Prog α} {f : α → Prog β} (hc : Loyal own wire name c)
    (hf : ∀ a, Loyal own wire name (f a)) : Loyal own wire name (c >>= f) := by
  refine ⟨fun h => ?_⟩
  rw [wp_bind]
  exact wp_mono (fun a _ _ ha => (hf a).wp ha) (fun _ _ _ he => he) (hc.wp h)

theorem handle {c : Prog α} {f : Exception → Prog α} (hc : Loyal own wire name c)
    (hf : ∀ e, Loyal own wire name (f e)) : Loyal own wire name (c.handle f) := by
  refine ⟨fun h => ?_⟩
  rw [wp_handle]
  exact wp_mono (fun _ _ _ ha => ha) (fun e _ _ he => (hf e).wp he) (hc.wp h)

theorem pure (a : α) : Loyal own wire name (pure a : Prog α) := ⟨id⟩

theorem raise (e : Exception) : Loyal own wire name (Coro.raise e : Prog α) := ⟨id⟩

theorem get : Loyal own wire name (get : Prog Client) := ⟨id⟩

theorem modify {f : Client → Client} (hf : ∀ s, Aside s (f s)) :
    Loyal own wire name (modify f : Prog Unit) := ⟨fun h => h.aside (hf _)⟩

theorem ite {p : Prop} [Decidable p] {c d : Prog α} (hc : Loyal own wire name c)
    (hd : Loyal own wire name d) : Loyal own wire name (if p then c else d) := by
  split
  · exact hc
  · exact hd

theorem awaited (hl : waiting l = none) : Loyal own wire name (awaited l) :=
  ⟨fun h => wp_awaited hl h (fun _ hs _ => hs) fun _ _ hs => hs⟩

theorem send {event : ClientEvent} (he : ∀ r, event ≠ .commit (some (.named r))) :
    Loyal own wire name (send event) := by
  have hwritten : waiting (.written event) = none := by
    unfold waiting
    split <;> simp_all
  refine get.bind fun s => ?_
  split
  · exact .raise _
  · exact (awaited rfl).bind fun _ =>
      (modify fun s => aside_wrote he _).bind fun _ => awaited hwritten

theorem disconnect : Loyal own wire name disconnect :=
  get.bind fun _ => (modify fun s => closes_aside.disconnects .idle .go s).bind fun _ =>
    .ite (.pure _) (awaited rfl)

theorem orDisconnect {exchange after : Prog α} (hx : Loyal own wire name exchange)
    (ha : Loyal own wire name after) : Loyal own wire name (orDisconnect exchange after) := by
  refine hx.handle fun e => ?_
  cases e with
  | cancelled => exact .raise _
  | error => exact disconnect.bind fun _ => ha

end Loyal

end Contract

section Exchanges
variable {own : Prop} {wire : ℕ → List ServerEvent} {name : Option ℕ} {v : ClientView}
  {s : Client}

/-- The worker opens a connection, and reads its greeting. -/
theorem Loyal.connect : Loyal own wire name connect := by
  refine (Loyal.awaited rfl).bind fun _ => ⟨fun h => ?_⟩
  rw [wp_bind, wp_get, wp_bind, wp_modify, wp_bind, wp_pause]
  rename_i v s
  have hopen : Mid own wire name v
      { s with websocket := some s.opened, opened := s.opened + 1 } := by
    refine ⟨h.isolated.of_eq ?_ (Nat.le_refl _) rfl rfl rfl rfl fun _ _ => .rfl,
      ⟨h.since.received, h.since.committed⟩, h.fresh⟩
    intro c hc
    obtain rfl : s.opened = c := Option.some.inj hc
    rfl
  refine ⟨hopen.stops rfl, fun v' i hr hi hsite ha => ?_⟩
  have haside := hr.1 rfl
  have hmid : Mid own wire name v' v'.shared :=
    ⟨hi.1, .refl _, fun r hr => (hopen.fresh r hr).aside haside⟩
  split
  · rename_i event
    rw [wp_bind, wp_modify, wp_modify]
    have hconn : connectionOf (v'.site .worker) = some s.opened := by rw [hsite]; rfl
    have hreads : Mid own wire name v' (v'.shared.reads s.opened event) := by
      refine ⟨hmid.isolated.reads (ha _ event hconn rfl).1 (ha _ event hconn rfl).2.1,
        ⟨received_reads _ _ _, fun _ _ => id⟩, hmid.fresh⟩
    exact hreads.aside (.of_eq (.inl rfl) rfl (Nat.le_refl _) rfl rfl rfl rfl rfl)
  · exact hmid
  · exact hmid

theorem loyal_record {event : ClientEvent} {f : Client → Client}
    (he : ∀ r, event ≠ .commit (some (.named r))) (hf : ∀ s, Aside s (f s)) :
    Loyal own wire name (send event >>= fun _ => modify f) :=
  (Loyal.send he).bind fun _ => .modify hf

theorem Loyal.syncSession (request : SessionRequest) (text : Text) :
    Loyal own wire name (syncSession request text) := by
  refine (Loyal.get.bind fun _ => .ite .connect (.pure _)).bind fun _ => ?_
  refine (Loyal.get.bind fun _ => .ite (.pure _) (loyal_record (by simp) fun s => ?_)).bind
    fun _ => ?_
  · exact .of_eq (.inl rfl) rfl (Nat.le_refl _) rfl rfl rfl rfl rfl
  refine (Loyal.get.bind fun _ => .ite (.pure _) (loyal_record (by simp) fun s => ?_)).bind
    fun _ => ?_
  · exact .of_eq (.inl rfl) rfl (Nat.le_refl _) rfl rfl rfl rfl rfl
  refine Loyal.get.bind fun _ => .ite (.pure _) (loyal_record (by simp) fun s => ?_)
  exact .of_eq (.inl rfl) rfl (Nat.le_refl _) rfl rfl rfl rfl rfl

theorem Loyal.processFrame (request : SessionRequest) (text : Text) :
    Loyal own wire name (processFrame request text) :=
  .orDisconnect (.syncSession request text) (.pure _)

theorem Loyal.closeResponse (r : ℕ) : Loyal own wire name (closeResponse r) :=
  Loyal.get.bind fun _ => .ite (.pure _) (.orDisconnect (.send (by simp)) (.pure _))

/-- The worker waits for a response whose commit has just been written. -/
def Committing (own : Prop) (wire : ℕ → List ServerEvent) (r : ℕ) (v : ClientView) (s : Client) :
    Prop :=
  waiting (v.site .worker) = some r ∧ Mid own wire none v s ∧ ∃ c, Streams r c s

theorem wp_sendCommit {r : ℕ} (h : Mid own wire (some r) v s) :
    Wp (isolating own wire) .worker (fun _ => Committing own wire r) (fun _ => Mid own wire none)
      (send (.commit (some (.named r)))) v s := by
  unfold send
  rw [wp_bind, wp_get]
  split
  · exact h.forget
  rename_i c hc
  rw [wp_bind]
  refine wp_awaited rfl h (fun v₁ h₁ ha => ?_) fun _ _ hs => hs.forget
  rw [wp_bind, wp_modify]
  have hfresh : Fresh r v₁.shared := h₁.fresh r rfl
  have hstreams : Streams r c (v₁.shared.wrote c (.commit (some (.named r)))) := by
    refine h₁.isolated.streams hfresh ?_ (ha.opened ▸ h.isolated.last c hc)
    rcases ha.websocket with hw | hw
    · exact .inr (hw.trans hc)
    · exact .inl hw
  have hmid : Mid own wire none v₁ (v₁.shared.wrote c (.commit (some (.named r)))) :=
    ⟨h₁.isolated.commits hfresh, ⟨fun _ => List.prefix_refl _, fun d r' hd =>
      (committed_wrote _ c d r').mpr (.inl hd)⟩, by simp⟩
  unfold awaited
  rw [wp_bind, wp_pause]
  refine ⟨⟨⟨hmid.isolated, ?_⟩, fun u hu => ⟨fun hw => absurd hw hu, fun _ => ⟨hmid.since, ?_⟩⟩⟩,
    fun v₂ i hr hi hsite _ => ?_⟩
  · rw [View.stop_site_self]
    intro r' hr'
    obtain rfl : r = r' := Option.some.inj hr'
    exact ⟨c, hstreams, by simp [connectionOf]⟩
  · rw [View.stop_site_self]
    intro d r' hr' hd
    obtain rfl : r = r' := Option.some.inj hr'
    exact absurd hd (hfresh.2 d)
  · have hmid₂ : Mid own wire none v₂ v₂.shared := ⟨hi.1, .refl _, by simp⟩
    split
    · exact hmid₂
    · exact hmid₂
    · exact ⟨by rw [hsite]; rfl, hmid₂, c, hstreams.aside (hr.1 rfl)⟩

theorem wp_getChatCompletions (request : SessionRequest) (h : Mid own wire none v s) :
    Wp (isolating own wire) .worker (fun r => Committing own wire r) (fun _ => Mid own wire none)
      (getChatCompletions request) v s := by
  unfold getChatCompletions
  rw [wp_bind, wp_modifyGet, wp_bind]
  have hname : Aside s { s with named := s.named + 1 } :=
    .of_eq (.inl rfl) rfl (Nat.le_succ _) rfl rfl rfl rfl rfl
  have hmid : Mid own wire (some s.named) v { s with named := s.named + 1 } := by
    refine ⟨h.isolated.aside hname, h.since.trans hname.since, fun r hr => ?_⟩
    obtain rfl : s.named = r := Option.some.inj hr
    refine ⟨Nat.lt_succ_self _, fun c hc => ?_⟩
    exact absurd (h.isolated.named c _ hc) (Nat.lt_irrefl _)
  refine wp_mono (fun _ v' s' (hs : Committing own wire s.named v' s') => ?_) (fun _ _ _ he => he)
    (?_ : Wp (isolating own wire) .worker (fun _ => Committing own wire s.named)
      (fun _ => Mid own wire none) _ v _)
  · rw [wp_bind, wp_modify, wp_pure]
    obtain ⟨hwait, hmid', c, hc⟩ := hs
    have ha : Aside s' { s' with sessionText := [] } :=
      .of_eq (.inl rfl) rfl (Nat.le_refl _) rfl rfl rfl rfl rfl
    exact ⟨hwait, hmid'.aside ha, c, hc.aside ha⟩
  · unfold StreamingClient.orDisconnect
    rw [wp_handle]
    refine wp_mono (fun _ _ _ hs => hs) (fun e v' s' he => ?_) (?_ : Wp (isolating own wire) .worker
      (fun _ => Committing own wire s.named) (fun _ => Mid own wire none) _ v _)
    · cases e with
      | cancelled => exact he
      | error =>
        rw [wp_bind]
        exact wp_mono (fun _ _ _ hs => hs) (fun _ _ _ hs => hs) (Loyal.disconnect.wp he)
    · rw [wp_bind]
      refine wp_mono (fun _ _ _ hs => wp_sendCommit hs) (fun _ _ _ hs => hs.forget)
        ((Loyal.syncSession _ _).wp hmid)

end Exchanges

section Turns
variable {own : Prop} {wire : ℕ → List ServerEvent} {v : ClientView} {s : Client} {r c : ℕ}

/-- How a turn of the worker ends. -/
abbrev WpTurn (own : Prop) (wire : ℕ → List ServerEvent) (turn : Prog Loop) (v : ClientView)
    (s : Client) : Prop :=
  Wp (isolating own wire) .worker
    (fun b v s => Ends (isolating own wire) streamingClient .worker b v s)
    (fun e v s => Ends (isolating own wire) streamingClient .worker
      (streamingClient.crash .worker e) v s) turn v s

theorem wp_thenIdle {α : Type} {exchange : Prog α} (hx : Loyal own wire none exchange)
    (h : Mid own wire none v s) : WpTurn own wire (exchange >>= fun _ => pure .idle) v s := by
  rw [WpTurn, wp_bind]
  exact wp_mono (fun _ _ _ hs => hs.stops rfl) (fun _ _ _ hs => hs.stops rfl) (hx.wp h)

/-- A turn that does nothing ends where it began. -/
theorem stops_there {l : Site} (hi : (isolating own wire).inv v) (hl : v.site .worker = l) :
    (isolating own wire).Stops .worker l v v.shared := by
  rw [Contract.Stops, View.stop_self hl]
  exact ⟨hi, fun u hu => ⟨fun hw => absurd hw hu, fun _ => .refl _⟩⟩

theorem wp_nextEvent (h : Streams r c s) (hm : Mid own wire none v s)
    (hv : waiting (v.site .worker) = some r) : WpTurn own wire (nextEvent r) v s := by
  unfold nextEvent
  rw [WpTurn, wp_bind, wp_get]
  split
  · exact hm.stops rfl
  · rename_i c' hw
    have hc : c' = c := by
      rcases h.connected with hnone | hsome
      · rw [hw] at hnone
        cases hnone
      · exact Option.some.inj (hw.symm.trans hsome)
    refine h.stops hm rfl (fun d hd => ?_) hv
    obtain rfl : c' = d := Option.some.inj hd
    exact hc

theorem wp_readEvent {event : ServerEvent} (h : Streams r c v.shared)
    (hm : Mid own wire none v v.shared) (hsite : v.site .worker = .reading r c)
    (ha : Heard own wire v .worker (.message event)) :
    WpTurn own wire (readEvent r c event) v v.shared := by
  have hv : waiting (v.site .worker) = some r := by rw [hsite]; rfl
  obtain ⟨hwire, hcaused, hown⟩ := ha c event (by rw [hsite]; rfl) rfl
  have hreads : Isolated own wire (v.shared.reads c event) := hm.isolated.reads hwire hcaused
  have hsince : Since v.shared (v.shared.reads c event) :=
    ⟨received_reads _ _ _, fun _ _ => id⟩
  unfold readEvent
  rw [WpTurn, wp_bind, wp_modify]
  split
  · rename_i message code failure
    rw [wp_bind, wp_modify]
    have hraises := hreads.raises h fun ho => hown ho rfl r failure hsite rfl
    exact wp_thenIdle (Loyal.closeResponse r)
      ⟨hraises, ⟨hsince.received, hsince.committed⟩, by simp⟩
  · rename_i r' chunk
    split
    · rename_i hr
      subst hr
      rw [wp_bind, wp_modify]
      have hyields : Streams r c ((v.shared.reads c (.delta (.named r) chunk)).yields r chunk) :=
        h.yields
      have hmid : Mid own wire none v _ :=
        ⟨hreads.yields hyields, ⟨hsince.received, hsince.committed⟩, by simp⟩
      exact hyields.stops hmid rfl (by simp [connectionOf, streamingClient]) hv
    · rename_i hr
      refine wp_nextEvent (h.reads (fun chunk' heq => ?_) (by simp)) ⟨hreads, hsince, by simp⟩ hv
      exact hr (ServerEvent.delta.inj heq).1
  · rename_i r'
    split
    · rename_i hr
      subst hr
      rw [wp_bind, wp_modify]
      have hmid : Mid own wire none v _ :=
        ⟨hreads.finishes h, ⟨hsince.received, hsince.committed⟩, by simp⟩
      exact hmid.stops rfl
    · rename_i hr
      refine wp_nextEvent (h.reads (by simp) fun heq => ?_) ⟨hreads, hsince, by simp⟩ hv
      exact hr (ServerEvent.done.inj heq)
  · exact wp_nextEvent (h.reads (by simp) (by simp)) ⟨hreads, hsince, by simp⟩ hv

theorem wp_workerTurn {loop : Loop} {reply : Reply} (hi : (isolating own wire).inv v)
    (hl : v.site .worker = streamingClient.head .worker loop)
    (ha : Heard own wire v .worker reply) : WpTurn own wire (workerTurn loop reply) v v.shared := by
  obtain ⟨hisolated, hstanding⟩ := hi
  have hm : Mid own wire none v v.shared := ⟨hisolated, .refl _, by simp⟩
  unfold workerTurn
  split
  · exact wp_thenIdle (Loyal.processFrame _ _) hm
  · rw [WpTurn, wp_bind]
    refine wp_mono (fun r v s hs => ?_) (fun _ _ _ hs => hs.stops rfl)
      (wp_getChatCompletions _ hm)
    obtain ⟨hwait, hmid, c, hc⟩ := hs
    exact hc.stops hmid rfl (by simp [connectionOf, streamingClient]) hwait
  · exact wp_thenIdle Loyal.disconnect hm
  · rename_i r
    obtain ⟨c, hc, -⟩ := hstanding r (by rw [hl]; rfl)
    exact wp_nextEvent hc hm (by rw [hl]; rfl)
  · exact hm.stops rfl
  · rename_i r c event
    obtain ⟨d, hd, hconn⟩ := hstanding r (by rw [hl]; rfl)
    obtain rfl := hconn c (by rw [hl]; rfl)
    exact wp_readEvent hd hm hl ha
  · exact wp_thenIdle (Loyal.closeResponse _) hm
  · rename_i r
    obtain ⟨c, hc, -⟩ := hstanding r (by rw [hl]; rfl)
    exact wp_nextEvent hc hm (by rw [hl]; rfl)
  · exact wp_thenIdle (Loyal.closeResponse _) hm
  · rw [WpTurn, wp_bind, wp_modify]
    exact (hm.aside (closes_aside.abandons .idle .go _ _)).stops rfl
  · exact stops_there ⟨hisolated, hstanding⟩ hl

theorem closer_turn (r : ℕ) (reply : Reply) (hi : (isolating own wire).inv v) :
    Wp (isolating own wire) (.closer r)
      (fun _ v s => ∀ l, (isolating own wire).Stops (.closer r) l v s)
      (fun _ v s => ∀ l, (isolating own wire).Stops (.closer r) l v s) (closerTurn r reply) v
      v.shared := by
  let J : ClientView → Client → Prop := fun v s =>
    Aside v.shared s ∧ Isolated own wire s ∧ Standing (v.site .worker) s
  have hstop : ∀ l v s, J v s → (isolating own wire).Stops (.closer r) l v s := by
    rintro l v s ⟨ha, hs, hst⟩
    have hsite : (v.stop (.closer r) l s).site .worker = v.site .worker :=
      View.stop_site_of_ne v (by simp) l s
    refine ⟨⟨hs, ?_⟩, fun u _ => ⟨fun _ => ha, fun _ => ⟨ha.since, fun c r' hr _ => ?_⟩⟩⟩
    · rwa [hsite]
    · rwa [hsite] at hr
  have hlegs := (closes_aside.closerTurn r reply).leg .waiting reply v.shared
  have hJ : Wp (isolating own wire) (.closer r) (fun _ => J) (fun _ => J) (closerTurn r reply) v
      v.shared := by
    refine wp_of_within hstop ?_ ?_ (leg_within.mp hlegs) ⟨.refl _, hi⟩
    · rintro v s s' ⟨ha, hs, hst⟩ hs'
      refine ⟨ha.trans hs', hs.aside hs', fun r' hr => ?_⟩
      obtain ⟨c, hc, hd⟩ := hst r' hr
      exact ⟨c, hc.aside hs', hd⟩
    · exact fun v hi => ⟨.refl _, hi⟩
  exact wp_mono (fun _ v s h l => hstop l v s h) (fun _ v s h l => hstop l v s h) hJ

theorem isolating_keeps (own : Prop) (wire : ℕ → List ServerEvent) :
    Keeps (isolating own wire) streamingClient closedWorld where
  refl _ _ := ⟨fun _ => .refl _, fun _ => .refl _⟩
  trans _ _ _ _ h h' := ⟨fun ht => (h.1 ht).trans (h'.1 ht), fun ht => (h.2 ht).trans (h'.2 ht)⟩
  outside _ _ _ h := h.elim
  body t loop reply v hi hl ha := by
    cases t with
    | worker => exact wp_workerTurn hi hl ha
    | closer r =>
      exact wp_mono (fun _ _ _ h => h _) (fun _ _ _ h => h _) (closer_turn r reply hi)

theorem isolated_fresh (own : Prop) (wire : ℕ → List ServerEvent) : Isolated own wire {} where
  delivered _ := List.nil_prefix
  last c h := by cases h
  named c r h := by cases h
  once c d r h := by cases h
  caused c e h := by cases h
  chunks c r h := by cases h
  finished c r h := by cases h
  silent r _ := by simp
  heard r failure h := by cases h
  raised _ r failure h := by cases h

theorem isolating_fresh (own : Prop) (wire : ℕ → List ServerEvent) :
    (isolating own wire).inv freshClient.view :=
  ⟨isolated_fresh own wire, fun r hr => by cases hr⟩

end Turns

section Writing
variable {l : Site} {i : Reply} {s s' s'' : Client}

/-- What a leg writes: the event that it stopped before, and nothing else. -/
structure Writes (l : Site) (i : Reply) (s s' : Client) : Prop where
  sent : ∀ c, ∃ new, s'.sent c = s.sent c ++ new ∧
    ∀ e ∈ new, l = .writing e ∧ i.comesBack = true
  opened : l = .connecting ∨ s'.opened = s.opened

theorem Writes.of_eq (hs : s'.sent = s.sent) (ho : s'.opened = s.opened) : Writes l i s s' :=
  ⟨fun c => ⟨[], by simp [hs]⟩, .inr ho⟩

theorem Writes.trans (h : Writes l i s s') (h' : Writes l i s' s'') : Writes l i s s'' := by
  refine ⟨fun c => ?_, ?_⟩
  · obtain ⟨new, hnew, hall⟩ := h.sent c
    obtain ⟨new', hnew', hall'⟩ := h'.sent c
    refine ⟨new ++ new', by rw [hnew', hnew, List.append_assoc], fun e he => ?_⟩
    exact (List.mem_append.mp he).elim (hall e) (hall' e)
  · rcases h.opened with hl | ho
    · exact .inl hl
    · rcases h'.opened with hl | ho'
      · exact .inl hl
      · exact .inr (ho'.trans ho)

theorem writes_moves (h : Relation.ReflTransGen (Writes l i) s s') : Writes l i s s' := by
  induction h with
  | refl => exact .of_eq rfl rfl
  | tail _ hs ih => exact ih.trans hs

theorem writes_event (event : ClientEvent) (hi : i.comesBack = true) (c : ℕ) :
    Writes (.writing event) i s (s.wrote c event) := by
  refine ⟨fun d => ?_, .inr rfl⟩
  by_cases hd : d = c
  · subst hd
    exact ⟨[event], by simp [Client.wrote], by simp [hi]⟩
  · exact ⟨[], by simp [Client.wrote, hd], by simp⟩

/-- A committed response has been committed before, or in the leg after the await of its commit. -/
theorem Writes.committed (h : Writes l i s s') {c r : ℕ} (hc : Committed s' c r) :
    Committed s c r ∨ (l = .writing (.commit (some (.named r))) ∧ i.comesBack = true) := by
  obtain ⟨new, hnew, hall⟩ := h.sent c
  rw [Committed, hnew, List.mem_append] at hc
  exact hc.imp id (hall _)

theorem closes_writes : Closes Writes where
  wrote _ _ c _ hi := writes_event _ hi c
  disconnects _ _ _ := .of_eq rfl rfl
  abandons _ _ _ _ := .of_eq rfl rfl

theorem legs_record {event : ClientEvent} {f : Client → Client} (hs : ∀ s, (f s).sent = s.sent)
    (ho : ∀ s, (f s).opened = s.opened) :
    Legs Writes (send event >>= fun _ => modify f) :=
  (legs_send fun _ _ c hi => writes_event event hi c).bind fun _ =>
    .modify fun _ _ s => .of_eq (hs s) (ho s)

theorem legs_connect : Legs Writes connect := by
  refine legs_awaited_bind fun i s _ => ?_
  -- the connection is counted in the leg that opens it
  refine ⟨⟨fun c => ⟨[], by simp⟩, .inl rfl⟩, ?_⟩
  refine Leg.bind trivial fun _ => (Legs.pause _).bind fun reply => ?_
  split
  · exact (Legs.modify fun _ _ _ => .of_eq rfl rfl).bind fun _ =>
      .modify fun _ _ _ => .of_eq rfl rfl
  · exact .raise _
  · exact .raise _

theorem legs_syncSession (request : SessionRequest) (text : Text) :
    Legs Writes (syncSession request text) := by
  refine (Legs.get.bind fun _ => .ite legs_connect (.pure _)).bind fun _ => ?_
  refine (Legs.get.bind fun _ => .ite (.pure _) (legs_record (fun _ => ?_) fun _ => ?_)).bind
    fun _ => ?_
  · rfl
  · rfl
  refine (Legs.get.bind fun _ => .ite (.pure _) (legs_record (fun _ => ?_) fun _ => ?_)).bind
    fun _ => ?_
  · rfl
  · rfl
  refine Legs.get.bind fun _ => .ite (.pure _) (legs_record (fun _ => ?_) fun _ => ?_)
  · rfl
  · rfl

theorem legs_getChatCompletions (request : SessionRequest) :
    Legs Writes (getChatCompletions request) := by
  refine (Legs.modifyGet fun _ _ _ => .of_eq rfl rfl).bind fun r => ?_
  refine (legs_orDisconnect ?_ closes_writes.disconnect (.raise _)).bind fun _ =>
    (Legs.modify fun _ _ _ => .of_eq rfl rfl).bind fun _ => .pure _
  exact (legs_syncSession _ _).bind fun _ => legs_send fun _ _ c hi => writes_event _ hi c

theorem legs_nextEvent (r : ℕ) : Legs Writes (nextEvent r) := by
  refine Legs.get.bind fun s => ?_
  split <;> exact .pure _

theorem legs_readEvent (r c : ℕ) (event : ServerEvent) : Legs Writes (readEvent r c event) := by
  refine (Legs.modify fun _ _ _ => .of_eq rfl rfl).bind fun _ => ?_
  split
  · exact (Legs.modify fun _ _ _ => .of_eq rfl rfl).bind fun _ =>
      (closes_writes.closeResponse r).bind fun _ => .pure _
  · exact .ite ((Legs.modify fun _ _ _ => .of_eq rfl rfl).bind fun _ => .pure _)
      (legs_nextEvent r)
  · exact .ite ((Legs.modify fun _ _ _ => .of_eq rfl rfl).bind fun _ => .pure _)
      (legs_nextEvent r)
  · exact legs_nextEvent r

theorem legs_client (t : Task) (loop : Loop) (reply : Reply) :
    Legs Writes (streamingClient.body t loop reply) := by
  cases t with
  | closer r => exact closes_writes.closerTurn r reply
  | worker =>
    change Legs Writes (workerTurn loop reply)
    unfold workerTurn
    split
    · exact (legs_orDisconnect (legs_syncSession _ _) closes_writes.disconnect (.pure _)).bind
        fun _ => .pure _
    · exact (legs_getChatCompletions _).bind fun _ => .pure _
    · exact closes_writes.disconnect.bind fun _ => .pure _
    · exact legs_nextEvent _
    · exact .pure _
    · exact legs_readEvent _ _ _
    · exact (closes_writes.closeResponse _).bind fun _ => .pure _
    · exact legs_nextEvent _
    · exact (closes_writes.closeResponse _).bind fun _ => .pure _
    · exact (Legs.modify fun _ _ _ => .of_eq rfl rfl).bind fun _ => .pure _
    · exact .pure _

end Writing

end VoiceAgent.ClientIsolation
