import VoiceAgent.StreamingClient
import VoiceAgent.SessionRules

/-!
The two copies of the user text and of the conversation, one at each end of the session
websocket. Each end keeps up with the events of a connection by itself: the session with those
that it has received, the client with those that it has sent. So the ends agree whenever all of
them have arrived, unless the client is cancelled between a send and its record, or the server
fails a commit that the client has taken for served.
-/
namespace VoiceAgent.StreamingAgreement

open StreamingEvents Coroutine Interleaving StreamingClient
open StreamingSession (SessionPool freshSession streamingSession anyTurn)
open SessionRules (sessionContract CommitsServed inv_reach)

section Said

/-- What the events of a connection come to: the user text, and the last conversation sent. -/
structure Said where
  text : Text := []
  request : Option SessionRequest := none

def Said.step (b : Said) : ClientEvent → Said
  | .update request => { b with request := some request }
  | .append text => { b with text := b.text ++ text }
  | .clear | .commit _ => { b with text := [] }
  | .cancel _ | .unknown _ | .malformed _ => b

def said (events : List ClientEvent) : Said := events.foldl Said.step {}

@[simp] theorem said_concat (events : List ClientEvent) (e : ClientEvent) :
    said (events ++ [e]) = (said events).step e := by
  simp [said]

/-- A session without a conversation of its own has the empty one. -/
theorem replay_said (events : List ClientEvent) :
    replay events = ⟨(said events).text, (said events).request.getD {}⟩ := by
  induction events using List.reverseRecOn with
  | nil => rfl
  | append_singleton events e ih =>
    rw [replay_concat, said_concat, ih]
    cases e <;> rfl

theorem said_request {events : List ClientEvent} {r : SessionRequest} (h : .update r ∈ events) :
    (said events).request ≠ none := by
  induction events using List.reverseRecOn with
  | nil => simp at h
  | append_singleton events e ih =>
    rw [said_concat]
    cases e with
    | update r' => simp [Said.step]
    | _ =>
      refine ih ?_
      simpa using h

end Said

section Client

/-- What the client takes the session to know, on a connection where it has said `b`. -/
structure Told (b : Said) (s : Client) : Prop where
  text : s.sessionText = b.text
  request : ∀ r, b.request = some r → s.sessionRequest = some r

/-- Nothing has been said on a connection that is still to come. -/
structure Fresh (s : Client) : Prop where
  silent : ∀ c, s.opened ≤ c → said (s.sent c) = {}
  opened : ∀ c, s.websocket = some c → c < s.opened

structure Agreed (s : Client) : Prop extends Fresh s where
  told : ∀ c, s.websocket = some c → Told (said (s.sent c)) s

/-- Event `e` has been written, and is not recorded yet. -/
structure Wrote (e : ClientEvent) (s : Client) : Prop extends Fresh s where
  wrote : ∀ c, s.websocket = some c → ∃ b, Told b s ∧ said (s.sent c) = b.step e

/-- What the closers of old generators may do meanwhile: cancel responses, and disconnect. -/
structure Grows (s s' : Client) : Prop where
  text : s'.sessionText = s.sessionText
  request : s'.sessionRequest = s.sessionRequest
  opened : s'.opened = s.opened
  websocket : s'.websocket = s.websocket ∨ s'.websocket = none
  sent : ∀ c, said (s'.sent c) = said (s.sent c)

variable {s s' s'' : Client} {b : Said}

theorem Grows.refl (s : Client) : Grows s s := ⟨rfl, rfl, rfl, .inl rfl, fun _ => rfl⟩

theorem Grows.trans (h : Grows s s') (h' : Grows s' s'') : Grows s s'' := by
  refine ⟨h'.text.trans h.text, h'.request.trans h.request, h'.opened.trans h.opened, ?_,
    fun c => (h'.sent c).trans (h.sent c)⟩
  obtain hw | hw := h'.websocket
  · rw [hw]
    exact h.websocket
  · exact .inr hw

theorem Grows.connected (h : Grows s s') {c : ℕ} (hc : s'.websocket = some c) :
    s.websocket = some c := by
  obtain hw | hw := h.websocket
  · rw [← hw, hc]
  · rw [hw] at hc
    cases hc

theorem Told.grows (h : Told b s) (hg : Grows s s') : Told b s' where
  text := hg.text.trans h.text
  request r hr := hg.request.trans (h.request r hr)

theorem Fresh.grows (h : Fresh s) (hg : Grows s s') : Fresh s' where
  silent c hc := (hg.sent c).trans (h.silent c (hg.opened ▸ hc))
  opened c hc := hg.opened ▸ h.opened c (hg.connected hc)

theorem Agreed.grows (h : Agreed s) (hg : Grows s s') : Agreed s' where
  toFresh := h.toFresh.grows hg
  told c hc := by
    rw [hg.sent c]
    exact (h.told c (hg.connected hc)).grows hg

theorem Wrote.grows {e : ClientEvent} (h : Wrote e s) (hg : Grows s s') : Wrote e s' where
  toFresh := h.toFresh.grows hg
  wrote c hc := by
    obtain ⟨b, hb, hs⟩ := h.wrote c (hg.connected hc)
    exact ⟨b, hb.grows hg, (hg.sent c).trans hs⟩

/-- Without a connection there is nothing to agree on. -/
theorem Fresh.agreed (h : Fresh s) (hw : s.websocket = none) : Agreed s where
  toFresh := h
  told c hc := by
    rw [hw] at hc
    cases hc

theorem Fresh.disconnect (h : Fresh s) : Agreed { s with websocket := none } :=
  Fresh.agreed ⟨h.silent, by simp⟩ rfl

/-- An event is written on the connection that was there when the send began. -/
theorem Agreed.writes {c : ℕ} {e : ClientEvent} (h : Agreed s) (hw : s.websocket = some c)
    (hg : Grows s s') : Wrote e (s'.wrote c e) := by
  have hs' := h.grows hg
  have hlt : c < s'.opened := hg.opened ▸ h.opened c hw
  refine ⟨⟨fun d hd => ?_, hs'.opened⟩, fun d hd => ?_⟩
  · have hne : d ≠ c := by
      have hd : s'.opened ≤ d := hd
      omega
    simpa [Client.wrote, hne] using hs'.silent d hd
  · obtain rfl : c = d := Option.some.inj (hw.symm.trans (hg.connected hd))
    refine ⟨said (s'.sent c), ?_, by simp [Client.wrote]⟩
    have := hs'.told c hd
    exact ⟨this.text, this.request⟩

end Client

section Contract

/-- Where the worker is between two of its exchanges with the server. -/
def resting : Site → Bool
  | .idle | .unstarted _ | .reading _ _ | .yielded _ => true
  | _ => false

/-- Between a send and its record, and, while there is user text, between a commit or a new
connection and its record. -/
def unrecorded (s : Client) : Site → Bool
  | .written (.update _) | .written (.append _) | .written .clear => true
  | .written (.commit _) | .greeting _ => s.sessionText ≠ []
  | _ => false

/-- A cancellation does not come in between. -/
def Careful (v : ClientView) (t : Task) (i : Reply) : Prop :=
  t = .worker → i = .cancelled → unrecorded v.shared (v.site .worker) = false

instance (v : ClientView) (t : Task) (i : Reply) : Decidable (Careful v t i) :=
  inferInstanceAs (Decidable (t = .worker → i = .cancelled → _))

def agreeing : Contract Task Site Client Reply where
  inv v := Fresh v.shared ∧ (resting (v.site .worker) = true → Agreed v.shared)
  rely t v v' := t = .worker → Grows v.shared v'.shared
  allowed := Careful

variable {v : ClientView} {s s' : Client} {α : Type} {Q : α → ClientView → Client → Prop}

theorem stops_worker {l : Site} (h : Fresh s) (ha : resting l = true → Agreed s) :
    agreeing.Stops .worker l v s := by
  refine ⟨⟨h, fun hl => ha ?_⟩, fun u hu hw => absurd hw hu⟩
  rwa [View.stop_site_self] at hl

/-- What an exception leaves: only a cancellation leaves the connection open. -/
def Out : Exception → ClientView → Client → Prop
  | .error, _, s => Fresh s
  | .cancelled, _, s => Agreed s

/-- An await in the midst of an exchange. -/
theorem wp_awaited {Q : Unit → ClientView → Client → Prop}
    {E : Exception → ClientView → Client → Prop} {l : Site} (hl : resting l = false) (h : Fresh s)
    (hgo : ∀ v', Grows s v'.shared → Q () v' v'.shared)
    (herror : ∀ v', Grows s v'.shared → E .error v' v'.shared)
    (hcancel : ∀ v', Grows s v'.shared → v'.site .worker = l → Careful v' .worker .cancelled →
      E .cancelled v' v'.shared) :
    Wp agreeing .worker Q E (awaited l) v s := by
  unfold awaited
  rw [wp_bind, wp_pause]
  refine ⟨stops_worker h (by simp [hl]), fun v' i hr _ hsite ha => ?_⟩
  have hg : Grows s v'.shared := hr rfl
  split
  · exact hcancel v' hg hsite ha
  · exact herror v' hg
  · exact hgo v' hg

/-- A cancellation that is not in between leaves the event recorded. -/
theorem Wrote.agreed {e : ClientEvent} (h : Wrote e s) (he : Careful v .worker .cancelled)
    (hsite : v.site .worker = .written e) (hs : v.shared = s) : Agreed s where
  toFresh := h.toFresh
  told c hc := by
    obtain ⟨b, hb, hsaid⟩ := h.wrote c hc
    have hcareful := he rfl rfl
    rw [hsite, hs] at hcareful
    rw [hsaid]
    cases e with
    | update r => cases hcareful
    | append text => cases hcareful
    | clear => cases hcareful
    | commit r =>
      have hempty : s.sessionText = [] := by simpa [unrecorded] using hcareful
      exact ⟨hempty, hb.request⟩
    | _ => exact hb

/-- What the client makes of its record once event `e` is written. -/
theorem Wrote.record {e : ClientEvent} (h : Wrote e s) (hw : s'.websocket = s.websocket)
    (ho : s'.opened = s.opened) (hs : s'.sent = s.sent)
    (ht : ∀ b, Told b s → Told (b.step e) s') : Agreed s' where
  silent c hc := by
    rw [hs]
    exact h.silent c (ho ▸ hc)
  opened c hc := ho ▸ h.opened c (hw ▸ hc)
  told c hc := by
    obtain ⟨b, hb, hsaid⟩ := h.wrote c (hw ▸ hc)
    rw [hs, hsaid]
    exact ht b hb

theorem wp_send {e : ClientEvent} (h : Agreed s) :
    Wp agreeing .worker (fun _ _ s' => Wrote e s' ∧ s'.sessionText = s.sessionText) Out (send e)
      v s := by
  unfold send
  rw [wp_bind, wp_get]
  split
  · exact h.toFresh
  · rename_i c hw
    rw [wp_bind]
    refine wp_awaited rfl h.toFresh (fun v₁ hg => ?_) (fun v₁ hg => h.toFresh.grows hg)
      fun v₁ hg _ _ => h.grows hg
    have hwrote : Wrote e (v₁.shared.wrote c e) := h.writes hw hg
    rw [wp_bind, wp_modify]
    refine wp_awaited rfl hwrote.toFresh (fun v₂ hg₂ => ⟨hwrote.grows hg₂, ?_⟩)
      (fun v₂ hg₂ => hwrote.toFresh.grows hg₂) fun v₂ hg₂ hsite ha =>
        (hwrote.grows hg₂).agreed ha hsite rfl
    exact hg₂.text.trans hg.text

theorem wp_disconnect (h : Fresh s) :
    Wp agreeing .worker (fun _ _ s => Agreed s) (fun _ _ s => Agreed s) disconnect v s := by
  unfold disconnect
  rw [wp_bind, wp_get, wp_bind, wp_modify]
  split
  · exact h.disconnect
  · exact wp_awaited rfl h.disconnect.toFresh (fun v' hg => h.disconnect.grows hg)
      (fun v' hg => h.disconnect.grows hg) fun v' hg _ _ => h.disconnect.grows hg

end Contract

section Sync
variable {v : ClientView} {s : Client}

theorem wp_connect (h : Fresh s) (hw : s.websocket = none) :
    Wp agreeing .worker (fun _ _ s => Agreed s) Out connect v s := by
  unfold connect
  rw [wp_bind]
  refine wp_awaited rfl h (fun v₁ hg => ?_) (fun v₁ hg => h.grows hg) fun v₁ hg _ _ =>
    (h.agreed hw).grows hg
  rw [wp_bind, wp_get, wp_bind, wp_modify, wp_bind, wp_pause]
  have h₁ : Fresh v₁.shared := h.grows hg
  -- the new connection is open, and nothing has been said on it
  have hnew : Fresh { v₁.shared with
      websocket := some v₁.shared.opened, opened := v₁.shared.opened + 1 } := by
    refine ⟨fun c hc => h₁.silent c (Nat.le_of_succ_le hc), fun c hc => ?_⟩
    obtain rfl : v₁.shared.opened = c := Option.some.inj hc
    exact Nat.lt_succ_self _
  refine ⟨stops_worker hnew (by simp [resting]), fun v₂ i hr _ hsite ha => ?_⟩
  have hg₂ : Grows _ v₂.shared := hr rfl
  have h₂ : Fresh v₂.shared := hnew.grows hg₂
  have hsilent : ∀ c, v₂.shared.websocket = some c → said (v₂.shared.sent c) = {} := by
    intro c hc
    obtain rfl : v₁.shared.opened = c := Option.some.inj (hg₂.connected hc)
    exact (hg₂.sent _).trans (h₁.silent _ (Nat.le_refl _))
  split
  · rw [wp_bind, wp_modify, wp_modify]
    refine ⟨⟨h₂.silent, h₂.opened⟩, fun c hc => ?_⟩
    change Told (said (v₂.shared.sent c)) _
    rw [hsilent c hc]
    exact ⟨rfl, by simp⟩
  · have hempty : v₂.shared.sessionText = [] := by
      have := ha rfl rfl
      simpa [hsite, unrecorded] using this
    refine ⟨h₂, fun c hc => ?_⟩
    rw [hsilent c hc]
    exact ⟨hempty, by simp⟩
  · exact h₂

theorem wp_ensureConnected (h : Agreed s) :
    Wp agreeing .worker (fun _ _ s => Agreed s) Out ensureConnected v s := by
  unfold ensureConnected
  rw [wp_bind, wp_get]
  split
  · rename_i hw
    exact wp_connect h.toFresh hw
  · exact h

theorem wp_syncRequest {request : SessionRequest} (h : Agreed s) :
    Wp agreeing .worker (fun _ _ s => Agreed s) Out (syncRequest request) v s := by
  unfold syncRequest
  rw [wp_bind, wp_get]
  split
  · exact h
  · rw [wp_bind]
    refine wp_mono (fun _ v' s' hs => ?_) (fun _ _ _ he => he) (wp_send h)
    rw [wp_modify]
    exact hs.1.record rfl rfl rfl fun b hb => ⟨hb.text, fun r hr => hr⟩

theorem wp_clearStale {text : Text} (h : Agreed s) :
    Wp agreeing .worker (fun _ _ s => Agreed s ∧ s.sessionText <+: text) Out (clearStale text)
      v s := by
  unfold clearStale
  rw [wp_bind, wp_get]
  split
  · rename_i hpre
    exact ⟨h, hpre⟩
  · rw [wp_bind]
    refine wp_mono (fun _ v' s' hs => ?_) (fun _ _ _ he => he) (wp_send h)
    rw [wp_modify]
    exact ⟨hs.1.record rfl rfl rfl fun b hb => ⟨rfl, hb.request⟩, List.nil_prefix⟩

theorem wp_appendRest {text : Text} (h : Agreed s) (hpre : s.sessionText <+: text) :
    Wp agreeing .worker (fun _ _ s => Agreed s) Out (appendRest text) v s := by
  unfold appendRest
  rw [wp_bind, wp_get]
  split
  · exact h
  · rw [wp_bind]
    refine wp_mono (fun _ v' s' hs => ?_) (fun _ _ _ he => he) (wp_send h)
    rw [wp_modify]
    obtain ⟨hs, htext⟩ := hs
    refine hs.record rfl rfl rfl fun b hb => ⟨?_, hb.request⟩
    change text = b.text ++ text.drop s.sessionText.length
    rw [← hb.text, htext]
    exact (List.prefix_iff_eq_append.mp hpre).symm

theorem wp_syncSession {request : SessionRequest} {text : Text} (h : Agreed s) :
    Wp agreeing .worker (fun _ _ s => Agreed s) Out (syncSession request text) v s := by
  unfold syncSession
  rw [wp_bind]
  refine wp_mono (fun _ v₁ s₁ h₁ => ?_) (fun _ _ _ he => he) (wp_ensureConnected h)
  rw [wp_bind]
  refine wp_mono (fun _ v₂ s₂ h₂ => ?_) (fun _ _ _ he => he) (wp_syncRequest h₁)
  rw [wp_bind]
  refine wp_mono (fun _ v₃ s₃ h₃ => ?_) (fun _ _ _ he => he) (wp_clearStale h₂)
  exact wp_appendRest h₃.1 h₃.2

variable {α : Type} {Q : α → ClientView → Client → Prop}

/-- A failed exchange closes the connection, and a cancelled one leaves it agreed. -/
theorem wp_orDisconnect {exchange after : Prog α} (hx : Wp agreeing .worker Q Out exchange v s)
    (hafter : ∀ v s, Agreed s → Wp agreeing .worker Q (fun _ _ s => Agreed s) after v s) :
    Wp agreeing .worker Q (fun _ _ s => Agreed s) (orDisconnect exchange after) v s := by
  unfold orDisconnect
  rw [wp_handle]
  refine wp_mono (fun _ _ _ h => h) (fun e v' s' he => ?_) hx
  cases e with
  | cancelled => exact he
  | error =>
    rw [wp_bind]
    exact wp_mono (fun _ v'' s'' h => hafter v'' s'' h) (fun _ _ _ h => h) (wp_disconnect he)

theorem wp_processFrame {request : SessionRequest} {text : Text} (h : Agreed s) :
    Wp agreeing .worker (fun _ _ s => Agreed s) (fun _ _ s => Agreed s)
      (processFrame request text) v s :=
  wp_orDisconnect (wp_syncSession h) fun _ _ h => h

theorem wp_getChatCompletions {request : SessionRequest} (h : Agreed s) :
    Wp agreeing .worker (fun _ _ s => Agreed s) (fun _ _ s => Agreed s)
      (getChatCompletions request) v s := by
  unfold getChatCompletions
  rw [wp_bind, wp_modifyGet, wp_bind]
  have hnamed : Agreed { s with named := s.named + 1 } :=
    h.grows ⟨rfl, rfl, rfl, .inl rfl, fun _ => rfl⟩
  refine wp_mono (fun _ v' s' (hs : Wrote (.commit (some (.named s.named))) s') => ?_)
    (fun _ _ _ h => h) (wp_orDisconnect ?_ fun _ _ h => h)
  · rw [wp_bind, wp_modify, wp_pure]
    exact hs.record rfl rfl rfl fun b hb => ⟨rfl, hb.request⟩
  · rw [wp_bind]
    refine wp_mono (fun _ v₁ s₁ h₁ => ?_) (fun _ _ _ he => he) (wp_syncSession hnamed)
    exact wp_mono (fun _ _ _ hs => hs.1) (fun _ _ _ he => he) (wp_send h₁)

theorem wp_closeResponse {r : ℕ} (h : Agreed s) :
    Wp agreeing .worker (fun _ _ s => Agreed s) (fun _ _ s => Agreed s) (closeResponse r) v s := by
  unfold closeResponse
  rw [wp_bind, wp_get]
  split
  · exact h
  · refine wp_orDisconnect ?_ fun _ _ h => h
    exact wp_mono (fun _ _ _ hs => hs.1.record rfl rfl rfl fun _ hb => hb) (fun _ _ _ he => he)
      (wp_send h)

end Sync

section Closers

theorem grows_wrote_cancel (s : Client) (c : ℕ) (response : Option ResponseId) :
    Grows s (s.wrote c (.cancel response)) := by
  refine ⟨rfl, rfl, rfl, .inl rfl, fun d => ?_⟩
  by_cases hd : d = c
  · subst d
    simp [Client.wrote, Said.step]
  · simp [Client.wrote, hd]

theorem closes_grows : Closes (fun _ _ => Grows) where
  wrote _ s c response _ := grows_wrote_cancel s c response
  disconnects _ _ _ := ⟨rfl, rfl, rfl, .inr rfl, fun _ => rfl⟩
  abandons _ _ _ _ := ⟨rfl, rfl, rfl, .inl rfl, fun _ => rfl⟩

end Closers

section Turns
variable {v : ClientView} {s : Client}

theorem wp_closerTurn (r : ℕ) (reply : Reply) (hi : agreeing.inv v) :
    Wp agreeing (.closer r) (fun _ v s => ∀ l, agreeing.Stops (.closer r) l v s)
      (fun _ v s => ∀ l, agreeing.Stops (.closer r) l v s) (closerTurn r reply) v v.shared := by
  let J : ClientView → Client → Prop := fun v s =>
    Grows v.shared s ∧ Fresh s ∧ (resting (v.site .worker) = true → Agreed s)
  have hstop : ∀ l v s, J v s → agreeing.Stops (.closer r) l v s := by
    rintro l v s ⟨hg, hf, ha⟩
    refine ⟨⟨hf, fun hw => ha ?_⟩, fun u _ hu => hg⟩
    have hne : Task.worker ≠ .closer r := by simp
    rwa [View.stop_site_of_ne v hne] at hw
  have hJ : Wp agreeing (.closer r) (fun _ => J) (fun _ => J) (closerTurn r reply) v v.shared := by
    have hlegs := (closes_grows.closerTurn r reply).leg .waiting reply v.shared
    refine wp_of_within hstop ?_ ?_ (leg_within.mp hlegs) ⟨.refl _, hi⟩
    · rintro v s s' ⟨hg, hf, ha⟩ hs
      exact ⟨hg.trans hs, hf.grows hs, fun hw => (ha hw).grows hs⟩
    · exact fun v hi => ⟨.refl _, hi⟩
  exact wp_mono (fun _ v s h l => hstop l v s h) (fun _ v s h l => hstop l v s h) hJ

theorem wp_nextEvent {r : ℕ} (h : Agreed s) :
    Wp agreeing .worker (fun b v s => Ends agreeing streamingClient .worker b v s)
      (fun e v s => Ends agreeing streamingClient .worker (streamingClient.crash .worker e) v s)
      (nextEvent r) v s := by
  unfold nextEvent
  rw [wp_bind, wp_get]
  split <;> exact stops_worker h.toFresh fun _ => h

theorem wp_readEvent {r c : ℕ} {event : ServerEvent} (h : Agreed s) :
    Wp agreeing .worker (fun b v s => Ends agreeing streamingClient .worker b v s)
      (fun e v s => Ends agreeing streamingClient .worker (streamingClient.crash .worker e) v s)
      (readEvent r c event) v s := by
  have hrest : ∀ {v' : ClientView} {s' : Client}, Agreed s' →
      Ends agreeing streamingClient .worker .idle v' s' :=
    fun h => stops_worker h.toFresh fun _ => h
  have hread : Agreed (s.reads c event) := h.grows ⟨rfl, rfl, rfl, .inl rfl, fun _ => rfl⟩
  unfold readEvent
  rw [wp_bind, wp_modify]
  split
  · rw [wp_bind, wp_modify, wp_bind]
    refine wp_mono (fun _ _ _ hs => hrest hs) (fun _ _ _ hs => hrest hs) (wp_closeResponse ?_)
    exact hread.grows ⟨rfl, rfl, rfl, .inl rfl, fun _ => rfl⟩
  · split
    · rename_i r' chunk _
      rw [wp_bind, wp_modify]
      have hyield : Agreed ((s.reads c (.delta r' chunk)).yields r chunk) :=
        hread.grows ⟨rfl, rfl, rfl, .inl rfl, fun _ => rfl⟩
      exact stops_worker hyield.toFresh fun _ => hyield
    · exact wp_nextEvent hread
  · split
    · rw [wp_bind, wp_modify]
      exact hrest (hread.grows ⟨rfl, rfl, rfl, .inl rfl, fun _ => rfl⟩)
    · exact wp_nextEvent hread
  · exact wp_nextEvent hread

theorem wp_workerTurn {loop : Loop} {reply : Reply} (hi : agreeing.inv v)
    (hl : v.site .worker = streamingClient.head .worker loop) :
    Wp agreeing .worker (fun b v s => Ends agreeing streamingClient .worker b v s)
      (fun e v s => Ends agreeing streamingClient .worker (streamingClient.crash .worker e) v s)
      (workerTurn loop reply) v v.shared := by
  obtain ⟨hf, ha⟩ := hi
  rw [hl] at ha
  have hrest : ∀ {b : Loop} {v' : ClientView} {s' : Client}, Agreed s' →
      Ends agreeing streamingClient .worker b v' s' :=
    fun h => stops_worker h.toFresh fun _ => h
  unfold workerTurn
  split
  · rw [wp_bind]
    exact wp_mono (fun _ _ _ h => hrest h) (fun _ _ _ h => hrest h) (wp_processFrame (ha rfl))
  · rw [wp_bind]
    exact wp_mono (fun _ _ _ h => hrest h) (fun _ _ _ h => hrest h)
      (wp_getChatCompletions (ha rfl))
  · rw [wp_bind]
    exact wp_mono (fun _ _ _ h => hrest h) (fun _ _ _ h => hrest h) (wp_disconnect hf)
  · exact wp_nextEvent (ha rfl)
  · exact hrest (ha rfl)
  · exact wp_readEvent (ha rfl)
  · rw [wp_bind]
    exact wp_mono (fun _ _ _ h => hrest h) (fun _ _ _ h => hrest h) (wp_closeResponse (ha rfl))
  · exact wp_nextEvent (ha rfl)
  · rw [wp_bind]
    exact wp_mono (fun _ _ _ h => hrest h) (fun _ _ _ h => hrest h) (wp_closeResponse (ha rfl))
  · rw [wp_bind, wp_modify]
    exact hrest ((ha rfl).grows ⟨rfl, rfl, rfl, .inl rfl, fun _ => rfl⟩)
  · exact stops_worker hf ha

theorem keeps : Keeps agreeing streamingClient closedWorld where
  refl _ _ _ := .refl _
  trans _ _ _ _ h h' ht := (h ht).trans (h' ht)
  outside _ _ _ h := h.elim
  body t loop reply v hi hl ha := by
    cases t with
    | worker => exact wp_workerTurn hi hl
    | closer r =>
      exact wp_mono (fun _ _ _ h => h _) (fun _ _ _ h => h _) (wp_closerTurn r reply hi)

theorem agreed_reach {p : ClientPool} (h : streamingClient.Reach Careful closedWorld freshClient p)
    (hrest : resting (p.view.site .worker) = true) : Agreed p.shared := by
  have hfresh : Agreed {} := ⟨⟨fun _ _ => rfl, by simp⟩, by simp⟩
  exact (keeps.invariant (C := agreeing) ⟨hfresh.toFresh, fun _ => hfresh⟩ h).2 hrest

end Turns

section Link
variable (vllm : Vllm)

/-- The client, and the session at the other end of each connection. -/
structure Link where
  client : ClientPool
  session : ℕ → SessionPool

def freshLink : Link := ⟨freshClient, fun _ => freshSession vllm⟩

/-- A turn of a task at one of the ends. -/
inductive Act
  | client (t : StreamingClient.Task) (i : StreamingClient.Reply)
  | session (connection : ℕ) (t : StreamingSession.Task) (i : StreamingSession.Reply)

/-- The connection that a task of the client reads from. -/
def connectionOf : StreamingClient.Site → Option ℕ
  | .greeting c | .reading _ c => some c
  | _ => none

def messageOf : StreamingClient.Reply → Option ServerEvent
  | .message event => some event
  | _ => none

def eventOf : StreamingSession.Reply → Option ClientEvent
  | .receive event => some event
  | _ => none

namespace Link

def apply (p : Link) : Act → Link
  | .client t i => { p with client := streamingClient.resume p.client t i }
  | .session c t i =>
    { p with session :=
        Function.update p.session c ((streamingSession vllm).resume (p.session c) t i) }

/-- A websocket delivers in order what the other end has written. -/
def Open (p : Link) : Act → Prop
  | .client t i => ∀ c ∈ connectionOf (p.client.view.site t), ∀ event ∈ messageOf i,
    p.client.shared.received c ++ [event] <+: (p.session c).shared.sent
  | .session c t i => anyTurn (p.session c).view t i ∧ ∀ event ∈ eventOf i,
    (p.session c).shared.received ++ [event] <+: p.client.shared.sent c

/-- Neither is the client cancelled before a record, nor does a commit fail on the server. -/
def Recorded (p : Link) : Act → Prop
  | .client t i => Careful p.client.view t i
  | .session c t i => CommitsServed vllm (p.session c).view t i

inductive Step (cond : Link → Act → Prop) : Link → Link → Prop
  | act (p : Link) (a : Act) (ho : p.Open a) (hc : cond p a) : Step cond p (p.apply vllm a)

def Reach (cond : Link → Act → Prop) (p q : Link) : Prop :=
  Relation.ReflTransGen (Step vllm cond) p q

def play (p : Link) : List Act → Link
  | [] => p
  | a :: rest => play (p.apply vllm a) rest

def Playable (cond : Link → Act → Prop) (p : Link) : List Act → Prop
  | [] => True
  | a :: rest => p.Open a ∧ cond p a ∧ Playable cond (p.apply vllm a) rest

/-- While the client rests and all that it has sent is handled, the ends agree. -/
def Agrees (p : Link) : Prop :=
  ∀ c, p.client.shared.websocket = some c → resting (p.client.view.site .worker) = true →
    (p.session c).view.site .serve = .receiving →
    (p.session c).shared.received = p.client.shared.sent c →
    (p.session c).shared.text = p.client.shared.sessionText ∧
      ((∃ r, .update r ∈ p.client.shared.sent c) →
        p.client.shared.sessionRequest = some (p.session c).shared.request)

variable {vllm} {cond : Link → Act → Prop}

theorem reach_play {p : Link} {script : List Act} (h : Playable vllm cond p script) :
    Reach vllm cond p (play vllm p script) := by
  induction script generalizing p with
  | nil => exact .refl
  | cons a rest ih => exact .head (.act p a h.1 h.2.1) (ih h.2.2)

instance decidableOpen (p : Link) : (a : Act) → Decidable (p.Open a)
  | .client _ _ => inferInstanceAs (Decidable (∀ _ ∈ _, ∀ _ ∈ _, _))
  | .session _ _ _ => inferInstanceAs (Decidable (_ ∧ ∀ _ ∈ _, _))

/-- What a commit asks of the server, where its text is not empty. -/
def servesCommit (vllm : Vllm) (v : StreamingSession.SessionView) (t : StreamingSession.Task)
    (i : StreamingSession.Reply) : Bool :=
  match v.site t, i with
  | .receiving, .receive (.commit _) =>
    (vllm.invalid (chatRequest v.shared.request v.shared.text true)).isNone
  | .rendering (.commit _) request, .rendered _ tokens =>
    (vllm.answerParams request tokens.length).isOk
  | .rendering (.commit _) _, _ => false
  | _, _ => true

theorem served_iff (v : StreamingSession.SessionView) (t : StreamingSession.Task)
    (i : StreamingSession.Reply) :
    (v.shared.text ≠ [] → servesCommit vllm v t i = true) ↔ CommitsServed vllm v t i := by
  unfold CommitsServed servesCommit
  refine imp_congr_right fun _ => ?_
  generalize v.site t = site
  cases site with
  | receiving =>
    cases i with
    | receive event => cases event <;> simp
    | _ => simp
  | rendering purpose _ =>
    cases purpose with
    | commit => cases i <;> simp
    | _ => simp
  | _ => simp

instance decidableServed (v : StreamingSession.SessionView) (t : StreamingSession.Task)
    (i : StreamingSession.Reply) : Decidable (CommitsServed vllm v t i) :=
  decidable_of_iff _ (served_iff v t i)

instance decidableRecorded (p : Link) : (a : Act) → Decidable (Recorded vllm p a)
  | .client _ _ => inferInstanceAs (Decidable (Careful _ _ _))
  | .session _ _ _ => inferInstanceAs (Decidable (CommitsServed _ _ _ _))

instance decidablePlayable [∀ p a, Decidable (cond p a)] :
    ∀ (script : List Act) (p : Link), Decidable (Playable vllm cond p script)
  | [], _ => .isTrue trivial
  | a :: rest, p =>
    have := decidablePlayable rest (p.apply vllm a)
    inferInstanceAs (Decidable (_ ∧ _ ∧ _))

end Link

variable {vllm}

open Link

/-- A run of the link is a run of each of its ends. -/
theorem reach_ends {p : Link} (h : Reach vllm (Recorded vllm) (freshLink vllm) p) :
    streamingClient.Reach Careful closedWorld freshClient p.client ∧
    ∀ c, (streamingSession vllm).Reach (sessionContract vllm False True).allowed
      StreamingSession.closedWorld (freshSession vllm) (p.session c) := by
  induction h with
  | refl => exact ⟨.refl, fun _ => .refl⟩
  | @tail q _ _ hs ih =>
    obtain ⟨hclient, hsession⟩ := ih
    cases hs with
    | act a ho hc =>
    cases a with
    | client t i => exact ⟨hclient.tail (.turn _ t i hc), hsession⟩
    | session c t i =>
      refine ⟨hclient, fun d => ?_⟩
      by_cases hd : d = c
      · subst d
        simp only [Link.apply, Function.update_self]
        exact (hsession c).tail (.turn _ t i ⟨ho.1, False.elim, fun _ => hc⟩)
      · simp only [Link.apply, Function.update_of_ne hd]
        exact hsession d

/-- The two ends of a session websocket agree, in every run in which no cancellation comes
before a record and no commit of user text fails. -/
theorem ends_agree {p : Link} (h : Reach vllm (Recorded vllm) (freshLink vllm) p) : p.Agrees := by
  obtain ⟨hclient, hsession⟩ := reach_ends h
  intro c hw hrest hsite hall
  have hagreed : Agreed p.client.shared := agreed_reach hclient hrest
  have htold := hagreed.told c hw
  have hsync : (p.session c).shared.buffer = replay (p.session c).shared.received :=
    (inv_reach (hsession c)).synced trivial hsite
  rw [hall, replay_said] at hsync
  obtain ⟨htext, hrequest⟩ := StreamingEvents.Buffer.mk.inj hsync
  refine ⟨htext.trans htold.text.symm, ?_⟩
  rintro ⟨r, hr⟩
  obtain ⟨u, hu⟩ := Option.ne_none_iff_exists'.mp (said_request hr)
  rw [htold.request u hu, hrequest, hu]
  rfl

/-- The worker opens a connection for its first exchange, and the session greets it. -/
def greeted (first : StreamingClient.Reply) : List Act :=
  [.client .worker first, .client .worker .go] ++
    List.replicate 3 (.session 0 .serve .go) ++ [.client .worker (.message .created)]

/-- A send of the worker. -/
def sends : List Act := List.replicate 2 (.client .worker .go)

def typed : List Act :=
  greeted (.prefill {} ['a']) ++ sends ++ sends ++
    [.session 0 .serve (.receive (.update {})), .session 0 .serve (.receive (.append ['a']))]

theorem ends_agree_typed :
    (play Vllm.accepting (freshLink Vllm.accepting) typed).client.shared.sessionText = ['a'] ∧
    ((play Vllm.accepting (freshLink Vllm.accepting) typed).session 0).shared.text =
      (play Vllm.accepting (freshLink Vllm.accepting) typed).client.shared.sessionText := by
  have hplay : Playable Vllm.accepting (Recorded Vllm.accepting) (freshLink Vllm.accepting)
      typed := by
    decide +kernel
  refine ⟨by decide +kernel, (ends_agree (reach_play hplay) 0 ?_ ?_ ?_ ?_).1⟩
  · decide +kernel
  · decide +kernel
  · decide +kernel
  · decide +kernel

def refused : List Act :=
  greeted (.commit { messages := some [{ role := .user, content := some ['a'] }] }) ++
    sends ++ sends ++ sends ++
    [.session 0 .serve (.receive (.update { messages := some [] })),
      .session 0 .serve (.receive (.append ['a'])),
      .session 0 .serve (.receive (.commit (some (.named 0)))),
      .session 0 .serve (.failed "the request is too long")] ++
    List.replicate 2 (.session 0 .serve .go)

/-- The server cannot render a commit, and keeps the user text that the client has dropped. -/
theorem refused_commit_disagrees :
    ∃ p, Reach Vllm.accepting (fun _ _ => True) (freshLink Vllm.accepting) p ∧
      p.client.shared.websocket = some 0 ∧ p.client.view.site .worker = .unstarted 0 ∧
      (p.session 0).view.site .serve = .receiving ∧
      (p.session 0).shared.received = p.client.shared.sent 0 ∧
      (p.session 0).shared.text = ['a'] ∧ p.client.shared.sessionText = [] ∧ ¬ p.Agrees := by
  have hplay : Playable Vllm.accepting (fun _ _ => True) (freshLink Vllm.accepting) refused := by
    decide +kernel
  refine ⟨_, reach_play hplay, by decide +kernel, by decide +kernel, by decide +kernel,
    by decide +kernel, by decide +kernel, by decide +kernel, fun h => ?_⟩
  obtain ⟨htext, -⟩ := h 0 (by decide +kernel) (by decide +kernel) (by decide +kernel)
    (by decide +kernel)
  revert htext
  decide +kernel

end Link

end VoiceAgent.StreamingAgreement
