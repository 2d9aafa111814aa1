import VoiceAgent.OmniTurns

/-!
Out-of-band inferences beside the turns of the Omni service. A call hides the active parts
and puts back what it found. Where calls end in the turn in which they began, the latest
first, and a turn builds its request when none of its calls is out, every request carries
the parts of its own turn and a call leaves no trace.
-/
namespace VoiceAgent.OutOfBand

open Coroutine Interleaving OmniService ScopedSlot

/-- A stopped turn that has set its parts and has yet to clear them. -/
def InProgress : Site → Bool
  | .opening | .metering | .processing | .reporting => true
  | _ => false

/-- The parts that a request carries for `p`. -/
def rendered (p : Option (List Part)) : Option (List OmniPart) :=
  (buildChatCompletionParams p []).turnParts

/-- Turn `k` sets its parts when no other turn is in progress, unless neither has parts. -/
def turnsApart (v : OmniView) (k : ℕ) : Prop :=
  ∀ turn ∈ v.shared.turns[k]?, v.shared.cancelRequested k = false →
    (∃ j < v.shared.turns.length, j ≠ k ∧ InProgress (v.site (.turn j))) →
      (scopes v.shared.events).current = none ∧ v.shared.partsOf turn = none

instance (v : OmniView) (k : ℕ) : Decidable (turnsApart v k) :=
  inferInstanceAs (Decidable (∀ turn ∈ _, _ → (∃ j < _, _) → _))

/-- A turn builds its request when no call that began under its parts is out. -/
def noneHides (v : OmniView) : Reply → Prop
  | .build => (scopes v.shared.events).inner = []
  | _ => True

instance (v : OmniView) (i : Reply) : Decidable (noneHides v i) :=
  match i with
  | .build => inferInstanceAs (Decidable (_ = _))
  | .go | .failed | .cancelled | .frame _ | .infer _ _ | .heard _ | .finish => isTrue trivial

/-- The condition on a step of a turn or of an out-of-band call. -/
def isolated (v : OmniView) (t : Task) (i : Reply) : Prop := match t with
  | .turn k => (v.site (.turn k) = .queued → turnsApart v k) ∧
      (v.site (.turn k) = .processing → noneHides v i)
  | .call n => v.site (.call n) = .inferring → (scopes v.shared.events).MayEnd n
  | .handler _ => True

instance (v : OmniView) (t : Task) (i : Reply) : Decidable (isolated v t i) :=
  match t with
  | .turn _ => inferInstanceAs (Decidable (_ ∧ _))
  | .call _ => inferInstanceAs (Decidable (_ → (_ ∨ _)))
  | .handler _ => isTrue trivial

structure Inv (site : Task → Site) (s : Service) : Prop where
  slot : s.activeTurnParts = (replay s.events).active
  orderly : Orderly s.events
  progress : ∀ k, InProgress (site (.turn k)) → ∃ p, .set k p ∈ s.events ∧
    (scopes s.events).current = p.map fun a => (k, a)
  queued : ∀ k p, site (.turn k) = .queued → .set k p ∉ s.events
  once : ∀ k p q, .set k p ∈ s.events → .set k q ∈ s.events → p = q
  own : ∀ k p, .set k p ∈ s.events → ∃ turn, s.turns[k]? = some turn ∧
    ∀ a l, turn.spoken = some (a :: l) → p = some (a :: l)
  unasked : ∀ n, site (.call n) = .unasked → .hide n ∉ s.events
  ended : ∀ n ∈ s.ended, .hide n ∈ s.events ∧ n ∉ (scopes s.events).inner
  built : ∀ k r, (.turn k, r) ∈ s.requests → ∃ p, .set k p ∈ s.events ∧
    r.turnParts = rendered p
  apart : ∀ n r, (.call n, r) ∈ s.requests → r.turnParts = none

/-- What a stopped call relies on: nobody else touches the parts it has saved. -/
def SavedKept (t : Task) (v v' : OmniView) : Prop :=
  ∀ n, t = .call n → (replay v'.shared.events).saved n = (replay v.shared.events).saved n

def isolation : Contract Task Site Service Reply where
  inv v := Inv v.site v.shared
  rely t v v' := SavedKept t v v'
  allowed v t i := isolated v t i

section Moves
variable {site : Task → Site} {s s' : Service} {k n : ℕ} {l l' : Site}

/-- A change of what the invariant does not look at; turns may be created. -/
theorem Inv.same (h : Inv site s) (ha : s'.activeTurnParts = s.activeTurnParts)
    (he : s'.events = s.events) (hr : s'.requests = s.requests) (hd : s'.ended = s.ended)
    (ht : ∃ more, s'.turns = s.turns ++ more) : Inv site s' := by
  obtain ⟨more, ht⟩ := ht
  refine ⟨by rw [ha, he, h.slot], by rw [he]; exact h.orderly, by rw [he]; exact h.progress,
    by rw [he]; exact h.queued, by rw [he]; exact h.once, ?_, by rw [he]; exact h.unasked,
    by rw [hd, he]; exact h.ended, by rw [hr, he]; exact h.built, by rw [hr]; exact h.apart⟩
  intro j p hp
  rw [he] at hp
  obtain ⟨turn, hturn, hspoken⟩ := h.own j p hp
  refine ⟨turn, ?_, hspoken⟩
  obtain ⟨hlt, -⟩ := List.getElem?_eq_some_iff.mp hturn
  rw [ht, List.getElem?_append_left hlt]
  exact hturn

/-- A task stands where it stands. -/
theorem Inv.at (h : Inv site s) {t : Task} (hl : site t = l) :
    Inv (Function.update site t l) s := by
  rw [← hl, Function.update_eq_self]
  exact h

theorem Inv.handlerMoves (h : Inv site s) (system : Bool) :
    Inv (Function.update site (.handler system) l) s where
  __ := h
  progress j hj := h.progress j (by simpa using hj)
  queued j p hj := h.queued j p (by simpa using hj)
  unasked j hj := h.unasked j (by simpa using hj)

/-- A turn moves on, within its progress or out of it. -/
theorem Inv.turnMoves (h : Inv (Function.update site (.turn k) l) s)
    (hp : InProgress l' → InProgress l) (hq : l' = .queued → l = .queued) :
    Inv (Function.update site (.turn k) l') s where
  __ := h
  progress j hj := by
    by_cases hjk : j = k
    · subst j
      exact h.progress k (by simpa using hp (by simpa using hj))
    · exact h.progress j (by simpa [hjk] using hj)
  queued j p hj := by
    by_cases hjk : j = k
    · subst j
      exact h.queued k p (by simpa using hq (by simpa using hj))
    · exact h.queued j p (by simpa [hjk] using hj)
  unasked j hj := h.unasked j (by simpa using hj)

/-- A call that has been asked moves on. -/
theorem Inv.callMoves (h : Inv (Function.update site (.call n) l) s)
    (hl : l' = .unasked → l = .unasked) : Inv (Function.update site (.call n) l') s where
  __ := h
  progress j hj := h.progress j (by simpa using hj)
  queued j p hj := h.queued j p (by simpa using hj)
  unasked j hj := by
    by_cases hjn : j = n
    · subst j
      exact h.unasked n (by simpa using hl (by simpa using hj))
    · exact h.unasked j (by simpa [hjn] using hj)

theorem mem_of_snoc {es : List SlotEvent} {e e' : SlotEvent} (h : e ∈ es ++ [e']) (hne : e ≠ e') :
    e ∈ es := by
  rcases List.mem_append.mp h with h | h
  · exact h
  · exact absurd (List.mem_singleton.mp h) hne

theorem Inv.created (h : Inv site s) {p : Option (List Part)} (hp : .set k p ∈ s.events) :
    k < s.turns.length := by
  obtain ⟨turn, hturn, -⟩ := h.own k p hp
  exact (List.getElem?_eq_some_iff.mp hturn).1

/-- A turn sets its parts. -/
theorem Inv.activate (h : Inv (Function.update site (.turn k) .queued) s) {turn : Turn}
    (hturn : s.turns[k]? = some turn)
    (hapart : (∃ j < s.turns.length, j ≠ k ∧ InProgress (site (.turn j))) →
      (scopes s.events).current = none ∧ s.partsOf turn = none) :
    Inv (Function.update site (.turn k) .opening) (s.activate k turn) where
  slot := by simp [Service.activate, Slot.apply]
  orderly := h.orderly.snoc _ trivial
  progress j hj := by
    by_cases hjk : j = k
    · subst j
      exact ⟨s.partsOf turn, by simp [Service.activate],
        by simp [Service.activate, Scopes.apply]⟩
    · have hj' : InProgress (site (.turn j)) := by simpa [hjk] using hj
      obtain ⟨p, hp, hcurrent⟩ := h.progress j (by simpa [hjk] using hj')
      obtain ⟨hnone, hparts⟩ := hapart ⟨j, h.created hp, hjk, hj'⟩
      refine ⟨p, List.mem_append_left _ hp, ?_⟩
      simp only [Service.activate, scopes_snoc, Scopes.apply, hparts]
      rw [← hcurrent, hnone]
      rfl
  queued j p hj hmem := by
    have hjk : j ≠ k := by
      rintro rfl
      simp at hj
    refine h.queued j p (by simpa [hjk] using hj) (mem_of_snoc hmem ?_)
    simp [hjk]
  once j p q hp hq := by
    by_cases hjk : j = k
    · subst j
      have hnew : ∀ r, .set k r ∈ s.events ++ [.set k (s.partsOf turn)] →
          r = s.partsOf turn := by
        intro r hr
        rcases List.mem_append.mp hr with hr | hr
        · exact absurd hr (h.queued k r (by simp))
        · simpa using hr
      rw [hnew p hp, hnew q hq]
    · exact h.once j p q (mem_of_snoc hp (by simp [hjk])) (mem_of_snoc hq (by simp [hjk]))
  own j p hp := by
    rcases List.mem_append.mp hp with hp | hp
    · exact h.own j p hp
    · obtain ⟨rfl, rfl⟩ : j = k ∧ p = s.partsOf turn := by simpa using hp
      exact ⟨turn, hturn, fun a l hspoken => by simp [Service.partsOf, hspoken]⟩
  unasked n hn hmem := h.unasked n (by simpa using hn) (mem_of_snoc hmem (by simp))
  ended n hn := ⟨List.mem_append_left _ (h.ended n hn).1,
    by simp [Service.activate, Scopes.apply]⟩
  built j r hr := by
    obtain ⟨p, hp, hrp⟩ := h.built j r hr
    exact ⟨p, List.mem_append_left _ hp, hrp⟩
  apart := h.apart

/-- A turn clears the active parts. -/
theorem Inv.close (h : Inv (Function.update site (.turn k) l) s) (hl : InProgress l) :
    Inv (Function.update site (.turn k) .closing)
      { s with
        activeTurnParts := none
        transcriptExtractor := false
        events := s.events ++ [.clear k] } where
  slot := by simp [Slot.apply]
  orderly := h.orderly.snoc _ trivial
  progress j hj := by
    have hjk : j ≠ k := by
      rintro rfl
      simp [InProgress] at hj
    obtain ⟨p, hp, hcurrent⟩ := h.progress j (by simpa [hjk] using hj)
    obtain ⟨q, -, hcurrent'⟩ := h.progress k (by simpa using hl)
    have hnone : p = none := by
      rw [hcurrent] at hcurrent'
      cases p with
      | none => rfl
      | some a => cases q <;> simp [hjk] at hcurrent'
    refine ⟨p, List.mem_append_left _ hp, ?_⟩
    simp [Scopes.apply, hnone]
  queued j p hj hmem := by
    have hjk : j ≠ k := by
      rintro rfl
      simp at hj
    exact h.queued j p (by simpa [hjk] using hj) (mem_of_snoc hmem (by simp))
  once j p q hp hq := h.once j p q (mem_of_snoc hp (by simp)) (mem_of_snoc hq (by simp))
  own j p hp := h.own j p (mem_of_snoc hp (by simp))
  unasked n hn hmem := h.unasked n (by simpa using hn) (mem_of_snoc hmem (by simp))
  ended n hn := ⟨List.mem_append_left _ (h.ended n hn).1, by simp [Scopes.apply]⟩
  built j r hr := by
    obtain ⟨p, hp, hrp⟩ := h.built j r hr
    exact ⟨p, List.mem_append_left _ hp, hrp⟩
  apart := h.apart

/-- A turn builds a request with its own parts. -/
theorem Inv.build (h : Inv site s) (hk : InProgress (site (.turn k)))
    (hin : (scopes s.events).inner = []) (messages : Context) :
    Inv site { s with
      requests := s.requests ++
        [(.turn k, buildChatCompletionParams s.activeTurnParts messages)] } where
  __ := h
  built j r hr := by
    rcases List.mem_append.mp hr with hr | hr
    · exact h.built j r hr
    · obtain ⟨rfl, rfl⟩ : j = k ∧ r = buildChatCompletionParams s.activeTurnParts messages := by
        simpa using hr
      obtain ⟨p, hp, hcurrent⟩ := h.progress j hk
      have hactive : s.activeTurnParts = p := by
        rw [h.slot, h.orderly.consistent.active, if_pos hin, hcurrent]
        cases p <;> rfl
      refine ⟨p, hp, ?_⟩
      rw [hactive]
      rfl
  apart n r hr := h.apart n r (by simpa using hr)

/-- A call hides the active parts and builds its request. -/
theorem Inv.hide (h : Inv (Function.update site (.call n) .unasked) s) (messages : Context) :
    Inv (Function.update site (.call n) .inferring)
      { s with
        activeTurnParts := none
        events := s.events ++ [.hide n]
        requests := s.requests ++ [(.call n, buildChatCompletionParams none messages)] } where
  slot := by simp [Slot.apply]
  orderly := h.orderly.snoc _ (h.unasked n (by simp))
  progress j hj := by
    obtain ⟨p, hp, hcurrent⟩ := h.progress j (by simpa using hj)
    refine ⟨p, List.mem_append_left _ hp, ?_⟩
    rw [← hcurrent, scopes_snoc]
    exact current_of_call (n := n) (by simp [isOf])
  queued j p hj hmem := h.queued j p (by simpa using hj) (mem_of_snoc hmem (by simp))
  once j p q hp hq := h.once j p q (mem_of_snoc hp (by simp)) (mem_of_snoc hq (by simp))
  own j p hp := h.own j p (mem_of_snoc hp (by simp))
  unasked m hm hmem := by
    have hmn : m ≠ n := by
      rintro rfl
      simp at hm
    exact h.unasked m (by simpa [hmn] using hm) (mem_of_snoc hmem (by simp [hmn]))
  ended m hm := by
    obtain ⟨hhide, hout⟩ := h.ended m hm
    refine ⟨List.mem_append_left _ hhide, fun hmem => ?_⟩
    rw [scopes_snoc] at hmem
    rcases mem_inner_hide hmem with rfl | hmem
    · exact h.unasked m (by simp) hhide
    · exact hout hmem
  built j r hr := by
    obtain ⟨p, hp, hrp⟩ := h.built j r (by simpa using hr)
    exact ⟨p, List.mem_append_left _ hp, hrp⟩
  apart m r hr := by
    rcases List.mem_append.mp hr with hr | hr
    · exact h.apart m r hr
    · obtain ⟨rfl, rfl⟩ : m = n ∧ r = buildChatCompletionParams none messages := by
        simpa using hr
      rfl

/-- A call ends and puts back what it has saved. -/
theorem Inv.restore (h : Inv site s) (he : (scopes s.events).MayEnd n) :
    Inv site
      { s with
        activeTurnParts := (replay s.events).saved n
        events := s.events ++ [.restore n]
        ended := s.ended ++ [n] } where
  slot := by simp [Slot.apply]
  orderly := h.orderly.snoc _ he
  progress j hj := by
    obtain ⟨p, hp, hcurrent⟩ := h.progress j hj
    refine ⟨p, List.mem_append_left _ hp, ?_⟩
    rw [← hcurrent, scopes_snoc]
    exact current_of_call (n := n) (by simp [isOf])
  queued j p hj hmem := h.queued j p hj (mem_of_snoc hmem (by simp))
  once j p q hp hq := h.once j p q (mem_of_snoc hp (by simp)) (mem_of_snoc hq (by simp))
  own j p hp := h.own j p (mem_of_snoc hp (by simp))
  unasked m hm hmem := h.unasked m hm (mem_of_snoc hmem (by simp))
  ended m hm := by
    rw [scopes_snoc]
    rcases List.mem_append.mp hm with hm | hm
    · obtain ⟨hhide, hout⟩ := h.ended m hm
      exact ⟨List.mem_append_left _ hhide, fun hmem => hout (mem_inner_restore hmem)⟩
    · obtain rfl := List.mem_singleton.mp hm
      exact ⟨List.mem_append_left _ (h.orderly.hide_mem he), h.orderly.not_mem_inner_restore he⟩
  built j r hr := by
    obtain ⟨p, hp, hrp⟩ := h.built j r hr
    exact ⟨p, List.mem_append_left _ hp, hrp⟩
  apart := h.apart

end Moves

section Turns
variable {v : OmniView} {s : Service} {k : ℕ} {l l' : Site}

/-- Turn `k` has reached `l` since it was resumed at `v`, and no call's saved parts have
changed. -/
structure At (k : ℕ) (l : Site) (v : OmniView) (s : Service) : Prop where
  inv : Inv (Function.update v.site (.turn k) l) s
  saved : (replay s.events).saved = (replay v.shared.events).saved

theorem At.stops (h : At k l v s) : isolation.Stops (.turn k) l v s :=
  ⟨h.inv, fun _ _ n _ => congrFun h.saved n⟩

theorem At.same {s' : Service} (h : At k l v s) (ha : s'.activeTurnParts = s.activeTurnParts)
    (he : s'.events = s.events) (hr : s'.requests = s.requests) (hd : s'.ended = s.ended)
    (ht : s'.turns = s.turns) : At k l v s' :=
  ⟨h.inv.same ha he hr hd ⟨[], by simp [ht]⟩, by rw [he]; exact h.saved⟩

theorem At.moves (h : At k l v s) (hp : InProgress l' → InProgress l)
    (hq : l' = .queued → l = .queued) : At k l' v s := ⟨h.inv.turnMoves hp hq, h.saved⟩

theorem At.resumed {v : OmniView} (h : Inv v.site v.shared) (hl : v.site (.turn k) = l) :
    At k l v v.shared := ⟨h.at hl, rfl⟩

/-- The turn ends a piece of its work. -/
abbrev Stopped (k : ℕ) (loop : Loop) (v : OmniView) (s : Service) : Prop :=
  Ends isolation omni (.turn k) loop v s

variable {E : Exception → OmniView → Service → Prop}

theorem wp_turnPause {Q : Unit → OmniView → Service → Prop} (h : At k l v s)
    (hQ : ∀ v, At k l v v.shared → Q () v v.shared) (hE : ∀ e v s, At k l v s → E e v s) :
    Wp isolation (.turn k) Q E (turnPause k l) v s := by
  simp only [turnPause, wp_bind]
  rw [wp_pause]
  refine ⟨h.stops, fun v' i _ hi hl _ => ?_⟩
  have hat : At k l v' v'.shared := .resumed hi hl
  simp only [wp_get]
  split
  · simp only [wp_bind, wp_modify]
    exact hE _ v' _ (hat.same rfl rfl rfl rfl rfl)
  · split
    · exact hE _ v' _ hat
    · exact hQ v' hat

theorem wp_endTurn (h : At k l v s) (o : Outcome) :
    Wp isolation (.turn k) (fun b v s => Stopped k b v s) E (endTurn k o) v s := by
  simp only [endTurn, wp_bind, wp_modify, wp_pure]
  have hend : At k .finished v s := h.moves (by simp [InProgress]) (by simp)
  have hdone : At k .finished v { s with outcome := Function.update s.outcome k (some o) } :=
    hend.same rfl rfl rfl rfl rfl
  exact hdone.stops

theorem wp_closeTurn (h : At k l v s) (hl : InProgress l) (o : Outcome) :
    Wp isolation (.turn k) (fun b v s => Stopped k b v s) E (closeTurn k o) v s := by
  simp only [closeTurn, wp_bind, wp_modify, wp_handle]
  have hclose : At k .closing v
      { s with
        activeTurnParts := none
        transcriptExtractor := false
        events := s.events ++ [.clear k] } :=
    ⟨h.inv.close hl, by simpa [Slot.apply] using h.saved⟩
  refine wp_turnPause hclose (fun v' hv' => ?_) fun e v' s' hs' => wp_endTurn hs' _
  have hclosed : At k .closed v' v'.shared := hv'.moves (by simp [InProgress]) (by simp)
  have hpushed : At k .closed v'
      { v'.shared with pushed := v'.shared.pushed ++ [.responseEnd k] } :=
    hclosed.same rfl rfl rfl rfl rfl
  refine wp_turnPause hpushed (fun v'' hv'' => ?_) fun e v'' s'' hs'' => ?_
  · exact wp_endTurn hv'' o
  · exact wp_endTurn hs'' _

theorem wp_openTurn {turn : Turn} (h : At k .queued v s) (hturn : s.turns[k]? = some turn)
    (hapart : (∃ j < s.turns.length, j ≠ k ∧ InProgress (v.site (.turn j))) →
      (scopes s.events).current = none ∧ s.partsOf turn = none) :
    Wp isolation (.turn k) (fun b v s => Stopped k b v s) E (openTurn k turn) v s := by
  simp only [openTurn, wp_bind, wp_modify, wp_handle]
  have hopen : At k .opening v
      { s.activate k turn with pushed := (s.activate k turn).pushed ++ [.responseStart k] } := by
    refine At.same (s := s.activate k turn) ⟨h.inv.activate hturn hapart, ?_⟩ rfl rfl rfl rfl rfl
    simpa [Service.activate, Slot.apply] using h.saved
  refine wp_turnPause hopen (fun v' hv' => ?_) fun e v' s' hs' => wp_endTurn hs' _
  refine wp_turnPause (hv'.moves (fun _ => rfl) (by simp)) (fun v'' hv'' => ?_)
    fun e v'' s'' hs'' => wp_endTurn hs'' _
  have hgo : At k .processing v'' v''.shared := hv''.moves (fun _ => rfl) (by simp)
  exact hgo.stops

theorem wp_reportError (h : At k .processing v s) :
    Wp isolation (.turn k) (fun b v s => Stopped k b v s) E (reportError k) v s := by
  simp only [reportError, wp_bind, wp_handle]
  have hreport : At k .reporting v s := h.moves (fun _ => rfl) (by simp)
  exact wp_turnPause hreport (fun v' hv' => wp_closeTurn hv' rfl _)
    fun e v' s' hs' => wp_closeTurn hs' rfl _

theorem wp_processContext {turn : Turn} {i : Reply} (h : At k .processing v s)
    (hbuild : i = .build → (scopes s.events).inner = []) :
    Wp isolation (.turn k) (fun b v s => Stopped k b v s) E (processContext k turn i) v s := by
  unfold processContext
  split
  · simp only [wp_bind, wp_modify, wp_pure]
    have hbuilt : At k .processing v { s with
        requests := s.requests ++ [(.turn k,
          buildChatCompletionParams s.activeTurnParts (s.contents turn.context))] } :=
      ⟨h.inv.build (by simp [InProgress]) (hbuild rfl) _, h.saved⟩
    exact hbuilt.stops
  · simp only [wp_bind, wp_modify, wp_pure]
    refine At.stops (l := .processing) ?_
    unfold Service.emitTranscript
    split
    · exact h.same rfl rfl rfl rfl rfl
    · exact h
  · exact wp_reportError h
  · exact wp_closeTurn h rfl _
  · exact h.stops

theorem wp_runTurn {loop : Loop} {i : Reply} (h : Inv v.site v.shared)
    (hl : v.site (.turn k) = omni.head (.turn k) loop) (ha : isolated v (.turn k) i) :
    Wp isolation (.turn k) (fun b v s => Stopped k b v s) E (runTurn k loop i) v v.shared := by
  have hat : At k (omni.head (.turn k) loop) v v.shared := .resumed h hl
  simp only [runTurn, wp_bind, wp_get]
  split
  · rename_i turn hturn
    split
    · exact wp_endTurn hat _
    · rename_i hcancel
      exact wp_openTurn hat hturn (ha.1 hl turn hturn (by simpa using hcancel))
  · rename_i turn hturn
    split
    · simp only [wp_bind, wp_modify]
      have hgo : At k .processing v { v.shared with
          cancelRequested := Function.update v.shared.cancelRequested k false } :=
        hat.same rfl rfl rfl rfl rfl
      exact wp_closeTurn hgo rfl _
    · refine wp_processContext hat fun hi => ?_
      have hnone := ha.2 hl
      rw [hi] at hnone
      exact hnone
  · exact hat.stops

end Turns

section Calls
variable {v : OmniView} {s : Service} {n : ℕ} {E : Exception → OmniView → Service → Prop}

/-- Call `n` has put back what it saved and is about to end. -/
structure Restored (n : ℕ) (v : OmniView) (s : Service) : Prop where
  inv : Inv (Function.update v.site (.call n) .inferring) { s with ended := s.ended ++ [n] }
  saved : ∀ m, m ≠ n → (replay s.events).saved m = (replay v.shared.events).saved m

theorem wp_endCall (h : Restored n v s) :
    Wp isolation (.call n) (fun b v s => Ends isolation omni (.call n) b v s) E (endCall n) v
      s := by
  simp only [endCall, wp_bind, wp_modify, wp_pure]
  refine ⟨h.inv.callMoves (by simp [omni]), fun u hu m hm => ?_⟩
  have hmn : m ≠ n := by
    rintro rfl
    exact hu hm
  exact h.saved m hmn

theorem wp_runInference {context : ℕ} {Q : Unit → OmniView → Service → Prop}
    (h : Inv v.site v.shared) (hl : v.site (.call n) = .unasked)
    (hQ : ∀ v s, Restored n v s → Q () v s) (hE : ∀ e v s, Restored n v s → E e v s) :
    Wp isolation (.call n) Q E (runInference n context) v v.shared := by
  simp only [runInference, hideTurn, buildOutOfBand, wp_bind, wp_modifyGet, wp_ensure, wp_modify,
    checkpoint]
  rw [wp_pause]
  refine ⟨⟨(h.at hl).hide _, fun u hu m hm => ?_⟩, fun v' i hrely hi hl' hallow => ?_⟩
  · have hmn : m ≠ n := by
      rintro rfl
      exact hu hm
    simp [Slot.apply, hmn]
  · have hmay : (scopes v'.shared.events).MayEnd n := hallow hl'
    have hsaved : (replay v'.shared.events).saved n = v.shared.activeTurnParts := by
      rw [hrely n rfl, h.slot]
      simp [Slot.apply]
    have hrestored : Restored n v'
        { v'.shared with
          activeTurnParts := v.shared.activeTurnParts
          events := v'.shared.events ++ [.restore n] } := by
      rw [← hsaved]
      exact ⟨(Inv.at hi hl').restore hmay, fun m _ => by simp [Slot.apply]⟩
    split
    · exact hE _ v' _ hrestored
    · exact hE _ v' _ hrestored
    · exact hQ v' _ hrestored

theorem wp_outOfBandRequestKwargs {context : ℕ} {Q : Unit → OmniView → Service → Prop}
    (h : Inv v.site v.shared) (hl : v.site (.call n) = .unasked)
    (hQ : ∀ v s, Restored n v s → Q () v s) :
    Wp isolation (.call n) Q E (outOfBandRequestKwargs n context) v v.shared := by
  simp only [outOfBandRequestKwargs, hideTurn, buildOutOfBand, restoreTurn, wp_bind,
    wp_modifyGet, wp_ensure, wp_modify]
  have hhide := (h.at hl).hide (v.shared.heap context)
  have hmay : (scopes (v.shared.events ++ [.hide n])).MayEnd n := by
    rw [scopes_snoc]
    exact mayEnd_hide _ n
  have hsaved : (replay (v.shared.events ++ [.hide n])).saved n = v.shared.activeTurnParts := by
    rw [h.slot]
    simp [Slot.apply]
  refine hQ v _ ⟨?_, fun m hm => ?_⟩
  · have hrestore := hhide.restore hmay
    rw [hsaved] at hrestore
    exact hrestore
  · rw [replay_snoc, replay_snoc]
    simp [Slot.apply, hm]

theorem wp_callTurn {loop : Loop} {i : Reply} (h : Inv v.site v.shared)
    (hl : v.site (.call n) = omni.head (.call n) loop) :
    Wp isolation (.call n) (fun b v s => Ends isolation omni (.call n) b v s) E
      (callTurn n loop i) v v.shared := by
  unfold callTurn
  split
  · simp only [wp_bind, wp_handle, wp_pure]
    exact wp_runInference h hl (fun v' s' hs => wp_endCall hs) fun _ v' s' hs => wp_endCall hs
  · simp only [wp_bind]
    exact wp_outOfBandRequestKwargs h hl fun v' s' hs => wp_endCall hs
  · exact ⟨h.at hl, fun _ _ _ _ => rfl⟩

end Calls

section Handlers

/-- A handler leaves the active parts, the requests and the calls alone. -/
structure Detached (s s' : Service) : Prop where
  active : s'.activeTurnParts = s.activeTurnParts
  events : s'.events = s.events
  requests : s'.requests = s.requests
  ended : s'.ended = s.ended
  turns : ∃ more, s'.turns = s.turns ++ more

theorem detached_cancel (s : Service) (k : ℕ) : Detached s (s.cancel k) := by
  unfold Service.cancel
  split
  · exact ⟨rfl, rfl, rfl, rfl, [], by simp⟩
  · exact ⟨rfl, rfl, rfl, rfl, [], by simp⟩

theorem always_awaitTurn (l : Site) (k : ℕ) : Always Detached (awaitTurn l k) := by
  refine .bind (.pause l) fun reply => .bind .get fun s => ?_
  split
  · exact .pure _
  · exact .raise _
  · exact .pure _

theorem always_cancelPendingRequest : Always Detached cancelPendingRequest := by
  refine .bind (.bind .get fun s => ?_) fun _ =>
    .modify fun _ => ⟨rfl, rfl, rfl, rfl, [], by simp⟩
  split
  · exact .pure _
  · exact .bind (.modify fun s => detached_cancel s _) fun _ => always_awaitTurn _ _

theorem always_preempt : Always Detached preempt :=
  .bind (always_checkpoint _ _) fun _ => always_cancelPendingRequest

theorem always_createTurn (audio : Bool) (turn : Service → Turn) :
    Always Detached (createTurn audio turn) :=
  .modify fun s => ⟨rfl, rfl, rfl, rfl, [turn s], rfl⟩

theorem always_maybeRunAudioTurn : Always Detached maybeRunAudioTurn := by
  refine .bind .get fun s => .ite (.pure _) (.bind ?_ fun _ => ?_)
  · exact .modify fun _ => ⟨rfl, rfl, rfl, rfl, [], by simp⟩
  · split
    · exact .pure _
    · refine .bind .get fun s => ?_
      split
      · exact always_createTurn _ _
      · exact .bind always_preempt fun _ => always_createTurn _ _

theorem always_maybeRunTextTurn (context : Option ℕ) (force : Bool) :
    Always Detached (maybeRunTextTurn context force) := by
  unfold maybeRunTextTurn
  split
  · exact .pure _
  · refine .bind .get fun s => .ite (.pure _) (.bind .get fun s => ?_)
    split
    · exact always_createTurn _ _
    · refine .ite (.bind (always_awaitTurn _ _) fun _ => always_createTurn _ _) (.ite (.pure _) ?_)
      exact .bind always_preempt fun _ => always_createTurn _ _

theorem always_handleUserStarted : Always Detached handleUserStarted := by
  have hstart : Always Detached startUtterance :=
    .modify fun _ => ⟨rfl, rfl, rfl, rfl, [], by simp⟩
  refine .bind .get fun s => .ite (.pure _) (.ite ?_ hstart)
  refine .bind always_cancelPendingRequest fun _ => .bind (.modify fun _ => ?_) fun _ => hstart
  exact ⟨rfl, rfl, rfl, rfl, [], by simp⟩

theorem always_handleUserStopped : Always Detached handleUserStopped := by
  refine .bind .get fun s => .ite (.pure _) (.bind (.modify fun _ => ?_) fun _ =>
    always_maybeRunAudioTurn)
  exact ⟨rfl, rfl, rfl, rfl, [], by simp⟩

theorem always_handleInterruption : Always Detached handleInterruption := by
  refine .bind (always_checkpoint _ _) fun _ => .bind always_cancelPendingRequest fun _ =>
    .modify fun s => ?_
  simp only
  split
  · exact ⟨rfl, rfl, rfl, rfl, [], by simp⟩
  · exact ⟨rfl, rfl, rfl, rfl, [], by simp⟩

theorem detached_handleAudioFrame (s : Service) (audio : List UInt8) (sampleRate channels : ℕ) :
    Detached s (s.handleAudioFrame audio sampleRate channels) := by
  simp only [Service.handleAudioFrame]
  split
  · exact ⟨rfl, rfl, rfl, rfl, [], by simp⟩
  · split
    · exact ⟨rfl, rfl, rfl, rfl, [], by simp⟩
    · exact ⟨rfl, rfl, rfl, rfl, [], by simp⟩

theorem always_processFrame (f : Frame) : Always Detached (processFrame f) := by
  have push : Always Detached (checkpoint .pushing) := always_checkpoint _ _
  refine .bind (always_checkpoint _ _) fun _ => ?_
  cases f with
  | llmContext context =>
    refine .bind (.modify fun _ => ?_) fun _ => always_maybeRunTextTurn _ _
    exact ⟨rfl, rfl, rfl, rfl, [], by simp⟩
  | llmRun => exact .bind .get fun s => always_maybeRunTextTurn _ _
  | interruption => exact .bind always_handleInterruption fun _ => push
  | userStartedSpeaking => exact .bind always_handleUserStarted fun _ => push
  | userStoppedSpeaking => exact .bind always_handleUserStopped fun _ => push
  | endFrame | cancelFrame =>
    exact .bind (.bind always_cancelPendingRequest fun _ => always_checkpoint _ _) fun _ => push
  | start | botStartedSpeaking | botStoppedSpeaking =>
    refine .bind (.modify fun _ => ?_) fun _ => push
    exact ⟨rfl, rfl, rfl, rfl, [], by simp [Service.resetAudioState]⟩
  | inputAudio audio sampleRate channels =>
    exact .bind (.modify fun s => detached_handleAudioFrame s _ _ _) fun _ => push
  | other system => exact push

theorem always_handlerTurn (system : Bool) (loop : Loop) (i : Reply) :
    Always Detached (handlerTurn system loop i) := by
  unfold handlerTurn
  split
  · exact .ite (.bind (always_processFrame _) fun _ => .pure _) (.pure _)
  · exact .pure _

theorem wp_handlerTurn {v : OmniView} {system : Bool} {loop : Loop} {i : Reply}
    (h : Inv v.site v.shared) :
    Wp isolation (.handler system)
      (fun b v s => Ends isolation omni (.handler system) b v s)
      (fun e v s => Ends isolation omni (.handler system) (omni.crash (.handler system) e) v s)
      (handlerTurn system loop i) v v.shared := by
  have hstop : ∀ l v s, Inv v.site s ∧ s.events = v.shared.events →
      isolation.Stops (.handler system) l v s := by
    rintro l v s ⟨hinv, hevents⟩
    refine ⟨hinv.handlerMoves system, fun u _ n _ => ?_⟩
    simp only [View.stop_shared, hevents]
  refine wp_mono (fun _ v s hs => hstop _ v s hs) (fun _ v s hs => hstop _ v s hs)
    (wp_of_within (J := fun v s => Inv v.site s ∧ s.events = v.shared.events) hstop ?_
      (fun v hv => ⟨hv, rfl⟩) ((always_handlerTurn system loop i).within v.shared) ⟨h, rfl⟩)
  rintro v s s' ⟨hinv, hevents⟩ hr
  exact ⟨hinv.same hr.active hr.events hr.requests hr.ended hr.turns, hr.events.trans hevents⟩

end Handlers

theorem keeps_isolation : Keeps isolation omni outside where
  refl _ _ _ _ := rfl
  trans _ _ _ _ huv hvw n hn := (hvw n hn).trans (huv n hn)
  outside v s hi henv := by
    rcases henv with ⟨heap, settings, rfl⟩ | ⟨k, rfl⟩
    · exact ⟨Inv.same hi rfl rfl rfl rfl ⟨[], by simp⟩, fun _ _ _ => rfl⟩
    · have hd := detached_cancel v.shared k
      refine ⟨Inv.same hi hd.active hd.events hd.requests hd.ended hd.turns, fun t n _ => ?_⟩
      rw [hd.events]
  body t b i v hi hl ha := by
    cases t with
    | handler system => exact wp_handlerTurn hi
    | turn k => exact wp_runTurn hi hl ha
    | call n => exact wp_callTurn hi hl

theorem inv_fresh (settings : Settings) :
    Inv (freshOmni settings).view.site (freshOmni settings).view.shared where
  slot := rfl
  orderly := .nil
  progress k hk := by
    have hqueued : InProgress .queued := hk
    cases hqueued
  queued _ _ _ := List.not_mem_nil
  once _ _ _ hp _ := absurd hp List.not_mem_nil
  own _ _ hp := absurd hp List.not_mem_nil
  unasked _ _ := List.not_mem_nil
  ended _ hn := absurd hn List.not_mem_nil
  built _ _ hr := absurd hr List.not_mem_nil
  apart _ _ hr := absurd hr List.not_mem_nil

/-- Where turns and calls keep to their places, a turn's request carries the parts with
which that turn began (its audio, for an audio turn), an out-of-band request carries none,
and a call that has ended leaves the active parts as they would be without it. -/
theorem requests_isolated {settings : Settings} {p : OmniPool}
    (h : omni.Reach isolated outside (freshOmni settings) p) :
    (∀ k r, (.turn k, r) ∈ p.shared.requests → ∃ turn parts, p.shared.turns[k]? = some turn ∧
        (∀ q, .set k q ∈ p.shared.events ↔ q = parts) ∧
        (∀ a l, turn.spoken = some (a :: l) → parts = some (a :: l)) ∧
        r.turnParts = rendered parts) ∧
      (∀ n r, (.call n, r) ∈ p.shared.requests → r.turnParts = none) ∧
      ∀ n ∈ p.shared.ended,
        p.shared.activeTurnParts = (replay (without n p.shared.events)).active := by
  have hinv : Inv p.view.site p.shared := keeps_isolation.invariant (inv_fresh settings) h
  refine ⟨fun k r hr => ?_, hinv.apart, fun n hn => ?_⟩
  · obtain ⟨parts, hparts, hrendered⟩ := hinv.built k r hr
    obtain ⟨turn, hturn, hspoken⟩ := hinv.own k parts hparts
    refine ⟨turn, parts, hturn, fun q => ⟨fun hq => hinv.once k q parts hq hparts, ?_⟩,
      fun a l => hspoken a l, hrendered⟩
    rintro rfl
    exact hparts
  · rw [hinv.slot, hinv.orderly.active_without (hinv.ended n hn).2]

/-- The user speaks, and an audio turn sets its parts. -/
def spokenTurn : List (System.Act Service Reply Task) :=
  [.turn (.handler true) (.frame .userStartedSpeaking), .turn (.handler true) .go,
    .turn (.handler true) .go,
    .turn (.handler true) (.frame (.inputAudio [7] 16000 1)), .turn (.handler true) .go,
    .turn (.handler true) .go,
    .turn (.handler true) (.frame .userStoppedSpeaking), .turn (.handler true) .go,
    .turn (.turn 0) .go]

/-- A call begins and ends before the turn builds its request. -/
def callBefore : List (System.Act Service Reply Task) :=
  spokenTurn ++ [.turn (.call 0) (.infer 0 false), .turn (.call 0) .go,
    .turn (.turn 0) .go, .turn (.turn 0) .go, .turn (.turn 0) .build]

theorem requests_isolated_callBefore :
    let p := omni.play (freshOmni OmniTurns.briefly) callBefore
    p.shared.ended = [0] ∧
      p.shared.activeTurnParts = (replay (without 0 p.shared.events)).active := by
  intro p
  have hreach : omni.Reach isolated (fun _ _ => False) (freshOmni OmniTurns.briefly) p :=
    System.reach_play (by decide +kernel)
  have hended : p.shared.ended = [0] := by decide +kernel
  refine ⟨hended,
    (requests_isolated (hreach.mono (fun _ _ _ h => h) fun _ _ h => h.elim)).2.2 0 ?_⟩
  rw [hended]
  exact List.mem_singleton_self 0

/-- The turn builds its request while the call awaits its reply. -/
def callDuring : List (System.Act Service Reply Task) :=
  spokenTurn ++ [.turn (.call 0) (.infer 0 false),
    .turn (.turn 0) .go, .turn (.turn 0) .go, .turn (.turn 0) .build]

theorem hidden_turn_loses_audio :
    ∃ p, omni.Reach (fun _ _ _ => True) outside (freshOmni OmniTurns.briefly) p ∧
      ¬ ∀ k r parts, (.turn k, r) ∈ p.shared.requests → .set k parts ∈ p.shared.events →
        r.turnParts = rendered parts := by
  have hreach : omni.Reach (fun _ _ _ => True) (fun _ _ => False)
      (freshOmni OmniTurns.briefly) (omni.play (freshOmni OmniTurns.briefly) callDuring) :=
    System.reach_play (by decide +kernel)
  refine ⟨_, hreach.mono (fun _ _ _ h => h) (fun _ _ h => h.elim), fun h => ?_⟩
  have hlost := h 0 ⟨[], none⟩
    (some [.inputAudio [7] 16000 1, .text defaultAudioResponseInstruction])
    (by decide +kernel) (by decide +kernel)
  cases hlost

end VoiceAgent.OutOfBand
