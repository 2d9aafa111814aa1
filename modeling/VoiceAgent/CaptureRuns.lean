import VoiceAgent.MediaAnalysis
import VoiceAgent.History

/-!
Runs of captures. A capture is stored, routed by a callback and analysed by a task of its own.
The callback looks at the latest item only, so a capture must be routed before anything else is
stored, and the query of its request must still be the pending one.
-/
namespace VoiceAgent.CaptureRuns

open StreamingEvents Coroutine Interleaving History MediaAnalysis

section Conditions

def latestIsCapture (s : Media) : Bool := s.latestAttachment.any (·.source = .capture)

/-- A callback is due that hands the latest item to `analyze_capture`. -/
def Routes (s : Media) : Prop :=
  s.awaitingCapture = true ∧ 0 < s.callbacks ∧ latestIsCapture s = true

instance (s : Media) : Decidable (Routes s) := inferInstanceAs (Decidable (_ ∧ _ ∧ _))

/-- An upload is stored when no capture waits for its callback. A capture is asked for when none
is being read or due at a callback, and a blank query comes when none is asked for, either. -/
def orderly (s : Media) : Move → Prop
  | .upload u => Routes s → ∀ a, readAttachment u .upload s.sequence ≠ .ok a
  | .highresCapture query => s.incoming = [] ∧
      if strip query = [] then s.captureRequest = none ∧ ¬ Routes s
      else ¬ (0 < s.callbacks ∧ latestIsCapture s = true)
  | _ => True

/-- The response of a capture analysis comes when the call that requested the job has its id, and
names the attachment of the job. -/
def answersNamed (v : MediaView) (t : Task) (i : Reply) : Prop := match t, i with
  | .respond m, .response (.capture n) r => v.site (.respond m) = .idle →
    v.site (.capture n) = .finished ∧
      ∀ payload, .sent (.capture n) payload ∈ v.shared.log →
        r.attachment = some payload.attachment.id
  | _, _ => True

end Conditions

/-- A capture analysis is of a captured item, with the query of its request, and the first one. -/
def Asked (before : List Event) (e : Event) : Prop :=
  ∀ n p, e = .sent (.capture n) p → p.attachment.source = .capture ∧
    (∃ r, .captured p.attachment.id r ∈ before ∧ .asked r p.transcript ∈ before) ∧
    ∀ k p', .sent (.capture k) p' ∈ before → p'.attachment.id ≠ p.attachment.id

/-- From the store to the task of a capture. -/
structure Routed (s : Media) : Prop where
  fresh : ∀ a ∈ s.attachments, a.id < s.sequence
  older : ∀ x ∈ s.captureTasks, x.1.id < s.sequence
  asked : ∀ r q, .asked r q ∈ s.log → q ≠ [] ∧ strip q = q
  request : ∀ r, s.captureRequest = some r →
    s.awaitingCapture = true ∧ .asked r s.pendingCaptureQuery ∈ s.log ∧ s.incoming = []
  incoming : ∀ r ∈ s.incoming, s.incoming = [r] ∧ s.captureRequest = none ∧
    s.awaitingCapture = true ∧ .asked r s.pendingCaptureQuery ∈ s.log
  routes : Routes s → s.captureRequest = none ∧ s.incoming = [] ∧
    ∃ a r, s.latestAttachment = some a ∧ .captured a.id r ∈ s.log ∧
      .asked r s.pendingCaptureQuery ∈ s.log ∧ ∀ x ∈ s.captureTasks, x.1.id ≠ a.id
  tasks : ∀ x ∈ s.captureTasks, x.1.source = .capture ∧
    ∃ r, .captured x.1.id r ∈ s.log ∧ .asked r x.2 ∈ s.log
  owned : ∀ b ∈ s.attachments, ∀ r, .captured b.id r ∈ s.log → b.source = .capture
  once : (s.captureTasks.map fun x => x.1.id).Nodup
  captured : ∀ a r, .captured a r ∈ s.log →
    (Routes s ∧ ∃ b, s.latestAttachment = some b ∧ b.id = a) ∨ ∃ x ∈ s.captureTasks, x.1.id = a
  stored : ∀ a ∈ s.attachments, a.source = .capture → ∃ r, .captured a.id r ∈ s.log

/-- From the task of a capture to its removal. -/
structure Worked (site : Task → Site) (s : Media) : Prop where
  sent : ∀ n p, .sent (.capture n) p ∈ s.log →
    ∃ x, s.captureTasks[n]? = some x ∧ p.attachment = x.1 ∧ site (.capture n) ≠ .idle
  begun : ∀ n, site (.capture n) ≠ .idle →
    ∃ x p, s.captureTasks[n]? = some x ∧ .sent (.capture n) p ∈ s.log ∧ p.attachment = x.1
  requesting : ∀ n i, site (.capture n) = .requesting i →
    ∃ x, s.captureTasks[n]? = some x ∧ i = x.1.id
  quiet : ∀ n, site (.capture n) ≠ .finished →
    .answered (.capture n) ∉ s.log ∧ .failed (.capture n) ∉ s.log
  registered : ∀ job ∈ s.captureTaskIds, ∃ n, job = .capture n ∧ site (.capture n) = .finished ∧
    .answered job ∉ s.log ∧ .failed job ∉ s.log
  removing : ∀ m job attachment, site (.respond m) = .answering job attachment true →
    ∃ x ∈ s.captureTasks, attachment = some x.1.id
  kept : ∀ (n : ℕ) x, s.captureTasks[n]? = some x → (∃ b ∈ s.attachments, b.id = x.1.id) →
    site (.capture n) ≠ .finished ∨ .capture n ∈ s.captureTaskIds ∨
      ∃ m job, site (.respond m) = .answering job (some x.1.id) true
  proper : Along Asked s.log

structure Sound (site : Task → Site) (s : Media) : Prop where
  routed : Routed s
  worked : Worked site s

def captureContract : Contract Task Site Media Reply where
  inv v := Sound v.site v.shared
  rely _ _ _ := True
  allowed v t i := answersOnce v t i ∧ answersNamed v t i

section Moves
variable {site : Task → Site} {s s' : Media} {n m k : ℕ} {l : Site} {t : Task} {e : Event}

/-- Only the store, the request, the tasks and the record count. -/
theorem Sound.same (h : Sound site s) (ha : s'.attachments = s.attachments)
    (hq : s'.sequence = s.sequence) (hr : s'.captureRequest = s.captureRequest)
    (hi : s'.incoming = s.incoming) (hc : s'.callbacks = s.callbacks)
    (hw : s'.awaitingCapture = s.awaitingCapture)
    (hp : s'.pendingCaptureQuery = s.pendingCaptureQuery)
    (ht : s'.captureTasks = s.captureTasks) (hd : s'.captureTaskIds = s.captureTaskIds)
    (hl : s'.log = s.log) : Sound site s' := by
  obtain ⟨hrouted, hworked⟩ := h
  cases s
  cases s'
  simp only at ha hq hr hi hc hw hp ht hd hl
  subst ha hq hr hi hc hw hp ht hd hl
  exact ⟨⟨hrouted.fresh, hrouted.older, hrouted.asked, hrouted.request, hrouted.incoming,
      hrouted.routes, hrouted.tasks, hrouted.owned, hrouted.once, hrouted.captured,
      hrouted.stored⟩,
    ⟨hworked.sent, hworked.begun, hworked.requesting, hworked.quiet, hworked.registered,
      hworked.removing, hworked.kept, hworked.proper⟩⟩

/-- An event that is no capture's. -/
theorem Routed.record (h : Routed s) (ha : ∀ r q, e ≠ .asked r q)
    (hc : ∀ a r, e ≠ .captured a r) : Routed (s.record e) := by
  have hasked : ∀ r q, Event.asked r q ∈ s.log ++ [e] ↔ Event.asked r q ∈ s.log := by
    intro r q
    simp [Ne.symm (ha r q)]
  have hcaptured : ∀ a r, Event.captured a r ∈ s.log ++ [e] ↔ Event.captured a r ∈ s.log := by
    intro a r
    simp [Ne.symm (hc a r)]
  constructor <;> simp only [Media.record, hasked, hcaptured]
  · exact h.fresh
  · exact h.older
  · exact h.asked
  · exact h.request
  · exact h.incoming
  · exact h.routes
  · exact h.tasks
  · exact h.owned
  · exact h.once
  · exact h.captured
  · exact h.stored

theorem Worked.record (h : Worked site s) (he : ∀ n p, e ≠ .sent (.capture n) p)
    (ha : ∀ n, e ≠ .answered (.capture n)) (hf : ∀ n, e ≠ .failed (.capture n)) :
    Worked site (s.record e) := by
  have hsent : ∀ n p, Event.sent (.capture n) p ∈ s.log ++ [e] ↔
      Event.sent (.capture n) p ∈ s.log := by
    intro n p
    simp [Ne.symm (he n p)]
  have hanswered : ∀ n, Event.answered (.capture n) ∉ s.log ++ [e] ↔
      Event.answered (.capture n) ∉ s.log := by
    intro n
    simp [Ne.symm (ha n)]
  have hfailed : ∀ n, Event.failed (.capture n) ∉ s.log ++ [e] ↔
      Event.failed (.capture n) ∉ s.log := by
    intro n
    simp [Ne.symm (hf n)]
  refine ⟨fun n p hp => h.sent n p ((hsent n p).mp hp), ?_, h.requesting, ?_, ?_, h.removing,
    h.kept, ?_⟩
  · intro n hn
    obtain ⟨x, p, hx, hp, hxp⟩ := h.begun n hn
    exact ⟨x, p, hx, (hsent n p).mpr hp, hxp⟩
  · intro n hn
    exact ⟨(hanswered n).mpr (h.quiet n hn).1, (hfailed n).mpr (h.quiet n hn).2⟩
  · intro job hjob
    obtain ⟨n, rfl, hn, hans, hfail⟩ := h.registered job hjob
    exact ⟨n, rfl, hn, (hanswered n).mpr hans, (hfailed n).mpr hfail⟩
  · exact along_concat.mpr ⟨h.proper, fun n p hp => absurd hp (he n p)⟩

/-- Adding or removing nothing that is due: the callback finds what it found. -/
theorem routes_iff (ha : s'.awaitingCapture = s.awaitingCapture) (hc : s'.callbacks = s.callbacks)
    (hl : s'.latestAttachment = s.latestAttachment) : Routes s' ↔ Routes s := by
  rw [Routes, Routes, latestIsCapture, latestIsCapture, ha, hc, hl]

/-- What a callback would route is the latest item, a capture. -/
theorem latest_of_routes (h : Routes s) :
    ∃ a, s.latestAttachment = some a ∧ a.source = .capture := by
  obtain ⟨a, ha, hcap⟩ := (Option.any_eq_true _ _).mp h.2.2
  exact ⟨a, ha, by simpa using hcap⟩

theorem not_routes_of_upload {a : Attachment} (hl : s.latestAttachment = some a)
    (ha : a.source = .upload) : ¬ Routes s := by
  rintro ⟨-, -, hcap⟩
  simp [latestIsCapture, hl, ha] at hcap

/-- Every capture that is stored has its task, unless a callback is due for it. -/
theorem Routed.has_task (h : Routed s) (hn : ¬ Routes s) {a r : ℕ} (hc : .captured a r ∈ s.log) :
    ∃ x ∈ s.captureTasks, x.1.id = a :=
  (h.captured a r hc).resolve_left fun hr => hn hr.1

/-- A new attachment has a number of its own. -/
theorem Routed.no_task (h : Routed s) {a : Attachment} (ha : a.id = s.sequence) :
    ∀ x ∈ s.captureTasks, x.1.id ≠ a.id := by
  intro x hx
  have holder := h.older x hx
  omega

theorem Routed.fresh_concat (h : Routed s) {a : Attachment} (ha : a.id = s.sequence) :
    ∀ b ∈ s.attachments ++ [a], b.id < s.sequence + 1 := by
  intro b hb
  rcases List.mem_append.mp hb with hold | hnew
  · exact Nat.lt_succ_of_lt (h.fresh b hold)
  · obtain rfl : b = a := by simpa using hnew
    omega

theorem Routed.storeUpload (h : Routed s) {u : Upload} (hu : orderly s (.upload u)) :
    Routed (s.storeUpload u) := by
  unfold Media.storeUpload
  split
  · exact h
  · rename_i a ha
    have hn : ¬ Routes s := fun hr => hu hr a ha
    have haid := readAttachment_ok ha
    have hrec := h.record (e := .uploaded a.id) (by simp) (by simp)
    have hlatest : (s.attachments ++ [a]).getLast? = some a := by simp
    have hstill : ¬ Routes ({ s with
        attachments := s.attachments ++ [a]
        sequence := s.sequence + 1
        callbacks := s.callbacks + 1 }.record (.uploaded a.id)) :=
      not_routes_of_upload hlatest haid.2
    have hold : ∀ b r, .captured b r ∈ (s.record (.uploaded a.id)).log → .captured b r ∈ s.log := by
      intro b r hb
      simpa using hb
    refine ⟨h.fresh_concat haid.1, fun x hx => Nat.lt_succ_of_lt (h.older x hx), hrec.asked,
      hrec.request, hrec.incoming, fun hr => absurd hr hstill, hrec.tasks, ?_, hrec.once,
      fun b r hb => .inr (h.has_task hn (hold b r hb)), ?_⟩
    · intro b hb r hbr
      rcases List.mem_append.mp hb with hmem | hnew
      · exact h.owned b hmem r (hold b.id r hbr)
      · obtain rfl : b = a := by simpa using hnew
        obtain ⟨x, hx, hxb⟩ := h.has_task hn (hold b.id r hbr)
        exact absurd hxb (h.no_task haid.1 x hx)
    · intro b hb hbs
      rcases List.mem_append.mp hb with hold | hnew
      · exact hrec.stored b hold hbs
      · obtain rfl : b = a := by simpa using hnew
        rw [haid.2] at hbs
        cases hbs

theorem Routed.storeCapture (h : Routed s) {r : ℕ} (hr : r ∈ s.incoming) (u : Option Upload) :
    Routed (s.storeCapture r u) := by
  obtain ⟨hin, hnone, hwait, hquery⟩ := h.incoming r hr
  have hn : ¬ Routes s := by
    intro hroutes
    rw [(h.routes hroutes).2.1] at hr
    cases hr
  have htaken : s.incoming.erase r = [] := by
    rw [hin]
    simp
  have hread : Routed { s with incoming := s.incoming.erase r } := by
    refine ⟨h.fresh, h.older, h.asked, ?_, ?_, fun hroutes => absurd hroutes hn, h.tasks, h.owned,
      h.once, h.captured, h.stored⟩
    · intro r' hr'
      rw [hnone] at hr'
      cases hr'
    · intro r' hr'
      rw [htaken] at hr'
      cases hr'
  unfold Media.storeCapture
  simp only
  split
  · exact hread
  · split
    · exact hread
    · rename_i a ha
      have haid := readAttachment_ok ha
      have hlatest : (s.attachments ++ [a]).getLast? = some a := by simp
      refine ⟨h.fresh_concat haid.1, fun x hx => Nat.lt_succ_of_lt (h.older x hx),
        fun r' q hq => h.asked r' q (by simpa using hq), ?_, ?_, ?_, ?_, ?_, h.once, ?_, ?_⟩
      · intro r' hr'
        change s.captureRequest = some r' at hr'
        rw [hnone] at hr'
        cases hr'
      · intro r' hr'
        change r' ∈ s.incoming.erase r at hr'
        rw [htaken] at hr'
        cases hr'
      · intro _
        exact ⟨hnone, htaken, a, r, hlatest, by simp, List.mem_append_left _ hquery,
          h.no_task haid.1⟩
      · intro x hx
        obtain ⟨hsource, r', hcap, hask⟩ := h.tasks x hx
        exact ⟨hsource, r', List.mem_append_left _ hcap, List.mem_append_left _ hask⟩
      · intro b hb r' hbr
        rcases List.mem_append.mp hb with hold | hnew
        · refine h.owned b hold r' ?_
          have hlt := h.fresh b hold
          have hne : b.id ≠ a.id := by omega
          simpa [Media.record, hne] using hbr
        · obtain rfl : b = a := by simpa using hnew
          exact haid.2
      · intro b r' hb
        rcases List.mem_append.mp hb with hold | hnew
        · exact .inr (h.has_task hn hold)
        · obtain ⟨rfl, rfl⟩ : b = a.id ∧ r' = r := by simpa using hnew
          refine .inl ⟨⟨hwait, Nat.succ_pos _, ?_⟩, a, hlatest, rfl⟩
          simp [latestIsCapture, Media.latestAttachment, Media.record, haid.2]
      · intro b hb hbs
        rcases List.mem_append.mp hb with hold | hnew
        · obtain ⟨r', hr'⟩ := h.stored b hold hbs
          exact ⟨r', List.mem_append_left _ hr'⟩
        · obtain rfl : b = a := by simpa using hnew
          exact ⟨r, by simp⟩

theorem Routed.acceptCapture (h : Routed s) (r : ℕ) : Routed (s.acceptCapture r) := by
  unfold Media.acceptCapture
  split
  · rename_i hr
    obtain ⟨hwait, hquery, hin⟩ := h.request r hr
    have hn : ¬ Routes s := by
      intro hroutes
      rw [(h.routes hroutes).1] at hr
      cases hr
    refine ⟨h.fresh, h.older, h.asked, ?_, ?_, fun hroutes => absurd hroutes hn, h.tasks, h.owned,
      h.once, h.captured, h.stored⟩
    · intro r' hr'
      cases hr'
    · intro r' hr'
      have htaken : s.incoming ++ [r] = [r] := by rw [hin, List.nil_append]
      change r' ∈ s.incoming ++ [r] at hr'
      rw [htaken] at hr'
      obtain rfl : r' = r := by simpa using hr'
      exact ⟨htaken, rfl, hwait, hquery⟩
  · exact h

theorem Routed.queueHighresCapture (h : Routed s) {query : Text}
    (hq : orderly s (.highresCapture query)) : Routed (s.queueHighresCapture query) := by
  obtain ⟨hin, hcalm⟩ := hq
  have hincoming : ∀ r, r ∉ s.incoming := by
    intro r hr
    rw [hin] at hr
    cases hr
  unfold Media.queueHighresCapture
  simp only
  split
  · rename_i hblank
    rw [if_pos hblank] at hcalm
    refine ⟨h.fresh, h.older, h.asked, ?_, fun r hr => absurd hr (hincoming r),
      fun hroutes => absurd hroutes hcalm.2, h.tasks, h.owned, h.once, h.captured, h.stored⟩
    intro r hr
    change s.captureRequest = some r at hr
    rw [hcalm.1] at hr
    cases hr
  · rename_i hasked
    rw [if_neg hasked] at hcalm
    have hn : ¬ Routes s := fun hroutes => hcalm hroutes.2
    refine ⟨h.fresh, h.older, ?_, ?_, fun r hr => absurd hr (hincoming r),
      fun hroutes => absurd hroutes.2 hcalm, ?_, ?_, h.once, fun a r hc => .inr ?_, ?_⟩
    · intro r q hrq
      rcases List.mem_append.mp hrq with hold | hnew
      · exact h.asked r q hold
      · obtain ⟨rfl, rfl⟩ : r = s.requests ∧ q = strip query := by simpa using hnew
        exact ⟨hasked, strip_strip query⟩
    · intro r hr
      obtain rfl : s.requests = r := Option.some.inj hr
      exact ⟨rfl, List.mem_append_right _ List.mem_cons_self, hin⟩
    · intro x hx
      obtain ⟨hsource, r', hcap, hask⟩ := h.tasks x hx
      exact ⟨hsource, r', List.mem_append_left _ hcap, List.mem_append_left _ hask⟩
    · exact fun b hb r hbr => h.owned b hb r (by simpa using hbr)
    · exact h.has_task hn (by simpa using hc)
    · intro b hb hbs
      obtain ⟨r', hr'⟩ := h.stored b hb hbs
      exact ⟨r', List.mem_append_left _ hr'⟩

theorem markAttachmentPending_eq (s : Media) :
    ∃ findings, s.markAttachmentPending = { s with findings := findings } := by
  unfold Media.markAttachmentPending
  split
  · exact ⟨_, rfl⟩
  · split
    · exact ⟨_, rfl⟩
    · exact ⟨_, rfl⟩

/-- A callback takes a capture that is due to its task. -/
theorem Routed.route (h : Routed s) {a : Attachment} (hl : s.latestAttachment = some a)
    (ha : a.source = .capture) (hroutes : Routes s) :
    Routed { s with
      callbacks := s.callbacks - 1
      awaitingCapture := false
      pendingCaptureQuery := []
      captureTasks := s.captureTasks ++ [(a, s.pendingCaptureQuery)] } := by
  obtain ⟨hnone, hin, b, r, hb, hcap, hask, hnew⟩ := h.routes hroutes
  obtain rfl : a = b := Option.some.inj (hl.symm.trans hb)
  have hmem : a ∈ s.attachments := List.mem_of_getLast? hl
  refine ⟨h.fresh, ?_, h.asked, ?_, ?_, fun hr => Bool.noConfusion hr.1, ?_, h.owned, ?_, ?_,
    h.stored⟩
  · intro x hx
    rcases List.mem_append.mp hx with hold | hnew
    · exact h.older x hold
    · obtain rfl : x = (a, s.pendingCaptureQuery) := by simpa using hnew
      exact h.fresh a hmem
  · intro r' hr'
    change s.captureRequest = some r' at hr'
    rw [hnone] at hr'
    cases hr'
  · intro r' hr'
    change r' ∈ s.incoming at hr'
    rw [hin] at hr'
    cases hr'
  · intro x hx
    rcases List.mem_append.mp hx with hold | hnew
    · exact h.tasks x hold
    · obtain rfl : x = (a, s.pendingCaptureQuery) := by simpa using hnew
      exact ⟨ha, r, hcap, hask⟩
  · rw [List.map_append, List.nodup_append]
    refine ⟨h.once, by simp, ?_⟩
    intro i hi j hj
    obtain ⟨x, hx, rfl⟩ := List.mem_map.mp hi
    obtain rfl : j = a.id := by simpa using hj
    exact hnew x hx
  · intro c r' hc
    refine .inr ?_
    rcases h.captured c r' hc with ⟨-, d, hd, hdc⟩ | ⟨x, hx, hxc⟩
    · obtain rfl : a = d := Option.some.inj (hl.symm.trans hd)
      exact ⟨(a, s.pendingCaptureQuery), by simp, hdc⟩
    · exact ⟨x, List.mem_append_left _ hx, hxc⟩

theorem Routed.callback (h : Routed s) (hc : 0 < s.callbacks) :
    Routed (Media.onAttachmentStored { s with callbacks := s.callbacks - 1 }) := by
  have hpending : ¬ Routes s → Routed
      (Media.markAttachmentPending { s with callbacks := s.callbacks - 1 }) := by
    intro hn
    have hstill : ¬ Routes { s with callbacks := s.callbacks - 1 } :=
      fun hr => hn ⟨hr.1, hc, hr.2.2⟩
    obtain ⟨findings, heq⟩ := markAttachmentPending_eq { s with callbacks := s.callbacks - 1 }
    rw [heq]
    exact ⟨h.fresh, h.older, h.asked, h.request, h.incoming, fun hr => absurd hr hstill, h.tasks,
      h.owned, h.once, fun a r ha => .inr (h.has_task hn ha), h.stored⟩
  unfold Media.onAttachmentStored
  split
  · rename_i hl
    change s.latestAttachment = none at hl
    refine hpending fun hr => ?_
    obtain ⟨a, ha, -⟩ := latest_of_routes hr
    rw [hl] at ha
    cases ha
  · rename_i a hl
    split
    · rename_i hroute
      refine h.route hl hroute.2 ⟨hroute.1, hc, ?_⟩
      rw [latestIsCapture, show s.latestAttachment = some a from hl, Option.any_some]
      simpa using hroute.2
    · rename_i hroute
      refine hpending fun hr => ?_
      obtain ⟨b, hb, hcap⟩ := latest_of_routes hr
      obtain rfl : a = b := Option.some.inj (hl.symm.trans hb)
      exact hroute ⟨hr.1, hcap⟩

theorem latest_remove {i : ℕ} (h : ∀ a, s.latestAttachment = some a → a.id ≠ i) :
    (s.removeAttachment (some i)).latestAttachment = s.latestAttachment := by
  simp only [Media.latestAttachment, Media.removeAttachment] at h ⊢
  rcases List.eq_nil_or_concat s.attachments with hnil | ⟨init, a, hinit⟩
  · simp [hnil]
  · have ha : a.id ≠ i := h a (by simp [hinit])
    simp [hinit, ha]

/-- Removing a capture that has its task leaves the item that a callback looks for. -/
theorem Routed.remove (h : Routed s) {x : Attachment × Text} (hx : x ∈ s.captureTasks) :
    Routed (s.removeAttachment (some x.1.id)) := by
  obtain ⟨-, r, hcap, -⟩ := h.tasks x hx
  have hlatest : ∀ a, s.latestAttachment = some a → (a.source = .capture → Routes s) →
      a.id ≠ x.1.id := by
    intro a ha hroutes hid
    have hmem : a ∈ s.attachments := List.mem_of_getLast? ha
    have hsource : a.source = .capture := h.owned a hmem r (by rw [hid]; exact hcap)
    obtain ⟨-, -, b, -, hb, -, -, hb'⟩ := h.routes (hroutes hsource)
    obtain rfl : a = b := Option.some.inj (ha.symm.trans hb)
    exact hb' x hx hid.symm
  have hroutes : Routes s → (s.removeAttachment (some x.1.id)).latestAttachment =
      s.latestAttachment := fun hr => latest_remove fun a ha => hlatest a ha fun _ => hr
  have hback : Routes (s.removeAttachment (some x.1.id)) → Routes s := by
    intro hr
    by_contra hn
    have hsame : (s.removeAttachment (some x.1.id)).latestAttachment = s.latestAttachment := by
      refine latest_remove fun a ha => hlatest a ha fun hsource => ?_
      exact absurd ⟨hr.1, hr.2.1, by simp [latestIsCapture, ha, hsource]⟩ hn
    have hiff : Routes (s.removeAttachment (some x.1.id)) ↔ Routes s := routes_iff rfl rfl hsame
    exact hn (hiff.mp hr)
  refine ⟨?_, h.older, h.asked, h.request, h.incoming, ?_, h.tasks, ?_, h.once, ?_, ?_⟩
  · exact fun a ha => h.fresh a (List.mem_of_mem_filter ha)
  · intro hr
    have hrs := hback hr
    rw [hroutes hrs]
    exact h.routes hrs
  · exact fun b hb => h.owned b (List.mem_of_mem_filter hb)
  · intro a r' hc
    rcases h.captured a r' hc with ⟨hr, hb⟩ | htask
    · have hiff : Routes (s.removeAttachment (some x.1.id)) ↔ Routes s :=
        routes_iff rfl rfl (hroutes hr)
      refine .inl ⟨hiff.mpr hr, ?_⟩
      rw [hroutes hr]
      exact hb
    · exact .inr htask
  · exact fun a ha => h.stored a (List.mem_of_mem_filter ha)

/-- Items that are removed or new leave the tasks as they are. -/
theorem Worked.store (h : Worked site s) (hs : ∀ b ∈ s'.attachments, b ∈ s.attachments ∨
      ∀ x ∈ s.captureTasks, x.1.id ≠ b.id) (ht : s'.captureTasks = s.captureTasks)
    (hd : s'.captureTaskIds = s.captureTaskIds) (hl : s'.log = s.log) : Worked site s' := by
  constructor
  · rw [hl, ht]
    exact h.sent
  · rw [hl, ht]
    exact h.begun
  · rw [ht]
    exact h.requesting
  · rw [hl]
    exact h.quiet
  · rw [hd, hl]
    exact h.registered
  · rw [ht]
    exact h.removing
  · rw [ht, hd]
    rintro n x hx ⟨b, hb, hbx⟩
    rcases hs b hb with hold | hnew
    · exact h.kept n x hx ⟨b, hold, hbx⟩
    · exact absurd hbx.symm (hnew x (List.mem_of_getElem? hx))
  · rw [hl]
    exact h.proper

/-- A new task has not begun. -/
theorem Worked.create (h : Worked site s) (x : Attachment × Text)
    (hs : s'.attachments = s.attachments) (ht : s'.captureTasks = s.captureTasks ++ [x])
    (hd : s'.captureTaskIds = s.captureTaskIds) (hl : s'.log = s.log) : Worked site s' := by
  have hget : ∀ (n : ℕ) y, s.captureTasks[n]? = some y →
      (s.captureTasks ++ [x])[n]? = some y := by
    intro n y hy
    rw [List.getElem?_append_left (List.getElem?_eq_some_iff.mp hy).1]
    exact hy
  constructor
  · rw [hl, ht]
    intro n p hp
    obtain ⟨y, hy, hrest⟩ := h.sent n p hp
    exact ⟨y, hget n y hy, hrest⟩
  · rw [hl, ht]
    intro n hn
    obtain ⟨y, p, hy, hrest⟩ := h.begun n hn
    exact ⟨y, p, hget n y hy, hrest⟩
  · rw [ht]
    intro n i hn
    obtain ⟨y, hy, hi⟩ := h.requesting n i hn
    exact ⟨y, hget n y hy, hi⟩
  · rw [hl]
    exact h.quiet
  · rw [hd, hl]
    exact h.registered
  · rw [ht]
    intro m job attachment hm
    obtain ⟨y, hy, hrest⟩ := h.removing m job attachment hm
    exact ⟨y, List.mem_append_left _ hy, hrest⟩
  · rw [ht, hs, hd]
    intro n y hy hb
    by_cases hidle : site (.capture n) = .idle
    · exact .inl (by simp [hidle])
    · obtain ⟨z, p, hz, -, -⟩ := h.begun n hidle
      obtain rfl : z = y := Option.some.inj ((hget n z hz).symm.trans hy)
      exact h.kept n z hz hb
  · rw [hl]
    exact h.proper

/-- A new attachment has no task yet. -/
theorem Sound.stores (h : Sound site s) {a : Attachment} (ha : a.id = s.sequence)
    (hs : s'.attachments = s.attachments ++ [a]) (ht : s'.captureTasks = s.captureTasks)
    (hd : s'.captureTaskIds = s.captureTaskIds) (hl : s'.log = s.log) : Worked site s' := by
  refine h.worked.store (fun b hb => ?_) ht hd hl
  rw [hs] at hb
  rcases List.mem_append.mp hb with hold | hnew
  · exact .inl hold
  · obtain rfl : b = a := by simpa using hnew
    exact .inr (h.routed.no_task ha)

theorem Sound.apply (h : Sound site s) {mv : Move} (hopen : mv.Open s) (hm : orderly s mv) :
    Sound site (s.apply mv) := by
  cases mv with
  | upload u =>
    refine ⟨h.routed.storeUpload hm, ?_⟩
    change Worked site (s.storeUpload u)
    unfold Media.storeUpload
    split
    · exact h.worked
    · rename_i a ha
      exact Worked.record (h.stores (readAttachment_ok ha).1 rfl rfl rfl rfl) (by simp) (by simp)
        (by simp)
  | callback =>
    refine ⟨h.routed.callback hopen, ?_⟩
    change Worked site (Media.onAttachmentStored { s with callbacks := s.callbacks - 1 })
    have hpending : Worked site
        (Media.markAttachmentPending { s with callbacks := s.callbacks - 1 }) := by
      obtain ⟨findings, heq⟩ := markAttachmentPending_eq { s with callbacks := s.callbacks - 1 }
      rw [heq]
      exact h.worked.store (fun b hb => .inl hb) rfl rfl rfl
    unfold Media.onAttachmentStored
    split
    · exact hpending
    · split
      · exact h.worked.create _ rfl rfl rfl rfl
      · exact hpending
  | highresCapture query =>
    refine ⟨h.routed.queueHighresCapture hm, ?_⟩
    change Worked site (s.queueHighresCapture query)
    unfold Media.queueHighresCapture
    simp only
    split
    · exact h.worked.store (fun b hb => .inl hb) rfl rfl rfl
    · exact Worked.record (h.worked.store (fun b hb => .inl hb) rfl rfl rfl) (by simp) (by simp)
        (by simp)
  | acceptCapture r =>
    refine ⟨h.routed.acceptCapture r, ?_⟩
    change Worked site (s.acceptCapture r)
    unfold Media.acceptCapture
    split
    · exact h.worked.store (fun b hb => .inl hb) rfl rfl rfl
    · exact h.worked
  | storeCapture r u =>
    refine ⟨h.routed.storeCapture hopen u, ?_⟩
    change Worked site (s.storeCapture r u)
    have htaken : Worked site { s with incoming := s.incoming.erase r } :=
      h.worked.store (fun b hb => .inl hb) rfl rfl rfl
    unfold Media.storeCapture
    simp only
    split
    · exact htaken
    · split
      · exact htaken
      · rename_i a ha
        exact Worked.record (h.stores (readAttachment_ok ha).1 rfl rfl rfl rfl) (by simp)
          (by simp) (by simp)
  | prompt transcript prompt action source =>
    change Sound site (s.queuePrompt transcript prompt action source)
    unfold Media.queuePrompt
    simp only
    split
    · exact h
    · split
      · exact h.same rfl rfl rfl rfl rfl rfl rfl rfl rfl rfl
      · split
        · exact h.same rfl rfl rfl rfl rfl rfl rfl rfl rfl rfl
        · split
          · exact h.same rfl rfl rfl rfl rfl rfl rfl rfl rfl rfl
          · exact h.same rfl rfl rfl rfl rfl rfl rfl rfl rfl rfl
  | interruption =>
    change Sound site s.clearPendingOnInterruption
    unfold Media.clearPendingOnInterruption
    split
    · exact h
    · exact h.same rfl rfl rfl rfl rfl rfl rfl rfl rfl rfl

/-- Where a call that is no capture's and removes nothing stands makes no difference. -/
theorem Worked.move (h : Worked site s) (ht : ∀ n, t ≠ .capture n)
    (hold : ∀ job attachment, site t ≠ .answering job attachment true)
    (hl : ∀ job attachment, l ≠ .answering job attachment true) :
    Worked (Function.update site t l) s := by
  have hcapture : ∀ n, Function.update site t l (.capture n) = site (.capture n) := by
    intro n
    rw [Function.update_of_ne (Ne.symm (ht n))]
  have hanswering : ∀ m job attachment,
      Function.update site t l (.respond m) = .answering job attachment true ↔
        site (.respond m) = .answering job attachment true := by
    intro m job attachment
    by_cases hm : Task.respond m = t
    · subst t
      rw [Function.update_self]
      exact ⟨fun heq => absurd heq (hl _ _), fun heq => absurd heq (hold _ _)⟩
    · rw [Function.update_of_ne hm]
  constructor
  · simpa only [hcapture] using h.sent
  · simpa only [hcapture] using h.begun
  · simpa only [hcapture] using h.requesting
  · simpa only [hcapture] using h.quiet
  · simpa only [hcapture] using h.registered
  · simpa only [hanswering] using h.removing
  · simpa only [hcapture, hanswering] using h.kept
  · exact h.proper

theorem Sound.move (h : Sound site s) (ht : ∀ n, t ≠ .capture n)
    (hold : ∀ job attachment, site t ≠ .answering job attachment true)
    (hl : ∀ job attachment, l ≠ .answering job attachment true) :
    Sound (Function.update site t l) s :=
  ⟨h.routed, h.worked.move ht hold hl⟩

/-- A call stands where it stands. -/
theorem Sound.at (h : Sound site s) (hl : site t = l) : Sound (Function.update site t l) s := by
  rw [← hl, Function.update_eq_self]
  exact h

theorem captureQuery_eq {query : Text} (h : query ≠ [] ∧ strip query = query) :
    captureQuery query = query := by
  rw [captureQuery, h.2, if_neg h.1]

/-- The analysis of a capture is requested. -/
theorem Sound.send (h : Sound site s) (hl : site (.capture n) = .idle) {x : Attachment × Text}
    (hx : s.captureTasks[n]? = some x) {p : Job} (hp : p.attachment = x.1)
    (hq : p.transcript = captureQuery x.2) :
    Sound (Function.update site (.capture n) (.requesting x.1.id))
      (s.record (.sent (.capture n) p)) := by
  have hmem : x ∈ s.captureTasks := List.mem_of_getElem? hx
  obtain ⟨hsource, r, hcap, hask⟩ := h.routed.tasks x hmem
  have hother : ∀ k, k ≠ n →
      Function.update site (.capture n) (.requesting x.1.id) (.capture k) = site (.capture k) := by
    intro k hk
    simp [hk]
  refine ⟨h.routed.record (by simp) (by simp), ?_, ?_, ?_, ?_, ?_, ?_, ?_, ?_⟩
  · intro k q hkq
    rcases List.mem_append.mp hkq with hold | hnew
    · obtain ⟨y, hy, hqy, hidle⟩ := h.worked.sent k q hold
      have hk : k ≠ n := by
        rintro rfl
        exact hidle hl
      exact ⟨y, hy, hqy, by rwa [hother k hk]⟩
    · obtain ⟨hkn, hqp⟩ : k = n ∧ q = p := by simpa using hnew
      subst k q
      exact ⟨x, hx, hp, by simp⟩
  · intro k hk
    by_cases hkn : k = n
    · subst k
      exact ⟨x, p, hx, by simp, hp⟩
    · rw [hother k hkn] at hk
      obtain ⟨y, q, hy, hq', hqy⟩ := h.worked.begun k hk
      exact ⟨y, q, hy, List.mem_append_left _ hq', hqy⟩
  · intro k i hk
    by_cases hkn : k = n
    · subst k
      exact ⟨x, hx, (Site.requesting.inj (by simpa using hk)).symm⟩
    · exact h.worked.requesting k i (by rwa [hother k hkn] at hk)
  · intro k hk
    have hquiet : .answered (.capture k) ∉ s.log ∧ .failed (.capture k) ∉ s.log := by
      by_cases hkn : k = n
      · subst k
        exact h.worked.quiet n (by rw [hl]; simp)
      · exact h.worked.quiet k (by rwa [hother k hkn] at hk)
    simpa using hquiet
  · intro job hjob
    obtain ⟨k, rfl, hk, hquiet⟩ := h.worked.registered job hjob
    have hkn : k ≠ n := by
      rintro rfl
      rw [hl] at hk
      cases hk
    exact ⟨k, rfl, by rwa [hother k hkn], by simpa using hquiet⟩
  · exact fun m job attachment hm => h.worked.removing m job attachment (by simpa using hm)
  · intro k y hy hb
    by_cases hkn : k = n
    · subst k
      exact .inl (by simp)
    · simpa [hkn] using h.worked.kept k y hy hb
  · refine along_concat.mpr ⟨h.worked.proper, fun k q hkq => ?_⟩
    obtain ⟨rfl, rfl⟩ : n = k ∧ p = q := by simpa using hkq
    rw [hp, hq, captureQuery_eq (h.routed.asked r x.2 hask)]
    refine ⟨hsource, ⟨r, hcap, hask⟩, fun j q hj => ?_⟩
    obtain ⟨y, hy, hqy, hidle⟩ := h.worked.sent j q hj
    rw [hqy]
    intro hid
    -- two tasks for one item are one
    have hjn : j = n := by
      have hlen : j < (s.captureTasks.map fun x => x.1.id).length := by
        simpa using (List.getElem?_eq_some_iff.mp hy).1
      refine (List.getElem?_inj hlen h.routed.once).mp ?_
      simp [hx, hy, hid]
    subst j
    exact hidle hl

/-- The request of a capture's analysis has failed, and the capture is removed. -/
theorem Sound.fail (h : Sound site s) {i : ℕ} (hl : site (.capture n) = .requesting i) :
    Sound (Function.update site (.capture n) .finished)
      ((s.removeAttachment (some i)).record (.failed (.capture n))) := by
  obtain ⟨x, hx, rfl⟩ := h.worked.requesting n i hl
  have hother : ∀ k, k ≠ n →
      Function.update site (.capture n) .finished (.capture k) = site (.capture k) := by
    intro k hk
    simp [hk]
  refine ⟨(h.routed.remove (List.mem_of_getElem? hx)).record (by simp) (by simp),
    ?_, ?_, ?_, ?_, ?_, ?_, ?_, ?_⟩
  · intro k q hkq
    obtain ⟨y, hy, hqy, hidle⟩ := h.worked.sent k q (by simpa using hkq)
    refine ⟨y, hy, hqy, ?_⟩
    by_cases hkn : k = n
    · simp [hkn]
    · rwa [hother k hkn]
  · intro k hk
    obtain ⟨y, q, hy, hq, hqy⟩ := h.worked.begun k (by
      by_cases hkn : k = n
      · rw [hkn, hl]
        simp
      · rwa [hother k hkn] at hk)
    exact ⟨y, q, hy, List.mem_append_left _ hq, hqy⟩
  · intro k i hk
    have hkn : k ≠ n := by
      rintro rfl
      simp at hk
    exact h.worked.requesting k i (by rwa [hother k hkn] at hk)
  · intro k hk
    have hkn : k ≠ n := by
      rintro rfl
      simp at hk
    have hquiet := h.worked.quiet k (by rwa [hother k hkn] at hk)
    simpa [hkn] using hquiet
  · intro job hjob
    obtain ⟨k, rfl, hk, hquiet⟩ := h.worked.registered job hjob
    have hkn : k ≠ n := by
      rintro rfl
      rw [hl] at hk
      cases hk
    exact ⟨k, rfl, by rwa [hother k hkn], by simpa [hkn] using hquiet⟩
  · exact fun m job attachment hm => h.worked.removing m job attachment (by simpa using hm)
  · rintro k y hy ⟨b, hb, hby⟩
    obtain ⟨hmem, hid⟩ := List.mem_filter.mp hb
    have hkn : k ≠ n := by
      rintro rfl
      obtain rfl : y = x := Option.some.inj (hy.symm.trans hx)
      simp [hby] at hid
    simpa [hkn] using h.worked.kept k y hy ⟨b, hmem, hby⟩
  · exact along_concat.mpr ⟨h.worked.proper, fun k q hkq => by cases hkq⟩

/-- The job of a capture has its id. -/
theorem Sound.register (h : Sound site s) {i : ℕ} (hl : site (.capture n) = .requesting i) :
    Sound (Function.update site (.capture n) .finished)
      { s with captureTaskIds := .capture n :: s.captureTaskIds } := by
  have hother : ∀ k, k ≠ n →
      Function.update site (.capture n) .finished (.capture k) = site (.capture k) := by
    intro k hk
    simp [hk]
  refine ⟨⟨h.routed.fresh, h.routed.older, h.routed.asked, h.routed.request, h.routed.incoming,
    h.routed.routes, h.routed.tasks, h.routed.owned, h.routed.once, h.routed.captured,
    h.routed.stored⟩, ?_, ?_, ?_, ?_, ?_, ?_, ?_, h.worked.proper⟩
  · intro k q hkq
    obtain ⟨y, hy, hqy, hidle⟩ := h.worked.sent k q hkq
    refine ⟨y, hy, hqy, ?_⟩
    by_cases hkn : k = n
    · simp [hkn]
    · rwa [hother k hkn]
  · intro k hk
    refine h.worked.begun k ?_
    by_cases hkn : k = n
    · rw [hkn, hl]
      simp
    · rwa [hother k hkn] at hk
  · intro k i hk
    have hkn : k ≠ n := by
      rintro rfl
      simp at hk
    exact h.worked.requesting k i (by rwa [hother k hkn] at hk)
  · intro k hk
    have hkn : k ≠ n := by
      rintro rfl
      simp at hk
    exact h.worked.quiet k (by rwa [hother k hkn] at hk)
  · intro job hjob
    rcases List.mem_cons.mp hjob with rfl | hold
    · exact ⟨n, rfl, by simp, h.worked.quiet n (by rw [hl]; simp)⟩
    · obtain ⟨k, rfl, hk, hquiet⟩ := h.worked.registered job hold
      refine ⟨k, rfl, ?_, hquiet⟩
      by_cases hkn : k = n
      · simp [hkn]
      · rwa [hother k hkn]
  · exact fun m job attachment hm => h.worked.removing m job attachment (by simpa using hm)
  · intro k y hy hb
    by_cases hkn : k = n
    · subst k
      exact .inr (.inl List.mem_cons_self)
    · rw [hother k hkn]
      rcases h.worked.kept k y hy hb with hbusy | hreg | ⟨m, job, hm⟩
      · exact .inl hbusy
      · exact .inr (.inl (List.mem_cons_of_mem _ hreg))
      · exact .inr (.inr ⟨m, job, by simpa using hm⟩)

/-- A job is answered by call `m`; if it is a capture's, the call goes on to remove the capture. -/
theorem Worked.answer (h : Worked site s) {job : JobId}
    (hfin : ∀ n, job = .capture n → site (.capture n) = .finished)
    (hold : ∀ j a, site (.respond m) ≠ .answering j a true)
    (hnew : ∀ (n : ℕ) x, job = .capture n → job ∈ s.captureTaskIds →
      s.captureTasks[n]? = some x → l = .answering job (some x.1.id) true)
    (hl : ∀ j a, l = .answering j a true → ∃ x ∈ s.captureTasks, a = some x.1.id) :
    Worked (Function.update site (.respond m) l)
      { s.record (.answered job) with
        captureTaskIds := s.captureTaskIds.filter (· ≠ job) } := by
  refine ⟨?_, ?_, ?_, ?_, ?_, ?_, ?_, ?_⟩
  · intro k q hkq
    simpa using h.sent k q (by simpa using hkq)
  · intro k hk
    obtain ⟨y, q, hy, hq, hqy⟩ := h.begun k (by simpa using hk)
    exact ⟨y, q, hy, List.mem_append_left _ hq, hqy⟩
  · exact fun k i hk => h.requesting k i (by simpa using hk)
  · intro k hk
    replace hk : site (.capture k) ≠ .finished := by simpa using hk
    have hjob : job ≠ .capture k := fun hjob => hk (hfin k hjob)
    simpa [Ne.symm hjob] using h.quiet k hk
  · intro j hj
    obtain ⟨hmem, hne⟩ : j ∈ s.captureTaskIds ∧ j ≠ job := by simpa using hj
    obtain ⟨k, rfl, hk, hquiet⟩ := h.registered j hmem
    exact ⟨k, rfl, by simpa using hk, by simpa [hne] using hquiet⟩
  · intro k j a hk
    by_cases hkm : k = m
    · subst k
      exact hl j a (by simpa using hk)
    · exact h.removing k j a (by simpa [hkm] using hk)
  · intro k y hy hb
    rcases h.kept k y hy hb with hbusy | hreg | ⟨m', j, hm'⟩
    · exact .inl (by simpa using hbusy)
    · by_cases hjob : job = .capture k
      · refine .inr (.inr ⟨m, job, ?_⟩)
        rw [Function.update_self]
        exact hnew k y hjob (by rwa [hjob]) hy
      · exact .inr (.inl (by simpa [Ne.symm hjob] using hreg))
    · have hne : m' ≠ m := by
        rintro rfl
        exact hold j _ hm'
      exact .inr (.inr ⟨m', j, by simpa [hne] using hm'⟩)
  · exact along_concat.mpr ⟨h.proper, fun k q hkq => by cases hkq⟩

theorem Routed.answer (h : Routed s) (job : JobId) :
    Routed { s.record (.answered job) with
      captureTaskIds := s.captureTaskIds.filter (· ≠ job) } := by
  have hrec := h.record (e := .answered job) (by simp) (by simp)
  exact ⟨hrec.fresh, hrec.older, hrec.asked, hrec.request, hrec.incoming, hrec.routes, hrec.tasks,
    hrec.owned, hrec.once, hrec.captured, hrec.stored⟩

/-- The answer of a capture ends, and the capture is removed. -/
theorem Sound.drop (h : Sound site s) {job : JobId} {attachment : Option ℕ}
    (hl : site (.respond m) = .answering job attachment true) :
    Sound (Function.update site (.respond m) .finished) (s.removeAttachment attachment) := by
  obtain ⟨x, hx, rfl⟩ := h.worked.removing m job attachment hl
  refine ⟨h.routed.remove hx, ?_, ?_, ?_, ?_, ?_, ?_, ?_, h.worked.proper⟩
  · exact fun k q hkq => by simpa using h.worked.sent k q hkq
  · exact fun k hk => h.worked.begun k (by simpa using hk)
  · exact fun k i hk => h.worked.requesting k i (by simpa using hk)
  · exact fun k hk => h.worked.quiet k (by simpa using hk)
  · intro j hj
    obtain ⟨k, rfl, hk, hquiet⟩ := h.worked.registered j hj
    exact ⟨k, rfl, by simpa using hk, hquiet⟩
  · intro k j a hk
    have hkm : k ≠ m := by
      rintro rfl
      simp at hk
    exact h.worked.removing k j a (by simpa [hkm] using hk)
  · rintro k y hy ⟨b, hb, hby⟩
    obtain ⟨hmem, hid⟩ := List.mem_filter.mp hb
    have hne : b.id ≠ x.1.id := by simpa using hid
    rcases h.worked.kept k y hy ⟨b, hmem, hby⟩ with hbusy | hreg | ⟨m', j, hm'⟩
    · exact .inl (by simpa using hbusy)
    · exact .inr (.inl hreg)
    · have hm : m' ≠ m := by
        rintro rfl
        obtain ⟨-, hatt, -⟩ := Site.answering.inj (hl.symm.trans hm')
        exact hne (hby.trans (Option.some.inj hatt).symm)
      exact .inr (.inr ⟨m', j, by simpa [hm] using hm'⟩)

end Moves

section Programs
variable {v : MediaView} {s : Media} {t : Task} {n m : ℕ} {l : Site} {job : JobId} {r : Response}
  {Q : Unit → MediaView → Media → Prop} {E : Exception → MediaView → Media → Prop}

/-- A call that leaves. -/
abbrev Left (t : Task) (v : MediaView) (s : Media) : Prop :=
  Sound (Function.update v.site t .finished) s

/-- A frame is queued, and the call stands at its place. -/
theorem wp_queueFrame (f : Frame) (hs : Sound (Function.update v.site t l) s)
    (h : ∀ v', Sound v'.site v'.shared → v'.site t = l → Q () v' v'.shared)
    (hE : ∀ e v', Sound v'.site v'.shared → v'.site t = l → E e v' v'.shared) :
    Wp captureContract t Q E (queueFrame l f) v s := by
  simp only [queueFrame, wp_bind, wp_modify]
  rw [wp_pause]
  refine ⟨⟨hs.same rfl rfl rfl rfl rfl rfl rfl rfl rfl rfl, fun _ _ => trivial⟩,
    fun v' i _ hi hl _ => ?_⟩
  split
  · exact hE _ v' hi hl
  · exact h v' hi hl

theorem wp_startPending (hi : Sound v.site v.shared) (hl : v.site (.start n) = .idle)
    (h : ∀ v' s', Left (.start n) v' s' → Q () v' s') :
    Wp captureContract (.start n) Q E (startPending n) v v.shared := by
  have hmove : ∀ {site : Task → Site} {s' : Media} {l : Site}, Sound site s' →
      (∀ j a, site (.start n) ≠ .answering j a true) → (∀ j a, l ≠ .answering j a true) →
      Sound (Function.update site (.start n) l) s' :=
    fun hs hold hl => hs.move (by simp) hold hl
  simp only [startPending, wp_bind, wp_get, wp_modify]
  have hcleared : Sound v.site v.shared.clearPending :=
    hi.same rfl rfl rfl rfl rfl rfl rfl rfl rfl rfl
  have hleft : Left (.start n) v v.shared.clearPending :=
    hmove hcleared (by simp [hl]) (by simp)
  split
  · exact h v _ hleft
  · split
    · exact h v _ hleft
    · rename_i a _
      split
      · exact h v _ hleft
      · split
        · exact h v _ hleft
        · simp only [wp_bind, wp_modify]
          rw [wp_pause]
          have hactive : Sound v.site
              { v.shared.clearPending with activeAttachmentId := some a.id } :=
            hcleared.same rfl rfl rfl rfl rfl rfl rfl rfl rfl rfl
          refine ⟨⟨hmove ⟨hactive.routed.record (by simp) (by simp),
            hactive.worked.record (by simp) (by simp) (by simp)⟩ (by simp [hl]) (by simp),
            fun _ _ => trivial⟩, fun v' i _ hi' hl' _ => ?_⟩
          split
          · have hfailed : Sound v'.site { v'.shared with activeAttachmentId := none } :=
              hi'.same rfl rfl rfl rfl rfl rfl rfl rfl rfl rfl
            exact h v' _ (hmove ⟨hfailed.routed.record (by simp) (by simp),
              hfailed.worked.record (by simp) (by simp) (by simp)⟩ (by simp [hl']) (by simp))
          · have hnoted : Sound v'.site (v'.shared.setRunning runningNote) :=
              hi'.same rfl rfl rfl rfl rfl rfl rfl rfl rfl rfl
            exact h v' _ (hmove hnoted (by simp [hl']) (by simp))

theorem wp_emitAnalysisResponse {isCapture : Bool} (hs : Sound
      (Function.update v.site (.respond m) (.answering job r.attachment isCapture)) s)
    (h : ∀ v', Sound v'.site v'.shared →
      v'.site (.respond m) = .answering job r.attachment isCapture → Q () v' v'.shared)
    (hE : ∀ e v', Sound v'.site v'.shared →
      v'.site (.respond m) = .answering job r.attachment isCapture → E e v' v'.shared) :
    Wp captureContract (.respond m) Q E (emitAnalysisResponse job r isCapture) v s := by
  simp only [emitAnalysisResponse, wp_bind, wp_modify]
  rw [wp_pause]
  refine ⟨⟨?_, fun _ _ => trivial⟩, fun v₁ _ _ hi₁ hl₁ _ => ?_⟩
  · cases isCapture with
    | true => exact hs
    | false => exact hs.same rfl rfl rfl rfl rfl rfl rfl rfl rfl rfl
  refine wp_queueFrame _ (hi₁.at hl₁) (fun v₂ hi₂ hl₂ => ?_) hE
  refine wp_queueFrame _ (hi₂.at hl₂) (fun v₃ hi₃ hl₃ => ?_) hE
  refine wp_queueFrame _ (hi₃.at hl₃) (fun v₄ hi₄ hl₄ => ?_) hE
  exact wp_queueFrame _ (hi₄.at hl₄) h hE

/-- A response is taken; the one of a capture names what is to be removed. -/
theorem Sound.answer (h : Sound v.site v.shared) (hl : v.site (.respond m) = .idle)
    (ha : captureContract.allowed v (.respond m) (.response job r))
    (hs : v.shared.record (.answered job) = s) :
    Sound (Function.update v.site (.respond m)
        (.answering job r.attachment (decide (job ∈ s.captureTaskIds))))
      { s with captureTaskIds := s.captureTaskIds.filter (· ≠ job) } := by
  subst hs
  have hnamed : ∀ n, job = .capture n → v.site (.capture n) = .finished ∧
      ∀ payload, .sent (.capture n) payload ∈ v.shared.log →
        r.attachment = some payload.attachment.id := by
    rintro n rfl
    exact ha.2 hl
  have hx : ∀ n, job = .capture n →
      ∃ x, v.shared.captureTasks[n]? = some x ∧ r.attachment = some x.1.id := by
    intro n hjob
    obtain ⟨hfin, hatt⟩ := hnamed n hjob
    obtain ⟨x, p, hx, hp, hpx⟩ := h.worked.begun n (by rw [hfin]; simp)
    exact ⟨x, hx, by rw [hatt p hp, hpx]⟩
  refine ⟨h.routed.answer job, h.worked.answer (fun n hjob => (hnamed n hjob).1) (by simp [hl])
    ?_ ?_⟩
  · intro n x hjob hmem hxn
    obtain ⟨y, hy, hatt⟩ := hx n hjob
    obtain rfl : x = y := Option.some.inj (hxn.symm.trans hy)
    rw [hatt]
    simp [hmem]
  · intro j a hj
    obtain ⟨rfl, rfl, hmem⟩ := Site.answering.inj hj
    obtain ⟨n, hjob, -, -⟩ := h.worked.registered job (of_decide_eq_true hmem)
    obtain ⟨y, hy, hatt⟩ := hx n hjob
    exact ⟨y, List.mem_of_getElem? hy, hatt⟩

/-- The last act of a response, on either way out. -/
theorem Sound.finish {site : Task → Site} {isCapture : Bool} (h : Sound site s)
    (hl : site (.respond m) = .answering job r.attachment isCapture) :
    Sound (Function.update site (.respond m) .finished)
      (if isCapture then s.removeAttachment r.attachment else s) := by
  cases isCapture with
  | true => exact h.drop hl
  | false => exact h.move (by simp) (by simp [hl]) (by simp)

theorem Sound.closeActive (h : Left t v s) (attachment : Option ℕ) :
    Left t v (s.closeActive attachment) := by
  unfold Media.closeActive
  split
  · exact h.same rfl rfl rfl rfl rfl rfl rfl rfl rfl rfl
  · exact h

theorem Sound.noteAnalysis {site : Task → Site} (h : Sound site s) (r : Response) :
    Sound site (s.noteAnalysis r) := by
  have happend : Sound site (s.appendFindings (strip r.appendPatch)) := by
    unfold Media.appendFindings
    simp only
    split
    · exact h
    · exact h.same rfl rfl rfl rfl rfl rfl rfl rfl rfl rfl
  unfold Media.noteAnalysis
  split
  · exact h
  · split
    · exact h
    · split
      · exact happend
      · split
        · exact h.same rfl rfl rfl rfl rfl rfl rfl rfl rfl rfl
        · exact h

theorem wp_handleJobResponse (hi : Sound v.site v.shared) (hl : v.site (.respond m) = .idle)
    (ha : captureContract.allowed v (.respond m) (.response job r))
    (h : ∀ v' s', Left (.respond m) v' s' → Q () v' s')
    (hE : ∀ e v' s', Left (.respond m) v' s' → E e v' s') :
    Wp captureContract (.respond m) Q E (handleJobResponse job r) v v.shared := by
  simp only [handleJobResponse, removeCapture, wp_bind, wp_get, wp_modify]
  generalize hs : v.shared.record (.answered job) = s
  have hanswer := hi.answer hl ha hs
  generalize decide (job ∈ s.captureTaskIds) = isCapture at hanswer ⊢
  split
  · have hfinish := hanswer.finish (Function.update_self ..)
    rw [Function.update_idem] at hfinish
    exact h v _ hfinish
  · simp only [wp_bind, wp_modify, wp_ensure]
    refine wp_emitAnalysisResponse ?_ ?_ ?_
    · cases isCapture with
      | true => exact hanswer
      | false => exact hanswer.noteAnalysis r
    · exact fun v' hi' hl' => h v' _ (Sound.closeActive (hi'.finish hl') _)
    · exact fun e v' hi' hl' => hE e v' _ (hi'.finish hl')

theorem wp_analyzeCapture {x : Attachment × Text} (hi : Sound v.site v.shared)
    (hl : v.site (.capture n) = .idle) (hx : v.shared.captureTasks[n]? = some x)
    (h : ∀ v' s', Left (.capture n) v' s' → Q () v' s') :
    Wp captureContract (.capture n) Q E (analyzeCapture n x.1 x.2) v v.shared := by
  simp only [analyzeCapture, wp_bind, wp_modify]
  rw [wp_pause]
  refine ⟨⟨hi.send hl hx rfl rfl, fun _ _ => trivial⟩, fun v' i _ hi' hl' _ => ?_⟩
  split
  · exact h v' _ (hi'.fail hl')
  · exact h v' _ (hi'.register hl')

/-- A task that does not move. -/
theorem Sound.stay {loop : Loop} (hi : Sound v.site v.shared)
    (hl : v.site t = media.head t loop) :
    Ends captureContract media t loop v v.shared :=
  ⟨hi.at hl, fun _ _ => trivial⟩

theorem wp_turn {loop : Loop} {i : Reply} (hi : Sound v.site v.shared)
    (hl : v.site t = media.head t loop) (ha : captureContract.allowed v t i) :
    Wp captureContract t (fun b v s => Ends captureContract media t b v s)
      (fun e v s => Ends captureContract media t (media.crash t e) v s)
      (turn t loop i) v v.shared := by
  unfold turn
  split
  · simp only [wp_bind, wp_pure]
    exact wp_startPending hi hl fun _ _ hleft => ⟨hleft, fun _ _ => trivial⟩
  · simp only [wp_bind, wp_pure]
    exact wp_handleJobResponse hi hl ha (fun _ _ hleft => ⟨hleft, fun _ _ => trivial⟩)
      fun _ _ _ hleft => ⟨hleft, fun _ _ => trivial⟩
  · simp only [analyzeTask, wp_bind, wp_get]
    split
    · exact hi.stay hl
    · rename_i a query hx
      simp only [wp_bind, wp_pure]
      exact wp_analyzeCapture (x := (a, query)) hi hl hx fun _ _ hleft =>
        ⟨hleft, fun _ _ => trivial⟩
  · exact hi.stay hl

theorem keeps_captureContract : Keeps captureContract media (outside orderly) where
  refl _ _ := trivial
  trans _ _ _ _ _ _ := trivial
  outside v s hi henv := by
    obtain ⟨mv, hopen, hm, rfl⟩ := henv
    exact ⟨hi.apply hopen hm, fun _ => trivial⟩
  body _ _ _ _ hi hl ha := wp_turn hi hl ha

end Programs

theorem sound_fresh (base : SpeakerContext.Message) :
    Sound (freshMedia base).view.site (freshMedia base).view.shared := by
  have hidle : ∀ t, (freshMedia base).view.site t = .idle := fun _ => rfl
  refine ⟨⟨?_, ?_, ?_, ?_, ?_, ?_, ?_, ?_, List.nodup_nil, ?_, ?_⟩, ?_, ?_, ?_, ?_, ?_, ?_, ?_,
    along_nil⟩
  · exact fun a ha => absurd ha List.not_mem_nil
  · exact fun x hx => absurd hx List.not_mem_nil
  · exact fun r q hq => absurd hq List.not_mem_nil
  · exact fun r hr => by cases hr
  · exact fun r hr => absurd hr List.not_mem_nil
  · exact fun hr => by cases hr.1
  · exact fun x hx => absurd hx List.not_mem_nil
  · exact fun b hb => absurd hb List.not_mem_nil
  · exact fun a r hc => absurd hc List.not_mem_nil
  · exact fun a ha => absurd ha List.not_mem_nil
  · exact fun n p hp => absurd hp List.not_mem_nil
  · exact fun n hn => absurd (hidle _) hn
  · exact fun n i hn => by cases (hidle _).symm.trans hn
  · exact fun n _ => ⟨List.not_mem_nil, List.not_mem_nil⟩
  · exact fun job hjob => absurd hjob List.not_mem_nil
  · exact fun m job a hm => by cases (hidle _).symm.trans hm
  · exact fun n x hx => by cases hx

/-- No callback is due, no task of a capture is at work, no answer is given, and every analysis
of a capture is answered or has failed. -/
def Resting (v : MediaView) : Prop :=
  v.shared.callbacks = 0 ∧
    (∀ n < v.shared.captureTasks.length, v.site (.capture n) = .finished) ∧
    (∀ m, v.site (.respond m) = .idle ∨ v.site (.respond m) = .finished) ∧
    ∀ n p, .sent (.capture n) p ∈ v.shared.log →
      .answered (.capture n) ∈ v.shared.log ∨ .failed (.capture n) ∈ v.shared.log

/-- Only captures are analysed as captures, each with the query of its request and once at most.
At rest every one that was stored has been sent, and none is left in the store. -/
theorem captures_analysed_once {base : SpeakerContext.Message} {p : MediaPool}
    (h : media.Reach (fun v t i => answersOnce v t i ∧ answersNamed v t i) (outside orderly)
      (freshMedia base) p) :
    Along Asked p.shared.log ∧ (Resting p.view →
      (∀ a r, .captured a r ∈ p.shared.log →
        ∃ n payload, .sent (.capture n) payload ∈ p.shared.log ∧ payload.attachment.id = a) ∧
      ∀ a ∈ p.shared.attachments, a.source = .upload) := by
  obtain ⟨hrouted, hworked⟩ := keeps_captureContract.invariant (sound_fresh base) h
  refine ⟨hworked.proper, fun ⟨hcallbacks, hfinished, hresponds, hsettled⟩ => ?_⟩
  have hn : ¬ Routes p.shared := by
    rintro ⟨-, hpos, -⟩
    have hzero : p.shared.callbacks = 0 := hcallbacks
    omega
  have htask : ∀ a r, .captured a r ∈ p.shared.log →
      ∃ (n : ℕ) (x : Attachment × Text), p.shared.captureTasks[n]? = some x ∧ x.1.id = a ∧
        p.view.site (.capture n) = .finished := by
    intro a r hc
    obtain ⟨x, hx, hxa⟩ := hrouted.has_task hn hc
    obtain ⟨n, hlen, rfl⟩ := List.getElem_of_mem hx
    exact ⟨n, _, List.getElem?_eq_getElem hlen, hxa, hfinished n hlen⟩
  constructor
  · intro a r hc
    obtain ⟨n, x, hx, hxa, hsite⟩ := htask a r hc
    obtain ⟨y, q, hy, hq, hqy⟩ := hworked.begun n (by rw [hsite]; simp)
    obtain rfl : x = y := Option.some.inj (hx.symm.trans hy)
    exact ⟨n, q, hq, by rw [hqy, hxa]⟩
  · intro a ha
    cases hsource : a.source with
    | upload => rfl
    | capture =>
      obtain ⟨r, hc⟩ := hrouted.stored a ha hsource
      obtain ⟨n, x, hx, hxa, hsite⟩ := htask a.id r hc
      rcases hworked.kept n x hx ⟨a, ha, hxa.symm⟩ with hbusy | hreg | ⟨m, job, hm⟩
      · exact absurd hsite hbusy
      · obtain ⟨k, hk, -, hans, hfail⟩ := hworked.registered _ hreg
        obtain ⟨-, q, -, hq, -⟩ := hworked.begun n (by rw [hsite]; simp)
        rcases hsettled n q hq with hanswered | hfailed
        · exact absurd hanswered hans
        · exact absurd hfailed hfail
      · rcases hresponds m with hidle | hfin
        · rw [hidle] at hm
          cases hm
        · rw [hfin] at hm
          cases hm

section Runs

def prompt : SpeakerContext.Message := .chat "system".toList (.text "Be brief.".toList)

def play (m : Move) : System.Act Media Reply Task := .outside (·.apply m)

/-- A capture is stored, and an upload before the callback of the capture runs. -/
def overtaken : List (System.Act Media Reply Task) :=
  [play (.highresCapture ['a']), play (.acceptCapture 0),
    play (.storeCapture 0 (some { bytes := 1 })), play (.upload { bytes := 1 }), play .callback,
    play .callback]

/-- An upload and a capture, which is analysed, answered and removed. -/
def analysed : List (System.Act Media Reply Task) :=
  [play (.upload { bytes := 1 }), play .callback, play (.highresCapture ['a']),
    play (.acceptCapture 0), play (.storeCapture 0 (some { bytes := 1 })), play .callback,
    .turn (.capture 0) .start, .turn (.capture 0) .go,
    .turn (.respond 0) (.response (.capture 0) { tts := ['b'], attachment := some 2 }),
    .turn (.respond 0) .go, .turn (.respond 0) .go, .turn (.respond 0) .go, .turn (.respond 0) .go,
    .turn (.respond 0) .go]

/-- The job of the only capture. -/
def captureJob : Job :=
  { transcript := ['a']
    attachment :=
      { id := 2, kind := .image, name := "attachment".toList, contentType := "image/*".toList
        bytes := 1, source := .capture }
    analysisPrompt := ['a']
    priorAnalysis := []
    analysisAction := .new }

theorem captures_analysed_once_analysed :
    (media.play (freshMedia prompt) analysed).shared.log =
      [.uploaded 1, .asked 0 ['a'], .captured 2 0, .sent (.capture 0) captureJob,
        .answered (.capture 0)] ∧
    Resting (media.play (freshMedia prompt) analysed).view ∧
    Along Asked (media.play (freshMedia prompt) analysed).shared.log ∧
    (Resting (media.play (freshMedia prompt) analysed).view →
      (∀ a r, .captured a r ∈ (media.play (freshMedia prompt) analysed).shared.log →
        ∃ n payload, .sent (.capture n) payload ∈
          (media.play (freshMedia prompt) analysed).shared.log ∧ payload.attachment.id = a) ∧
      ∀ a ∈ (media.play (freshMedia prompt) analysed).shared.attachments, a.source = .upload) := by
  have hplay : media.Playable (fun v t i => answersOnce v t i ∧ answersNamed v t i)
      (outside orderly) (freshMedia prompt) analysed := by
    refine ⟨⟨.upload { bytes := 1 }, trivial, fun hr => absurd hr (by decide +kernel), rfl⟩,
      ⟨.callback, by decide +kernel, trivial, rfl⟩,
      ⟨.highresCapture ['a'], trivial, And.intro (by decide +kernel) (by decide +kernel), rfl⟩,
      ⟨.acceptCapture 0, trivial, trivial, rfl⟩,
      ⟨.storeCapture 0 (some { bytes := 1 }), by decide +kernel, trivial, rfl⟩,
      ⟨.callback, by decide +kernel, trivial, rfl⟩, ⟨trivial, trivial⟩, ⟨trivial, trivial⟩,
      ⟨fun _ => ⟨⟨captureJob, by decide +kernel⟩, by decide +kernel, by decide +kernel⟩,
        fun _ => ⟨by decide +kernel, ?_⟩⟩, ⟨trivial, trivial⟩, ⟨trivial, trivial⟩,
      ⟨trivial, trivial⟩, ⟨trivial, trivial⟩, ⟨trivial, trivial⟩, trivial⟩
    intro payload hp
    have hlog : (media.play (freshMedia prompt) (analysed.take 8)).shared.log =
        [.uploaded 1, .asked 0 ['a'], .captured 2 0, .sent (.capture 0) captureJob] := by
      decide +kernel
    change .sent (.capture 0) payload ∈
      (media.play (freshMedia prompt) (analysed.take 8)).shared.log at hp
    rw [hlog] at hp
    obtain rfl : payload = captureJob := by simpa using hp
    rfl
  have hlog : (media.play (freshMedia prompt) analysed).shared.log =
      [.uploaded 1, .asked 0 ['a'], .captured 2 0, .sent (.capture 0) captureJob,
        .answered (.capture 0)] := by
    decide +kernel
  refine ⟨hlog, ⟨by decide +kernel, by decide +kernel, fun m => ?_, fun n p hp => ?_⟩,
    captures_analysed_once (System.reach_play hplay)⟩
  · by_cases hm : m = 0
    · subst m
      exact .inr (by decide +kernel)
    · have hstay : (media.play (freshMedia prompt) analysed).task (.respond m) =
          (freshMedia prompt).task (.respond m) :=
        System.play_task _ fun i => by simp [analysed, play, hm]
      exact .inl (congrArg Prod.fst hstay)
  · change .sent (.capture n) p ∈ (media.play (freshMedia prompt) analysed).shared.log at hp
    rw [hlog] at hp
    obtain ⟨rfl, rfl⟩ : n = 0 ∧ p = captureJob := by simpa using hp
    exact .inl (by decide +kernel)

/-- The callback finds the upload, and the capture before it is never analysed. -/
theorem capture_overtaken :
    ∃ p, media.Reach answersOnce (outside fun _ _ => True) (freshMedia prompt) p ∧
      p.shared.log = [.asked 0 ['a'], .captured 1 0, .uploaded 2] ∧
      ¬ (Along Asked p.shared.log ∧ (Resting p.view →
        (∀ a r, .captured a r ∈ p.shared.log →
          ∃ n payload, .sent (.capture n) payload ∈ p.shared.log ∧ payload.attachment.id = a) ∧
        ∀ a ∈ p.shared.attachments, a.source = .upload)) := by
  have hplay : media.Playable answersOnce (outside fun _ _ => True) (freshMedia prompt)
      overtaken :=
    ⟨⟨.highresCapture ['a'], trivial, trivial, rfl⟩, ⟨.acceptCapture 0, trivial, trivial, rfl⟩,
      ⟨.storeCapture 0 (some { bytes := 1 }), by decide +kernel, trivial, rfl⟩,
      ⟨.upload { bytes := 1 }, trivial, trivial, rfl⟩,
      ⟨.callback, by decide +kernel, trivial, rfl⟩, ⟨.callback, by decide +kernel, trivial, rfl⟩,
      trivial⟩
  have hlog : (media.play (freshMedia prompt) overtaken).shared.log =
      [.asked 0 ['a'], .captured 1 0, .uploaded 2] := by
    decide +kernel
  refine ⟨_, System.reach_play hplay, hlog, fun hall => ?_⟩
  have hresting : Resting (media.play (freshMedia prompt) overtaken).view := by
    refine ⟨by decide +kernel, by decide +kernel, fun m => .inl ?_, fun n p hp => ?_⟩
    · have hstay : (media.play (freshMedia prompt) overtaken).task (.respond m) =
          (freshMedia prompt).task (.respond m) :=
        System.play_task _ fun i => by simp [overtaken, play]
      exact congrArg Prod.fst hstay
    · change .sent (.capture n) p ∈ (media.play (freshMedia prompt) overtaken).shared.log at hp
      rw [hlog] at hp
      simp at hp
  obtain ⟨n, payload, hsent, -⟩ := (hall.2 hresting).1 1 0 (by rw [hlog]; simp)
  rw [hlog] at hsent
  simp at hsent

end Runs

end VoiceAgent.CaptureRuns
