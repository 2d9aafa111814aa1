import VoiceAgent.MediaAnalysis

/-!
Runs of upload analyses. The running note and the active attachment follow the one analysis that
is outstanding, as long as its answer comes after the dispatch, with something to say and the
attachment it is about, and no other analysis is dispatched before.
-/
namespace VoiceAgent.MediaRuns

open StreamingEvents Coroutine Interleaving MediaAnalysis
open SpeakerContext hiding Event

/-- An upload analysis that was sent, has not failed and is not answered. -/
def Outstanding (log : List Event) (n : ℕ) : Prop :=
  (∃ p, .sent (.upload n) p ∈ log) ∧ .failed (.upload n) ∉ log ∧ .answered (.upload n) ∉ log

/-- The running note is in the Speaker's context. -/
def Noted (s : Media) : Prop := stateMessage runningNote ∈ s.context.drop 1

section Conditions

/-- What `start_pending` would send is queued, for the latest upload, which is not active. -/
def Ready (s : Media) : Prop :=
  s.pendingTranscript ≠ [] ∧ ∃ a, s.latestUserAttachment = some a ∧
    some a.id = s.pendingAttachmentId ∧ some a.id ≠ s.activeAttachmentId

def startsAlone (v : MediaView) (t : Task) (i : Reply) : Prop := match t, i with
  | .start n, .start => v.site (.start n) = .idle → Ready v.shared →
    ∀ k, ¬ Outstanding v.shared.log k
  | _, _ => True

/-- A job is answered when the call that requested it has its id. -/
def answersKnown (v : MediaView) (t : Task) (i : Reply) : Prop := match t, i with
  | .respond m, .response (.upload n) _ => v.site (.respond m) = .idle →
    v.site (.start n) = .finished
  | .respond m, .response (.capture n) _ => v.site (.respond m) = .idle →
    v.site (.capture n) = .finished
  | _, _ => True

/-- The response of an upload analysis has a text to speak and names its attachment. -/
def answersSpoken (v : MediaView) (t : Task) (i : Reply) : Prop := match t, i with
  | .respond m, .response (.upload n) r => v.site (.respond m) = .idle → strip r.tts ≠ [] ∧
    ∀ p, .sent (.upload n) p ∈ v.shared.log → r.attachment = some p.attachment.id
  | _, _ => True

/-- No frame of an upload's answer fails to be queued. -/
def framesQueued (v : MediaView) (t : Task) (i : Reply) : Prop := match t, i with
  | .respond m, .failed => ∀ job a, v.site (.respond m) ≠ .answering job a false
  | _, _ => True

def orderly (v : MediaView) (t : Task) (i : Reply) : Prop :=
  startsAlone v t i ∧ answersKnown v t i ∧ answersSpoken v t i ∧ framesQueued v t i

end Conditions

/-- The context is the base prompt and pinned states, each under its prefix. -/
def Laid (s : Media) : Prop :=
  ∃ base f, s.context = base :: speakerStatePrefixes.filterMap f ∧ Keyed f

structure Clean (site : Task → Site) (s : Media) : Prop where
  laid : Laid s
  noted : Noted s ↔ ∃ n, Outstanding s.log n ∧ ∀ a, site (.start n) ≠ .requesting a
  only : ∀ n k, Outstanding s.log n → Outstanding s.log k → n = k
  requesting : ∀ n a, site (.start n) = .requesting a → Outstanding s.log n
  idle : ∀ n, site (.start n) = .idle → (∀ p, .sent (.upload n) p ∉ s.log) ∧
    .failed (.upload n) ∉ s.log ∧ .answered (.upload n) ∉ s.log
  active : ∀ a, s.activeAttachmentId = some a →
    (∃ n p, Outstanding s.log n ∧ .sent (.upload n) p ∈ s.log ∧ p.attachment.id = a) ∨
      ∃ m job, site (.respond m) = .answering job (some a) false
  captures : ∀ n, .upload n ∉ s.captureTaskIds
  registered : ∀ n p, .sent (.capture n) p ∈ s.log → site (.capture n) = .finished →
    .failed (.capture n) ∉ s.log → .answered (.capture n) ∉ s.log → .capture n ∈ s.captureTaskIds

def noteContract : Contract Task Site Media Reply where
  inv v := Clean v.site v.shared
  rely _ _ _ := True
  allowed v t i := answersOnce v t i ∧ orderly v t i

section Context
variable {s : Media} {content : Text}

theorem running_mem : mediaAnalysisRunningPrefix ∈ speakerStatePrefixes := by
  simp [speakerStatePrefixes]

theorem strip_runningNote : strip runningNote = runningNote := by decide +kernel

theorem slotOf_runningNote :
    slotOf (stateMessage runningNote) = some mediaAnalysisRunningPrefix := by
  refine (slotOf_eq_some running_mem).mpr ?_
  exact List.prefix_append _ _

theorem mem_layout {base : Message} {f : Text → Option Message} (hf : Keyed f)
    (hs : s.context = base :: speakerStatePrefixes.filterMap f) :
    Noted s ↔ f mediaAnalysisRunningPrefix = some (stateMessage runningNote) := by
  rw [Noted, hs, List.drop_succ_cons, List.drop_zero, List.mem_filterMap]
  constructor
  · rintro ⟨p, -, hp⟩
    obtain rfl : p = mediaAnalysisRunningPrefix :=
      Option.some.inj ((hf p _ hp).symm.trans slotOf_runningNote)
    exact hp
  · exact fun h => ⟨_, running_mem, h⟩

/-- Pinning the note or nothing is what the context then says. -/
theorem Laid.setRunning (h : Laid s) (hc : content = [] ∨ content = runningNote) :
    Laid (s.setRunning content) ∧ (Noted (s.setRunning content) ↔ content = runningNote) := by
  obtain ⟨base, f, hs, hf⟩ := h
  have hpre : content = [] ∨ mediaAnalysisRunningPrefix <+: content := by
    rcases hc with rfl | rfl
    · exact .inl rfl
    · exact .inr (List.prefix_append _ _)
  have hkeyed := keyed_update hf running_mem hpre
  have hlay : (s.setRunning content).context = base :: speakerStatePrefixes.filterMap
      (Function.update f mediaAnalysisRunningPrefix
        (if strip content = [] then none else some (stateMessage (strip content)))) := by
    have hset : setPinnedState (base :: (speakerStatePrefixes.filterMap f ++ []))
        mediaAnalysisRunningPrefix content = base :: (speakerStatePrefixes.filterMap
          (Function.update f mediaAnalysisRunningPrefix
            (if strip content = [] then none else some (stateMessage (strip content)))) ++ []) :=
      setPinnedState_layout hf (by simp)
    simpa only [Media.setRunning, hs, List.append_nil] using hset
  refine ⟨⟨base, _, hlay, hkeyed⟩, ?_⟩
  rw [mem_layout hkeyed hlay, Function.update_self]
  rcases hc with rfl | rfl
  · have hne : ([] : Text) ≠ runningNote := by decide +kernel
    simp [strip, rstrip, hne]
  · have hne : runningNote ≠ [] := by decide +kernel
    simp [strip_runningNote, hne]

end Context

section Record
variable {log : List Event} {e : Event} {n : ℕ} {p : Job}

/-- The upload analysis that an event is about. -/
def uploadOf : Event → Option ℕ
  | .sent (.upload n) _ | .failed (.upload n) | .answered (.upload n) => some n
  | _ => none

@[simp] theorem record_activeAttachmentId (s : Media) (e : Event) :
    (s.record e).activeAttachmentId = s.activeAttachmentId := rfl

@[simp] theorem noted_record (s : Media) (e : Event) : Noted (s.record e) ↔ Noted s := Iff.rfl

theorem noted_congr {s s' : Media} (hc : s'.context = s.context) : Noted s' ↔ Noted s := by
  rw [Noted, Noted, hc]

theorem outstanding_snoc (he : uploadOf e ≠ some n) :
    Outstanding (log ++ [e]) n ↔ Outstanding log n := by
  have hsent : ∀ p, e ≠ .sent (.upload n) p := by
    rintro p rfl
    exact he rfl
  have hfailed : e ≠ .failed (.upload n) := by
    rintro rfl
    exact he rfl
  have hanswered : e ≠ .answered (.upload n) := by
    rintro rfl
    exact he rfl
  simp [Outstanding, Ne.symm hfailed, Ne.symm hanswered, fun p => Ne.symm (hsent p)]

theorem outstanding_sent (hf : .failed (.upload n) ∉ log) (ha : .answered (.upload n) ∉ log) :
    Outstanding (log ++ [.sent (.upload n) p]) n :=
  ⟨⟨p, by simp⟩, by simpa using hf, by simpa using ha⟩

theorem not_outstanding_failed : ¬ Outstanding (log ++ [.failed (.upload n)]) n :=
  fun h => h.2.1 (by simp)

theorem not_outstanding_answered : ¬ Outstanding (log ++ [.answered (.upload n)]) n :=
  fun h => h.2.2 (by simp)

end Record

section Moves
variable {site site' : Task → Site} {s s' : Media} {n m : ℕ} {l : Site} {t : Task} {e : Event}

/-- Only the context, the active attachment, the captures' jobs and the record count. -/
theorem Clean.same (h : Clean site s) (hc : s'.context = s.context)
    (ha : s'.activeAttachmentId = s.activeAttachmentId)
    (hd : s'.captureTaskIds = s.captureTaskIds) (hl : s'.log = s.log) : Clean site s' := by
  constructor
  · rw [Laid, hc]
    exact h.laid
  · rw [Noted, hc, hl]
    exact h.noted
  · rw [hl]
    exact h.only
  · rw [hl]
    exact h.requesting
  · rw [hl]
    exact h.idle
  · rw [ha, hl]
    exact h.active
  · rw [hd]
    exact h.captures
  · rw [hd, hl]
    exact h.registered

/-- An event that is about no upload analysis, at a step that moves no such call either. -/
theorem Clean.aside (h : Clean site s) (he : uploadOf e = none)
    (hstart : ∀ k, site' (.start k) = site (.start k))
    (hrespond : ∀ m, site' (.respond m) = site (.respond m)) (hc : s'.context = s.context)
    (ha : s'.activeAttachmentId = s.activeAttachmentId) (hl : s'.log = s.log ++ [e])
    (hd : ∀ n, .upload n ∉ s'.captureTaskIds)
    (hreg : ∀ n p, .sent (.capture n) p ∈ s.log ++ [e] → site' (.capture n) = .finished →
      .failed (.capture n) ∉ s.log ++ [e] → .answered (.capture n) ∉ s.log ++ [e] →
        .capture n ∈ s'.captureTaskIds) : Clean site' s' := by
  have hout : ∀ n, Outstanding (s.log ++ [e]) n ↔ Outstanding s.log n :=
    fun n => outstanding_snoc (by simp [he])
  have hmem : ∀ {f n}, uploadOf f = some n → (f ∈ s.log ++ [e] ↔ f ∈ s.log) := by
    intro f n hf
    have hne : f ≠ e := by
      rintro rfl
      rw [he] at hf
      cases hf
    simp [hne]
  constructor
  · rw [Laid, hc]
    exact h.laid
  · rw [noted_congr hc, hl]
    simpa only [hout, hstart] using h.noted
  · rw [hl]
    simpa only [hout] using h.only
  · rw [hl]
    simpa only [hout, hstart] using h.requesting
  · intro n hn
    rw [hl]
    obtain ⟨hsent, hfailed, hanswered⟩ := h.idle n (by rwa [hstart] at hn)
    refine ⟨fun p => ?_, ?_, ?_⟩
    · rw [hmem (n := n) rfl]
      exact hsent p
    · rw [hmem (n := n) rfl]
      exact hfailed
    · rw [hmem (n := n) rfl]
      exact hanswered
  · intro a hactive
    rw [ha] at hactive
    rw [hl]
    rcases h.active a hactive with ⟨n, p, hn, hp, hpa⟩ | ⟨m, job, hm⟩
    · exact .inl ⟨n, p, (hout n).mpr hn, List.mem_append_left _ hp, hpa⟩
    · exact .inr ⟨m, job, by rwa [hrespond]⟩
  · exact hd
  · rw [hl]
    exact hreg

/-- An event of the store or of a request. -/
theorem Clean.record (h : Clean site s) (he : ∀ job p, e ≠ .sent job p)
    (hf : ∀ job, e ≠ .failed job) (ha : ∀ job, e ≠ .answered job) :
    Clean site (s.record e) := by
  have hnone : uploadOf e = none := by
    cases e with
    | sent job p => exact absurd rfl (he job p)
    | failed job => exact absurd rfl (hf job)
    | answered job => exact absurd rfl (ha job)
    | _ => rfl
  refine h.aside hnone (fun _ => rfl) (fun _ => rfl) rfl rfl rfl h.captures ?_
  intro n p hp hfin hfailed hanswered
  refine h.registered n p ?_ hfin (fun hold => hfailed (List.mem_append_left _ hold))
    fun hold => hanswered (List.mem_append_left _ hold)
  simpa [Ne.symm (he (.capture n) p)] using hp

/-- A call stands where it stands. -/
theorem Clean.at (h : Clean site s) (hl : site t = l) : Clean (Function.update site t l) s := by
  rw [← hl, Function.update_eq_self]
  exact h

/-- Where a response stands that does not answer an upload makes no difference. -/
theorem Clean.respond (h : Clean site s)
    (hold : ∀ job a, site (.respond m) ≠ .answering job a false) :
    Clean (Function.update site (.respond m) l) s where
  laid := h.laid
  noted := by simpa using h.noted
  only := h.only
  requesting := by simpa using h.requesting
  idle := by simpa using h.idle
  active a ha := by
    rcases h.active a ha with hout | ⟨m', job, hm'⟩
    · exact .inl hout
    · have hne : m' ≠ m := by
        rintro rfl
        exact hold job _ hm'
      exact .inr ⟨m', job, by simpa [hne] using hm'⟩
  captures := h.captures
  registered := by simpa using h.registered

/-- A call of `start_pending` that sends nothing. -/
theorem Clean.skip (h : Clean site s) (hl : site (.start n) = .idle) :
    Clean (Function.update site (.start n) .finished) s := by
  have hnot : ¬ Outstanding s.log n := by
    rintro ⟨⟨p, hp⟩, -, -⟩
    exact (h.idle n hl).1 p hp
  have hother : ∀ k, k ≠ n →
      Function.update site (.start n) .finished (.start k) = site (.start k) := by
    intro k hk
    simp [hk]
  refine ⟨h.laid, ?_, h.only, ?_, ?_, by simpa using h.active, h.captures,
    by simpa using h.registered⟩
  · rw [h.noted]
    constructor
    · rintro ⟨k, hk, hkr⟩
      refine ⟨k, hk, fun a => ?_⟩
      rw [hother k (by rintro rfl; exact hnot hk)]
      exact hkr a
    · rintro ⟨k, hk, hkr⟩
      refine ⟨k, hk, fun a => ?_⟩
      rw [← hother k (by rintro rfl; exact hnot hk)]
      exact hkr a
  · intro k a hk
    have hkn : k ≠ n := by
      rintro rfl
      simp at hk
    exact h.requesting k a (by rwa [hother k hkn] at hk)
  · intro k hk
    have hkn : k ≠ n := by
      rintro rfl
      simp at hk
    exact h.idle k (by rwa [hother k hkn] at hk)

/-- The only outstanding analysis is sent. -/
theorem Clean.send (h : Clean site s) (hl : site (.start n) = .idle)
    (halone : ∀ k, ¬ Outstanding s.log k) {p : Job} {a : ℕ} (hp : p.attachment.id = a) :
    Clean (Function.update site (.start n) (.requesting a))
      ({ s with activeAttachmentId := some a }.record (.sent (.upload n) p)) := by
  obtain ⟨-, hfailed, hanswered⟩ := h.idle n hl
  have hout : ∀ k, Outstanding (s.log ++ [.sent (.upload n) p]) k → k = n := by
    intro k hk
    by_contra hkn
    exact halone k ((outstanding_snoc (by simpa [uploadOf] using Ne.symm hkn)).mp hk)
  have hself : Outstanding (s.log ++ [.sent (.upload n) p]) n := outstanding_sent hfailed hanswered
  refine ⟨h.laid, ?_, ?_, ?_, ?_, ?_, h.captures, ?_⟩
  · constructor
    · intro hnoted
      obtain ⟨k, hk, -⟩ := h.noted.mp hnoted
      exact absurd hk (halone k)
    · rintro ⟨k, hk, hkr⟩
      obtain rfl : k = n := hout k hk
      exact absurd (by simp) (hkr a)
  · exact fun k j hk hj => (hout k hk).trans (hout j hj).symm
  · intro k b hk
    by_cases hkn : k = n
    · subst k
      exact hself
    · exact absurd (h.requesting k b (by simpa [hkn] using hk)) (halone k)
  · intro k hk
    have hkn : k ≠ n := by
      rintro rfl
      simp at hk
    simpa [hkn] using h.idle k (by simpa [hkn] using hk)
  · intro b hb
    exact .inl ⟨n, p, hself, by simp, hp.trans (Option.some.inj hb)⟩
  · intro k q hq hfin hf ha
    exact h.registered k q (by simpa using hq) (by simpa using hfin) (by simpa using hf)
      (by simpa using ha)

/-- The request of the outstanding analysis has failed. -/
theorem Clean.fail (h : Clean site s) {a : ℕ} (hl : site (.start n) = .requesting a) :
    Clean (Function.update site (.start n) .finished)
      ({ s with activeAttachmentId := none }.record (.failed (.upload n))) := by
  have hself : Outstanding s.log n := h.requesting n a hl
  have hout : ∀ k, ¬ Outstanding (s.log ++ [.failed (.upload n)]) k := by
    intro k hk
    by_cases hkn : k = n
    · subst k
      exact not_outstanding_failed hk
    · have hkn' := (outstanding_snoc (by simpa [uploadOf] using Ne.symm hkn)).mp hk
      exact hkn (h.only k n hkn' hself)
  refine ⟨h.laid, ?_, fun k _ hk => absurd hk (hout k), ?_, ?_, ?_, h.captures, ?_⟩
  · constructor
    · intro hnoted
      obtain ⟨k, hk, hkr⟩ := h.noted.mp hnoted
      obtain rfl : k = n := h.only k n hk hself
      exact absurd hl (hkr a)
    · rintro ⟨k, hk, -⟩
      exact absurd hk (hout k)
  · intro k b hk
    have hkn : k ≠ n := by
      rintro rfl
      simp at hk
    exact absurd (h.only k n (h.requesting k b (by simpa [hkn] using hk)) hself) hkn
  · intro k hk
    have hkn : k ≠ n := by
      rintro rfl
      simp at hk
    simpa [hkn] using h.idle k (by simpa [hkn] using hk)
  · intro b hb
    cases hb
  · intro k q hq hfin hf ha
    exact h.registered k q (by simpa using hq) (by simpa using hfin) (by simpa using hf)
      (by simpa using ha)

/-- The analysis is dispatched, and the note says so. -/
theorem Clean.note (h : Clean site s) {a : ℕ} (hl : site (.start n) = .requesting a) :
    Clean (Function.update site (.start n) .finished) (s.setRunning runningNote) := by
  have hself : Outstanding s.log n := h.requesting n a hl
  obtain ⟨hlaid, hnoted⟩ := h.laid.setRunning (.inr rfl)
  refine ⟨hlaid, ?_, h.only, ?_, ?_, ?_, h.captures, ?_⟩
  · exact iff_of_true (hnoted.mpr rfl) ⟨n, hself, by simp⟩
  · intro k b hk
    have hkn : k ≠ n := by
      rintro rfl
      simp at hk
    exact h.requesting k b (by simpa [hkn] using hk)
  · intro k hk
    have hkn : k ≠ n := by
      rintro rfl
      simp at hk
    exact h.idle k (by simpa [hkn] using hk)
  · intro b hb
    rcases h.active b hb with hout | ⟨m, job, hm⟩
    · exact .inl hout
    · exact .inr ⟨m, job, by simpa using hm⟩
  · intro k q hq hfin hf ha
    exact h.registered k q hq (by simpa using hfin) hf ha

/-- The outstanding analysis is answered, and the note taken away. -/
theorem Clean.answerUpload (h : Clean site s) (hl : site (.respond m) = .idle)
    (hfin : site (.start n) = .finished) (hself : Outstanding s.log n) {attachment : Option ℕ}
    (hatt : ∀ p, .sent (.upload n) p ∈ s.log → attachment = some p.attachment.id) :
    Clean (Function.update site (.respond m) (.answering (.upload n) attachment false))
      ((s.record (.answered (.upload n))).setRunning []) := by
  have hout : ∀ k, ¬ Outstanding (s.log ++ [.answered (.upload n)]) k := by
    intro k hk
    by_cases hkn : k = n
    · subst k
      exact not_outstanding_answered hk
    · have hkn' := (outstanding_snoc (by simpa [uploadOf] using Ne.symm hkn)).mp hk
      exact hkn (h.only k n hkn' hself)
  have hlaid : Laid (s.record (.answered (.upload n))) := h.laid
  obtain ⟨hlaid, hnoted⟩ := hlaid.setRunning (.inl rfl)
  have hne : ([] : Text) ≠ runningNote := by decide +kernel
  refine ⟨hlaid, ?_, fun k _ hk => absurd hk (hout k), ?_, ?_, ?_, h.captures, ?_⟩
  · refine iff_of_false (fun hn => hne (hnoted.mp hn)) ?_
    rintro ⟨k, hk, -⟩
    exact hout k hk
  · intro k a hk
    have hreq : site (.start k) = .requesting a := by simpa using hk
    obtain rfl : k = n := h.only k n (h.requesting k a hreq) hself
    rw [hfin] at hreq
    cases hreq
  · intro k hk
    have hidle : site (.start k) = .idle := by simpa using hk
    have hkn : k ≠ n := by
      rintro rfl
      rw [hfin] at hidle
      cases hidle
    simpa [Media.setRunning, hkn] using h.idle k hidle
  · intro a ha
    rcases h.active a ha with ⟨k, p, hk, hp, hpa⟩ | ⟨m', job, hm'⟩
    · obtain rfl : k = n := h.only k n hk hself
      exact .inr ⟨m, .upload k, by simp [hatt p hp, hpa]⟩
    · have hne' : m' ≠ m := by
        rintro rfl
        rw [hl] at hm'
        cases hm'
      exact .inr ⟨m', job, by simpa [hne'] using hm'⟩
  · intro k q hq hfin' hf ha
    exact h.registered k q (by simpa [Media.setRunning] using hq) (by simpa using hfin')
      (by simpa [Media.setRunning] using hf) (by simpa [Media.setRunning] using ha)

theorem Clean.closeActive (h : Clean site s) (attachment : Option ℕ) :
    Clean site (s.closeActive attachment) := by
  unfold Media.closeActive
  split
  · refine ⟨h.laid, h.noted, h.only, h.requesting, h.idle, fun a ha => ?_, h.captures,
      h.registered⟩
    cases ha
  · exact h

/-- The answer of an upload analysis is given, and its attachment no longer active. -/
theorem Clean.closeUpload (h : Clean site s) {job : JobId} {attachment : Option ℕ}
    (hl : site (.respond m) = .answering job attachment false) :
    Clean (Function.update site (.respond m) .finished) (s.closeActive attachment) := by
  have hclosed := h.closeActive attachment
  refine ⟨hclosed.laid, by simpa using hclosed.noted, hclosed.only,
    by simpa using hclosed.requesting, by simpa using hclosed.idle, ?_, hclosed.captures,
    by simpa using hclosed.registered⟩
  intro a ha
  rcases hclosed.active a ha with hout | ⟨m', job', hm'⟩
  · exact .inl hout
  · have hne : m' ≠ m := by
      rintro rfl
      obtain ⟨-, rfl, -⟩ := Site.answering.inj (hl.symm.trans hm')
      unfold Media.closeActive at ha
      split at ha
      · cases ha
      · rename_i hopen
        exact hopen ⟨by simp, ha⟩
    exact .inr ⟨m', job', by simpa [hne] using hm'⟩

theorem Clean.removeAttachment (h : Clean site s) (attachment : Option ℕ) :
    Clean site (s.removeAttachment attachment) := by
  cases attachment with
  | none => exact h
  | some a => exact h.same rfl rfl rfl rfl

/-- The job of a capture is answered. -/
theorem Clean.answerCapture (h : Clean site s) :
    Clean site { s.record (.answered (.capture n)) with
      captureTaskIds := s.captureTaskIds.filter (· ≠ .capture n) } := by
  refine h.aside (e := .answered (.capture n)) rfl (fun _ => rfl) (fun _ => rfl) rfl rfl rfl ?_ ?_
  · exact fun k hk => h.captures k (List.mem_of_mem_filter hk)
  · intro k p hp hfin hfailed hanswered
    have hkn : k ≠ n := by
      rintro rfl
      exact hanswered (by simp)
    have hold := h.registered k p (by simpa using hp) hfin (by simpa using hfailed)
      (by simpa [hkn] using hanswered)
    simpa [hkn] using hold

section Captures
variable {p : Job} {a : ℕ}

theorem Clean.sendCapture (h : Clean site s) :
    Clean (Function.update site (.capture n) (.requesting a))
      (s.record (.sent (.capture n) p)) := by
  refine h.aside (e := .sent (.capture n) p) rfl (by simp) (by simp) rfl rfl rfl h.captures ?_
  intro k q hq hfin hfailed hanswered
  have hkn : k ≠ n := by
    rintro rfl
    simp at hfin
  exact h.registered k q (by simpa [hkn] using hq) (by simpa [hkn] using hfin)
    (by simpa using hfailed) (by simpa using hanswered)

theorem Clean.failCapture (h : Clean site s) :
    Clean (Function.update site (.capture n) .finished)
      ((s.removeAttachment (some a)).record (.failed (.capture n))) := by
  refine h.aside (e := .failed (.capture n)) rfl (by simp) (by simp) rfl rfl rfl h.captures ?_
  intro k q hq hfin hfailed hanswered
  have hkn : k ≠ n := by
    rintro rfl
    exact hfailed (by simp)
  exact h.registered k q (by simpa using hq) (by simpa [hkn] using hfin)
    (by simpa [hkn] using hfailed) (by simpa using hanswered)

theorem Clean.registerCapture (h : Clean site s) :
    Clean (Function.update site (.capture n) .finished)
      { s with captureTaskIds := .capture n :: s.captureTaskIds } := by
  refine ⟨h.laid, ?_, h.only, by simpa using h.requesting, by simpa using h.idle,
    by simpa using h.active, fun k hk => ?_, ?_⟩
  · refine h.noted.trans ?_
    simp
  · exact h.captures k (by simpa using hk)
  · intro k q hq hfin hfailed hanswered
    by_cases hkn : k = n
    · simp [hkn]
    · exact List.mem_cons_of_mem _
        (h.registered k q hq (by simpa [hkn] using hfin) hfailed hanswered)

end Captures

theorem noteAnalysis_eq (s : Media) (r : Response) : ∃ findings analyzed,
    s.noteAnalysis r = { s with findings := findings, analyzedAttachmentId := analyzed } := by
  have happend : ∃ findings analyzed, s.appendFindings (strip r.appendPatch) =
      { s with findings := findings, analyzedAttachmentId := analyzed } := by
    unfold Media.appendFindings
    simp only
    split
    · exact ⟨_, _, rfl⟩
    · exact ⟨_, _, rfl⟩
  unfold Media.noteAnalysis
  split
  · exact ⟨_, _, rfl⟩
  · split
    · exact ⟨_, _, rfl⟩
    · split
      · exact happend
      · split
        · exact ⟨_, _, rfl⟩
        · exact ⟨_, _, rfl⟩

/-- What a response says of its upload is no matter for the note. -/
theorem Clean.noteAnalysis (h : Clean site (s.setRunning [])) (r : Response) :
    Clean site ((s.noteAnalysis r).setRunning []) := by
  obtain ⟨findings, analyzed, heq⟩ := noteAnalysis_eq s r
  rw [heq]
  exact h.same rfl rfl rfl rfl

theorem Clean.apply (h : Clean site s) (mv : Move) : Clean site (s.apply mv) := by
  have hpending : ∀ {s : Media}, Clean site s → Clean site s.markAttachmentPending := by
    intro s h
    unfold Media.markAttachmentPending
    split
    · exact h
    · split
      · exact h
      · exact h.same rfl rfl rfl rfl
  cases mv with
  | upload u =>
    change Clean site (s.storeUpload u)
    unfold Media.storeUpload
    split
    · exact h
    · exact Clean.record (h.same rfl rfl rfl rfl) (by simp) (by simp) (by simp)
  | callback =>
    change Clean site (Media.onAttachmentStored { s with callbacks := s.callbacks - 1 })
    have htaken : Clean site { s with callbacks := s.callbacks - 1 } := h.same rfl rfl rfl rfl
    unfold Media.onAttachmentStored
    split
    · exact hpending htaken
    · split
      · exact h.same rfl rfl rfl rfl
      · exact hpending htaken
  | highresCapture query =>
    change Clean site (s.queueHighresCapture query)
    unfold Media.queueHighresCapture
    simp only
    split
    · exact h.same rfl rfl rfl rfl
    · exact Clean.record (h.same rfl rfl rfl rfl) (by simp) (by simp) (by simp)
  | acceptCapture r =>
    change Clean site (s.acceptCapture r)
    unfold Media.acceptCapture
    split
    · exact h.same rfl rfl rfl rfl
    · exact h
  | storeCapture r u =>
    change Clean site (s.storeCapture r u)
    unfold Media.storeCapture
    simp only
    split
    · exact h.same rfl rfl rfl rfl
    · split
      · exact h.same rfl rfl rfl rfl
      · exact Clean.record (h.same rfl rfl rfl rfl) (by simp) (by simp) (by simp)
  | prompt transcript prompt action source =>
    change Clean site (s.queuePrompt transcript prompt action source)
    unfold Media.queuePrompt
    simp only
    split
    · exact h
    · split
      · exact h.same rfl rfl rfl rfl
      · split
        · exact h.same rfl rfl rfl rfl
        · split
          · exact h.same rfl rfl rfl rfl
          · exact h.same rfl rfl rfl rfl
  | interruption =>
    change Clean site s.clearPendingOnInterruption
    unfold Media.clearPendingOnInterruption
    split
    · exact h
    · exact h.same rfl rfl rfl rfl

end Moves

section Programs
variable {v : MediaView} {s : Media} {t : Task} {n m : ℕ} {job : JobId} {r : Response}
  {Q : Unit → MediaView → Media → Prop} {E : Exception → MediaView → Media → Prop}

/-- A call that leaves. -/
abbrev Left (t : Task) (v : MediaView) (s : Media) : Prop :=
  Clean (Function.update v.site t .finished) s

/-- A frame of an answer; only that of a capture can fail to be queued. -/
theorem wp_queueFrame {isCapture : Bool} {attachment : Option ℕ} (f : Frame)
    (hs : Clean (Function.update v.site (.respond m) (.answering job attachment isCapture)) s)
    (h : ∀ v', Clean v'.site v'.shared →
      v'.site (.respond m) = .answering job attachment isCapture → Q () v' v'.shared)
    (hE : ∀ e v', isCapture = true → Clean v'.site v'.shared →
      v'.site (.respond m) = .answering job attachment isCapture → E e v' v'.shared) :
    Wp noteContract (.respond m) Q E (queueFrame (.answering job attachment isCapture) f) v s := by
  simp only [queueFrame, wp_bind, wp_modify]
  rw [wp_pause]
  refine ⟨⟨hs.same rfl rfl rfl rfl, fun _ _ => trivial⟩, fun v' i _ hi hl ha => ?_⟩
  split
  · rename_i hfailed
    subst hfailed
    cases isCapture with
    | true => exact hE _ v' rfl hi hl
    | false => exact absurd hl (ha.2.2.2.2 job attachment)
  · exact h v' hi hl

theorem wp_emitAnalysisResponse {isCapture : Bool}
    (hs : Clean (Function.update v.site (.respond m) (.answering job r.attachment isCapture))
      (if isCapture then s else s.setRunning []))
    (h : ∀ v', Clean v'.site v'.shared →
      v'.site (.respond m) = .answering job r.attachment isCapture → Q () v' v'.shared)
    (hE : ∀ e v', isCapture = true → Clean v'.site v'.shared →
      v'.site (.respond m) = .answering job r.attachment isCapture → E e v' v'.shared) :
    Wp noteContract (.respond m) Q E (emitAnalysisResponse job r isCapture) v s := by
  simp only [emitAnalysisResponse, wp_bind, wp_modify]
  rw [wp_pause]
  refine ⟨⟨hs, fun _ _ => trivial⟩, fun v₁ _ _ hi₁ hl₁ _ => ?_⟩
  refine wp_queueFrame _ (hi₁.at hl₁) (fun v₂ hi₂ hl₂ => ?_) hE
  refine wp_queueFrame _ (hi₂.at hl₂) (fun v₃ hi₃ hl₃ => ?_) hE
  refine wp_queueFrame _ (hi₃.at hl₃) (fun v₄ hi₄ hl₄ => ?_) hE
  exact wp_queueFrame _ (hi₄.at hl₄) h hE

theorem wp_startPending (hi : Clean v.site v.shared) (hl : v.site (.start n) = .idle)
    (halone : Ready v.shared → ∀ k, ¬ Outstanding v.shared.log k)
    (h : ∀ v' s', Left (.start n) v' s' → Q () v' s') :
    Wp noteContract (.start n) Q E (startPending n) v v.shared := by
  simp only [startPending, wp_bind, wp_get, wp_modify]
  have hcleared : Clean v.site v.shared.clearPending := hi.same rfl rfl rfl rfl
  split
  · exact h v _ (hcleared.skip hl)
  · rename_i htranscript
    split
    · exact h v _ (hcleared.skip hl)
    · rename_i a hlatest
      split
      · exact h v _ (hcleared.skip hl)
      · rename_i hcurrent
        split
        · exact h v _ (hcleared.skip hl)
        · rename_i hactive
          have hready : Ready v.shared :=
            ⟨htranscript, a, hlatest, not_not.mp hcurrent, hactive⟩
          simp only [wp_bind, wp_modify]
          rw [wp_pause]
          refine ⟨⟨hcleared.send hl (halone hready) rfl, fun _ _ => trivial⟩,
            fun v' i _ hi' hl' _ => ?_⟩
          split
          · exact h v' _ (hi'.fail hl')
          · exact h v' _ (hi'.note hl')

theorem wp_handleUpload (hi : Clean v.site v.shared) (hl : v.site (.respond m) = .idle)
    (ha : noteContract.allowed v (.respond m) (.response (.upload n) r))
    (h : ∀ v' s', Left (.respond m) v' s' → Q () v' s') :
    Wp noteContract (.respond m) Q E (handleJobResponse (.upload n) r) v v.shared := by
  obtain ⟨honce, -, hknown, hspoken, -⟩ := ha
  obtain ⟨hsent, hfailed, hanswered⟩ := honce hl
  obtain ⟨htts, hatt⟩ := hspoken hl
  have hclosed := hi.answerUpload hl (hknown hl) ⟨hsent, hfailed, hanswered⟩ hatt
  have hnot : .upload n ∉ (v.shared.record (.answered (.upload n))).captureTaskIds := hi.captures n
  simp only [handleJobResponse, removeCapture, wp_bind, wp_get, wp_modify]
  rw [decide_eq_false hnot, if_neg htts]
  simp only [wp_bind, wp_modify, wp_ensure]
  refine wp_emitAnalysisResponse ?_ ?_ ?_
  · have hids : v.shared.captureTaskIds.filter (· ≠ .upload n) = v.shared.captureTaskIds := by
      refine List.filter_eq_self.mpr fun job hjob => ?_
      simpa using fun heq : job = .upload n => hi.captures n (heq ▸ hjob)
    have hfiltered : Clean (Function.update v.site (.respond m) _) (Media.setRunning
        { v.shared.record (.answered (.upload n)) with
          captureTaskIds := v.shared.captureTaskIds.filter (· ≠ .upload n) } []) :=
      hclosed.same rfl rfl hids rfl
    exact hfiltered.noteAnalysis r
  · exact fun v' hi' hl' => h v' _ (hi'.closeUpload hl')
  · intro e v' hcapture
    cases hcapture

theorem wp_handleCapture (hi : Clean v.site v.shared) (hl : v.site (.respond m) = .idle)
    (ha : noteContract.allowed v (.respond m) (.response (.capture n) r))
    (h : ∀ v' s', Left (.respond m) v' s' → Q () v' s')
    (hE : ∀ e v' s', Left (.respond m) v' s' → E e v' s') :
    Wp noteContract (.respond m) Q E (handleJobResponse (.capture n) r) v v.shared := by
  obtain ⟨honce, -, hknown, -, -⟩ := ha
  obtain ⟨⟨p, hsent⟩, hfailed, hanswered⟩ := honce hl
  have hmem : .capture n ∈ (v.shared.record (.answered (.capture n))).captureTaskIds :=
    hi.registered n p hsent (hknown hl) hfailed hanswered
  have hanswer : Clean v.site _ := hi.answerCapture (n := n)
  simp only [handleJobResponse, removeCapture, wp_bind, wp_get, wp_modify]
  rw [decide_eq_true hmem]
  split
  · exact h v _ ((hanswer.removeAttachment r.attachment).respond (by simp [hl]))
  · simp only [wp_bind, wp_modify, wp_ensure]
    refine wp_emitAnalysisResponse ?_ ?_ ?_
    · exact hanswer.respond (by simp [hl])
    · intro v' hi' hl'
      exact h v' _ (((hi'.removeAttachment r.attachment).closeActive _).respond (by simp [hl']))
    · intro e v' _ hi' hl'
      exact hE e v' _ ((hi'.removeAttachment r.attachment).respond (by simp [hl']))

theorem wp_analyzeCapture {a : Attachment} {query : Text} (hi : Clean v.site v.shared)
    (h : ∀ v' s', Left (.capture n) v' s' → Q () v' s') :
    Wp noteContract (.capture n) Q E (analyzeCapture n a query) v v.shared := by
  simp only [analyzeCapture, wp_bind, wp_modify]
  rw [wp_pause]
  refine ⟨⟨hi.sendCapture, fun _ _ => trivial⟩, fun v' i _ hi' _ _ => ?_⟩
  split
  · exact h v' _ hi'.failCapture
  · exact h v' _ hi'.registerCapture

/-- A task that does not move. -/
theorem Clean.stay {loop : Loop} (hi : Clean v.site v.shared)
    (hl : v.site t = media.head t loop) : Ends noteContract media t loop v v.shared :=
  ⟨hi.at hl, fun _ _ => trivial⟩

theorem wp_turn {loop : Loop} {i : Reply} (hi : Clean v.site v.shared)
    (hl : v.site t = media.head t loop) (ha : noteContract.allowed v t i) :
    Wp noteContract t (fun b v s => Ends noteContract media t b v s)
      (fun e v s => Ends noteContract media t (media.crash t e) v s)
      (turn t loop i) v v.shared := by
  unfold turn
  split
  · simp only [wp_bind, wp_pure]
    exact wp_startPending hi hl (ha.2.1 hl) fun _ _ hleft => ⟨hleft, fun _ _ => trivial⟩
  · rename_i job r
    simp only [wp_bind, wp_pure]
    cases job with
    | upload n => exact wp_handleUpload hi hl ha fun _ _ hleft => ⟨hleft, fun _ _ => trivial⟩
    | capture n =>
      exact wp_handleCapture hi hl ha (fun _ _ hleft => ⟨hleft, fun _ _ => trivial⟩)
        fun _ _ _ hleft => ⟨hleft, fun _ _ => trivial⟩
  · simp only [analyzeTask, wp_bind, wp_get]
    split
    · exact hi.stay hl
    · simp only [wp_bind, wp_pure]
      exact wp_analyzeCapture hi fun _ _ hleft => ⟨hleft, fun _ _ => trivial⟩
  · exact hi.stay hl

theorem keeps_noteContract : Keeps noteContract media (outside fun _ _ => True) where
  refl _ _ := trivial
  trans _ _ _ _ _ _ := trivial
  outside v s hi henv := by
    obtain ⟨mv, -, -, rfl⟩ := henv
    exact ⟨hi.apply mv, fun _ => trivial⟩
  body _ _ _ _ hi hl ha := wp_turn hi hl ha

end Programs

theorem clean_fresh (base : Message) :
    Clean (freshMedia base).view.site (freshMedia base).view.shared := by
  have hidle : ∀ t, (freshMedia base).view.site t = .idle := fun _ => rfl
  have hout : ∀ n, ¬ Outstanding (freshMedia base).view.shared.log n := by
    rintro n ⟨⟨p, hp⟩, -, -⟩
    exact List.not_mem_nil hp
  refine ⟨⟨base, fun _ => none, by simp [freshMedia, System.start, Pool.view], ?_⟩, ?_, ?_, ?_, ?_,
    ?_, ?_, ?_⟩
  · intro p m hm
    cases hm
  · refine iff_of_false (fun hn => List.not_mem_nil hn) ?_
    rintro ⟨n, hn, -⟩
    exact hout n hn
  · exact fun n _ hn => absurd hn (hout n)
  · exact fun n a hn => by cases (hidle _).symm.trans hn
  · exact fun n _ => ⟨fun p => List.not_mem_nil, List.not_mem_nil, List.not_mem_nil⟩
  · exact fun a ha => by cases ha
  · exact fun n => List.not_mem_nil
  · exact fun n p hp => absurd hp List.not_mem_nil

/-- Whenever no `start_pending` waits for its job, the running note is in the context if and only
if an upload analysis is outstanding; once none is and the answers are given, none is active. -/
theorem note_iff_outstanding {base : Message} {p : MediaPool}
    (h : media.Reach (fun v t i => answersOnce v t i ∧ orderly v t i) (outside fun _ _ => True)
      (freshMedia base) p)
    (hs : ∀ n a, p.view.site (.start n) ≠ .requesting a) :
    (Noted p.shared ↔ ∃ n, Outstanding p.shared.log n) ∧
      ((∀ n, ¬ Outstanding p.shared.log n) →
        (∀ m job a, p.view.site (.respond m) ≠ .answering job a false) →
          p.shared.activeAttachmentId = none) := by
  have hclean := keeps_noteContract.invariant (clean_fresh base) h
  constructor
  · have hnoted : Noted p.shared ↔ _ := hclean.noted
    rw [hnoted]
    exact ⟨fun ⟨n, hn, _⟩ => ⟨n, hn⟩, fun ⟨n, hn⟩ => ⟨n, hn, hs n⟩⟩
  · intro hnone hgiven
    by_contra hactive
    obtain ⟨a, ha⟩ := Option.ne_none_iff_exists'.mp hactive
    rcases hclean.active a ha with ⟨n, -, hn, -⟩ | ⟨m, job, hm⟩
    · exact hnone n hn
    · exact hgiven m job (some a) hm

section Runs

def basePrompt : Message := .chat "system".toList (.text "Be brief.".toList)

def play (mv : Move) : System.Act Media Reply Task := .outside (·.apply mv)

/-- An upload, its prompt, the dispatch, and a response without a text. -/
def timedOut : List (System.Act Media Reply Task) :=
  [play (.upload { bytes := 1 }), play .callback,
    play (.prompt ['a'] ['b'] "new".toList "uploaded_attachment".toList), .turn (.start 0) .start,
    .turn (.start 0) .go, .turn (.respond 0) (.response (.upload 0) {})]

/-- The response has a text and names the upload; its frames follow. -/
def answered : List (System.Act Media Reply Task) :=
  timedOut.take 5 ++
    [.turn (.respond 0) (.response (.upload 0) { tts := ['c'], attachment := some 1 }),
      .turn (.respond 0) .go, .turn (.respond 0) .go, .turn (.respond 0) .go,
      .turn (.respond 0) .go, .turn (.respond 0) .go]

/-- The job of the only upload. -/
def uploadJob : Job :=
  { transcript := ['a']
    attachment :=
      { id := 1, kind := .image, name := "attachment".toList, contentType := "image/*".toList
        bytes := 1, source := .upload }
    analysisPrompt := ['b']
    priorAnalysis := []
    analysisAction := .new }

/-- A task that has no turn in a script is still idle at its end. -/
theorem idle_of_script {script : List (System.Act Media Reply Task)} {t : Task}
    (h : ∀ i, .turn t i ∉ script) :
    (media.play (freshMedia basePrompt) script).view.site t = .idle :=
  congrArg Prod.fst (System.play_task media h)

theorem note_iff_outstanding_answered :
    (media.play (freshMedia basePrompt) answered).shared.log =
      [.uploaded 1, .sent (.upload 0) uploadJob, .answered (.upload 0)] ∧
    (Noted (media.play (freshMedia basePrompt) answered).shared ↔
      ∃ n, Outstanding (media.play (freshMedia basePrompt) answered).shared.log n) ∧
    ((∀ n, ¬ Outstanding (media.play (freshMedia basePrompt) answered).shared.log n) →
      (∀ m job a, (media.play (freshMedia basePrompt) answered).view.site (.respond m) ≠
        .answering job a false) →
      (media.play (freshMedia basePrompt) answered).shared.activeAttachmentId = none) := by
  have hplay : media.Playable (fun v t i => answersOnce v t i ∧ orderly v t i)
      (outside fun _ _ => True) (freshMedia basePrompt) answered := by
    refine ⟨⟨.upload { bytes := 1 }, trivial, trivial, rfl⟩,
      ⟨.callback, by decide +kernel, trivial, rfl⟩,
      ⟨.prompt ['a'] ['b'] "new".toList "uploaded_attachment".toList, trivial, trivial, rfl⟩,
      ⟨trivial, fun _ _ k hk => ?_, trivial, trivial, trivial⟩,
      ⟨trivial, trivial, trivial, trivial, trivial⟩,
      ⟨fun _ => ⟨⟨uploadJob, by decide +kernel⟩, by decide +kernel, by decide +kernel⟩, trivial,
        fun _ => by decide +kernel, fun _ => ⟨by decide +kernel, fun payload hp => ?_⟩, trivial⟩,
      ⟨trivial, trivial, trivial, trivial, trivial⟩, ⟨trivial, trivial, trivial, trivial, trivial⟩,
      ⟨trivial, trivial, trivial, trivial, trivial⟩, ⟨trivial, trivial, trivial, trivial, trivial⟩,
      ⟨trivial, trivial, trivial, trivial, trivial⟩, trivial⟩
    · obtain ⟨⟨payload, hp⟩, -, -⟩ := hk
      have hlog : (media.play (freshMedia basePrompt) (answered.take 3)).shared.log =
          [.uploaded 1] := by
        decide +kernel
      change .sent (.upload k) payload ∈
        (media.play (freshMedia basePrompt) (answered.take 3)).shared.log at hp
      rw [hlog] at hp
      simp at hp
    · have hlog : (media.play (freshMedia basePrompt) (answered.take 5)).shared.log =
          [.uploaded 1, .sent (.upload 0) uploadJob] := by
        decide +kernel
      change .sent (.upload 0) payload ∈
        (media.play (freshMedia basePrompt) (answered.take 5)).shared.log at hp
      rw [hlog] at hp
      obtain rfl : payload = uploadJob := by simpa using hp
      rfl
  refine ⟨by decide +kernel, note_iff_outstanding (System.reach_play hplay) fun n a hn => ?_⟩
  by_cases hn0 : n = 0
  · subst n
    have hfin : (media.play (freshMedia basePrompt) answered).view.site (.start 0) = .finished := by
      decide +kernel
    rw [hfin] at hn
    cases hn
  · rw [idle_of_script fun i => by simp [answered, timedOut, play, hn0]] at hn
    cases hn

/-- A response without a text leaves the note and the active attachment behind. -/
theorem note_left_behind :
    ∃ p, media.Reach answersOnce (outside fun _ _ => True) (freshMedia basePrompt) p ∧
      (∀ n a, p.view.site (.start n) ≠ .requesting a) ∧
      p.shared.log = [.uploaded 1, .sent (.upload 0) uploadJob, .answered (.upload 0)] ∧
      Noted p.shared ∧ p.shared.activeAttachmentId = some 1 ∧
      ¬ ((Noted p.shared ↔ ∃ n, Outstanding p.shared.log n) ∧
        ((∀ n, ¬ Outstanding p.shared.log n) →
          (∀ m job a, p.view.site (.respond m) ≠ .answering job a false) →
            p.shared.activeAttachmentId = none)) := by
  have hplay : media.Playable answersOnce (outside fun _ _ => True) (freshMedia basePrompt)
      timedOut :=
    ⟨⟨.upload { bytes := 1 }, trivial, trivial, rfl⟩,
      ⟨.callback, by decide +kernel, trivial, rfl⟩,
      ⟨.prompt ['a'] ['b'] "new".toList "uploaded_attachment".toList, trivial, trivial, rfl⟩,
      trivial, trivial,
      fun _ => ⟨⟨uploadJob, by decide +kernel⟩, by decide +kernel, by decide +kernel⟩, trivial⟩
  have hlog : (media.play (freshMedia basePrompt) timedOut).shared.log =
      [.uploaded 1, .sent (.upload 0) uploadJob, .answered (.upload 0)] := by
    decide +kernel
  have hnoted : Noted (media.play (freshMedia basePrompt) timedOut).shared := by
    unfold Noted
    decide +kernel
  refine ⟨_, System.reach_play hplay, fun n a hn => ?_, hlog, hnoted, by decide +kernel,
    fun hall => ?_⟩
  · by_cases hn0 : n = 0
    · subst n
      have hfin : (media.play (freshMedia basePrompt) timedOut).view.site (.start 0) =
          .finished := by
        decide +kernel
      rw [hfin] at hn
      cases hn
    · rw [idle_of_script fun i => by simp [timedOut, play, hn0]] at hn
      cases hn
  · obtain ⟨n, ⟨payload, hsent⟩, -, hopen⟩ := hall.1.mp hnoted
    rw [hlog] at hsent hopen
    obtain ⟨rfl, -⟩ : n = 0 ∧ payload = uploadJob := by simpa using hsent
    exact hopen (by simp)

end Runs

end VoiceAgent.MediaRuns
