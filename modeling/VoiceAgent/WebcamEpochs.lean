import VoiceAgent.WebcamController
import VoiceAgent.History

/-!
Webcam epochs. A job that is not settled is the one the loop is requesting or the one it has named
last, so the epoch of the last dispatch is its own. What the job's frame says of its time depends
on the store: a frame that arrives while the camera is off stays there until it is on again.
-/
namespace VoiceAgent.WebcamEpochs

open StreamingEvents Coroutine Interleaving History WebcamController

/-- Job `k` was dispatched in the epoch that lasts, for a frame stored since the camera is on. -/
def Current (log : List Event) (k : ℕ) : Prop :=
  ∃ f, .dispatched k f ∈ since toggles log ∧ .stored f ∈ since switchesOn log

def Fair (before : List Event) (e : Event) : Prop := ∀ k, e = .accepted k → Current before k

/-- When a message switches the camera on, the store holds no frame of the session. -/
def storeEmpty (s : Webcam) : Move → Prop
  | .webcamState (some true) => s.enabled = false → s.frames = []
  | _ => True

structure Tracked (site : Unit → Site) (s : Webcam) : Prop where
  past : s.summaryEpoch ≤ s.epoch
  requesting : ∀ k e, site () = .requesting k e →
    s.summaryTaskId = none ∧ s.summaryEpoch ≤ e ∧ e ≤ s.epoch ∧ (e = s.epoch → Current s.log k)
  outstanding : ∀ k, k < s.jobs.length → k ∉ s.settled → (∃ e, site () = .requesting k e) ∨
    s.summaryTaskId = some k ∧ (s.summaryEpoch = s.epoch → Current s.log k)
  on : s.enabled = true → s.explicitlyDisabled = false
  stored : s.explicitlyDisabled = false →
    ∀ f ∈ s.frames, .stored f.sequence ∈ since switchesOn s.log
  fair : Along Fair s.log

def epochContract : Contract Unit Site Webcam Reply where
  inv v := Tracked v.site v.shared
  rely _ _ _ := True
  allowed _ _ _ := True

section Moves
variable {C : Config} {site : Unit → Site} {s s' : Webcam} {e : Event} {k : ℕ}

theorem Current.snoc (h : Current s.log k) (he : toggles e = false) :
    Current (s.log ++ [e]) k := by
  obtain ⟨f, hd, hs⟩ := h
  have hon : switchesOn e = false := by
    cases e <;> first | rfl | cases he
  refine ⟨f, ?_, ?_⟩
  · rw [since_snoc, startOver, he]
    exact List.mem_append_left _ hd
  · rw [since_snoc, startOver, hon]
    exact List.mem_append_left _ hs

/-- Only the camera, the frames, the epochs, the jobs and the record count. -/
theorem Tracked.same (h : Tracked site s) (hon : s'.enabled = s.enabled)
    (hoff : s'.explicitlyDisabled = s.explicitlyDisabled) (hf : s'.frames = s.frames)
    (he : s'.epoch = s.epoch) (hse : s'.summaryEpoch = s.summaryEpoch)
    (ht : s'.summaryTaskId = s.summaryTaskId) (hj : s'.jobs = s.jobs)
    (hset : s'.settled = s.settled) (hl : s'.log = s.log) : Tracked site s' := by
  constructor
  · rw [he, hse]
    exact h.past
  · rw [he, hse, ht, hl]
    exact h.requesting
  · rw [he, hse, ht, hj, hset, hl]
    exact h.outstanding
  · rw [hon, hoff]
    exact h.on
  · rw [hoff, hf, hl]
    exact h.stored
  · rw [hl]
    exact h.fair

theorem Tracked.setBoardState (h : Tracked site s) (text : Text) :
    Tracked site (s.setBoardState text) := by
  unfold Webcam.setBoardState
  split
  · exact h
  · exact h.same rfl rfl rfl rfl rfl rfl rfl rfl rfl

theorem Tracked.queueFrame (h : Tracked site s) (f : Frame) : Tracked site (s.queueFrame f) :=
  h.same rfl rfl rfl rfl rfl rfl rfl rfl rfl

/-- An event within an epoch that accepts nothing out of turn. -/
theorem Tracked.record (h : Tracked site s) (he : toggles e = false) (hfair : Fair s.log e) :
    Tracked site (s.record e) where
  past := h.past
  requesting k e' hk := by
    obtain ⟨ht, hse, hle, hcur⟩ := h.requesting k e' hk
    exact ⟨ht, hse, hle, fun heq => (hcur heq).snoc he⟩
  outstanding k hk hset := by
    rcases h.outstanding k hk hset with hreq | ⟨ht, hcur⟩
    · exact .inl hreq
    · exact .inr ⟨ht, fun heq => (hcur heq).snoc he⟩
  on := h.on
  stored hoff f hf := by
    have hon : switchesOn e = false := by
      cases e <;> first | rfl | cases he
    change _ ∈ since switchesOn (s.log ++ [e])
    rw [since_snoc, startOver, hon]
    exact List.mem_append_left _ (h.stored hoff f hf)
  fair := along_concat.mpr ⟨h.fair, hfair⟩

/-- A new epoch begins. Of the frames in the store nothing is known unless they stay of account. -/
theorem Tracked.toggle (h : Tracked site s) (he : toggles e = true)
    (hepoch : s'.epoch = s.epoch + 1) (hse : s'.summaryEpoch = s.summaryEpoch)
    (ht : s'.summaryTaskId = s.summaryTaskId) (hj : s'.jobs = s.jobs)
    (hset : s'.settled = s.settled) (hl : s'.log = s.log ++ [e])
    (hon : s'.enabled = true → s'.explicitlyDisabled = false)
    (hstored : s'.explicitlyDisabled = false →
      ∀ f ∈ s'.frames, .stored f.sequence ∈ since switchesOn s'.log) : Tracked site s' := by
  have hpast := h.past
  constructor
  · omega
  · intro k e' hk
    obtain ⟨hnone, hle, hle', -⟩ := h.requesting k e' hk
    exact ⟨ht.trans hnone, by omega, by omega, fun heq => by omega⟩
  · intro k hk hkset
    rw [hj] at hk
    rw [hset] at hkset
    rcases h.outstanding k hk hkset with hreq | ⟨hname, -⟩
    · exact .inl hreq
    · exact .inr ⟨ht.trans hname, fun heq => by omega⟩
  · exact hon
  · exact hstored
  · rw [hl, along_concat]
    refine ⟨h.fair, fun k hk => ?_⟩
    subst hk
    cases he

theorem Tracked.applyWebcamState (h : Tracked site s) (enabled : Option Bool)
    (hempty : storeEmpty s (.webcamState enabled)) :
    Tracked site (s.applyWebcamState enabled) := by
  cases enabled with
  | none => exact h
  | some b =>
    unfold Webcam.applyWebcamState
    simp only
    split
    · exact h
    · rename_i hne
      cases b with
      | true =>
        have hoff : s.enabled = false := by
          cases hs : s.enabled with
          | false => rfl
          | true => exact absurd hs.symm hne
        have hframes : s.frames = [] := hempty hoff
        refine Tracked.queueFrame (Tracked.setBoardState ?_ _) _
        refine h.toggle (e := .enabled) rfl rfl rfl rfl rfl rfl rfl (fun _ => rfl) ?_
        intro _ f hf
        change f ∈ s.frames at hf
        rw [hframes] at hf
        cases hf
      | false =>
        refine Tracked.queueFrame (Tracked.setBoardState ?_ _) _
        exact h.toggle (e := .disabled) rfl rfl rfl rfl rfl rfl rfl (fun hon => by cases hon)
          fun hoff => by cases hoff

theorem Tracked.storeWebcamFrame (h : Tracked site s) (u : Upload) :
    Tracked site (s.storeWebcamFrame C u) := by
  unfold Webcam.storeWebcamFrame
  split
  · exact h
  · rename_i frame _
    split
    · have hrec := h.record (e := .stored frame.sequence) rfl (fun k hk => by cases hk)
      refine ⟨hrec.past, hrec.requesting, hrec.outstanding, hrec.on, ?_, hrec.fair⟩
      intro hoff f hf
      rcases List.mem_append.mp (List.mem_of_mem_drop hf) with hold | hnew
      · exact hrec.stored hoff f hold
      · obtain rfl : f = frame := by simpa using hnew
        change _ ∈ since switchesOn (s.log ++ [.stored f.sequence])
        rw [since_snoc]
        exact List.mem_append_right _ List.mem_cons_self
    · exact h.same rfl rfl rfl rfl rfl rfl rfl rfl rfl

theorem Tracked.notifyFrameUploaded (h : Tracked site s) :
    Tracked site s.notifyFrameUploaded := by
  unfold Webcam.notifyFrameUploaded
  split
  · exact h.same rfl rfl rfl rfl rfl rfl rfl rfl rfl
  · split
    · exact h
    · rename_i hoff
      have hfree : s.explicitlyDisabled = false := by simpa using hoff
      have hinferred : Tracked site
          ({ s with enabled := true, epoch := s.epoch + 1 }.record .inferred) := by
        refine h.toggle (e := .inferred) rfl rfl rfl rfl rfl rfl rfl (fun _ => hfree) ?_
        intro _ f hf
        change _ ∈ since switchesOn (s.log ++ [.inferred])
        rw [since_snoc]
        exact List.mem_append_left _ (h.stored hfree f hf)
      exact (hinferred.setBoardState cameraOnState).same rfl rfl rfl rfl rfl rfl rfl rfl rfl

/-- Job `k` is settled. -/
theorem Tracked.settle (h : Tracked site s) :
    Tracked site { s with settled := k :: s.settled } where
  past := h.past
  requesting := h.requesting
  outstanding j hj hset := h.outstanding j hj fun hold => hset (List.mem_cons_of_mem _ hold)
  on := h.on
  stored := h.stored
  fair := h.fair

/-- The name of a settled job is forgotten. -/
theorem Tracked.forget (h : Tracked site s) (hk : k ∈ s.settled)
    (hname : s.summaryTaskId = some k) :
    Tracked site { s with summaryTaskId := none } where
  past := h.past
  requesting j e hj := ⟨rfl, (h.requesting j e hj).2⟩
  outstanding j hj hset := by
    rcases h.outstanding j hj hset with hreq | ⟨hj', -⟩
    · exact .inl hreq
    · obtain rfl : k = j := Option.some.inj (hname.symm.trans hj')
      exact absurd hk hset
  on := h.on
  stored := h.stored
  fair := h.fair

/-- A response that is accepted is the answer of a job of its epoch. -/
theorem Tracked.current (h : Tracked site s) (hk : k < s.jobs.length) (hset : k ∉ s.settled)
    (hepoch : s.summaryEpoch = s.epoch) : Current s.log k := by
  rcases h.outstanding k hk hset with ⟨e', hreq⟩ | ⟨-, hcur⟩
  · obtain ⟨-, hle, hle', hcur⟩ := h.requesting k e' hreq
    exact hcur (by omega)
  · exact hcur hepoch

theorem Tracked.handleSummaryResponse (h : Tracked site s) (hk : k ∈ s.settled)
    (hcur : s.summaryEpoch = s.epoch → Current s.log k) (r : Response) :
    Tracked site (s.handleSummaryResponse C k r).1 := by
  unfold Webcam.handleSummaryResponse
  extract_lets named observation noted shown
  have hnamed : Tracked site named := by
    simp only [named]
    split
    · rename_i hname
      exact h.forget hk hname
    · exact h
  replace hcur : named.summaryEpoch = named.epoch → Current named.log k := by
    simp only [named]
    split <;> exact hcur
  clear_value named
  split
  · exact hnamed
  · rename_i hon
    split
    · exact hnamed
    · have hepoch : named.summaryEpoch = named.epoch := not_not.mp (not_or.mp hon).2
      have hshown : Tracked site shown := by
        have hnoted : Tracked site noted := hnamed.same rfl rfl rfl rfl rfl rfl rfl rfl rfl
        simp only [shown]
        split
        · exact hnoted
        · exact hnoted.setBoardState observation
      have hlog : shown.log = named.log := by
        simp only [shown, Webcam.setBoardState]
        split
        · rfl
        · split <;> rfl
      refine Tracked.queueFrame (hshown.record rfl fun j hj => ?_) _
      obtain rfl : k = j := Event.accepted.inj hj
      rw [hlog]
      exact hcur hepoch

theorem Tracked.apply (h : Tracked site s) {m : Move} (hopen : m.Open s) (hm : storeEmpty s m) :
    Tracked site (s.apply C m) := by
  cases m with
  | webcamState enabled => exact h.applyWebcamState enabled hm
  | upload u => exact h.storeWebcamFrame u
  | callback =>
    have htaken : Tracked site { s with callbacks := s.callbacks - 1 } :=
      h.same rfl rfl rfl rfl rfl rfl rfl rfl rfl
    exact htaken.notifyFrameUploaded
  | control =>
    have htaken : Tracked site { s with uploadControlTask := false } :=
      h.same rfl rfl rfl rfl rfl rfl rfl rfl rfl
    exact htaken.queueFrame _
  | response k r =>
    exact h.settle.handleSummaryResponse List.mem_cons_self (h.current hopen.1 hopen.2) r

/-- The loop sends the latest frame to a job of its own, as no other is outstanding. -/
theorem Tracked.dispatch (h : Tracked site s) (hl : site () = .waiting)
    (hnone : s.summaryTaskId = none) (hon : s.enabled = true) {frame : WebcamFrame}
    (hf : frame ∈ s.frames) :
    Tracked (Function.update site () (.requesting s.jobs.length s.epoch)) (s.dispatch frame) := by
  have hrec := h.record (e := .dispatched s.jobs.length frame.sequence) rfl
    (fun k hk => by cases hk)
  have hcur : Current (s.log ++ [.dispatched s.jobs.length frame.sequence]) s.jobs.length := by
    refine ⟨frame.sequence, ?_, hrec.stored (h.on hon) frame hf⟩
    rw [since_snoc]
    exact List.mem_append_right _ List.mem_cons_self
  refine ⟨h.past, ?_, ?_, h.on, hrec.stored, hrec.fair⟩
  · intro k e hk
    obtain ⟨rfl, rfl⟩ : s.jobs.length = k ∧ s.epoch = e := by simpa using hk
    exact ⟨hnone, h.past, Int.le_refl _, fun _ => hcur⟩
  · intro k hk hset
    rcases lt_or_ge k s.jobs.length with hold | hnew
    · rcases h.outstanding k hold hset with ⟨e, hreq⟩ | ⟨hname, -⟩
      · rw [hl] at hreq
        cases hreq
      · rw [hnone] at hname
        cases hname
    · refine .inl ⟨s.epoch, ?_⟩
      have hlen : (s.dispatch frame).jobs.length = s.jobs.length + 1 := by
        simp [Webcam.dispatch, Webcam.record]
      obtain rfl : k = s.jobs.length := by omega
      simp

/-- The loop learns the name of the job it has sent. -/
theorem Tracked.name (h : Tracked site s) {epoch : ℤ} (hl : site () = .requesting k epoch) :
    Tracked (Function.update site () .waiting)
      { s with summaryTaskId := some k, summaryEpoch := epoch } := by
  obtain ⟨hnone, -, hle, hcur⟩ := h.requesting k epoch hl
  refine ⟨hle, fun j e hj => by simp at hj, fun j hj hset => ?_, h.on, h.stored, h.fair⟩
  rcases h.outstanding j hj hset with ⟨e, hreq⟩ | ⟨hname, -⟩
  · obtain ⟨rfl, rfl⟩ : k = j ∧ epoch = e := by simpa [hl] using hreq
    exact .inr ⟨rfl, hcur⟩
  · rw [hnone] at hname
    cases hname

/-- The job could not be sent. -/
theorem Tracked.fail (h : Tracked site s) {epoch : ℤ} (hl : site () = .requesting k epoch) :
    Tracked (Function.update site () .waiting)
      { s with summaryTaskId := none, settled := k :: s.settled } := by
  refine ⟨h.past, fun j e hj => by simp at hj, fun j hj hset => ?_, h.on, h.stored, h.fair⟩
  obtain ⟨hjk, hjset⟩ : j ≠ k ∧ j ∉ s.settled := by simpa using hset
  rcases h.outstanding j hj hjset with ⟨e, hreq⟩ | ⟨hname, -⟩
  · obtain ⟨rfl, rfl⟩ : k = j ∧ epoch = e := by simpa [hl] using hreq
    exact absurd rfl hjk
  · rw [(h.requesting k epoch hl).1] at hname
    cases hname

end Moves

section Programs
variable {C : Config} {v : WebcamView} {s : Webcam}

/-- The loop stands at its wait. -/
theorem Tracked.wait (h : Tracked v.site s) (hl : v.site () = .waiting) :
    Ends epochContract webcam () () v s := by
  refine ⟨?_, fun _ _ => trivial⟩
  change Tracked (Function.update v.site () .waiting) s
  rw [← hl, Function.update_eq_self]
  exact h

theorem wp_runSummaryLoop (h : Tracked v.site v.shared) (hl : v.site () = .waiting) :
    Wp epochContract () (fun b v s => Ends epochContract webcam () b v s)
      (fun e v s => Ends epochContract webcam () (webcam.crash () e) v s)
      runSummaryLoop v v.shared := by
  simp only [runSummaryLoop, wp_bind, wp_modify, wp_get]
  have hwoken : Tracked v.site { v.shared with frameEvent := false } :=
    h.same rfl rfl rfl rfl rfl rfl rfl rfl rfl
  split
  · exact hwoken.wait hl
  · rename_i hgo
    obtain ⟨hnone, hon⟩ := not_or.mp hgo
    split
    · exact hwoken.wait hl
    · rename_i frame hframe
      split
      · exact hwoken.wait hl
      · simp only [wp_bind, wp_modify]
        rw [wp_pause]
        have hmem : frame ∈ v.shared.frames := List.mem_of_getLast? hframe
        refine ⟨⟨hwoken.dispatch hl (not_not.mp hnone) (by simpa using hon) hmem,
          fun _ _ => trivial⟩, fun v' i _ hi hl' _ => ?_⟩
        split
        · exact ⟨hi.fail hl', fun _ _ => trivial⟩
        · exact ⟨hi.name hl', fun _ _ => trivial⟩

theorem keeps_epochContract : Keeps epochContract webcam (outside C storeEmpty) where
  refl _ _ := trivial
  trans _ _ _ _ _ _ := trivial
  outside v s hi henv := by
    obtain ⟨m, hopen, hm, rfl⟩ := henv
    exact ⟨hi.apply hopen hm, fun _ => trivial⟩
  body _ _ _ _ hi hl _ := wp_runSummaryLoop hi hl

end Programs

theorem tracked_fresh : Tracked freshWebcam.view.site freshWebcam.view.shared where
  past := by decide
  requesting k e hk := by
    have hwaiting : Site.waiting = .requesting k e := hk
    cases hwaiting
  outstanding k hk := absurd hk (Nat.not_lt_zero k)
  on hon := by cases hon
  stored _ f hf := by cases hf
  fair := along_nil

/-- Every observation that is accepted comes from a job dispatched in the epoch that lasts, for a
frame stored since the camera was switched on, if no frame was in the store at that moment. -/
theorem observations_current {C : Config} {p : WebcamPool}
    (h : webcam.Reach (fun _ _ _ => True) (outside C storeEmpty) freshWebcam p) :
    Along (fun before e => ∀ k, e = .accepted k → ∃ f, .dispatched k f ∈ since toggles before ∧
      .stored f ∈ since switchesOn before) p.shared.log :=
  (keeps_epochContract.invariant tracked_fresh h).fair

section Runs

def asciiConfig : Config := { sessionId := ['s'], lower := List.map Char.toLower }

def snapshot : Upload := { sessionId := ['s'], contentType := "image/png".toList, data := [0] }

def play (m : Move) : System.Act Webcam Reply Unit := .outside (·.apply asciiConfig m)

/-- The camera is on, off and on again, with a frame in between that arrives late. -/
def lateUpload : List (System.Act Webcam Reply Unit) :=
  [play (.webcamState (some true)), play (.webcamState (some false)), play (.upload snapshot),
    play .callback, play (.webcamState (some true)), .turn () .go, .turn () .go,
    play (.response 0 { observation := ['d'] })]

/-- A frame is stored once the camera is on again. -/
def freshUpload : List (System.Act Webcam Reply Unit) :=
  [play (.webcamState (some true)), play (.upload snapshot), .turn () .go,
    play (.webcamState (some false)), .turn () .go, play (.webcamState (some true)),
    play (.response 0 { observation := ['d'] }), play (.upload snapshot), play .callback,
    .turn () .go, .turn () .go, play (.response 1 { observation := ['d'] })]

theorem observations_current_freshUpload :
    (webcam.play freshWebcam freshUpload).shared.log =
      [.enabled, .stored 1, .dispatched 0 1, .disabled, .enabled, .stored 2, .dispatched 1 2,
        .accepted 1] ∧
    Along (fun before e => ∀ k, e = .accepted k → ∃ f, .dispatched k f ∈ since toggles before ∧
      .stored f ∈ since switchesOn before) (webcam.play freshWebcam freshUpload).shared.log := by
  have hplay : webcam.Playable (fun _ _ _ => True) (outside asciiConfig storeEmpty) freshWebcam
      freshUpload :=
    ⟨⟨.webcamState (some true), trivial, fun _ => rfl, rfl⟩,
      ⟨.upload snapshot, trivial, trivial, rfl⟩, trivial,
      ⟨.webcamState (some false), trivial, trivial, rfl⟩, trivial,
      ⟨.webcamState (some true), trivial, fun _ => by decide +kernel, rfl⟩,
      ⟨.response 0 { observation := ['d'] }, by decide +kernel, trivial, rfl⟩,
      ⟨.upload snapshot, trivial, trivial, rfl⟩, ⟨.callback, by decide +kernel, trivial, rfl⟩,
      trivial, trivial,
      ⟨.response 1 { observation := ['d'] }, by decide +kernel, trivial, rfl⟩, trivial⟩
  exact ⟨by decide +kernel, observations_current (System.reach_play hplay)⟩

/-- A frame stored while the camera was off is described once it is on. -/
theorem late_frame_described :
    ∃ p, webcam.Reach (fun _ _ _ => True) (outside asciiConfig fun _ _ => True) freshWebcam p ∧
      p.shared.log = [.enabled, .disabled, .stored 1, .enabled, .dispatched 0 1, .accepted 0] ∧
      ¬ Along (fun before e => ∀ k, e = .accepted k → ∃ f,
        .dispatched k f ∈ since toggles before ∧ .stored f ∈ since switchesOn before)
        p.shared.log := by
  have hplay : webcam.Playable (fun _ _ _ => True) (outside asciiConfig fun _ _ => True)
      freshWebcam lateUpload :=
    ⟨⟨.webcamState (some true), trivial, trivial, rfl⟩,
      ⟨.webcamState (some false), trivial, trivial, rfl⟩,
      ⟨.upload snapshot, trivial, trivial, rfl⟩, ⟨.callback, by decide +kernel, trivial, rfl⟩,
      ⟨.webcamState (some true), trivial, trivial, rfl⟩, trivial, trivial,
      ⟨.response 0 { observation := ['d'] }, by decide +kernel, trivial, rfl⟩, trivial⟩
  have hlog : (webcam.play freshWebcam lateUpload).shared.log =
      [.enabled, .disabled, .stored 1, .enabled, .dispatched 0 1, .accepted 0] := by
    decide +kernel
  refine ⟨_, System.reach_play hplay, hlog, fun hall => ?_⟩
  rw [hlog] at hall
  obtain ⟨f, -, hstored⟩ := hall
    [.enabled, .disabled, .stored 1, .enabled, .dispatched 0 1] (.accepted 0) [] rfl 0 rfl
  simp [since, startOver, switchesOn] at hstored

end Runs

end VoiceAgent.WebcamEpochs
