import VoiceAgent.MediaDispatch
import Mathlib.Data.List.Nodup

/-!
The dispatch of queued work over whole runs. Frames, queueing and both controllers take turns in
any order; what is sent is what was queued at the first boundary of each response, and a later
boundary of the response leaves the queues as they are. So work that is queued between two
segments of one response waits for the next response. A request that is queued while a pass is
active is another matter: what becomes of it is left open.
-/
namespace VoiceAgent.MediaDispatch

open StreamingEvents Coroutine Interleaving
open MediaAnalysis (Media Action Attachment)
open ThinkingController (Thinking Request requeue)

section Ledger

/-- What frames and queues come to, as the session has it. -/
def Session.track (s : Session) : Track where
  speaking := s.assistantSpeaking
  interrupted := s.assistantInterrupted
  skipTts := s.skipTts
  dispatched := s.dispatchedThisTurn
  prompt := queuedPrompt s.media
  request := s.thinking.pending

/-- A call before its frame is processed, between the turns of the two queues, or elsewhere. -/
inductive Stage
  | fresh | waiting | served
  deriving DecidableEq

def stage : Site → Stage
  | .idle | .pushing _ _ => .fresh
  | .media (.requesting _) => .waiting
  | _ => .served

/-- What is due is sent; a call has its turns at most once, and its place says which are left. -/
structure Ledger (stages : ℕ → Stage) (log : List Event) : Prop where
  media : collect mediaSent log = collect mediaDue log
  thinking : collect thinkingStarted log = collect thinkingDue log
  frames : (collect boundaries log).Nodup
  turns : (collect thinkingTurns log).Nodup
  subset : ∀ n ∈ collect thinkingTurns log, n ∈ collect boundaries log
  place : ∀ n, match stages n with
    | .fresh => n ∉ collect boundaries log
    | .waiting => n ∈ collect boundaries log ∧ n ∉ collect thinkingTurns log
    | .served => n ∈ collect boundaries log → n ∈ collect thinkingTurns log

/-- An event that neither is a dispatch nor calls for one. -/
def Event.Quiet : Event → Prop
  | .frame _ _ _ _ | .thinks _ _ => False
  | .media (.sent (.upload _) _) | .thinking (.starts _ _) => False
  | _ => True

theorem collect_append {α : Type} {g : Track → Event → List α} {log es : List Event}
    (h : ∀ e ∈ es, ∀ k, g k e = []) : collect g (log ++ es) = collect g log := by
  induction es using List.reverseRecOn with
  | nil => simp
  | append_singleton es e ih =>
    rw [← List.append_assoc, collect_snoc, ih fun e he => h e (by simp [he]), h e (by simp)]
    simp

theorem track_append {log es : List Event} (h : ∀ e ∈ es, ∀ k : Track, k.step e = k) :
    track (log ++ es) = track log := by
  induction es using List.reverseRecOn with
  | nil => simp
  | append_singleton es e ih =>
    rw [← List.append_assoc, track_snoc, h e (by simp), ih fun e he => h e (by simp [he])]

variable {stages : ℕ → Stage} {log : List Event} {n : ℕ}

/-- Another record of the same frames and turns, with what is due in it sent. -/
theorem Ledger.like {log' : List Event} (h : Ledger stages log)
    (hframes : collect boundaries log' = collect boundaries log)
    (hturns : collect thinkingTurns log' = collect thinkingTurns log)
    (hmedia : collect mediaSent log' = collect mediaDue log')
    (hthinking : collect thinkingStarted log' = collect thinkingDue log') :
    Ledger stages log' where
  media := hmedia
  thinking := hthinking
  frames := by rw [hframes]; exact h.frames
  turns := by rw [hturns]; exact h.turns
  subset := by rw [hframes, hturns]; exact h.subset
  place := by rw [hframes, hturns]; exact h.place

theorem Ledger.quiet {es : List Event} (h : Ledger stages log) (hes : ∀ e ∈ es, e.Quiet) :
    Ledger stages (log ++ es) := by
  have hsame : ∀ {α : Type} {g : Track → Event → List α}, (∀ e : Event, e.Quiet → ∀ k, g k e = []) →
      collect g (log ++ es) = collect g log := fun hg =>
    collect_append fun e he => hg e (hes e he)
  refine h.like ?_ ?_ ?_ ?_
  · exact hsame fun e he k => by cases e <;> first | rfl | exact he.elim
  · exact hsame fun e he k => by cases e <;> first | rfl | exact he.elim
  · rw [hsame, hsame, h.media]
    · intro e he k
      cases e <;> first | rfl | exact he.elim
    · intro e he k
      unfold mediaSent
      split
      · exact he.elim
      · rfl
  · rw [hsame, hsame, h.thinking]
    · intro e he k
      cases e <;> first | rfl | exact he.elim
    · intro e he k
      unfold thinkingStarted
      split
      · exact he.elim
      · rfl

/-- A frame that is no first boundary. -/
theorem Ledger.passed {f : Frame} {d : Direction} {c : Bool} (h : Ledger stages log)
    (hf : (track log).first f d = false) : Ledger stages (log ++ [.frame n f d c]) := by
  refine h.like ?_ ?_ ?_ ?_
  · simp [collect_snoc, boundaries, hf]
  · simp [collect_snoc, thinkingTurns]
  · cases c <;> simp [collect_snoc, mediaSent, mediaDue, hf, h.media]
  · simp [collect_snoc, thinkingStarted, thinkingDue, h.thinking]

/-- The first boundary of a response, when no prompt is due. -/
theorem Ledger.begin {f : Frame} {d : Direction} {c : Bool} (h : Ledger stages log)
    (hn : stages n = .fresh) (hf : (track log).first f d = true)
    (hdue : c = false ∨ (track log).prompt = none) :
    Ledger (Function.update stages n .waiting) (log ++ [.frame n f d c]) := by
  have hnew : n ∉ collect boundaries log := by
    have := h.place n
    rwa [hn] at this
  have hframes : collect boundaries (log ++ [.frame n f d c]) = collect boundaries log ++ [n] := by
    simp [collect_snoc, boundaries, hf]
  have hturns : collect thinkingTurns (log ++ [.frame n f d c]) = collect thinkingTurns log := by
    simp [collect_snoc, thinkingTurns]
  refine ⟨?_, ?_, ?_, hturns ▸ h.turns, ?_, fun m => ?_⟩
  · obtain rfl | hp := hdue
    · simp [collect_snoc, mediaSent, mediaDue, h.media]
    · cases c <;> simp [collect_snoc, mediaSent, mediaDue, hp, h.media]
  · simp [collect_snoc, thinkingStarted, thinkingDue, h.thinking]
  · rw [hframes]
    exact List.Nodup.append h.frames (List.nodup_singleton n) (List.disjoint_singleton.mpr hnew)
  · rw [hframes, hturns]
    exact fun m hm => List.mem_append_left _ (h.subset m hm)
  · rw [hframes, hturns]
    by_cases hmn : m = n
    · subst m
      simp only [Function.update_self]
      exact ⟨by simp, fun hm => hnew (h.subset n hm)⟩
    · have hm := h.place m
      rw [Function.update_of_ne hmn]
      cases hs : stages m <;> simpa [hs, hmn] using hm

/-- The first boundary of a response, and the prompt that is due. -/
theorem Ledger.send {f : Frame} {d : Direction} {job : MediaAnalysis.Job} (h : Ledger stages log)
    (hn : stages n = .fresh) (hf : (track log).first f d = true)
    (hdue : (track log).prompt =
      some ⟨job.transcript, job.analysisPrompt, job.analysisAction, some job.attachment.id⟩) :
    Ledger (Function.update stages n .waiting)
      (log ++ [.frame n f d true] ++ [.media (.sent (.upload n) job)]) := by
  have hbegin : Ledger (Function.update stages n .waiting) (log ++ [.frame n f d false]) :=
    h.begin hn hf (.inl rfl)
  refine hbegin.like ?_ ?_ ?_ ?_
  · simp [-List.append_assoc, collect_snoc, boundaries]
  · simp [-List.append_assoc, collect_snoc, thinkingTurns]
  · simp [-List.append_assoc, collect_snoc, mediaSent, mediaDue, hf, hdue, h.media]
  · simp [-List.append_assoc, collect_snoc, thinkingStarted, thinkingDue, h.thinking]

/-- The turn of the thinking queue, when no request is due. -/
theorem Ledger.think {free : Bool} (h : Ledger stages log) (hn : stages n = .waiting)
    (hdue : free = false ∨ (track log).request = none) :
    Ledger (Function.update stages n .served) (log ++ [.thinks n free]) := by
  obtain ⟨hin, hnew⟩ : n ∈ collect boundaries log ∧ n ∉ collect thinkingTurns log := by
    have := h.place n
    rwa [hn] at this
  have hframes : collect boundaries (log ++ [.thinks n free]) = collect boundaries log := by
    simp [collect_snoc, boundaries]
  have hturns : collect thinkingTurns (log ++ [.thinks n free]) =
      collect thinkingTurns log ++ [n] := by
    simp [collect_snoc, thinkingTurns]
  refine ⟨?_, ?_, hframes ▸ h.frames, ?_, ?_, fun m => ?_⟩
  · simp [collect_snoc, mediaSent, mediaDue, h.media]
  · obtain rfl | hp := hdue
    · simp [collect_snoc, thinkingStarted, thinkingDue, h.thinking]
    · cases free <;> simp [collect_snoc, thinkingStarted, thinkingDue, hp, h.thinking]
  · rw [hturns]
    exact List.Nodup.append h.turns (List.nodup_singleton n) (List.disjoint_singleton.mpr hnew)
  · rw [hframes, hturns]
    intro m hm
    obtain hm | rfl := by simpa using hm
    · exact h.subset m hm
    · exact hin
  · rw [hframes, hturns]
    by_cases hmn : m = n
    · subst m
      simp
    · have hm := h.place m
      rw [Function.update_of_ne hmn]
      cases hs : stages m <;> simpa [hs, hmn] using hm

/-- The turn of the thinking queue, and the request that is due. -/
theorem Ledger.start {r : Request} (h : Ledger stages log) (hn : stages n = .waiting)
    (hdue : (track log).request = some r) :
    Ledger (Function.update stages n .served)
      (log ++ [.thinks n true] ++ [.thinking (.starts n r)]) := by
  have hthink : Ledger (Function.update stages n .served) (log ++ [.thinks n false]) :=
    h.think hn (.inl rfl)
  refine hthink.like ?_ ?_ ?_ ?_
  · simp [-List.append_assoc, collect_snoc, boundaries]
  · simp [-List.append_assoc, collect_snoc, thinkingTurns]
  · simp [-List.append_assoc, collect_snoc, mediaSent, mediaDue, h.media]
  · simp [-List.append_assoc, collect_snoc, thinkingStarted, thinkingDue, hdue, h.thinking]

/-- A call whose frame was no first boundary, or is not processed, is over. -/
theorem Ledger.retire (h : Ledger stages log) (hn : stages n ≠ .waiting) :
    Ledger (Function.update stages n .served) log := by
  refine ⟨h.media, h.thinking, h.frames, h.turns, h.subset, fun m => ?_⟩
  have hm := h.place m
  by_cases hmn : m = n
  · subst m
    simp only [Function.update_self]
    cases hs : stages n with
    | fresh =>
      rw [hs] at hm
      exact fun hin => absurd hin hm
    | waiting => exact absurd hs hn
    | served =>
      rw [hs] at hm
      exact hm
  · rwa [Function.update_of_ne hmn]

end Ledger

section Sound

structure Sound (stages : ℕ → Stage) (s : Session) : Prop where
  track : track s.log = s.track
  ledger : Ledger stages s.log

variable {stages : ℕ → Stage} {s : Session} {n : ℕ}

theorem Sound.retire (h : Sound stages s) (hn : stages n ≠ .waiting) :
    Sound (Function.update stages n .served) s := ⟨h.track, h.ledger.retire hn⟩

theorem setMedia_log {m : Media} {es : List MediaAnalysis.Event} (hm : m.log = s.media.log ++ es) :
    (s.setMedia m).log = s.log ++ es.map .media := by simp [Session.setMedia, hm]

theorem setThinking_log {t : Thinking} {es : List ThinkingController.Event}
    (ht : t.log = s.thinking.log ++ es) :
    (s.setThinking t).log = s.log ++ es.map .thinking := by simp [Session.setThinking, ht]

/-- The media controller goes on and leaves its queue. -/
theorem Sound.media {m : Media} (es : List MediaAnalysis.Event) (h : Sound stages s)
    (hm : m.log = s.media.log ++ es) (hq : queuedPrompt m = queuedPrompt s.media)
    (hes : ∀ n job, .sent (.upload n) job ∉ es) : Sound stages (s.setMedia m) := by
  have hquiet : ∀ e ∈ es.map Event.media, e.Quiet := by
    intro e he
    obtain ⟨ev, hev, rfl⟩ := List.mem_map.mp he
    cases ev with
    | sent job payload =>
      cases job with
      | upload n => exact hes n payload hev
      | capture n => trivial
    | _ => trivial
  refine ⟨?_, ?_⟩
  · rw [setMedia_log hm, track_append, h.track]
    · simp [Session.track, Session.setMedia, hq]
    · intro e he k
      obtain ⟨e, -, rfl⟩ := List.mem_map.mp he
      rfl
  · rw [setMedia_log hm]
    exact h.ledger.quiet hquiet

/-- A prompt is queued, or the queue is cleared. -/
theorem Sound.prompts {m : Media} (h : Sound stages s) (hm : m.log = s.media.log) :
    Sound stages ((s.setMedia m).record (.prompts (queuedPrompt m))) := by
  have hlog : ((s.setMedia m).record (.prompts (queuedPrompt m))).log =
      s.log ++ [.prompts (queuedPrompt m)] := by
    simp [Session.record, Session.setMedia, hm]
  refine ⟨?_, ?_⟩
  · rw [hlog, track_snoc, h.track]
    rfl
  · rw [hlog]
    exact h.ledger.quiet fun e he => by
      rw [List.mem_singleton.mp he]
      trivial

theorem track_thinking (log : List Event) (es : List ThinkingController.Event) :
    track (log ++ es.map .thinking) =
      { track log with request := es.foldl requeue (track log).request } := by
  induction es using List.reverseRecOn with
  | nil => simp
  | append_singleton es e ih =>
    rw [List.map_append, ← List.append_assoc, List.map_singleton, track_snoc, ih]
    simp [Track.step, List.foldl_append]

/-- The thinking controller goes on without starting a pass. -/
theorem Sound.thinking {t : Thinking} (es : List ThinkingController.Event) (h : Sound stages s)
    (ht : t.log = s.thinking.log ++ es) (hp : t.pending = es.foldl requeue s.thinking.pending)
    (hes : ∀ n r, .starts n r ∉ es) : Sound stages (s.setThinking t) := by
  have hquiet : ∀ e ∈ es.map Event.thinking, e.Quiet := by
    intro e he
    obtain ⟨ev, hev, rfl⟩ := List.mem_map.mp he
    cases ev with
    | starts n r => exact hes n r hev
    | _ => trivial
  refine ⟨?_, ?_⟩
  · rw [setThinking_log ht, track_thinking, h.track]
    simp [Session.track, Session.setThinking, hp]
  · rw [setThinking_log ht]
    exact h.ledger.quiet hquiet

theorem log_queuePrompt (m : Media) (transcript prompt action source : Text) :
    (m.queuePrompt transcript prompt action source).log = m.log := by
  simp only [Media.queuePrompt]
  split
  · rfl
  · split
    · rfl
    · split
      · rfl
      · split <;> rfl

theorem Sound.outside {s' : Session} (h : Sound stages s) (ho : Outside s s') :
    Sound stages s' := by
  cases ho with
  | prompt transcript prompt action source =>
    exact h.prompts (log_queuePrompt s.media transcript prompt action source)
  | request transcript reason =>
    simp only [Thinking.queue]
    split
    · exact h.thinking [] (by simp) rfl (by simp)
    · exact h.thinking [.queued ⟨strip transcript, reason⟩] rfl rfl (by simp)
  | media m hm =>
    obtain ⟨hq, es, hlog, hes⟩ := hm
    exact h.media es hlog hq hes
  | thinking t ht =>
    obtain ⟨hp, es, hlog, hes⟩ := ht
    have hfold : es.foldl requeue s.thinking.pending = s.thinking.pending := by
      clear hlog
      induction es with
      | nil => rfl
      | cons e es ih =>
        rw [List.foldl_cons, hes e List.mem_cons_self]
        exact ih fun e he => hes e (List.mem_cons_of_mem _ he)
    refine h.thinking es hlog (hp.trans hfold.symm) fun n r hin => ?_
    have := hes _ hin (some r)
    cases this

/-- A frame that is no first boundary changes what the tracked state says, and no more. -/
theorem Sound.passed {s' : Session} {f : Frame} {d : Direction} {c : Bool} (h : Sound stages s)
    (hf : s.track.first f d = false) (hlog : s'.log = s.log ++ [.frame n f d c])
    (htrack : s'.track = s.track.frame f d) : Sound stages s' := by
  refine ⟨?_, ?_⟩
  · rw [hlog, track_snoc, h.track, htrack]
    rfl
  · rw [hlog]
    exact h.ledger.passed (by rw [h.track, hf])

/-- The session in the midst of a segment: frame `n`, a first boundary, has been processed, and
the media queue is about to have its turn. -/
structure AtBoundary (s s' : Session) (n : ℕ) (f : Frame) (d : Direction) : Prop where
  first : s.track.first f d = true
  media : s'.media = s.media
  log : s'.log = s.log ++ [.frame n f d (current s.media)]
  track : { s'.track with prompt := none } = s.track.frame f d

section Boundary
variable {s' : Session} {f : Frame} {d : Direction} {m : Media}

theorem Sound.begin (h : Sound stages s) (hn : stages n = .fresh) (hb : AtBoundary s s' n f d)
    (hm : m.log = s.media.log) (hq : queuedPrompt m = none)
    (hdue : current s.media = false ∨ queuedPrompt s.media = none) :
    Sound (Function.update stages n .waiting) (s'.setMedia m) := by
  have hlog : (s'.setMedia m).log = s.log ++ [.frame n f d (current s.media)] := by
    simp [Session.setMedia, hb.media, hb.log, hm]
  refine ⟨?_, ?_⟩
  · rw [hlog, track_snoc, h.track]
    refine hb.track.symm.trans ?_
    simp [Session.track, Session.setMedia, hq]
  · rw [hlog]
    refine h.ledger.begin hn (by rw [h.track, hb.first]) ?_
    rwa [h.track]

theorem Sound.send {job : MediaAnalysis.Job} (h : Sound stages s) (hn : stages n = .fresh)
    (hb : AtBoundary s s' n f d) (hm : m.log = s.media.log ++ [.sent (.upload n) job])
    (hq : queuedPrompt m = none) (hcurrent : current s.media = true)
    (hdue : queuedPrompt s.media =
      some ⟨job.transcript, job.analysisPrompt, job.analysisAction, some job.attachment.id⟩) :
    Sound (Function.update stages n .waiting) (s'.setMedia m) := by
  have hlog : (s'.setMedia m).log =
      s.log ++ [.frame n f d true] ++ [.media (.sent (.upload n) job)] := by
    simp [Session.setMedia, hb.media, hb.log, hm, hcurrent]
  refine ⟨?_, ?_⟩
  · rw [hlog, track_snoc, track_snoc, h.track]
    refine hb.track.symm.trans ?_
    simp [Session.track, Session.setMedia, hq]
  · rw [hlog]
    refine h.ledger.send hn (by rw [h.track, hb.first]) ?_
    rwa [h.track]

end Boundary

section Thinking
variable {t : Thinking} {free : Bool}

theorem Sound.think (h : Sound stages s) (hn : stages n = .waiting) (ht : t.log = s.thinking.log)
    (hp : t.pending = none) (hdue : free = false ∨ s.thinking.pending = none) :
    Sound (Function.update stages n .served) ((s.record (.thinks n free)).setThinking t) := by
  have hlog : ((s.record (.thinks n free)).setThinking t).log = s.log ++ [.thinks n free] := by
    simp [Session.record, Session.setThinking, ht]
  refine ⟨?_, ?_⟩
  · rw [hlog, track_snoc, h.track]
    simp [Session.track, Session.setThinking, Session.record, Track.step, hp]
  · rw [hlog]
    refine h.ledger.think hn ?_
    rwa [h.track]

theorem Sound.start {r : Request} (h : Sound stages s) (hn : stages n = .waiting)
    (ht : t.log = s.thinking.log ++ [.starts n r]) (hp : t.pending = none) (hfree : free = true)
    (hdue : s.thinking.pending = some r) :
    Sound (Function.update stages n .served) ((s.record (.thinks n free)).setThinking t) := by
  subst hfree
  have hlog : ((s.record (.thinks n true)).setThinking t).log =
      s.log ++ [.thinks n true] ++ [.thinking (.starts n r)] := by
    simp [Session.record, Session.setThinking, ht]
  refine ⟨?_, ?_⟩
  · rw [hlog, track_snoc, track_snoc, h.track]
    simp [Session.track, Session.setThinking, Session.record, Track.step, requeue, hp]
  · rw [hlog]
    refine h.ledger.start hn ?_
    rwa [h.track]

theorem setThinking_setThinking {t' : Thinking} (ht : t.log = s.thinking.log) :
    (s.setThinking t).setThinking t' = s.setThinking t' := by simp [Session.setThinking, ht]

end Thinking

theorem setMedia_setMedia {m m' : Media} (hm : m.log = s.media.log) :
    (s.setMedia m).setMedia m' = s.setMedia m' := by simp [Session.setMedia, hm]

end Sound

section Contract

def dispatching : Contract ℕ Site Session Reply where
  inv v := Sound (stage ∘ v.site) v.shared
  rely _ _ _ := True
  allowed _ _ _ := True

variable {v : SessionView} {s : Session} {n : ℕ}

/-- Where call `n` may stop. -/
theorem stops_iff {l : Site} :
    dispatching.Stops n l v s ↔ Sound (Function.update (stage ∘ v.site) n (stage l)) s := by
  change (Sound (stage ∘ Function.update v.site n l) s ∧ ∀ u, u ≠ n → True) ↔ _
  rw [Function.comp_update]
  simp

/-- Call `n` has had its turn, or has none. -/
theorem stops_served {l : Site} (h : Sound (stage ∘ v.site) s) (hn : stage (v.site n) ≠ .waiting)
    (hl : stage l = .served) : dispatching.Stops n l v s := by
  rw [stops_iff, hl]
  exact h.retire hn

/-- Call `n` stays as it is. -/
theorem stops_stay {l : Site} (h : Sound (stage ∘ v.site) s) (hl : stage (v.site n) = stage l) :
    dispatching.Stops n l v s := by
  rw [stops_iff, ← hl]
  rwa [← Function.comp_apply (f := stage) (g := v.site), Function.update_eq_self]

/-- The turn of the media queue at the first boundary of a response. -/
theorem wp_startMedia {s' : Session} {f : Frame} {d : Direction}
    (h : Sound (stage ∘ v.site) s) (hn : stage (v.site n) = .fresh) (hb : AtBoundary s s' n f d) :
    Wp dispatching n (fun _ v s => Sound (Function.update (stage ∘ v.site) n .waiting) s)
      (fun _ v s => Sound (Function.update (stage ∘ v.site) n .waiting) s)
      ((MediaAnalysis.startPending n).zoom mediaPart) v s' := by
  have hnone : (current s.media = false ∨ queuedPrompt s.media = none) →
      Sound (Function.update (stage ∘ v.site) n .waiting) (s'.setMedia s.media.clearPending) :=
    fun hdue => h.begin hn hb rfl rfl hdue
  unfold MediaAnalysis.startPending
  rw [wp_zoom_bind, wp_zoom_get, wp_zoom_bind, wp_zoom_modify, show mediaPart.view s' = s.media
    from hb.media]
  split
  · rename_i hempty
    exact hnone (.inr (by simp [queuedPrompt, hempty]))
  · rename_i hsome
    split
    · rename_i ha
      exact hnone (.inl (by simp [current, ha]))
    · rename_i a ha
      split
      · rename_i hid
        exact hnone (.inl (by simp [current, ha, hid]))
      · rename_i hid
        obtain hid : some a.id = s.media.pendingAttachmentId := not_not.mp hid
        split
        · rename_i hactive
          exact hnone (.inl (by simp [current, ha, hactive]))
        · rename_i hactive
          rw [wp_zoom_bind, wp_zoom_modify, wp_zoom_bind, wp_zoom_modify, wp_zoom_bind,
            wp_zoom_pause]
          refine ⟨?_, fun v' i _ hi hsite _ => ?_⟩
          · have hput : ∀ m, ((s'.setMedia s.media.clearPending).setMedia
                { s.media.clearPending with activeAttachmentId := some a.id }).setMedia m =
                  s'.setMedia m := by
              intro m
              have hlog : s.media.clearPending.log = s'.media.log := by
                rw [hb.media]
                rfl
              rw [setMedia_setMedia, setMedia_setMedia hlog]
              rfl
            rw [stops_iff]
            refine (congrArg (Sound _) (hput _)).mpr (h.send hn hb rfl rfl ?_ ?_)
            · simp [current, ha, hactive, ← hid]
            · simp [queuedPrompt, hsome, hid]
          · have hi : Sound (stage ∘ v'.site) v'.shared := hi
            have hwait : Function.update (stage ∘ v'.site) n .waiting = stage ∘ v'.site := by
              rw [Function.update_eq_self_iff, Function.comp_apply, hsite]
              rfl
            split
            · rw [wp_zoom_modify, hwait]
              exact hi.media [.failed (.upload n)] rfl rfl (by simp)
            · rw [wp_zoom_modify, hwait]
              exact hi.media [] (List.append_nil _).symm rfl (by simp)

/-- The turn of the thinking queue. -/
theorem wp_startThinking (h : Sound (Function.update (stage ∘ v.site) n .waiting) s) :
    Wp dispatching n (fun _ v s => dispatching.Stops n .finished v s)
      (fun _ v s => dispatching.Stops n .finished v s)
      ((ThinkingController.startPending n).zoom thinkingPart) v
      (s.record (.thinks n (!s.thinking.active))) := by
  have hover : ∀ {l : Site} {s' : Session}, stage l = .served →
      Sound (Function.update (Function.update (stage ∘ v.site) n .waiting) n .served) s' →
        dispatching.Stops n l v s' := by
    intro l s' hl hs
    rw [stops_iff, hl]
    rwa [Function.update_idem] at hs
  have hwait : Function.update (stage ∘ v.site) n Stage.waiting n = .waiting :=
    Function.update_self ..
  unfold ThinkingController.startPending
  rw [wp_zoom_bind, wp_zoom_get, wp_zoom_bind, wp_zoom_modify]
  split
  · rename_i hnone
    exact hover rfl (h.think hwait rfl rfl (.inr hnone))
  · rename_i r hsome
    split
    · rename_i hactive
      have hactive : s.thinking.active = true := hactive
      exact hover rfl (h.think hwait rfl rfl (.inl (by simp [hactive])))
    · rename_i hfree
      have hfree : s.thinking.active = false := Bool.eq_false_iff.mpr hfree
      rw [wp_zoom_bind, wp_zoom_modify, wp_zoom_bind, wp_zoom_pause]
      refine ⟨?_, fun v' i _ hi hsite _ => ?_⟩
      · refine hover rfl ((congrArg (Sound _) (setThinking_setThinking rfl)).mpr ?_)
        exact h.start hwait rfl rfl (by simp [hfree]) hsome
      · have hi : Sound (stage ∘ v'.site) v'.shared := hi
        have hsite : stage (v'.site n) ≠ .waiting := by
          rw [hsite]
          simp [stage, thinkingPart]
        split
        · rw [wp_zoom_modify]
          exact stops_served (hi.thinking [.failed n] rfl rfl (by simp)) hsite rfl
        · rw [wp_zoom_bind, wp_zoom_modify, wp_zoom_bind, wp_zoom_get]
          have hdispatched := hi.thinking (t := v'.shared.thinking.record (.dispatched n))
            [.dispatched n] rfl rfl (by simp)
          split
          · exact stops_served hdispatched hsite rfl
          · unfold ThinkingController.queueFrame
            rw [wp_zoom_bind, wp_zoom_modify, wp_zoom_bind, wp_zoom_modify, wp_zoom_bind,
              wp_zoom_pause]
            refine ⟨stops_served ?_ hsite rfl, fun v'' i _ hi hsite _ => ?_⟩
            · refine Sound.thinking [] (Sound.thinking [] hdispatched ?_ rfl (by simp)) ?_ rfl
                (by simp)
              · exact (List.append_nil _).symm
              · exact (List.append_nil _).symm
            · have hsite : stage (v''.site n) ≠ .waiting := by
                rw [hsite]
                simp [stage, thinkingPart]
              split <;> exact stops_served hi hsite rfl

/-- `_dispatch_pending_work` at the first boundary of a response. -/
theorem wp_dispatchPendingWork {s' : Session} (f : Frame) (d : Direction)
    (h : Sound (stage ∘ v.site) s) (hn : stage (v.site n) = .fresh)
    (hd : s'.dispatchedThisTurn = s.dispatchedThisTurn)
    (hb : s.dispatchedThisTurn = false →
      AtBoundary s { s' with dispatchedThisTurn := true } n f d)
    (hpassed : s.dispatchedThisTurn = true → Sound (stage ∘ v.site) s') :
    Wp dispatching n (fun _ v s => dispatching.Stops n .finished v s)
      (fun _ v s => dispatching.Stops n .finished v s) (dispatchPendingWork n) v s' := by
  unfold dispatchPendingWork
  rw [wp_bind, wp_get]
  split
  · rename_i hdone
    exact stops_served (hpassed (hd ▸ hdone)) (by rw [hn]; decide) rfl
  · rename_i hfirst
    have hfirst : s.dispatchedThisTurn = false := hd ▸ Bool.eq_false_iff.mpr hfirst
    rw [wp_bind, wp_modify, wp_bind, wp_handle]
    refine wp_mono ?_ ?_ (wp_startMedia h hn (hb hfirst))
    · intro _ v' s'' hs
      rw [wp_bind, wp_modify, wp_handle]
      exact wp_startThinking hs
    · intro _ v' s'' hs
      rw [wp_pure, wp_bind, wp_modify, wp_handle]
      exact wp_startThinking hs

theorem frame_userStarted {k : Track} {f : Frame} (hf : f = .userStarted ∨ f = .vadUserStarted)
    (d : Direction) : k.frame f d = { k with interrupted := k.interrupted || k.speaking } := by
  obtain rfl | rfl := hf <;> rfl

/-- The user starts to speak, and what is queued is given up if the assistant is speaking. -/
theorem Sound.userStarted {stages : ℕ → Stage} {f : Frame} {d : Direction} {c : Bool}
    (h : Sound stages s) (hf : f = .userStarted ∨ f = .vadUserStarted) :
    Sound stages (s.record (.frame n f d c)).userStarted := by
  have hfirst : s.track.first f d = false := by obtain rfl | rfl := hf <;> rfl
  cases hspeaking : s.assistantSpeaking with
  | false =>
    have hs : Sound stages (s.record (.frame n f d c)) := by
      refine h.passed hfirst rfl ?_
      rw [frame_userStarted hf]
      simp [Session.track, Session.record, hspeaking]
    have hquiet : (s.record (.frame n f d c)).userStarted =
        { s.record (.frame n f d c) with userVoice := true } := by
      simp [Session.userStarted, Session.record, hspeaking]
    rw [hquiet]
    exact ⟨hs.track, hs.ledger⟩
  | true =>
    have hs : Sound stages { s.record (.frame n f d c) with assistantInterrupted := true } := by
      refine h.passed hfirst rfl ?_
      rw [frame_userStarted hf]
      simp [Session.track, Session.record, hspeaking]
    have hprompts := hs.prompts (m := s.media.clearPendingOnInterruption) (by
      unfold Media.clearPendingOnInterruption
      split <;> rfl)
    have hcleared := hprompts.thinking (t := s.thinking.clearPending) [.cleared] rfl rfl (by simp)
    have hloud : (s.record (.frame n f d c)).userStarted =
        { { s.record (.frame n f d c) with
            assistantInterrupted := true }.onUserInterruptedAssistant with userVoice := true } := by
      simp [Session.userStarted, Session.record, hspeaking]
    rw [hloud]
    exact ⟨hcleared.track, hcleared.ledger⟩

/-- What a call does once its frame is pushed on. -/
theorem wp_handleFrame {f : Frame} {d : Direction} (h : Sound (stage ∘ v.site) s)
    (hn : stage (v.site n) = .fresh) :
    Wp dispatching n (fun _ v s => dispatching.Stops n .finished v s)
      (fun _ v s => dispatching.Stops n .finished v s) (handleFrame n f d) v
      (s.record (.frame n f d (current s.media))) := by
  have hover : ∀ {s' : Session}, Sound (stage ∘ v.site) s' → dispatching.Stops n .finished v s' :=
    fun hs => stops_served hs (by rw [hn]; decide) rfl
  unfold handleFrame
  split
  · exact hover (h.passed rfl rfl rfl)
  · exact hover (h.passed rfl rfl rfl)
  · exact hover (h.userStarted (.inl rfl))
  · exact hover (h.userStarted (.inr rfl))
  · exact hover (h.passed rfl rfl rfl)
  · exact hover (h.passed rfl rfl rfl)
  · rw [wp_bind, wp_get, wp_bind, wp_modify]
    split
    · rename_i hinterrupted
      have hinterrupted : s.assistantInterrupted = true := hinterrupted
      have hfirst : s.track.first .botStopped .upstream = false := by
        simp [Track.first, Track.boundary, Session.track, hinterrupted]
      refine hover (h.passed hfirst rfl ?_)
      simp only [Track.frame, hfirst]
      rfl
    · rename_i hinterrupted
      have hinterrupted : s.assistantInterrupted = false := Bool.eq_false_iff.mpr hinterrupted
      refine wp_dispatchPendingWork .botStopped .upstream h hn rfl (fun hd => ?_) fun hd => ?_
      · have hfirst : s.track.first .botStopped .upstream = true := by
          simp [Track.first, Track.boundary, Session.track, hinterrupted, hd]
        refine ⟨hfirst, rfl, rfl, ?_⟩
        simp only [Track.frame, hfirst]
        rfl
      · have hfirst : s.track.first .botStopped .upstream = false := by
          simp [Track.first, Session.track, hd]
        refine h.passed hfirst rfl ?_
        simp only [Track.frame, hfirst]
        rfl
  · rw [wp_bind, wp_get]
    split
    · rename_i hsilent
      obtain ⟨hskip, hspeaking⟩ : s.skipTts = true ∧ s.assistantSpeaking = false := hsilent
      refine wp_dispatchPendingWork .responseEnd .downstream h hn rfl (fun hd => ?_) fun hd => ?_
      · have hfirst : s.track.first .responseEnd .downstream = true := by
          simp [Track.first, Track.boundary, Session.track, hskip, hspeaking, hd]
        refine ⟨hfirst, rfl, rfl, ?_⟩
        simp only [Track.frame, hfirst]
        rfl
      · have hfirst : s.track.first .responseEnd .downstream = false := by
          simp [Track.first, Session.track, hd]
        refine h.passed hfirst rfl ?_
        simp only [Track.frame, hfirst]
        rfl
    · rename_i hsilent
      have hsilent : ¬(s.skipTts = true ∧ s.assistantSpeaking = false) := hsilent
      have hfirst : s.track.first .responseEnd .downstream = false := by
        simp only [not_and, Bool.not_eq_false] at hsilent
        cases hskip : s.skipTts with
        | false => simp [Track.first, Track.boundary, Session.track, hskip]
        | true => simp [Track.first, Track.boundary, Session.track, hsilent hskip]
      refine hover (h.passed hfirst rfl ?_)
      simp only [Track.frame, hfirst]
      rfl
  -- none of the frames that are read, in the direction in which they are
  · rename_i hbotStopped hend
    have hboundary : s.track.boundary f d = false := by
      unfold Track.boundary
      split
      · exact absurd rfl (hbotStopped rfl)
      · exact absurd rfl (hend rfl)
      · rfl
    have hfirst : s.track.first f d = false := by simp [Track.first, hboundary]
    have hframe : s.track.frame f d = s.track := by
      simp only [Track.frame, hfirst]
      rfl
    exact hover (h.passed hfirst rfl hframe.symm)

/-- A call, from its start. -/
theorem wp_processFrame {f : Frame} {d : Direction} (h : Sound (stage ∘ v.site) v.shared)
    (hn : v.site n = .idle) :
    Wp dispatching n (fun _ v s => dispatching.Stops n .finished v s)
      (fun _ v s => dispatching.Stops n .finished v s) (processFrame n f d) v v.shared := by
  unfold processFrame
  rw [wp_bind, wp_pause]
  refine ⟨stops_stay h (by rw [hn]; rfl), fun v' i _ hi hsite _ => ?_⟩
  have hi : Sound (stage ∘ v'.site) v'.shared := hi
  split
  · exact stops_served hi (by rw [hsite]; simp [stage]) rfl
  · rw [wp_bind, wp_modify]
    exact wp_handleFrame hi (by rw [hsite]; rfl)

theorem keeps : Keeps dispatching processor outside where
  refl _ _ := trivial
  trans _ _ _ _ _ _ := trivial
  outside v s h ho := ⟨Sound.outside h ho, fun _ => trivial⟩
  body n loop i v h hsite _ := by
    have h : Sound (stage ∘ v.site) v.shared := h
    have hstay : Wp dispatching n (fun b v s => Ends dispatching processor n b v s)
        (fun e v s => Ends dispatching processor n (processor.crash n e) v s)
        (pure loop : Prog Loop) v v.shared :=
      (wp_pure _).mpr (stops_stay h (congrArg stage hsite))
    match loop, i with
    | .finished, _ => exact hstay
    | .idle, .go => exact hstay
    | .idle, .failed => exact hstay
    | .idle, .start f d =>
      change Wp _ _ _ _ (processFrame n f d >>= fun _ => pure Loop.finished) _ _
      rw [wp_bind]
      exact wp_processFrame h hsite

end Contract

section Leeway

/-- What the turns of the thinking queue leave open: whether a request that met an active pass
may still be queued, and the turns at which such a request may be started or not. -/
structure Leeway where
  track : Track := {}
  isOpen : Bool := false
  turns : List ℕ := []

/-- A request that is queued when a pass is active opens a question, which the next turn without
one closes, and so does another request or an interruption. -/
def Leeway.step (w : Leeway) (e : Event) : Leeway :=
  let opens (free : Bool) := w.isOpen || (!free && w.track.request.isSome)
  { track := w.track.step e
    isOpen := match e with
      | .thinks _ free => !free && opens free
      | .thinking (.queued _) | .thinking .cleared => false
      | _ => w.isOpen
    turns := match e with
      | .thinks n free => if opens free then w.turns ++ [n] else w.turns
      | _ => w.turns }

def leeway (log : List Event) : Leeway := log.foldl Leeway.step {}

theorem leeway_snoc (log : List Event) (e : Event) :
    leeway (log ++ [e]) = (leeway log).step e := by
  simp [leeway, List.foldl_append]

theorem request_frame (k : Track) (f : Frame) (d : Direction) :
    (k.frame f d).request = k.request := by
  unfold Track.frame
  dsimp only
  split <;> split <;> rfl

/-- While the question is open no request has been queued since. -/
theorem request_of_open {log : List Event} (h : (leeway log).isOpen = true) :
    (track log).request = none := by
  induction log using List.reverseRecOn with
  | nil => cases h
  | append_singleton log e ih =>
    rw [leeway_snoc] at h
    rw [track_snoc]
    cases e with
    | frame n f d c => exact (request_frame _ f d).trans (ih h)
    | prompts queued => exact ih h
    | media e => exact ih h
    | thinks n free => rfl
    | thinking e =>
      cases e with
      | queued r => cases h
      | cleared => rfl
      | starts n r => rfl
      | failed n => exact ih h
      | dispatched n => exact ih h
      | answered n => exact ih h
      | speaks n => exact ih h

/-- Where the turns are told apart, a request that is due is not at one that is left open. -/
theorem leeway_turns {log : List Event} (h : (collect thinkingTurns log).Nodup) :
    (∀ n ∈ (leeway log).turns, n ∈ collect thinkingTurns log) ∧
      (∀ p ∈ collect thinkingDue log, p.1 ∈ collect thinkingTurns log) ∧
      ∀ p ∈ collect thinkingDue log, p.1 ∉ (leeway log).turns := by
  induction log using List.reverseRecOn with
  | nil => exact ⟨nofun, nofun, nofun⟩
  | append_singleton log e ih =>
    rw [collect_snoc] at h
    obtain ⟨hturns, hdue, hapart⟩ := ih (List.Nodup.of_append_left h)
    rw [leeway_snoc, collect_snoc, collect_snoc]
    cases e with
    | thinks n free =>
      have hnew : n ∉ collect thinkingTurns log :=
        List.disjoint_singleton.mp (List.disjoint_of_nodup_append h)
      have hlast : ∀ m,
          m ∈ collect thinkingTurns log ++ thinkingTurns (track log) (.thinks n free) ↔
            m ∈ collect thinkingTurns log ∨ m = n := fun m => by simp [thinkingTurns]
      have hleft : ∀ m ∈ ((leeway log).step (.thinks n free)).turns,
          m ∈ (leeway log).turns ∨ m = n := by
        intro m hm
        simp only [Leeway.step] at hm
        split at hm
        · simpa using hm
        · exact .inl hm
      refine ⟨fun m hm => (hlast m).mpr ((hleft m hm).imp_left (hturns m)), ?_, ?_⟩
      · intro p hp
        rw [hlast]
        rcases List.mem_append.mp hp with hp | hp
        · exact .inl (hdue p hp)
        · cases free with
          | false => cases hp
          | true =>
            obtain ⟨r, -, rfl⟩ := by simpa [thinkingDue] using hp
            exact .inr rfl
      · intro p hp hm
        rcases List.mem_append.mp hp with hp | hp
        · rcases hleft p.1 hm with hm | hm
          · exact hapart p hp hm
          · exact hnew (hm ▸ hdue p hp)
        · cases free with
          | false => cases hp
          | true =>
            obtain ⟨r, hr, rfl⟩ := by simpa [thinkingDue] using hp
            have hclosed : (leeway log).isOpen = false := by
              by_contra hopen
              rw [request_of_open (by simpa using hopen)] at hr
              cases hr
            simp only [Leeway.step, hclosed, Bool.not_true, Bool.false_and, Bool.or_false] at hm
            exact hnew (hturns n hm)
    | _ => exact ⟨by simpa [Leeway.step, thinkingTurns] using hturns,
        by simpa [thinkingDue, thinkingTurns] using hdue,
        by simpa [Leeway.step, thinkingDue] using hapart⟩

theorem thinkingDue_sublist (log : List Event) :
    ((collect thinkingDue log).map Prod.fst).Sublist (collect thinkingTurns log) := by
  induction log using List.reverseRecOn with
  | nil => exact List.Sublist.refl []
  | append_singleton log e ih =>
    rw [collect_snoc, collect_snoc, List.map_append]
    refine ih.append ?_
    cases e with
    | thinks n free =>
      cases free with
      | false => exact List.nil_sublist _
      | true => cases hr : (track log).request <;> simp [thinkingDue, thinkingTurns, hr]
    | _ => exact List.nil_sublist _

end Leeway

section Runs

/-- Uploads, captures and their callbacks leave the queued prompt alone. -/
theorem mediaBeside_apply (m : Media) (move : MediaAnalysis.Move)
    (hprompt : ∀ transcript prompt action source, move ≠ .prompt transcript prompt action source)
    (hinterruption : move ≠ .interruption) : MediaBeside m (m.apply move) := by
  have hsilent : ∀ m' : Media, queuedPrompt m' = queuedPrompt m → m'.log = m.log →
      MediaBeside m m' := fun m' hq hlog => ⟨hq, [], by simp [hlog], by simp⟩
  cases move with
  | upload u =>
    simp only [Media.apply, Media.storeUpload]
    split
    · exact hsilent _ rfl rfl
    · exact ⟨rfl, [_], rfl, by simp⟩
  | callback =>
    simp only [Media.apply, Media.onAttachmentStored, Media.markAttachmentPending]
    split
    · split
      · exact hsilent _ rfl rfl
      · split <;> exact hsilent _ rfl rfl
    · split
      · exact hsilent _ rfl rfl
      · split
        · exact hsilent _ rfl rfl
        · split <;> exact hsilent _ rfl rfl
  | highresCapture query =>
    simp only [Media.apply, Media.queueHighresCapture]
    split
    · exact hsilent _ rfl rfl
    · exact ⟨rfl, [_], rfl, by simp⟩
  | acceptCapture request =>
    simp only [Media.apply, Media.acceptCapture]
    split <;> exact hsilent _ rfl rfl
  | storeCapture request u =>
    simp only [Media.apply, Media.storeCapture]
    split
    · exact hsilent _ rfl rfl
    · split
      · exact hsilent _ rfl rfl
      · exact ⟨rfl, [_], rfl, by simp⟩
  | prompt transcript prompt action source => exact absurd rfl (hprompt _ _ _ _)
  | interruption => exact absurd rfl hinterruption

theorem sound_freshSession (base : SpeakerContext.Message) :
    dispatching.inv (freshSession base).view :=
  ⟨rfl, ⟨rfl, rfl, List.nodup_nil, List.nodup_nil, fun _ h => h, fun _ => List.not_mem_nil⟩⟩

theorem stage_waiting {l : Site} (h : stage l = .waiting) : ∃ a, l = .media (.requesting a) := by
  cases l with
  | media l =>
    cases l with
    | requesting a => exact ⟨a, rfl⟩
    | _ => cases h
  | _ => cases h

/-- At the first boundary of a response the queued prompt is sent, if its attachment is current,
and when the media job is requested the queued request is started, if no pass is active; what is
queued changes at no other frame, but by `queue_prompt`, `queue` and interruptions. Whether a
request that meets an active pass stays queued, or is started later, is not said. -/
theorem dispatched_at_first_boundary {base : SpeakerContext.Message} {p : SessionPool}
    (h : processor.Reach (fun _ _ _ => True) outside (freshSession base) p) :
    (queuedPrompt p.shared.media = (track p.shared.log).prompt ∧
      ((leeway p.shared.log).isOpen = false →
        p.shared.thinking.pending = (track p.shared.log).request)) ∧
    collect mediaSent p.shared.log = collect mediaDue p.shared.log ∧
    (((collect thinkingStarted p.shared.log).filter fun q => q.1 ∉ (leeway p.shared.log).turns) =
        collect thinkingDue p.shared.log ∧
      ((collect thinkingStarted p.shared.log).map Prod.fst).Sublist
        (collect thinkingTurns p.shared.log)) ∧
    (collect boundaries p.shared.log).Nodup ∧ (collect thinkingTurns p.shared.log).Nodup ∧
    ∀ n, n ∈ collect thinkingTurns p.shared.log ↔
      n ∈ collect boundaries p.shared.log ∧ ∀ a, p.view.site n ≠ .media (.requesting a) := by
  have hsound : Sound (stage ∘ p.view.site) p.shared :=
    keeps.invariant (sound_freshSession base) h
  obtain ⟨htrack, hledger⟩ := hsound
  obtain ⟨-, -, hapart⟩ := leeway_turns hledger.turns
  have hsettled : ((collect thinkingStarted p.shared.log).filter
      fun q => q.1 ∉ (leeway p.shared.log).turns) = collect thinkingDue p.shared.log := by
    rw [hledger.thinking, List.filter_eq_self]
    exact fun q hq => decide_eq_true (hapart q hq)
  refine ⟨⟨by rw [htrack]; rfl, fun _ => by rw [htrack]; rfl⟩, hledger.media,
    ⟨hsettled, hledger.thinking ▸ thinkingDue_sublist _⟩, hledger.frames, hledger.turns,
    fun n => ?_⟩
  have hplace := hledger.place n
  constructor
  · intro hn
    refine ⟨hledger.subset n hn, fun a ha => ?_⟩
    rw [Function.comp_apply, ha] at hplace
    exact hplace.2 hn
  · rintro ⟨hn, hsite⟩
    cases hs : stage (p.view.site n) with
    | fresh =>
      rw [Function.comp_apply, hs] at hplace
      exact absurd hn hplace
    | waiting =>
      obtain ⟨a, ha⟩ := stage_waiting hs
      exact absurd ha (hsite a)
    | served =>
      rw [Function.comp_apply, hs] at hplace
      exact hplace hn

abbrev Script := List (System.Act Session Reply ℕ)

/-- Call `n` processes a frame, up to its first stop after that. -/
def call (n : ℕ) (f : Frame) (d : Direction) : Script :=
  [.turn n (.start f d), .turn n .go]

def base : SpeakerContext.Message := .chat "system".toList (.text "Be brief.".toList)

def analyze : Prompt := ⟨['a'], ['b'], .new, some 1⟩

def queued : Script :=
  [.outside fun s => s.queuePrompt ['a'] ['b'] "new".toList "uploaded_attachment".toList]

/-- An upload, and a response whose speech begins. -/
def opening : Script :=
  [.outside fun s => s.setMedia (s.media.apply (.upload { bytes := 1 }))] ++
    call 0 .responseStart .downstream ++ call 1 .botStarted .upstream

/-- A prompt and a request are queued before the speech of the response ends. -/
def acknowledged : Script :=
  opening ++ queued ++ [.outside fun s => s.setThinking (s.thinking.queue ['c'] [])] ++
    call 2 .botStopped .upstream ++ [.turn 2 .go]

theorem upload_outside (s : Session) (u : MediaAnalysis.Upload) :
    Outside s (s.setMedia (s.media.apply (.upload u))) :=
  .media _ (mediaBeside_apply s.media (.upload u) nofun nofun)

theorem dispatched_when_acknowledged :
    collect mediaSent (processor.play (freshSession base) acknowledged).shared.log =
      [(2, analyze)] ∧
    ((collect thinkingStarted (processor.play (freshSession base) acknowledged).shared.log).filter
      fun q => q.1 ∉ (leeway (processor.play (freshSession base) acknowledged).shared.log).turns) =
        [(2, ⟨['c'], []⟩)] := by
  have hplay : processor.Playable (fun _ _ _ => True) outside (freshSession base)
      acknowledged :=
    ⟨upload_outside _ _, trivial, trivial, trivial, trivial,
      .prompt ['a'] ['b'] "new".toList "uploaded_attachment".toList, .request ['c'] [],
      trivial, trivial, trivial, trivial⟩
  obtain ⟨-, hmedia, ⟨hthinking, -⟩, -⟩ := dispatched_at_first_boundary (System.reach_play hplay)
  refine ⟨hmedia.trans ?_, hthinking.trans ?_⟩
  · decide +kernel
  · decide +kernel

/-- The prompts that are queued at any boundary, for an attachment that is current. -/
def mediaWaiting (k : Track) : Event → List (ℕ × Prompt)
  | .frame n f d true => if k.boundary f d then (k.prompt.map fun p => (n, p)).toList else []
  | _ => []

/-- A prompt is queued after the first of two segments of one response. -/
def twoSegments : Script :=
  opening ++ call 2 .botStopped .upstream ++ queued ++ call 3 .botStarted .upstream ++
    call 4 .botStopped .upstream

/-- The second segment of a response ends uninterrupted, and the prompt stays queued. -/
theorem second_segment_left_queued :
    ∃ p, processor.Reach (fun _ _ _ => True) outside (freshSession base) p ∧
      collect mediaWaiting p.shared.log = [(4, analyze)] ∧ collect mediaSent p.shared.log = [] ∧
      queuedPrompt p.shared.media = some analyze ∧ p.view.site 4 = .finished ∧
      ¬ collect mediaSent p.shared.log = collect mediaWaiting p.shared.log := by
  have hplay : processor.Playable (fun _ _ _ => True) outside (freshSession base) twoSegments :=
    ⟨upload_outside _ _, trivial, trivial, trivial, trivial, trivial, trivial,
      .prompt ['a'] ['b'] "new".toList "uploaded_attachment".toList, trivial, trivial, trivial,
      trivial, trivial⟩
  have hwaiting : collect mediaWaiting (processor.play (freshSession base) twoSegments).shared.log =
      [(4, analyze)] := by
    decide +kernel
  have hsent : collect mediaSent (processor.play (freshSession base) twoSegments).shared.log =
      [] := by
    decide +kernel
  refine ⟨_, System.reach_play hplay, hwaiting, hsent, by decide +kernel, by decide +kernel, ?_⟩
  rw [hwaiting, hsent]
  exact nofun

end Runs

end VoiceAgent.MediaDispatch
