import VoiceAgent.Interference
import VoiceAgent.RealtimeObserver

/-!
The transcript of one response, as its spoken text arrives. A frame is dropped when its text
ends the transcript so far, as if it had been seen before; the frames themselves are told apart
by their ids. So all texts are recorded exactly when none of them repeats the end of those
before it.
-/
namespace VoiceAgent.SpokenTranscripts

open RealtimeEvents Conversation Coroutine Interference RealtimeLifecycle RealtimeObserver

/-- What the others may do while a response is being spoken: they neither end it nor add to
its transcript. A flush and a cancel, which do add, end the response in the same step. -/
def SameResponse (s s' : Shared) : Prop :=
  s'.conv.active = s.conv.active ∧ s'.conv.assistantTranscript = s.conv.assistantTranscript

theorem sameResponse_refl (s : Shared) : SameResponse s s := ⟨rfl, rfl⟩

/-- The transcript of the response in progress; a response to be opened has none yet. -/
def transcriptOf (c : ConversationState) : Text :=
  match c.active with
  | some _ => c.assistantTranscript
  | none => []

def spokenText (data : FramePushed) : Text :=
  match data.frame with
  | .ttsText text => text
  | _ => []

/-- The frames of spoken text that one response has heard, each crossing its first edge and
handled amid what the others do. -/
inductive Heard : List FramePushed → Shared → Shared → Prop
  | start (s : Shared) : Heard [] s s
  | frame {frames : List FramePushed} {s t u : Shared} {data : FramePushed} {text : Text}
      (h : Heard frames s t) (htts : data.frame = .ttsText text) (htext : text ≠ [])
      (hdown : data.downstream = true) (hnew : data.id ∉ t.obs.processedFrames)
      (hrun : Amid SameResponse (onPushFrame data) t () u) : Heard (frames ++ [data]) s u
  | again {frames : List FramePushed} {s t u : Shared} {data : FramePushed} {text : Text}
      (h : Heard frames s t) (htts : data.frame = .ttsText text)
      (hseen : data.id ∈ t.obs.processedFrames)
      (hrun : Amid SameResponse (onPushFrame data) t () u) : Heard frames s u
  | meanwhile {frames : List FramePushed} {s t u : Shared} (h : Heard frames s t)
      (hothers : SameResponse t u) : Heard frames s u

section Frame
variable {s t u : Shared} {r : ResponseId} {w : Text}

/-- The response `r` is in progress with the transcript `w`. -/
def Holds (r : ResponseId) (w : Text) (s : Shared) : Prop :=
  s.conv.active = some r ∧ s.conv.assistantTranscript = w

theorem Holds.same (h : Holds r w s) (hs : SameResponse s t) : Holds r w t :=
  ⟨hs.1.trans h.1, hs.2.trans h.2⟩

theorem Holds.transcriptOf (h : Holds r w s) : transcriptOf s.conv = w := by
  rw [SpokenTranscripts.transcriptOf, h.1]
  exact h.2

theorem Holds.emit {site : Site} {event : ServerEvent} {origins : List ℕ} (h : Holds r w s)
    (hrun : Amid SameResponse (emit site event origins) s () t) : Holds r w t := by
  simp only [RealtimeLifecycle.emit, note, amid_bind, amid_modify, amid_pause, amid_pure] at hrun
  obtain ⟨_, s', rfl, _, s'', hothers, _, rfl⟩ := hrun
  have hnoted : Holds r w (s.record (.emitted event origins)) := h
  exact hnoted.same hothers

theorem Holds.announceCreated {origins : List ℕ} {created : Bool} {x : ResponseId}
    (h : Holds r w s)
    (hrun : Amid SameResponse (announceCreated x origins created) s () t) : Holds r w t := by
  unfold RealtimeLifecycle.announceCreated at hrun
  split at hrun
  · exact h.emit hrun
  · obtain ⟨_, rfl⟩ := hrun
    exact h

theorem Holds.announceOutputItem {origins : List ℕ} {x : ResponseId} (h : Holds r w s)
    (hrun : Amid SameResponse (announceOutputItem x origins) s () t) : Holds r w t := by
  rw [RealtimeLifecycle.announceOutputItem, amid_bind] at hrun
  obtain ⟨_, _, ⟨rfl, rfl⟩, hrun⟩ := hrun
  split at hrun
  · obtain ⟨_, rfl⟩ := hrun
    exact h
  · simp only [onConversation, amid_bind, amid_modify] at hrun
    obtain ⟨_, s', rfl, _, s'', hitem, hadded⟩ := hrun
    have hmarked : Holds r w { s with conv := { s.conv with outputItemAnnounced := true } } := h
    exact (hmarked.emit hitem).emit hadded

theorem Holds.announceContentPart {origins : List ℕ} {x : ResponseId} (h : Holds r w s)
    (hrun : Amid SameResponse (announceContentPart x origins) s () t) : Holds r w t := by
  rw [RealtimeLifecycle.announceContentPart, amid_bind] at hrun
  obtain ⟨_, _, ⟨rfl, rfl⟩, hrun⟩ := hrun
  split at hrun
  · obtain ⟨_, rfl⟩ := hrun
    exact h
  · simp only [onConversation, amid_bind, amid_modify] at hrun
    obtain ⟨_, s', rfl, hpart⟩ := hrun
    have hmarked : Holds r w { s with conv := { s.conv with contentPartAnnounced := true } } := h
    exact hmarked.emit hpart

/-- The response in progress is announced, or a fresh one without a transcript. -/
theorem holds_beginResponse (s : Shared) :
    ∃ r, Holds r (transcriptOf s.conv) { s with conv := s.conv.beginResponse.2 } := by
  cases hactive : s.conv.active with
  | some r =>
    refine ⟨r, ?_⟩
    rw [beginResponse_of_active hactive, transcriptOf, hactive]
    exact ⟨hactive, rfl⟩
  | none =>
    rw [beginResponse_of_none hactive, transcriptOf, hactive]
    exact ⟨_, active_openResponse _, rfl⟩

theorem holds_announceResponse {origins : List ℕ} {a : ResponseId × Bool}
    (hrun : Amid SameResponse (announceResponse origins) s a t) :
    ∃ r, Holds r (transcriptOf s.conv) t := by
  obtain ⟨r, hbegin⟩ := holds_beginResponse s
  simp only [announceResponse, askConversation, amid_bind, amid_modifyGet] at hrun
  obtain ⟨⟨x, created⟩, _, ⟨_, rfl⟩, _, s₁, hcreated, _, s₂, hitem, _, s₃, hpart, _, rfl⟩ := hrun
  exact ⟨r, ((hbegin.announceCreated hcreated).announceOutputItem hitem).announceContentPart hpart⟩

theorem Holds.append {text : Text} {origins : List ℕ} (htext : text ≠ []) (h : Holds r w s)
    (hrun : Amid SameResponse (appendAssistantTranscript text origins) s () t) :
    Holds r (w ++ text) t := by
  rw [RealtimeLifecycle.appendAssistantTranscript, if_neg htext] at hrun
  simp only [onConversation, note, amid_bind, amid_modify, amid_get] at hrun
  obtain ⟨_, s', rfl, _, _, ⟨rfl, rfl⟩, rfl⟩ := hrun
  have hextended : s.conv.appendAssistantTranscript text = s.conv.extendTranscript text := by
    rw [ConversationState.appendAssistantTranscript, if_neg htext, beginResponse_of_active h.1]
  refine ⟨?_, ?_⟩
  · change (s.conv.appendAssistantTranscript text).active = some r
    rw [hextended]
    exact h.1
  · change (s.conv.appendAssistantTranscript text).assistantTranscript = w ++ text
    rw [hextended, ← h.2]
    rfl

/-- Step lemma: a frame's text is appended, unless the transcript ends with it. -/
theorem holds_ttsText {text : Text} {origin : Option ℕ} (htext : text ≠ [])
    (hrun : Amid SameResponse (ttsText text origin) s () t) :
    ∃ r, Holds r (if text <:+ transcriptOf s.conv then transcriptOf s.conv
      else transcriptOf s.conv ++ text) t := by
  rw [ttsText, if_neg htext, amid_bind] at hrun
  obtain ⟨a, s₁, hannounced, hrun⟩ := hrun
  obtain ⟨r, hholds⟩ := holds_announceResponse hannounced
  rw [amid_bind] at hrun
  obtain ⟨_, _, ⟨rfl, rfl⟩, hrun⟩ := hrun
  rw [hholds.2] at hrun
  refine ⟨r, ?_⟩
  split
  · rename_i hends
    rw [if_pos hends, onObserver, amid_modify] at hrun
    subst t
    exact hholds
  · rename_i hends
    rw [if_neg hends, amid_bind] at hrun
    obtain ⟨_, s₂, happend, hrun⟩ := hrun
    rw [amid_bind, onObserver] at hrun
    obtain ⟨_, s₃, hobserver, hrun⟩ := hrun
    rw [amid_modify] at hobserver
    subst s₃
    rw [emitTranscriptDelta, amid_bind] at hrun
    obtain ⟨_, _, ⟨rfl, rfl⟩, hemit⟩ := hrun
    have happended : Holds r (transcriptOf s.conv ++ text) s₂ := hholds.append htext happend
    have hobserved : Holds r (transcriptOf s.conv ++ text)
        { s₂ with obs := { clearLlmText s₂.obs with botTranscriptFromTts := true } } := happended
    exact hobserved.emit hemit

variable {data : FramePushed} {text : Text}

theorem onPushFrame_ttsText (htts : data.frame = .ttsText text) :
    onPushFrame data = if data.downstream = false then pure ()
      else rememberFrame data.id >>= fun new =>
        if new then ttsText text data.origin else pure () := by
  unfold onPushFrame handleFrame
  rw [htts]
  simp [observed]

theorem rememberFrame_new {new : Bool} (hnew : data.id ∉ s.obs.processedFrames)
    (hrun : Amid SameResponse (rememberFrame data.id) s new t) :
    new = true ∧ t.conv = s.conv := by
  simp only [rememberFrame, amid_bind] at hrun
  obtain ⟨_, _, ⟨rfl, rfl⟩, hrun⟩ := hrun
  rw [if_neg hnew] at hrun
  simp only [onObserver, note, amid_bind, amid_modify, amid_pure] at hrun
  obtain ⟨_, _, rfl, _, _, rfl, rfl, rfl⟩ := hrun
  exact ⟨rfl, rfl⟩

theorem rememberFrame_seen {new : Bool} (hseen : data.id ∈ s.obs.processedFrames)
    (hrun : Amid SameResponse (rememberFrame data.id) s new t) : new = false ∧ t = s := by
  simp only [rememberFrame, amid_bind] at hrun
  obtain ⟨_, _, ⟨rfl, rfl⟩, hrun⟩ := hrun
  rw [if_pos hseen] at hrun
  exact ⟨hrun.1.symm, hrun.2.symm⟩

/-- A frame at its first edge is heard. -/
theorem onPushFrame_new (htts : data.frame = .ttsText text) (htext : text ≠ [])
    (hdown : data.downstream = true) (hnew : data.id ∉ s.obs.processedFrames)
    (hrun : Amid SameResponse (onPushFrame data) s () t) :
    ∃ r, Holds r (if text <:+ transcriptOf s.conv then transcriptOf s.conv
      else transcriptOf s.conv ++ text) t := by
  rw [onPushFrame_ttsText htts, if_neg (by simp [hdown]), amid_bind] at hrun
  obtain ⟨new, s', hremember, hrun⟩ := hrun
  obtain ⟨rfl, hconv⟩ := rememberFrame_new hnew hremember
  rw [if_pos rfl] at hrun
  rw [← hconv]
  exact holds_ttsText htext hrun

/-- At its later edges it is not. -/
theorem onPushFrame_seen (htts : data.frame = .ttsText text)
    (hseen : data.id ∈ s.obs.processedFrames)
    (hrun : Amid SameResponse (onPushFrame data) s () t) : t = s := by
  rw [onPushFrame_ttsText htts] at hrun
  split at hrun
  · exact hrun.2.symm
  · rw [amid_bind] at hrun
    obtain ⟨new, s', hremember, hrun⟩ := hrun
    obtain ⟨rfl, rfl⟩ := rememberFrame_seen hseen hremember
    exact hrun.2.symm

theorem transcriptOf_same (h : SameResponse s t) : transcriptOf t.conv = transcriptOf s.conv := by
  rw [transcriptOf, transcriptOf, h.1]
  cases s.conv.active with
  | some r => exact h.2
  | none => rfl

end Frame

section Run
variable {frames : List FramePushed} {s t : Shared}

/-- All that has been spoken. -/
def spoken (frames : List FramePushed) : Text := frames.flatMap spokenText

/-- No frame's text repeats the end of what the response has said before it. -/
def NoRepeat (said : Text) (frames : List FramePushed) : Prop :=
  ∀ before data after, frames = before ++ data :: after →
    ¬ spokenText data <:+ said ++ spoken before

theorem noRepeat_concat {said : Text} {data : FramePushed} :
    NoRepeat said (frames ++ [data]) ↔
      NoRepeat said frames ∧ ¬ spokenText data <:+ said ++ spoken frames := by
  constructor
  · intro h
    refine ⟨fun before d after hframes => ?_, h frames data [] rfl⟩
    exact h before d (after ++ [data]) (by simp [hframes])
  · rintro ⟨hold, hnew⟩ before d after hframes
    rcases List.eq_nil_or_concat' after with rfl | ⟨after, last, rfl⟩
    · obtain ⟨rfl, hlast⟩ := List.append_inj' hframes rfl
      obtain rfl := List.singleton_inj.mp hlast
      exact hnew
    · rw [← List.cons_append, ← List.append_assoc] at hframes
      exact hold before d after (List.append_inj' hframes rfl).1

theorem spoken_concat (data : FramePushed) :
    spoken (frames ++ [data]) = spoken frames ++ spokenText data := by
  simp [spoken]

/-- Run lemma: nothing is doubled, and something is dropped once a text repeats the end of the
transcript. -/
theorem transcript_heard (h : Heard frames s t) :
    (NoRepeat (transcriptOf s.conv) frames →
      transcriptOf t.conv = transcriptOf s.conv ++ spoken frames) ∧
    (¬ NoRepeat (transcriptOf s.conv) frames →
      (transcriptOf t.conv).length < (transcriptOf s.conv ++ spoken frames).length) := by
  induction h with
  | start s =>
    refine ⟨fun _ => by simp [spoken], fun hrepeat => absurd ?_ hrepeat⟩
    intro before data after hnil
    simp at hnil
  | @frame frames s t u data text h htts htext hdown hnew hrun ih =>
    obtain ⟨r, hholds⟩ := onPushFrame_new htts htext hdown hnew hrun
    have hafter := hholds.transcriptOf
    have hspoken : spokenText data = text := by rw [spokenText, htts]
    have hpos : 0 < text.length := List.length_pos_of_ne_nil htext
    rw [noRepeat_concat, spoken_concat, hafter, hspoken, ← List.append_assoc]
    by_cases hold : NoRepeat (transcriptOf s.conv) frames
    · rw [ih.1 hold]
      refine ⟨fun hno => by rw [if_neg hno.2], fun hrepeat => ?_⟩
      have hends : text <:+ transcriptOf s.conv ++ spoken frames := by
        by_contra hno
        exact hrepeat ⟨hold, hno⟩
      rw [if_pos hends]
      simp only [List.length_append]
      omega
    · refine ⟨fun hno => absurd hno.1 hold, fun _ => ?_⟩
      have hlt := ih.2 hold
      simp only [List.length_append] at hlt ⊢
      split
      · omega
      · rw [List.length_append]
        omega
  | again h htts hseen hrun ih =>
    rw [onPushFrame_seen htts hseen hrun]
    exact ih
  | meanwhile h hothers ih =>
    rw [transcriptOf_same hothers]
    exact ih

/-- All that one response speaks is in its transcript, in order, exactly when no text repeats
the end of what was said before it. -/
theorem transcript_heard_iff (h : Heard frames s t) :
    transcriptOf t.conv = transcriptOf s.conv ++ spoken frames ↔
      NoRepeat (transcriptOf s.conv) frames := by
  obtain ⟨hall, hsome⟩ := transcript_heard h
  refine ⟨fun heq => ?_, hall⟩
  by_contra hrepeat
  have hlt := hsome hrepeat
  rw [heq] at hlt
  exact lt_irrefl _ hlt

/-- A frame of spoken text that nobody else's work falls between. -/
def hearing (s : Shared) (data : FramePushed) : Shared := (alone .go (onPushFrame data) s).2

theorem amid_hearing (s : Shared) (data : FramePushed) :
    Amid SameResponse (onPushFrame data) s () (hearing s data) :=
  amid_alone sameResponse_refl Reply.go (onPushFrame data) s

def one : FramePushed := { id := 1, frame := .ttsText "No, ".toList }

def two : FramePushed := { id := 2, frame := .ttsText "thanks.".toList }

/-- The same words in a frame of their own. -/
def again : FramePushed := { id := 2, frame := .ttsText "No, ".toList }

theorem heard_one : Heard [one] {} (hearing {} one) :=
  (Heard.start {}).frame rfl (by decide) rfl (by decide) (amid_hearing {} one)

theorem transcript_heard_iff_two :
    transcriptOf (hearing (hearing {} one) two).conv =
      transcriptOf {} ++ spoken [one, two] := by
  have hheard : Heard [one, two] {} (hearing (hearing {} one) two) :=
    heard_one.frame rfl (by decide) rfl (by decide +kernel) (amid_hearing _ two)
  have hno : NoRepeat (transcriptOf {}) ([one] ++ [two]) := by
    rw [noRepeat_concat, ← List.nil_append [one], noRepeat_concat]
    refine ⟨⟨fun before data after h => ?_, by decide +kernel⟩, by decide +kernel⟩
    simp at h
  exact (transcript_heard_iff hheard).mpr hno

theorem transcript_again : ¬ ∀ frames s t, Heard frames s t →
    transcriptOf t.conv = transcriptOf s.conv ++ spoken frames := by
  intro h
  have hheard : Heard [one, again] {} (hearing (hearing {} one) again) :=
    heard_one.frame rfl (by decide) rfl (by decide +kernel) (amid_hearing _ again)
  have hall := h _ _ _ hheard
  exact absurd hall (by decide +kernel)

end Run

end VoiceAgent.SpokenTranscripts
