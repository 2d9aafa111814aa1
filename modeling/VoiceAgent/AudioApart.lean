import VoiceAgent.OmniService

/-!
What the Omni service does apart from the audio of utterances: its turns, its out-of-band calls
and its handler of data frames leave that audio alone and answer no utterance.
-/
namespace VoiceAgent.UtteranceAudio

open StreamingEvents Coroutine Interleaving OmniService

section Apart

variable {s t u : Service} {P Q : List Part → Prop}

/-- What decides about the audio of utterances is the same. -/
structure SameAudio (s t : Service) : Prop where
  enabled : t.settings.audio = s.settings.audio
  window : t.settings.preSpeechBytes = s.settings.preSpeechBytes
  speaking : t.audioUserSpeaking = s.audioUserSpeaking
  responding : t.botResponding = s.botResponding
  buffer : t.audioBuffer = s.audioBuffer
  before : t.preSpeechBuffer = s.preSpeechBuffer

theorem SameAudio.refl (s : Service) : SameAudio s s := ⟨rfl, rfl, rfl, rfl, rfl, rfl⟩

theorem SameAudio.trans (h : SameAudio s t) (h' : SameAudio t u) : SameAudio s u where
  enabled := h'.enabled.trans h.enabled
  window := h'.window.trans h.window
  speaking := h'.speaking.trans h.speaking
  responding := h'.responding.trans h.responding
  buffer := h'.buffer.trans h.buffer
  before := h'.before.trans h.before

/-- Turns are only added, and `P` holds of the spoken parts of those that are. -/
def Adds (P : List Part → Prop) (s t : Service) : Prop :=
  ∃ new, t.turns = s.turns ++ new ∧
    ∀ turn ∈ new, ∀ parts, turn.spoken = some parts → P parts

theorem Adds.refl (s : Service) : Adds P s s := ⟨[], by simp, by simp⟩

theorem adds_of_eq (h : t.turns = s.turns) : Adds P s t := ⟨[], by simp [h], by simp⟩

theorem Adds.trans (h : Adds P s t) (h' : Adds P t u) : Adds P s u := by
  obtain ⟨new, hnew, hP⟩ := h
  obtain ⟨new', hnew', hP'⟩ := h'
  refine ⟨new ++ new', by rw [hnew', hnew, List.append_assoc], fun turn hturn => ?_⟩
  rcases List.mem_append.mp hturn with hturn | hturn
  · exact hP turn hturn
  · exact hP' turn hturn

theorem Adds.mono (h : Adds P s t) (hPQ : ∀ parts, P parts → Q parts) : Adds Q s t := by
  obtain ⟨new, hnew, hP⟩ := h
  exact ⟨new, hnew, fun turn hturn parts hparts => hPQ parts (hP turn hturn parts hparts)⟩

/-- A change that leaves the audio alone and answers no utterance. -/
structure Apart (s t : Service) : Prop where
  audio : SameAudio s t
  turns : Adds (fun _ => False) s t

theorem Apart.refl (s : Service) : Apart s s := ⟨.refl s, .refl s⟩

theorem Apart.trans (s t u : Service) (h : Apart s t) (h' : Apart t u) : Apart s u :=
  ⟨h.audio.trans h'.audio, h.turns.trans h'.turns⟩

/-- A change of none of these fields. -/
theorem apart_of_eq (hsettings : t.settings = s.settings)
    (hspeaking : t.audioUserSpeaking = s.audioUserSpeaking)
    (hresponding : t.botResponding = s.botResponding) (hbuffer : t.audioBuffer = s.audioBuffer)
    (hbefore : t.preSpeechBuffer = s.preSpeechBuffer) (hturns : t.turns = s.turns) : Apart s t :=
  ⟨⟨by rw [hsettings], by rw [hsettings], hspeaking, hresponding, hbuffer, hbefore⟩,
    adds_of_eq hturns⟩

end Apart

section Others
variable {k : ℕ}

theorem apart_cancel (s : Service) (k : ℕ) : Apart s (s.cancel k) := by
  unfold Service.cancel
  split <;> exact apart_of_eq rfl rfl rfl rfl rfl rfl

theorem always_awaitTurn (l : Site) (k : ℕ) : Always Apart (awaitTurn l k) := by
  refine .bind (.pause l) fun reply => .bind .get fun s => ?_
  split
  · exact .pure _
  · exact .raise _
  · exact .pure _

theorem always_cancelPendingRequest : Always Apart cancelPendingRequest := by
  have hunwind : Always Apart unwindPending := by
    refine .bind .get fun s => ?_
    cases s.inFlight with
    | none => exact .pure _
    | some k => exact .bind (.modify fun s => apart_cancel s k) fun _ => always_awaitTurn _ k
  exact .bind hunwind fun _ => .modify fun _ => apart_of_eq rfl rfl rfl rfl rfl rfl

theorem always_preempt : Always Apart preempt :=
  .bind (always_checkpoint Apart _) fun _ => always_cancelPendingRequest

/-- A text turn has no spoken parts. -/
theorem always_runTextTurn (context : ℕ) (trigger : Option Trigger) :
    Always Apart (runTextTurn context trigger) := by
  refine .modify fun s => ⟨⟨rfl, rfl, rfl, rfl, rfl, rfl⟩, [_], rfl, fun turn hturn parts h => ?_⟩
  rw [List.mem_singleton.mp hturn] at h
  cases h

theorem always_maybeRunTextTurn (context : Option ℕ) (force : Bool) :
    Always Apart (maybeRunTextTurn context force) := by
  cases context with
  | none => exact .pure _
  | some context =>
    refine .bind .get fun s => .ite (.pure _) ?_
    refine .bind .get fun s => ?_
    cases s.inFlight with
    | none => exact always_runTextTurn _ _
    | some k =>
      refine .ite (.bind (always_awaitTurn _ _) fun _ => always_runTextTurn _ _) ?_
      exact .ite (.pure _) (.bind always_preempt fun _ => always_runTextTurn _ _)

/-- The handlers of data frames. -/
theorem always_processFrame {f : Frame} (hf : f.system = false) :
    Always Apart (processFrame f) := by
  refine .bind (always_checkpoint Apart _) fun _ => ?_
  have hstop : Always Apart stop :=
    .bind always_cancelPendingRequest fun _ => always_checkpoint Apart _
  cases f with
  | llmContext context =>
    refine .bind (.modify fun _ => ?_) fun _ => always_maybeRunTextTurn _ _
    exact apart_of_eq rfl rfl rfl rfl rfl rfl
  | llmRun => exact .bind .get fun s => always_maybeRunTextTurn _ _
  | endFrame => exact .bind hstop fun _ => always_checkpoint Apart _
  | other system => exact always_checkpoint Apart _
  | _ => cases hf

theorem always_turnPause (k : ℕ) (l : Site) : Always Apart (turnPause k l) := by
  refine .bind (.pause l) fun reply => .bind .get fun s => .ite ?_ ?_
  · exact .bind (.modify fun _ => apart_of_eq rfl rfl rfl rfl rfl rfl) fun _ => .raise _
  · split
    · exact .raise _
    · exact .pure _

theorem always_endTurn (k : ℕ) (o : Outcome) : Always Apart (endTurn k o) :=
  .bind (.modify fun _ => apart_of_eq rfl rfl rfl rfl rfl rfl) fun _ => .pure _

theorem always_closeTurn (k : ℕ) (o : Outcome) : Always Apart (closeTurn k o) := by
  refine .bind (.modify fun _ => apart_of_eq rfl rfl rfl rfl rfl rfl) fun _ => .handle ?_
    fun e => always_endTurn k _
  refine .bind (always_turnPause k _) fun _ => ?_
  refine .bind (.modify fun _ => apart_of_eq rfl rfl rfl rfl rfl rfl) fun _ => ?_
  exact .bind (always_turnPause k _) fun _ => always_endTurn k o

theorem always_openTurn (k : ℕ) (turn : Turn) : Always Apart (openTurn k turn) := by
  refine .bind (.modify fun _ => apart_of_eq rfl rfl rfl rfl rfl rfl) fun _ => .handle ?_
    fun e => always_endTurn k _
  refine .bind (.modify fun _ => apart_of_eq rfl rfl rfl rfl rfl rfl) fun _ => ?_
  exact .bind (always_turnPause k _) fun _ => .bind (always_turnPause k _) fun _ => .pure _

theorem apart_emitTranscript (s : Service) (transcript : Text) :
    Apart s (s.emitTranscript transcript) := by
  unfold Service.emitTranscript
  split <;> exact apart_of_eq rfl rfl rfl rfl rfl rfl

theorem always_processContext (k : ℕ) (turn : Turn) (reply : Reply) :
    Always Apart (processContext k turn reply) := by
  cases reply with
  | build => exact .bind (.modify fun _ => apart_of_eq rfl rfl rfl rfl rfl rfl) fun _ => .pure _
  | heard transcript => exact .bind (.modify fun s => apart_emitTranscript s _) fun _ => .pure _
  | failed =>
    exact .handle (.bind (always_turnPause k _) fun _ => always_closeTurn k _)
      fun e => always_closeTurn k _
  | finish => exact always_closeTurn k _
  | _ => exact .pure _

theorem always_runTurn (k : ℕ) (loop : Loop) (reply : Reply) :
    Always Apart (runTurn k loop reply) := by
  refine .bind .get fun s => ?_
  split
  · exact .ite (always_endTurn k _) (always_openTurn k _)
  · refine .ite ?_ (always_processContext k _ reply)
    exact .bind (.modify fun _ => apart_of_eq rfl rfl rfl rfl rfl rfl) fun _ => always_closeTurn k _
  · exact .pure _

theorem always_callTurn (n : ℕ) (loop : Loop) (reply : Reply) :
    Always Apart (callTurn n loop reply) := by
  have hhide : Always Apart (hideTurn n) :=
    .modifyGet fun _ => apart_of_eq rfl rfl rfl rfl rfl rfl
  have hrestore : ∀ active, Always Apart (restoreTurn n active) :=
    fun active => .modify fun _ => apart_of_eq rfl rfl rfl rfl rfl rfl
  have hbuild : ∀ context, Always Apart (buildOutOfBand n context) :=
    fun context => .modify fun _ => apart_of_eq rfl rfl rfl rfl rfl rfl
  have hend : Always Apart (endCall n) :=
    .bind (.modify fun _ => apart_of_eq rfl rfl rfl rfl rfl rfl) fun _ => .pure _
  unfold callTurn
  split
  · refine .bind (.handle ?_ fun _ => .pure _) fun _ => hend
    refine .bind hhide fun active => .ensure ?_ (hrestore active)
    exact .bind (hbuild _) fun _ => always_checkpoint Apart _
  · refine .bind (.bind hhide fun active => ?_) fun _ => hend
    exact .ensure (hbuild _) (hrestore active)
  · exact .pure _

end Others

end VoiceAgent.UtteranceAudio
