import VoiceAgent.AudioApart
import VoiceAgent.Interference

/-!
The audio of an utterance. Audio outside speech goes through a window that drops its oldest
chunks; the start of an utterance turns the window into its first audio, and its stop takes all
that has come by then. A run is any sequence of handlers, at whose awaits everything else that
the service does may happen.
-/
namespace VoiceAgent.UtteranceAudio

open StreamingEvents Coroutine Interleaving Interference OmniService

section Window
variable {m : ℕ} {all rest : List (List UInt8)} {chunk : List UInt8}

def size (chunks : List (List UInt8)) : ℕ := chunks.flatten.length

/-- The longest end of `all`, in whole chunks, that is no larger than `m` bytes. -/
structure LongestEnd (m : ℕ) (w all : List (List UInt8)) : Prop where
  suffix : w <:+ all
  fits : size w ≤ m
  longest : ∀ w', w' <:+ all → size w' ≤ m → w' <:+ w

open Service

theorem trimmed_cons_of_lt (h : m < size (chunk :: rest)) :
    trimmed m (chunk :: rest) = trimmed m rest := by
  rw [size, List.length_flatten] at h
  exact if_pos h

theorem trimmed_cons_of_le (h : size (chunk :: rest) ≤ m) :
    trimmed m (chunk :: rest) = chunk :: rest := by
  rw [size, List.length_flatten] at h
  exact if_neg (Nat.not_lt.mpr h)

theorem longestEnd_trimmed (m : ℕ) (all : List (List UInt8)) :
    LongestEnd m (trimmed m all) all := by
  induction all with
  | nil => exact ⟨List.suffix_rfl, Nat.zero_le m, fun w' hw' _ => hw'⟩
  | cons chunk rest ih =>
    by_cases hfits : size (chunk :: rest) ≤ m
    · rw [trimmed_cons_of_le hfits]
      exact ⟨List.suffix_rfl, hfits, fun w' hw' _ => hw'⟩
    · rw [trimmed_cons_of_lt (by omega)]
      refine ⟨ih.suffix.trans (List.suffix_cons chunk rest), ih.fits, fun w' hw' hsize => ?_⟩
      rcases List.suffix_cons_iff.mp hw' with rfl | hw'
      · omega
      · exact ih.longest w' hw' hsize

/-- Chunks that the window has dropped are dropped with every chunk that comes later. -/
theorem trimmed_append (m : ℕ) (all : List (List UInt8)) (chunk : List UInt8) :
    trimmed m (trimmed m all ++ [chunk]) = trimmed m (all ++ [chunk]) := by
  induction all with
  | nil => rfl
  | cons first rest ih =>
    by_cases hfits : size (first :: rest) ≤ m
    · rw [trimmed_cons_of_le hfits]
    · have hlong : m < size (first :: (rest ++ [chunk])) := by
        have hmore : size (first :: (rest ++ [chunk])) = size (first :: rest) + chunk.length := by
          simp [size, Nat.add_assoc]
        omega
      rw [trimmed_cons_of_lt (by omega), ih, List.cons_append, trimmed_cons_of_lt hlong]

end Window

section Events

/-- The events that the audio of utterances depends on; the audio is of one format. -/
def Format (rate channels : ℕ) : Frame → Prop
  | .inputAudio _ sampleRate numChannels => sampleRate = rate ∧ numChannels = channels
  | .userStartedSpeaking | .userStoppedSpeaking | .botStartedSpeaking | .botStoppedSpeaking
  | .interruption => True
  | _ => False

/-- What an event does to the audio. -/
def hear (s : Service) : Frame → Service
  | .inputAudio audio sampleRate channels => s.handleAudioFrame audio sampleRate channels
  | .botStartedSpeaking => { s with botResponding := true }
  | .botStoppedSpeaking => { s with botResponding := false }
  | .userStartedSpeaking =>
    if s.audioUserSpeaking ∨ ¬s.settings.audio then s
    else { s with
      botResponding := false
      audioUserSpeaking := true
      audioBuffer := s.preSpeechBuffer
      preSpeechBuffer := [] }
  | .userStoppedSpeaking =>
    if ¬s.audioUserSpeaking then s
    else if s.botResponding then { s with audioUserSpeaking := false }
    else { s with audioUserSpeaking := false, audioBuffer := [], preSpeechBuffer := [] }
  | .interruption =>
    if s.audioUserSpeaking then { s with botResponding := false }
    else { s with botResponding := false, audioBuffer := [], preSpeechBuffer := [] }
  | _ => s

/-- The parts of a turn that answers the utterance which ends with `f`. -/
def Answers (s : Service) (f : Frame) (parts : List Part) : Prop :=
  f = .userStoppedSpeaking ∧ s.audioUserSpeaking = true ∧
    ∃ rate channels text,
      parts = [.inputAudio s.audioBuffer.flatten rate channels, .text text]

/-- The event has had its effect. -/
structure Heard (f : Frame) (s t : Service) : Prop where
  audio : SameAudio (hear s f) t
  turns : Adds (Answers s f) s t

/-- An event has its effect, or its handler fails before it has. -/
def Hears (f : Frame) (s : Service) (r : Except Exception Unit) (t : Service) : Prop :=
  Heard f s t ∨ ∃ e, .error e = r ∧ Apart s t

variable {rate channels : ℕ} {s t u : Service} {f : Frame} {r : Except Exception Unit}

theorem handleAudioFrame_disabled (h : s.settings.audio = false) (audio : List UInt8)
    (rate channels : ℕ) : s.handleAudioFrame audio rate channels =
      { s with sampleRate := rate, channels := channels } := by
  simp [Service.handleAudioFrame, h]

theorem handleAudioFrame_speaking (h : s.settings.audio = true)
    (hspeaking : s.audioUserSpeaking = true) (audio : List UInt8) (rate channels : ℕ) :
    s.handleAudioFrame audio rate channels = { s with
      sampleRate := rate
      channels := channels
      audioBuffer := s.audioBuffer ++ [audio] } := by
  simp [Service.handleAudioFrame, h, hspeaking]

theorem handleAudioFrame_quiet (h : s.settings.audio = true)
    (hspeaking : s.audioUserSpeaking = false) (audio : List UInt8) (rate channels : ℕ) :
    s.handleAudioFrame audio rate channels = { s with
      sampleRate := rate
      channels := channels
      preSpeechBuffer := Service.trimmed
        (s.settings.preSpeechBytes (max (rate * channels * 2) 1))
        (s.preSpeechBuffer ++ [audio]) } := by
  simp [Service.handleAudioFrame, h, hspeaking]

theorem SameAudio.handleAudioFrame (h : SameAudio s u) (audio : List UInt8)
    (rate channels : ℕ) :
    SameAudio (s.handleAudioFrame audio rate channels)
      (u.handleAudioFrame audio rate channels) := by
  obtain ⟨henabled, hwindow, hspeaking, hresponding, hbuffer, hbefore⟩ := h
  cases hs : s.settings.audio with
  | false =>
    rw [handleAudioFrame_disabled hs, handleAudioFrame_disabled (henabled.trans hs)]
    exact ⟨henabled, hwindow, hspeaking, hresponding, hbuffer, hbefore⟩
  | true =>
    cases hspeaks : s.audioUserSpeaking with
    | true =>
      rw [handleAudioFrame_speaking hs hspeaks,
        handleAudioFrame_speaking (henabled.trans hs) (hspeaking.trans hspeaks)]
      exact ⟨henabled, hwindow, hspeaking, hresponding, congrArg (· ++ [audio]) hbuffer, hbefore⟩
    | false =>
      rw [handleAudioFrame_quiet hs hspeaks,
        handleAudioFrame_quiet (henabled.trans hs) (hspeaking.trans hspeaks)]
      exact ⟨henabled, hwindow, hspeaking, hresponding, hbuffer, by simp [hwindow, hbefore]⟩

theorem SameAudio.hear (h : SameAudio s u) (f : Frame) : SameAudio (hear s f) (hear u f) := by
  obtain ⟨henabled, hwindow, hspeaking, hresponding, hbuffer, hbefore⟩ := h
  cases f with
  | inputAudio audio sampleRate numChannels =>
    exact SameAudio.handleAudioFrame
      ⟨henabled, hwindow, hspeaking, hresponding, hbuffer, hbefore⟩ _ _ _
  | userStartedSpeaking =>
    dsimp only [UtteranceAudio.hear]
    rw [henabled, hspeaking]
    split
    · exact ⟨henabled, hwindow, hspeaking, hresponding, hbuffer, hbefore⟩
    · exact ⟨henabled, hwindow, rfl, rfl, hbefore, rfl⟩
  | userStoppedSpeaking =>
    dsimp only [UtteranceAudio.hear]
    rw [hspeaking, hresponding]
    split
    · exact ⟨henabled, hwindow, hspeaking, hresponding, hbuffer, hbefore⟩
    · split
      · exact ⟨henabled, hwindow, rfl, rfl, hbuffer, hbefore⟩
      · exact ⟨henabled, hwindow, rfl, rfl, rfl, rfl⟩
  | interruption =>
    dsimp only [UtteranceAudio.hear]
    rw [hspeaking]
    split
    · exact ⟨henabled, hwindow, rfl, rfl, hbuffer, hbefore⟩
    · exact ⟨henabled, hwindow, rfl, rfl, rfl, rfl⟩
  | botStartedSpeaking => exact ⟨henabled, hwindow, hspeaking, rfl, hbuffer, hbefore⟩
  | botStoppedSpeaking => exact ⟨henabled, hwindow, hspeaking, rfl, hbuffer, hbefore⟩
  | _ => exact ⟨henabled, hwindow, hspeaking, hresponding, hbuffer, hbefore⟩

theorem Hears.before (h : Apart s u) (hu : Hears f u r t) : Hears f s r t := by
  have hanswers : ∀ parts, Answers u f parts → Answers s f parts := by
    intro parts ⟨hf, hspeaking, hparts⟩
    rw [h.audio.speaking] at hspeaking
    rw [h.audio.buffer] at hparts
    exact ⟨hf, hspeaking, hparts⟩
  rcases hu with hu | ⟨e, he, hu⟩
  · exact .inl ⟨(h.audio.hear f).trans hu.audio,
      (h.turns.mono fun _ => False.elim).trans (hu.turns.mono hanswers)⟩
  · exact .inr ⟨e, he, h.trans _ _ _ hu⟩

theorem Heard.after (h : Heard f s u) (ht : Apart u t) : Heard f s t :=
  ⟨h.audio.trans ht.audio, h.turns.trans (ht.turns.mono fun _ => False.elim)⟩

theorem apart_of_always {α : Type} {c : Prog α} {r : Except Exception α} (hc : Always Apart c)
    (h : Finishes Apart c s r t) : Apart s t :=
  h.keeps Apart.refl Apart.trans (fun _ _ => id) (hc.within s)

/-- What comes before the frame is pushed on decides. -/
theorem hears_pushing {c : Prog Unit} (hc : ∀ r v, Finishes Apart c s r v → Hears f s r v)
    (h : Finishes Apart (c >>= fun _ => checkpoint .pushing) s r t) : Hears f s r t := by
  rcases (finishes_bind _ _).mp h with ⟨e, he, hfirst⟩ | ⟨_, u, hu, hrest⟩
  · subst he
    exact hc _ t hfirst
  · have hpush : Apart u t := apart_of_always (always_checkpoint Apart _) hrest
    rcases hc _ u hu with hu | ⟨e, he, -⟩
    · exact .inl (hu.after hpush)
    · cases he

/-- An event that changes the audio at once. -/
theorem hears_modify {g : Service → Service} (haudio : SameAudio (hear s f) (g s))
    (hturns : (g s).turns = s.turns) (h : Finishes Apart (modify g : Prog Unit) s r t) :
    Hears f s r t := by
  obtain ⟨-, rfl⟩ := (finishes_modify g).mp h
  exact .inl ⟨haudio, adds_of_eq hturns⟩

theorem hears_userStarted (h : Finishes Apart handleUserStarted s r t) :
    Hears .userStartedSpeaking s r t := by
  by_cases hignored : s.audioUserSpeaking = true ∨ ¬s.settings.audio = true
  · have hsame : hear s .userStartedSpeaking = s := if_pos hignored
    have hend : Finishes Apart (pure () : Prog Unit) s r t := by
      rwa [handleUserStarted, finishes_get_bind, if_pos hignored] at h
    obtain ⟨-, rfl⟩ := (finishes_pure _).mp hend
    refine .inl ⟨?_, .refl s⟩
    rw [hsame]
    exact .refl s
  · have hopened : ∀ u, SameAudio s u → SameAudio (hear s .userStartedSpeaking)
        { u with
          botResponding := false
          audioUserSpeaking := true
          audioBuffer := u.preSpeechBuffer
          preSpeechBuffer := [] } := by
      intro u hu
      have hsame := hu.hear .userStartedSpeaking
      rw [← hu.speaking, ← hu.enabled] at hignored
      have heq : hear u .userStartedSpeaking = { u with
          botResponding := false
          audioUserSpeaking := true
          audioBuffer := u.preSpeechBuffer
          preSpeechBuffer := [] } := if_neg hignored
      rwa [heq] at hsame
    rw [handleUserStarted, finishes_get_bind, if_neg hignored] at h
    cases hbot : s.botResponding with
    | true =>
      -- the turn of the last utterance is dropped first
      rw [hbot, if_pos rfl] at h
      rcases (finishes_bind _ _).mp h with ⟨e, he, h⟩ | ⟨_, u, hu, h⟩
      · exact .inr ⟨e, he, apart_of_always always_cancelPendingRequest h⟩
      · have hapart : Apart s u := apart_of_always always_cancelPendingRequest hu
        rw [finishes_modify_bind, startUtterance, finishes_modify] at h
        obtain ⟨-, rfl⟩ := h
        exact .inl ⟨hopened u hapart.audio, hapart.turns.mono fun _ => False.elim⟩
    | false =>
      rw [hbot, if_neg (by simp)] at h
      obtain ⟨-, rfl⟩ := (finishes_modify _).mp h
      refine .inl ⟨?_, adds_of_eq rfl⟩
      have hown := hopened s (.refl s)
      rw [← hbot] at hown
      exact hown

theorem hears_interruption (h : Finishes Apart handleInterruption s r t) :
    Hears .interruption s r t := by
  rcases (finishes_bind _ _).mp h with ⟨e, he, h⟩ | ⟨_, u, hu, h⟩
  · exact .inr ⟨e, he, apart_of_always (always_checkpoint Apart _) h⟩
  have hu : Apart s u := apart_of_always (always_checkpoint Apart _) hu
  rcases (finishes_bind _ _).mp h with ⟨e, he, h⟩ | ⟨_, v, hv, h⟩
  · exact .inr ⟨e, he, hu.trans _ _ _ (apart_of_always always_cancelPendingRequest h)⟩
  have hv : Apart s v := hu.trans _ _ _ (apart_of_always always_cancelPendingRequest hv)
  refine Hears.before hv (hears_modify ?_ ?_ h)
  · dsimp only [hear]
    split <;> exact .refl _
  · dsimp only
    split <;> rfl

/-- The answer to an utterance changes no audio, and its turn has the payload. -/
theorem finishes_answer {payload : List UInt8} (h : Finishes Apart (answer payload) s r t) :
    SameAudio s t ∧ Adds (fun parts => ∃ rate channels text,
      parts = [.inputAudio payload rate channels, .text text]) s t := by
  have hcreate : ∀ u, Finishes Apart (runAudioTurn payload) u r t → SameAudio u t ∧
      Adds (fun parts => ∃ rate channels text,
        parts = [.inputAudio payload rate channels, .text text]) u t := by
    intro u hu
    obtain ⟨-, rfl⟩ := (finishes_modify _).mp hu
    refine ⟨⟨rfl, rfl, rfl, rfl, rfl, rfl⟩, [_], rfl, fun turn hturn parts hparts => ?_⟩
    rw [List.mem_singleton.mp hturn] at hparts
    cases hparts
    exact ⟨_, _, _, rfl⟩
  rw [answer, finishes_get_bind] at h
  cases hflight : s.inFlight with
  | none =>
    rw [hflight] at h
    exact hcreate s h
  | some k =>
    rw [hflight] at h
    rcases (finishes_bind _ _).mp h with ⟨e, -, h⟩ | ⟨_, u, hu, h⟩
    · have hapart : Apart s t := apart_of_always always_preempt h
      exact ⟨hapart.audio, hapart.turns.mono fun _ => False.elim⟩
    · have hapart : Apart s u := apart_of_always always_preempt hu
      obtain ⟨haudio, hturns⟩ := hcreate u h
      exact ⟨hapart.audio.trans haudio, (hapart.turns.mono fun _ => False.elim).trans hturns⟩

theorem utterance_eq_some {payload : List UInt8} (h : s.utterance = some payload) :
    payload = s.audioBuffer.flatten := by
  unfold Service.utterance at h
  dsimp only at h
  split at h
  · cases h
  · exact (Option.some.inj h).symm

theorem hears_userStopped (h : Finishes Apart handleUserStopped s r t) :
    Hears .userStoppedSpeaking s r t := by
  rw [handleUserStopped, finishes_get_bind] at h
  cases hspeaking : s.audioUserSpeaking with
  | false =>
    have hsame : hear s .userStoppedSpeaking = s := if_pos (by simp [hspeaking])
    rw [hspeaking, if_pos (by simp)] at h
    obtain ⟨-, rfl⟩ := (finishes_pure _).mp h
    refine .inl ⟨?_, .refl s⟩
    rw [hsame]
    exact .refl s
  | true =>
    rw [hspeaking, if_neg (by simp), finishes_modify_bind, maybeRunAudioTurn,
      finishes_get_bind] at h
    dsimp only at h
    cases hbot : s.botResponding with
    | true =>
      have hheard : hear s .userStoppedSpeaking = { s with audioUserSpeaking := false } := by
        simp [hear, hspeaking, hbot]
      rw [hbot, if_pos rfl] at h
      obtain ⟨-, rfl⟩ := (finishes_pure _).mp h
      refine .inl ⟨?_, adds_of_eq rfl⟩
      rw [hheard, hbot]
      exact .refl _
    | false =>
      have hheard : hear s .userStoppedSpeaking =
          { s with audioUserSpeaking := false, audioBuffer := [], preSpeechBuffer := [] } := by
        simp [hear, hspeaking, hbot]
      rw [hbot, if_neg (by simp), finishes_modify_bind] at h
      dsimp only at h
      split at h
      · obtain ⟨-, rfl⟩ := (finishes_pure _).mp h
        refine .inl ⟨?_, adds_of_eq rfl⟩
        rw [hheard, hbot]
        exact .refl _
      · rename_i payload hpayload
        have htaken : payload = s.audioBuffer.flatten := utterance_eq_some hpayload
        obtain ⟨haudio, hturns⟩ := finishes_answer h
        refine .inl ⟨?_, ?_⟩
        · rw [hheard, hbot]
          exact haudio
        · refine hturns.mono fun parts ⟨rate, channels, text, hparts⟩ => ?_
          rw [htaken] at hparts
          exact ⟨rfl, hspeaking, rate, channels, text, hparts⟩

theorem hears_processFrame (hf : Format rate channels f)
    (h : Finishes Apart (processFrame f) s r t) : Hears f s r t := by
  rcases (finishes_bind _ _).mp h with ⟨e, he, h⟩ | ⟨_, u, hu, h⟩
  · exact .inr ⟨e, he, apart_of_always (always_checkpoint Apart _) h⟩
  refine Hears.before (apart_of_always (always_checkpoint Apart _) hu) ?_
  cases f with
  | inputAudio audio sampleRate numChannels =>
    refine hears_pushing (fun r v hv => hears_modify (.refl _) ?_ hv) h
    unfold Service.handleAudioFrame
    dsimp only
    split
    · rfl
    · split <;> rfl
  | userStartedSpeaking => exact hears_pushing (fun r v hv => hears_userStarted hv) h
  | userStoppedSpeaking => exact hears_pushing (fun r v hv => hears_userStopped hv) h
  | interruption => exact hears_pushing (fun r v hv => hears_interruption hv) h
  | botStartedSpeaking => exact hears_pushing (fun r v hv => hears_modify (.refl _) rfl hv) h
  | botStoppedSpeaking => exact hears_pushing (fun r v hv => hears_modify (.refl _) rfl hv) h
  | _ => exact hf.elim

/-- When its handler returns, an event has had its effect. -/
theorem heard_of_returned (hf : Format rate channels f)
    (h : Finishes Apart (processFrame f) s (.ok ()) t) : Heard f s t := by
  rcases hears_processFrame hf h with h | ⟨e, he, -⟩
  · exact h
  · cases he

end Events

section History

/-- What the events say about whether the user speaks. -/
def speaks (speaking : Bool) : Frame → Bool
  | .userStartedSpeaking => true
  | .userStoppedSpeaking => false
  | _ => speaking

def speaking (events : List Frame) : Bool := events.foldl speaks false

/-- The audio among the events, in order. -/
def audioOf (events : List Frame) : List (List UInt8) :=
  events.filterMap fun
    | .inputAudio audio _ _ => some audio
    | _ => none

/-- Nothing has come yet, or an utterance has just ended, or an interruption outside speech
has just come. -/
def Boundary (past : List Frame) : Prop :=
  past = [] ∨
    (∃ before, past = before ++ [.userStoppedSpeaking] ∧ speaking before = true) ∨
    ∃ before, past = before ++ [.interruption] ∧ speaking before = false

/-- `idle` are the events since the last stop of an utterance or interruption outside speech,
and no utterance has started since. -/
def Since (events idle : List Frame) : Prop :=
  ∃ past, events = past ++ idle ∧ Boundary past ∧
    ∀ f ∈ idle, f ≠ .userStartedSpeaking ∧ f ≠ .interruption

/-- An utterance goes on: `idle` came before its start, and `speech` since. -/
def Utterance (events idle speech : List Frame) : Prop :=
  ∃ before, events = before ++ .userStartedSpeaking :: speech ∧ Since before idle ∧
    .userStoppedSpeaking ∉ speech

variable {rate channels : ℕ} {settings : Settings} {events idle speech : List Frame}
  {s t : Service} {f : Frame}

theorem speaking_append (events : List Frame) (f : Frame) :
    speaking (events ++ [f]) = speaks (speaking events) f := by
  simp [speaking]

theorem audioOf_append (events : List Frame) (f : Frame) :
    audioOf (events ++ [f]) = audioOf events ++ audioOf [f] := by
  simp [audioOf]

theorem Since.append (h : Since events idle) (hstart : f ≠ .userStartedSpeaking)
    (hcut : f ≠ .interruption) : Since (events ++ [f]) (idle ++ [f]) := by
  obtain ⟨past, rfl, hpast, hidle⟩ := h
  refine ⟨past, by simp, hpast, fun g hg => ?_⟩
  rcases List.mem_append.mp hg with hg | hg
  · exact hidle g hg
  · rw [List.mem_singleton.mp hg]
    exact ⟨hstart, hcut⟩

theorem since_of_boundary (h : Boundary events) : Since events [] :=
  ⟨events, by simp, h, by simp⟩

theorem Since.start (h : Since events idle) :
    Utterance (events ++ [.userStartedSpeaking]) idle [] :=
  ⟨events, rfl, h, by simp⟩

theorem Utterance.append (h : Utterance events idle speech) (hstop : f ≠ .userStoppedSpeaking) :
    Utterance (events ++ [f]) idle (speech ++ [f]) := by
  obtain ⟨before, rfl, hbefore, hspeech⟩ := h
  refine ⟨before, by simp, hbefore, fun hmem => ?_⟩
  rcases List.mem_append.mp hmem with hmem | hmem
  · exact hspeech hmem
  · exact hstop (List.mem_singleton.mp hmem).symm

end History

section Runs

/-- A service and the events it has heard. Between two events everything else may happen. An
event whose handler fails counts if it has changed the audio by then. -/
inductive Run (rate channels : ℕ) (settings : Settings) : List Frame → Service → Prop
  | fresh : Run rate channels settings [] { settings := settings }
  | apart {events : List Frame} {s t : Service} (h : Run rate channels settings events s)
      (hst : Apart s t) : Run rate channels settings events t
  | handled {events : List Frame} {s t : Service} {f : Frame}
      (h : Run rate channels settings events s) (hf : Format rate channels f)
      (hend : Finishes Apart (processFrame f) s (.ok ()) t) :
      Run rate channels settings (events ++ [f]) t
  | failed {events : List Frame} {s t : Service} {f : Frame} {e : Exception}
      (h : Run rate channels settings events s) (hf : Format rate channels f)
      (hend : Finishes Apart (processFrame f) s (.error e) t) (hsame : SameAudio s t) :
      Run rate channels settings events t
  | broken {events : List Frame} {s t : Service} {f : Frame} {e : Exception}
      (h : Run rate channels settings events s) (hf : Format rate channels f)
      (hend : Finishes Apart (processFrame f) s (.error e) t) (hmoved : ¬SameAudio s t) :
      Run rate channels settings (events ++ [f]) t

/-- The bytes that the window may have. -/
def windowBytes (settings : Settings) (rate channels : ℕ) : ℕ :=
  settings.preSpeechBytes (max (rate * channels * 2) 1)

/-- The settings that the audio depends on are not changed. -/
structure Fixed (settings : Settings) (s : Service) : Prop where
  enabled : s.settings.audio = settings.audio
  window : s.settings.preSpeechBytes = settings.preSpeechBytes

/-- What the service keeps of the audio it has heard: with audio disabled nothing, outside speech
the window, and in speech the window before its start and all that has come since. -/
inductive Kept (rate channels : ℕ) (settings : Settings) (events : List Frame) (s : Service) :
    Prop
  | disabled (haudio : settings.audio = false) (hs : s.audioUserSpeaking = false)
  | quiet (haudio : settings.audio = true) (hs : s.audioUserSpeaking = false)
      (hevents : speaking events = false) (idle : List Frame) (hidle : Since events idle)
      (hbefore : s.preSpeechBuffer =
        Service.trimmed (windowBytes settings rate channels) (audioOf idle))
  | spoken (haudio : settings.audio = true) (hs : s.audioUserSpeaking = true)
      (hevents : speaking events = true) (idle speech : List Frame)
      (hspeech : Utterance events idle speech) (hbefore : s.preSpeechBuffer = [])
      (hbuffer : s.audioBuffer =
        Service.trimmed (windowBytes settings rate channels) (audioOf idle) ++ audioOf speech)

variable {rate channels : ℕ} {settings : Settings} {events idle speech : List Frame}
  {s t : Service} {f : Frame}

theorem Fixed.same (h : Fixed settings s) (hst : SameAudio s t) : Fixed settings t :=
  ⟨hst.enabled.trans h.enabled, hst.window.trans h.window⟩

theorem Kept.same (h : Kept rate channels settings events s) (hst : SameAudio s t) :
    Kept rate channels settings events t := by
  cases h with
  | disabled haudio hs => exact .disabled haudio (hst.speaking.trans hs)
  | quiet haudio hs hevents idle hidle hbefore =>
    exact .quiet haudio (hst.speaking.trans hs) hevents idle hidle (hst.before.trans hbefore)
  | spoken haudio hs hevents idle speech hspeech hbefore hbuffer =>
    exact .spoken haudio (hst.speaking.trans hs) hevents idle speech hspeech
      (hst.before.trans hbefore) (hst.buffer.trans hbuffer)

theorem set_hear (h : Fixed settings s) (f : Frame) : Fixed settings (hear s f) := by
  have hsettings : (hear s f).settings = s.settings := by
    unfold hear Service.handleAudioFrame
    dsimp only
    repeat' split
    all_goals rfl
  exact ⟨hsettings ▸ h.enabled, hsettings ▸ h.window⟩

/-- An event that the audio does not depend on now. -/
theorem Kept.pass (h : Kept rate channels settings events s) (haudio : audioOf [f] = [])
    (hspeaks : ∀ b, speaks b f = b) (hcut : speaking events = false → f ≠ .interruption)
    (hspeaking : t.audioUserSpeaking = s.audioUserSpeaking)
    (hbuffer : t.audioBuffer = s.audioBuffer) (hbefore : t.preSpeechBuffer = s.preSpeechBuffer) :
    Kept rate channels settings (events ++ [f]) t := by
  have hstart : f ≠ .userStartedSpeaking := fun hf => by simpa [hf, speaks] using hspeaks false
  have hstop : f ≠ .userStoppedSpeaking := fun hf => by simpa [hf, speaks] using hspeaks true
  have hsame : ∀ events, audioOf (events ++ [f]) = audioOf events := fun events => by
    rw [audioOf_append, haudio, List.append_nil]
  cases h with
  | disabled hoff hs => exact .disabled hoff (hspeaking.trans hs)
  | quiet hon hs hevents idle hidle hkept =>
    refine .quiet hon (hspeaking.trans hs) ?_ _ (hidle.append hstart (hcut hevents)) ?_
    · rw [speaking_append, hspeaks, hevents]
    · rw [hbefore, hkept, hsame]
  | spoken hon hs hevents idle speech hspeech hkept hheard =>
    refine .spoken hon (hspeaking.trans hs) ?_ idle _ (hspeech.append hstop)
      (hbefore.trans hkept) ?_
    · rw [speaking_append, hspeaks, hevents]
    · rw [hbuffer, hheard, hsame]

theorem kept_inputAudio (h : Kept rate channels settings events s) (hset : Fixed settings s)
    (audio : List UInt8) :
    Kept rate channels settings (events ++ [.inputAudio audio rate channels])
      (s.handleAudioFrame audio rate channels) := by
  have hone : audioOf [.inputAudio audio rate channels] = [audio] := rfl
  cases h with
  | disabled hoff hs =>
    rw [handleAudioFrame_disabled (hset.enabled.trans hoff)]
    exact .disabled hoff hs
  | quiet hon hs hevents idle hidle hkept =>
    rw [handleAudioFrame_quiet (hset.enabled.trans hon) hs]
    refine .quiet hon hs ?_ _ (hidle.append (by simp) (by simp)) ?_
    · rw [speaking_append, hevents]
      rfl
    · dsimp only
      rw [hset.window, hkept, audioOf_append, hone]
      exact trimmed_append _ _ _
  | spoken hon hs hevents idle speech hspeech hkept hheard =>
    rw [handleAudioFrame_speaking (hset.enabled.trans hon) hs]
    refine .spoken hon hs ?_ idle _ (hspeech.append (by simp)) hkept ?_
    · rw [speaking_append, hevents]
      rfl
    · dsimp only
      rw [hheard, audioOf_append, hone, List.append_assoc]

theorem kept_userStarted (h : Kept rate channels settings events s) (hset : Fixed settings s) :
    Kept rate channels settings (events ++ [.userStartedSpeaking])
      (hear s .userStartedSpeaking) := by
  cases h with
  | disabled hoff hs =>
    have hsame : hear s .userStartedSpeaking = s :=
      if_pos (.inr (by rw [hset.enabled, hoff]; simp))
    rw [hsame]
    exact .disabled hoff hs
  | quiet hon hs hevents idle hidle hkept =>
    have hopened : hear s .userStartedSpeaking = { s with
        botResponding := false
        audioUserSpeaking := true
        audioBuffer := s.preSpeechBuffer
        preSpeechBuffer := [] } := if_neg (by simp [hs, hset.enabled, hon])
    rw [hopened]
    refine .spoken hon rfl ?_ idle [] hidle.start rfl ?_
    · rw [speaking_append]
      rfl
    · exact hkept.trans (List.append_nil _).symm
  | spoken hon hs hevents idle speech hspeech hkept hheard =>
    have hsame : hear s .userStartedSpeaking = s := if_pos (.inl hs)
    rw [hsame]
    refine .spoken hon hs ?_ idle _ (hspeech.append (by simp)) hkept ?_
    · rw [speaking_append]
      rfl
    · rw [hheard, audioOf_append]
      exact congrArg _ (List.append_nil _).symm

/-- The window starts anew. -/
theorem kept_boundary (haudio : settings.audio = true) (hs : s.audioUserSpeaking = false)
    (hbefore : s.preSpeechBuffer = []) (hevents : speaking events = false)
    (h : Boundary events) : Kept rate channels settings events s :=
  .quiet haudio hs hevents [] (since_of_boundary h) hbefore

theorem kept_userStopped (h : Kept rate channels settings events s) :
    Kept rate channels settings (events ++ [.userStoppedSpeaking])
      (hear s .userStoppedSpeaking) := by
  have hended : speaking (events ++ [.userStoppedSpeaking]) = false := speaking_append _ _
  cases h with
  | disabled hoff hs =>
    have hsame : hear s .userStoppedSpeaking = s := if_pos (by simp [hs])
    rw [hsame]
    exact .disabled hoff hs
  | quiet hon hs hevents idle hidle hkept =>
    have hsame : hear s .userStoppedSpeaking = s := if_pos (by simp [hs])
    rw [hsame]
    refine .quiet hon hs hended _ (hidle.append (by simp) (by simp)) ?_
    rw [hkept, audioOf_append]
    exact congrArg _ (List.append_nil _).symm
  | spoken hon hs hevents idle speech hspeech hkept hheard =>
    have hpast : Boundary (events ++ [.userStoppedSpeaking]) := .inr (.inl ⟨events, rfl, hevents⟩)
    have hquiet : (hear s .userStoppedSpeaking).audioUserSpeaking = false ∧
        (hear s .userStoppedSpeaking).preSpeechBuffer = [] := by
      cases hbot : s.botResponding <;> simp [hear, hs, hbot, hkept]
    exact kept_boundary hon hquiet.1 hquiet.2 hended hpast

theorem kept_interruption (h : Kept rate channels settings events s) :
    Kept rate channels settings (events ++ [.interruption]) (hear s .interruption) := by
  cases hs : s.audioUserSpeaking with
  | true =>
    have hheard : hear s .interruption = { s with botResponding := false } := if_pos hs
    rw [hheard]
    refine h.pass rfl (fun b => rfl) (fun hevents => ?_) rfl rfl rfl
    cases h with
    | disabled hoff hs' => simp [hs] at hs'
    | quiet hon hs' => simp [hs] at hs'
    | spoken hon hs' hevents' => simp [hevents] at hevents'
  | false =>
    have hheard : hear s .interruption =
        { s with botResponding := false, audioBuffer := [], preSpeechBuffer := [] } :=
      if_neg (by simp [hs])
    rw [hheard]
    cases h with
    | disabled hoff hs' => exact .disabled hoff hs'
    | quiet hon hs' hevents =>
      refine kept_boundary hon hs' rfl ?_ (.inr (.inr ⟨events, rfl, hevents⟩))
      rw [speaking_append]
      exact hevents
    | spoken hon hs' => simp [hs] at hs'

theorem kept_hear (h : Kept rate channels settings events s) (hset : Fixed settings s)
    (hf : Format rate channels f) : Kept rate channels settings (events ++ [f]) (hear s f) := by
  cases f with
  | inputAudio audio sampleRate numChannels =>
    obtain ⟨rfl, rfl⟩ := hf
    exact kept_inputAudio h hset audio
  | userStartedSpeaking => exact kept_userStarted h hset
  | userStoppedSpeaking => exact kept_userStopped h
  | interruption => exact kept_interruption h
  | botStartedSpeaking => exact h.pass rfl (fun b => rfl) (by simp) rfl rfl rfl
  | botStoppedSpeaking => exact h.pass rfl (fun b => rfl) (by simp) rfl rfl rfl
  | _ => exact hf.elim

/-- Over a whole run the service keeps what the events say. -/
theorem Run.kept (h : Run rate channels settings events s) :
    Fixed settings s ∧ Kept rate channels settings events s := by
  induction h with
  | fresh =>
    refine ⟨⟨rfl, rfl⟩, ?_⟩
    cases haudio : settings.audio with
    | false => exact .disabled haudio rfl
    | true => exact kept_boundary haudio rfl rfl rfl (.inl rfl)
  | apart h hst ih => exact ⟨ih.1.same hst.audio, ih.2.same hst.audio⟩
  | handled h hf hend ih =>
    have hheard := heard_of_returned hf hend
    exact ⟨(set_hear ih.1 _).same hheard.audio, (kept_hear ih.2 ih.1 hf).same hheard.audio⟩
  | failed h hf hend hsame ih => exact ⟨ih.1.same hsame, ih.2.same hsame⟩
  | broken h hf hend hmoved ih =>
    rcases hears_processFrame hf hend with hheard | ⟨e, -, hapart⟩
    · exact ⟨(set_hear ih.1 _).same hheard.audio, (kept_hear ih.2 ih.1 hf).same hheard.audio⟩
    · exact absurd hapart.audio hmoved

/-- While the user speaks the buffer is the longest end of the audio before the start of the
utterance that fits the window, and then all audio since. A turn that answers an utterance is
created at its stop, and this is what its payload is. -/
theorem utterance_audio (h : Run rate channels settings events s) :
    (s.audioUserSpeaking = true → ∃ idle speech w, Utterance events idle speech ∧
      LongestEnd (windowBytes settings rate channels) w (audioOf idle) ∧
      s.audioBuffer = w ++ audioOf speech) ∧
    ∀ f r t, Format rate channels f → Finishes Apart (processFrame f) s r t →
      ∃ new, t.turns = s.turns ++ new ∧
        ∀ turn ∈ new, ∀ parts, turn.spoken = some parts → f = .userStoppedSpeaking ∧
          ∃ idle speech w sampleRate numChannels text, Utterance events idle speech ∧
            LongestEnd (windowBytes settings rate channels) w (audioOf idle) ∧
            parts = [.inputAudio (w ++ audioOf speech).flatten sampleRate numChannels,
              .text text] := by
  have hbuffer : s.audioUserSpeaking = true → ∃ idle speech w, Utterance events idle speech ∧
      LongestEnd (windowBytes settings rate channels) w (audioOf idle) ∧
      s.audioBuffer = w ++ audioOf speech := by
    intro hspeaking
    cases h.kept.2 with
    | disabled hoff hs => simp [hspeaking] at hs
    | quiet hon hs => simp [hspeaking] at hs
    | spoken hon hs hevents idle speech hspeech hkept hheard =>
      exact ⟨idle, speech, _, hspeech, longestEnd_trimmed _ _, hheard⟩
  refine ⟨hbuffer, fun f r t hf hend => ?_⟩
  have hturns : Adds (Answers s f) s t := by
    rcases hears_processFrame hf hend with hheard | ⟨e, -, hapart⟩
    · exact hheard.turns
    · exact hapart.turns.mono fun _ => False.elim
  obtain ⟨new, hnew, hparts⟩ := hturns
  refine ⟨new, hnew, fun turn hturn parts hspoken => ?_⟩
  obtain ⟨hstop, hspeaking, sampleRate, numChannels, text, rfl⟩ := hparts turn hturn parts hspoken
  obtain ⟨idle, speech, w, hspeech, hw, haudio⟩ := hbuffer hspeaking
  rw [haudio]
  exact ⟨hstop, idle, speech, w, sampleRate, numChannels, text, hspeech, hw, rfl⟩

/-- An event that nobody disturbs. -/
def undisturbed (s : Service) (f : Frame) : Service := (steady Reply.go (processFrame f) s).2

theorem Run.undisturbed (h : Run rate channels settings events s) (hf : Format rate channels f)
    (hok : (steady Reply.go (processFrame f) s).1 = .ok ()) :
    Run rate channels settings (events ++ [f]) (undisturbed s f) :=
  .handled h hf (hok ▸ finishes_steady Apart.refl Reply.go _ _)

/-- A window of three bytes. -/
def briefWindow : Settings := { minBytes := fun _ => 1, preSpeechBytes := fun _ => 3 }

/-- Two chunks, the start of an utterance and a third chunk. -/
def shortUtterance : List Frame :=
  [.inputAudio [1, 2] 8000 1, .inputAudio [3, 4] 8000 1, .userStartedSpeaking,
    .inputAudio [5] 8000 1]

def midUtterance : Service := shortUtterance.foldl undisturbed { settings := briefWindow }

theorem run_shortUtterance : Run 8000 1 briefWindow shortUtterance midUtterance :=
  (((Run.fresh.undisturbed (f := .inputAudio [1, 2] 8000 1) ⟨rfl, rfl⟩ rfl).undisturbed
    (f := .inputAudio [3, 4] 8000 1) ⟨rfl, rfl⟩ rfl).undisturbed
    (f := .userStartedSpeaking) trivial rfl).undisturbed
    (f := .inputAudio [5] 8000 1) ⟨rfl, rfl⟩ rfl

theorem utterance_audio_short :
    (undisturbed midUtterance .userStoppedSpeaking).turns.map (·.spoken) =
      [some [.inputAudio [3, 4, 5] 8000 1, .text briefWindow.instruction]] ∧
    (∃ idle speech w, Utterance shortUtterance idle speech ∧
      LongestEnd (windowBytes briefWindow 8000 1) w (audioOf idle) ∧
      midUtterance.audioBuffer = w ++ audioOf speech) ∧
    ∃ new,
      (undisturbed midUtterance .userStoppedSpeaking).turns = midUtterance.turns ++ new ∧
      ∀ turn ∈ new, ∀ parts, turn.spoken = some parts →
        Frame.userStoppedSpeaking = .userStoppedSpeaking ∧
        ∃ idle speech w sampleRate numChannels text, Utterance shortUtterance idle speech ∧
          LongestEnd (windowBytes briefWindow 8000 1) w (audioOf idle) ∧
          parts = [.inputAudio (w ++ audioOf speech).flatten sampleRate numChannels,
            .text text] :=
  ⟨rfl, (utterance_audio run_shortUtterance).1 rfl,
    (utterance_audio run_shortUtterance).2 .userStoppedSpeaking _ _ trivial
      (finishes_steady Apart.refl Reply.go _ _)⟩

end Runs

end VoiceAgent.UtteranceAudio
