import VoiceAgent.UserTranscripts
import VoiceAgent.RealtimeSerializer

/-!
The clock of the input audio. Where a turn starts and where it stops is told in milliseconds of
the audio received. The start of a turn is kept while the turn is open, and taken anew after its
stop; so what is told never goes back, whatever order starts, stops and transcripts come in.
-/
namespace VoiceAgent.InputClock

open RealtimeEvents Conversation ConversationState Coroutine RealtimeLifecycle RealtimeObserver
open RealtimeSerializer UserTranscripts

section Runs

/-- What arrives at a session: audio of a client, or a frame of the user branch. -/
inductive Input
  | append (bytes : ℕ)
  | frame (f : UserFrame)

/-- The session after one input; audio comes in at the rate of the pipeline. -/
def receive (rate : ℕ) (s : Shared) : Input → Shared
  | .append bytes => (alone .go (deserialize { event := .audioAppend bytes rate }) s).2
  | .frame f => observe s f

def run (rate : ℕ) (inputs : List Input) : Shared := inputs.foldl (receive rate) {}

/-- The bytes of audio received. -/
def received : List Input → ℕ
  | [] => 0
  | .append bytes :: rest => bytes + received rest
  | .frame _ :: rest => received rest

/-- The samples of 16 bits received; an odd byte at the end of an append is no sample. -/
def samples : List Input → ℕ
  | [] => 0
  | .append bytes :: rest => bytes / 2 + samples rest
  | .frame _ :: rest => samples rest

/-- Samples as milliseconds, rounded down. -/
def toMs (rate n : ℕ) : ℕ := n * 1000 / max rate 1

theorem samples_append (inputs more : List Input) :
    samples (inputs ++ more) = samples inputs + samples more := by
  induction inputs with
  | nil => simp [samples]
  | cons input rest ih =>
    cases input with
    | append bytes => simp only [List.cons_append, samples, ih]; omega
    | frame f => simp only [List.cons_append, samples, ih]

theorem received_append (inputs more : List Input) :
    received (inputs ++ more) = received inputs + received more := by
  induction inputs with
  | nil => simp [received]
  | cons input rest ih =>
    cases input with
    | append bytes => simp only [List.cons_append, received, ih]; omega
    | frame f => simp only [List.cons_append, received, ih]

theorem samples_le (inputs : List Input) : 2 * samples inputs ≤ received inputs := by
  induction inputs with
  | nil => exact Nat.le_refl 0
  | cons input rest ih =>
    cases input with
    | append bytes => simp only [samples, received]; omega
    | frame f => exact ih

theorem samples_mono {before inputs : List Input} (h : before <+: inputs) :
    samples before ≤ samples inputs := by
  obtain ⟨more, rfl⟩ := h
  rw [samples_append]
  exact Nat.le_add_right _ _

theorem toMs_mono (rate : ℕ) {n m : ℕ} (h : n ≤ m) : toMs rate n ≤ toMs rate m :=
  Nat.div_le_div_right (Nat.mul_le_mul_right 1000 h)

/-- An append advances the clock and tells nothing. -/
theorem receive_append (rate bytes : ℕ) (s : Shared) :
    (receive rate s (.append bytes)).log = s.log ∧
      (receive rate s (.append bytes)).conv = s.conv.addInputAudio bytes rate := by
  by_cases hb : bytes = 0
  · subst hb
    exact ⟨rfl, rfl⟩
  · simp [receive, deserialize, hb, onConversation]

end Runs

section Marks

/-- What is told of the clock: where the turn of an item starts, and where it stops. -/
inductive Mark
  | start (item : ItemId) (ms : ℕ)
  | stop (item : ItemId) (ms : ℕ)
  deriving DecidableEq

def Mark.ms : Mark → ℕ
  | .start _ ms | .stop _ ms => ms

def marks (es : List ServerEvent) : List Mark :=
  es.filterMap fun
    | .speechStarted item ms => some (.start item ms)
    | .speechStopped item ms => some (.stop item ms)
    | _ => none

@[simp] theorem marks_append (es es' : List ServerEvent) :
    marks (es ++ es') = marks es ++ marks es' := List.filterMap_append

/-- The later mark is no earlier, and starts no turn that has been stopped. -/
def Before (m m' : Mark) : Prop :=
  m.ms ≤ m'.ms ∧ ∀ item a b, ¬(m = .stop item a ∧ m' = .start item b)

/-- Of two marks of one item in such a list the start is no later. -/
theorem start_le_stop {l : List Mark} (h : l.Pairwise Before) {item : ItemId} {a b : ℕ}
    (ha : .start item a ∈ l) (hb : .stop item b ∈ l) : a ≤ b := by
  induction h with
  | nil => cases ha
  | @cons m rest hm _ ih =>
    rcases List.mem_cons.mp ha with rfl | ha'
    · rcases List.mem_cons.mp hb with heq | hb'
      · cases heq
      · exact (hm _ hb').1
    · rcases List.mem_cons.mp hb with rfl | hb'
      · exact absurd ⟨rfl, rfl⟩ ((hm _ ha').2 item b a)
      · exact ih ha' hb'

end Marks

section Invariant

/-- What the conversation knows of the clock after some inputs, with the marks told so far. -/
structure Clock (rate : ℕ) (heard : List Input) (c : ConversationState) (l : List Mark) :
    Prop where
  counted : c.inputAudioSamples = samples heard
  paced : c.inputSampleRate = max rate 1 ∨ c.inputAudioSamples = 0
  points : ∀ m ∈ l, ∃ before, before <+: heard ∧ m.ms = toMs rate (samples before)
  start : ∀ n, c.userTurnStartSample = some n →
    (∃ before, before <+: heard ∧ n = samples before) ∧
      (c.userTurnStopped = false → ∀ m ∈ l, m.ms ≤ toMs rate n)
  drawn : ∀ item, c.userItemId = some item → ∃ k < c.userItems, item = .user k
  current : ∀ item, c.userItemId = some item → c.userTurnStopped = false → ∀ t, .stop item t ∉ l
  later : ∀ k, c.userItems ≤ k → ∀ t, .stop (.user k) t ∉ l
  order : l.Pairwise Before

variable {rate : ℕ} {heard : List Input} {c c' : ConversationState} {l : List Mark}

theorem clock_fresh : Clock rate [] {} [] where
  counted := rfl
  paced := .inr rfl
  points := by simp
  start := by simp
  drawn := by simp
  current := by simp
  later := by simp
  order := .nil

namespace Clock

/-- A number of samples that has been received is told in milliseconds of the rate. -/
theorem inputMs_eq (h : Clock rate heard c l) {n : ℕ} (hn : n ≤ c.inputAudioSamples) :
    c.inputMs n = toMs rate n := by
  unfold inputMs toMs
  rcases h.paced with hrate | hzero
  · rw [hrate, Nat.max_eq_left (Nat.le_max_right rate 1)]
  · obtain rfl : n = 0 := by omega
    simp

/-- No mark is later than now. -/
theorem told_le (h : Clock rate heard c l) : ∀ m ∈ l, m.ms ≤ toMs rate c.inputAudioSamples := by
  intro m hm
  obtain ⟨before, hbefore, hms⟩ := h.points m hm
  rw [hms, h.counted]
  exact toMs_mono rate (samples_mono hbefore)

/-- The announcement and the transcript of an item have nothing to do with the clock. -/
theorem congr (h : Clock rate heard c l) (hsamples : c'.inputAudioSamples = c.inputAudioSamples)
    (hrate : c'.inputSampleRate = c.inputSampleRate)
    (hstart : c'.userTurnStartSample = c.userTurnStartSample)
    (hstop : c'.userTurnStopped = c.userTurnStopped) (hitem : c'.userItemId = c.userItemId)
    (hitems : c'.userItems = c.userItems) : Clock rate heard c' l where
  counted := hsamples.trans h.counted
  paced := by rw [hrate, hsamples]; exact h.paced
  points := h.points
  start n hn := by rw [hstop]; exact h.start n (hstart ▸ hn)
  drawn item hid := by rw [hitems]; exact h.drawn item (hitem ▸ hid)
  current item hid hopen := h.current item (hitem ▸ hid) (hstop ▸ hopen)
  later k hk := h.later k (hitems ▸ hk)
  order := h.order

theorem heardFrame (h : Clock rate heard c l) (f : UserFrame) :
    Clock rate (heard ++ [.frame f]) c l where
  counted := by rw [h.counted, samples_append]; rfl
  paced := h.paced
  points m hm := by
    obtain ⟨before, hbefore, hms⟩ := h.points m hm
    exact ⟨before, hbefore.trans (List.prefix_append _ _), hms⟩
  start n hn := by
    obtain ⟨⟨before, hbefore, hsample⟩, htold⟩ := h.start n hn
    exact ⟨⟨before, hbefore.trans (List.prefix_append _ _), hsample⟩, htold⟩
  drawn := h.drawn
  current := h.current
  later := h.later
  order := h.order

theorem heardAudio (h : Clock rate heard c l) (bytes : ℕ) :
    Clock rate (heard ++ [.append bytes]) (c.addInputAudio bytes rate) l := by
  have hkeeps : ∀ d : ConversationState, d.inputAudioSamples = c.inputAudioSamples + bytes / 2 →
      (d.inputSampleRate = max rate 1 ∨ d.inputAudioSamples = 0) →
      d.userTurnStartSample = c.userTurnStartSample → d.userTurnStopped = c.userTurnStopped →
      d.userItemId = c.userItemId → d.userItems = c.userItems →
      Clock rate (heard ++ [.append bytes]) d l := by
    intro d hsamples hrate hstart hstop hitem hitems
    refine {
      counted := ?_
      paced := hrate
      points := fun m hm => ?_
      start := fun n hn => ?_
      drawn := fun item hid => by rw [hitems]; exact h.drawn item (hitem ▸ hid)
      current := fun item hid hopen => h.current item (hitem ▸ hid) (hstop ▸ hopen)
      later := fun k hk => h.later k (hitems ▸ hk)
      order := h.order }
    · rw [hsamples, h.counted, samples_append]
      rfl
    · obtain ⟨before, hbefore, hms⟩ := h.points m hm
      exact ⟨before, hbefore.trans (List.prefix_append _ _), hms⟩
    · rw [hstart] at hn
      obtain ⟨⟨before, hbefore, hsample⟩, htold⟩ := h.start n hn
      rw [hstop]
      exact ⟨⟨before, hbefore.trans (List.prefix_append _ _), hsample⟩, htold⟩
  unfold addInputAudio
  split
  · rename_i hzero
    exact hkeeps c (by simp [hzero]) h.paced rfl rfl rfl rfl
  · exact hkeeps _ rfl (.inl rfl) rfl rfl rfl rfl

theorem beginItem (h : Clock rate heard c l) : Clock rate heard c.beginUserItem.2 l := by
  cases hid : c.userItemId with
  | some item => simpa [beginUserItem, hid] using h
  | none =>
    simp only [beginUserItem, hid, newItemId]
    exact {
      counted := h.counted
      paced := h.paced
      points := h.points
      start := h.start
      drawn := fun item hitem => ⟨c.userItems, by simp, (Option.some.inj hitem).symm⟩
      current := fun item hitem _ => by
        obtain rfl : ItemId.user c.userItems = item := Option.some.inj hitem
        exact h.later _ (Nat.le_refl _)
      later := fun k hk => h.later k (Nat.le_of_succ_le hk)
      order := h.order }

theorem clear (h : Clock rate heard c l) : Clock rate heard c.clearUserItem l where
  counted := h.counted
  paced := h.paced
  points := h.points
  start := by simp [clearUserItem]
  drawn := by simp [clearUserItem]
  current := by simp [clearUserItem]
  later := h.later
  order := h.order

/-- The turn is stopped; its item is not to be started again. -/
theorem stopFlag (h : Clock rate heard c l) (last : Option ℕ) :
    Clock rate heard { c with userTurnEndSample := last, userTurnStopped := true } l where
  counted := h.counted
  paced := h.paced
  points := h.points
  start n hn := ⟨(h.start n hn).1, by simp⟩
  drawn := h.drawn
  current := by simp
  later := h.later
  order := h.order

/-- A turn is opened now. -/
theorem openTurn (h : Clock rate heard c l) (hopen : c.userTurnStopped = false) :
    Clock rate heard { c with
      userTurnStartSample := some c.inputAudioSamples
      userTurnEndSample := none
      userTurnStopped := false
      userItemAnnounced := false
      pendingUserTranscript := none } l where
  counted := h.counted
  paced := h.paced
  points := h.points
  start n hn := by
    obtain rfl : c.inputAudioSamples = n := Option.some.inj hn
    exact ⟨⟨heard, List.prefix_rfl, h.counted⟩, fun _ => h.told_le⟩
  drawn := h.drawn
  current item hid _ := h.current item hid hopen
  later := h.later
  order := h.order

/-- The start of an open turn may be told, also once more. -/
theorem tellStart (h : Clock rate heard c l) {item : ItemId} {n : ℕ}
    (hitem : c.userItemId = some item) (hopen : c.userTurnStopped = false)
    (hn : c.userTurnStartSample = some n) :
    Clock rate heard c (l ++ [.start item (toMs rate n)]) := by
  obtain ⟨⟨before, hbefore, hsample⟩, htold⟩ := h.start n hn
  refine {
    counted := h.counted
    paced := h.paced
    points := fun m hm => ?_
    start := fun n' hn' => ?_
    drawn := h.drawn
    current := fun item' hid hst t => ?_
    later := fun k hk t => ?_
    order := ?_ }
  · rcases List.mem_append.mp hm with hold | hnew
    · exact h.points m hold
    · rw [List.mem_singleton.mp hnew]
      exact ⟨before, hbefore, hsample ▸ rfl⟩
  · obtain rfl : n = n' := Option.some.inj (hn.symm.trans hn')
    refine ⟨⟨before, hbefore, hsample⟩, fun _ m hm => ?_⟩
    rcases List.mem_append.mp hm with hold | hnew
    · exact htold hopen m hold
    · rw [List.mem_singleton.mp hnew]
      exact Nat.le_refl _
  · simpa using h.current item' hid hst t
  · simpa using h.later k hk t
  · refine List.pairwise_append.mpr ⟨h.order, List.pairwise_singleton _ _, fun m hm m' hm' => ?_⟩
    obtain rfl := List.mem_singleton.mp hm'
    refine ⟨htold hopen m hm, ?_⟩
    rintro item' a b ⟨rfl, hstart⟩
    obtain ⟨rfl, -⟩ := Mark.start.inj hstart
    exact h.current _ hitem hopen a hm

/-- The stop of a turn is told as of now. -/
theorem tellStop (h : Clock rate heard c l) {item : ItemId} (hitem : c.userItemId = some item)
    (hstop : c.userTurnStopped = true) :
    Clock rate heard c (l ++ [.stop item (toMs rate c.inputAudioSamples)]) := by
  refine {
    counted := h.counted
    paced := h.paced
    points := fun m hm => ?_
    start := fun n hn => ⟨(h.start n hn).1, by simp [hstop]⟩
    drawn := h.drawn
    current := by simp [hstop]
    later := fun k hk t hm => ?_
    order := ?_ }
  · rcases List.mem_append.mp hm with hold | hnew
    · exact h.points m hold
    · rw [List.mem_singleton.mp hnew]
      exact ⟨heard, List.prefix_rfl, h.counted ▸ rfl⟩
  · obtain ⟨j, hj, rfl⟩ := h.drawn item hitem
    rcases List.mem_append.mp hm with hold | hnew
    · exact h.later k hk t hold
    · simp only [List.mem_singleton, Mark.stop.injEq, ItemId.user.injEq] at hnew
      omega
  · refine List.pairwise_append.mpr ⟨h.order, List.pairwise_singleton _ _, fun m hm m' hm' => ?_⟩
    obtain rfl := List.mem_singleton.mp hm'
    refine ⟨h.told_le m hm, ?_⟩
    rintro item' a b ⟨-, hstart⟩
    cases hstart

theorem userItemId_begin (c : ConversationState) :
    c.beginUserItem.2.userItemId = some c.beginUserItem.1 := by
  cases hid : c.userItemId <;> simp [beginUserItem, hid, newItemId]

/-- A start keeps the start of an open turn, and takes one where there is none. -/
theorem beginOpenTurn (h : Clock rate heard c l) (hopen : c.userTurnStopped = false) :
    Clock rate heard c.beginUserTurn.2
      (l ++ [.start c.beginUserTurn.1.1 c.beginUserTurn.1.2]) := by
  have hitem := userItemId_begin c
  have hbegun := h.beginItem
  have hstill : c.beginUserItem.2.userTurnStopped = false :=
    (beginUserItem_rest c).1.trans hopen
  cases hstart : c.beginUserItem.2.userTurnStartSample with
  | some n =>
    have hle : n ≤ c.beginUserItem.2.inputAudioSamples := by
      obtain ⟨⟨before, hbefore, hsample⟩, -⟩ := hbegun.start n hstart
      rw [hsample, hbegun.counted]
      exact samples_mono hbefore
    have hturn : c.beginUserTurn =
        ((c.beginUserItem.1, c.beginUserItem.2.inputMs n), c.beginUserItem.2) := by
      simp [beginUserTurn, hopen, hstart]
    rw [hturn, hbegun.inputMs_eq hle]
    exact hbegun.tellStart hitem hstill hstart
  | none =>
    have hms := hbegun.inputMs_eq (Nat.le_refl _)
    have htold := (hbegun.openTurn hstill).tellStart hitem rfl rfl
    rw [← hms] at htold
    simpa [beginUserTurn, hopen, hstart] using htold

theorem beginTurn (h : Clock rate heard c l) : Clock rate heard c.beginUserTurn.2
    (l ++ [.start c.beginUserTurn.1.1 c.beginUserTurn.1.2]) := by
  cases hstop : c.userTurnStopped with
  | false => exact h.beginOpenTurn hstop
  | true =>
    have hagain : c.beginUserTurn = c.clearUserItem.beginUserTurn := by
      simp [beginUserTurn, hstop, clearUserItem]
    rw [hagain]
    exact h.clear.beginOpenTurn rfl

theorem stopTurn (h : Clock rate heard c l) : Clock rate heard c.stopUserTurn.2
    (l ++ [.stop c.stopUserTurn.1.1 c.stopUserTurn.1.2]) := by
  have hstopped := h.beginItem.stopFlag (some c.beginUserItem.2.inputAudioSamples)
  have htold := hstopped.tellStop (userItemId_begin c) rfl
  have hms := h.beginItem.inputMs_eq (Nat.le_refl _)
  rw [← hms] at htold
  exact htold

end Clock

end Invariant

section Steps

variable {rate : ℕ} {heard : List Input} {s : Shared}

/-- The clock of a session. -/
def Ticks (rate : ℕ) (heard : List Input) (s : Shared) : Prop :=
  Clock rate heard s.conv (marks (wire s.log))

theorem Ticks.started (h : Ticks rate heard s) : Ticks rate heard (observe s .started) := by
  rw [observe_started, Ticks, wire_emits, marks_append]
  exact h.beginTurn

theorem Ticks.interim (h : Ticks rate heard s) (text : Text) :
    Ticks rate heard (observe s (.interim text)) := by
  rcases observe_interim_cases s text with heq | ⟨-, heq⟩
  · rw [heq]
    exact h
  · have hmarks : marks (wire s.log ++
        [.inputTranscriptDelta s.conv.beginUserItem.1 text]) = marks (wire s.log) := by
      simp [marks]
    rw [heq, Ticks, wire_emits, hmarks]
    exact h.beginItem

theorem marks_stopTold (s : Shared) : marks (wire (stopTold s).log) =
    marks (wire s.log) ++ [.stop s.conv.stopUserTurn.1.1 s.conv.stopUserTurn.1.2] := by
  simp [stopTold, marks]

theorem marks_created (s : Shared) (item : ItemId) :
    marks (wire (created s item).log) = marks (wire s.log) := by
  simp [created, marks]

theorem marks_completed (s : Shared) (item : ItemId) (text : Text) :
    marks (wire (completed s item text).log) = marks (wire s.log) := by
  change marks (wire (s.emits _ _).log) = _
  simp [marks]

theorem Ticks.stopTold (h : Ticks rate heard s) : Ticks rate heard (stopTold s) := by
  rw [Ticks, marks_stopTold]
  exact h.stopTurn

theorem Ticks.created (h : Ticks rate heard s) (item : ItemId) :
    Ticks rate heard (created s item) := by
  rw [Ticks, marks_created]
  exact h.congr rfl rfl rfl rfl rfl rfl

theorem Ticks.completed (h : Ticks rate heard s) (item : ItemId) (text : Text) :
    Ticks rate heard (completed s item text) := by
  rw [Ticks, marks_completed]
  exact h.clear

theorem Ticks.stopped (hrest : Rest s) (h : Ticks rate heard s) :
    Ticks rate heard (observe s .stopped) := by
  rcases observe_stopped_cases hrest with ⟨-, heq⟩ | ⟨-, -, heq⟩ | ⟨text, -, -, heq⟩
  · rw [heq]
    exact h.stopTold
  · rw [heq]
    exact h.stopTold.created _
  · rw [heq]
    exact (h.stopTold.created _).completed _ text

theorem Ticks.final (hrest : Rest s) (h : Ticks rate heard s) (text : Text) :
    Ticks rate heard (observe s (.final text)) := by
  rcases observe_final_cases hrest text with ⟨-, heq⟩ | ⟨item, -, -, -, heq⟩
  · rw [heq]
    exact h.beginItem.congr rfl rfl rfl rfl rfl rfl
  · rw [heq]
    have hparked : Ticks rate heard
        { s with conv := { s.conv with pendingUserTranscript := some text } } :=
      h.congr rfl rfl rfl rfl rfl rfl
    exact hparked.completed item text

theorem Ticks.observe (hrest : Rest s) (h : Ticks rate heard s) (f : UserFrame) :
    Ticks rate heard (observe s f) := by
  cases f with
  | started => exact h.started
  | stopped => exact h.stopped hrest
  | interim text => exact h.interim text
  | final text => exact h.final hrest text

/-- What has been told stays told. -/
theorem marks_observe (hrest : Rest s) (f : UserFrame) :
    marks (wire s.log) <+: marks (wire (UserTranscripts.observe s f).log) := by
  cases f with
  | started =>
    rw [observe_started, wire_emits, marks_append]
    exact List.prefix_append _ _
  | stopped =>
    have htold : marks (wire s.log) <+: marks (wire (UserTranscripts.stopTold s).log) := by
      rw [marks_stopTold]
      exact List.prefix_append _ _
    rcases observe_stopped_cases hrest with ⟨-, heq⟩ | ⟨-, -, heq⟩ | ⟨text, -, -, heq⟩
    · rwa [heq]
    · rwa [heq, marks_created]
    · rwa [heq, marks_completed, marks_created]
  | interim text =>
    rcases observe_interim_cases s text with heq | ⟨-, heq⟩
    · rw [heq]
    · rw [heq, wire_emits, marks_append]
      exact List.prefix_append _ _
  | final text =>
    rcases observe_final_cases hrest text with ⟨-, heq⟩ | ⟨item, -, -, -, heq⟩
    · rw [heq]
    · rw [heq, marks_completed]

theorem marks_receive (hrest : Rest s) (input : Input) :
    marks (wire s.log) <+: marks (wire (receive rate s input).log) := by
  cases input with
  | append bytes => rw [(receive_append rate bytes s).1]
  | frame f => exact marks_observe hrest f

/-- Audio changes nothing of the user's turns. -/
theorem rest_append (hrest : Rest s) (bytes : ℕ) : Rest (receive rate s (.append bytes)) := by
  obtain ⟨hlog, hconv⟩ := receive_append rate bytes s
  have hsame : ∀ c : ConversationState, (c.addInputAudio bytes rate).userTurnStopped =
      c.userTurnStopped ∧ (c.addInputAudio bytes rate).pendingUserTranscript =
      c.pendingUserTranscript ∧ (c.addInputAudio bytes rate).userItemAnnounced =
      c.userItemAnnounced ∧ (c.addInputAudio bytes rate).userItemId = c.userItemId ∧
      (c.addInputAudio bytes rate).userItems = c.userItems := by
    intro c
    unfold addInputAudio
    split <;> exact ⟨rfl, rfl, rfl, rfl, rfl⟩
  obtain ⟨hstop, hpend, hann, hid, hitems⟩ := hsame s.conv
  rw [← hconv] at hstop hpend hann hid hitems
  refine {
    empty := fun h => ?_
    flag := by rw [hann, hstop]; exact hrest.flag
    told := fun h => ?_
    fresh := ?_
    order := by rw [hlog]; exact hrest.order }
  · rw [hpend]
    exact hrest.empty (hstop ▸ h)
  · rw [hid, hlog]
    exact hrest.told (hstop ▸ h)
  · rw [hlog]
    exact hrest.fresh.mono hid hitems fun _ _ hmem => hmem

theorem receive_step (hrest : Rest s) (h : Ticks rate heard s) (input : Input) :
    Rest (receive rate s input) ∧ Ticks rate (heard ++ [input]) (receive rate s input) := by
  cases input with
  | frame f => exact ⟨hrest.observe f, (h.observe hrest f).heardFrame f⟩
  | append bytes =>
    obtain ⟨hlog, hconv⟩ := receive_append rate bytes s
    refine ⟨rest_append hrest bytes, ?_⟩
    rw [Ticks, hlog, hconv]
    exact h.heardAudio bytes

theorem run_concat (rate : ℕ) (inputs : List Input) (input : Input) :
    run rate (inputs ++ [input]) = receive rate (run rate inputs) input := by
  rw [run, List.foldl_append]
  rfl

theorem run_ticks (rate : ℕ) (inputs : List Input) :
    Rest (run rate inputs) ∧ Ticks rate inputs (run rate inputs) := by
  induction inputs using List.reverseRecOn with
  | nil => exact ⟨rest_fresh, clock_fresh⟩
  | append_singleton inputs input ih =>
    rw [run_concat]
    exact receive_step ih.1 ih.2 input

/-- The starts and stops told in a run. -/
def told (rate : ℕ) (inputs : List Input) : List Mark := marks (wire (run rate inputs).log)

/-- What has been told is within the audio received. -/
theorem told_within (rate : ℕ) (inputs : List Input) :
    ∀ m ∈ told rate inputs, m.ms * (2 * max rate 1) ≤ 1000 * received inputs := by
  intro m hm
  obtain ⟨-, hclock⟩ := run_ticks rate inputs
  have hsamples := samples_le inputs
  calc
    m.ms * (2 * max rate 1) ≤ toMs rate (samples inputs) * (2 * max rate 1) :=
      Nat.mul_le_mul_right _ (hclock.counted ▸ hclock.told_le m hm)
    _ = 2 * (samples inputs * 1000 / max rate 1 * max rate 1) := by
      rw [toMs, Nat.mul_left_comm]
    _ ≤ 2 * (samples inputs * 1000) :=
      Nat.mul_le_mul_left 2 (Nat.div_mul_le_self (samples inputs * 1000) (max rate 1))
    _ ≤ 1000 * received inputs := by omega

theorem told_mono {rate : ℕ} {before inputs : List Input} (h : before <+: inputs) :
    told rate before <+: told rate inputs := by
  obtain ⟨more, rfl⟩ := h
  induction more using List.reverseRecOn with
  | nil => rw [List.append_nil]
  | append_singleton more input ih =>
    refine ih.trans ?_
    rw [← List.append_assoc, told, told, run_concat]
    exact marks_receive (run_ticks rate (before ++ more)).1 input

/-- One input tells more marks, within the audio received before it. -/
theorem told_step (rate : ℕ) (inputs : List Input) (input : Input) :
    ∃ new, told rate (inputs ++ [input]) = told rate inputs ++ new ∧
      ∀ m ∈ new, m.ms * (2 * max rate 1) ≤ 1000 * received inputs := by
  have hwithin := told_within rate (inputs ++ [input])
  have hstep := run_concat rate inputs input
  cases input with
  | append bytes =>
    refine ⟨[], ?_, by simp⟩
    rw [told, hstep, (receive_append rate bytes _).1, List.append_nil]
    rfl
  | frame f =>
    have hgrows : told rate inputs <+: told rate (inputs ++ [.frame f]) := by
      rw [told, told, hstep]
      exact marks_receive (run_ticks rate inputs).1 (.frame f)
    obtain ⟨new, hnew⟩ := hgrows
    have htold : told rate (inputs ++ [.frame f]) = told rate inputs ++ new := hnew.symm
    refine ⟨new, htold, fun m hm => ?_⟩
    have hreceived : received (inputs ++ [.frame f]) = received inputs := by
      simp [received_append, received]
    rw [htold, hreceived] at hwithin
    exact hwithin m (List.mem_append_right _ hm)

end Steps

end VoiceAgent.InputClock
