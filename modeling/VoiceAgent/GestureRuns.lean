import VoiceAgent.GestureController
import VoiceAgent.EnvelopeSpeech
import VoiceAgent.SettingsRespected

/-!
Runs of the gesture controller over observations handled one after another: which frames confirm
a thumb, how far apart actions are, when a gesture may act again, and when a thumbs-up resumes.
-/
namespace VoiceAgent.GestureRuns

open StreamingEvents JsonValues ServiceSettings ActionEnvelope GestureController
open EnvelopeSpeech (asciiText)
open SettingsRespected (sampleFloats)

section Runs
variable (F : Floats) (T : TextOps)

/-- One observation of a run, with the controller that it finds. -/
structure Event where
  before : Controller
  seen : Observation
  acted : Option Acted

def Event.does (e : Event) (action : Action) : Prop := e.acted.map Acted.action = some action

/-- The event is an action on the gesture. -/
def Event.actsOn (e : Event) (intent : Intent) : Prop := ∃ action, e.does action ∧
  action.intent = intent

def event (s : Controller) (o : Observation) : Event := ⟨s, o, (s.handle F T o).2⟩

def events (s : Controller) : List Observation → List Event
  | [] => []
  | o :: obs => event F T s o :: events (s.handle F T o).1 obs

def after (s : Controller) : List Observation → Controller
  | [] => s
  | o :: obs => after (s.handle F T o).1 obs

variable {F T} {s : Controller} {obs : List Observation} {o : Observation}

theorem events_append (obs' : List Observation) :
    events F T s (obs ++ obs') = events F T s obs ++ events F T (after F T s obs) obs' := by
  induction obs generalizing s with
  | nil => rfl
  | cons o obs ih => rw [List.cons_append, events, events, after, ih, List.cons_append]

theorem after_concat :
    after F T s (obs ++ [o]) = ((after F T s obs).handle F T o).1 := by
  induction obs generalizing s with
  | nil => rfl
  | cons o obs ih => rw [List.cons_append, after, after, ih]

theorem events_concat :
    events F T s (obs ++ [o]) = events F T s obs ++ [event F T (after F T s obs) o] :=
  events_append [o]

/-- The events after some point are a run of their own. -/
theorem events_eq_append {pre rest : List Event} (h : events F T s obs = pre ++ rest) :
    ∃ obs₁ obs₂, obs = obs₁ ++ obs₂ ∧ pre = events F T s obs₁ ∧
      rest = events F T (after F T s obs₁) obs₂ := by
  induction pre generalizing s obs with
  | nil => exact ⟨[], obs, rfl, rfl, h.symm⟩
  | cons e pre ih =>
    cases obs with
    | nil => cases h
    | cons o obs =>
      rw [events, List.cons_append, List.cons.injEq] at h
      obtain ⟨obs₁, obs₂, rfl, rfl, rfl⟩ := ih h.2
      exact ⟨o :: obs₁, obs₂, rfl, by rw [events, h.1], rfl⟩

theorem mem_seen {e : Event} (h : e ∈ events F T s obs) : e.seen ∈ obs := by
  induction obs generalizing s with
  | nil => cases h
  | cons o obs ih =>
    rcases List.mem_cons.mp h with rfl | hmem
    · exact List.mem_cons_self
    · exact List.mem_cons_of_mem o (ih hmem)

/-- What an action of a step says of the controller before it and after it. -/
theorem event_does {action : Action} (h : (event F T s o).does action) :
    ∃ control, Ready F T s o control ∧ action.intent = control.intent ∧
      gestureConfirmations control.intent ≤ (s.countCandidate control.intent).candidateCount ∧
      (action = .resumeOrCompliment true → s.resumes o.now = true) ∧
      (s.handle F T o).1 = { (s.noted action o.now).forgetCandidate with
        lastIntent := control.intent } := by
  obtain ⟨acted, hacted, rfl⟩ := Option.map_eq_some_iff.mp h
  have hhandled := handled F T s o
  have hsome : (s.handle F T o).2 = some acted := hacted
  rw [hsome] at hhandled
  generalize hafter : (s.handle F T o).1 = after at hhandled
  cases hhandled with
  | acted control hready _ hcounted hanswers hresumes =>
    refine ⟨control, hready, hanswers, hcounted, hresumes, ?_⟩
    simp [Controller.noted, Controller.forgetCandidate]

end Runs

section Confirmation
variable (F : Floats) (T : TextOps)

/-- The observation shows the gesture with at least the confidence that it asks for. -/
def shows (intent : Intent) (o : Observation) : Bool :=
  match normalizeVisualControl F T o.visualControl with
  | .error _ => false
  | .ok control => control.intent = intent && !unsure F control

/-- A thumb is acted on where it is shown now and was shown right before. -/
def ConfirmedFrom (last : Option Observation) : List Event → Prop
  | [] => True
  | e :: es =>
    (∀ intent, intent = .goOn ∨ intent = .down → e.actsOn intent →
      (∃ o ∈ last, shows F T intent o = true) ∧ shows F T intent e.seen = true) ∧
    ConfirmedFrom (some e.seen) es

def Confirmed (es : List Event) : Prop := ConfirmedFrom F T none es

/-- A frame that does not show the gesture which awaits its confirmation is dropped, and the
count stands. -/
structure Overlooked (s : Controller) (o : Observation) : Prop where
  awaits : 0 < s.candidateCount
  dropped : drops F T s o = true
  other : shows F T s.candidateIntent o = false

instance (s : Controller) (o : Observation) : Decidable (Overlooked F T s o) :=
  decidable_of_iff (0 < s.candidateCount ∧ drops F T s o = true ∧
    shows F T s.candidateIntent o = false) ⟨fun h => ⟨h.1, h.2.1, h.2.2⟩, fun h => ⟨h.1, h.2, h.3⟩⟩

/-- A gesture that awaits its confirmation was shown by the last frame. -/
def Awaited (s : Controller) (last : Option Observation) : Prop :=
  0 < s.candidateCount → ∃ o ∈ last, shows F T s.candidateIntent o = true

variable {F T} {s : Controller} {last : Option Observation} {o : Observation}

theorem shows_of_ready {control : VisualControl} (h : Ready F T s o control) :
    shows F T control.intent o = true := by
  simp [shows, h.read, h.sure]

/-- Step lemma. -/
theorem awaited_handle (ho : ¬Overlooked F T s o) :
    Awaited F T (s.handle F T o).1 (some o) := by
  have hhandled := handled F T s o
  generalize (s.handle F T o).1 = after at hhandled ⊢
  generalize (s.handle F T o).2 = acted at hhandled
  cases hhandled with
  | dropped hdropped =>
    intro hawaits
    refine ⟨o, rfl, ?_⟩
    by_contra hother
    exact ho ⟨hawaits, hdropped, by simpa using hother⟩
  | awaiting control hready =>
    intro _
    rw [countCandidate_candidateIntent]
    exact ⟨o, rfl, shows_of_ready hready⟩
  | nothing | unsure | gated | acted => exact fun hawaits => absurd hawaits (Nat.lt_irrefl 0)

theorem Awaited.confirms (h : Awaited F T s last) {intent : Intent}
    (hthumb : intent = .goOn ∨ intent = .down) (hacts : (event F T s o).actsOn intent) :
    (∃ o ∈ last, shows F T intent o = true) ∧ shows F T intent o = true := by
  obtain ⟨action, hdoes, rfl⟩ := hacts
  obtain ⟨control, hready, hanswers, hcounted, -, -⟩ := event_does hdoes
  rw [hanswers] at hthumb ⊢
  have htwo : 2 ≤ (s.countCandidate control.intent).candidateCount := by
    rcases hthumb with heq | heq <;> rw [heq] at hcounted ⊢ <;> exact hcounted
  obtain ⟨hawaits, hcandidate⟩ := candidate_of_two_le htwo
  exact ⟨hcandidate ▸ h hawaits, shows_of_ready hready⟩

/-- Run lemma. -/
theorem Awaited.confirmed (h : Awaited F T s last) (obs : List Observation)
    (hobs : ∀ e ∈ events F T s obs, ¬Overlooked F T e.before e.seen) :
    ConfirmedFrom F T last (events F T s obs) := by
  induction obs generalizing s last with
  | nil => trivial
  | cons o obs ih =>
    have ho : ¬Overlooked F T s o := hobs _ List.mem_cons_self
    exact ⟨fun intent hthumb hacts => h.confirms hthumb hacts,
      ih (awaited_handle ho) fun e he => hobs e (List.mem_cons_of_mem _ he)⟩

/-- Where no frame is overlooked, a thumb acts on two frames in a row. -/
theorem thumbs_confirmed (F : Floats) (T : TextOps) (obs : List Observation)
    (h : ∀ e ∈ events F T {} obs, ¬Overlooked F T e.before e.seen) :
    Confirmed F T (events F T {} obs) :=
  Awaited.confirmed (fun hawaits => absurd hawaits (Nat.lt_irrefl 0)) obs h

/-- Numbers between zero and one that are read as they are written. -/
def fractions : List (String × ℚ) :=
  [("0.75", 3 / 4), ("0.85", 17 / 20), ("0.9", 9 / 10), ("0.95", 19 / 20)]

def fractionFloats : Floats :=
  { sampleFloats with worth := fun text => .finite ((fractions.lookup text).getD 0) }

def plainText : TextOps := asciiText [] .nil

/-- A gesture that the webcam is sure of. -/
def sureOf (intent : String) (now : ℚ) (speaking : Bool) : Observation where
  visualControl := .obj (.cons "intent" (.str intent) (.cons "confidence" (.float "0.95") .nil))
  now := now
  assistantSpeaking := speaking

/-- A stop sign that is held between the two frames of a thumbs-up does not reset the count. -/
theorem thumb_confirmed_across_stop :
    let obs := [sureOf "stop" 0 true, sureOf "continue" 6 false, sureOf "stop" 7 false,
      sureOf "continue" 8 false]
    ¬Confirmed fractionFloats plainText (events fractionFloats plainText {} obs) := by
  rintro obs ⟨-, -, -, hlast, -⟩
  have hdoes : (events fractionFloats plainText {} [sureOf "stop" 0 true,
      sureOf "continue" 6 false, sureOf "stop" 7 false, sureOf "continue" 8 false]).getLast?.map
        (fun e => e.acted.map Acted.action) = some (some (.resumeOrCompliment true)) := by
    decide +kernel
  obtain ⟨o, ho, hshows⟩ :=
    (hlast .goOn (.inl rfl) ⟨.resumeOrCompliment true, Option.some.inj hdoes, rfl⟩).1
  cases ho
  revert hshows
  decide +kernel

theorem thumbs_confirmed_closed :
    Confirmed fractionFloats plainText (events fractionFloats plainText {}
      [sureOf "continue" 0 false, sureOf "continue" 1 false]) :=
  thumbs_confirmed fractionFloats plainText _ (by decide +kernel)

end Confirmation

section Gating
variable (F : Floats) (T : TextOps)

/-- An observation without a gesture, whatever else it holds. -/
def showsNone (o : Observation) : Bool :=
  match normalizeVisualControl F T o.visualControl with
  | .error _ => false
  | .ok control => control.intent = .none

/-- Two actions are the cooldown apart, the second no stop. -/
def CooledDown (es : List Event) : Prop :=
  es.Pairwise fun e f => ∀ action action', e.does action → f.does action' → action' ≠ .bargeIn →
    cooldownSeconds ≤ f.seen.now - e.seen.now

/-- Between two actions on a gesture is an observation of none, or an action on another. -/
def Released (es : List Event) : Prop :=
  ∀ pre e mid f post, es = pre ++ e :: (mid ++ f :: post) →
    ∀ intent, e.actsOn intent → f.actsOn intent →
      ∃ m ∈ mid, showsNone F T m.seen = true ∨ ∃ other, other ≠ intent ∧ m.actsOn other

/-- A resume has a barge-in before it, within the window, that no other resume has. -/
def Resumes (es : List Event) : Prop :=
  ∀ pre f post, es = pre ++ f :: post → f.does (.resumeOrCompliment true) →
    ∃ before e mid, pre = before ++ e :: mid ∧ e.does .bargeIn ∧
      f.seen.now - e.seen.now ≤ resumeWindowSeconds ∧
      ∀ m ∈ mid, ¬m.does (.resumeOrCompliment true) ∧ ¬m.does .bargeIn

structure Gated (es : List Event) : Prop where
  cooled : CooledDown es
  released : Released F T es
  resumes : Resumes es

variable {F T} {s : Controller} {obs : List Observation} {o : Observation} {es : List Event}

theorem eq_bargeIn {action : Action} (h : action.intent = .stop) : action = .bargeIn := by
  cases action with
  | bargeIn => rfl
  | greet | resumeOrCompliment | acknowledgeFeedback => cases h

theorem resumes_does {action : Action} (h : (event F T s o).does action) :
    (s.handle F T o).1.lastInterruptedAt = (s.noted action o.now).lastInterruptedAt := by
  obtain ⟨control, -, -, -, -, hafter⟩ := event_does h
  rw [hafter]
  rfl

theorem acted_eq_none (h : ∀ action, ¬(event F T s o).does action) :
    (s.handle F T o).2 = none := by
  cases hacted : (s.handle F T o).2 with
  | none => rfl
  | some acted => exact absurd (congrArg (Option.map Acted.action) hacted) (h acted.action)

/-- A step that does not act leaves the times as they are. -/
theorem times_of_no_action (h : ∀ action, ¬(event F T s o).does action) :
    (s.handle F T o).1.lastActionAt = s.lastActionAt ∧
      (s.handle F T o).1.lastInterruptedAt = s.lastInterruptedAt := by
  have hhandled := handled F T s o
  rw [acted_eq_none h] at hhandled
  generalize (s.handle F T o).1 = after at hhandled ⊢
  cases hhandled with
  | dropped | nothing | unsure => exact ⟨rfl, rfl⟩
  | awaiting | gated => simp [Controller.forgetCandidate]

/-- Every action lies before the last, as the controller remembers it, and so before now. -/
def Remembered (s : Controller) (es : List Event) : Prop :=
  ∀ e ∈ es, ∀ action, e.does action → ∃ t, s.lastActionAt = some t ∧ e.seen.now ≤ t

theorem Remembered.step (h : Remembered s es) (hnow : ∀ e ∈ es, e.seen.now ≤ o.now) :
    Remembered (s.handle F T o).1 (es ++ [event F T s o]) := by
  intro e he action hdoes
  by_cases hacts : ∃ action, (event F T s o).does action
  · obtain ⟨action', hacts⟩ := hacts
    obtain ⟨control, -, -, -, -, hafter⟩ := event_does hacts
    refine ⟨o.now, by rw [hafter]; rfl, ?_⟩
    rcases List.mem_append.mp he with hmem | hlast
    · exact hnow e hmem
    · rw [List.mem_singleton.mp hlast]
      exact le_refl _
  · have hquiet : ∀ action, ¬(event F T s o).does action := fun action ha => hacts ⟨action, ha⟩
    rw [(times_of_no_action hquiet).1]
    rcases List.mem_append.mp he with hmem | hlast
    · exact h e hmem action hdoes
    · rw [List.mem_singleton.mp hlast] at hdoes
      exact absurd hdoes (hquiet action)

/-- An action that is no stop comes when the cooldown after the last is over. -/
theorem Remembered.cooled (h : Remembered s es) {e : Event} (he : e ∈ es)
    {action action' : Action} (hdoes : e.does action) (hdoes' : (event F T s o).does action')
    (hstop : action' ≠ .bargeIn) : cooldownSeconds ≤ o.now - e.seen.now := by
  obtain ⟨t, ht, hle⟩ := h e he action hdoes
  obtain ⟨control, hready, hanswers, -⟩ := event_does hdoes'
  have hne : control.intent ≠ .stop := by
    rw [← hanswers]
    exact fun h => hstop (eq_bargeIn h)
  have hrested := hready.rested.resolve_left hne
  simp only [Controller.coolingDown, ht, Option.any_some, decide_eq_false_iff_not, not_lt]
    at hrested
  exact hrested.trans (sub_le_sub_left hle o.now)

theorem cooledDown (hclock : obs.Pairwise fun a b => a.now ≤ b.now) :
    CooledDown (events F T s obs) ∧ Remembered (after F T s obs) (events F T s obs) := by
  induction obs using List.reverseRecOn with
  | nil => exact ⟨.nil, fun e he => by cases he⟩
  | append_singleton obs o ih =>
    obtain ⟨hobs, -, ho⟩ := List.pairwise_append.mp hclock
    obtain ⟨hcooled, hremembered⟩ := ih hobs
    have hnow : ∀ e ∈ events F T s obs, e.seen.now ≤ o.now :=
      fun e he => ho e.seen (mem_seen he) o List.mem_cons_self
    rw [events_concat, after_concat]
    refine ⟨List.pairwise_append.mpr ⟨hcooled, List.pairwise_singleton _ _, ?_⟩,
      hremembered.step hnow⟩
    intro e he f hf action action' hdoes hdoes' hstop
    obtain rfl := List.mem_singleton.mp hf
    exact hremembered.cooled he hdoes hdoes' hstop

/-- A gesture that was acted on is held until a frame without gesture or another action. -/
theorem held_step {intent : Intent} (h : s.lastIntent = intent)
    (hnone : showsNone F T o = false)
    (hother : ∀ other, other ≠ intent → ¬(event F T s o).actsOn other) :
    (s.handle F T o).1.lastIntent = intent := by
  by_cases hacts : ∃ action, (event F T s o).does action
  · obtain ⟨action, hdoes⟩ := hacts
    obtain ⟨control, -, hanswers, -, -, hafter⟩ := event_does hdoes
    rw [hafter]
    by_contra hne
    exact hother control.intent hne ⟨action, hdoes, hanswers⟩
  · have hhandled := handled F T s o
    rw [acted_eq_none fun action ha => hacts ⟨action, ha⟩] at hhandled
    generalize (s.handle F T o).1 = after at hhandled ⊢
    cases hhandled with
    | dropped | unsure => exact h
    | nothing control hread hintent => simp [showsNone, hread, hintent] at hnone
    | awaiting | gated => simpa [Controller.forgetCandidate] using h

theorem held_run {intent : Intent} (h : s.lastIntent = intent)
    (hmid : ∀ m ∈ events F T s obs, showsNone F T m.seen = false ∧
      ∀ other, other ≠ intent → ¬m.actsOn other) :
    (after F T s obs).lastIntent = intent := by
  induction obs generalizing s with
  | nil => exact h
  | cons o obs ih =>
    obtain ⟨hnone, hother⟩ := hmid _ List.mem_cons_self
    exact ih (held_step h hnone hother) fun m hm => hmid m (List.mem_cons_of_mem _ hm)

theorem released : Released F T (events F T s obs) := by
  intro pre e mid f post heq intent he hf
  by_contra hmid
  obtain ⟨obs₁, obs₂, -, -, hrest⟩ := events_eq_append heq
  cases obs₂ with
  | nil => cases hrest
  | cons o obs₂ =>
    rw [events, List.cons.injEq] at hrest
    obtain ⟨rfl, hrest⟩ := hrest
    obtain ⟨obs₃, obs₄, -, rfl, hlast⟩ := events_eq_append hrest.symm
    cases obs₄ with
    | nil => cases hlast
    | cons o' obs₄ =>
      rw [events, List.cons.injEq] at hlast
      obtain ⟨rfl, -⟩ := hlast
      obtain ⟨action, hdoes, rfl⟩ := he
      obtain ⟨control, -, hanswers, -, -, hafter⟩ := event_does hdoes
      have hquiet : ∀ m ∈ events F T ((after F T s obs₁).handle F T o).1 obs₃,
          showsNone F T m.seen = false ∧ ∀ other, other ≠ action.intent → ¬m.actsOn other := by
        refine fun m hm => ⟨?_, fun other hne hacts => hmid ⟨m, hm, .inr ⟨other, hne, hacts⟩⟩⟩
        by_contra hnone
        exact hmid ⟨m, hm, .inl (by simpa using hnone)⟩
      have hheld := held_run (by rw [hafter, hanswers]) hquiet
      obtain ⟨action', hdoes', hintent⟩ := hf
      obtain ⟨control', hready, hanswers', -⟩ := event_does hdoes'
      exact hready.fresh (by rw [hheld, ← hintent, hanswers'])

/-- The time the controller remembers is that of a barge-in that no resume has. -/
def Interrupted (s : Controller) (es : List Event) : Prop :=
  ∀ t, s.lastInterruptedAt = some t → ∃ before e mid, es = before ++ e :: mid ∧
    e.does .bargeIn ∧ e.seen.now = t ∧
      ∀ m ∈ mid, ¬m.does (.resumeOrCompliment true) ∧ ¬m.does .bargeIn

theorem Interrupted.step (h : Interrupted s es) :
    Interrupted (s.handle F T o).1 (es ++ [event F T s o]) := by
  intro t ht
  -- a step that is neither a barge-in nor a resume keeps the time
  have hkept : s.lastInterruptedAt = some t → ¬(event F T s o).does (.resumeOrCompliment true) →
      ¬(event F T s o).does .bargeIn → ∃ before e mid, es ++ [event F T s o] = before ++ e :: mid ∧
        e.does .bargeIn ∧ e.seen.now = t ∧
          ∀ m ∈ mid, ¬m.does (.resumeOrCompliment true) ∧ ¬m.does .bargeIn := by
    intro ht hresume hbarge
    obtain ⟨before, e, mid, rfl, he, hnow, hmid⟩ := h t ht
    refine ⟨before, e, mid ++ [event F T s o], by simp, he, hnow, fun m hm => ?_⟩
    rcases List.mem_append.mp hm with hm | hm
    · exact hmid m hm
    · obtain rfl := List.mem_singleton.mp hm
      exact ⟨hresume, hbarge⟩
  by_cases hacts : ∃ action, (event F T s o).does action
  · obtain ⟨action, hdoes⟩ := hacts
    rw [resumes_does hdoes] at ht
    have hother : ∀ action', (event F T s o).does action' → action' = action :=
      fun action' hdoes' => Option.some.inj (hdoes'.symm.trans hdoes)
    by_cases hbarge : action = .bargeIn
    · subst hbarge
      exact ⟨es, _, [], rfl, hdoes, Option.some.inj ht, by simp⟩
    · by_cases hresume : action = .resumeOrCompliment true
      · subst hresume
        cases ht
      · refine hkept ?_ (fun h => hresume (hother _ h).symm) fun h => hbarge (hother _ h).symm
        simpa [Controller.noted, hbarge, hresume] using ht
  · have hquiet : ∀ action, ¬(event F T s o).does action := fun action ha => hacts ⟨action, ha⟩
    rw [(times_of_no_action hquiet).2] at ht
    exact hkept ht (hquiet _) (hquiet _)

theorem interrupted : Interrupted (after F T {} obs) (events F T {} obs) := by
  induction obs using List.reverseRecOn with
  | nil => exact fun t ht => by cases ht
  | append_singleton obs o ih =>
    rw [events_concat, after_concat]
    exact ih.step

theorem resumes : Resumes (events F T {} obs) := by
  intro pre f post heq hdoes
  obtain ⟨obs₁, obs₂, -, rfl, hrest⟩ := events_eq_append heq
  cases obs₂ with
  | nil => cases hrest
  | cons o obs₂ =>
    rw [events, List.cons.injEq] at hrest
    obtain ⟨rfl, -⟩ := hrest
    obtain ⟨control, -, -, -, hresumes, -⟩ := event_does hdoes
    obtain ⟨t, ht, hwindow⟩ := Option.any_eq_true _ _ |>.mp (hresumes rfl)
    obtain ⟨before, e, mid, hes, he, rfl, hmid⟩ := interrupted t ht
    exact ⟨before, e, mid, hes, he, of_decide_eq_true hwindow, hmid⟩

/-- Gesture gating, over every run under a clock that does not go back. -/
theorem gestures_gated (F : Floats) (T : TextOps) (obs : List Observation)
    (hclock : obs.Pairwise fun a b => a.now ≤ b.now) : Gated F T (events F T {} obs) :=
  ⟨(cooledDown hclock).1, released, resumes⟩

theorem gestures_gated_closed :
    Gated fractionFloats plainText (events fractionFloats plainText {}
      [sureOf "stop" 0 true, sureOf "continue" 6 false, sureOf "continue" 7 false]) :=
  gestures_gated fractionFloats plainText _ (by decide +kernel)

end Gating

end VoiceAgent.GestureRuns
