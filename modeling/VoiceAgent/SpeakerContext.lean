import VoiceAgent.StreamingEvents
import Mathlib.Data.Char
import Mathlib.Data.List.Infix
import Mathlib.Data.List.Induction
import Mathlib.Logic.Function.Basic

/-!
The Speaker's context. Subagents pin their latest state between the base prompt and the
conversation, and `set_pinned_state` tells the two apart by the text with which a message
begins. It leaves a conversation alone exactly when no message of it begins like a state.
-/
namespace VoiceAgent.SpeakerContext

open StreamingEvents

section Context

def speakerCapabilitiesPrefix : Text := "Subagents available to you this session".toList

def webcamContextPrefix : Text := "Live webcam state:".toList

def webcamFirstSightPrefix : Text := "First live webcam sighting:".toList

def mediaAnalysisRunningPrefix : Text :=
  "An uploaded media analysis task is running asynchronously.".toList

def speakerStatePrefixes : List Text :=
  [speakerCapabilitiesPrefix, webcamContextPrefix, webcamFirstSightPrefix,
    mediaAnalysisRunningPrefix]

/-- The content of a message; a list of parts as `str` writes it after its bracket. -/
inductive Content
  | text (t : Text)
  | parts (t : Text)
  deriving DecidableEq

/-- A dict, or a message in the format of one LLM service. -/
inductive Message
  | chat (role : Text) (content : Content)
  | specific (id : ℕ)
  deriving DecidableEq

def Message.text : Message → Text
  | .chat _ (.text t) => t
  | .chat _ (.parts t) => '[' :: t
  | .specific _ => []

/-- The state prefix with which a message begins. -/
def slotOf (m : Message) : Option Text :=
  speakerStatePrefixes.find? fun candidate => candidate.isPrefixOf m.text

def stateMessage (body : Text) : Message := .chat "system".toList (.text body)

/-- The entry of `pinned` for a prefix: the last message that begins with it. -/
def pinnedIn (messages : List Message) (candidate : Text) : Option Message :=
  messages.reverse.find? fun m => slotOf m = some candidate

/-- `set_pinned_state` -/
def setPinnedState (messages : List Message) (pre content : Text) : List Message :=
  let base := messages.take 1
  let conversation := (messages.drop 1).filter fun m => slotOf m = none
  let body := strip content
  let pinned := Function.update (pinnedIn (messages.drop 1)) pre
    (if body = [] then none else some (stateMessage body))
  base ++ speakerStatePrefixes.filterMap pinned ++ conversation

end Context

section Runs

inductive Event
  | pin (pre content : Text)
  | append (m : Message)
  deriving DecidableEq

def apply (messages : List Message) : Event → List Message
  | .pin pre content => setPinnedState messages pre content
  | .append m => messages ++ [m]

def after (messages : List Message) (es : List Event) : List Message := es.foldl apply messages

/-- A state is pinned under one of the prefixes, with which its text begins unless it is empty. -/
def Proper : Event → Prop
  | .pin pre content => pre ∈ speakerStatePrefixes ∧ (content = [] ∨ pre <+: content)
  | .append _ => True

def arrivals : Event → List Message
  | .pin _ _ => []
  | .append m => [m]

/-- The messages appended, in order of arrival. -/
def arrived (es : List Event) : List Message := es.flatMap arrivals

def repin (pinned : Text → Option Message) : Event → Text → Option Message
  | .pin pre content => Function.update pinned pre
      (if strip content = [] then none else some (stateMessage (strip content)))
  | .append _ => pinned

/-- What the latest call for each prefix has pinned. -/
def pins (es : List Event) : Text → Option Message := es.foldl repin fun _ => none

/-- A message that does not begin like a state. -/
def Plain (m : Message) : Prop := slotOf m = none

/-- The base prompt, at most one state for each prefix in their order, and the conversation. -/
def Undisturbed (base : Message) (conversation messages : List Message) : Prop :=
  ∃ pinned, messages = base :: (pinned ++ conversation) ∧
    (pinned.map slotOf).Sublist (speakerStatePrefixes.map some)

end Runs

section Slots
variable {messages conversation : List Message} {m : Message} {p q content : Text}
  {f : Text → Option Message}

/-- No prefix is the beginning of another one. -/
theorem prefixes_apart : ∀ p ∈ speakerStatePrefixes, ∀ q ∈ speakerStatePrefixes,
    p.isPrefixOf q = true → p = q := by
  decide +kernel

/-- A prefix neither begins nor ends with a space. -/
theorem prefixes_trimmed : ∀ p ∈ speakerStatePrefixes,
    ∃ c pre d, p = c :: (pre ++ [d]) ∧ isSpace c = false ∧ isSpace d = false := by
  have hends : ∀ p ∈ speakerStatePrefixes, p = p.head! :: (p.tail.dropLast ++ [p.getLast!]) ∧
      isSpace p.head! = false ∧ isSpace p.getLast! = false := by
    decide +kernel
  exact fun p hp => ⟨_, _, _, hends p hp⟩

theorem slotOf_eq_some (hp : p ∈ speakerStatePrefixes) : slotOf m = some p ↔ p <+: m.text := by
  constructor
  · intro h
    simpa using List.find?_some h
  · intro h
    cases hslot : slotOf m with
    | none =>
      have hnot := List.find?_eq_none.mp hslot p hp
      simp [h] at hnot
    | some q =>
      have hq : q ∈ speakerStatePrefixes := List.mem_of_find?_eq_some hslot
      have hqm : q <+: m.text := by simpa using List.find?_some hslot
      rcases List.prefix_or_prefix_of_prefix h hqm with hpq | hqp
      · rw [prefixes_apart p hp q hq (by simpa using hpq)]
      · rw [prefixes_apart q hq p hp (by simpa using hqp)]

theorem mem_of_slotOf (h : slotOf m = some p) : p ∈ speakerStatePrefixes :=
  List.mem_of_find?_eq_some h

/-- A state that begins with a prefix still does when it is stripped. -/
theorem strip_of_startsWith (hp : p ∈ speakerStatePrefixes) (h : p <+: content) :
    p <+: strip content := by
  obtain ⟨c, pre, d, rfl, hc, hd⟩ := prefixes_trimmed p hp
  obtain ⟨rest, rfl⟩ := h
  have hleft : (c :: (pre ++ [d]) ++ rest).dropWhile isSpace = c :: (pre ++ [d]) ++ rest := by
    simp [hc]
  have hright : rstrip (c :: (pre ++ [d]) ++ rest) = c :: (pre ++ [d]) ++ rstrip rest := by
    simp only [rstrip, List.reverse_append, List.dropWhile_append]
    split
    · rename_i hempty
      simp [List.isEmpty_iff.mp hempty, hd]
    · simp
  rw [strip, hleft, hright]
  exact List.prefix_append _ _

/-- What a proper call pins has its prefix as its slot. -/
theorem slotOf_pinned (hp : p ∈ speakerStatePrefixes) (h : content = [] ∨ p <+: content)
    (hm : (if strip content = [] then none else some (stateMessage (strip content))) = some m) :
    slotOf m = some p := by
  split at hm
  · cases hm
  · rename_i hbody
    obtain rfl := Option.some.inj hm
    refine (slotOf_eq_some hp).mpr (strip_of_startsWith hp (h.resolve_left ?_))
    rintro rfl
    exact hbody rfl

end Slots

section Layout
variable {base m : Message} {rest conversation : List Message} {p content : Text}
  {f : Text → Option Message} {es : List Event}

/-- Every pinned message begins with its prefix. -/
def Keyed (f : Text → Option Message) : Prop := ∀ p m, f p = some m → slotOf m = some p

theorem find_filterMap (hf : Keyed f) (p : Text) (ps : List Text) :
    (ps.filterMap f).reverse.find? (fun m => slotOf m = some p) =
      if p ∈ ps then f p else none := by
  induction ps with
  | nil => rfl
  | cons q ps ih =>
    have hq : (f q).toList.reverse.find? (fun m => slotOf m = some p) =
        if p = q then f p else none := by
      cases hfq : f q with
      | none => split <;> simp_all
      | some m =>
        have hslot : slotOf m = some q := hf q m hfq
        by_cases hpq : p = q
        · subst p
          simp [hslot, hfq]
        · simp [hslot, hpq, Ne.symm hpq]
    have hsplit : (q :: ps).filterMap f = (f q).toList ++ ps.filterMap f := by
      cases hfq : f q <;> simp [hfq]
    rw [hsplit, List.reverse_append, List.find?_append, ih, hq]
    by_cases hps : p ∈ ps <;> by_cases hpq : p = q <;> simp_all

theorem pinnedIn_layout (hf : Keyed f) (hc : ∀ m ∈ conversation, Plain m)
    (hp : p ∈ speakerStatePrefixes) :
    pinnedIn (speakerStatePrefixes.filterMap f ++ conversation) p = f p := by
  have hnone : conversation.reverse.find? (fun m => slotOf m = some p) = none := by
    refine List.find?_eq_none.mpr fun m hm => ?_
    have hplain : slotOf m = none := hc m (List.mem_reverse.mp hm)
    simp [hplain]
  rw [pinnedIn, List.reverse_append, List.find?_append, hnone, Option.none_or,
    find_filterMap hf, if_pos hp]

theorem filter_layout (hf : Keyed f) (hc : ∀ m ∈ conversation, Plain m) (ps : List Text) :
    (ps.filterMap f ++ conversation).filter (fun m => slotOf m = none) = conversation := by
  have hpins : (ps.filterMap f).filter (fun m => slotOf m = none) = [] := by
    refine List.filter_eq_nil_iff.mpr fun m hm => ?_
    obtain ⟨p, -, hp⟩ := List.mem_filterMap.mp hm
    simp [hf p m hp]
  have hconv : conversation.filter (fun m => slotOf m = none) = conversation := by
    refine List.filter_eq_self.mpr fun m hm => ?_
    have hplain : slotOf m = none := hc m hm
    simp [hplain]
  rw [List.filter_append, hpins, hconv, List.nil_append]

/-- Step lemma: a call changes the pinned message of its prefix and nothing else. -/
theorem setPinnedState_layout (hf : Keyed f) (hc : ∀ m ∈ conversation, Plain m) :
    setPinnedState (base :: (speakerStatePrefixes.filterMap f ++ conversation)) p content =
      base :: (speakerStatePrefixes.filterMap (Function.update f p
        (if strip content = [] then none else some (stateMessage (strip content)))) ++
          conversation) := by
  have hpins : speakerStatePrefixes.filterMap
      (Function.update (pinnedIn (speakerStatePrefixes.filterMap f ++ conversation)) p
        (if strip content = [] then none else some (stateMessage (strip content)))) =
      speakerStatePrefixes.filterMap (Function.update f p
        (if strip content = [] then none else some (stateMessage (strip content)))) := by
    refine List.filterMap_congr fun q hq => ?_
    by_cases hqp : q = p
    · simp [hqp]
    · simp [hqp, pinnedIn_layout hf hc hq]
  simp only [setPinnedState, List.take_succ_cons, List.take_zero, List.drop_succ_cons,
    List.drop_zero, filter_layout hf hc, hpins]
  rfl

theorem keyed_update (hf : Keyed f) (hp : p ∈ speakerStatePrefixes)
    (h : content = [] ∨ p <+: content) :
    Keyed (Function.update f p
      (if strip content = [] then none else some (stateMessage (strip content)))) := by
  intro q m hm
  by_cases hqp : q = p
  · subst q
    rw [Function.update_self] at hm
    exact slotOf_pinned hp h hm
  · rw [Function.update_of_ne hqp] at hm
    exact hf q m hm

@[simp] theorem pins_snoc_append : pins (es ++ [.append m]) = pins es := by
  simp [pins, repin, List.foldl_append]

@[simp] theorem pins_snoc_pin : pins (es ++ [.pin p content]) = Function.update (pins es) p
    (if strip content = [] then none else some (stateMessage (strip content))) := by
  simp [pins, repin, List.foldl_append]

theorem keyed_pins (h : ∀ e ∈ es, Proper e) : Keyed (pins es) := by
  induction es using List.reverseRecOn with
  | nil =>
    intro p m hm
    cases hm
  | append_singleton es e ih =>
    have hes : Keyed (pins es) := ih fun e he => h e (List.mem_append_left _ he)
    have he : Proper e := h e (by simp)
    cases e with
    | pin p content =>
      rw [pins_snoc_pin]
      exact keyed_update hes he.1 he.2
    | append m => simpa using hes

/-- Run lemma: the base prompt, the latest state of each prefix, and the conversation. -/
theorem after_eq (base : Message) (h : ∀ e ∈ es, Proper e)
    (hc : ∀ m ∈ rest ++ arrived es, Plain m) :
    after (base :: rest) es =
      base :: (speakerStatePrefixes.filterMap (pins es) ++ (rest ++ arrived es)) := by
  induction es using List.reverseRecOn with
  | nil =>
    have hnone : speakerStatePrefixes.filterMap (pins []) = [] := by
      simp [pins]
    rw [hnone]
    simp [after, arrived]
  | append_singleton es e ih =>
    have hes : ∀ e ∈ es, Proper e := fun e he => h e (List.mem_append_left _ he)
    have hsnoc : arrived (es ++ [e]) = arrived es ++ arrivals e := by simp [arrived]
    rw [hsnoc, ← List.append_assoc] at hc
    have hc' : ∀ m ∈ rest ++ arrived es, Plain m := fun m hm => hc m (List.mem_append_left _ hm)
    have hstep : after (base :: rest) (es ++ [e]) = apply (after (base :: rest) es) e := by
      simp [after, List.foldl_append]
    rw [hstep, ih hes hc', hsnoc]
    cases e with
    | pin p content =>
      rw [apply, setPinnedState_layout (keyed_pins hes) hc', pins_snoc_pin]
      simp [arrivals]
    | append m => simp [apply, arrivals]

/-- The pinned messages stand in the order of their prefixes, one for each at most. -/
theorem sublist_slots (hf : Keyed f) (ps : List Text) :
    ((ps.filterMap f).map slotOf).Sublist (ps.map some) := by
  induction ps with
  | nil => exact .slnil
  | cons p ps ih =>
    cases hfp : f p with
    | none => simpa [hfp] using ih.cons (some p)
    | some m => simpa [hfp, hf p m hfp] using ih.cons_cons (some p)

end Layout

/-- No sequence of proper calls disturbs a conversation, however it arrives, if and only if no
message of it begins with a state prefix. -/
theorem undisturbed_iff (base : Message) (conversation : List Message) :
    (∀ rest es, (∀ e ∈ es, Proper e) → rest ++ arrived es = conversation →
      Undisturbed base conversation (after (base :: rest) es)) ↔
        ∀ m ∈ conversation, Plain m := by
  constructor
  · intro h m hm
    cases hslot : slotOf m with
    | none => exact hslot
    | some p =>
      -- the state of that prefix is cleared, and the message with it
      have hproper : ∀ e ∈ [Event.pin p []], Proper e := by
        intro e he
        obtain rfl := List.mem_singleton.mp he
        exact ⟨mem_of_slotOf hslot, .inl rfl⟩
      obtain ⟨pinned, hpinned, -⟩ :=
        h conversation [.pin p []] hproper (by simp [arrived, arrivals])
      have hcleared : after (base :: conversation) [.pin p []] =
          base ::
            (speakerStatePrefixes.filterMap (Function.update (pinnedIn conversation) p none) ++
              conversation.filter fun m => slotOf m = none) := rfl
      rw [hcleared] at hpinned
      have hmem : m ∈ pinned ++ conversation := List.mem_append_right _ hm
      rw [← (List.cons.inj hpinned).2] at hmem
      rcases List.mem_append.mp hmem with hpin | hconv
      · obtain ⟨q, -, hq⟩ := List.mem_filterMap.mp hpin
        by_cases hqp : q = p
        · simp [hqp] at hq
        · rw [Function.update_of_ne hqp] at hq
          have hqm : slotOf m = some q := by simpa using List.find?_some hq
          exact absurd (Option.some.inj (hqm.symm.trans hslot)) hqp
      · have hnone : slotOf m = none := by simpa using (List.mem_filter.mp hconv).2
        rw [hnone] at hslot
        cases hslot
  · rintro h rest es hes rfl
    exact ⟨_, after_eq base hes h, sublist_slots (keyed_pins hes) _⟩

/-- The user asks about the first words of the subagents' note. -/
def askedBack : Message :=
  .chat "user".toList (.text "Subagents available to you this session? What is that?".toList)

/-- The next update of the note takes the user's message for its predecessor. -/
theorem asked_back_lost :
    ¬ ∀ (base : Message) (rest : List Message) (es : List Event), (∀ e ∈ es, Proper e) →
      Undisturbed base (rest ++ arrived es) (after (base :: rest) es) := by
  intro h
  have hproper : ∀ e ∈ [Event.append askedBack,
      .pin speakerCapabilitiesPrefix speakerCapabilitiesPrefix], Proper e := by
    intro e he
    rcases List.mem_cons.mp he with rfl | he
    · trivial
    · obtain rfl := List.mem_singleton.mp he
      exact ⟨by decide +kernel, .inr (List.prefix_refl _)⟩
  obtain ⟨pinned, hpinned, -⟩ := h (stateMessage "You are a voice assistant.".toList) [] _ hproper
  have hmem : askedBack ∈ after [stateMessage "You are a voice assistant.".toList]
      [.append askedBack, .pin speakerCapabilitiesPrefix speakerCapabilitiesPrefix] := by
    rw [hpinned]
    simp [arrived, arrivals]
  exact absurd hmem (by decide +kernel)

end VoiceAgent.SpeakerContext
