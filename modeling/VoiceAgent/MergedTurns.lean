import Mathlib.Data.List.Infix
import VoiceAgent.SessionView

/-!
The context keeps the spoken text and the tool calls of one answer as two assistant messages;
the streaming server is sent them as one. Joining them loses nothing and moves nothing across
another message. Doing it again changes nothing, unless an empty text stands between the two.
-/
namespace VoiceAgent.MergedTurns

open JsonValues SessionView

section Code

abbrev Message := Fields

def isStr : Option Json → Bool
  | some (.str _) => true
  | _ => false

def assistant : Option Json := some (.str "assistant")

/-- What `_merge_tool_call_turns` asks of the message already kept. -/
def spokenOnly (previous : Message) : Bool :=
  previous.get? "role" = assistant && isStr (previous.get? "content") &&
    !truthy (previous.get? "tool_calls")

/-- What it asks of the next one. -/
def callsOnly (message : Message) : Bool :=
  message.get? "role" = assistant && truthy (message.get? "tool_calls") &&
    !truthy (message.get? "content")

/-- Text and calls of one answer. -/
def joins (previous message : Message) : Bool := spokenOnly previous && callsOnly message

def joined (previous message : Message) : Message :=
  previous.set "tool_calls" ((message.get? "tool_calls").getD .null)

def mergeTurn (merged : List Message) (message : Message) : List Message :=
  let previous := merged.getLast?.getD .nil
  if joins previous message then merged.dropLast ++ [joined previous message]
  else merged ++ [message]

/-- `_merge_tool_call_turns` -/
def mergeToolCallTurns (messages : List Message) : List Message :=
  messages.foldl mergeTurn []

end Code

section Fields

variable {a b : Message}

@[simp] theorem spokenOnly_nil : spokenOnly .nil = false := rfl

theorem spokenOnly_eq_true : spokenOnly a = true ↔ a.get? "role" = assistant ∧
    isStr (a.get? "content") = true ∧ truthy (a.get? "tool_calls") = false := by
  simp [spokenOnly, and_assoc]

theorem callsOnly_eq_true : callsOnly a = true ↔ a.get? "role" = assistant ∧
    truthy (a.get? "tool_calls") = true ∧ truthy (a.get? "content") = false := by
  simp [callsOnly, and_assoc]

theorem joins_eq_true : joins a b = true ↔ spokenOnly a = true ∧ callsOnly b = true := by
  simp [joins]

theorem spokenOnly_of_calls (h : truthy (a.get? "tool_calls") = true) : spokenOnly a = false := by
  simp [spokenOnly, h]

theorem spokenOnly_of_callsOnly (h : callsOnly a = true) : spokenOnly a = false :=
  spokenOnly_of_calls (callsOnly_eq_true.mp h).2.1

/-- Only the tool calls of the kept message change. -/
theorem get?_joined {k : String} (hk : k ≠ "tool_calls") : (joined a b).get? k = a.get? k := by
  rw [joined, get?_set_ne _ _ hk]

theorem get?_joined_calls (hb : callsOnly b = true) :
    (joined a b).get? "tool_calls" = b.get? "tool_calls" := by
  have hcalls := (callsOnly_eq_true.mp hb).2.1
  cases h : b.get? "tool_calls" with
  | none => simp [h, truthy] at hcalls
  | some calls => simp [joined, h]

theorem spokenOnly_joined (hb : callsOnly b = true) : spokenOnly (joined a b) = false := by
  refine spokenOnly_of_calls ?_
  rw [get?_joined_calls hb]
  exact (callsOnly_eq_true.mp hb).2.1

/-- A string that is not truthy is empty. -/
theorem content_eq_empty {o : Option Json} (hstr : isStr o = true) (h : truthy o = false) :
    o = some (.str "") := by
  unfold truthy at h
  split at h
  case h_5 => rfl
  all_goals simp_all [isStr]

end Fields

section Turns

/-- `_merge_tool_call_turns`, over what is still to come. -/
def turns : List Message → List Message
  | [] => []
  | [a] => [a]
  | a :: b :: rest =>
    if joins a b then joined a b :: turns rest else a :: turns (b :: rest)

variable {a b m : Message} {l l' : List Message}

theorem turns_join (ha : spokenOnly a = true) (hb : callsOnly b = true) (rest : List Message) :
    turns (a :: b :: rest) = joined a b :: turns rest := by
  simp [turns, joins_eq_true.mpr ⟨ha, hb⟩]

theorem turns_keep (h : joins a b = false) (rest : List Message) :
    turns (a :: b :: rest) = a :: turns (b :: rest) := by
  simp [turns, h]

theorem turns_cons_of_not_spokenOnly (h : spokenOnly a = false) (rest : List Message) :
    turns (a :: rest) = a :: turns rest := by
  cases rest with
  | nil => rfl
  | cons b rest => exact turns_keep (by simp [joins, h]) rest

/-- The loop has kept all but the last message for good. -/
theorem foldl_mergeTurn (rest : List Message) : ∀ (kept : List Message) (a : Message),
    rest.foldl mergeTurn (kept ++ [a]) = kept ++ turns (a :: rest) := by
  induction rest with
  | nil => exact fun _ _ => rfl
  | cons b rest ih =>
    intro kept a
    rw [List.foldl_cons]
    cases h : joins a b with
    | true =>
      obtain ⟨ha, hb⟩ := joins_eq_true.mp h
      have hstep : mergeTurn (kept ++ [a]) b = kept ++ [joined a b] := by
        simp [mergeTurn, h]
      rw [hstep, ih, turns_cons_of_not_spokenOnly (spokenOnly_joined hb), turns_join ha hb]
    | false =>
      have hstep : mergeTurn (kept ++ [a]) b = (kept ++ [a]) ++ [b] := by
        simp [mergeTurn, h]
      rw [hstep, ih, turns_keep h, List.append_assoc, List.singleton_append]

theorem mergeToolCallTurns_eq (l : List Message) : mergeToolCallTurns l = turns l := by
  cases l with
  | nil => rfl
  | cons a rest =>
    have hfirst : mergeTurn [] a = [] ++ [a] := by simp [mergeTurn, joins]
    rw [mergeToolCallTurns, List.foldl_cons, hfirst, foldl_mergeTurn, List.nil_append]

/-- Nothing is joined across a message that does not hold calls alone. -/
theorem turns_append (h : callsOnly m = false) (rest : List Message) :
    turns (l ++ m :: rest) = turns l ++ turns (m :: rest) := by
  fun_induction turns l with
  | case1 => rfl
  | case2 a => exact turns_keep (by simp [joins, h]) rest
  | case3 a b before hjoin ih =>
    obtain ⟨ha, hb⟩ := joins_eq_true.mp hjoin
    simpa [turns_join ha hb] using ih
  | case4 a b before hkeep ih =>
    simpa [turns_keep (Bool.not_eq_true _ ▸ hkeep)] using ih

theorem callsOnly_of_role (h : m.get? "role" ≠ assistant) : callsOnly m = false := by
  simp [callsOnly, h]

theorem spokenOnly_of_role (h : m.get? "role" ≠ assistant) : spokenOnly m = false := by
  simp [spokenOnly, h]

/-- A message of another role, such as a tool result, parts the messages. -/
theorem turns_part (h : m.get? "role" ≠ assistant) (before after : List Message) :
    turns (before ++ m :: after) = turns before ++ m :: turns after := by
  rw [turns_append (callsOnly_of_role h), turns_cons_of_not_spokenOnly (spokenOnly_of_role h)]

end Turns

section Kept

inductive Piece
  | said (content : Json)
  | called (call : Json)
  | other (message : Message)
  deriving DecidableEq

def said : Option Json → List Json
  | some content => if truthy (some content) then [content] else []
  | none => []

/-- A value that is no list counts as one call. -/
def called : Option Json → List Json
  | some (.arr calls) => calls.toList
  | some call => if truthy (some call) then [call] else []
  | none => []

/-- What a message says and calls, in the order of its fields in an answer. -/
def pieces (m : Message) : List Piece :=
  if m.get? "role" = assistant then
    (said (m.get? "content")).map .said ++ (called (m.get? "tool_calls")).map .called
  else [.other m]

/-- The messages are kept as they are, except that calls alone join the text before them. -/
inductive Merges : List Message → List Message → Prop
  | nil : Merges [] []
  | keep (m : Message) {l l' : List Message} (rest : Merges l l') : Merges (m :: l) (m :: l')
  | join {a b : Message} {l l' : List Message} (ha : spokenOnly a = true)
      (hb : callsOnly b = true) (rest : Merges l l') : Merges (a :: b :: l) (joined a b :: l')

theorem merges_turns (l : List Message) : Merges l (turns l) := by
  fun_induction turns l with
  | case1 => exact .nil
  | case2 a => exact .keep a .nil
  | case3 a b rest hjoin ih =>
    obtain ⟨ha, hb⟩ := joins_eq_true.mp hjoin
    exact .join ha hb ih
  | case4 a b rest _ ih => exact .keep a ih

theorem said_eq_nil {o : Option Json} (h : truthy o = false) : said o = [] := by
  cases o with
  | none => rfl
  | some content => simp [said, h]

theorem called_eq_nil {o : Option Json} (h : truthy o = false) : called o = [] := by
  unfold called
  split
  · rename_i calls
    cases calls with
    | nil => rfl
    | cons call rest => simp [truthy] at h
  · simp [h]
  · rfl

theorem pieces_joined {a b : Message} (ha : spokenOnly a = true) (hb : callsOnly b = true) :
    pieces (joined a b) = pieces a ++ pieces b := by
  obtain ⟨hrole, -, hnone⟩ := spokenOnly_eq_true.mp ha
  obtain ⟨hrole', -, hsilent⟩ := callsOnly_eq_true.mp hb
  simp [pieces, get?_joined, get?_joined_calls hb, hrole, hrole', called_eq_nil hnone,
    said_eq_nil hsilent]

theorem Merges.pieces {l l' : List Message} (h : Merges l l') :
    l'.flatMap pieces = l.flatMap pieces := by
  induction h with
  | nil => rfl
  | keep m _ ih => simp [ih]
  | join ha hb _ ih => simp [ih, pieces_joined ha hb]

/-- The calls that the answers of a list hold, in their order. -/
def callsHeld (l : List Message) : List Json :=
  (l.flatMap pieces).filterMap fun
    | .called call => some call
    | _ => none

end Kept

section Again

variable {a b c : Message} {l : List Message}

theorem length_turns_le (l : List Message) : (turns l).length ≤ l.length := by
  fun_induction turns l <;> simp <;> omega

/-- Messages of which no two are joined are the ones that stay as they are. -/
theorem turns_eq_self_iff (l : List Message) :
    turns l = l ↔ l.IsChain fun a b => joins a b = false := by
  fun_induction turns l with
  | case1 => simp
  | case2 a => simp
  | case3 a b rest hjoin ih =>
    have hlength := length_turns_le rest
    refine iff_of_false (fun heq => ?_) (fun hchain => ?_)
    · have := congrArg List.length heq
      simp at this
      omega
    · simp [hjoin] at hchain
  | case4 a b rest hkeep ih => simp [ih, hkeep]

/-- Text alone that is empty. -/
def silent (m : Message) : Bool := spokenOnly m && m.get? "content" = some (.str "")

/-- An answer in three messages: its text, an empty text, its calls. -/
def SplitAnswer (l : List Message) : Prop :=
  ∃ a b c, [a, b, c] <:+: l ∧ spokenOnly a = true ∧ silent b = true ∧ callsOnly c = true

theorem not_splitAnswer_nil : ¬ SplitAnswer [] := by
  rintro ⟨a, b, c, hin, -⟩
  simp at hin

theorem splitAnswer_cons : SplitAnswer (a :: l) ↔
    (∃ b c, [b, c] <+: l ∧ spokenOnly a = true ∧ silent b = true ∧ callsOnly c = true) ∨
      SplitAnswer l := by
  constructor
  · rintro ⟨a', b, c, hin, ha, hb, hc⟩
    rcases List.infix_cons_iff.mp hin with hfirst | hlater
    · obtain ⟨rfl, hrest⟩ := List.cons_prefix_cons.mp hfirst
      exact .inl ⟨b, c, hrest, ha, hb, hc⟩
    · exact .inr ⟨a', b, c, hlater, ha, hb, hc⟩
  · rintro (⟨b, c, hrest, ha, hb, hc⟩ | ⟨a', b, c, hlater, hsplit⟩)
    · exact ⟨a, b, c, (List.cons_prefix_cons.mpr ⟨rfl, hrest⟩).isInfix, ha, hb, hc⟩
    · exact ⟨a', b, c, List.infix_cons_iff.mpr (.inr hlater), hsplit⟩

theorem splitAnswer_cons_of_not_spokenOnly (ha : spokenOnly a = false) :
    SplitAnswer (a :: l) ↔ SplitAnswer l := by
  simp [splitAnswer_cons, ha]

/-- A joined message stands for calls alone exactly where the text before them is empty. -/
theorem callsOnly_joined (ha : spokenOnly a = true) (hb : callsOnly b = true) :
    callsOnly (joined a b) = silent a := by
  obtain ⟨hrole, hstr, -⟩ := spokenOnly_eq_true.mp ha
  have hcalls := (callsOnly_eq_true.mp hb).2.1
  cases hcontent : truthy (a.get? "content") with
  | true =>
    have hsome : a.get? "content" ≠ some (.str "") := fun h => by simp [h, truthy] at hcontent
    simp [callsOnly, silent, get?_joined, hcontent, hsome]
  | false =>
    have hempty : truthy (some (.str "")) = false := rfl
    simp [callsOnly, silent, get?_joined, get?_joined_calls hb, hrole, hcalls, ha, hempty,
      content_eq_empty hstr hcontent]

/-- Nothing that is left is joined again, unless an answer was split by an empty text. -/
theorem isChain_turns_iff (l : List Message) :
    ((turns l).IsChain fun a b => joins a b = false) ↔ ¬ SplitAnswer l := by
  fun_induction turns l with
  | case1 => simp [not_splitAnswer_nil]
  | case2 a => simp [splitAnswer_cons, not_splitAnswer_nil]
  | case3 a b rest hjoin ih =>
    obtain ⟨ha, hb⟩ := joins_eq_true.mp hjoin
    have hnext : spokenOnly b = false := spokenOnly_of_callsOnly hb
    have hapart : SplitAnswer (a :: b :: rest) ↔ SplitAnswer rest := by
      rw [splitAnswer_cons, splitAnswer_cons_of_not_spokenOnly hnext]
      simp [silent, hnext]
    rw [hapart, ← ih]
    cases hrest : turns rest with
    | nil => simp
    | cons m later => simp [joins, spokenOnly_joined hb]
  | case4 a b rest hkeep ih =>
    have hkeep : joins a b = false := Bool.not_eq_true _ ▸ hkeep
    cases rest with
    | nil => simp [turns, hkeep, splitAnswer_cons, not_splitAnswer_nil]
    | cons c later =>
      rw [splitAnswer_cons, not_or, ← ih]
      cases hnext : joins b c with
      | true =>
        obtain ⟨hb, hc⟩ := joins_eq_true.mp hnext
        rw [turns_join hb hc, List.isChain_cons_cons]
        simp [joins, callsOnly_joined hb hc, hc]
      | false =>
        have hapart : ¬ (silent b = true ∧ callsOnly c = true) := by
          rintro ⟨hb, hc⟩
          have hspoken := (Bool.and_eq_true_iff.mp hb).1
          simp [joins, hspoken, hc] at hnext
        have hnone : ¬ ∃ b' c', [b', c'] <+: b :: c :: later ∧ spokenOnly a = true ∧
            silent b' = true ∧ callsOnly c' = true := by
          rintro ⟨b', c', hin, -, hb, hc⟩
          obtain ⟨rfl, hrest⟩ := List.cons_prefix_cons.mp hin
          obtain ⟨rfl, -⟩ := List.cons_prefix_cons.mp hrest
          exact hapart ⟨hb, hc⟩
        rw [turns_keep hnext, List.isChain_cons_cons]
        exact and_congr (iff_of_true hkeep hnone) Iff.rfl

/-- Merging again changes nothing, exactly where no answer was split by an empty text. -/
theorem turns_turns_iff (l : List Message) : turns (turns l) = turns l ↔ ¬ SplitAnswer l := by
  rw [turns_eq_self_iff, isChain_turns_iff]

end Again

section Merged

/-- Every message, every text and every call is kept once and in order. A tool result stays
behind the calls that were made before it. -/
theorem mergeToolCallTurns_keeps (l : List Message) :
    Merges l (mergeToolCallTurns l) ∧
      (mergeToolCallTurns l).flatMap pieces = l.flatMap pieces ∧
      (∀ before result after, l = before ++ result :: after → result.get? "role" ≠ assistant →
        mergeToolCallTurns l =
            mergeToolCallTurns before ++ result :: mergeToolCallTurns after ∧
          callsHeld (mergeToolCallTurns before) = callsHeld before) ∧
      (mergeToolCallTurns (mergeToolCallTurns l) = mergeToolCallTurns l ↔ ¬ SplitAnswer l) := by
  simp only [mergeToolCallTurns_eq]
  refine ⟨merges_turns l, (merges_turns l).pieces, fun before result after hl hrole => ?_,
    turns_turns_iff l⟩
  constructor
  · rw [hl, turns_part hrole]
  · rw [callsHeld, callsHeld, (merges_turns before).pieces]

def spoken (text : String) : Message :=
  .cons "role" (.str "assistant") (.cons "content" (.str text) .nil)

def calling (id : String) : Message :=
  .cons "role" (.str "assistant") (.cons "tool_calls" (.arr (.cons (.str id) .nil)) .nil)

example : mergeToolCallTurns [spoken "Let me check.", calling "call_1"] =
    [(spoken "Let me check.").set "tool_calls" (.arr (.cons (.str "call_1") .nil))] := by decide

/-- The calls join the empty text first and the text before it the second time. -/
theorem mergeToolCallTurns_again : ¬ ∀ l : List Message,
    mergeToolCallTurns (mergeToolCallTurns l) = mergeToolCallTurns l := by
  intro h
  have hsplit := h [spoken "Let me check.", spoken "", calling "call_1"]
  exact absurd hsplit (by decide)

end Merged

end VoiceAgent.MergedTurns
