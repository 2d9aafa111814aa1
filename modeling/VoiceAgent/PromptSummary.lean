import VoiceAgent.JsonValues
import VoiceAgent.StreamingEvents

/-!
The summary of older turns under a pinned prompt. The place of the cut is found before the
summary is waited for, and the context is written only if it still reads as it did then.
-/
namespace VoiceAgent.PromptSummary

open StreamingEvents JsonValues

section Model

/-- A message of the context; `specific` is one that is no dict. -/
inductive ContextMessage
  | dict (fields : Fields)
  | specific (value : Json)
  deriving DecidableEq

namespace ContextMessage

def isUser : ContextMessage → Bool
  | .dict fields => fields.get? "role" = some (.str "user")
  | .specific _ => false

/-- The ids of the tool calls that a message makes. -/
def calls : ContextMessage → List Json
  | .dict fields =>
    match fields.get? "tool_calls" with
    | some (.arr items) => items.toList.filterMap fun call => sub (some call) "id"
    | _ => []
  | .specific _ => []

/-- The id of the tool call whose result a message is. -/
def answers : ContextMessage → Option Json
  | .dict fields =>
    if fields.get? "role" = some (.str "tool") then fields.get? "tool_call_id" else none
  | .specific _ => none

end ContextMessage

/-- The loop of `find_recent_turn_start`, before the message at `index - 1`. -/
def searchTurn (messages : List ContextMessage) (recentTurns : ℤ) : ℕ → ℤ → ℕ
  | 0, _ => 0
  | index + 1, turnsSeen =>
    if messages[index]?.any ContextMessage.isUser then
      if turnsSeen + 1 = recentTurns then index
      else searchTurn messages recentTurns index (turnsSeen + 1)
    else searchTurn messages recentTurns index turnsSeen

def findRecentTurnStart (messages : List ContextMessage) (recentTurns : ℤ) : ℕ :=
  searchTurn messages recentTurns messages.length 0

/-- The messages that exist, and those of the context. -/
structure World where
  dicts : List ContextMessage
  context : List ℕ
  deriving DecidableEq

namespace World

def read (s : World) (ref : ℕ) : ContextMessage := (s.dicts[ref]?).getD (.specific .null)

def values (s : World) : List ContextMessage := s.context.map s.read

def Valid (s : World) : Prop := ∀ ref ∈ s.context, ref < s.dicts.length

end World

/-- What `apply_pinned_prompt_summary` holds while it waits for a summary. -/
structure Plan where
  messages : List ℕ
  preserveCount : ℕ
  recentStart : ℕ

/-- What is given: `format_messages_for_summary`, the counts, and what comes of the request. -/
structure Request where
  format : List ContextMessage → Text
  preservePromptMessages : ℤ
  recentTurns : ℤ
  answer : Option Text

variable (R : Request)

/-- As far as the request for a summary; none where there is nothing to wait for. -/
def plan (s : World) : Option Plan :=
  let preserveCount := (max 0 R.preservePromptMessages).toNat
  let chatMessages := s.context.drop preserveCount
  let recentStart := findRecentTurnStart (chatMessages.map s.read) R.recentTurns
  let messagesToSummarize := chatMessages.take recentStart
  if R.recentTurns < 1 ∨ recentStart = 0 ∨ messagesToSummarize = [] ∨
      strip (R.format (messagesToSummarize.map s.read)) = [] then none
  else some ⟨s.context, preserveCount, recentStart⟩

def summaryMessage (text : Text) : ContextMessage :=
  .dict (.cons "role" (.str "user") (.cons "content"
    (.str (String.ofList ("Conversation summary of earlier turns: ".toList ++ text))) .nil))

/-- `generate_history_summary`, once the request is through. -/
def summaryText : Option Text :=
  R.answer.bind fun text => if strip text = [] then none else some (strip text)

/-- The end of `apply_pinned_prompt_summary`, after the wait. -/
def finish (held : Plan) (s : World) : World :=
  match summaryText R with
  | none => s
  | some text =>
    if s.values ≠ held.messages.map s.read then s
    else
      let pinnedMessages := held.messages.take held.preserveCount
      let recentMessages := (held.messages.drop held.preserveCount).drop held.recentStart
      { dicts := s.dicts ++ [summaryMessage text]
        context := pinnedMessages ++ s.dicts.length :: recentMessages }

variable (meanwhile : World → World)

/-- The world as it is when the function comes to write, or returns. -/
def found (s : World) : World :=
  match plan R s with
  | none => s
  | some _ => meanwhile s

/-- `apply_pinned_prompt_summary`; `meanwhile` is what others do while it waits. -/
def applyPinnedPromptSummary (s : World) : World :=
  match plan R s with
  | none => s
  | some held => finish R held (meanwhile s)

end Model

section Turns
variable {messages : List ContextMessage} {i j k cut : ℕ}

/-- No user message after the first, up to the second. -/
def SameTurn (messages : List ContextMessage) (i j : ℕ) : Prop :=
  i < j ∧ ∀ n, i < n → n ≤ j → messages[n]?.any ContextMessage.isUser = false

/-- A tool call and its result in one user turn. -/
def Paired (messages : List ContextMessage) (i j : ℕ) : Prop :=
  SameTurn messages i j ∧ ∃ call result id, messages[i]? = some call ∧ messages[j]? = some result ∧
    id ∈ call.calls ∧ result.answers = some id

/-- The first messages end between a tool call and its result. -/
def Splits (messages : List ContextMessage) (k : ℕ) : Prop :=
  ∃ i j, Paired messages i j ∧ i < k ∧ k ≤ j

/-- A message at `cut`, with `recentTurns` user messages from it on and itself one of them. -/
def IsTurnStart (messages : List ContextMessage) (recentTurns : ℤ) (cut : ℕ) : Prop :=
  messages[cut]?.any ContextMessage.isUser = true ∧
    ((messages.drop cut).countP ContextMessage.isUser : ℤ) = recentTurns

/-- Messages up to `k` and from `cut` on stay. -/
def Kept (k cut i : ℕ) : Prop := i < k ∨ cut ≤ i

theorem kept_iff (hcut : messages[cut]?.any ContextMessage.isUser = true)
    (hsplit : ¬Splits messages k) (h : Paired messages i j) : Kept k cut i ↔ Kept k cut j := by
  obtain ⟨hlt, hturn⟩ := h.1
  constructor
  · rintro (hi | hi)
    · by_contra hj
      unfold Kept at hj
      exact hsplit ⟨i, j, h, hi, by omega⟩
    · exact .inr (by omega)
  · rintro (hj | hj)
    · exact .inl (by omega)
    · by_contra hi
      unfold Kept at hi
      have huser := hturn cut (by omega) hj
      rw [hcut] at huser
      cases huser

/-- The search goes backwards and has counted the user messages that it has passed. -/
theorem searchTurn_spec {recentTurns : ℤ} {index : ℕ} (hindex : index ≤ messages.length)
    (h : searchTurn messages recentTurns index
      ((messages.drop index).countP ContextMessage.isUser) ≠ 0) :
    IsTurnStart messages recentTurns (searchTurn messages recentTurns index
      ((messages.drop index).countP ContextMessage.isUser)) := by
  induction index with
  | zero => exact absurd rfl h
  | succ index ih =>
    have hlt : index < messages.length := by omega
    have hdrop : (messages.drop index).countP ContextMessage.isUser =
        (messages.drop (index + 1)).countP ContextMessage.isUser +
          if messages[index].isUser then 1 else 0 := by
      rw [List.drop_eq_getElem_cons hlt, List.countP_cons]
    have hany : messages[index]?.any ContextMessage.isUser = messages[index].isUser := by
      rw [List.getElem?_eq_getElem hlt, Option.any_some]
    rw [searchTurn, hany] at h ⊢
    by_cases huser : messages[index].isUser = true
    · rw [if_pos huser] at hdrop h ⊢
      have hcount : ((messages.drop (index + 1)).countP ContextMessage.isUser : ℤ) + 1 =
          (messages.drop index).countP ContextMessage.isUser := by
        rw [hdrop]
        rfl
      by_cases hturn : ((messages.drop (index + 1)).countP ContextMessage.isUser : ℤ) + 1 =
          recentTurns
      · rw [if_pos hturn] at h ⊢
        exact ⟨hany.trans huser, hcount.symm.trans hturn⟩
      · rw [if_neg hturn, hcount] at h ⊢
        exact ih (by omega) h
    · rw [if_neg huser] at hdrop h ⊢
      rw [Nat.add_zero] at hdrop
      rw [← hdrop] at h ⊢
      exact ih (by omega) h

theorem findRecentTurnStart_spec {recentTurns : ℤ}
    (h : findRecentTurnStart messages recentTurns ≠ 0) :
    IsTurnStart messages recentTurns (findRecentTurnStart messages recentTurns) := by
  have hnone : ((messages.drop messages.length).countP ContextMessage.isUser : ℤ) = 0 := by simp
  unfold findRecentTurnStart at h ⊢
  rw [← hnone] at h ⊢
  exact searchTurn_spec le_rfl h

/-- The start of a turn after the first `k` messages. -/
theorem IsTurnStart.of_drop {recentTurns : ℤ} (h : IsTurnStart (messages.drop k) recentTurns cut) :
    IsTurnStart messages recentTurns (k + cut) := by
  obtain ⟨huser, hcount⟩ := h
  rw [List.getElem?_drop] at huser
  rw [List.drop_drop] at hcount
  exact ⟨huser, hcount⟩

/-- Only who speaks counts. -/
theorem IsTurnStart.of_roles {messages' : List ContextMessage} {recentTurns : ℤ}
    (h : IsTurnStart messages recentTurns cut)
    (hroles : messages'.map ContextMessage.isUser = messages.map ContextMessage.isUser) :
    IsTurnStart messages' recentTurns cut := by
  have hany : ∀ l : List ContextMessage, l[cut]?.any ContextMessage.isUser =
      (l.map ContextMessage.isUser)[cut]?.any id := by
    intro l
    rw [List.getElem?_map, Option.any_map]
    rfl
  have hcount : ∀ l : List ContextMessage, (l.drop cut).countP ContextMessage.isUser =
      ((l.map ContextMessage.isUser).drop cut).countP id := by
    intro l
    rw [← List.map_drop, List.countP_map]
    rfl
  obtain ⟨huser, hturns⟩ := h
  exact ⟨by rw [hany, hroles, ← hany]; exact huser, by rw [hcount, hroles, ← hcount]; exact hturns⟩

end Turns

section Summaries
variable {R : Request} {meanwhile : World → World} {s now : World} {held : Plan} {text : Text}

/-- The context after the summary: the pinned messages, the summary, and the messages from the
start of a turn on. -/
structure Summarised (R : Request) (now after : World) (cut : ℕ) : Prop where
  start : IsTurnStart now.values R.recentTurns cut
  pinned : (max 0 R.preservePromptMessages).toNat ≤ cut
  values : ∃ text, summaryText R = some text ∧
    after.values = now.values.take (max 0 R.preservePromptMessages).toNat ++
      summaryMessage text :: now.values.drop cut
  together : ∀ i j, Paired now.values i j →
    (Kept (max 0 R.preservePromptMessages).toNat cut i ↔
      Kept (max 0 R.preservePromptMessages).toNat cut j)

theorem plan_eq_some (h : plan R s = some held) :
    held.messages = s.context ∧ held.preserveCount = (max 0 R.preservePromptMessages).toNat ∧
      IsTurnStart s.values R.recentTurns (held.preserveCount + held.recentStart) := by
  unfold plan at h
  dsimp only at h
  split at h
  · cases h
  · rename_i hgoes
    cases h
    have hstart : findRecentTurnStart ((s.context.drop (max 0 R.preservePromptMessages).toNat).map
        s.read) R.recentTurns ≠ 0 := fun hzero => hgoes (.inr (.inl hzero))
    refine ⟨rfl, rfl, IsTurnStart.of_drop ?_⟩
    rw [World.values, ← List.map_drop]
    exact findRecentTurnStart_spec hstart

/-- The messages that were held read as the context does, so the write keeps what it says. -/
theorem values_written {refs : List ℕ} (hrefs : ∀ ref ∈ refs, ref < now.dicts.length)
    (hsame : now.values = refs.map now.read) (message : ContextMessage) (k cut : ℕ) :
    (World.mk (now.dicts ++ [message])
      (refs.take k ++ now.dicts.length :: (refs.drop k).drop cut)).values =
      now.values.take k ++ message :: now.values.drop (k + cut) := by
  have hread : ∀ ref ∈ refs, ∀ context,
      (World.mk (now.dicts ++ [message]) context).read ref = now.read ref := by
    intro ref href context
    rw [World.read, World.read, List.getElem?_append_left (hrefs ref href)]
  have hmap : ∀ {part : List ℕ}, part ⊆ refs → ∀ context,
      part.map (World.mk (now.dicts ++ [message]) context).read = part.map now.read :=
    fun hpart context => List.map_congr_left fun ref href => hread ref (hpart href) context
  have hnew : ∀ context,
      (World.mk (now.dicts ++ [message]) context).read now.dicts.length = message := by
    intro context
    simp [World.read]
  rw [World.values, List.map_append, List.map_cons, hnew, hmap (List.take_subset k refs),
    List.drop_drop, hmap (List.drop_subset (k + cut) refs), hsame, List.map_take, List.map_drop]

theorem summary_keeps_context (R : Request) (meanwhile : World → World) (s : World)
    (hs : s.Valid) (hgrows : s.dicts.length ≤ (meanwhile s).dicts.length)
    (hroles : ∀ ref ∈ s.context, ((meanwhile s).read ref).isUser = (s.read ref).isUser)
    (hsplit : ¬Splits (found R meanwhile s).values (max 0 R.preservePromptMessages).toNat) :
    applyPinnedPromptSummary R meanwhile s = found R meanwhile s ∨
      ∃ cut, Summarised R (found R meanwhile s) (applyPinnedPromptSummary R meanwhile s) cut := by
  unfold applyPinnedPromptSummary found at *
  cases hplan : plan R s with
  | none => exact .inl rfl
  | some held =>
    rw [hplan] at hsplit
    dsimp only at hsplit ⊢
    obtain ⟨hmessages, hcount, hstart⟩ := plan_eq_some hplan
    generalize meanwhile s = now at hgrows hroles hsplit ⊢
    unfold finish
    split
    · exact .inl rfl
    · rename_i text htext
      split
      · exact .inl rfl
      · rename_i hsame
        rw [not_not, hmessages] at hsame
        have hturn : IsTurnStart now.values R.recentTurns
            (held.preserveCount + held.recentStart) := by
          refine hstart.of_roles ?_
          rw [hsame, World.values, List.map_map, List.map_map]
          exact List.map_congr_left hroles
        refine .inr ⟨held.preserveCount + held.recentStart, ?_⟩
        exact {
          start := hturn
          pinned := by omega
          values := by
            refine ⟨text, htext, ?_⟩
            rw [hmessages, ← hcount]
            exact values_written (fun ref href => (hs ref href).trans_le hgrows) hsame _ _ _
          together := fun i j hpair => kept_iff hturn.1 hsplit hpair }

end Summaries

section Examples

def said (role content : String) : ContextMessage :=
  .dict (.cons "role" (.str role) (.cons "content" (.str content) .nil))

def greeted : World where
  dicts := [said "system" "Be brief.", said "user" "Hi", said "assistant" "Hello",
    said "user" "Bye"]
  context := [0, 1, 2, 3]

def greeting (preserved : ℤ) : Request where
  format _ := "USER: Hi\n\nASSISTANT: Hello".toList
  preservePromptMessages := preserved
  recentTurns := 1
  answer := some " They greeted. ".toList

/-- During the wait the last message is reworded in place, and a message outside is made. -/
def reword (s : World) : World :=
  { s with dicts := s.dicts.set 3 (said "user" "Goodbye") ++ [said "assistant" "See you"] }

/-- The last turn is kept as it was reworded; a message that joins the context leaves it be. -/
theorem summary_keeps_context_closed :
    (∃ cut, Summarised (greeting 1) (found (greeting 1) reword greeted)
      (applyPinnedPromptSummary (greeting 1) reword greeted) cut) ∧
      applyPinnedPromptSummary (greeting 1) (fun s => { reword s with context := s.context ++ [4] })
        greeted = { reword greeted with context := greeted.context ++ [4] } := by
  have hvalid : greeted.Valid := by
    unfold World.Valid
    decide
  refine ⟨(summary_keeps_context (greeting 1) reword greeted hvalid (by decide) (by decide)
    ?_).resolve_left (by decide), by decide⟩
  rintro ⟨i, j, ⟨-, call, result, id, hcall, -, hid, -⟩, hi, -⟩
  obtain rfl : i = 0 := Nat.lt_one_iff.mp hi
  cases hcall
  exact absurd hid List.not_mem_nil

/-- A tool call that the prompt ends with, and its result after it. -/
def asked : World where
  dicts := [said "user" "Hi", .dict (.cons "role" (.str "assistant") (.cons "tool_calls"
      (.arr (.cons (.obj (.cons "id" (.str "call_1") .nil)) .nil)) .nil)),
    .dict (.cons "role" (.str "tool") (.cons "tool_call_id" (.str "call_1") .nil)),
    said "user" "Bye"]
  context := [0, 1, 2, 3]

def talked : World where
  dicts := [said "user" "Hi", said "assistant" "Hello", said "user" "Bye"]
  context := [0, 1, 2]

/-- The last message changes its role in place. -/
def relabel (s : World) : World :=
  { s with dicts := s.dicts.set 2 (said "assistant" "Bye") }

theorem paired_asked : Paired (found (greeting 2) id asked).values 1 2 := by
  refine ⟨⟨by decide, fun n hn hn' => ?_⟩, _, _, .str "call_1", rfl, rfl, ?_, ?_⟩
  · obtain rfl : n = 2 := by omega
    decide
  · decide
  · decide

/-- A prompt that ends between a call and its result, and a role that changes in place: the
result is left out, and the last messages do not start with the last user message. -/
theorem summary_tears_context :
    (¬∀ (R : Request) (meanwhile : World → World) (s : World), s.Valid →
        s.dicts.length ≤ (meanwhile s).dicts.length →
        (∀ ref ∈ s.context, ((meanwhile s).read ref).isUser = (s.read ref).isUser) →
        applyPinnedPromptSummary R meanwhile s = found R meanwhile s ∨
          ∃ cut, Summarised R (found R meanwhile s) (applyPinnedPromptSummary R meanwhile s)
            cut) ∧
      ¬∀ (R : Request) (meanwhile : World → World) (s : World), s.Valid →
        s.dicts.length ≤ (meanwhile s).dicts.length →
        ¬Splits (found R meanwhile s).values (max 0 R.preservePromptMessages).toNat →
        applyPinnedPromptSummary R meanwhile s = found R meanwhile s ∨
          ∃ cut, Summarised R (found R meanwhile s) (applyPinnedPromptSummary R meanwhile s)
            cut := by
  have huser : ∀ {messages : List ContextMessage} {cut : ℕ},
      messages[cut]?.any ContextMessage.isUser = true → cut < messages.length := by
    intro messages cut h
    by_contra hlt
    rw [List.getElem?_eq_none (by omega)] at h
    cases h
  constructor
  · intro h
    have hvalid : asked.Valid := by
      unfold World.Valid
      decide
    obtain ⟨cut, hcut⟩ := (h (greeting 2) id asked hvalid le_rfl fun _ _ => rfl).resolve_left
      (by decide)
    have hpinned : 2 ≤ cut := hcut.pinned
    have hkept := (hcut.together 1 2 paired_asked).mp (.inl (by decide))
    rcases hkept with hlt | hle
    · exact absurd hlt (by decide)
    · obtain rfl : cut = 2 := by omega
      exact absurd hcut.start.1 (by decide)
  · intro h
    have hvalid : talked.Valid := by
      unfold World.Valid
      decide
    have hwhole : ¬Splits (found (greeting 0) relabel talked).values 0 := by
      rintro ⟨i, j, -, hi, -⟩
      omega
    obtain ⟨cut, hcut⟩ := (h (greeting 0) relabel talked hvalid le_rfl hwhole).resolve_left
      (by decide)
    have hlt : cut < 3 := huser hcut.start.1
    obtain ⟨text, -, hvalues⟩ := hcut.values
    have hlength := congrArg List.length hvalues
    -- what is written has two messages, so the cut is at the last, which is no user message
    have htwo : (applyPinnedPromptSummary (greeting 0) relabel talked).values.length = 2 := by
      decide
    rw [htwo, List.length_append, List.length_cons, List.length_drop] at hlength
    have hthree : (found (greeting 0) relabel talked).values.length = 3 := by decide
    have hnone : ((found (greeting 0) relabel talked).values.take
        (max 0 (greeting 0).preservePromptMessages).toNat).length = 0 := by decide
    obtain rfl : cut = 2 := by omega
    exact absurd hcut.start.1 (by decide)

end Examples

end VoiceAgent.PromptSummary
