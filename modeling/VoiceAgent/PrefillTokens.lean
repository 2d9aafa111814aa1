import Mathlib.Data.List.Infix
import VoiceAgent.SessionRules

/-!
Streaming prefill is the plain path in pieces. However the session's events, renders and
engine steps interleave, an answer's chunk ends an engine request whose chunks add up to
the render of the committed request. The texts that are rendered ahead of the commit are
beginnings of each other and of the text of the commit.
-/
namespace VoiceAgent.PrefillTokens

open StreamingEvents EngineRequest EngineLedger History Coroutine Interleaving StreamingSession
open SessionInvariant SessionRules

section Texts

/-- A longer text keeps what the end of a shorter one was trimmed to. -/
theorem rdropWhile_prefix_rdropWhile (p : Char → Bool) (text more : Text) :
    text.rdropWhile p <+: (text ++ more).rdropWhile p := by
  induction more using List.reverseRecOn with
  | nil => rw [List.append_nil]
  | append_singleton more c ih =>
    rw [← List.append_assoc]
    cases hc : p c with
    | true =>
      rw [List.rdropWhile_concat_pos _ _ _ hc]
      exact ih
    | false =>
      rw [List.rdropWhile_concat_neg _ _ _ (by simp [hc])]
      calc
        text.rdropWhile p <+: text := List.rdropWhile_prefix p text
        _ <+: text ++ more := List.prefix_append text more
        _ <+: text ++ more ++ [c] := List.prefix_append (text ++ more) [c]

theorem rdropWhile_mono (p : Char → Bool) {text whole : Text} (h : text <+: whole) :
    text.rdropWhile p <+: whole.rdropWhile p := by
  obtain ⟨more, rfl⟩ := h
  exact rdropWhile_prefix_rdropWhile p text more

theorem userText_mono {text whole : Text} (h : text <+: whole) (final : Bool) :
    userText text final <+: userText whole final := by
  cases final with
  | true => exact h
  | false =>
    have hwords : wholeWords text <+: wholeWords whole := rdropWhile_mono (· != ' ') h
    exact rdropWhile_mono isSpace hwords

theorem userText_begins (text : Text) : userText text false <+: text := by
  calc
    userText text false <+: wholeWords text := List.rdropWhile_prefix isSpace (wholeWords text)
    _ <+: text := List.rdropWhile_prefix (· != ' ') text

/-- What a prefill renders of a buffer stays at the beginning of what is rendered after an
append, by another prefill and by the commit, which renders the whole buffer. -/
theorem userText_append (text more : Text) :
    userText text false <+: userText (text ++ more) false ∧
      userText (text ++ more) true = text ++ more ∧ userText text false <+: text ++ more := by
  have hgrows := List.prefix_append text more
  exact ⟨userText_mono hgrows false, rfl, (userText_begins text).trans hgrows⟩

example : userText "turn it up".toList false = "turn it".toList := by decide

end Texts

variable {vllm : Vllm}

/-- The invariant without the parts that need a condition on the run. -/
theorem inv_anyTurn {p : SessionPool}
    (h : (streamingSession vllm).Reach anyTurn closedWorld (freshSession vllm) p) :
    Inv vllm False False none p.view.site p.shared :=
  inv_reach (h.mono (fun _ _ _ ha => ⟨ha, False.elim, False.elim⟩) fun _ _ he => he)

/-- The chunk of an answer completes the prompt of the commit, carries the parameters of
the answer and is the last chunk of its request. -/
theorem answer_chunk_whole {p : SessionPool}
    (h : (streamingSession vllm).Reach anyTurn closedWorld (freshSession vllm) p) {k : ℕ}
    {pre post : List InputChunk} {c : InputChunk} {a : Answer}
    (hc : (p.shared.requests k).yielded = pre ++ c :: post) (ha : c.answer = some a) :
    promptTokens (pre ++ [c]) = a.promptTokenIds ∧
      (a.responseId, a.request) ∈ p.shared.commits ∧
      (a.request, a.promptTokenIds) ∈ p.shared.rendered ∧
      c.samplingParams = some a.params ∧
      vllm.answerParams a.request a.promptTokenIds.length = .ok a.params ∧ post = [] := by
  have hi := inv_anyTurn h
  have hledger := hi.ledger k
  have hmem : c ∈ (p.shared.requests k).yielded := by simp [hc]
  obtain ⟨hcommit, hrender, hparams⟩ := hi.asked k a (hledger.known.2 c hmem a ha)
  obtain ⟨-, hwhole⟩ := hledger.chunks pre c post hc
  obtain ⟨htokens, hsampling⟩ := hwhole a ha
  refine ⟨htokens, hcommit, hrender, hsampling, hparams, ?_⟩
  -- a chunk after it would follow an answer
  cases post with
  | nil => rfl
  | cons d rest =>
    have hnext := hledger.chunks (pre ++ [c]) d rest (by simpa using hc)
    have hnone := hnext.1 c (by simp)
    rw [ha] at hnone
    cases hnone

/-- The first words are prefilled while the user speaks on; the commit adds the rest. -/
def prefilledCommit : List (System.Act Session Reply Task) :=
  [.turn .serve .go, .turn .serve .go, .turn .serve .go,
   .turn .serve (.receive (.append "hi there".toList)),
   .turn .serve (.rendered [] [1, 2]),
   .turn .engine (.engine 0 .begin), .turn .engine (.engine 0 .inputs),
   .turn .serve (.receive (.commit (some (.named 0)))),
   .turn .serve (.rendered [] [1, 2, 3]),
   .turn .engine (.engine 0 (.output {})), .turn .engine (.engine 0 .inputs)]

def afterCommit : SessionPool :=
  (streamingSession .accepting).play (freshSession .accepting) prefilledCommit

theorem answer_chunk_whole_sample :
    ∃ pre c a, (afterCommit.shared.requests 0).yielded = pre ++ [c] ∧ c.answer = some a ∧
      pre ≠ [] ∧ promptTokens (pre ++ [c]) = a.promptTokenIds ∧
      (a.responseId, a.request) ∈ afterCommit.shared.commits ∧
      (a.request, a.promptTokenIds) ∈ afterCommit.shared.rendered ∧
      c.samplingParams = some a.params := by
  have hreach : (streamingSession .accepting).Reach anyTurn closedWorld
      (freshSession .accepting) afterCommit := System.reach_play (by decide +kernel)
  have hsplit : ∃ d c, (afterCommit.shared.requests 0).yielded = [d] ++ c :: [] ∧
      c.answer ≠ none := ⟨_, _, rfl, by decide +kernel⟩
  obtain ⟨d, c, hc, hanswer⟩ := hsplit
  obtain ⟨a, ha⟩ := Option.ne_none_iff_exists'.mp hanswer
  obtain ⟨htokens, hcommit, hrender, hparams, -⟩ := answer_chunk_whole hreach hc ha
  exact ⟨[d], c, a, hc, ha, by simp, htokens, hcommit, hrender, hparams⟩

end VoiceAgent.PrefillTokens
