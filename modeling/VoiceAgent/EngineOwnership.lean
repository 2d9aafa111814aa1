import VoiceAgent.SessionRules

/-!
Who holds an engine request. A request whose task has been started and not been
cancelled is the session's engine request, its standby, or in the hands of a response
task that renders a follow-up; when `serve` has left there is none. A follow-up that
is not rendered breaks this, and leaves an open request to nobody.
-/
namespace VoiceAgent.EngineOwnership

open StreamingEvents EngineRequest Coroutine Interleaving StreamingSession
open SessionInvariant SessionRules

variable {vllm : Vllm}

theorem inv_handsOver {p : SessionPool}
    (h : (streamingSession vllm).Reach (fun v t i => anyTurn v t i ∧ HandsOver v t i)
      closedWorld (freshSession vllm) p) :
    Inv vllm True False none p.view.site p.shared :=
  inv_reach (h.mono (fun _ _ _ ha => ⟨ha.1, fun _ => ha.2, False.elim⟩) fun _ _ he => he)

/-- A response task that is stopped with something in hand is running. -/
theorem not_quiet_of_holds {p : SessionPool} {owns keeps : Prop} {n k : ℕ}
    (hi : Inv vllm owns keeps none p.view.site p.shared)
    (hn : (p.view.site (.respond n)).holds = some k) : ¬ Quiet p.shared := by
  intro hq
  by_cases hlt : n < p.shared.answers.length
  · have hdone := hi.done n (hq n hlt)
    simp [hdone, Site.holds] at hn
  · have hborn := (hi.unborn n (by omega)).1
    simp [hborn, Site.holds] at hn

/-- No engine request is orphaned, as long as every follow-up that holds one is rendered. -/
theorem open_requests_held {p : SessionPool}
    (h : (streamingSession vllm).Reach (fun v t i => anyTurn v t i ∧ HandsOver v t i)
      closedWorld (freshSession vllm) p) :
    (∀ k, Open (p.shared.requests k) → p.shared.engine = some k ∨ p.shared.standby = some k ∨
      ∃ n, (p.view.site (.respond n)).holds = some k) ∧
    (p.view.site .serve = .closed → ∀ k, ¬ Open (p.shared.requests k)) := by
  have hi := inv_handsOver h
  have held : ∀ k, Open (p.shared.requests k) → p.shared.engine = some k ∨
      p.shared.standby = some k ∨ ∃ n, (p.view.site (.respond n)).holds = some k := by
    intro k hk
    rcases hi.owned trivial k hk with he | hs | hn | hr
    · exact .inl he
    · exact .inr (.inl hs)
    · cases hn
    · exact .inr (.inr hr)
  refine ⟨held, fun hclosed k hk => ?_⟩
  obtain ⟨hq, he, hs⟩ := hi.shut hclosed
  rcases held k hk with hengine | hstandby | ⟨n, hn⟩
  · simp [he] at hengine
  · simp [hs] at hstandby
  · exact not_quiet_of_holds hi hn hq

section Scripts

instance (r : Request) : Decidable (Open r) :=
  inferInstanceAs (Decidable (_ ∧ _))

instance (v : SessionView) (t : Task) (i : Reply) : Decidable (HandsOver v t i) :=
  inferInstanceAs (Decidable (∀ k ∈ (v.site t).holds, _))

/-- An answer that ends in a tool call, up to the render of the follow-up. -/
def toolCall : List (System.Act Session Reply Task) :=
  [.turn .serve .go, .turn .serve .go, .turn .serve .go,
   .turn .serve (.receive (.commit (some (.named 0)))), .turn .serve (.rendered [] [1]),
   .turn (.respond 0) .go,
   .turn (.respond 0) (.chunk ⟨[⟨{ toolCalls := [{ index := 0 }] }, some .toolCalls⟩]⟩),
   .turn (.respond 0) .go, .turn (.respond 0) .go, .turn (.respond 0) .streamEnd]

def rendered : List (System.Act Session Reply Task) :=
  toolCall ++ [.turn (.respond 0) (.rendered [] [1, 2])]

theorem open_requests_held_toolCall :
    let p := (streamingSession .accepting).play (freshSession .accepting) rendered
    Open (p.shared.requests 1) ∧ (p.shared.engine = some 1 ∨ p.shared.standby = some 1 ∨
      ∃ n, (p.view.site (.respond n)).holds = some 1) := by
  intro p
  have hreach : (streamingSession .accepting).Reach (fun v t i => anyTurn v t i ∧ HandsOver v t i)
      closedWorld (freshSession .accepting) p := System.reach_play (by decide +kernel)
  have hopen : Open (p.shared.requests 1) := by decide +kernel
  exact ⟨hopen, (open_requests_held hreach).1 1 hopen⟩

def refused : List (System.Act Session Reply Task) :=
  toolCall ++ [.turn (.respond 0) (.failed "render"), .turn (.respond 0) .go,
    .turn (.respond 0) .go]

/-- The follow-up fails to render: its standby stays open, and nobody holds it. -/
theorem refused_follow_up_orphans :
    ∃ p, (streamingSession .accepting).Reach anyTurn closedWorld (freshSession .accepting) p ∧
      ∃ k, Open (p.shared.requests k) ∧ ¬ (p.shared.engine = some k ∨
        p.shared.standby = some k ∨ ∃ n, (p.view.site (.respond n)).holds = some k) := by
  let p := (streamingSession .accepting).play (freshSession .accepting) refused
  have hreach : (streamingSession .accepting).Reach anyTurn closedWorld
      (freshSession .accepting) p := System.reach_play (by decide +kernel)
  have hquiet : Quiet p.shared := by
    show ∀ n < p.shared.answers.length, p.shared.ended n = true
    decide +kernel
  refine ⟨p, hreach, 1, by decide +kernel, ?_⟩
  rintro (he | hs | ⟨n, hn⟩)
  · revert he
    decide +kernel
  · revert hs
    decide +kernel
  · have hi : Inv .accepting False False none p.view.site p.shared :=
      inv_reach (hreach.mono (fun _ _ _ ha => ⟨ha, False.elim, False.elim⟩) fun _ _ he => he)
    exact not_quiet_of_holds hi hn hquiet

end Scripts

end VoiceAgent.EngineOwnership
