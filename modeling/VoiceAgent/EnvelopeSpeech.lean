import VoiceAgent.ActionEnvelope
import Mathlib.Data.List.Induction

/-!
What a turn of the Speaker says. The text streamed to speech is the response decoded so
far, or a filler for it, and it is held back for good where text of the response arrives before
a known action. What the turn says after the stream is for the envelope it owns in the end.
-/
namespace VoiceAgent.EnvelopeSpeech

open StreamingEvents JsonValues ActionEnvelope JsonStream

variable {T : TextOps} {E : Surroundings}

section Decoded

/-- A streamer after some chunks, with the text it has decoded. -/
def feedAll (T : TextOps) (s : FieldStreamer) (chunks : List Text) : FieldStreamer × Text :=
  Chunks.feedAll (JsonStringFieldStreamer.feed T.chr) s chunks

def decodedResponse (T : TextOps) (chunks : List Text) : Text :=
  (feedAll T (.of "response") chunks).2

def declaredAction (T : TextOps) (chunks : List Text) : Text :=
  (feedAll T (.of "turn_action") chunks).2

theorem feedAll_concat (s : FieldStreamer) (chunks : List Text) (content : Text) :
    feedAll T s (chunks ++ [content]) =
      (((feedAll T s chunks).1.feed T.chr content).1,
        (feedAll T s chunks).2 ++ ((feedAll T s chunks).1.feed T.chr content).2) :=
  Chunks.feedAll_concat s chunks content

end Decoded

section Reading
variable {D delta : Text} {r : Reading}

/-- What is spoken of a response that is decoded so far, and what the guard knows of it. -/
structure Spoken (D : Text) (r : Reading) : Prop where
  gated : r.gated = true → r.streamReleased = false
  waiting : r.streamReleased = false →
    r.spoke = false ∧ r.spokenText = [] ∧ r.guard.emitted = false ∧ r.guard.suppressing = false
  buffered : r.streamReleased = false → r.gated = false → r.responseBuffer = D
  released : r.streamReleased = true →
    r.spoke = true ∧ r.spokenText ≠ [] ∧
      (r.spokenText = D ∧ r.guard.suppressing = false ∨
        r.spokenText ∈ bridgeFillers ∧ r.guard.suppressing = true ∧ D ≠ [])

theorem nextFiller_mem (g : RepeatGuard) : g.nextFiller ∈ bridgeFillers := by
  have hlt : g.fillerIndex % bridgeFillers.length < bridgeFillers.length :=
    Nat.mod_lt _ (by decide)
  rw [RepeatGuard.nextFiller, List.getD_eq_getElem?_getD, List.getElem?_eq_getElem hlt]
  exact List.getElem_mem hlt

theorem filler_ne_nil {filler : Text} (h : filler ∈ bridgeFillers) : filler ≠ [] := by
  intro hnil
  rw [hnil] at h
  exact absurd h (by decide +kernel)

theorem Spoken.gate (h : Spoken D r) (delta : Text) : Spoken D (r.gate T delta) := by
  unfold Reading.gate
  split
  · next hopen =>
    obtain ⟨-, hgated, hspoke⟩ := hopen
    have hwaits : r.streamReleased = false := by
      by_contra hreleased
      rw [(h.released (by simpa using hreleased)).1] at hspoke
      cases hspoke
    exact ⟨fun _ => hwaits, h.waiting, fun hr _ => h.buffered hr hgated, h.released⟩
  · exact h

theorem Spoken.of_released (hreleased : r.streamReleased = true) (hopen : r.gated ≠ true)
    (h : r.spoke = true ∧ r.spokenText ≠ [] ∧
      (r.spokenText = D ∧ r.guard.suppressing = false ∨
        r.spokenText ∈ bridgeFillers ∧ r.guard.suppressing = true ∧ D ≠ [])) :
    Spoken D r where
  gated hg := absurd hg hopen
  waiting hw := absurd hreleased (by simp [hw])
  buffered hw _ := absurd hreleased (by simp [hw])
  released _ := h

/-- The first text that a response is released with. -/
theorem Spoken.of_first {spoken : Text} (hreleased : r.streamReleased = true)
    (hopen : r.gated ≠ true) (hsilent : r.spokenText = []) (hne : spoken ≠ [])
    (h : spoken = D ∧ r.guard.suppressing = false ∨
      spoken ∈ bridgeFillers ∧ r.guard.suppressing = true ∧ D ≠ []) :
    Spoken D (r.speak spoken) := by
  refine .of_released hreleased hopen ⟨?_, ?_, ?_⟩
  · simp [Reading.speak, hne]
  · simp [Reading.speak, hsilent, hne]
  · simpa [Reading.speak, hsilent] using h

theorem Spoken.release (h : Spoken D r) (hquiet : r.guard.suppressing = true → delta = []) :
    Spoken (D ++ delta) (r.release T delta) := by
  unfold Reading.release
  by_cases hgated : r.gated = true
  · rw [if_pos hgated]
    have hwaits := h.gated hgated
    exact ⟨h.gated, h.waiting, fun _ hopen => absurd hgated (by simp [hopen]),
      fun hreleased => absurd hwaits (by simp [hreleased])⟩
  rw [if_neg hgated]
  by_cases hreleased : r.streamReleased = true
  · rw [if_pos hreleased]
    obtain ⟨hspoke, hne, hsaid⟩ := h.released hreleased
    refine .of_released hreleased hgated ⟨?_, ?_, ?_⟩
    · simp [Reading.speak, hspoke]
    · simp [Reading.speak, hne]
    · rcases hsaid with ⟨hsaid, hs⟩ | ⟨hfiller, hs, hD⟩
      · exact .inl ⟨congrArg (· ++ delta) hsaid, hs⟩
      · refine .inr ⟨?_, hs, by simp [hD]⟩
        rw [hquiet hs]
        simpa [Reading.speak] using hfiller
  rw [if_neg hreleased]
  have hwaits : r.streamReleased = false := by simpa using hreleased
  obtain ⟨hspoke, hsilent, hemitted, hsuppressing⟩ := h.waiting hwaits
  have hbuffer : r.responseBuffer = D := h.buffered hwaits (by simpa using hgated)
  rw [hbuffer]
  dsimp only
  split
  · next hdone =>
    -- the response is complete: a repeat is bridged, anything else is spoken
    unfold RepeatGuard.bridgeFiller
    split
    · exact .of_first rfl hgated hsilent hdone.1 (.inl ⟨rfl, hsuppressing⟩)
    · have hfiller := nextFiller_mem r.guard
      exact .of_first rfl hgated hsilent (filler_ne_nil hfiller)
        (.inr ⟨hfiller, rfl, hdone.1⟩)
  · split
    · next hfresh => exact .of_first rfl hgated hsilent hfresh.1 (.inl ⟨rfl, hsuppressing⟩)
    · exact ⟨fun hg => absurd hg hgated, fun _ => ⟨hspoke, hsilent, hemitted, hsuppressing⟩,
        fun _ _ => rfl, fun hr => absurd hr hreleased⟩

/-- The guard withholds later text only once the response is complete. -/
theorem quiet_release (h : r.guard.suppressing = true → r.responseField.done = true) :
    (r.release T delta).guard.suppressing = true →
      (r.release T delta).responseField.done = true := by
  unfold Reading.release
  split
  · exact h
  · split
    · exact h
    · dsimp only
      split
      · next hdone => exact fun _ => hdone.2
      · split
        · exact h
        · exact h

theorem release_keeps (T : TextOps) (r : Reading) (delta : Text) :
    (r.release T delta).actionField = r.actionField ∧
      (r.release T delta).actionText = r.actionText ∧
      (r.release T delta).responseField = r.responseField ∧
      (r.release T delta).gated = r.gated := by
  unfold Reading.release
  split
  · exact ⟨rfl, rfl, rfl, rfl⟩
  · split
    · exact ⟨rfl, rfl, rfl, rfl⟩
    · dsimp only
      split
      · exact ⟨rfl, rfl, rfl, rfl⟩
      · split
        · exact ⟨rfl, rfl, rfl, rfl⟩
        · exact ⟨rfl, rfl, rfl, rfl⟩

theorem gate_keeps (T : TextOps) (r : Reading) (delta : Text) :
    (r.gate T delta).actionField = r.actionField ∧
      (r.gate T delta).actionText = r.actionText ∧
      (r.gate T delta).responseField = r.responseField ∧ (r.gate T delta).guard = r.guard := by
  unfold Reading.gate
  split
  · exact ⟨rfl, rfl, rfl, rfl⟩
  · exact ⟨rfl, rfl, rfl, rfl⟩

end Reading

section Run
variable {chunks : List Text} {content : Text} {r : Reading}

/-- A reading of some chunks. -/
structure Reads (T : TextOps) (chunks : List Text) (r : Reading) : Prop where
  action : (r.actionField, r.actionText) = feedAll T (.of "turn_action") chunks
  response : r.responseField = (feedAll T (.of "response") chunks).1
  spoken : Spoken (decodedResponse T chunks) r
  quiet : r.guard.suppressing = true → r.responseField.done = true

theorem Reads.start (g : RepeatGuard) : Reads T [] { guard := g.reset } where
  action := rfl
  response := rfl
  spoken :=
    { gated := fun hg => by cases hg
      waiting := fun _ => ⟨rfl, rfl, rfl, rfl⟩
      buffered := fun _ _ => rfl
      released := fun hr => by cases hr }
  quiet hs := by cases hs

/-- The reading before the chunk's text is judged: its streamers have read it. -/
def Reading.heard (T : TextOps) (E : Surroundings) (r : Reading) (content : Text) : Reading :=
  { r.listen T E content with responseField := (r.responseField.feed T.chr content).1 }

theorem chunk_eq (hc : content ≠ []) :
    r.chunk T E content =
      ((Reading.heard T E r content).gate T (r.responseField.feed T.chr content).2).release T
        (r.responseField.feed T.chr content).2 := by
  unfold Reading.chunk
  rw [if_neg hc]
  rfl

theorem decodedResponse_concat (h : Reads T chunks r) :
    decodedResponse T (chunks ++ [content]) =
      decodedResponse T chunks ++ (r.responseField.feed T.chr content).2 := by
  unfold decodedResponse
  rw [feedAll_concat, h.response]

theorem declaredAction_concat (h : Reads T chunks r) :
    declaredAction T (chunks ++ [content]) = (Reading.heard T E r content).actionText := by
  unfold declaredAction
  rw [feedAll_concat, ← h.action]
  rfl

theorem gate_of_text {delta : Text} (hne : delta ≠ []) (hgated : r.gated = false)
    (hspoke : r.spoke = false) :
    (r.gate T delta).gated =
      decide (normalizeTurnAction T (some (textJson r.actionText)) ∉ turnActions) := by
  rw [Reading.gate, if_pos ⟨hne, hgated, hspoke⟩]

theorem Reads.chunk (h : Reads T chunks r) :
    Reads T (chunks ++ [content]) (r.chunk T E content) := by
  by_cases hc : content = []
  · -- a chunk without text changes nothing
    subst hc
    have hchunk : r.chunk T E [] = r := by simp [Reading.chunk]
    have hsame : decodedResponse T (chunks ++ [[]]) = decodedResponse T chunks := by
      rw [decodedResponse_concat h, feed_nil, List.append_nil]
    rw [hchunk]
    refine ⟨?_, ?_, hsame ▸ h.spoken, h.quiet⟩
    · rw [feedAll_concat, feed_nil, List.append_nil]
      exact h.action
    · rw [feedAll_concat, feed_nil]
      exact h.response
  have hquiet : r.guard.suppressing = true →
      r.responseField.feed T.chr content = (r.responseField, []) :=
    fun hs => feed_done (h.quiet hs) content
  have hheard : Spoken (decodedResponse T chunks) (Reading.heard T E r content) :=
    ⟨h.spoken.gated, h.spoken.waiting, h.spoken.buffered, h.spoken.released⟩
  obtain ⟨hgaction, hgtext, hgfield, hgguard⟩ := gate_keeps T
    (Reading.heard T E r content) (r.responseField.feed T.chr content).2
  rw [chunk_eq hc]
  obtain ⟨hraction, hrtext, hrfield, hrgated⟩ := release_keeps T
    ((Reading.heard T E r content).gate T (r.responseField.feed T.chr content).2)
    (r.responseField.feed T.chr content).2
  constructor
  · rw [hraction, hrtext, hgaction, hgtext, feedAll_concat, ← h.action]
    rfl
  · rw [hrfield, hgfield, feedAll_concat, ← h.response]
    rfl
  · rw [decodedResponse_concat h]
    refine (hheard.gate _).release fun hs => ?_
    rw [hgguard] at hs
    exact congrArg Prod.snd (hquiet hs)
  · refine quiet_release fun hs => ?_
    rw [hgguard] at hs
    rw [hgfield]
    exact (congrArg (fun p => p.1.done) (hquiet hs)).trans (h.quiet hs)

theorem reads_all (g : RepeatGuard) (chunks : List Text) :
    Reads T chunks (chunks.foldl (Reading.chunk T E) { guard := g.reset }) := by
  induction chunks using List.reverseRecOn with
  | nil => exact .start g
  | append_singleton chunks content ih =>
    rw [List.foldl_append]
    exact ih.chunk

end Run

section After
variable {g : RepeatGuard} {result : TurnResult} {text : Text}

/-- The response of an envelope as it is spoken when it is spoken whole. -/
def wholeResponse (result : TurnResult) : Option Text :=
  if cleanSpokenResponseArtifacts result.response = [] then none
  else some (cleanSpokenResponseArtifacts result.response)

theorem handleTurnResult_guard (track : Bool) :
    (handleTurnResult T g result track).suppressing = g.suppressing ∧
      (handleTurnResult T g result track).emitted = g.emitted := by
  unfold handleTurnResult
  dsimp only
  split
  · exact ⟨rfl, rfl⟩
  · exact ⟨rfl, rfl⟩

theorem resolveTurn_guard (T : TextOps) (E : Surroundings) (g : RepeatGuard)
    (result : TurnResult) :
    (resolveTurn T E g result).2.suppressing = g.suppressing ∧
      (resolveTurn T E g result).2.emitted = g.emitted := by
  unfold resolveTurn
  split
  · exact handleTurnResult_guard _
  · exact handleTurnResult_guard _

theorem bridgeFiller_idle (h : g.emitted = true ∨ g.suppressing = true) :
    g.bridgeFiller T text = (none, g) := by
  rw [RepeatGuard.bridgeFiller, if_pos]
  rcases h with h | h <;> simp [h]

theorem speakResponse_suppressed (h : g.suppressing = true) :
    speakResponse T g result.response = (none, g) := by
  unfold speakResponse
  dsimp only
  split
  · rfl
  · rw [bridgeFiller_idle (.inr h)]
    simp [h]

theorem speakResponse_emitted (hs : g.suppressing = false) (he : g.emitted = true) :
    (speakResponse T g result.response).1 = wholeResponse result ∧
      (speakResponse T g result.response).2.suppressing = false := by
  unfold speakResponse wholeResponse
  dsimp only
  split
  · exact ⟨rfl, hs⟩
  · rw [bridgeFiller_idle (.inl he)]
    simp [hs]

theorem bridgeFiller_cases (g : RepeatGuard) (text : Text) :
    g.bridgeFiller T text = (none, g) ∨
      ∃ bridged, g.bridgeFiller T text = (some g.nextFiller, bridged) ∧
        bridged.suppressing = true := by
  unfold RepeatGuard.bridgeFiller
  split
  · exact .inl rfl
  · exact .inr ⟨_, rfl, rfl⟩

theorem speakResponse_fresh (hs : g.suppressing = false) :
    (speakResponse T g result.response).1 = wholeResponse result ∨
      ∃ filler ∈ bridgeFillers, (speakResponse T g result.response).1 = some filler ∧
        (speakResponse T g result.response).2.suppressing = true := by
  unfold speakResponse wholeResponse
  dsimp only
  split
  · exact .inl rfl
  · rcases bridgeFiller_cases (T := T) g (cleanSpokenResponseArtifacts result.response) with
      hnone | ⟨bridged, hfiller, hbridged⟩
    · rw [hnone]
      exact .inl (by simp [hs])
    · rw [hfiller]
      exact .inr ⟨_, nextFiller_mem g, rfl, hbridged⟩

end After

section Turns

/-- The guard as it is when the stream is over. -/
def guardAfter (T : TextOps) (r : Reading) : RepeatGuard :=
  if r.spokenText = [] then r.guard else r.guard.noteSpoken T r.spokenText

/-- A turn, from what its stream has been read as. -/
theorem turn_of_reading {g : RepeatGuard} {chunks : List Text} {r : Reading}
    (hr : chunks.foldl (Reading.chunk T E) { guard := g.reset } = r) :
    let turn := streamActionEnvelope T E g chunks
    let resolved := resolveTurn T E (guardAfter T r) turn.parsed
    let said :=
      if r.spoke = false ∨ turn.parsed.fallsBack = true then
        speakResponse T resolved.2 resolved.1.response
      else (none, resolved.2)
    turn.streamed = r.spokenText ∧ turn.owned = resolved.1 ∧ turn.spokenAfter = said.1 ∧
      turn.guard = said.2 := by
  subst hr
  exact ⟨rfl, rfl, rfl, rfl⟩

/-- What a turn says, by what its stream has been read as: what waits to the end is spoken as
the response that is owned, or a filler for it; what is released goes out as it is decoded, and
the owned response behind it if the envelope falls back; a filler is all that is said. -/
theorem spoken_of_turn {g : RepeatGuard} {chunks : List Text} {r : Reading}
    (hr : chunks.foldl (Reading.chunk T E) { guard := g.reset } = r) :
    let turn := streamActionEnvelope T E g chunks
    (turn.parsed.fallsBack = false → turn.owned = turn.parsed) ∧
    (r.streamReleased = false → turn.streamed = [] ∧
      (turn.spokenAfter = wholeResponse turn.owned ∨
        ∃ filler ∈ bridgeFillers, turn.spokenAfter = some filler ∧
          turn.guard.suppressing = true)) ∧
    (r.streamReleased = true → r.guard.suppressing = false →
      turn.streamed = decodedResponse T chunks ∧ turn.streamed ≠ [] ∧
        turn.spokenAfter = (if turn.parsed.fallsBack then wholeResponse turn.owned else none) ∧
        turn.guard.suppressing = false) ∧
    (r.streamReleased = true → r.guard.suppressing = true →
      turn.streamed ∈ bridgeFillers ∧ turn.spokenAfter = none ∧
        turn.guard.suppressing = true) := by
  have hreads : Reads T chunks r := hr ▸ reads_all g chunks
  intro turn
  obtain ⟨hstreamed, howned, hafter, hguardLast⟩ := turn_of_reading hr
  obtain ⟨hsuppressing, hemitted⟩ := resolveTurn_guard T E (guardAfter T r) turn.parsed
  refine ⟨fun hkept => ?_, fun hwaits => ?_, fun hreleased hs => ?_, fun hreleased hs => ?_⟩
  · have hparsed : ¬turn.parsed.fallsBack = true := fun hfalls => by
      cases hfalls.symm.trans hkept
    exact howned.trans (by rw [resolveTurn, if_neg hparsed])
  · obtain ⟨hspoke, hsilent, -, hs⟩ := hreads.spoken.waiting hwaits
    have hguard : (guardAfter T r).suppressing = false := by
      rw [guardAfter, if_pos hsilent]
      exact hs
    rw [if_pos (.inl hspoke)] at hafter hguardLast
    refine ⟨hstreamed.trans hsilent, ?_⟩
    rw [hafter, hguardLast, howned]
    exact speakResponse_fresh (hsuppressing.trans hguard)
  · obtain ⟨hspoke, hsaid, hall⟩ := hreads.spoken.released hreleased
    have hguard : (guardAfter T r).suppressing = false ∧ (guardAfter T r).emitted = true := by
      rw [guardAfter, if_neg hsaid]
      exact ⟨hs, rfl⟩
    have hdecoded : r.spokenText = decodedResponse T chunks := by
      rcases hall with ⟨hall, -⟩ | ⟨-, hbridged, -⟩
      · exact hall
      · exact absurd (hs.symm.trans hbridged) (by simp)
    refine ⟨hstreamed.trans hdecoded, hstreamed ▸ hsaid, ?_⟩
    rw [hafter, hguardLast, howned, hspoke]
    simp only [Bool.true_eq_false, false_or]
    split
    · exact speakResponse_emitted (hsuppressing.trans hguard.1) (hemitted.trans hguard.2)
    · exact ⟨rfl, hsuppressing.trans hguard.1⟩
  · obtain ⟨hspoke, hsaid, hall⟩ := hreads.spoken.released hreleased
    have hguard : (guardAfter T r).suppressing = true := by
      rw [guardAfter, if_neg hsaid]
      exact hs
    have hfiller : r.spokenText ∈ bridgeFillers := by
      rcases hall with ⟨-, hopen⟩ | ⟨hfiller, -⟩
      · exact absurd (hs.symm.trans hopen) (by simp)
      · exact hfiller
    refine ⟨hstreamed ▸ hfiller, ?_⟩
    rw [hafter, hguardLast]
    split
    · rw [speakResponse_suppressed (hsuppressing.trans hguard)]
      exact ⟨rfl, hsuppressing.trans hguard⟩
    · exact ⟨rfl, hsuppressing.trans hguard⟩

/-- Python on ASCII text, with a decoder for one object. -/
def asciiText (raw : Text) (fields : Fields) : TextOps where
  lower := List.map Char.toLower
  str value :=
    match value with
    | .null => "None".toList
    | .bool b => if b then "True".toList else "False".toList
    | .int n => (toString n).toList
    | .float text | .str text => text.toList
    | .arr _ | .obj _ => []
  isWordChar c := c.isAlphanum || c == '_'
  chr digits :=
    if digits.all fun c => c.isDigit || "abcdefABCDEF".toList.contains c then
      some (Char.ofNat (Nat.ofDigitChars 16 digits 0))
    else none
  rawDecode text := if text = raw then some (.obj fields) else none

end Turns

end VoiceAgent.EnvelopeSpeech
