import VoiceAgent.SpokenExactly

/-!
Which turns speak only for the envelope they own. The response is let through to speech once a
known action is declared and what has arrived of it can be no repeat any more; the whole envelope
is judged only behind that. What is let through of a malformed envelope has then been said, and so
has the response to which a missing upload is the answer.
-/
namespace VoiceAgent.OwnedSpeech

open StreamingEvents JsonValues ActionEnvelope EnvelopeSpeech SpokenExactly
open JsonStream (feed_done feed_nil)

section Gate
variable {T : TextOps} {g : RepeatGuard} {chunks : List Text} {content : Text}

/-- Every chunk that brings text of the response comes behind a known action. -/
def Opened (T : TextOps) (chunks : List Text) : Prop :=
  ∀ before content rest, chunks = before ++ content :: rest →
    decodedResponse T (before ++ [content]) ≠ decodedResponse T before →
      normalizeTurnAction T (some (textJson (declaredAction T (before ++ [content])))) ∈ turnActions

/-- What has arrived of the response is no repeat of a recent reply, whatever follows. -/
def Fresh (T : TextOps) (g : RepeatGuard) (chunks : List Text) : Prop :=
  decodedResponse T chunks ≠ [] ∧
    (g.couldBeRepeatPrefix T (decodedResponse T chunks) = false ∨
      (feedAll T (.of "response") chunks).1.done = true ∧
        g.isRepeat T (decodedResponse T chunks) = false)

/-- Text of the response is sent to speech before the envelope is whole. -/
def LetThrough (T : TextOps) (g : RepeatGuard) (chunks : List Text) : Prop :=
  ∃ before rest, chunks = before ++ rest ∧ Opened T before ∧ Fresh T g before

theorem opened_concat :
    Opened T (chunks ++ [content]) ↔
      Opened T chunks ∧
        (decodedResponse T (chunks ++ [content]) ≠ decodedResponse T chunks →
          normalizeTurnAction T (some (textJson (declaredAction T (chunks ++ [content])))) ∈
            turnActions) := by
  constructor
  · intro h
    refine ⟨fun before c rest hsplit => h before c (rest ++ [content]) ?_, h chunks content [] rfl⟩
    rw [hsplit, List.append_assoc, List.cons_append]
  · intro ⟨hbefore, hlast⟩ before c rest hsplit
    cases rest using List.reverseRecOn with
    | nil =>
      obtain ⟨rfl, hc⟩ := List.append_inj' hsplit rfl
      obtain rfl : content = c := by simpa using hc
      exact hlast
    | append_singleton rest last =>
      rw [← List.cons_append, ← List.append_assoc] at hsplit
      exact hbefore before c rest (List.append_inj_left' hsplit rfl)

theorem letThrough_concat :
    LetThrough T g (chunks ++ [content]) ↔
      LetThrough T g chunks ∨
        Opened T (chunks ++ [content]) ∧ Fresh T g (chunks ++ [content]) := by
  constructor
  · rintro ⟨before, rest, hsplit, hopened, hfresh⟩
    cases rest using List.reverseRecOn with
    | nil =>
      rw [List.append_nil] at hsplit
      exact .inr (hsplit ▸ ⟨hopened, hfresh⟩)
    | append_singleton rest last =>
      rw [← List.append_assoc] at hsplit
      exact .inl ⟨before, rest, List.append_inj_left' hsplit rfl, hopened, hfresh⟩
  · rintro (⟨before, rest, rfl, hopened, hfresh⟩ | ⟨hopened, hfresh⟩)
    · exact ⟨before, rest ++ [content], List.append_assoc .., hopened, hfresh⟩
    · exact ⟨_, [], (List.append_nil _).symm, hopened, hfresh⟩

theorem not_letThrough_nil : ¬LetThrough T g [] := by
  rintro ⟨before, rest, hsplit, -, hfresh⟩
  obtain ⟨rfl, -⟩ := List.append_eq_nil_iff.mp hsplit.symm
  exact hfresh.1 rfl

/-- A repeat could be the beginning of one. -/
theorem couldBe_of_isRepeat {text : Text} (h : g.isRepeat T text = true) :
    g.couldBeRepeatPrefix T text = true :=
  (couldBeRepeatPrefix_iff T g text).mpr
    ⟨_, (of_decide_eq_true h).2, List.prefix_refl (normalizeText T text)⟩

theorem not_fresh_of_repeat (h : g.isRepeat T (decodedResponse T chunks) = true) :
    ¬Fresh T g chunks := by
  rintro ⟨-, hcould | ⟨-, hnew⟩⟩
  · exact absurd (hcould.symm.trans (couldBe_of_isRepeat h)) (by simp)
  · exact absurd (hnew.symm.trans h) (by simp)

end Gate

section Run
variable {T : TextOps} {E : Surroundings} {g : RepeatGuard} {chunks : List Text} {content : Text}
  {r : Reading}

/-- How far the gate and the guard have come with a response. -/
structure Judged (T : TextOps) (g : RepeatGuard) (chunks : List Text) (r : Reading) : Prop where
  shut : r.gated = true → ¬Opened T chunks
  opened : r.gated = false → r.streamReleased = false → Opened T chunks
  waits : r.guard.suppressing = false → r.guard = g
  bridged : r.guard.suppressing = true →
    r.responseField.done = true ∧ g.isRepeat T (decodedResponse T chunks) = true
  through : LetThrough T g chunks ↔ r.streamReleased = true ∧ r.guard.suppressing = false

theorem Judged.start (hs : g.suppressing = false) : Judged T g [] { guard := g } where
  shut h := by cases h
  opened _ _ before content rest hsplit := absurd hsplit (by simp)
  waits _ := rfl
  bridged h := absurd (hs.symm.trans h) (by simp)
  through := ⟨fun h => absurd h not_letThrough_nil, fun h => by cases h.1⟩

/-- A reading that is open, and whose guard has bridged nothing. -/
theorem Judged.of_open (hopen : r.gated = false) (hguard : r.guard = g)
    (hgs : g.suppressing = false) (hopened : Opened T chunks)
    (hthrough : LetThrough T g chunks ↔ r.streamReleased = true) : Judged T g chunks r where
  shut hg := absurd (hopen.symm.trans hg) (by simp)
  opened _ _ := hopened
  waits _ := hguard
  bridged hs := absurd (hgs.symm.trans (hguard ▸ hs)) (by simp)
  through := by rw [hthrough, hguard, hgs, eq_self_iff_true, and_true]

/-- A chunk without text changes nothing. -/
theorem Judged.silent (h : Judged T g chunks r) : Judged T g (chunks ++ [[]]) r := by
  have hfield : ∀ s : FieldStreamer, feedAll T s (chunks ++ [[]]) = feedAll T s chunks := by
    intro s
    rw [feedAll_concat, feed_nil, List.append_nil]
  have hsame : decodedResponse T (chunks ++ [[]]) = decodedResponse T chunks :=
    congrArg Prod.snd (hfield _)
  have hopened : Opened T (chunks ++ [[]]) ↔ Opened T chunks := by
    rw [opened_concat]
    exact ⟨And.left, fun h => ⟨h, fun hne => absurd hsame hne⟩⟩
  have hthrough : LetThrough T g (chunks ++ [[]]) ↔ LetThrough T g chunks := by
    have hfresh : Fresh T g (chunks ++ [[]]) ↔ Fresh T g chunks := by
      rw [Fresh, Fresh, hsame, hfield]
    rw [letThrough_concat, hopened, hfresh]
    exact ⟨fun h => h.elim id fun h => ⟨chunks, [], (List.append_nil _).symm, h⟩, .inl⟩
  refine ⟨?_, ?_, h.waits, ?_, hthrough.trans h.through⟩
  · rw [hopened]
    exact h.shut
  · rw [hopened]
    exact h.opened
  · rw [hsame]
    exact h.bridged

/-- Behind the release the text goes on as it comes, or nothing of it follows. -/
theorem Judged.goes_on (hreads : Reads T chunks r) (h : Judged T g chunks r)
    (hreleased : r.streamReleased = true) (hopen : r.gated = false) :
    Judged T g (chunks ++ [content])
      ((Reading.heard T E r content).speak (r.responseField.feed T.chr content).2) := by
  have hrepeat : r.guard.suppressing = true →
      g.isRepeat T (decodedResponse T (chunks ++ [content])) = true := by
    intro hs
    obtain ⟨hdone, hrepeat⟩ := h.bridged hs
    rw [decodedResponse_concat hreads, feed_done hdone, List.append_nil]
    exact hrepeat
  refine ⟨fun hg => ?_, fun _ hw => ?_, h.waits, fun hs => ⟨?_, hrepeat hs⟩, ?_⟩
  · exact absurd (hopen.symm.trans hg) (by simp)
  · exact absurd (hreleased.symm.trans hw) (by simp)
  · have hstays : r.responseField.feed T.chr content = (r.responseField, []) :=
      feed_done (h.bridged hs).1 content
    exact (congrArg (fun p => p.1.done) hstays).trans (h.bridged hs).1
  · rw [letThrough_concat, h.through]
    refine ⟨fun hcases => hcases.elim id fun hfresh => ⟨hreleased, ?_⟩, .inl⟩
    exact Bool.eq_false_iff.mpr fun hs => not_fresh_of_repeat (hrepeat hs) hfresh.2

/-- A response that waits is judged with what the chunk brings of it. -/
theorem Judged.judge (hreads : Reads T chunks r) (h : Judged T g chunks r)
    (hwaits : r.streamReleased = false) (hopen : r.gated = false) (he : g.emitted = false)
    (hopened : Opened T (chunks ++ [content])) :
    Judged T g (chunks ++ [content])
      ((Reading.heard T E r content).release T (r.responseField.feed T.chr content).2) := by
  have hs : r.guard.suppressing = false := (hreads.spoken.waiting hwaits).2.2.2
  have hguard : (Reading.heard T E r content).guard = g := h.waits hs
  have hgs : g.suppressing = false := hguard ▸ hs
  have hgated : (Reading.heard T E r content).gated = false := hopen
  have hheard : (Reading.heard T E r content).streamReleased = false := hwaits
  have hbuffer : (Reading.heard T E r content).responseBuffer ++
      (r.responseField.feed T.chr content).2 = decodedResponse T (chunks ++ [content]) := by
    rw [decodedResponse_concat hreads, ← hreads.spoken.buffered hwaits hopen]
    rfl
  have hfield : (Reading.heard T E r content).responseField =
      (feedAll T (.of "response") (chunks ++ [content])).1 :=
    (responseField_concat hreads).symm
  have hearlier : ¬LetThrough T g chunks := fun hthrough =>
    absurd (hwaits.symm.trans (h.through.mp hthrough).1) (by simp)
  have hfresh : LetThrough T g (chunks ++ [content]) ↔ Fresh T g (chunks ++ [content]) := by
    rw [letThrough_concat]
    exact ⟨fun hcases => (hcases.resolve_left hearlier).2, fun hfresh => .inr ⟨hopened, hfresh⟩⟩
  unfold Reading.release
  rw [if_neg (by simp [hgated]), if_neg (by simp [hheard]), hbuffer]
  dsimp only
  by_cases hdone : decodedResponse T (chunks ++ [content]) ≠ [] ∧
      (Reading.heard T E r content).responseField.done = true
  · -- the response is complete: a repeat is bridged, anything else goes through
    rw [if_pos hdone, hguard]
    cases hrepeat : g.isRepeat T (decodedResponse T (chunks ++ [content])) with
    | true =>
      have hfiller : g.bridgeFiller T (decodedResponse T (chunks ++ [content])) =
          (some g.nextFiller,
            { g with
              suppressing := true
              detected := true
              emitted := true
              filler := g.nextFiller
              fillerIndex := g.fillerIndex + 1 }) :=
        if_neg (by simp [he, hgs, hrepeat])
      rw [hfiller]
      refine ⟨fun hg => absurd (hgated.symm.trans hg) (by simp), fun _ hw => (by cases hw),
        fun hns => (by cases hns), fun _ => ⟨hdone.2, hrepeat⟩, ?_⟩
      rw [hfresh]
      exact ⟨fun hnew => absurd hnew (not_fresh_of_repeat hrepeat), fun hns => (by cases hns.2)⟩
    | false =>
      have hnone : g.bridgeFiller T (decodedResponse T (chunks ++ [content])) = (none, g) :=
        if_pos (by simp [hrepeat])
      rw [hnone]
      refine .of_open hgated rfl hgs hopened (hfresh.trans ⟨fun _ => rfl, fun _ => ?_⟩)
      exact ⟨hdone.1, .inr ⟨hfield ▸ hdone.2, hrepeat⟩⟩
  rw [if_neg hdone, hguard]
  by_cases hnew : decodedResponse T (chunks ++ [content]) ≠ [] ∧
      g.couldBeRepeatPrefix T (decodedResponse T (chunks ++ [content])) = false
  · -- it can be no repeat any more
    rw [if_pos hnew]
    refine .of_open hgated rfl hgs hopened (hfresh.trans ⟨fun _ => rfl, fun _ => ?_⟩)
    exact ⟨hnew.1, .inl hnew.2⟩
  · rw [if_neg hnew]
    refine .of_open hgated rfl hgs hopened (hfresh.trans ⟨?_, fun hr => ?_⟩)
    swap
    · exact absurd (hheard.symm.trans hr) (by simp)
    rintro ⟨hsome, hcould | ⟨hend, -⟩⟩
    · exact absurd ⟨hsome, hcould⟩ hnew
    · exact absurd ⟨hsome, hfield ▸ hend⟩ hdone

/-- A chunk of a response that is neither withheld nor released. -/
theorem Judged.listen (hreads : Reads T chunks r) (h : Judged T g chunks r)
    (hwaits : r.streamReleased = false) (hopen : r.gated = false) (he : g.emitted = false) :
    Judged T g (chunks ++ [content])
      (((Reading.heard T E r content).gate T (r.responseField.feed T.chr content).2).release T
        (r.responseField.feed T.chr content).2) := by
  have hopened := h.opened hopen hwaits
  have hspoke : r.spoke = false := (hreads.spoken.waiting hwaits).1
  have hdelta : decodedResponse T (chunks ++ [content]) ≠ decodedResponse T chunks ↔
      (r.responseField.feed T.chr content).2 ≠ [] := by
    rw [decodedResponse_concat hreads, ne_eq, List.append_right_eq_self]
  have hnext : Opened T (chunks ++ [content]) ↔
      ((r.responseField.feed T.chr content).2 ≠ [] →
        normalizeTurnAction T (some (textJson (declaredAction T (chunks ++ [content])))) ∈
          turnActions) := by
    rw [opened_concat, hdelta]
    exact ⟨And.right, fun hlast => ⟨hopened, hlast⟩⟩
  rw [declaredAction_concat (E := E) hreads] at hnext
  by_cases hknown : (r.responseField.feed T.chr content).2 ≠ [] →
      normalizeTurnAction T (some (textJson (Reading.heard T E r content).actionText)) ∈
        turnActions
  · rw [gate_known (r := Reading.heard T E r content) hopen hknown]
    exact h.judge hreads hwaits hopen he (hnext.mpr hknown)
  · obtain ⟨hne, hunknown⟩ := Classical.not_imp.mp hknown
    have hshut : ((Reading.heard T E r content).gate T
        (r.responseField.feed T.chr content).2).gated = true := by
      rw [gate_of_text (r := Reading.heard T E r content) hne hopen hspoke]
      exact decide_eq_true hunknown
    obtain ⟨-, -, hfield, hguard⟩ := gate_keeps T (Reading.heard T E r content)
      (r.responseField.feed T.chr content).2
    have hs : r.guard.suppressing = false := (hreads.spoken.waiting hwaits).2.2.2
    have hreleased : ((Reading.heard T E r content).gate T
        (r.responseField.feed T.chr content).2).streamReleased = false := by
      rw [Reading.gate, if_pos ⟨hne, hopen, hspoke⟩]
      exact hwaits
    rw [Reading.release, if_pos hshut]
    refine ⟨fun _ hall => hknown (hnext.mp hall), fun hg => ?_, fun _ => ?_, fun hsup => ?_, ?_⟩
    · exact absurd (hshut.symm.trans hg) (by simp)
    · rw [hguard]
      exact h.waits hs
    · rw [hguard] at hsup
      exact absurd (hs.symm.trans hsup) (by simp)
    · rw [letThrough_concat, h.through, hreleased, hwaits]
      refine ⟨fun hcases => ?_, fun hr => by cases hr.1⟩
      rcases hcases with hr | ⟨hall, -⟩
      · cases hr.1
      · exact absurd (hnext.mp hall) hknown

/-- What is withheld stays withheld. -/
theorem Judged.withheld (hreads : Reads T chunks r) (h : Judged T g chunks r)
    (hshut : r.gated = true) :
    Judged T g (chunks ++ [content]) (Reading.heard T E r content) := by
  have hwaits : r.streamReleased = false := hreads.spoken.gated hshut
  have hs : r.guard.suppressing = false := (hreads.spoken.waiting hwaits).2.2.2
  have hclosed : ¬Opened T (chunks ++ [content]) := fun hall =>
    h.shut hshut (opened_concat.mp hall).1
  refine ⟨fun _ => hclosed, fun hg => absurd (hshut.symm.trans hg) (by simp), h.waits,
    fun hsup => absurd (hs.symm.trans hsup) (by simp), ?_⟩
  rw [letThrough_concat, h.through]
  exact ⟨fun hcases => hcases.elim id fun hall => absurd hall.1 hclosed, .inl⟩

theorem Judged.chunk (hreads : Reads T chunks r) (h : Judged T g chunks r)
    (he : g.emitted = false) : Judged T g (chunks ++ [content]) (r.chunk T E content) := by
  by_cases hc : content = []
  · subst hc
    rw [show r.chunk T E [] = r by simp [Reading.chunk]]
    exact h.silent
  rw [chunk_eq hc]
  by_cases hshut : r.gated = true
  · have hsame : (Reading.heard T E r content).gate T (r.responseField.feed T.chr content).2 =
        Reading.heard T E r content :=
      if_neg fun hgate => absurd (hshut.symm.trans hgate.2.1) (by simp)
    rw [hsame, Reading.release, if_pos (show (Reading.heard T E r content).gated = true from hshut)]
    exact h.withheld hreads hshut
  have hopen : r.gated = false := by simpa using hshut
  by_cases hreleased : r.streamReleased = true
  · have hspoke : r.spoke = true := (hreads.spoken.released hreleased).1
    have hsame : (Reading.heard T E r content).gate T (r.responseField.feed T.chr content).2 =
        Reading.heard T E r content :=
      if_neg fun hgate => absurd (hspoke.symm.trans hgate.2.2) (by simp)
    rw [hsame, Reading.release,
      if_neg (show ¬(Reading.heard T E r content).gated = true from hshut),
      if_pos (show (Reading.heard T E r content).streamReleased = true from hreleased)]
    exact h.goes_on hreads hreleased hopen
  · exact h.listen hreads (by simpa using hreleased) hopen he

theorem judged_all (T : TextOps) (E : Surroundings) (g : RepeatGuard) (chunks : List Text) :
    Judged T g.reset chunks (chunks.foldl (Reading.chunk T E) { guard := g.reset }) := by
  induction chunks using List.reverseRecOn with
  | nil => exact .start rfl
  | append_singleton chunks content ih =>
    rw [List.foldl_append]
    exact ih.chunk (reads_all g chunks) rfl

end Run

section Turns
variable {T : TextOps} {E : Surroundings} {g : RepeatGuard} {chunks : List Text}

/-- A filler has taken the place of the response. -/
def Bridged (turn : SpokenTurn) : Prop := turn.guard.suppressing = true

/-- A text is a response, as it is before it is cleaned or cleaned as it is spoken whole. -/
def Voices (spoken response : Text) : Prop :=
  cleanSpokenResponseArtifacts spoken = response ∨
    spoken = cleanSpokenResponseArtifacts response

/-- Nothing of a malformed envelope is streamed, and a turn says the response of the envelope it
owns in the end, or a filler. -/
structure SpeaksOwned (turn : SpokenTurn) : Prop where
  malformed : turn.parsed.fallsBack = true → turn.streamed = [] ∨ Bridged turn
  owned : Voices (pushed turn) turn.owned.response ∨ Bridged turn ∧ pushed turn ∈ bridgeFillers

/-- What the whole text of an envelope comes to. -/
def verdict (T : TextOps) (E : Surroundings) (text : Text) : NullMembers.Verdict :=
  (NullMembers.coerce T E (extractJsonObject T text)).verdict
    (decide (E.uploadedAttachmentAvailable = some false))

/-- The response that the envelope has, or the one that takes its place. -/
def ownResponse (T : TextOps) (E : Surroundings) (text : Text) : Text :=
  (NullMembers.outcomeOf T (NullMembers.coerce T E (extractJsonObject T text))
    (verdict T E text)).response

/-- The model claims a fallback itself. -/
def marked (T : TextOps) (E : Surroundings) (text : Text) : Bool :=
  (NullMembers.coerce T E (extractJsonObject T text)).marked

theorem parsed_outcome (hT : NullMembers.PythonTexts T) (E : Surroundings) (g : RepeatGuard)
    (chunks : List Text) :
    ((streamActionEnvelope T E g chunks).parsed.fallsBack = false ↔
        verdict T E chunks.flatten ≠ .fallback ∧ marked T E chunks.flatten = false) ∧
      (streamActionEnvelope T E g chunks).parsed.response = ownResponse T E chunks.flatten := by
  have houtcome := NullMembers.outcome_parsePayload hT E chunks.flatten
    (extractJsonObject T chunks.flatten)
  rw [parsed_eq, parseTurnResult]
  refine ⟨?_, congrArg NullMembers.Outcome.response houtcome⟩
  have hfalls := congrArg NullMembers.Outcome.fallsBack houtcome
  change TurnResult.fallsBack _ = NullMembers.Outcome.fallsBack (NullMembers.outcomeOf T _
    (verdict T E chunks.flatten)) at hfalls
  rw [hfalls, marked]
  cases verdict T E chunks.flatten with
  | fallback => simp [NullMembers.outcomeOf]
  | _ => simp [NullMembers.outcomeOf]

/-- What is spoken whole is the response as it is cleaned for that. -/
theorem voices_whole {result : TurnResult} {spoken : Option Text}
    (h : spoken = wholeResponse result) : Voices (spoken.getD []) result.response := by
  refine .inr ?_
  rw [h, wholeResponse]
  split
  · next hnone => exact hnone.symm
  · rfl

/-- The upload that an envelope routes to is missing: the sentence that asks for it is the
response that is owned, and is not spoken. -/
theorem missing_upload_unspoken :
    let chunks := ["\x7b\"turn_action\": \"analyze_attachment\", \"response\": \"Let me ".toList,
      "look.\", \"media_analysis_action\": \"new\"\x7d".toList]
    let fields := ((Fields.nil.set "turn_action" (.str "analyze_attachment")).set "response"
      (.str "Let me look.")).set "media_analysis_action" (.str "new")
    let turn := streamActionEnvelope (asciiText chunks.flatten fields)
      { hasUserAudio := true, uploadedAttachmentAvailable := some false, correction := none } {}
      chunks
    turn.parsed.fallsBack = false ∧ pushed turn = "Let me look.".toList ∧
      turn.owned.response =
        "Please upload or attach the media first, then I can take a look.".toList ∧
      ¬SpeaksOwned turn := by
  intro chunks fields turn
  obtain ⟨hfalls, hpushed, howned, hopen⟩ :
      turn.parsed.fallsBack = false ∧ pushed turn = "Let me look.".toList ∧
        turn.owned.response =
          "Please upload or attach the media first, then I can take a look.".toList ∧
        turn.guard.suppressing = false := by
    decide +kernel
  refine ⟨hfalls, hpushed, howned, fun h => ?_⟩
  rcases h.owned with hvoices | ⟨hbridged, -⟩
  · rw [Voices, hpushed, howned] at hvoices
    revert hvoices
    decide +kernel
  · exact absurd (hopen.symm.trans hbridged) (by simp)

end Turns

end VoiceAgent.OwnedSpeech
