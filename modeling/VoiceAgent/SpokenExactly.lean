import VoiceAgent.FieldReading
import VoiceAgent.NullMembers

/-!
The turn of an envelope that declares its action first and does not fall back. What is sent to
speech is the response as it is decoded, or the filler for a repeat: a repeat is held back as
long as what has arrived of it may still become one.
-/
namespace VoiceAgent.SpokenExactly

open StreamingEvents JsonValues JsonText ActionEnvelope EnvelopeSpeech FieldReading
open JsonStream (advanceToString_phase consume_phase feed_append feed_done feed_inString feed_nil
  feed_search feedAll_flatten)

section Normalized
variable {T : TextOps} {a b : Text}

/-- More text extends the last word or begins new ones. -/
theorem splitOnP_append (a b : Text) :
    ∃ init last next rest, a.splitOnP isSpace = init ++ [last] ∧
      b.splitOnP isSpace = next :: rest ∧
      (a ++ b).splitOnP isSpace = init ++ (last ++ next) :: rest := by
  induction a with
  | nil =>
    obtain ⟨next, rest, hb⟩ := List.exists_cons_of_ne_nil (List.splitOnP_ne_nil isSpace b)
    exact ⟨[], [], next, rest, rfl, hb, hb⟩
  | cons c a ih =>
    obtain ⟨init, last, next, rest, ha, hb, hab⟩ := ih
    rw [List.cons_append, List.splitOnP_cons_eq_if_modifyHead, List.splitOnP_cons_eq_if_modifyHead,
      ha, hab]
    by_cases hc : isSpace c = true
    · rw [if_pos hc, if_pos hc]
      exact ⟨[] :: init, last, next, rest, rfl, hb, rfl⟩
    · rw [if_neg hc, if_neg hc]
      cases init with
      | nil => exact ⟨[], c :: last, next, rest, rfl, hb, rfl⟩
      | cons word init => exact ⟨(c :: word) :: init, last, next, rest, rfl, hb, rfl⟩

theorem intercalate_begins (sep : Text) (words : List Text) (last next : Text)
    (rest : List Text) :
    sep.intercalate (words ++ [last]) <+: sep.intercalate (words ++ (last ++ next) :: rest) := by
  induction words with
  | nil =>
    rw [List.nil_append, List.nil_append, List.intercalate_singleton]
    cases rest with
    | nil =>
      rw [List.intercalate_singleton]
      exact List.prefix_append _ _
    | cons word rest =>
      rw [List.intercalate_cons_cons, List.append_assoc, List.append_assoc]
      exact List.prefix_append _ _
  | cons word words ih =>
    rw [List.cons_append, List.cons_append, List.intercalate_cons_of_ne_nil (by simp),
      List.intercalate_cons_of_ne_nil (by simp)]
    exact (List.prefix_append_right_inj _).mpr ih

theorem intercalate_more (sep : Text) (words more : List Text) :
    sep.intercalate words <+: sep.intercalate (words ++ more) := by
  cases words using List.reverseRecOn with
  | nil => exact List.nil_prefix
  | append_singleton words last =>
    have hmore := intercalate_begins sep words last [] more
    rw [List.append_nil last] at hmore
    rwa [List.append_assoc, List.singleton_append]

/-- The words of a text, each cut off from the next by one space, begin those of a longer text. -/
theorem words_begin (h : a <+: b) :
    " ".toList.intercalate (splitWords a) <+: " ".toList.intercalate (splitWords b) := by
  obtain ⟨more, rfl⟩ := h
  obtain ⟨init, last, next, rest, ha, -, hab⟩ := splitOnP_append a more
  rw [splitWords, splitWords, ha, hab, List.filter_append, List.filter_append]
  by_cases hlast : last = []
  · subst hlast
    have hnone : List.filter (fun word : Text => decide (word ≠ [])) [[]] = [] := rfl
    rw [hnone, List.append_nil]
    exact intercalate_more _ _ _
  · have hone : List.filter (fun word : Text => decide (word ≠ [])) [last] = [last] := by
      simp [hlast]
    rw [hone, List.filter_cons_of_pos (by simp [hlast])]
    exact intercalate_begins _ _ _ _ _

/-- Where lower case is taken letter by letter, to normalize a beginning is to begin. -/
theorem normalizeText_begins (h : T.lower a <+: T.lower b) :
    normalizeText T a <+: normalizeText T b :=
  words_begin (h.map _)

end Normalized

section Guard
variable {T : TextOps} {g : RepeatGuard} {text response : Text}

theorem couldBeRepeatPrefix_iff (T : TextOps) (g : RepeatGuard) (text : Text) :
    g.couldBeRepeatPrefix T text = true ↔
      ∃ reply ∈ g.recent, normalizeText T text <+: reply := by
  unfold RepeatGuard.couldBeRepeatPrefix
  dsimp only
  by_cases hnone : normalizeText T text = []
  · rw [if_pos hnone, hnone, decide_eq_true_eq]
    simp only [List.nil_prefix, and_true]
    exact ⟨List.exists_mem_of_ne_nil _, fun ⟨_, hmem⟩ => List.ne_nil_of_mem hmem⟩
  · rw [if_neg hnone, List.any_eq_true]
    simp only [List.isPrefixOf_iff_prefix]

/-- The reply to a response: the guard's next filler for a repeat, else the response. -/
def answer (T : TextOps) (g : RepeatGuard) (response : Text) : Text :=
  if repeatMinWords ≤ (splitWords (normalizeText T response)).length ∧
      normalizeText T response ∈ g.recent then g.nextFiller
  else response

theorem bridgeFiller_answer (he : g.emitted = false) (hs : g.suppressing = false) :
    ((g.bridgeFiller T response).1).getD response = answer T g response := by
  unfold RepeatGuard.bridgeFiller answer RepeatGuard.isRepeat
  rw [he, hs]
  by_cases hrepeat : repeatMinWords ≤ (splitWords (normalizeText T response)).length ∧
      normalizeText T response ∈ g.recent
  · rw [if_pos hrepeat, if_neg (by simp [hrepeat])]
    rfl
  · rw [if_neg hrepeat, if_pos (by rw [decide_eq_false hrepeat]; rfl)]
    rfl

end Guard

section Run
variable {T : TextOps} {E : Surroundings} {g : RepeatGuard} {chunks : List Text} {content : Text}
  {r : Reading}

/-- Whatever has arrived of a response before its end begins a recent reply. -/
def Held (T : TextOps) (g : RepeatGuard) (chunks : List Text) : Prop :=
  ∀ before rest, chunks = before ++ rest → decodedResponse T before ≠ [] →
    (feedAll T (.of "response") before).1.done = false →
      ∃ reply ∈ g.recent, normalizeText T (decodedResponse T before) <+: reply

theorem held_concat :
    Held T g (chunks ++ [content]) ↔
      Held T g chunks ∧
        (decodedResponse T (chunks ++ [content]) ≠ [] →
          (feedAll T (.of "response") (chunks ++ [content])).1.done = false →
            ∃ reply ∈ g.recent,
              normalizeText T (decodedResponse T (chunks ++ [content])) <+: reply) := by
  constructor
  · intro h
    refine ⟨fun before rest hsplit => h before (rest ++ [content]) ?_, h _ [] ?_⟩
    · rw [hsplit, List.append_assoc]
    · rw [List.append_nil]
  · intro ⟨hbefore, hlast⟩ before rest hsplit
    cases rest using List.reverseRecOn with
    | nil =>
      rw [List.append_nil] at hsplit
      rw [← hsplit]
      exact hlast
    | append_singleton rest last =>
      rw [← List.append_assoc] at hsplit
      exact hbefore before rest (List.append_inj_left' hsplit rfl)

/-- By the time there is text of the response a known action is declared. -/
def Opens (T : TextOps) (chunks : List Text) : Prop :=
  ∀ before rest, chunks = before ++ rest → decodedResponse T before ≠ [] →
    normalizeTurnAction T (some (textJson (declaredAction T before))) ∈ turnActions

theorem Opens.left {more : List Text} (h : Opens T (chunks ++ more)) : Opens T chunks :=
  fun before rest hsplit => h before (rest ++ more) (by rw [hsplit, List.append_assoc])

/-- What is said of a response while it arrives. -/
structure Says (T : TextOps) (g : RepeatGuard) (chunks : List Text) (r : Reading) : Prop where
  gated : r.gated = false
  waits : r.streamReleased = false →
    r.guard = g ∧ Held T g chunks ∧
      (decodedResponse T chunks ≠ [] → r.responseField.done = false)
  released : r.streamReleased = true →
    (¬ Held T g chunks ∧ r.spokenText = decodedResponse T chunks) ∨
      (Held T g chunks ∧ r.responseField.done = true ∧
        r.spokenText = answer T g (decodedResponse T chunks))

theorem gate_known {delta : Text} (hgated : r.gated = false)
    (hknown : delta ≠ [] →
      normalizeTurnAction T (some (textJson r.actionText)) ∈ turnActions) :
    r.gate T delta = r := by
  unfold Reading.gate
  split
  · next h =>
    have hopen : decide (normalizeTurnAction T (some (textJson r.actionText)) ∉ turnActions) =
        false := by simpa using hknown h.1
    rw [hopen, ← hgated]
  · rfl

/-- A chunk of an envelope whose action is declared. -/
theorem chunk_known (h : Reads T chunks r) (hgated : r.gated = false)
    (hopens : Opens T (chunks ++ [content])) (hc : content ≠ []) :
    r.chunk T E content =
      (Reading.heard T E r content).release T (r.responseField.feed T.chr content).2 := by
  rw [chunk_eq hc, gate_known (r := Reading.heard T E r content) hgated]
  intro hdelta
  rw [← declaredAction_concat h]
  refine hopens _ [] (by simp) ?_
  rw [decodedResponse_concat h]
  simp [hdelta]

theorem Says.of_released (hgated : r.gated = false) (hreleased : r.streamReleased = true)
    (h : (¬ Held T g chunks ∧ r.spokenText = decodedResponse T chunks) ∨
      (Held T g chunks ∧ r.responseField.done = true ∧
        r.spokenText = answer T g (decodedResponse T chunks))) : Says T g chunks r where
  gated := hgated
  waits hw := absurd (hreleased.symm.trans hw) (by simp)
  released _ := h

theorem responseField_concat (hreads : Reads T chunks r) :
    (feedAll T (.of "response") (chunks ++ [content])).1 =
      (r.responseField.feed T.chr content).1 := by
  rw [feedAll_concat, ← hreads.response]

/-- After the release the text goes on as it comes. -/
theorem Says.goes_on (hreads : Reads T chunks r) (hturn : Says T g chunks r)
    (hreleased : r.streamReleased = true) :
    Says T g (chunks ++ [content])
      ((Reading.heard T E r content).speak (r.responseField.feed T.chr content).2) := by
  refine .of_released hturn.gated hreleased ?_
  have hdecoded : decodedResponse T (chunks ++ [content]) =
      decodedResponse T chunks ++ (r.responseField.feed T.chr content).2 :=
    decodedResponse_concat hreads
  rcases hturn.released hreleased with ⟨hheld, hsaid⟩ | ⟨hheld, hdone, hsaid⟩
  · refine .inl ⟨fun h => hheld (held_concat.mp h).1, ?_⟩
    rw [hdecoded, ← hsaid]
    rfl
  · have hnone : r.responseField.feed T.chr content = (r.responseField, []) :=
      feed_done hdone content
    have hsame : decodedResponse T (chunks ++ [content]) = decodedResponse T chunks := by
      rw [hdecoded, hnone, List.append_nil]
    refine .inr ⟨held_concat.mpr ⟨hheld, fun _ hgoing => ?_⟩, ?_, ?_⟩
    · rw [responseField_concat hreads, hnone, hdone] at hgoing
      cases hgoing
    · exact (congrArg (fun p => p.1.done) hnone).trans hdone
    · rw [hsame, ← hsaid, hnone]
      exact List.append_nil _

/-- A response that waits is judged with what the chunk brings of it. -/
theorem Says.judged (hreads : Reads T chunks r) (hturn : Says T g chunks r)
    (hwaits : r.streamReleased = false) (he : g.emitted = false) (hs : g.suppressing = false) :
    Says T g (chunks ++ [content])
      ((Reading.heard T E r content).release T (r.responseField.feed T.chr content).2) := by
  obtain ⟨hguard, hheld, -⟩ := hturn.waits hwaits
  have hgated : (Reading.heard T E r content).gated = false := hturn.gated
  have hheard : (Reading.heard T E r content).streamReleased = false := hwaits
  have hsame : (Reading.heard T E r content).guard = g := hguard
  have hsilent : (Reading.heard T E r content).spokenText = [] :=
    (hreads.spoken.waiting hwaits).2.1
  have hbuffer : (Reading.heard T E r content).responseBuffer ++
      (r.responseField.feed T.chr content).2 = decodedResponse T (chunks ++ [content]) := by
    rw [decodedResponse_concat hreads, ← hreads.spoken.buffered hwaits hturn.gated]
    rfl
  unfold Reading.release
  rw [if_neg (by simp [hgated]), if_neg (by simp [hheard]), hbuffer]
  dsimp only
  by_cases hdone : decodedResponse T (chunks ++ [content]) ≠ [] ∧
      (Reading.heard T E r content).responseField.done = true
  · -- the response is complete: a repeat is bridged, anything else is spoken
    rw [if_pos hdone, hsame]
    refine .of_released hgated rfl (.inr ⟨?_, hdone.2, ?_⟩)
    · refine held_concat.mpr ⟨hheld, fun _ hgoing => ?_⟩
      rw [responseField_concat hreads] at hgoing
      exact absurd (hdone.2.symm.trans hgoing) (by simp)
    · rw [← bridgeFiller_answer he hs]
      change (Reading.heard T E r content).spokenText ++ _ = _
      rw [hsilent, List.nil_append]
  rw [if_neg hdone, hsame]
  have hgoing : decodedResponse T (chunks ++ [content]) ≠ [] →
      (Reading.heard T E r content).responseField.done = false :=
    fun hsome => Bool.eq_false_iff.mpr fun hd => hdone ⟨hsome, hd⟩
  by_cases hfresh : decodedResponse T (chunks ++ [content]) ≠ [] ∧
      g.couldBeRepeatPrefix T (decodedResponse T (chunks ++ [content])) = false
  · -- it can be no repeat any more
    rw [if_pos hfresh]
    refine .of_released hgated rfl (.inl ⟨fun h => ?_, ?_⟩)
    · have hcould := (couldBeRepeatPrefix_iff T g _).mpr ((held_concat.mp h).2 hfresh.1
        ((congrArg _ (responseField_concat hreads)).trans (hgoing hfresh.1)))
      rw [hfresh.2] at hcould
      cases hcould
    · change (Reading.heard T E r content).spokenText ++ _ = _
      rw [hsilent, List.nil_append]
  · rw [if_neg hfresh]
    refine ⟨hgated, fun _ => ⟨rfl, held_concat.mpr ⟨hheld, fun hsome _ => ?_⟩, hgoing⟩,
      fun hr => absurd (hheard.symm.trans hr) (by simp)⟩
    have hcould : g.couldBeRepeatPrefix T (decodedResponse T (chunks ++ [content])) = true := by
      simpa using fun hfalse => hfresh ⟨hsome, hfalse⟩
    exact (couldBeRepeatPrefix_iff T g _).mp hcould

theorem Says.release (hreads : Reads T chunks r) (hturn : Says T g chunks r)
    (he : g.emitted = false) (hs : g.suppressing = false) :
    Says T g (chunks ++ [content])
      ((Reading.heard T E r content).release T (r.responseField.feed T.chr content).2) := by
  by_cases hreleased : r.streamReleased = true
  · have hopen : (Reading.heard T E r content).gated ≠ true := by
      change r.gated ≠ true
      simp [hturn.gated]
    have hheard : (Reading.heard T E r content).streamReleased = true := hreleased
    rw [Reading.release, if_neg hopen, if_pos hheard]
    exact hturn.goes_on hreads hreleased
  · exact hturn.judged hreads (by simpa using hreleased) he hs

/-- A chunk without text changes nothing. -/
theorem Says.silent (hturn : Says T g chunks r) : Says T g (chunks ++ [[]]) r := by
  have hfield : feedAll T (.of "response") (chunks ++ [[]]) =
      feedAll T (.of "response") chunks := by
    rw [feedAll_concat, feed_nil, List.append_nil]
  have hsame : decodedResponse T (chunks ++ [[]]) = decodedResponse T chunks :=
    congrArg Prod.snd hfield
  have hheld : Held T g (chunks ++ [[]]) ↔ Held T g chunks := by
    rw [held_concat, hsame, hfield]
    exact ⟨And.left, fun h => ⟨h, h chunks [] (by rw [List.append_nil])⟩⟩
  refine ⟨hturn.gated, ?_, ?_⟩
  · rw [hheld, hsame]
    exact hturn.waits
  · rw [hheld, hsame]
    exact hturn.released

theorem says_all (g : RepeatGuard) (hopens : Opens T chunks) :
    Says T g.reset chunks (chunks.foldl (Reading.chunk T E) { guard := g.reset }) := by
  induction chunks using List.reverseRecOn with
  | nil =>
    refine ⟨rfl, fun _ => ⟨rfl, fun before rest hsplit hsome => ?_, fun hsome => ?_⟩,
      fun hreleased => by cases hreleased⟩
    · rw [(List.append_eq_nil_iff.mp hsplit.symm).1] at hsome
      exact absurd rfl hsome
    · exact absurd rfl hsome
  | append_singleton chunks content ih =>
    have hturn := ih hopens.left
    have hreads : Reads T chunks (chunks.foldl (Reading.chunk T E) { guard := g.reset }) :=
      reads_all g chunks
    rw [List.foldl_append, List.foldl_cons, List.foldl_nil]
    by_cases hc : content = []
    · subst hc
      have hchunk : ∀ r : Reading, r.chunk T E [] = r := fun r => by simp [Reading.chunk]
      rw [hchunk]
      exact hturn.silent
    · rw [chunk_known hreads hturn.gated hopens hc]
      exact hturn.release hreads rfl rfl

end Run

section Order
variable {T : TextOps} {s : FieldStreamer} {before rest chunks : List Text} {upTo more text : Text}

/-- What the streamer of a field decodes of a text. -/
def fieldText (T : TextOps) (fieldName : String) (text : Text) : Text :=
  ((FieldStreamer.of fieldName).feed T.chr text).2

theorem feedAll_of (T : TextOps) (fieldName : String) (chunks : List Text) :
    feedAll T (.of fieldName) chunks = (FieldStreamer.of fieldName).feed T.chr chunks.flatten :=
  feedAll_flatten (FieldStreamer.of fieldName) chunks

/-- Text comes out only from inside the string. -/
theorem phase_of_text (h : (s.feed T.chr text).2 ≠ []) :
    (s.feed T.chr text).1.phase = .inString := by
  by_cases hd : s.done = true
  · rw [feed_done hd] at h
    exact absurd rfl h
  by_cases hp : s.phase = .inString
  · rw [feed_inString hp]
    exact (consume_phase T.chr s text).trans hp
  by_cases htext : text = []
  · rw [htext, feed_nil] at h
    exact absurd rfl h
  have hphase := advanceToString_phase (JsonStream.needleOf s.fieldName) s.phase (s.buffer ++ text)
  rw [feed_search hd hp htext] at h ⊢
  generalize JsonStream.advanceToString _ s.phase (s.buffer ++ text) = r at h hphase ⊢
  obtain ⟨phase, buffer, emitted⟩ := r
  cases emitted with
  | none => exact absurd rfl h
  | some emitted =>
    have hin : phase = .inString := hphase.mpr rfl
    exact (consume_phase T.chr _ emitted).trans hin

/-- The action is complete before there is text of the response. -/
theorem action_complete (hsplit : (before ++ rest).flatten = upTo ++ more)
    (hdone : ((FieldStreamer.of "turn_action").feed T.chr upTo).1.done = true)
    (hwaits : ((FieldStreamer.of "response").feed T.chr upTo).1.phase ≠ .inString)
    (hsome : decodedResponse T before ≠ []) :
    (feedAll T (.of "turn_action") before).1.done = true ∧
      declaredAction T before = fieldText T "turn_action" upTo := by
  rw [decodedResponse, feedAll_of] at hsome
  rw [declaredAction, feedAll_of]
  rw [List.flatten_append] at hsplit
  rcases List.append_eq_append_iff.mp hsplit with ⟨left, hupTo, -⟩ | ⟨left, hbefore, -⟩
  · -- the text of the response would begin before the end of the action
    refine absurd ?_ hwaits
    rw [hupTo, feed_append]
    dsimp only
    rw [feed_inString (phase_of_text hsome), consume_phase]
    exact phase_of_text hsome
  · rw [hbefore, feed_append, feed_done hdone, List.append_nil]
    exact ⟨hdone, rfl⟩

end Order

section Turns
variable {T : TextOps} {E : Surroundings} {g : RepeatGuard} {chunks : List Text} {d : ObjectText}
  {s : List Spelling}

/-- The text that a turn sends to speech. -/
def pushed (turn : SpokenTurn) : Text := turn.streamed ++ turn.spokenAfter.getD []

/-- What has been sent to speech when these chunks have arrived. -/
def pushedBy (T : TextOps) (E : Surroundings) (g : RepeatGuard) (chunks : List Text) : Text :=
  (chunks.foldl (Reading.chunk T E) { guard := g.reset }).spokenText

theorem chunk_rawContent (r : Reading) (content : Text) :
    (r.chunk T E content).rawContent = r.rawContent ++ content := by
  by_cases hc : content = []
  · simp [hc, Reading.chunk]
  · have hgate : ∀ (r : Reading) delta, (r.gate T delta).rawContent = r.rawContent := by
      intro r delta
      unfold Reading.gate
      split_ifs <;> rfl
    have hrelease : ∀ (r : Reading) delta, (r.release T delta).rawContent = r.rawContent := by
      intro r delta
      unfold Reading.release
      dsimp only
      split_ifs <;> rfl
    rw [chunk_eq hc, hrelease, hgate]
    rfl

theorem rawContent_all (g : RepeatGuard) (chunks : List Text) :
    (chunks.foldl (Reading.chunk T E) { guard := g }).rawContent = chunks.flatten := by
  induction chunks using List.reverseRecOn with
  | nil => rfl
  | append_singleton chunks content ih =>
    rw [List.foldl_append, List.foldl_cons, List.foldl_nil, chunk_rawContent, ih,
      List.flatten_append, List.flatten_singleton]

theorem parsed_eq (T : TextOps) (E : Surroundings) (g : RepeatGuard) (chunks : List Text) :
    (streamActionEnvelope T E g chunks).parsed = parseTurnResult T E chunks.flatten := by
  rw [← rawContent_all (T := T) (E := E) g.reset chunks]
  rfl

theorem verdict_silent {c : NullMembers.Coerced} (missing : Bool) (h : c.response = []) :
    c.verdict missing ≠ .missingUpload := by
  have hstrip : strip c.response = [] := by
    rw [h]
    rfl
  unfold NullMembers.Coerced.verdict
  cases c.owner with
  | none => simp
  | some action =>
    dsimp only
    unfold NullMembers.Coerced.settle
    by_cases hcapture : action = captureHighres
    · have hanalyze : action ≠ analyzeAttachment := by
        rw [hcapture]
        exact NullMembers.analyze_ne_capture.symm
      rw [if_neg hanalyze, if_pos hcapture]
      split_ifs <;> simp
    · rw [if_pos (⟨hcapture, hstrip⟩ : action ≠ captureHighres ∧ strip c.response = [])]
      split_ifs <;> simp

/-- An envelope without a response leaves nothing to speak. -/
theorem parsed_silent (hT : NullMembers.PythonTexts T) {text : Text}
    (h : (extractJsonObject T text).get? "response" = some (.str "")) :
    (parseTurnResult T E text).response = [] := by
  have hresponse : (NullMembers.coerce T E (extractJsonObject T text)).response = [] := by
    unfold NullMembers.coerce
    rw [h]
    rfl
  have houtcome := NullMembers.outcome_parsePayload hT E text (extractJsonObject T text)
  have hverdict := verdict_silent
    (decide (E.uploadedAttachmentAvailable = some false)) hresponse
  rw [parseTurnResult]
  refine (congrArg NullMembers.Outcome.response houtcome).trans ?_
  cases hv : (NullMembers.coerce T E (extractJsonObject T text)).verdict
      (decide (E.uploadedAttachmentAvailable = some false)) with
  | fallback => rfl
  | missingUpload => exact absurd hv hverdict
  | speaks action => simp [NullMembers.outcomeOf, hresponse]
  | analyzes media prompt => simp [NullMembers.outcomeOf, hresponse]
  | captures query => simp [NullMembers.outcomeOf, hresponse]

/-- What is pushed besides the stream: nothing, when the response was streamed or is empty. -/
theorem pushed_of_reading (hkept : (streamActionEnvelope T E g chunks).parsed.fallsBack = false)
    (hquiet : pushedBy T E g chunks = [] →
      (streamActionEnvelope T E g chunks).parsed.response = []) :
    pushed (streamActionEnvelope T E g chunks) = pushedBy T E g chunks := by
  have hreads : Reads T chunks (chunks.foldl (Reading.chunk T E) { guard := g.reset }) :=
    reads_all g chunks
  unfold pushed pushedBy at *
  generalize hr : chunks.foldl (Reading.chunk T E) { guard := g.reset } = r at hreads hquiet ⊢
  obtain ⟨hstreamed, howned, hafter, -⟩ := turn_of_reading hr
  rw [hstreamed, hafter, hkept]
  by_cases hreleased : r.streamReleased = true
  · rw [(hreads.spoken.released hreleased).1, if_neg (by simp)]
    exact List.append_nil _
  · obtain ⟨hspoke, hsilent, -⟩ := hreads.spoken.waiting (by simpa using hreleased)
    have hsame : (streamActionEnvelope T E g chunks).owned =
        (streamActionEnvelope T E g chunks).parsed :=
      (spoken_of_turn hr).1 hkept
    rw [if_pos (.inl hspoke), ← howned, hsame, hquiet hsilent]
    rw [speakResponse, if_pos (by decide +kernel)]
    exact List.append_nil _

theorem answer_nil (hT : NullMembers.PythonTexts T) (g : RepeatGuard) : answer T g [] = [] := by
  have hnormal : normalizeText T [] = [] := by
    rw [normalizeText, hT.lower [] (by simp)]
    rfl
  rw [answer, hnormal, if_neg]
  exact fun h => absurd h.1 (by decide)

theorem answer_ne_nil {response : Text} (h : response ≠ []) : answer T g response ≠ [] := by
  unfold answer
  split
  · exact filler_ne_nil (nextFiller_mem g)
  · exact h

theorem decoded_of_pushed (h : pushedBy T E g chunks ≠ []) : decodedResponse T chunks ≠ [] := by
  have hreads : Reads T chunks (chunks.foldl (Reading.chunk T E) { guard := g.reset }) :=
    reads_all g chunks
  have hreleased :
      (chunks.foldl (Reading.chunk T E) { guard := g.reset }).streamReleased = true := by
    by_contra hwaits
    exact h (hreads.spoken.waiting (by simpa using hwaits)).2.1
  obtain ⟨-, -, ⟨hsaid, -⟩ | ⟨-, -, hsome⟩⟩ := hreads.spoken.released hreleased
  · rw [← hsaid]
    exact h
  · exact hsome

/-- What has arrived of a response begins it. -/
theorem decoded_begins {before rest : List Text} (hsplit : chunks = before ++ rest) :
    decodedResponse T before <+: fieldText T "response" chunks.flatten := by
  rw [decodedResponse, feedAll_of, fieldText, hsplit, List.flatten_append, feed_append]
  exact List.prefix_append _ _

theorem decoded_all (T : TextOps) (chunks : List Text) :
    decodedResponse T chunks = fieldText T "response" chunks.flatten := by
  rw [decodedResponse, feedAll_of, fieldText]

/-- An envelope whose known action stands before its response opens the turn in time. -/
theorem opens_of_order (htext : codes chunks.flatten = d.text) (hfirst : ActionFirst s d.members)
    (hknown : normalizeTurnAction T
      (some (textJson (fieldText T "turn_action" chunks.flatten))) ∈ turnActions) :
    Opens T chunks ∧ ∀ before rest, chunks = before ++ rest → decodedResponse T before ≠ [] →
      (feedAll T (.of "turn_action") before).1.done = true := by
  obtain ⟨⟨upTo, more, hsplit, hdone, hwaits⟩, -⟩ := read_in_order T htext hfirst
  have hwhole : fieldText T "turn_action" chunks.flatten = fieldText T "turn_action" upTo := by
    rw [fieldText, hsplit, feed_append, feed_done hdone, List.append_nil]
    rfl
  refine ⟨fun before rest hchunks hsome => ?_, fun before rest hchunks hsome => ?_⟩
  · rw [hchunks] at hsplit
    rw [(action_complete hsplit hdone hwaits hsome).2, ← hwhole]
    exact hknown
  · rw [hchunks] at hsplit
    exact (action_complete hsplit hdone hwaits hsome).1

/-- The text of a turn, by whether a possible repeat was held back all along. -/
theorem pushedBy_cases (g : RepeatGuard) (hopens : Opens T chunks)
    (hdone : (feedAll T (.of "response") chunks).1.done = true)
    (hsome : decodedResponse T chunks ≠ []) :
    (¬ Held T g.reset chunks ∧ pushedBy T E g chunks = decodedResponse T chunks) ∨
      (Held T g.reset chunks ∧
        pushedBy T E g chunks = answer T g.reset (decodedResponse T chunks)) := by
  have hturn := says_all (E := E) g hopens
  have hreads : Reads T chunks (chunks.foldl (Reading.chunk T E) { guard := g.reset }) :=
    reads_all g chunks
  have hreleased :
      (chunks.foldl (Reading.chunk T E) { guard := g.reset }).streamReleased = true := by
    by_contra hwaits
    have hgoing := (hturn.waits (by simpa using hwaits)).2.2 hsome
    rw [hreads.response, hdone] at hgoing
    cases hgoing
  rcases hturn.released hreleased with ⟨hheld, hsaid⟩ | ⟨hheld, -, hsaid⟩
  · exact .inl ⟨hheld, hsaid⟩
  · exact .inr ⟨hheld, hsaid⟩

/-- The text of a whole turn. -/
theorem pushed_cases (hT : NullMembers.PythonTexts T) (E : Surroundings) (g : RepeatGuard)
    (htext : codes chunks.flatten = d.text) (hfirst : ActionFirst s d.members)
    (hopens : Opens T chunks)
    (hparse : s = [] → (extractJsonObject T chunks.flatten).get? "response" = some (.str ""))
    (hkept : (streamActionEnvelope T E g chunks).parsed.fallsBack = false) :
    (¬ Held T g.reset chunks ∧ pushed (streamActionEnvelope T E g chunks) =
        fieldText T "response" chunks.flatten) ∨
      (Held T g.reset chunks ∧ pushed (streamActionEnvelope T E g chunks) =
        answer T g.reset (fieldText T "response" chunks.flatten)) := by
  obtain ⟨-, hdone, hnil⟩ := read_in_order T htext hfirst
  rw [← decoded_all]
  by_cases hsome : decodedResponse T chunks = []
  · have hspelled : s = [] := hnil.mp (by rw [← hsome, decoded_all]; rfl)
    have hsilent : pushedBy T E g chunks = [] := by
      by_contra hsaid
      exact decoded_of_pushed hsaid hsome
    have hquiet : (streamActionEnvelope T E g chunks).parsed.response = [] := by
      rw [parsed_eq]
      exact parsed_silent hT (hparse hspelled)
    rw [pushed_of_reading hkept fun _ => hquiet, hsilent, hsome, answer_nil hT]
    simpa using (em (Held T g.reset chunks)).symm
  · rw [← feedAll_of] at hdone
    have hcases := pushedBy_cases (E := E) g hopens hdone hsome
    have hsaid : pushedBy T E g chunks ≠ [] := by
      rcases hcases with ⟨-, hsaid⟩ | ⟨-, hsaid⟩
      · rw [hsaid]
        exact hsome
      · rw [hsaid]
        exact answer_ne_nil hsome
    rw [pushed_of_reading hkept fun hsilent => absurd hsilent hsaid]
    exact hcases

/-- A turn whose envelope declares a known action first and does not fall back pushes the
response as it is decoded, or the filler for a repeat, and nothing before the action is
complete, exactly if no part of a repeat that has arrived before its end fails to begin some
recent reply. No part does where its lower case begins that of the response. -/
theorem spoken_exactly_iff (hT : NullMembers.PythonTexts T) (E : Surroundings) (g : RepeatGuard)
    (htext : codes chunks.flatten = d.text) (hfirst : ActionFirst s d.members)
    (hknown : normalizeTurnAction T
      (some (textJson (fieldText T "turn_action" chunks.flatten))) ∈ turnActions)
    (hparse : s = [] → (extractJsonObject T chunks.flatten).get? "response" = some (.str ""))
    (hkept : (streamActionEnvelope T E g chunks).parsed.fallsBack = false) :
    let response := fieldText T "response" chunks.flatten
    let isRepeat := repeatMinWords ≤ (splitWords (normalizeText T response)).length ∧
      normalizeText T response ∈ g.reset.recent
    (((isRepeat → pushed (streamActionEnvelope T E g chunks) = g.nextFiller) ∧
        (¬ isRepeat → pushed (streamActionEnvelope T E g chunks) = response) ∧
        ∀ before rest, chunks = before ++ rest → pushedBy T E g before ≠ [] →
          (feedAll T (.of "turn_action") before).1.done = true) ↔
      (isRepeat → response = g.nextFiller ∨
        ∀ before rest, chunks = before ++ rest → decodedResponse T before ≠ [] →
          (feedAll T (.of "response") before).1.done = false →
            ∃ reply ∈ g.reset.recent, normalizeText T (decodedResponse T before) <+: reply)) ∧
    ((∀ before rest, chunks = before ++ rest →
        T.lower (decodedResponse T before) <+: T.lower response) →
      isRepeat → pushed (streamActionEnvelope T E g chunks) = g.nextFiller) := by
  intro response isRepeat
  obtain ⟨-, hdone, hnil⟩ := read_in_order T htext hfirst
  obtain ⟨hopens, hearly⟩ := opens_of_order htext hfirst hknown
  have hpushed := pushed_cases hT E g htext hfirst hopens hparse hkept
  have hrepeat : isRepeat → answer T g.reset response = g.nextFiller := fun h => if_pos h
  have hnew : ¬ isRepeat → answer T g.reset response = response := fun h => if_neg h
  refine ⟨⟨fun hturn h => ?_, fun hheld => ⟨fun h => ?_, fun h => ?_, ?_⟩⟩, fun hlower h => ?_⟩
  · rcases hpushed with ⟨-, hraw⟩ | ⟨hheld, -⟩
    · exact .inl (hraw.symm.trans (hturn.1 h))
    · exact .inr hheld
  · rcases hpushed with ⟨hbroken, hraw⟩ | ⟨-, hanswer⟩
    · rcases hheld h with hsame | hheld
      · exact hraw.trans hsame
      · exact absurd hheld hbroken
    · exact hanswer.trans (hrepeat h)
  · rcases hpushed with ⟨-, hraw⟩ | ⟨-, hanswer⟩
    · exact hraw
    · exact hanswer.trans (hnew h)
  · exact fun before rest hsplit hsome => hearly before rest hsplit (decoded_of_pushed hsome)
  · have hheld : Held T g.reset chunks := fun before rest hsplit _ _ =>
      ⟨_, h.2, normalizeText_begins (hlower before rest hsplit)⟩
    rcases hpushed with ⟨hbroken, -⟩ | ⟨-, hanswer⟩
    · exact absurd hheld hbroken
    · exact hanswer.trans (hrepeat h)

/-- A text of plain characters, spelled as it is. -/
def spell (text : String) : List Spelling :=
  text.toList.map fun c =>
    if printable : 0x20 ≤ c.toNat ∧ c.toNat ≠ quoteMark ∧ c.toNat ≠ backslash then
      .plain c.toNat printable
    else .escape .slash

/-- An envelope of the two members that every turn has. -/
def envelope (action response : String) : ObjectText where
  before := []
  lead := []
  members := .cons [] (spell "turn_action") [] [.space] (.str (spell action)) []
    (.cons [.space] (spell "response") [] [.space] (.str (spell response)) [] .nil)
  after := []
  distinct := by
    have hne : decode (spell "turn_action") ≠ decode (spell "response") := by decide +kernel
    simpa [Members.toList] using hne

theorem envelope_actionFirst (action response : String) :
    ActionFirst (spell response) (envelope action response).members := by
  have hkey : JsonFieldDecoding.EndsAs responseName (spell "response") := by decide +kernel
  refine .here (by decide +kernel) ?_
  rw [firstMember_cons, ownString, if_pos hkey]
  rfl

def respondFields (response : String) : Fields :=
  (Fields.nil.set "turn_action" (.str "respond")).set "response" (.str response)

def onlyVoice : Surroundings where
  hasUserAudio := true
  uploadedAttachmentAvailable := none
  correction := none

theorem spoken_exactly_repeat :
    let chunks := ["\x7b\"turn_action\": \"respond\", \"response\": \"I am he".toList,
      "re now.\"\x7d".toList]
    let g : RepeatGuard := { recent := ["i am here now".toList] }
    pushed (streamActionEnvelope (asciiText chunks.flatten (respondFields "I am here now."))
      onlyVoice g chunks) = g.nextFiller := by
  intro chunks g
  refine (spoken_exactly_iff (d := envelope "respond" "I am here now.")
    (NullMembers.pythonTexts_ascii _ _) onlyVoice g (by decide +kernel)
    (envelope_actionFirst _ _) (by decide +kernel) (fun h => by cases h) (by decide +kernel)).2
      (fun before rest hsplit => ?_) (by decide +kernel)
  exact (decoded_begins hsplit).map Char.toLower

/-- Latin and Greek letters are the cased ones here. -/
def isCased (c : Char) : Bool := c.isAlpha || ('Α' ≤ c && c ≤ 'ω')

/-- A capital sigma ends a word in its final form: after a letter and before none. -/
def lowerFrom : Bool → Text → Text
  | _, [] => []
  | afterLetter, c :: rest =>
    (if c = 'Σ' then
      if afterLetter && !((rest.head?.map isCased).getD false) then 'ς' else 'σ'
    else if 'Α' ≤ c ∧ c ≤ 'Ω' then Char.ofNat (c.toNat + 0x20)
    else c.toLower) :: lowerFrom (isCased c) rest

/-- Python on Latin and Greek letters without accents, with a decoder for one object. -/
def greekText (raw : Text) (fields : Fields) : TextOps :=
  { asciiText raw fields with
    lower := lowerFrom false
    isWordChar := fun c => c.isAlphanum || c == '_' || isCased c }

/-- A repeat that is cut behind a capital sigma: the part looks like the end of a word, so it
is spoken, and all of the repeat with it. -/
theorem sigma_cut_spoken :
    let response := "ΟΣΟ ΘΕΛΩ ΕΙΜΑΙ ΕΔΩ"
    let chunks := ["\x7b\"turn_action\": \"respond\", \"response\": \"ΟΣ".toList,
      "Ο ΘΕΛΩ ΕΙΜΑΙ ΕΔΩ\"\x7d".toList]
    let T := greekText chunks.flatten (respondFields response)
    let g : RepeatGuard := { recent := ["οσο θελω ειμαι εδω".toList] }
    let turn := streamActionEnvelope T onlyVoice g chunks
    codes chunks.flatten = (envelope "respond" response).text ∧
      turn.parsed.fallsBack = false ∧
      fieldText T "response" chunks.flatten = response.toList ∧
      repeatMinWords ≤ (splitWords (normalizeText T response.toList)).length ∧
      normalizeText T response.toList ∈ g.reset.recent ∧
      pushed turn = response.toList ∧ pushed turn ≠ g.nextFiller := by
  decide +kernel

end Turns

end VoiceAgent.SpokenExactly
