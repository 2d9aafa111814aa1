import VoiceAgent.EnvelopeSpeech
import Mathlib.Data.Finset.Insert

/-!
What a JSON null does in the Speaker's envelope. The fields that choose among known words treat
it as missing; the four free texts go through `str`, which spells it out. Taking the nulls away
one after the other, a null text makes no difference only where its text is not used.
-/
namespace VoiceAgent.NullMembers

open StreamingEvents JsonValues SessionView ActionEnvelope

section Reading
variable (T : TextOps) (E : Surroundings)

/-- What the Speaker goes by: the owner, its arguments, the two texts, and whether it fell
back. -/
structure Outcome where
  owner : Option Json
  source : Option Json
  media : Option Json
  prompt : Option Json
  query : Option Json
  transcript : Text
  response : Text
  fallsBack : Bool
  deriving DecidableEq

def outcome (r : TurnResult) : Outcome where
  owner := r.payload.get? "turn_action"
  source := r.payload.get? "selected_input_source"
  media := r.payload.get? "media_analysis_action"
  prompt := r.payload.get? "media_analysis_prompt"
  query := r.payload.get? "highres_query"
  transcript := r.transcript
  response := r.response
  fallsBack := r.fallsBack

/-- The members of a payload as they are coerced; `marked` is a fallback the model claims. -/
structure Coerced where
  declared : Text
  source : Text
  media : Text
  transcript : Text
  response : Text
  prompt : Text
  query : Text
  marked : Bool
  deriving DecidableEq

def receive (payload : Fields) (transcript response : Text) : Coerced where
  declared := normalizeTurnAction T (payload.get? "turn_action")
  source := normalizeSelectedInputSource T (payload.get? "selected_input_source")
  media := normalizeMediaAnalysisAction T (payload.get? "media_analysis_action")
  transcript := transcript
  response := response
  prompt := strField T payload "media_analysis_prompt"
  query := strField T payload "highres_query"
  marked := truthy (payload.get? "_action_fallback")

def coerce (payload : Fields) : Coerced where
  declared := normalizeTurnAction T (payload.get? "turn_action")
  source := normalizeSelectedInputSource T (payload.get? "selected_input_source")
  media := normalizeMediaAnalysisAction T (payload.get? "media_analysis_action")
  transcript := if E.hasUserAudio then strField T payload "transcript" else []
  response := cleanSpokenResponseArtifacts (((payload.get? "response").map T.strOf).getD [])
  prompt := strField T payload "media_analysis_prompt"
  query := strField T payload "highres_query"
  marked := truthy (payload.get? "_action_fallback")

end Reading

section Verdicts

/-- What an envelope comes to. -/
inductive Verdict
  | fallback
  | missingUpload
  | speaks (action : Text)
  | analyzes (media prompt : Text)
  | captures (query : Text)
  deriving DecidableEq

namespace Coerced

def mediaAsked (c : Coerced) : Prop :=
  c.source = "uploaded_attachment".toList ∨ c.media = "new".toList ∨ c.media = "rerun".toList ∨
    c.prompt ≠ []

instance (c : Coerced) : Decidable c.mediaAsked := inferInstanceAs (Decidable (_ ∨ _))

def owner (c : Coerced) : Option Text :=
  if c.declared ≠ [] then some c.declared
  else if c.mediaAsked then if c.query ≠ [] then none else some analyzeAttachment
  else if c.query ≠ [] then some captureHighres
  else if strip c.response ≠ [] then some "respond".toList
  else none

/-- An envelope with an owner. -/
def settle (uploadMissing : Bool) (c : Coerced) (action : Text) : Verdict :=
  if (c.mediaAsked ∧ action ≠ analyzeAttachment) ∨ (c.query ≠ [] ∧ action ≠ captureHighres) then
    .fallback
  else if action ≠ captureHighres ∧ strip c.response = [] then .fallback
  else if action = analyzeAttachment then
    if uploadMissing then .missingUpload
    else .analyzes
      (if c.media = "new".toList ∨ c.media = "rerun".toList then c.media else "new".toList)
      (if c.prompt = [] then c.transcript else c.prompt)
  else if action = captureHighres then
    if (if c.query = [] then c.transcript else c.query) = [] then .fallback
    else .captures (if c.query = [] then c.transcript else c.query)
  else .speaks action

def verdict (uploadMissing : Bool) (c : Coerced) : Verdict :=
  match c.owner with
  | none => .fallback
  | some action => c.settle uploadMissing action

end Coerced

def outcomeOf (T : TextOps) (c : Coerced) : Verdict → Outcome
  | .fallback =>
    { owner := some (.str "think"), source := some (.str "none"), media := some (.str "none"),
      prompt := some (.str ""), query := some (.str ""), transcript := c.transcript,
      response := [], fallsBack := true }
  | .missingUpload =>
    { owner := some (.str "clarify"), source := some (.str "none"), media := some (.str "none"),
      prompt := some (.str ""), query := some (.str ""), transcript := c.transcript,
      response := missingUploadedAttachmentResponse T c.transcript, fallsBack := c.marked }
  | .speaks action =>
    { owner := some (textJson action), source := some (.str "none"), media := some (.str "none"),
      prompt := some (.str ""), query := some (.str ""), transcript := c.transcript,
      response := if c.marked then [] else c.response, fallsBack := c.marked }
  | .analyzes media prompt =>
    { owner := some (.str "analyze_attachment"), source := some (.str "uploaded_attachment"),
      media := some (textJson media), prompt := some (textJson prompt), query := some (.str ""),
      transcript := c.transcript, response := if c.marked then [] else c.response,
      fallsBack := c.marked }
  | .captures query =>
    { owner := some (.str "capture_highres"), source := some (.str "none"),
      media := some (.str "none"), prompt := some (.str ""), query := some (textJson query),
      transcript := c.transcript, response := if c.marked then [] else c.response,
      fallsBack := c.marked }

end Verdicts

section Parsing
variable {T : TextOps} {E : Surroundings} {p : Fields} {c : Coerced}

/-- The normalized payload of each verdict. -/
def payloadOf (payload : Fields) : Verdict → Fields
  | .fallback | .missingUpload => thinkingFallbackPayload payload
  | .speaks action =>
    (ownFields payload "none".toList "none".toList [] []).set "turn_action" (textJson action)
  | .analyzes media prompt =>
    (ownFields payload "uploaded_attachment".toList media prompt []).set "turn_action"
      (textJson analyzeAttachment)
  | .captures query =>
    (ownFields payload "none".toList "none".toList [] query).set "turn_action"
      (textJson captureHighres)

/-- The two members that are left out before anything is read. -/
def ownMembers (p : Fields) : Fields :=
  p.filter fun key => decide (key ≠ "needs_thinking" ∧ key ≠ "request_highres_capture")

theorem get?_ownMembers {k : String} (h : k ≠ "needs_thinking") (h' : k ≠ "request_highres_capture")
    (p : Fields) : (ownMembers p).get? k = p.get? k := by
  rw [ownMembers, get?_filter, if_pos (by simp [h, h'])]

theorem analyze_ne_capture : analyzeAttachment ≠ captureHighres := by decide

theorem ownAction_payload (payload : Fields)
    (action media prompt query transcript recovery : Text) :
    (ownAction payload action media prompt query transcript recovery).1 =
      payloadOf payload
        (if action = analyzeAttachment then
          .analyzes (if media = "new".toList ∨ media = "rerun".toList then media else "new".toList)
            (if prompt = [] then transcript else prompt)
        else if action = captureHighres then
          if (if query = [] then transcript else query) = [] then .fallback
          else .captures (if query = [] then transcript else query)
        else .speaks action) := by
  unfold ownAction
  dsimp only
  split
  · rename_i h
    rw [h]
    rfl
  · split
    · rename_i h
      generalize (if query = [] then transcript else query) = sought
      split
      · rfl
      · rw [h]
        rfl
    · rfl

/-- The arguments of another owner than the action. -/
theorem conflicts_iff {m q : Prop} [Decidable m] [Decidable q] (action a b : Text) :
    ((if m then [a] else []) ++ (if q then [b] else [])).filter
      (fun owner => decide (owner ≠ action)) ≠ [] ↔ (m ∧ action ≠ a) ∨ (q ∧ action ≠ b) := by
  rw [Ne, List.filter_eq_nil_iff]
  by_cases hm : m <;> by_cases hq : q <;> simp [hm, hq] <;> tauto

theorem settled_payload (payload : Fields) (c : Coerced) (action recovery : Text) :
    (if ((if c.mediaAsked then [analyzeAttachment] else []) ++
        (if c.query ≠ [] then [captureHighres] else [])).filter
          (fun owner => decide (owner ≠ action)) ≠ [] then
        (thinkingFallbackPayload payload, "turn_action ".toList ++ action ++
          " contradicted arguments for ".toList ++ ", ".toList.intercalate
            (((if c.mediaAsked then [analyzeAttachment] else []) ++
              (if c.query ≠ [] then [captureHighres] else [])).filter
                (fun owner => decide (owner ≠ action))))
      else if action ≠ captureHighres ∧ strip c.response = [] then
        (thinkingFallbackPayload payload,
          "turn_action ".toList ++ action ++ " is missing its spoken response".toList)
      else ownAction payload action c.media c.prompt c.query c.transcript recovery).1 =
      payloadOf payload (c.settle false action) := by
  simp only [conflicts_iff]
  unfold Coerced.settle
  split
  · rfl
  · split
    · rfl
    · rw [ownAction_payload]
      rfl

/-- `normalize_action_envelope`, from the members as they are coerced. -/
def resolve (payload : Fields) (c : Coerced) : Fields × Text :=
  let inferred := (if c.mediaAsked then [analyzeAttachment] else []) ++
    (if c.query ≠ [] then [captureHighres] else [])
  let owner : Option (Text × Text) :=
    if c.declared ≠ [] then some (c.declared, [])
    else
      match inferred with
      | [action] =>
        some (action, "inferred ".toList ++ action ++ " from argument fields".toList)
      | [] =>
        if c.response ≠ [] then
          some ("respond".toList, "inferred respond from response-only envelope".toList)
        else none
      | _ => none
  match owner with
  | none =>
    (thinkingFallbackPayload payload,
      "missing or invalid turn_action with ambiguous ownership".toList)
  | some (action, recovery) =>
    let conflicts := inferred.filter fun owner => owner ≠ action
    if conflicts ≠ [] then
      (thinkingFallbackPayload payload, "turn_action ".toList ++ action ++
        " contradicted arguments for ".toList ++ ", ".toList.intercalate conflicts)
    else if action ≠ captureHighres ∧ strip c.response = [] then
      (thinkingFallbackPayload payload,
        "turn_action ".toList ++ action ++ " is missing its spoken response".toList)
    else ownAction payload action c.media c.prompt c.query c.transcript recovery

theorem normalize_eq (T : TextOps) (p : Fields) (transcript response : Text) :
    normalizeActionEnvelope T p transcript response =
      resolve (ownMembers p) (receive T p transcript response) := by
  have hget : ∀ k, k ≠ "needs_thinking" → k ≠ "request_highres_capture" →
      (p.filter fun key =>
        decide (key ≠ "needs_thinking" ∧ key ≠ "request_highres_capture")).get? k = p.get? k :=
    fun k h h' => get?_ownMembers h h' p
  unfold normalizeActionEnvelope
  simp only [strField, hget "turn_action" (by simp) (by simp),
    hget "selected_input_source" (by simp) (by simp),
    hget "media_analysis_action" (by simp) (by simp),
    hget "media_analysis_prompt" (by simp) (by simp), hget "highres_query" (by simp) (by simp)]
  rfl

/-- A declared owner that is not overruled takes no recovery. -/
theorem resolve_recovery {payload : Fields} (hd : c.declared ≠ [])
    (hv : c.verdict false ≠ .fallback) : (resolve payload c).2 = [] := by
  unfold resolve
  simp only [if_pos hd, conflicts_iff]
  unfold Coerced.verdict Coerced.owner at hv
  simp only [if_pos hd] at hv
  unfold Coerced.settle at hv
  split
  · rename_i h
    exact absurd (if_pos h) hv
  · rename_i h
    rw [if_neg h] at hv
    split
    · rename_i hsilent
      exact absurd (if_pos hsilent) hv
    · rename_i hsilent
      rw [if_neg hsilent] at hv
      unfold ownAction
      dsimp only
      split
      · rfl
      · rename_i hanalyze
        split
        · rename_i hcapture
          rw [if_neg hanalyze, if_pos hcapture] at hv
          generalize (if c.query = [] then c.transcript else c.query) = sought at hv ⊢
          split
          · rename_i hsought
            exact absurd (if_pos hsought) hv
          · rfl
        · rfl

theorem resolve_payload (payload : Fields) (c : Coerced) :
    (resolve payload c).1 = payloadOf payload (c.verdict false) := by
  have hsettle := settled_payload payload c
  unfold resolve Coerced.verdict Coerced.owner
  by_cases hd : c.declared = []
  · simp only [if_neg (not_not.mpr hd)]
    by_cases hm : c.mediaAsked
    · by_cases hq : c.query = []
      · simp only [if_pos hm, if_neg (not_not.mpr hq), List.append_nil] at hsettle ⊢
        exact hsettle analyzeAttachment _
      · simp only [if_pos hm, if_pos hq, List.singleton_append]
        rfl
    · by_cases hq : c.query = []
      · simp only [if_neg hm, if_neg (not_not.mpr hq), List.append_nil] at hsettle ⊢
        by_cases hr : strip c.response = []
        · have hfallback : c.settle false "respond".toList = .fallback := by
            have hcapture : "respond".toList ≠ captureHighres := by decide
            unfold Coerced.settle
            rw [if_neg (by simp [hm, hq]), if_pos ⟨hcapture, hr⟩]
          simp only [if_neg (not_not.mpr hr)]
          by_cases hne : c.response = []
          · simp only [if_neg (not_not.mpr hne)]
            rfl
          · simp only [if_pos hne]
            exact (hsettle "respond".toList _).trans (by rw [hfallback])
        · have hne : c.response ≠ [] := by
            intro h
            rw [h] at hr
            exact hr rfl
          simp only [if_pos hne, if_pos hr]
          exact hsettle "respond".toList _
      · simp only [if_neg hm, if_pos hq, List.nil_append] at hsettle ⊢
        exact hsettle captureHighres _
  · simp only [if_pos hd]
    exact hsettle c.declared []

theorem normalize_payload (T : TextOps) (E : Surroundings) (p : Fields) :
    (normalizeActionEnvelope T p (coerce T E p).transcript (coerce T E p).response).1 =
      payloadOf (ownMembers p) ((coerce T E p).verdict false) := by
  rw [normalize_eq]
  exact resolve_payload (ownMembers p) (coerce T E p)

/-- Python's `str` and `lower`, as far as they are met here. -/
structure PythonTexts (T : TextOps) : Prop where
  null : T.str .null = "None".toList
  lower : ∀ text : Text, (∀ c ∈ text, c.isLower ∨ c = '_') → T.lower text = text

theorem oneOf_known (hT : PythonTexts T) (word : Text) {allowed : List Text} {default : Text}
    (hmem : word ∈ allowed) (hword : (word.all fun c => c.isLower || c == '_') = true)
    (hstrip : strip word = word) (hne : String.ofList word ≠ "") :
    oneOf T (some (textJson word)) allowed default = word := by
  have hlower : ∀ c ∈ word, c.isLower ∨ c = '_' := by simpa using hword
  have htruthy : truthy (some (textJson word)) = true := by
    unfold textJson truthy
    split <;> simp_all
  have hcandidate : T.lower (strip (if truthy (some (textJson word)) then
      ((some (textJson word)).map T.strOf).getD [] else default)) = word := by
    rw [if_pos htruthy]
    simp [textJson, TextOps.strOf, hstrip, hT.lower word hlower]
  unfold oneOf
  rw [hcandidate]
  exact if_pos hmem

/-- A verdict when the upload is missing. -/
def Verdict.withUpload (missing : Bool) : Verdict → Verdict
  | .analyzes media prompt => if missing then .missingUpload else .analyzes media prompt
  | v => v

theorem settle_missing (c : Coerced) (missing : Bool) (action : Text) :
    c.settle missing action = (c.settle false action).withUpload missing := by
  unfold Coerced.settle
  by_cases hconflict : (c.mediaAsked ∧ action ≠ analyzeAttachment) ∨
      (c.query ≠ [] ∧ action ≠ captureHighres)
  · simp only [if_pos hconflict, Verdict.withUpload]
  by_cases hsilent : action ≠ captureHighres ∧ strip c.response = []
  · simp only [if_neg hconflict, if_pos hsilent, Verdict.withUpload]
  by_cases hanalyze : action = analyzeAttachment
  · simp only [if_neg hconflict, if_neg hsilent, if_pos hanalyze, Bool.false_eq_true, if_false,
      Verdict.withUpload]
  by_cases hcapture : action = captureHighres
  · simp only [if_neg hconflict, if_neg hsilent, if_neg hanalyze, if_pos hcapture]
    generalize (if c.query = [] then c.transcript else c.query) = sought
    by_cases hsought : sought = []
    · simp only [if_pos hsought, Verdict.withUpload]
    · simp only [if_neg hsought, Verdict.withUpload]
  · simp only [if_neg hconflict, if_neg hsilent, if_neg hanalyze, if_neg hcapture,
      Verdict.withUpload]

theorem verdict_ne_missing (c : Coerced) : c.verdict false ≠ .missingUpload := by
  unfold Coerced.verdict Coerced.settle
  cases c.owner with
  | none => simp
  | some action =>
    simp only [Bool.false_eq_true, if_false]
    split_ifs <;> simp

/-- An upload that is missing only matters where one is analyzed. -/
theorem verdict_missing (c : Coerced) (missing : Bool) :
    c.verdict missing = (c.verdict false).withUpload missing := by
  unfold Coerced.verdict
  cases c.owner with
  | none => rfl
  | some action => exact settle_missing c missing action

end Parsing

section Outcomes
variable {T : TextOps} {E : Surroundings} {p : Fields}

theorem parsePayload_eq (rawContent : Text) :
    parsePayload T E rawContent p =
      finish T E rawContent (coerce T E p).transcript (coerce T E p).response
        (normalizeActionEnvelope T p (coerce T E p).transcript (coerce T E p).response).1
        (normalizeActionEnvelope T p (coerce T E p).transcript (coerce T E p).response).2 := rfl

/-- No upload is missing. -/
theorem outcome_finish {payload : Fields} {rawContent transcript response recovery : Text}
    (h : isMissingUploadedAttachmentRoute E
      (normalizeSelectedInputSource T (payload.get? "selected_input_source"))
      (normalizeMediaAnalysisAction T (payload.get? "media_analysis_action")) = false) :
    outcome (finish T E rawContent transcript response payload recovery) =
      { owner := payload.get? "turn_action"
        source := payload.get? "selected_input_source"
        media := payload.get? "media_analysis_action"
        prompt := payload.get? "media_analysis_prompt"
        query := payload.get? "highres_query"
        transcript := transcript
        response := if truthy (payload.get? "_action_fallback") then [] else response
        fallsBack := truthy (payload.get? "_action_fallback") } := by
  have hrecovery : ∀ k, k ≠ "_action_recovery" →
      (if recovery = [] then payload
        else payload.set "_action_recovery" (textJson recovery)).get? k = payload.get? k := by
    intro k hk
    split
    · rfl
    · exact get?_set_ne _ _ hk
  unfold finish
  dsimp only
  rw [h, if_neg (by simp)]
  simp only [outcome, TurnResult.fallsBack]
  rw [get?_set_ne _ _ (by decide), get?_set_ne _ _ (by decide), get?_set_ne _ _ (by decide),
    get?_set_ne _ _ (by decide), get?_set_ne _ _ (by decide), get?_set_ne _ _ (by decide),
    hrecovery _ (by decide), hrecovery _ (by decide), hrecovery _ (by decide),
    hrecovery _ (by decide), hrecovery _ (by decide), hrecovery _ (by decide)]

/-- What the Speaker goes by is settled by the coerced members. -/
theorem outcome_parsePayload (hT : PythonTexts T) (E : Surroundings) (rawContent : Text)
    (p : Fields) :
    outcome (parsePayload T E rawContent p) =
      outcomeOf T (coerce T E p)
        ((coerce T E p).verdict (decide (E.uploadedAttachmentAvailable = some false))) := by
  have hnone : normalizeSelectedInputSource T (some (.str "none")) = "none".toList :=
    oneOf_known hT "none".toList (by decide) (by decide) (by decide) (by decide)
  have hnone' : normalizeMediaAnalysisAction T (some (.str "none")) = "none".toList :=
    oneOf_known hT "none".toList (by decide) (by decide) (by decide) (by decide)
  have hupload : normalizeSelectedInputSource T (some (.str "uploaded_attachment")) =
      "uploaded_attachment".toList :=
    oneOf_known hT "uploaded_attachment".toList (by decide) (by decide) (by decide) (by decide)
  have hmarked : truthy ((ownMembers p).get? "_action_fallback") = (coerce T E p).marked := by
    rw [get?_ownMembers (by simp) (by simp)]
    rfl
  have hnever := verdict_ne_missing (coerce T E p)
  rw [parsePayload_eq, normalize_payload, verdict_missing (coerce T E p)
    (decide (E.uploadedAttachmentAvailable = some false))]
  generalize (normalizeActionEnvelope T p (coerce T E p).transcript (coerce T E p).response).2 =
    recovery
  generalize coerce T E p = c at hmarked hnever ⊢
  generalize c.verdict false = v at hnever ⊢
  generalize ownMembers p = own at hmarked ⊢
  have hkept : isMissingUploadedAttachmentRoute E "none".toList "none".toList = false := by
    refine decide_eq_false ?_
    rintro ⟨-, hasked, -⟩
    revert hasked
    decide
  have hroute : ∀ media, isMissingUploadedAttachmentRoute E "uploaded_attachment".toList media =
      decide (E.uploadedAttachmentAvailable = some false) := by
    intro media
    refine decide_eq_decide.mpr ⟨fun h => h.2.2, fun h => ⟨by decide, .inl rfl, h⟩⟩
  have htext : ∀ t : String, textJson t.toList = .str t := fun t => by
    rw [textJson, String.ofList_toList]
  have hempty : textJson [] = .str "" := rfl
  have hcapture : textJson captureHighres = .str "capture_highres" := htext _
  have hanalyze : textJson analyzeAttachment = .str "analyze_attachment" := htext _
  cases v with
  | fallback =>
    refine (outcome_finish ?_).trans ?_
    · simp only [payloadOf, thinkingFallbackPayload, get?_set_self, get?_set_ne, ne_eq,
        String.reduceEq, not_false_eq_true, hnone, hnone', hkept]
    · simp [payloadOf, thinkingFallbackPayload, outcomeOf, Verdict.withUpload, truthy]
  | missingUpload => exact absurd rfl hnever
  | speaks action =>
    refine (outcome_finish ?_).trans ?_
    · simp only [payloadOf, ownFields, get?_set_self, get?_set_ne, ne_eq, htext,
        String.reduceEq, not_false_eq_true, hnone, hnone', hkept]
    · simp only [payloadOf, ownFields, get?_set_self, get?_set_ne, ne_eq, htext, hmarked,
        String.reduceEq, not_false_eq_true, outcomeOf, Verdict.withUpload, hempty]
  | captures query =>
    refine (outcome_finish ?_).trans ?_
    · simp only [payloadOf, ownFields, get?_set_self, get?_set_ne, ne_eq, htext,
        String.reduceEq, not_false_eq_true, hnone, hnone', hkept]
    · simp only [payloadOf, ownFields, get?_set_self, get?_set_ne, ne_eq, htext, hmarked,
        String.reduceEq, not_false_eq_true, outcomeOf, Verdict.withUpload, hcapture, hempty]
  | analyzes media prompt =>
    have hsource : (payloadOf own (.analyzes media prompt)).get? "selected_input_source" =
        some (.str "uploaded_attachment") := by
      simp only [payloadOf, ownFields, get?_set_self, get?_set_ne, ne_eq, htext,
        String.reduceEq, not_false_eq_true]
    by_cases hupmiss : E.uploadedAttachmentAvailable = some false
    · simp only [Verdict.withUpload, hupmiss, decide_true, if_true]
      unfold finish
      dsimp only
      rw [hsource, hupload, hroute, if_pos (by simp [hupmiss])]
      simp [outcome, outcomeOf, payloadOf, ownFields, TurnResult.fallsBack, hmarked, textJson]
    · refine (outcome_finish ?_).trans ?_
      · rw [hsource, hupload, hroute]
        simpa using hupmiss
      · simp only [payloadOf, ownFields, get?_set_self, get?_set_ne, ne_eq, htext, hmarked,
          String.reduceEq, not_false_eq_true, outcomeOf, Verdict.withUpload, hupmiss, decide_false,
          Bool.false_eq_true, if_false, hanalyze, hempty]

end Outcomes

section Shapes
variable {c : Coerced}

namespace Coerced

/-- Arguments of two owners, or of another owner than the declared one. -/
def Contradicts (c : Coerced) : Prop :=
  (c.mediaAsked ∧ c.query ≠ []) ∨ c.declared ≠ [] ∧
    ((c.mediaAsked ∧ c.declared ≠ analyzeAttachment) ∨
      (c.query ≠ [] ∧ c.declared ≠ captureHighres))

/-- A capture is declared, or no action and a query for one. -/
def Captures (c : Coerced) : Prop :=
  c.declared = captureHighres ∨ c.declared = [] ∧ c.query ≠ []

/-- A capture without anything to look for. -/
def Aimless (c : Coerced) : Prop :=
  c.declared = captureHighres ∧ c.query = [] ∧ c.transcript = []

/-- Nothing to say where something has to be said. -/
def Silent (c : Coerced) : Prop := strip c.response = [] ∧ ¬ c.Captures

/-- An analysis is declared, or no action and arguments for one. -/
def Analyzes (c : Coerced) : Prop :=
  c.declared = analyzeAttachment ∨ c.declared = [] ∧ c.mediaAsked

def Fails (c : Coerced) : Prop := c.Contradicts ∨ c.Aimless ∨ c.Silent

instance (c : Coerced) : Decidable c.Contradicts := inferInstanceAs (Decidable (_ ∨ _))
instance (c : Coerced) : Decidable c.Captures := inferInstanceAs (Decidable (_ ∨ _))
instance (c : Coerced) : Decidable c.Aimless := inferInstanceAs (Decidable (_ ∧ _))
instance (c : Coerced) : Decidable c.Silent := inferInstanceAs (Decidable (_ ∧ _))
instance (c : Coerced) : Decidable c.Analyzes := inferInstanceAs (Decidable (_ ∨ _))
instance (c : Coerced) : Decidable c.Fails := inferInstanceAs (Decidable (_ ∨ _))

def withoutResponse (c : Coerced) : Coerced := { c with response := [] }

def withoutPrompt (c : Coerced) : Coerced := { c with prompt := [] }

def withoutQuery (c : Coerced) : Coerced := { c with query := [] }

def sought (c : Coerced) : Text := if c.query = [] then c.transcript else c.query

/-- How an analysis is asked for, and what. -/
def analysis (c : Coerced) : Verdict :=
  .analyzes (if c.media = "new".toList ∨ c.media = "rerun".toList then c.media else "new".toList)
    (if c.prompt = [] then c.transcript else c.prompt)

end Coerced

theorem captureHighres_ne : captureHighres ≠ [] ∧ captureHighres ≠ analyzeAttachment := by decide

theorem analyzeAttachment_ne : analyzeAttachment ≠ [] ∧ analyzeAttachment ≠ captureHighres := by
  decide

theorem respond_ne : "respond".toList ≠ analyzeAttachment ∧ "respond".toList ≠ captureHighres := by
  decide

namespace Coerced

/-- A declared capture is contradicted by media arguments alone. -/
theorem contradicts_capture (hd : c.declared = captureHighres) :
    c.Contradicts ↔ c.mediaAsked := by
  constructor
  · rintro (⟨hm, -⟩ | ⟨-, ⟨hm, -⟩ | ⟨-, hother⟩⟩)
    · exact hm
    · exact hm
    · exact absurd hd hother
  · intro hm
    refine .inr ⟨?_, .inl ⟨hm, ?_⟩⟩
    · rw [hd]
      exact captureHighres_ne.1
    · rw [hd]
      exact captureHighres_ne.2

/-- A declared action is contradicted by the arguments of another one. -/
theorem contradicts_declared (hd : c.declared ≠ []) :
    c.Contradicts ↔ (c.mediaAsked ∧ c.declared ≠ analyzeAttachment) ∨
      (c.query ≠ [] ∧ c.declared ≠ captureHighres) := by
  constructor
  · rintro (⟨hm, hq⟩ | ⟨-, h⟩)
    · by_cases hc : c.declared = captureHighres
      · refine .inl ⟨hm, ?_⟩
        rw [hc]
        exact captureHighres_ne.2
      · exact .inr ⟨hq, hc⟩
    · exact h
  · exact fun h => .inr ⟨hd, h⟩

theorem contradicts_undeclared (hd : c.declared = []) :
    c.Contradicts ↔ c.mediaAsked ∧ c.query ≠ [] :=
  or_iff_left fun h => h.1 hd

/-- Without a query, media arguments contradict another action than the analysis. -/
theorem contradicts_unqueried (hq : c.query = []) :
    c.Contradicts ↔ c.declared ≠ [] ∧ c.mediaAsked ∧ c.declared ≠ analyzeAttachment := by
  simp [Contradicts, hq]

theorem sought_eq_nil : c.sought = [] ↔ c.query = [] ∧ c.transcript = [] := by
  unfold sought
  split
  · next hq => exact (and_iff_right hq).symm
  · next hq => exact iff_of_false hq fun h => hq h.1

theorem fails_of_captures (hcap : c.Captures) : c.Fails ↔ c.Contradicts ∨ c.Aimless := by
  have hloud : ¬ c.Silent := fun h => h.2 hcap
  simp [Fails, hloud]

/-- A declared capture fails on media arguments and where it has nothing to look for. -/
theorem fails_capture (hd : c.declared = captureHighres) :
    c.Fails ↔ c.mediaAsked ∨ c.sought = [] := by
  have haim : c.Aimless ↔ c.sought = [] := (and_iff_right hd).trans sought_eq_nil.symm
  rw [fails_of_captures (.inl hd), contradicts_capture hd, haim]

theorem fails_of_not_captures (hcap : ¬ c.Captures) :
    c.Fails ↔ c.Contradicts ∨ strip c.response = [] := by
  have haim : ¬ c.Aimless := fun h => hcap (.inl h.1)
  have hsilent : c.Silent ↔ strip c.response = [] := and_iff_left hcap
  rw [Fails, hsilent, or_iff_right haim]

theorem query_eq_nil (hcap : ¬ c.Captures) (hd : c.declared = []) : c.query = [] := by
  by_contra hq
  exact hcap (.inr ⟨hd, hq⟩)

/-- An envelope without a contradiction is for one action. -/
theorem Analyzes.not_captures (h : c.Analyzes) (hcontra : ¬ c.Contradicts) : ¬ c.Captures := by
  rintro (hcap | ⟨hd, hq⟩)
  · rcases h with h | ⟨h, -⟩
    · exact captureHighres_ne.2 (hcap.symm.trans h)
    · exact captureHighres_ne.1 (hcap.symm.trans h)
  · rcases h with h | ⟨-, hm⟩
    · exact analyzeAttachment_ne.1 (h.symm.trans hd)
    · exact hcontra (.inl ⟨hm, hq⟩)

theorem Analyzes.query_eq_nil (h : c.Analyzes) (hcontra : ¬ c.Contradicts) : c.query = [] := by
  rcases h with h | ⟨-, hm⟩
  · by_contra hq
    refine hcontra (.inr ⟨?_, .inr ⟨hq, ?_⟩⟩)
    · rw [h]
      exact analyzeAttachment_ne.1
    · rw [h]
      exact analyzeAttachment_ne.2
  · by_contra hq
    exact hcontra (.inl ⟨hm, hq⟩)

end Coerced

theorem settle_capture (missing : Bool) (hm : ¬ c.mediaAsked) :
    c.settle missing captureHighres =
      if c.sought = [] then .fallback else .captures c.sought := by
  unfold Coerced.settle
  have hfits : ¬((c.mediaAsked ∧ captureHighres ≠ analyzeAttachment) ∨
      (c.query ≠ [] ∧ captureHighres ≠ captureHighres)) := by
    rintro (h | h)
    · exact hm h.1
    · exact h.2 rfl
  rw [if_neg hfits, if_neg (fun h => h.1 rfl), if_neg captureHighres_ne.2, if_pos rfl]
  rfl

theorem settle_analysis (missing : Bool) (hq : c.query = []) :
    c.settle missing analyzeAttachment =
      if strip c.response = [] then .fallback
      else if missing then .missingUpload else c.analysis := by
  unfold Coerced.settle
  have hfits : ¬((c.mediaAsked ∧ analyzeAttachment ≠ analyzeAttachment) ∨
      (c.query ≠ [] ∧ analyzeAttachment ≠ captureHighres)) := by
    rintro (h | h)
    · exact h.2 rfl
    · exact h.1 hq
  rw [if_neg hfits, if_pos rfl]
  exact if_congr (and_iff_right analyzeAttachment_ne.2) rfl rfl

/-- An action that has only words. -/
theorem settle_words (missing : Bool) {action : Text} (hm : ¬ c.mediaAsked) (hq : c.query = [])
    (ha : action ≠ analyzeAttachment) (hc : action ≠ captureHighres) :
    c.settle missing action = if strip c.response = [] then .fallback else .speaks action := by
  unfold Coerced.settle
  have hfits : ¬((c.mediaAsked ∧ action ≠ analyzeAttachment) ∨
      (c.query ≠ [] ∧ action ≠ captureHighres)) := by
    rintro (h | h)
    · exact hm h.1
    · exact h.1 hq
  rw [if_neg hfits, if_neg ha, if_neg hc]
  exact if_congr (and_iff_right hc) rfl rfl

/-- An envelope that declares its action. -/
theorem settle_declared (missing : Bool) (hd : c.declared ≠ []) :
    c.settle missing c.declared =
      if c.Fails then .fallback
      else if c.Captures then .captures c.sought
      else if c.Analyzes then if missing then .missingUpload else c.analysis
      else .speaks c.declared := by
  have hiff := Coerced.contradicts_declared hd
  by_cases hcontra : c.Contradicts
  · rw [if_pos (.inl hcontra)]
    exact if_pos (hiff.mp hcontra)
  obtain ⟨hmedia, hquery⟩ := not_or.mp (mt hiff.mpr hcontra)
  by_cases hc : c.declared = captureHighres
  · have hcap : c.Captures := .inl hc
    have hm : ¬ c.mediaAsked := mt (Coerced.contradicts_capture hc).mpr hcontra
    rw [hc, settle_capture missing hm, if_pos hcap]
    exact if_congr ((Coerced.fails_capture hc).trans (or_iff_right hm)).symm rfl rfl
  have hq : c.query = [] := not_not.mp fun h => hquery ⟨h, hc⟩
  have hcap : ¬ c.Captures := fun h => h.elim hc fun h => hd h.1
  have hfails : c.Fails ↔ strip c.response = [] := by
    rw [Coerced.fails_of_not_captures hcap, or_iff_right hcontra]
  rw [if_neg hcap]
  by_cases ha : c.declared = analyzeAttachment
  · have hana : c.Analyzes := .inl ha
    rw [ha, settle_analysis missing hq, if_pos hana]
    exact if_congr hfails.symm rfl rfl
  · have hana : ¬ c.Analyzes := fun h => h.elim ha fun h => hd h.1
    have hm : ¬ c.mediaAsked := fun h => hmedia ⟨h, ha⟩
    rw [settle_words missing hm hq ha hc, if_neg hana]
    exact if_congr hfails.symm rfl rfl

/-- An envelope whose action is that of its arguments. -/
theorem verdict_undeclared (missing : Bool) (hd : c.declared = []) :
    c.verdict missing =
      if c.Fails then .fallback
      else if c.Captures then .captures c.sought
      else if c.Analyzes then if missing then .missingUpload else c.analysis
      else .speaks "respond".toList := by
  have hcontra := Coerced.contradicts_undeclared hd
  by_cases hq : c.query = []
  · have hcap : ¬ c.Captures := by
      rintro (h | h)
      · exact captureHighres_ne.1 (h.symm.trans hd)
      · exact h.2 hq
    have hfails : c.Fails ↔ strip c.response = [] := by
      rw [Coerced.fails_of_not_captures hcap, hcontra]
      exact or_iff_right fun h => h.2 hq
    rw [if_neg hcap]
    by_cases hm : c.mediaAsked
    · have howner : c.owner = some analyzeAttachment := by simp [Coerced.owner, hd, hm, hq]
      have hana : c.Analyzes := .inr ⟨hd, hm⟩
      rw [Coerced.verdict, howner, if_pos hana]
      exact (settle_analysis missing hq).trans (if_congr hfails.symm rfl rfl)
    · have hana : ¬ c.Analyzes := by
        rintro (h | h)
        · exact analyzeAttachment_ne.1 (h.symm.trans hd)
        · exact hm h.2
      rw [if_neg hana]
      by_cases hr : strip c.response = []
      · have howner : c.owner = none := by simp [Coerced.owner, hd, hm, hq, hr]
        rw [Coerced.verdict, howner, if_pos (hfails.mpr hr)]
      · have howner : c.owner = some "respond".toList := by
          simp [Coerced.owner, hd, hm, hq, hr]
        rw [Coerced.verdict, howner]
        exact (settle_words missing hm hq respond_ne.1 respond_ne.2).trans
          (if_congr hfails.symm rfl rfl)
  · by_cases hm : c.mediaAsked
    · have howner : c.owner = none := by simp [Coerced.owner, hd, hm, hq]
      rw [Coerced.verdict, howner, if_pos (.inl (.inl ⟨hm, hq⟩))]
    · have howner : c.owner = some captureHighres := by simp [Coerced.owner, hd, hm, hq]
      have hcap : c.Captures := .inr ⟨hd, hq⟩
      have hsought : c.sought ≠ [] := fun h => hq (Coerced.sought_eq_nil.mp h).1
      have hfails : ¬ c.Fails := by
        rw [Coerced.fails_of_captures hcap, hcontra]
        rintro (h | h)
        · exact hm h.1
        · exact hq h.2.1
      rw [Coerced.verdict, howner, if_neg hfails, if_pos hcap]
      exact (settle_capture missing hm).trans (if_neg hsought)

theorem verdict_eq (c : Coerced) (missing : Bool) :
    c.verdict missing =
      if c.Fails then .fallback
      else if c.Captures then .captures c.sought
      else if c.Analyzes then if missing then .missingUpload else c.analysis
      else .speaks (if c.declared = [] then "respond".toList else c.declared) := by
  by_cases hd : c.declared = []
  · rw [if_pos hd]
    exact verdict_undeclared missing hd
  · have howner : c.owner = some c.declared := if_pos hd
    rw [if_neg hd, Coerced.verdict, howner]
    exact settle_declared missing hd

/-- The declared owner of an outcome. -/
def Verdict.owner : Verdict → Json
  | .fallback => .str "think"
  | .missingUpload => .str "clarify"
  | .speaks action => textJson action
  | .analyzes .. => .str "analyze_attachment"
  | .captures _ => .str "capture_highres"

theorem owner_outcomeOf (T : TextOps) (c : Coerced) (v : Verdict) :
    (outcomeOf T c v).owner = some v.owner := by cases v <;> rfl

/-- No other action has the owner of an analysis. -/
theorem owner_analysis_ne (c : Coerced) (missing : Bool) {a : String} (hmissing : "clarify" ≠ a)
    (hana : "analyze_attachment" ≠ a) :
    (if missing = true then Verdict.missingUpload else c.analysis).owner ≠ .str a := by
  cases missing with
  | true => exact fun h => hmissing (Json.str.inj h)
  | false => exact fun h => hana (Json.str.inj h)

theorem textJson_injective {a b : Text} (h : textJson a = textJson b) : a = b := by
  have hstr := Json.str.inj h
  rw [← String.toList_ofList (l := a), ← String.toList_ofList (l := b), hstr]

theorem textJson_eq_str {a : Text} {s : String} : textJson a = .str s ↔ a = s.toList := by
  rw [textJson, Json.str.injEq]
  exact ⟨fun h => by rw [← h, String.toList_ofList], fun h => by rw [h, String.ofList_toList]⟩

def think : Text := "think".toList

namespace Coerced

theorem Captures.ne_think (h : c.Captures) : c.declared ≠ think := by
  intro hthink
  rcases h with h | ⟨h, -⟩
  · exact absurd (h.symm.trans hthink) (by decide)
  · exact absurd (h.symm.trans hthink) (by decide)

theorem Analyzes.ne_think (h : c.Analyzes) : c.declared ≠ think := by
  intro hthink
  rcases h with h | ⟨h, -⟩
  · exact absurd (h.symm.trans hthink) (by decide)
  · exact absurd (h.symm.trans hthink) (by decide)

end Coerced

/-- An action that has only words falls back in name when it is to think. -/
theorem speaks_eq_fallback {T : TextOps} {c c' : Coerced} {action : Text}
    (ht : c.transcript = c'.transcript) :
    outcomeOf T c (.speaks action) = outcomeOf T c' .fallback ↔
      action = think ∧ c.marked = true := by
  simp only [outcomeOf, Outcome.mk.injEq, Option.some.injEq, textJson_eq_str, ht, true_and]
  constructor
  · exact fun h => ⟨h.1, h.2.2⟩
  · rintro ⟨h, hm⟩
    exact ⟨h, by rw [if_pos hm], hm⟩

theorem outcome_ne {T : TextOps} {c c' : Coerced} {v v' : Verdict} (h : v.owner ≠ v'.owner) :
    outcomeOf T c v ≠ outcomeOf T c' v' := by
  intro heq
  have howner := congrArg Outcome.owner heq
  rw [owner_outcomeOf, owner_outcomeOf, Option.some.injEq] at howner
  exact h howner

end Shapes

section Edges
variable {T : TextOps} {c : Coerced} {missing : Bool}

/-- A response in the way of nothing: the envelope falls back whatever it says, or the response
is left out. -/
def HarmlessResponse (c : Coerced) : Prop :=
  c.Contradicts ∨ c.Aimless ∨ c.marked = true ∧ (c.Captures ∨ c.declared = think)

theorem response_edge (T : TextOps) (hr : strip c.response ≠ []) :
    outcomeOf T c (c.verdict missing) =
        outcomeOf T c.withoutResponse (c.withoutResponse.verdict missing) ↔
      HarmlessResponse c := by
  have hloud : ¬ c.Silent := fun h => hr h.1
  have hsilent : c.withoutResponse.Silent ↔ ¬ c.Captures :=
    ⟨fun h => h.2, fun h => ⟨rfl, h⟩⟩
  have hfails : c.Fails ↔ c.Contradicts ∨ c.Aimless := by
    simp [Coerced.Fails, hloud]
  have hfails' : c.withoutResponse.Fails ↔
      c.Contradicts ∨ c.Aimless ∨ ¬ c.Captures := by
    rw [← hsilent]
    exact Iff.rfl
  have hne : c.response ≠ [] := by
    intro h
    rw [h] at hr
    exact hr rfl
  rw [verdict_eq, verdict_eq]
  by_cases hbad : c.Contradicts ∨ c.Aimless
  · rw [if_pos (hfails.mpr hbad), if_pos (hfails'.mpr (or_assoc.mp (.inl hbad)))]
    exact iff_of_true rfl (or_assoc.mp (.inl hbad))
  have hharmless : HarmlessResponse c ↔ c.marked = true ∧ (c.Captures ∨ c.declared = think) := by
    rw [HarmlessResponse, ← or_assoc]
    exact or_iff_right hbad
  rw [if_neg (mt hfails.mp hbad), hharmless]
  by_cases hcap : c.Captures
  · have hkeeps : ¬ c.withoutResponse.Fails := by
      rw [hfails', ← or_assoc]
      exact fun h => h.elim hbad (· hcap)
    have hcap' : c.withoutResponse.Captures := hcap
    rw [if_pos hcap, if_neg hkeeps, if_pos hcap']
    cases hm : c.marked with
    | true => simp [outcomeOf, hm, hcap, Coerced.sought, Coerced.withoutResponse]
    | false => simp [outcomeOf, hm, hne, Coerced.withoutResponse]
  · rw [if_neg hcap, if_pos (hfails'.mpr (.inr (.inr hcap)))]
    by_cases hana : c.Analyzes
    · rw [if_pos hana]
      exact iff_of_false (outcome_ne (owner_analysis_ne c missing (by decide) (by decide)))
        fun h => h.2.elim hcap hana.ne_think
    · have ht : c.transcript = c.withoutResponse.transcript := rfl
      rw [if_neg hana, speaks_eq_fallback ht]
      have haction : (if c.declared = [] then "respond".toList else c.declared) = think ↔
          c.declared = think := by
        split
        · rename_i hd
          rw [hd]
          decide
        · rfl
      rw [haction, and_comm]
      simp [hcap]

/-- A prompt in the way of nothing: the envelope falls back without it too, or it is left out,
or what is analyzed is what it says in any case. -/
def HarmlessPrompt (missing : Bool) (c : Coerced) : Prop :=
  c.withoutPrompt.Fails ∨ (c.declared = think ∧ c.marked = true) ∨
    (c.withoutPrompt.Analyzes ∧ (missing = true ∨ c.transcript = c.prompt))

theorem mediaAsked_prompt (hp : c.prompt ≠ []) : c.mediaAsked := .inr (.inr (.inr hp))

/-- A prompt does not help an envelope that fails. -/
theorem fails_prompt (hp : c.prompt ≠ []) (hw : c.withoutPrompt.Fails) : c.Fails := by
  have hasked := mediaAsked_prompt hp
  rcases hw with hcontra | haim | hsilent
  · exact .inl (hcontra.imp (fun h => ⟨hasked, h.2⟩) fun h =>
      ⟨h.1, h.2.imp (fun h => ⟨hasked, h.2⟩) id⟩)
  · have hd : c.declared = captureHighres := haim.1
    exact .inl ((Coerced.contradicts_capture hd).mpr hasked)
  · exact .inr (.inr hsilent)

/-- A prompt is refused beside a capture. -/
theorem prompt_captures (T : TextOps) (hp : c.prompt ≠ []) (hw : ¬ c.withoutPrompt.Fails)
    (hcap : c.Captures) :
    outcomeOf T c (c.verdict missing) ≠ outcomeOf T c (c.withoutPrompt.verdict missing) := by
  have hasked := mediaAsked_prompt hp
  have hfails : c.Fails := by
    rcases hcap with hd | ⟨hd, hq⟩
    · exact .inl ((Coerced.contradicts_capture hd).mpr hasked)
    · exact .inl (.inl ⟨hasked, hq⟩)
  have hcap' : c.withoutPrompt.Captures := hcap
  rw [verdict_eq, verdict_eq, if_pos hfails, if_neg hw, if_pos hcap']
  exact outcome_ne (by simp [Verdict.owner])

/-- Without its prompt an analysis is of the transcript. -/
theorem prompt_analyzes (T : TextOps) (hp : c.prompt ≠ []) (hw : ¬ c.withoutPrompt.Fails)
    (hana' : c.withoutPrompt.Analyzes) :
    outcomeOf T c (c.verdict missing) = outcomeOf T c (c.withoutPrompt.verdict missing) ↔
      missing = true ∨ c.transcript = c.prompt := by
  have hcontra : ¬ c.withoutPrompt.Contradicts := fun h => hw (.inl h)
  have hcap' : ¬ c.withoutPrompt.Captures := hana'.not_captures hcontra
  have hcap : ¬ c.Captures := hcap'
  have hquery : c.query = [] := hana'.query_eq_nil hcontra
  have hana : c.Analyzes := hana'.imp id fun h => ⟨h.1, mediaAsked_prompt hp⟩
  have hfails : ¬ c.Fails := by
    rw [Coerced.fails_of_not_captures hcap, Coerced.contradicts_unqueried hquery]
    rintro (⟨hd, -, hother⟩ | hsilent)
    · rcases hana with h | ⟨h, -⟩
      · exact hother h
      · exact hd h
    · exact hw (.inr (.inr ⟨hsilent, hcap'⟩))
  rw [verdict_eq, verdict_eq, if_neg hfails, if_neg hw, if_neg hcap, if_neg hcap', if_pos hana,
    if_pos hana']
  cases missing with
  | true => simp
  | false =>
    have hprompt : outcomeOf T c c.analysis = outcomeOf T c c.withoutPrompt.analysis ↔
        c.transcript = c.prompt := by
      simp only [Coerced.analysis, Coerced.withoutPrompt, if_neg hp, if_true, outcomeOf,
        Outcome.mk.injEq, Option.some.injEq, true_and, and_true]
      exact ⟨fun h => (textJson_injective h.2).symm, fun h => ⟨rfl, by rw [h]⟩⟩
    simpa using hprompt

/-- A prompt asks for an analysis where nothing is declared, and is refused beside words. -/
theorem prompt_speaks (T : TextOps) (hp : c.prompt ≠ []) (hw : ¬ c.withoutPrompt.Fails)
    (hcap : ¬ c.Captures) (hana' : ¬ c.withoutPrompt.Analyzes) :
    outcomeOf T c (c.verdict missing) = outcomeOf T c (c.withoutPrompt.verdict missing) ↔
      c.declared = think ∧ c.marked = true := by
  have hasked := mediaAsked_prompt hp
  have hcap' : ¬ c.withoutPrompt.Captures := hcap
  rw [verdict_eq, verdict_eq, if_neg hw, if_neg hcap', if_neg hana']
  by_cases hd : c.declared = []
  · have hfails : ¬ c.Fails := by
      rw [Coerced.fails_of_not_captures hcap, Coerced.contradicts_undeclared hd]
      rintro (⟨-, hq⟩ | hsilent)
      · exact hq (Coerced.query_eq_nil hcap hd)
      · exact hw (.inr (.inr ⟨hsilent, hcap'⟩))
    have hana : c.Analyzes := .inr ⟨hd, hasked⟩
    have hd' : c.withoutPrompt.declared = [] := hd
    rw [if_neg hfails, if_neg hcap, if_pos hana, if_pos hd']
    exact iff_of_false (outcome_ne (owner_analysis_ne c missing (by decide) (by decide)))
      fun h => hana.ne_think h.1
  · have hfails : c.Fails := .inl (.inr ⟨hd, .inl ⟨hasked, fun h => hana' (.inl h)⟩⟩)
    have hd' : c.withoutPrompt.declared ≠ [] := hd
    rw [if_pos hfails, if_neg hd', eq_comm, speaks_eq_fallback rfl]
    exact Iff.rfl

theorem prompt_edge (T : TextOps) (hp : c.prompt ≠ []) :
    outcomeOf T c (c.verdict missing) =
        outcomeOf T c.withoutPrompt (c.withoutPrompt.verdict missing) ↔
      HarmlessPrompt missing c := by
  have hsame : outcomeOf T c.withoutPrompt = outcomeOf T c := by
    funext v
    cases v <;> rfl
  rw [hsame]
  by_cases hw : c.withoutPrompt.Fails
  · rw [verdict_eq, verdict_eq, if_pos (fails_prompt hp hw), if_pos hw]
    exact iff_of_true rfl (.inl hw)
  have hharmless : HarmlessPrompt missing c ↔ (c.declared = think ∧ c.marked = true) ∨
      (c.withoutPrompt.Analyzes ∧ (missing = true ∨ c.transcript = c.prompt)) := or_iff_right hw
  rw [hharmless]
  by_cases hana : c.withoutPrompt.Analyzes
  · have hthink : c.declared ≠ think := hana.ne_think
    rw [prompt_analyzes T hp hw hana]
    simp [hana, hthink]
  by_cases hcap : c.Captures
  · refine iff_of_false (prompt_captures T hp hw hcap) ?_
    rintro (⟨hd, -⟩ | ⟨h, -⟩)
    · exact hcap.ne_think hd
    · exact hana h
  · rw [prompt_speaks T hp hw hcap hana]
    simp [hana]

/-- A query in the way of nothing: a capture that looks for it in any case, or that is refused
for its other arguments, or an envelope that falls back without it too. -/
def HarmlessQuery (c : Coerced) : Prop :=
  (c.declared = captureHighres ∧ (c.mediaAsked ∨ c.transcript = c.query)) ∨
    (c.declared ≠ captureHighres ∧ (c.declared ≠ [] ∨ c.mediaAsked) ∧
      (strip c.response = [] ∨ c.withoutQuery.Contradicts ∨
        (c.declared = think ∧ c.marked = true)))

/-- Without its query a capture looks for the transcript. -/
theorem query_captures (T : TextOps) (hq : c.query ≠ []) (hd : c.declared = captureHighres) :
    outcomeOf T c (c.verdict missing) = outcomeOf T c (c.withoutQuery.verdict missing) ↔
      c.mediaAsked ∨ c.transcript = c.query := by
  have hd' : c.withoutQuery.declared = captureHighres := hd
  have hsought : c.sought = c.query := if_neg hq
  have hsought' : c.withoutQuery.sought = c.transcript := if_pos rfl
  have hfails : c.Fails ↔ c.mediaAsked ∨ c.query = [] := by
    rw [Coerced.fails_capture hd, hsought]
  have hfails' : c.withoutQuery.Fails ↔ c.mediaAsked ∨ c.transcript = [] := by
    rw [Coerced.fails_capture hd', hsought']
    exact Iff.rfl
  have hcap : c.Captures := .inl hd
  have hcap' : c.withoutQuery.Captures := .inl hd'
  rw [verdict_eq, verdict_eq, if_pos hcap, if_pos hcap', hsought, hsought']
  by_cases hm : c.mediaAsked
  · rw [if_pos (hfails.mpr (.inl hm)), if_pos (hfails'.mpr (.inl hm))]
    exact iff_of_true rfl (.inl hm)
  rw [or_iff_right hm] at hfails hfails' ⊢
  rw [if_neg (mt hfails.mp hq)]
  by_cases ht : c.transcript = []
  · rw [if_pos (hfails'.mpr ht)]
    refine iff_of_false (outcome_ne (by simp [Verdict.owner])) fun h => hq ?_
    rw [← h, ht]
  · rw [if_neg (mt hfails'.mp ht)]
    simp only [outcomeOf, Outcome.mk.injEq, Option.some.injEq, true_and, and_true]
    exact ⟨fun h => (textJson_injective h).symm, fun h => by rw [h]⟩

/-- A query is refused beside another action; without it that action is taken. -/
theorem query_refused (T : TextOps) (hfails : c.Fails) (hcap' : ¬ c.withoutQuery.Captures)
    (hfalls : c.declared ≠ [] ∨ c.mediaAsked) :
    outcomeOf T c (c.verdict missing) = outcomeOf T c (c.withoutQuery.verdict missing) ↔
      c.withoutQuery.Fails ∨ c.declared = think ∧ c.marked = true := by
  rw [verdict_eq, verdict_eq, if_pos hfails, if_neg hcap']
  by_cases hw : c.withoutQuery.Fails
  · rw [if_pos hw]
    exact iff_of_true rfl (.inl hw)
  rw [if_neg hw, or_iff_right hw]
  by_cases hana : c.withoutQuery.Analyzes
  · rw [if_pos hana]
    exact iff_of_false
      (outcome_ne (owner_analysis_ne c.withoutQuery missing (by decide) (by decide)).symm)
      fun h => hana.ne_think h.1
  · have hdeclared : c.withoutQuery.declared ≠ [] := by
      rcases hfalls with h | h
      · exact h
      · exact fun hnil => hana (.inr ⟨hnil, h⟩)
    rw [if_neg hana, if_neg hdeclared, eq_comm, speaks_eq_fallback rfl]
    exact Iff.rfl

/-- A query alone asks for a capture. -/
theorem query_alone (T : TextOps) (hq : c.query ≠ []) (hnil : c.declared = [])
    (hm : ¬ c.mediaAsked) :
    outcomeOf T c (c.verdict missing) ≠ outcomeOf T c (c.withoutQuery.verdict missing) := by
  have hcap : c.Captures := .inr ⟨hnil, hq⟩
  have hcap' : ¬ c.withoutQuery.Captures := by
    rintro (h | h)
    · exact captureHighres_ne.1 (h.symm.trans hnil)
    · exact h.2 rfl
  have hfails : ¬ c.Fails := by
    rw [Coerced.fails_of_captures hcap, Coerced.contradicts_undeclared hnil]
    rintro (⟨h, -⟩ | ⟨-, h, -⟩)
    · exact hm h
    · exact hq h
  have hana : ¬ c.withoutQuery.Analyzes := by
    rintro (h | h)
    · exact analyzeAttachment_ne.1 (h.symm.trans hnil)
    · exact hm h.2
  have hnil' : c.withoutQuery.declared = [] := hnil
  rw [verdict_eq, verdict_eq, if_neg hfails, if_pos hcap, if_neg hcap', if_neg hana, if_pos hnil']
  apply outcome_ne
  split <;> simp [Verdict.owner, textJson]

theorem query_edge (T : TextOps) (hq : c.query ≠ []) :
    outcomeOf T c (c.verdict missing) =
        outcomeOf T c.withoutQuery (c.withoutQuery.verdict missing) ↔
      HarmlessQuery c := by
  have hsame : outcomeOf T c.withoutQuery = outcomeOf T c := by
    funext v
    cases v <;> rfl
  rw [hsame]
  by_cases hd : c.declared = captureHighres
  · rw [query_captures T hq hd]
    simp [HarmlessQuery, hd]
  have hharmless : HarmlessQuery c ↔ (c.declared ≠ [] ∨ c.mediaAsked) ∧
      (strip c.response = [] ∨ c.withoutQuery.Contradicts ∨
        (c.declared = think ∧ c.marked = true)) := by
    simp [HarmlessQuery, hd]
  rw [hharmless]
  by_cases hfalls : c.declared ≠ [] ∨ c.mediaAsked
  · have hfails : c.Fails := by
      rcases hfalls with h | h
      · exact .inl (.inr ⟨h, .inr ⟨hq, hd⟩⟩)
      · exact .inl (.inl ⟨h, hq⟩)
    have hcap' : ¬ c.withoutQuery.Captures := fun h => h.elim hd fun h => h.2 rfl
    rw [query_refused T hfails hcap' hfalls, and_iff_right hfalls,
      Coerced.fails_of_not_captures hcap', or_comm (a := c.withoutQuery.Contradicts), or_assoc]
    exact Iff.rfl
  · rw [not_or, not_not] at hfalls
    obtain ⟨hnil, hm⟩ := hfalls
    refine iff_of_false (query_alone T hq hnil hm) ?_
    rintro ⟨h | h, -⟩
    · exact h hnil
    · exact hm h

end Edges

section Removal
variable {T : TextOps} {E : Surroundings} {p : Fields} {k : String}

/-- The payload without one of its members. -/
def without (p : Fields) (k : String) : Fields := p.filter (· ≠ k)

theorem get?_without (p : Fields) (k key : String) :
    (without p k).get? key = if key = k then none else p.get? key := by
  rw [without, get?_filter]
  by_cases h : key = k
  · simp [h]
  · simp [h]

/-- The free texts and the transcript are the only members in which a null counts. -/
def Harmless (T : TextOps) (E : Surroundings) (p : Fields) (k : String) : Prop :=
  if k = "transcript" then E.hasUserAudio = false
  else if k = "response" then HarmlessResponse (coerce T E p)
  else if k = "media_analysis_prompt" then
    HarmlessPrompt (decide (E.uploadedAttachmentAvailable = some false)) (coerce T E p)
  else if k = "highres_query" then HarmlessQuery (coerce T E p)
  else True

/-- Where a null reads as a missing member, it can be taken away. -/
theorem read_without {α : Type} (f : Option Json → α) (hf : f (some .null) = f none)
    (hk : p.get? k = some .null) (key : String) : f ((without p k).get? key) = f (p.get? key) := by
  rw [get?_without]
  by_cases h : key = k
  · rw [if_pos h, h, hk, hf]
  · rw [if_neg h]

/-- Of the coerced members, only the texts are not those of the payload without the null. -/
theorem coerce_without (hk : p.get? k = some .null) :
    coerce T E (without p k) =
      { coerce T E p with
        transcript := if k = "transcript" then [] else (coerce T E p).transcript
        response := if k = "response" then [] else (coerce T E p).response
        prompt := if k = "media_analysis_prompt" then [] else (coerce T E p).prompt
        query := if k = "highres_query" then [] else (coerce T E p).query } := by
  have htext : ∀ key, strField T (without p k) key = if k = key then [] else strField T p key := by
    intro key
    rw [strField, get?_without]
    by_cases h : key = k
    · rw [if_pos h, if_pos h.symm]
      rfl
    · rw [if_neg h, if_neg (Ne.symm h)]
      rfl
  have hresponse : cleanSpokenResponseArtifacts
      ((((without p k).get? "response").map T.strOf).getD []) =
        if k = "response" then [] else (coerce T E p).response := by
    rw [get?_without]
    by_cases h : "response" = k
    · rw [if_pos h, if_pos h.symm]
      rfl
    · rw [if_neg h, if_neg (Ne.symm h)]
      rfl
  unfold coerce
  rw [Coerced.mk.injEq]
  refine ⟨read_without (normalizeTurnAction T) rfl hk _,
    read_without (normalizeSelectedInputSource T) rfl hk _,
    read_without (normalizeMediaAnalysisAction T) rfl hk _, ?_, hresponse, htext _, htext _,
    read_without truthy rfl hk _⟩
  rw [htext]
  split_ifs <;> rfl

theorem strOf_null (hT : PythonTexts T) : T.strOf .null = "None".toList := hT.null

/-- A null that is spelled out. -/
theorem strField_null (hT : PythonTexts T) {key : String} (h : p.get? key = some .null) :
    strField T p key = "None".toList := by
  rw [strField, h, Option.map_some, strOf_null hT, Option.getD_some]
  decide

/-- A response that is null is spoken. -/
theorem response_null (hT : PythonTexts T) (h : p.get? "response" = some .null) :
    (coerce T E p).response = "None".toList := by
  change cleanSpokenResponseArtifacts (((p.get? "response").map T.strOf).getD []) = _
  rw [h, Option.map_some, Option.getD_some, strOf_null hT]
  decide

theorem coerce_without_transcript (hk : p.get? "transcript" = some .null) :
    coerce T E (without p "transcript") = { coerce T E p with transcript := [] } := by
  rw [coerce_without hk]
  simp only [String.reduceEq, if_true, if_false]

theorem coerce_without_response (hk : p.get? "response" = some .null) :
    coerce T E (without p "response") = (coerce T E p).withoutResponse := by
  rw [coerce_without hk]
  simp only [String.reduceEq, if_true, if_false, Coerced.withoutResponse]

theorem coerce_without_prompt (hk : p.get? "media_analysis_prompt" = some .null) :
    coerce T E (without p "media_analysis_prompt") = (coerce T E p).withoutPrompt := by
  rw [coerce_without hk]
  simp only [String.reduceEq, if_true, if_false, Coerced.withoutPrompt]

theorem coerce_without_query (hk : p.get? "highres_query" = some .null) :
    coerce T E (without p "highres_query") = (coerce T E p).withoutQuery := by
  rw [coerce_without hk]
  simp only [String.reduceEq, if_true, if_false, Coerced.withoutQuery]

/-- A null anywhere else is a missing member. -/
theorem coerce_without_other (hk : p.get? k = some .null) (ht : k ≠ "transcript")
    (hr : k ≠ "response") (hp : k ≠ "media_analysis_prompt") (hq : k ≠ "highres_query") :
    coerce T E (without p k) = coerce T E p := by
  rw [coerce_without hk, if_neg ht, if_neg hr, if_neg hp, if_neg hq]

theorem outcomeOf_transcript (T : TextOps) (c : Coerced) (v : Verdict) :
    (outcomeOf T c v).transcript = c.transcript := by cases v <;> rfl

/-- Without audio nothing is heard, whatever the transcript says. -/
theorem coerce_deaf (h : E.hasUserAudio = false) : (coerce T E p).transcript = [] := by
  simp [coerce, h]

/-- One null taken away. -/
theorem outcome_without (hT : PythonTexts T) (rawContent : Text) (hk : p.get? k = some .null) :
    outcome (parsePayload T E rawContent (without p k)) = outcome (parsePayload T E rawContent p) ↔
      Harmless T E p k := by
  rw [outcome_parsePayload hT, outcome_parsePayload hT, eq_comm]
  unfold Harmless
  by_cases ht : k = "transcript"
  · subst ht
    rw [if_pos rfl, coerce_without_transcript hk]
    cases hdeaf : E.hasUserAudio with
    | false =>
      have hsame : { coerce T E p with transcript := [] } = coerce T E p := by
        rw [← coerce_deaf hdeaf (T := T) (p := p)]
      rw [hsame]
      exact iff_of_true rfl rfl
    | true =>
      have hheard : (coerce T E p).transcript = "None".toList := by
        change (if E.hasUserAudio then strField T p "transcript" else []) = _
        rw [hdeaf, if_pos rfl, strField_null hT hk]
      refine iff_of_false (fun h => ?_) (by simp)
      have htranscript := congrArg Outcome.transcript h
      rw [outcomeOf_transcript, outcomeOf_transcript, hheard] at htranscript
      have hempty : "None".toList = [] := htranscript
      revert hempty
      decide
  rw [if_neg ht]
  by_cases hr : k = "response"
  · subst hr
    have hloud : strip (coerce T E p).response ≠ [] := by
      rw [response_null hT hk]
      decide
    rw [if_pos rfl, coerce_without_response hk]
    exact response_edge T hloud
  rw [if_neg hr]
  by_cases hp : k = "media_analysis_prompt"
  · subst hp
    have hprompt : (coerce T E p).prompt ≠ [] := by
      change strField T p "media_analysis_prompt" ≠ []
      rw [strField_null hT hk]
      decide
    rw [if_pos rfl, coerce_without_prompt hk]
    exact prompt_edge T hprompt
  rw [if_neg hp]
  by_cases hq : k = "highres_query"
  · subst hq
    have hquery : (coerce T E p).query ≠ [] := by
      change strField T p "highres_query" ≠ []
      rw [strField_null hT hk]
      decide
    rw [if_pos rfl, coerce_without_query hk]
    exact query_edge T hquery
  · rw [if_neg hq, coerce_without_other hk ht hr hp hq]
    exact iff_of_true rfl trivial

/-- The payload without some of its members. -/
def withoutAll (p : Fields) (s : Finset String) : Fields := p.filter (fun key => decide (key ∉ s))

/-- Members of the payload that are null. -/
def Nulls (p : Fields) (s : Finset String) : Prop := ∀ k ∈ s, p.get? k = some .null

theorem get?_withoutAll (p : Fields) (s : Finset String) (key : String) :
    (withoutAll p s).get? key = if key ∈ s then none else p.get? key := by
  rw [withoutAll, get?_filter]
  by_cases h : key ∈ s
  · simp [h]
  · simp [h]

theorem filter_true (p : Fields) : (p.filter fun _ => true) = p := by
  induction p with
  | nil => rfl
  | cons key value rest ih => simp [Fields.filter, ih]

theorem withoutAll_insert (p : Fields) (s : Finset String) (k : String) :
    withoutAll p (insert k s) = without (withoutAll p s) k := by
  rw [without, withoutAll, withoutAll, filter_filter]
  congr 1
  funext key
  rw [← Bool.decide_and]
  exact decide_eq_decide.mpr (by rw [Finset.mem_insert, not_or, and_comm])

theorem withoutAll_empty (p : Fields) : withoutAll p ∅ = p := by
  simp [withoutAll, filter_true]

/-- Nulls make no difference, whichever of them are taken away, exactly if none of them makes a
difference where it is the next to go. -/
theorem null_irrelevant_iff (hT : PythonTexts T) (rawContent : Text) (p : Fields) :
    (∀ s, Nulls p s →
      outcome (parsePayload T E rawContent (withoutAll p s)) =
        outcome (parsePayload T E rawContent p)) ↔
    ∀ s k, Nulls p (insert k s) → k ∉ s → Harmless T E (withoutAll p s) k := by
  have hstep : ∀ s k, Nulls p (insert k s) → k ∉ s →
      (outcome (parsePayload T E rawContent (withoutAll p (insert k s))) =
        outcome (parsePayload T E rawContent (withoutAll p s)) ↔
          Harmless T E (withoutAll p s) k) := by
    intro s k hnulls hks
    rw [withoutAll_insert]
    refine outcome_without hT rawContent ?_
    rw [get?_withoutAll, if_neg hks]
    exact hnulls k (Finset.mem_insert_self k s)
  have hless : ∀ s k, Nulls p (insert k s) → Nulls p s :=
    fun s k hnulls key hkey => hnulls key (Finset.mem_insert_of_mem hkey)
  constructor
  · intro h s k hnulls hks
    exact (hstep s k hnulls hks).mp ((h _ hnulls).trans (h _ (hless s k hnulls)).symm)
  · intro h s
    -- the nulls go one by one
    induction s using Finset.induction_on with
    | empty => exact fun _ => by rw [withoutAll_empty]
    | insert k s hks ih =>
      intro hnulls
      exact ((hstep s k hnulls hks).mpr (h s k hnulls hks)).trans (ih (hless s k hnulls))

theorem pythonTexts_ascii (raw : Text) (fields : Fields) :
    PythonTexts (EnvelopeSpeech.asciiText raw fields) where
  null := rfl
  lower text h := by
    have hlower : ∀ c ∈ text, c.toLower = c := by
      intro c hc
      unfold Char.toLower
      split
      · rename_i hupper
        rcases h c hc with hl | rfl
        · change (decide ('a'.val ≤ c.val) && decide (c.val ≤ 'z'.val)) = true at hl
          simp only [Bool.and_eq_true, decide_eq_true_eq] at hl
          simp only [UInt32.le_iff_toNat_le] at hl hupper
          have hend : ('Z'.val).toNat < ('a'.val).toNat := by decide
          omega
        · revert hupper
          decide
      · rfl
    exact List.map_congr_left hlower |>.trans (List.map_id text)

/-- An action that is null may as well be missing. -/
theorem null_irrelevant_action :
    let p := (Fields.nil.set "turn_action" .null).set "response" (.str "Hello.")
    let T := EnvelopeSpeech.asciiText [] p
    let E : Surroundings :=
      { hasUserAudio := true, uploadedAttachmentAvailable := none, correction := none }
    p.get? "turn_action" = some .null ∧ ∀ s, Nulls p s →
      outcome (parsePayload T E [] (withoutAll p s)) = outcome (parsePayload T E [] p) := by
  refine ⟨by decide, (null_irrelevant_iff (pythonTexts_ascii _ _) _ _).mpr ?_⟩
  intro s k hnulls _
  have hk := hnulls k (Finset.mem_insert_self k s)
  have haction : k = "turn_action" := by
    by_contra h
    by_cases hr : k = "response"
    · rw [hr, get?_set_self] at hk
      cases hk
    · rw [get?_set_ne _ _ hr, get?_set_ne _ _ h] at hk
      cases hk
  subst haction
  exact trivial

/-- A response that is null is spoken: `str` makes the word "None" of it. -/
theorem response_none_spoken :
    let p := (Fields.nil.set "turn_action" (.str "respond")).set "response" .null
    let T := EnvelopeSpeech.asciiText [] p
    let E : Surroundings :=
      { hasUserAudio := true, uploadedAttachmentAvailable := none, correction := none }
    (parsePayload T E [] p).response = "None".toList ∧ ¬ ∀ s, Nulls p s →
      outcome (parsePayload T E [] (withoutAll p s)) = outcome (parsePayload T E [] p) := by
  intro p T E
  refine ⟨by decide +kernel, fun h => ?_⟩
  have hnulls : Nulls p {"response"} := by
    intro k hk
    rw [Finset.mem_singleton.mp hk]
    decide
  have hsame := h _ hnulls
  revert hsame
  decide +kernel

end Removal

end VoiceAgent.NullMembers
