import VoiceAgent.NullMembers

/-!
The owner of a Speaker turn. Whatever the model puts into its envelope, one action owns what
comes out, with the arguments of that action and of no other, and an envelope that has come out
is a fixed point.
-/
namespace VoiceAgent.TurnOwnership

open StreamingEvents JsonValues SessionView ActionEnvelope NullMembers

section Arguments

/-- The action of a payload and the arguments that the dispatcher goes by. -/
structure Arguments where
  action : Option Json
  source : Option Json
  media : Option Json
  prompt : Option Json
  query : Option Json
  deriving DecidableEq

def arguments (payload : Fields) : Arguments where
  action := payload.get? "turn_action"
  source := payload.get? "selected_input_source"
  media := payload.get? "media_analysis_action"
  prompt := payload.get? "media_analysis_prompt"
  query := payload.get? "highres_query"

/-- The action with no argument. -/
def Arguments.bare (action : Text) : Arguments :=
  ⟨some (textJson action), some (.str "none"), some (.str "none"), some (.str ""), some (.str "")⟩

def argumentsOf : Verdict → Arguments
  | .fallback | .missingUpload => .bare "think".toList
  | .speaks action => .bare action
  | .analyzes media prompt =>
    ⟨some (textJson analyzeAttachment), some (.str "uploaded_attachment"), some (textJson media),
      some (textJson prompt), some (.str "")⟩
  | .captures query =>
    ⟨some (textJson captureHighres), some (.str "none"), some (.str "none"), some (.str ""),
      some (textJson query)⟩

theorem arguments_ownFields (payload : Fields) (source media prompt query action : Text) :
    arguments ((ownFields payload source media prompt query).set "turn_action" (textJson action)) =
      ⟨some (textJson action), some (textJson source), some (textJson media),
        some (textJson prompt), some (textJson query)⟩ := by
  simp [arguments, ownFields]

theorem arguments_payloadOf (payload : Fields) (v : Verdict) :
    arguments (payloadOf payload v) = argumentsOf v := by
  cases v with
  | fallback => simp [arguments, payloadOf, thinkingFallbackPayload, argumentsOf]; rfl
  | missingUpload => simp [arguments, payloadOf, thinkingFallbackPayload, argumentsOf]; rfl
  | speaks action => exact arguments_ownFields payload _ _ _ _ action
  | analyzes media prompt => exact arguments_ownFields payload _ _ _ _ _
  | captures query => exact arguments_ownFields payload _ _ _ _ _

end Arguments

section Owners
variable {T : TextOps} {c : Coerced} {action word : Text}

/-- What is left of an envelope whose owner nothing contradicts. -/
structure Settles (c : Coerced) (action : Text) : Prop where
  media : c.mediaAsked → action = analyzeAttachment
  capture : c.query ≠ [] → action = captureHighres
  answered : action ≠ captureHighres → strip c.response ≠ []

/-- The verdicts that are no fallback. -/
theorem settle_cases (c : Coerced) (action : Text) (h : c.settle false action ≠ .fallback) :
    Settles c action ∧
      ((action = analyzeAttachment ∧ c.settle false action = .analyzes
          (if c.media = "new".toList ∨ c.media = "rerun".toList then c.media else "new".toList)
          (if c.prompt = [] then c.transcript else c.prompt)) ∨
        (action = captureHighres ∧ (if c.query = [] then c.transcript else c.query) ≠ [] ∧
          c.settle false action = .captures (if c.query = [] then c.transcript else c.query)) ∨
        (action ≠ analyzeAttachment ∧ action ≠ captureHighres ∧
          c.settle false action = .speaks action)) := by
  unfold Coerced.settle at h ⊢
  by_cases hconflict : (c.mediaAsked ∧ action ≠ analyzeAttachment) ∨
      (c.query ≠ [] ∧ action ≠ captureHighres)
  · exact absurd (if_pos hconflict) h
  rw [if_neg hconflict] at h ⊢
  by_cases hsilent : action ≠ captureHighres ∧ strip c.response = []
  · exact absurd (if_pos hsilent) h
  rw [if_neg hsilent] at h ⊢
  have hsettles : Settles c action :=
    { media := fun hm => by_contra fun hne => hconflict (.inl ⟨hm, hne⟩)
      capture := fun hq => by_contra fun hne => hconflict (.inr ⟨hq, hne⟩)
      answered := fun hne hr => hsilent ⟨hne, hr⟩ }
  refine ⟨hsettles, ?_⟩
  by_cases hanalyze : action = analyzeAttachment
  · rw [if_pos hanalyze]
    exact .inl ⟨hanalyze, rfl⟩
  rw [if_neg hanalyze] at h ⊢
  by_cases hcapture : action = captureHighres
  · rw [if_pos hcapture] at h ⊢
    generalize (if c.query = [] then c.transcript else c.query) = sought at h ⊢
    by_cases hsought : sought = []
    · exact absurd (if_pos hsought) h
    · exact .inr (.inl ⟨hcapture, hsought, if_neg hsought⟩)
  · rw [if_neg hcapture]
    exact .inr (.inr ⟨hanalyze, hcapture, rfl⟩)

theorem oneOf_cases (T : TextOps) (value : Option Json) (allowed : List Text) (default : Text) :
    oneOf T value allowed default ∈ allowed ∨ oneOf T value allowed default = default := by
  unfold oneOf
  dsimp only
  generalize T.lower _ = candidate
  by_cases h : candidate ∈ allowed
  · rw [if_pos h]
    exact .inl h
  · rw [if_neg h]
    exact .inr rfl

theorem declared_known (T : TextOps) (payload : Fields) (transcript response : Text)
    (h : (receive T payload transcript response).declared ≠ []) :
    (receive T payload transcript response).declared ∈ turnActions :=
  (oneOf_cases T _ turnActions []).resolve_right h

/-- An owner is declared, or it is the one owner that the arguments or the response call for. -/
theorem owner_known (hd : c.declared ≠ [] → c.declared ∈ turnActions)
    (h : c.owner = some action) : action ∈ turnActions := by
  unfold Coerced.owner at h
  split at h
  · rename_i hne
    cases h
    exact hd hne
  · split at h
    · split at h
      · cases h
      · cases h
        decide
    · split at h
      · cases h
        decide
      · split at h
        · cases h
          decide
        · cases h

theorem words_plain : ∀ w ∈ turnActions ++ mediaActions ++ inputSources,
    (w.all fun c => c.isLower || c == '_') = true ∧ strip w = w ∧ String.ofList w ≠ "" := by
  decide

end Owners

section Again
variable {T : TextOps} {p payload : Fields} {transcript response : Text} {c : Coerced} {v : Verdict}
  {action source media prompt query : Text}

theorem set_again {source media prompt query action : Text}
    (h : arguments payload = ⟨some (textJson action), some (textJson source),
      some (textJson media), some (textJson prompt), some (textJson query)⟩) :
    (ownFields payload source media prompt query).set "turn_action" (textJson action) =
      payload := by
  simp only [arguments, Arguments.mk.injEq] at h
  obtain ⟨haction, hsource, hmedia, hprompt, hquery⟩ := h
  rw [ownFields, set_get? hsource, set_get? hmedia, set_get? hprompt, set_get? hquery,
    set_get? haction]

/-- Setting the members of an owner again changes nothing. -/
theorem payloadOf_again (h : arguments payload = argumentsOf v) (hv : v ≠ .fallback)
    (hv' : v ≠ .missingUpload) : payloadOf payload v = payload := by
  cases v with
  | fallback => exact absurd rfl hv
  | missingUpload => exact absurd rfl hv'
  | speaks action => exact set_again h
  | analyzes media prompt => exact set_again h
  | captures query => exact set_again h

theorem ownMembers_set {k : String} (h : k ≠ "needs_thinking") (h' : k ≠ "request_highres_capture")
    (p : Fields) (v : Json) : (ownMembers p).set k v = ownMembers (p.set k v) :=
  (filter_set_of_mem (by simp [h, h']) p v).symm

theorem ownMembers_ownMembers (p : Fields) : ownMembers (ownMembers p) = ownMembers p := by
  rw [ownMembers, ownMembers, filter_filter]
  simp

theorem ownMembers_payloadOf (p : Fields) (v : Verdict) :
    ownMembers (payloadOf (ownMembers p) v) = payloadOf (ownMembers p) v := by
  cases v <;>
    simp [payloadOf, ownFields, thinkingFallbackPayload, ownMembers_set, ownMembers_ownMembers]

/-- What is read again of an owner's members: the texts are stripped. -/
theorem receive_again (hT : PythonTexts T) (haction : action ∈ turnActions)
    (hsource : source ∈ inputSources) (hmedia : media ∈ mediaActions)
    (h : arguments payload = ⟨some (textJson action), some (textJson source),
      some (textJson media), some (textJson prompt), some (textJson query)⟩) :
    receive T payload transcript response =
      ⟨action, source, media, transcript, response, strip prompt, strip query,
        truthy (payload.get? "_action_fallback")⟩ := by
  simp only [arguments, Arguments.mk.injEq] at h
  obtain ⟨ha, hs, hm, hp, hq⟩ := h
  have hknown : ∀ {word : Text} {allowed : List Text} {default : Text}, word ∈ allowed →
      word ∈ turnActions ++ mediaActions ++ inputSources →
        oneOf T (some (textJson word)) allowed default = word := by
    intro word allowed default hmem hword
    obtain ⟨hplain, hstrip, hne⟩ := words_plain word hword
    exact oneOf_known hT word hmem hplain hstrip hne
  have htext : ∀ text : Text, T.strOf (textJson text) = text := by
    intro text
    simp [textJson, TextOps.strOf]
  simp only [receive, normalizeTurnAction, normalizeSelectedInputSource,
    normalizeMediaAnalysisAction, strField, ha, hs, hm, hp, hq, Option.map_some, Option.getD_some,
    htext, hknown haction (by simp [haction]), hknown hsource (by simp [hsource]),
    hknown hmedia (by simp [hmedia])]

theorem settle_eq (h : Settles c action) : c.settle false action =
    if action = analyzeAttachment then .analyzes
      (if c.media = "new".toList ∨ c.media = "rerun".toList then c.media else "new".toList)
      (if c.prompt = [] then c.transcript else c.prompt)
    else if action = captureHighres then
      if (if c.query = [] then c.transcript else c.query) = [] then .fallback
      else .captures (if c.query = [] then c.transcript else c.query)
    else .speaks action := by
  have hconflict : ¬((c.mediaAsked ∧ action ≠ analyzeAttachment) ∨
      (c.query ≠ [] ∧ action ≠ captureHighres)) := by
    rintro (⟨hm, hne⟩ | ⟨hq, hne⟩)
    · exact hne (h.media hm)
    · exact hne (h.capture hq)
  have hsilent : ¬(action ≠ captureHighres ∧ strip c.response = []) :=
    fun hand => h.answered hand.1 hand.2
  unfold Coerced.settle
  rw [if_neg hconflict, if_neg hsilent]
  simp only [Bool.false_eq_true, if_false]

theorem verdict_eq (hne : c.declared ≠ []) : c.verdict false = c.settle false c.declared := by
  rw [Coerced.verdict, Coerced.owner, if_pos hne]

theorem stripped_prompt : strip (receive T p transcript response).prompt =
    (receive T p transcript response).prompt := strip_strip _

theorem stripped_query : strip (receive T p transcript response).query =
    (receive T p transcript response).query := strip_strip _

/-- A text that is read again; the transcript stands in for a blank one. -/
def readAgain (transcript text : Text) : Text :=
  if strip text = [] then transcript else strip text

def takenAgain (transcript : Text) : Verdict → Verdict
  | .analyzes media prompt => .analyzes media (readAgain transcript prompt)
  | .captures query => .captures (readAgain transcript query)
  | v => v

theorem not_mediaAsked {marked : Bool} : ¬Coerced.mediaAsked ⟨action, "none".toList,
    "none".toList, transcript, response, [], query, marked⟩ := by
  simp [Coerced.mediaAsked]

/-- The verdicts on an envelope that does not fall back. -/
theorem verdict_cases (hd : c.declared ≠ [] → c.declared ∈ turnActions)
    (hv : c.verdict false ≠ .fallback) : ∃ action ∈ turnActions, Settles c action ∧
      ((action = analyzeAttachment ∧ ∃ media, (media = "new".toList ∨ media = "rerun".toList) ∧
          c.verdict false = .analyzes media (if c.prompt = [] then c.transcript else c.prompt)) ∨
        (action = captureHighres ∧ (if c.query = [] then c.transcript else c.query) ≠ [] ∧
          c.verdict false = .captures (if c.query = [] then c.transcript else c.query)) ∨
        (action ≠ analyzeAttachment ∧ action ≠ captureHighres ∧
          c.verdict false = .speaks action)) := by
  unfold Coerced.verdict at hv ⊢
  cases howner : c.owner with
  | none =>
    rw [howner] at hv
    exact absurd rfl hv
  | some action =>
    rw [howner] at hv
    obtain ⟨hsettles, hcases⟩ := settle_cases c action hv
    refine ⟨action, owner_known hd howner, hsettles, ?_⟩
    rcases hcases with ⟨ha, heq⟩ | ⟨ha, hsought, heq⟩ | ⟨ha, ha', heq⟩
    · refine .inl ⟨ha, _, ?_, heq⟩
      split
      · assumption
      · exact .inl rfl
    · exact .inr (.inl ⟨ha, hsought, heq⟩)
    · exact .inr (.inr ⟨ha, ha', heq⟩)

/-- The envelope that has come out, taken in again. -/
theorem verdict_again (hT : PythonTexts T)
    (hv : (receive T p transcript response).verdict false = v) (hne : v ≠ .fallback)
    (hargs : arguments payload = argumentsOf v) :
    (receive T payload transcript response).declared ≠ [] ∧
      (receive T payload transcript response).verdict false = takenAgain transcript v := by
  obtain ⟨action, haction, hsettles, hcases⟩ :=
    verdict_cases (declared_known T p transcript response) (hv ▸ hne)
  have hanswered : action ≠ captureHighres → strip response ≠ [] := hsettles.answered
  rcases hcases with ⟨rfl, media, hmedia, heq⟩ | ⟨rfl, hsought, heq⟩ | ⟨ha, ha', heq⟩
  · rw [hv] at heq
    subst heq
    have hmem : media ∈ mediaActions := by rcases hmedia with rfl | rfl <;> decide
    have hreceived := @receive_again T payload transcript response analyzeAttachment
      "uploaded_attachment".toList media _ [] hT haction (by decide) hmem hargs
    have hdeclared : analyzeAttachment ≠ [] := by decide
    rw [hreceived]
    refine ⟨hdeclared, (verdict_eq hdeclared).trans ((settle_eq
      ⟨fun _ => rfl, fun h => absurd rfl h, hanswered⟩).trans ?_)⟩
    rw [if_pos rfl, if_pos hmedia]
    rfl
  · rw [hv] at heq
    subst heq
    have hreceived := @receive_again T payload transcript response captureHighres
      "none".toList "none".toList [] _ hT haction (by decide) (by decide) hargs
    have hagain : readAgain transcript
        (if (receive T p transcript response).query = [] then transcript
          else (receive T p transcript response).query) ≠ [] := by
      by_cases hquery : (receive T p transcript response).query = []
      · rw [if_pos hquery] at hsought ⊢
        unfold readAgain
        split
        · exact hsought
        · assumption
      · rw [if_neg hquery]
        unfold readAgain
        rw [stripped_query, if_neg hquery]
        exact hquery
    have hdeclared : captureHighres ≠ [] := by decide
    rw [hreceived]
    refine ⟨hdeclared, (verdict_eq hdeclared).trans ((settle_eq
      ⟨fun h => absurd h not_mediaAsked, fun _ => rfl, hanswered⟩).trans ?_)⟩
    rw [if_neg (Ne.symm analyze_ne_capture), if_pos rfl]
    exact if_neg hagain
  · rw [hv] at heq
    subst heq
    have hreceived := @receive_again T payload transcript response action
      "none".toList "none".toList [] [] hT haction (by decide) (by decide) hargs
    have hdeclared : action ≠ [] := by
      rintro rfl
      exact absurd haction (by decide)
    rw [hreceived]
    refine ⟨hdeclared, (verdict_eq hdeclared).trans ((settle_eq
      ⟨fun h => absurd h not_mediaAsked, fun h => absurd rfl h, hanswered⟩).trans ?_)⟩
    rw [if_neg ha, if_neg ha']
    rfl

end Again

section Claim
variable (T : TextOps) (p : Fields) (transcript response : Text)

def normalized : Fields := (normalizeActionEnvelope T p transcript response).1

/-- The Thinker is to answer. -/
def FallsBack : Prop :=
  normalized T p transcript response = thinkingFallbackPayload (ownMembers p)

/-- The transcript stands in for a prompt or a query, with white space around its words. -/
def Borrowed : Prop :=
  strip transcript ≠ transcript ∧ strip transcript ≠ [] ∧
    (((arguments (normalized T p transcript response)).action =
        some (textJson analyzeAttachment) ∧ strField T p "media_analysis_prompt" = []) ∨
      ((arguments (normalized T p transcript response)).action =
        some (textJson captureHighres) ∧ strField T p "highres_query" = []))

/-- One action owns the turn. -/
structure Owned : Prop where
  known : ∃ action ∈ turnActions,
    (arguments (normalized T p transcript response)).action = some (textJson action)
  bare : ∀ action ∈ ["respond", "clarify", "think"].map String.toList,
    (arguments (normalized T p transcript response)).action = some (textJson action) →
      arguments (normalized T p transcript response) = .bare action
  analysis : (arguments (normalized T p transcript response)).action =
      some (textJson analyzeAttachment) →
    (arguments (normalized T p transcript response)).source = some (.str "uploaded_attachment") ∧
      (∃ media, (media = "new".toList ∨ media = "rerun".toList) ∧
        (arguments (normalized T p transcript response)).media = some (textJson media)) ∧
      (arguments (normalized T p transcript response)).query = some (.str "")
  capture : (arguments (normalized T p transcript response)).action =
      some (textJson captureHighres) →
    (∃ query ≠ [], (arguments (normalized T p transcript response)).query =
        some (textJson query)) ∧
      (arguments (normalized T p transcript response)).source = some (.str "none") ∧
      (arguments (normalized T p transcript response)).media = some (.str "none") ∧
      (arguments (normalized T p transcript response)).prompt = some (.str "")
  answered : ¬FallsBack T p transcript response →
    (arguments (normalized T p transcript response)).action ≠ some (textJson captureHighres) →
      strip response ≠ []
  recovery : ¬FallsBack T p transcript response →
    (normalizeActionEnvelope T (normalized T p transcript response) transcript response).2 = []
  again : ¬FallsBack T p transcript response → ¬Borrowed T p transcript response →
    normalized T (normalized T p transcript response) transcript response =
      normalized T p transcript response

variable {T p transcript response} {action action' : Text} {v : Verdict}

theorem normalized_eq : normalized T p transcript response =
    payloadOf (ownMembers p) ((receive T p transcript response).verdict false) := by
  rw [normalized, normalize_eq, resolve_payload]

theorem textJson_inj (h : textJson action = textJson action') : action = action' := by
  have hlist := congrArg String.toList (Json.str.inj h)
  rwa [String.toList_ofList, String.toList_ofList] at hlist

theorem arguments_normalized (hv : (receive T p transcript response).verdict false = v) :
    arguments (normalized T p transcript response) = argumentsOf v := by
  rw [normalized_eq, hv, arguments_payloadOf]

theorem fallsBack_of_verdict (hv : (receive T p transcript response).verdict false = .fallback) :
    FallsBack T p transcript response := by
  rw [FallsBack, normalized_eq, hv]
  rfl

/-- The second time, the envelope comes out as its verdict is taken again. -/
theorem normalized_again (hT : PythonTexts T)
    (hv : (receive T p transcript response).verdict false = v) (hne : v ≠ .fallback) :
    normalizeActionEnvelope T (normalized T p transcript response) transcript response =
      (payloadOf (normalized T p transcript response) (takenAgain transcript v), []) := by
  obtain ⟨hdeclared, hagain⟩ := verdict_again hT hv hne (arguments_normalized hv)
  have hown : ownMembers (normalized T p transcript response) =
      normalized T p transcript response := by
    rw [normalized_eq, ownMembers_payloadOf]
  have htaken : takenAgain transcript v ≠ .fallback := by
    cases v with
    | fallback => exact absurd rfl hne
    | missingUpload => simp [takenAgain]
    | speaks action => simp [takenAgain]
    | analyzes media prompt => simp [takenAgain]
    | captures query => simp [takenAgain]
  rw [normalize_eq, hown]
  refine Prod.ext ?_ (resolve_recovery hdeclared (hagain ▸ htaken))
  rw [resolve_payload, hagain]

/-- A text that is its own, or a transcript that is stripped or blank, is read again as it is. -/
theorem readAgain_eq {own : Text} (hown : strip own = own)
    (h : own = [] → strip transcript = transcript ∨ strip transcript = []) :
    readAgain transcript (if own = [] then transcript else own) =
      if own = [] then transcript else own := by
  unfold readAgain
  by_cases hblank : own = []
  · rw [if_pos hblank]
    rcases h hblank with hs | hs
    · rw [hs, ite_self]
    · rw [if_pos hs]
  · rw [if_neg hblank, hown, if_neg hblank]

theorem normalized_of_taken (hT : PythonTexts T)
    (hv : (receive T p transcript response).verdict false = v) (hne : v ≠ .fallback)
    (htaken : takenAgain transcript v = v) :
    normalized T (normalized T p transcript response) transcript response =
      normalized T p transcript response := by
  have hmissing : v ≠ .missingUpload := hv ▸ verdict_ne_missing _
  have hargs := arguments_normalized hv
  rw [normalized, normalized_again hT hv hne, htaken]
  exact payloadOf_again hargs hne hmissing

theorem action_ne {q : Prop} (h : some (textJson action) = some (textJson action'))
    (hne : action ≠ action') : q :=
  absurd (textJson_inj (Option.some.inj h)) hne

theorem owned_fallback (hv : (receive T p transcript response).verdict false = .fallback) :
    Owned T p transcript response := by
  have hargs : arguments (normalized T p transcript response) = .bare "think".toList :=
    arguments_normalized hv
  have hfalls := fallsBack_of_verdict hv
  refine ⟨?_, ?_, ?_, ?_, fun h => absurd hfalls h, fun h => absurd hfalls h,
    fun h => absurd hfalls h⟩
  · exact ⟨"think".toList, by decide, by rw [hargs]; rfl⟩
  · intro action _ h
    rw [hargs] at h ⊢
    rw [textJson_inj (Option.some.inj h)]
  · intro h
    rw [hargs] at h
    exact action_ne h (by decide)
  · intro h
    rw [hargs] at h
    exact action_ne h (by decide)

theorem owned_speaks (hT : PythonTexts T) (hknown : action ∈ turnActions)
    (ha : action ≠ analyzeAttachment) (hc : action ≠ captureHighres)
    (hresponse : strip response ≠ [])
    (hv : (receive T p transcript response).verdict false = .speaks action) :
    Owned T p transcript response := by
  have hargs : arguments (normalized T p transcript response) = .bare action :=
    arguments_normalized hv
  refine ⟨⟨action, hknown, by rw [hargs]; rfl⟩, ?_, ?_, ?_, fun _ _ => hresponse,
    fun _ => congrArg Prod.snd (normalized_again hT hv (by simp)),
    fun _ _ => normalized_of_taken hT hv (by simp) rfl⟩
  · intro action' _ h
    rw [hargs] at h ⊢
    rw [textJson_inj (Option.some.inj h)]
  · intro h
    rw [hargs] at h
    exact action_ne h ha
  · intro h
    rw [hargs] at h
    exact action_ne h hc

theorem owned_analyzes {media : Text} (hT : PythonTexts T)
    (hmedia : media = "new".toList ∨ media = "rerun".toList) (hresponse : strip response ≠ [])
    (hv : (receive T p transcript response).verdict false = .analyzes media
      (if (receive T p transcript response).prompt = [] then transcript
        else (receive T p transcript response).prompt)) :
    Owned T p transcript response := by
  have hargs := arguments_normalized hv
  have haction : (arguments (normalized T p transcript response)).action =
      some (textJson analyzeAttachment) := by
    rw [hargs]
    rfl
  refine ⟨⟨analyzeAttachment, by decide, haction⟩, ?_, ?_, ?_, fun _ _ => hresponse,
    fun _ => congrArg Prod.snd (normalized_again hT hv (by simp)), ?_⟩
  · intro action hmem h
    rw [haction] at h
    exact action_ne h fun heq => absurd (heq ▸ hmem) (by decide)
  · intro _
    rw [hargs]
    exact ⟨rfl, ⟨media, hmedia, rfl⟩, rfl⟩
  · intro h
    rw [haction] at h
    exact action_ne h analyze_ne_capture
  · intro _ hborrowed
    refine normalized_of_taken hT hv (by simp) ?_
    rw [takenAgain, readAgain_eq stripped_prompt fun hblank => ?_]
    by_contra hand
    rw [not_or] at hand
    exact hborrowed ⟨hand.1, hand.2, .inl ⟨haction, hblank⟩⟩

theorem owned_captures (hT : PythonTexts T)
    (hsought : (if (receive T p transcript response).query = [] then transcript
      else (receive T p transcript response).query) ≠ [])
    (hv : (receive T p transcript response).verdict false = .captures
      (if (receive T p transcript response).query = [] then transcript
        else (receive T p transcript response).query)) :
    Owned T p transcript response := by
  have hargs := arguments_normalized hv
  have haction : (arguments (normalized T p transcript response)).action =
      some (textJson captureHighres) := by
    rw [hargs]
    rfl
  refine ⟨⟨captureHighres, by decide, haction⟩, ?_, ?_, ?_, fun _ h => absurd haction h,
    fun _ => congrArg Prod.snd (normalized_again hT hv (by simp)), ?_⟩
  · intro action hmem h
    rw [haction] at h
    exact action_ne h fun heq => absurd (heq ▸ hmem) (by decide)
  · intro h
    rw [haction] at h
    exact action_ne h (Ne.symm analyze_ne_capture)
  · intro _
    rw [hargs]
    exact ⟨⟨_, hsought, rfl⟩, rfl, rfl, rfl⟩
  · intro _ hborrowed
    refine normalized_of_taken hT hv (by simp) ?_
    rw [takenAgain, readAgain_eq stripped_query fun hblank => ?_]
    by_contra hand
    rw [not_or] at hand
    exact hborrowed ⟨hand.1, hand.2, .inr ⟨haction, hblank⟩⟩

theorem turn_owned (T : TextOps) (hT : PythonTexts T) (p : Fields) (transcript response : Text) :
    Owned T p transcript response := by
  by_cases hv : (receive T p transcript response).verdict false = .fallback
  · exact owned_fallback hv
  obtain ⟨action, hknown, hsettles, hcases⟩ :=
    verdict_cases (declared_known T p transcript response) hv
  rcases hcases with ⟨rfl, media, hmedia, heq⟩ | ⟨rfl, hsought, heq⟩ | ⟨ha, hc, heq⟩
  · exact owned_analyzes hT hmedia (hsettles.answered analyze_ne_capture) heq
  · exact owned_captures hT hsought heq
  · exact owned_speaks hT hknown ha hc (hsettles.answered hc) heq

theorem turn_owned_closed :
    let p := Fields.nil.set "turn_action" (.str " Capture_Highres ")
    Owned (EnvelopeSpeech.asciiText [] p) p "read the sign".toList [] := by
  intro p
  exact turn_owned _ (pythonTexts_ascii [] p) p _ _

/-- The transcript is taken as it is for a query that is missing, and stripped when the envelope
is taken in again. -/
theorem borrowed_query_stripped :
    ¬∀ (T : TextOps) (_ : PythonTexts T) (p : Fields) (transcript response : Text),
      ¬FallsBack T p transcript response →
        normalized T (normalized T p transcript response) transcript response =
          normalized T p transcript response := by
  intro h
  have hfixed := h (EnvelopeSpeech.asciiText [] .nil) (pythonTexts_ascii [] .nil)
    (Fields.nil.set "turn_action" (.str "capture_highres")) " read the sign".toList []
  revert hfixed
  unfold FallsBack
  decide +kernel

end Claim

end VoiceAgent.TurnOwnership
