import VoiceAgent.SessionSound

/-!
A client that sends the session back as it is. The update is accepted and changes nothing
exactly when the view has no field that cannot be sent live, no legacy format that the
nested one no longer holds, and one voice in all of its places.
-/
namespace VoiceAgent.SessionEcho

open JsonValues SessionView SessionSound

section Leaves
variable {V Q : Fields} {k side : String} {x v : Json}

/-- A field of one side of the audio. -/
def leaf (f : Fields) (side k : String) : Option Json := sub (sub (f.get? "audio") side) k

/-- Every field of the patch, and every field of its audio, is one the view absorbs. -/
structure Leaves (V Q : Fields) : Prop where
  top : ∀ k v, k ≠ "audio" → Q.get? k = some v → Absorbed (V.get? k) v
  audio : ∀ v, Q.get? "audio" = some v → ∃ a, v = .obj a ∧ a ≠ .nil ∧
    ∀ side w, a.get? side = some w → ∃ b, w = .obj b ∧ b ≠ .nil ∧
      ∀ k x, b.get? k = some x → Absorbed (leaf V side k) x

theorem exists_get? {f : Fields} (h : f ≠ .nil) : ∃ k v, f.get? k = some v := by
  cases f with
  | nil => exact absurd rfl h
  | cons key value rest => exact ⟨key, value, by simp [Fields.get?]⟩

theorem sub_eq_some {o : Option Json} (h : sub o k = some x) :
    ∃ f, o = some (.obj f) ∧ f.get? k = some x := by
  cases o with
  | none => simp at h
  | some w =>
    cases w with
    | obj f => exact ⟨f, rfl, h⟩
    | _ => simp [sub, Json.object?] at h

/-- A patch whose leaves are absorbed changes nothing. -/
theorem Leaves.merge (h : Leaves V Q) (hQ : Q.Distinct) : mergeSessionPatch V Q = V := by
  refine mergeInto_eq_self (fun k v hv => ?_) hQ
  by_cases hk : k = "audio"
  · subst hk
    obtain ⟨a, rfl, hne, hsides⟩ := h.audio v hv
    have ha : a.Distinct := hQ.get? hv
    -- a leaf of the patch shows that the audio of the view is an object
    have hside : ∀ side w, a.get? side = some w → ∃ A B, V.get? "audio" = some (.obj A) ∧
        A.get? side = some (.obj B) ∧ Absorbed (some (.obj B)) w := by
      intro side w hw
      obtain ⟨b, rfl, hb, hleaves⟩ := hsides side w hw
      obtain ⟨k, x, hx⟩ := exists_get? hb
      obtain ⟨B, hB, -⟩ := sub_eq_some (hleaves k x hx)
      obtain ⟨A, hA, hAB⟩ := sub_eq_some hB
      refine ⟨A, B, hA, hAB, ?_⟩
      have hd : b.Distinct := ha.get? hw
      refine (absorbed_obj hd).mpr fun k x hx => ?_
      have hleaf := hleaves k x hx
      rwa [leaf, hB, sub_obj] at hleaf
    obtain ⟨side, w, hw⟩ := exists_get? hne
    obtain ⟨A, B, hA, -, -⟩ := hside side w hw
    rw [hA]
    refine (absorbed_obj ha).mpr fun side w hw => ?_
    obtain ⟨A', B, hA', hB, habsorbed⟩ := hside side w hw
    obtain rfl : A = A' := by simpa using hA.symm.trans hA'
    rw [hB]
    exact habsorbed
  · exact h.top k v hk hv

theorem Leaves.filter (h : Leaves V Q) (p : String → Bool) : Leaves V (Q.filter p) := by
  refine ⟨fun k v hk hv => ?_, fun v hv => ?_⟩
  · rw [get?_filter] at hv
    split at hv
    · exact h.top k v hk hv
    · cases hv
  · rw [get?_filter] at hv
    split at hv
    · exact h.audio v hv
    · cases hv

theorem Leaves.set (h : Leaves V Q) (hk : k ≠ "audio") (hv : Absorbed (V.get? k) v) :
    Leaves V (Q.set k v) := by
  refine ⟨fun k' v' hk' hv' => ?_, fun v' hv' => ?_⟩
  · by_cases heq : k' = k
    · subst heq
      obtain rfl : v = v' := by simpa using hv'
      exact hv
    · rw [get?_set_ne Q v heq] at hv'
      exact h.top k' v' hk' hv'
  · rw [get?_set_ne Q v hk.symm] at hv'
    exact h.audio v' hv'

/-- One more leaf of the audio. -/
theorem Leaves.setLeaf (h : Leaves V Q) (hx : Absorbed (leaf V side k) x) :
    Leaves V (setNested Q "audio" side
      (.obj ((objectOr (sub (Q.get? "audio") side)).set k x))) := by
  have hset_ne : ∀ (f : Fields) (k : String) (v : Json), f.set k v ≠ .nil := by
    intro f k v hnil
    have hget := get?_set_self f k v
    rw [hnil] at hget
    simp at hget
  refine ⟨fun k' v' hk' hv' => ?_, fun v' hv' => ?_⟩
  · rw [setNested, get?_set_ne _ _ hk'] at hv'
    exact h.top k' v' hk' hv'
  · rw [setNested, get?_set_self] at hv'
    obtain rfl := Option.some.inj hv'
    refine ⟨_, rfl, hset_ne _ _ _, fun side' w hw => ?_⟩
    by_cases hside : side' = side
    · subst hside
      rw [get?_set_self] at hw
      obtain rfl := Option.some.inj hw
      refine ⟨_, rfl, hset_ne _ _ _, fun k' x' hx' => ?_⟩
      by_cases hk : k' = k
      · subst hk
        rw [get?_set_self] at hx'
        obtain rfl := Option.some.inj hx'
        exact hx
      · rw [get?_set_ne _ _ hk, get?_objectOr] at hx'
        obtain ⟨b, hb, hbx⟩ := sub_eq_some hx'
        obtain ⟨a, ha, hab⟩ := sub_eq_some hb
        obtain ⟨a', heq, -, hsides⟩ := h.audio _ ha
        obtain rfl : a = a' := by simpa using heq
        obtain ⟨b', heq', -, hleaves⟩ := hsides side' _ hab
        obtain rfl : b = b' := by simpa using heq'
        exact hleaves k' x' hbx
    · rw [get?_set_ne _ _ hside, get?_objectOr] at hw
      obtain ⟨a, ha, haw⟩ := sub_eq_some hw
      obtain ⟨a', heq, -, hsides⟩ := h.audio _ ha
      obtain rfl : a = a' := by simpa using heq
      exact hsides side' w haw

/-- What a view absorbs of itself. -/
theorem absorbed_self (hV : V.Distinct) (h : V.get? k = some v) : Absorbed (V.get? k) v := by
  rw [Absorbed, h, Json.mergeInto_self (hV.get? h)]

theorem absorbed_leaf (hV : V.Distinct) (h : leaf V side k = some x) :
    Absorbed (leaf V side k) x := by
  have hd : x.Distinct := sub_distinct (sub_distinct (fun _ hw => hV.get? hw) side) k x h
  rw [Absorbed, h, Json.mergeInto_self hd]

theorem absorbed_str {old : Option Json} {s : String} :
    Absorbed old (.str s) ↔ old = some (.str s) :=
  Iff.rfl

end Leaves

section Patch
variable {V Q : Fields}

theorem leaves_live (hV : Good V) : Leaves V (liveSessionPatch V) := by
  have hfilter : Leaves V (V.filter fun key =>
      key ∈ liveSessionKeys ∧ key ∉ ["audio", "turn_detection"]) := by
    refine ⟨fun k v _ hv => ?_, fun v hv => ?_⟩
    · rw [get?_filter] at hv
      split at hv
      · exact absorbed_self hV.distinct hv
      · cases hv
    · rw [get?_filter] at hv
      simp at hv
  rw [liveSessionPatch_eq]
  dsimp only
  split
  · exact hfilter
  · rename_i hne
    refine ⟨fun k v hk hv => ?_, fun v hv => ?_⟩
    · rw [get?_set_ne _ _ hk] at hv
      exact hfilter.top k v hk hv
    · rw [get?_set_self] at hv
      obtain rfl := Option.some.inj hv
      have hblock : ∀ side known k x, (liveBlock V side known).get? k = some x →
          Absorbed (leaf V side k) x := by
        intro side known k x hx
        rw [get?_liveBlock] at hx
        split at hx
        · exact absorbed_leaf hV.distinct hx
        · cases hx
      refine ⟨_, rfl, hne, fun side w hw => ?_⟩
      rw [get?_liveAudio] at hw
      split at hw
      · rename_i hout
        obtain ⟨rfl, hnil⟩ := hout
        obtain rfl := Option.some.inj hw
        exact ⟨_, rfl, hnil, hblock _ _⟩
      · split at hw
        · rename_i hin
          obtain ⟨rfl, hnil⟩ := hin
          obtain rfl := Option.some.inj hw
          exact ⟨_, rfl, hnil, hblock _ _⟩
        · cases hw

theorem Leaves.nest (h : Leaves V Q) {key side : String} (hkey : key ≠ "audio")
    (hfmt : ∀ fmt, Q.get? key = some fmt → Absorbed (leaf V side "format") fmt) :
    Leaves V (nestFormat key side Q) := by
  unfold nestFormat
  split
  · exact h
  · rename_i fmt heq
    have haudio : (Q.filter (· ≠ key)).get? "audio" = Q.get? "audio" := by
      rw [get?_filter, if_pos (by simp [hkey.symm])]
    have hset := (h.filter (· ≠ key)).setLeaf (hfmt fmt heq)
    rw [haudio] at hset
    simpa using hset

theorem Leaves.resolve (h : Leaves V Q) {voice : String}
    (htop : ∀ s, Q.get? "voice" = some (.str s) → V.get? "voice" = some (.str voice))
    (hleaf : ∀ v, leaf Q "output" "voice" = some v → leaf V "output" "voice" = some (.str voice)) :
    Leaves V (resolveInPatch voice Q) := by
  unfold resolveInPatch
  extract_lets patch
  have hpatch : Leaves V patch ∧ patch.get? "audio" = Q.get? "audio" := by
    simp only [patch]
    split
    · rename_i s hs
      exact ⟨h.set (by simp) (absorbed_str.mpr (htop s hs)), get?_set_ne _ _ (by simp)⟩
    · exact ⟨h, rfl⟩
  obtain ⟨hleaves, haudio⟩ := hpatch
  rw [haudio]
  split
  · rename_i output houtput
    split
    · rename_i hsome
      obtain ⟨v, hv⟩ := Option.isSome_iff_exists.mp hsome
      have hvoice : leaf Q "output" "voice" = some v := by rw [leaf, houtput, sub_obj, hv]
      have hset := hleaves.setLeaf (absorbed_str.mpr (hleaf v hvoice))
      rw [haudio, houtput] at hset
      exact hset
    · exact hleaves
  · exact hleaves

/-- The fields of a live patch that are not of the audio. -/
theorem get?_liveSessionPatch {k : String} (hk : k ≠ "audio") (f : Fields) :
    (liveSessionPatch f).get? k =
      if k ∈ liveSessionKeys ∧ k ≠ "turn_detection" then f.get? k else none := by
  rw [liveSessionPatch_eq]
  dsimp only
  split
  · simp [get?_filter, hk]
  · simp [get?_filter, hk, get?_set_ne]

theorem sub_liveSessionPatch (f : Fields) (side : String) :
    sub ((liveSessionPatch f).get? "audio") side = (liveAudio f).get? side := by
  rw [liveSessionPatch_eq]
  dsimp only
  split
  · rename_i hnil
    rw [hnil, get?_filter]
    simp
  · rw [get?_set_self, sub_obj]

theorem leaf_liveSessionPatch (f : Fields) (k : String) :
    leaf (liveSessionPatch f) "input" k =
        (if k ∈ liveAudioInputKeys ∧ k ≠ "turn_detection" then leaf f "input" k else none) ∧
      leaf (liveSessionPatch f) "output" k =
        (if k ∈ liveAudioOutputKeys ∧ k ≠ "turn_detection" then leaf f "output" k else none) := by
  have hblock : ∀ side known, (if liveBlock f side known ≠ .nil then
      sub (some (.obj (liveBlock f side known))) k else none) =
        (liveBlock f side known).get? k := by
    intro side known
    split
    · rfl
    · rename_i hnil
      rw [not_not.mp hnil, get?_nil]
  refine ⟨?_, ?_⟩
  · rw [leaf, sub_liveSessionPatch, get?_liveAudio, leaf, ← get?_liveBlock, ← hblock]
    simp only [String.reduceEq, false_and, if_false, true_and]
    split
    · rfl
    · rfl
  · rw [leaf, sub_liveSessionPatch, get?_liveAudio, leaf, ← get?_liveBlock, ← hblock]
    simp only [String.reduceEq, false_and, if_false, true_and]
    split
    · rfl
    · rfl

theorem get?_nestFormat {key side k : String} (hk : k ≠ "audio") (f : Fields) :
    (nestFormat key side f).get? k = if k = key then none else f.get? k := by
  unfold nestFormat
  split
  · rename_i hnone
    split
    · rename_i heq
      rw [heq, hnone]
    · rfl
  · simp only [setNested, get?_set_ne _ _ hk, get?_filter]
    split
    · rename_i hne
      simp [of_decide_eq_true hne]
    · rename_i heq
      simp [not_not.mp (fun hne => heq (decide_eq_true hne))]

theorem leaf_nestFormat {key side : String} (hkey : key ≠ "audio") (f : Fields)
    (side' k : String) :
    leaf (nestFormat key side f) side' k =
      if side' = side ∧ k = "format" then (f.get? key).or (leaf f side k) else leaf f side' k := by
  unfold nestFormat
  split
  · rename_i hnone
    split
    · rename_i hformat
      obtain ⟨rfl, rfl⟩ := hformat
      rw [hnone]
      rfl
    · rfl
  · rename_i fmt hfmt
    have haudio : (f.filter (· ≠ key)).get? "audio" = f.get? "audio" := by
      rw [get?_filter, if_pos (by simp [hkey.symm])]
    rw [leaf, setNested, get?_set_self, sub_obj, haudio]
    by_cases hside : side' = side
    · subst hside
      rw [get?_set_self, sub_obj]
      by_cases hk : k = "format"
      · subst hk
        simp [hfmt]
      · rw [get?_set_ne _ _ hk]
        simp [hk, leaf]
    · rw [get?_set_ne _ _ hside]
      simp [hside, leaf]

/-- A view asks for the same voice as the patch that is made of it. -/
theorem requestedVoice_nestedPatch (f : Fields) :
    requestedVoice (nestedPatch f) = requestedVoice f := by
  have htop : (nestedPatch f).get? "voice" = f.get? "voice" := by
    rw [nestedPatch, get?_nestFormat (by simp), get?_nestFormat (by simp),
      get?_liveSessionPatch (by simp)]
    simp [liveSessionKeys]
  have hleaf : leaf (nestedPatch f) "output" "voice" = leaf f "output" "voice" := by
    rw [nestedPatch, leaf_nestFormat (by simp), leaf_nestFormat (by simp),
      (leaf_liveSessionPatch f "voice").2]
    simp [liveAudioOutputKeys]
  unfold leaf at hleaf
  simp only [requestedVoice, htop, hleaf]

end Patch

section Echo
variable {limits : Fields → Except Invalid Unit} {resolve : String → String}
variable {V : Fields} {s : Serializer}

/-- The audio of the view has no field that cannot be sent live. -/
structure KnownAudio (V : Fields) : Prop where
  audio : ∀ k ∈ (objectOr (V.get? "audio")).keys, k ∈ liveAudioKeys
  input : ∀ k ∈ (objectOr (sub (V.get? "audio") "input")).keys, k ∈ liveAudioInputKeys
  output : ∀ k ∈ (objectOr (sub (V.get? "audio") "output")).keys, k ∈ liveAudioOutputKeys

/-- The voice the pipeline speaks with. -/
def voiceInEffect (s : Serializer) : Option Json := s.runtimeConfig.get? "tts_voice_id"

/-- An update with the view itself is accepted, and changes nothing. -/
def EchoLaw (resolve : String → String) (s : Serializer) : Prop :=
  ∃ s' voice, s.deserializeSessionUpdate resolve s.view = .ok (s', voice) ∧ s'.view = s.view ∧
    s'.clientInRate = s.clientInRate ∧ s'.clientOutRate = s.clientOutRate ∧
    voiceInEffect s' = voiceInEffect s

/-- What a view must be for an echo of it to be without effect. -/
structure Echoes (s : Serializer) : Prop where
  known : KnownAudio s.view
  selector : validateInputTranscription s.view = .ok ()
  inputFormat : ∀ fmt, s.view.get? "input_audio_format" = some fmt →
    Absorbed (leaf s.view "input" "format") fmt
  outputFormat : ∀ fmt, s.view.get? "output_audio_format" = some fmt →
    Absorbed (leaf s.view "output" "format") fmt
  voice : requestedVoice s.view = "" ∨ ∃ v, s.view.get? "voice" = some (.str v) ∧
    leaf s.view "output" "voice" = some (.str v) ∧ voiceInEffect s = some (.str v)

theorem eraseDups_eq_nil {l : List String} : l.eraseDups = [] ↔ l = [] := by
  cases l with
  | nil => simp
  | cons a l => simp [List.eraseDups_cons]

theorem unknownKeys_eq_nil {o : Option Json} {known : List String} {path : String} :
    unknownKeys o known path = [] ↔ ∀ k ∈ (objectOr o).keys, k ∈ known := by
  simp [unknownKeys]

/-- The turn detection of a view is the one in effect, wherever it stands. -/
theorem turnDetection_self (h : Sound V) {value : Json}
    (hvalue : V.get? "turn_detection" = some value ∨
      sub (sub (V.get? "audio") "input") "turn_detection" = some value) :
    value.same (turnDetection V) = true := by
  have hnested := ((good_iff h.good.distinct).mp h.good).2
  rw [validateServerVad_ok h.good.distinct] at hnested
  obtain ⟨hturns, hinput⟩ := hnested
  have hvad : serverVad.same serverVad = true := by decide
  unfold turnDetection
  rcases hinput with hnone | hsome
  · rw [hnone] at hvalue ⊢
    rcases hvalue with hvalue | hvalue
    · rcases hturns with hturns | hturns
      · rw [hturns] at hvalue
        cases hvalue
      · obtain rfl := Option.some.inj (hturns.symm.trans hvalue)
        rw [hturns]
        exact hvad
    · cases hvalue
  · rw [hsome]
    rcases hvalue with hvalue | hvalue
    · rcases hturns with hturns | hturns
      · rw [hturns] at hvalue
        cases hvalue
      · obtain rfl := Option.some.inj (hturns.symm.trans hvalue)
        exact hvad
    · obtain rfl := Option.some.inj (hsome.symm.trans hvalue)
      exact hvad

theorem unsupportedTurns_self (h : Sound V) (path : String) {value : Option Json}
    (hvalue : V.get? "turn_detection" = value ∨
      sub (sub (V.get? "audio") "input") "turn_detection" = value) :
    unsupportedTurns V path value = [] := by
  cases value with
  | none => rfl
  | some value => rw [unsupportedTurns, if_pos (turnDetection_self h hvalue)]

theorem unsupportedNvidia_self {n : Fields} (hget : V.get? "nvidia" = some (.obj n))
    (hd : n.Distinct) : unsupportedNvidia (.obj n) V = [] := by
  unfold unsupportedNvidia
  rw [List.flatMap_eq_nil_iff]
  rintro ⟨key, value⟩ hmem
  have hvalue : n.get? key = some value := hd.of_mem_toList hmem
  dsimp only
  split
  · rfl
  · rw [hget, get?_objectOr, sub_obj, hvalue]
    dsimp only
    rw [if_pos (Json.same_refl (hd.get? hvalue))]

/-- A field of the view is no change of it. -/
theorem unsupportedField_self (h : Sound V) {key : String} {value : Json}
    (hget : V.get? key = some value) : unsupportedField V key value = [] := by
  have hd : value.Distinct := h.good.distinct.get? hget
  unfold unsupportedField
  split
  · rfl
  · split
    · rename_i hkey
      subst hkey
      obtain ⟨n, hn, -⟩ := h.nvidia
      obtain rfl := Option.some.inj (hn.symm.trans hget)
      exact unsupportedNvidia_self hget hd
    · rw [hget]
      dsimp only
      rw [if_pos (Json.same_refl hd)]

/-- Nothing of an echo is fixed but unknown fields of the audio. -/
theorem unsupported_self (h : Sound V) : unsupportedLiveSessionFields V V = [] ↔ KnownAudio V := by
  have hfields : V.toList.flatMap (fun field => unsupportedField V field.1 field.2) = [] := by
    rw [List.flatMap_eq_nil_iff]
    intro field hmem
    exact unsupportedField_self h (h.good.distinct.of_mem_toList hmem)
  rw [unsupportedLiveSessionFields, eraseDups_eq_nil, unsupportedTurns_self h _ (.inl rfl),
    hfields, unsupportedAudio, unsupportedTurns_self h _ (.inr rfl)]
  simp only [List.nil_append, List.append_nil, List.append_eq_nil_iff, unknownKeys_eq_nil]
  constructor
  · rintro ⟨⟨haudio, hin⟩, hout⟩
    exact ⟨haudio, hin, hout⟩
  · rintro ⟨haudio, hin, hout⟩
    exact ⟨⟨haudio, hin⟩, hout⟩

theorem leaf_setVoice (f : Fields) (v : Json) (side k : String) :
    leaf (setVoice f v) side k =
      if side = "output" ∧ k = "voice" then some v else leaf f side k := by
  rw [leaf, setVoice, get?_set_ne _ _ (by simp), setNested, get?_set_self, sub_obj]
  by_cases hside : side = "output"
  · subst hside
    rw [get?_set_self, sub_obj]
    by_cases hk : k = "voice"
    · subst hk
      simp
    · rw [get?_set_ne _ _ hk]
      simp [hk, leaf]
  · rw [get?_set_ne _ _ hside]
    simp [hside, leaf]

/-- A view that has the voice in both places. -/
theorem setVoice_eq_self {v : Json} (htop : V.get? "voice" = some v)
    (hleaf : leaf V "output" "voice" = some v) : setVoice V v = V := by
  obtain ⟨output, houtput, hvoice⟩ := sub_eq_some hleaf
  obtain ⟨audio, haudio, hside⟩ := sub_eq_some houtput
  have hblock : (objectOr ((objectOr (V.get? "audio")).get? "output")).set "voice" v = output := by
    rw [get?_objectOr, houtput]
    exact set_get? hvoice
  have hset : setNested V "audio" "output" (.obj output) = V := by
    have haudioSet : (objectOr (V.get? "audio")).set "output" (.obj output) = audio := by
      rw [haudio]
      exact set_get? hside
    rw [setNested, haudioSet]
    exact set_get? haudio
  rw [setVoice, hblock, hset]
  exact set_get? htop

/-- A field of the audio that the patch has. -/
theorem leaf_merge {P : Fields} (hP : P.Distinct) {side k : String} {x : Json}
    (h : leaf P side k = some x) :
    leaf (mergeSessionPatch V P) side k = some (x.mergeInto (leaf V side k)) := by
  obtain ⟨block, hblock, hx⟩ := sub_eq_some h
  obtain ⟨audio, haudio, hside⟩ := sub_eq_some hblock
  have hd : audio.Distinct := hP.get? haudio
  have hb : block.Distinct := hd.get? hside
  have hfirst := sub_mergeInto hd (V.get? "audio") side
  have hsecond := sub_mergeInto hb (sub (V.get? "audio") side) k
  rw [leaf, mergeSessionPatch, get?_mergeInto hP, haudio]
  dsimp only
  rw [hfirst, hside]
  dsimp only
  rw [hsecond, hx, leaf]

theorem leaf_resolveInPatch_format (voice : String) (f : Fields) (side : String) :
    leaf (resolveInPatch voice f) side "format" = leaf f side "format" := by
  unfold resolveInPatch
  extract_lets patch
  have haudio : patch.get? "audio" = f.get? "audio" := by
    simp only [patch]
    split
    · exact get?_set_ne _ _ (by simp)
    · rfl
  split
  · rename_i output houtput
    split
    · rw [leaf, setNested, get?_set_self, sub_obj]
      by_cases hside : side = "output"
      · subst hside
        rw [get?_set_self, sub_obj, get?_set_ne _ _ (by simp), leaf, ← haudio, houtput]
        rfl
      · rw [get?_set_ne _ _ hside, get?_objectOr, haudio]
        rfl
    · rw [leaf, haudio]
      rfl
  · rw [leaf, haudio]
    rfl

/-- The legacy formats of a view, in the patch that an echo of it is. -/
theorem leaf_livePatch_format (fmt : Json) :
    (V.get? "input_audio_format" = some fmt →
        leaf (livePatch resolve V) "input" "format" = some fmt) ∧
      (V.get? "output_audio_format" = some fmt →
        leaf (livePatch resolve V) "output" "format" = some fmt) := by
  have hvoice : ∀ side, leaf (livePatch resolve V) side "format" =
      leaf (nestedPatch V) side "format" := by
    intro side
    unfold livePatch
    split
    · rfl
    · exact leaf_resolveInPatch_format _ _ _
  refine ⟨fun hfmt => ?_, fun hfmt => ?_⟩
  · rw [hvoice, nestedPatch, leaf_nestFormat (by simp), if_neg (by simp),
      leaf_nestFormat (by simp), if_pos ⟨rfl, rfl⟩, get?_liveSessionPatch (by simp),
      if_pos (by simp [liveSessionKeys]), hfmt]
    rfl
  · rw [hvoice, nestedPatch, leaf_nestFormat (by simp), get?_nestFormat (by simp),
      get?_liveSessionPatch (by simp), hfmt]
    simp [liveSessionKeys]

/-- The formats of the view absorb its legacy ones. -/
theorem leaves_nestedPatch (hV : Good V)
    (hin : ∀ fmt, V.get? "input_audio_format" = some fmt → Absorbed (leaf V "input" "format") fmt)
    (hout : ∀ fmt, V.get? "output_audio_format" = some fmt →
      Absorbed (leaf V "output" "format") fmt) : Leaves V (nestedPatch V) := by
  refine ((leaves_live hV).nest (by simp) fun fmt hfmt => hin fmt ?_).nest (by simp)
    fun fmt hfmt => hout fmt ?_
  · rw [get?_liveSessionPatch (by simp)] at hfmt
    simpa [liveSessionKeys] using hfmt
  · rw [get?_nestFormat (by simp), get?_liveSessionPatch (by simp)] at hfmt
    simpa [liveSessionKeys] using hfmt

theorem liveVoice_self (V : Fields) :
    liveVoice resolve V = resolvedVoice resolve (requestedVoice V) := by
  rw [liveVoice, requestedVoice_nestedPatch]

theorem resolvedVoice_ne {voice : String} (h : voice ≠ "") : resolvedVoice resolve voice ≠ "" := by
  unfold resolvedVoice
  rw [if_neg h]
  split
  · exact h
  · assumption

theorem voiceInEffect_applyLive (resolve : String → String) (s : Serializer) (patch : Fields) :
    voiceInEffect (s.applyLive resolve patch).1 =
      if liveVoice resolve patch = "" then voiceInEffect s
      else some (.str (liveVoice resolve patch)) := by
  change (if liveVoice resolve patch = "" then s.runtimeConfig
    else s.runtimeConfig.set "tts_voice_id" (.str (liveVoice resolve patch))).get?
      "tts_voice_id" = _
  split
  · rfl
  · exact get?_set_self _ _ _

/-- The voice that a view asks for, where it is the one in effect. -/
theorem liveVoice_in_effect {v : String} (hleaf : leaf V "output" "voice" = some (.str v))
    (hne : liveVoice resolve V ≠ "") (hself : v ≠ "" → resolve (stripString v) = v) :
    liveVoice resolve V = v := by
  have hrequested : requestedVoice V = stripString v := by
    unfold leaf at hleaf
    simp only [requestedVoice, hleaf]
  rw [liveVoice_self, hrequested] at hne ⊢
  have hstrip : stripString v ≠ "" := by
    intro hnil
    rw [hnil] at hne
    exact hne rfl
  have hv : v ≠ "" := by
    rintro rfl
    exact hstrip rfl
  rw [resolvedVoice, if_neg hstrip, hself hv, if_neg hv]

/-- A view that echoes is left as it is. -/
theorem applyLive_self (hs : Sound s.view)
    (hself : ∀ v, v ≠ "" → voiceInEffect s = some (.str v) → resolve (stripString v) = v)
    (h : Echoes s) :
    (s.applyLive resolve s.view).1.view = s.view ∧
      voiceInEffect (s.applyLive resolve s.view).1 = voiceInEffect s := by
  obtain ⟨-, -, hin, hout, hvoices⟩ := h
  have hleaves := leaves_nestedPatch hs.good hin hout
  rw [hs.applyLive_view hs.good resolve, voiceInEffect_applyLive resolve s s.view]
  by_cases hne : liveVoice resolve s.view = ""
  · rw [if_pos hne, if_pos hne, livePatch, if_pos hne]
    exact ⟨hleaves.merge hs.good.live.nestInput.nestOutput.distinct, rfl⟩
  rw [if_neg hne, if_neg hne]
  obtain hempty | ⟨v, htop, hleaf, heffect⟩ := hvoices
  · rw [liveVoice_self, hempty] at hne
    exact absurd rfl hne
  · have hlive : liveVoice resolve s.view = v :=
      liveVoice_in_effect hleaf hne fun hv => hself v hv heffect
    have hresolved : Leaves s.view (livePatch resolve s.view) := by
      rw [livePatch, if_neg hne, hlive]
      exact hleaves.resolve (fun _ _ => htop) fun _ _ => hleaf
    rw [hlive, hresolved.merge (hs.good.livePatch resolve).distinct, heffect]
    exact ⟨setVoice_eq_self htop hleaf, rfl⟩

/-- A format that an echo sets is absorbed by the one of the view. -/
theorem absorbed_of_view_eq {s' : Serializer} (hs : Sound s.view)
    (hview : s'.view = (s.applyLive resolve s.view).1.view) (hsame : s'.view = s.view)
    {side : String} {fmt : Json} (hfmt : leaf (livePatch resolve s.view) side "format" = some fmt) :
    Absorbed (leaf s.view side "format") fmt := by
  have hP := (hs.good.livePatch resolve).distinct
  have hmerged := leaf_merge (V := s.view) hP hfmt
  rw [hs.applyLive_view hs.good resolve] at hview
  have hsplit : leaf s'.view side "format" =
      leaf (mergeSessionPatch s.view (livePatch resolve s.view)) side "format" := by
    rw [hview]
    split
    · rfl
    · rw [leaf_setVoice]
      simp
  rw [Absorbed, ← hmerged, ← hsplit, hsame]

/-- In every state that can be reached, an update with the view itself is accepted and changes
nothing exactly when the view is one that echoes. -/
theorem echoLaw_iff (h : Serving limits resolve s)
    (hself : ∀ v, v ≠ "" → voiceInEffect s = some (.str v) → resolve (stripString v) = v) :
    EchoLaw resolve s ↔ Echoes s := by
  have hs := h.sound
  obtain ⟨haudio, hvad⟩ := (good_iff hs.good.distinct).mp hs.good
  constructor
  · rintro ⟨s', voice, hok, hsame, -, -, heffect⟩
    obtain ⟨-, hselector, -, hunsupported, happly⟩ := deserialize_ok.mp hok
    have hview : s'.view = (s.applyLive resolve s.view).1.view := by rw [happly]
    have hvoice := voiceInEffect_applyLive resolve s s.view
    refine ⟨(unsupported_self hs).mp hunsupported, hselector,
      fun fmt hfmt => absorbed_of_view_eq hs hview hsame ((leaf_livePatch_format fmt).1 hfmt),
      fun fmt hfmt => absorbed_of_view_eq hs hview hsame ((leaf_livePatch_format fmt).2 hfmt), ?_⟩
    by_cases hrequested : requestedVoice s.view = ""
    · exact .inl hrequested
    · have hne : liveVoice resolve s.view ≠ "" := by
        rw [liveVoice_self]
        exact resolvedVoice_ne hrequested
      rw [hs.applyLive_view hs.good resolve, if_neg hne] at hview
      rw [happly, if_neg hne] at hvoice
      generalize liveVoice resolve s.view = w at hview hvoice
      have htop : s'.view.get? "voice" = some (.str w) := by
        rw [hview, setVoice, get?_set_self]
      have hleaf : leaf s'.view "output" "voice" = some (.str w) := by
        rw [hview, leaf_setVoice]
        simp
      rw [hsame] at htop hleaf
      exact .inr ⟨w, htop, hleaf, heffect.symm.trans hvoice⟩
  · intro hechoes
    obtain ⟨hsame, heffect⟩ := applyLive_self hs hself hechoes
    obtain ⟨hknown, hselector, -⟩ := hechoes
    refine ⟨(s.applyLive resolve s.view).1, (s.applyLive resolve s.view).2, ?_, hsame, ?_, ?_,
      heffect⟩
    · exact deserialize_ok.mpr ⟨haudio, hselector, hvad, (unsupported_self hs).mpr hknown, rfl⟩
    · rw [Serializer.clientInRate, Serializer.clientInRate, hsame]
    · rw [Serializer.clientOutRate, Serializer.clientOutRate, hsame]

/-- A session with a voice, sent back as it is. -/
theorem echoLaw_iff_with_voice :
    let voice := Fields.cons "voice" (.str "Aria") .nil
    let sanitized := (defaultNvidia "generic-assistant").set "tts_voice_id" (.str "Aria")
    let session := (RealtimeSession.fresh "sess_0" "generic-assistant").applyUpdate voice sanitized
    EchoLaw id ⟨session.view, session.flatConfig⟩ := by
  intro voice sanitized session
  have hconfigured : Configured (fun _ => .ok ()) session :=
    .update (.fresh "sess_0" "generic-assistant") voice sanitized
      (by simp [voice, Fields.Distinct, Fields.keys])
      (by simp [sanitized, defaultNvidia, Fields.Distinct, Fields.keys, Fields.set])
      (by decide +kernel)
  refine (echoLaw_iff (.handoff hconfigured) ?_).mpr ⟨⟨?_, ?_, ?_⟩, ?_, ?_, ?_, ?_⟩
  · intro v _ hv
    have heffect : voiceInEffect ⟨session.view, session.flatConfig⟩ = some (.str "Aria") := by
      decide +kernel
    obtain rfl : "Aria" = v := by simpa using heffect.symm.trans hv
    decide +kernel
  · decide +kernel
  · decide +kernel
  · decide +kernel
  · decide +kernel
  · intro fmt hfmt
    have hnone : session.view.get? "input_audio_format" = none := by decide +kernel
    rw [hnone] at hfmt
    cases hfmt
  · intro fmt hfmt
    have hnone : session.view.get? "output_audio_format" = none := by decide +kernel
    rw [hnone] at hfmt
    cases hfmt
  · exact .inr ⟨"Aria", by decide +kernel, by decide +kernel, by decide +kernel⟩

/-- A field that no live update has goes into the view before the handoff, and the view can
no longer be sent back. -/
theorem echo_of_unknown_field_rejected :
    let patch := Fields.cons "audio" (.obj (.cons "input" (.obj (.cons "noise_reduction"
      (.obj (.cons "type" (.str "near_field") .nil)) .nil)) .nil)) .nil
    let session := (RealtimeSession.fresh "sess_0" "generic-assistant").applyUpdate patch
      (defaultNvidia "generic-assistant")
    let s : Serializer := ⟨session.view, session.flatConfig⟩
    Serving (fun _ => .ok ()) id s ∧ voiceInEffect s = none ∧
      s.deserializeSessionUpdate id s.view =
        .error (.unsupportedLive ["audio.input.noise_reduction"]) ∧ ¬ EchoLaw id s := by
  intro patch session s
  have hrejected : s.deserializeSessionUpdate id s.view =
      .error (.unsupportedLive ["audio.input.noise_reduction"]) := by decide +kernel
  refine ⟨.handoff (.update (.fresh "sess_0" "generic-assistant") patch _ ?_ ?_ ?_), ?_,
    hrejected, ?_⟩
  · simp [patch, Fields.Distinct, Fields.keys, Json.Distinct]
  · simp [defaultNvidia, Fields.Distinct, Fields.keys]
  · decide +kernel
  · decide +kernel
  · rintro ⟨s', voice, hok, -⟩
    rw [hrejected] at hok
    cases hok

end Echo

end VoiceAgent.SessionEcho
