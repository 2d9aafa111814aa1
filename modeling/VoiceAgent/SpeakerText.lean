import VoiceAgent.Diarization
import Mathlib.Data.List.Induction

/-!
Words, runs of words of one speaker, and the text that names a speaker at each change. A
text so labelled splits at its labels into the runs it was made from.
-/
namespace VoiceAgent.SpeakerText

open StreamingEvents Diarization

/-- A word of a text: not empty, and free of white space. -/
def IsWord (w : Text) : Prop := w ≠ [] ∧ ∀ c ∈ w, isSpace c = false

instance (w : Text) : Decidable (IsWord w) :=
  decidable_of_iff (w ≠ [] ∧ w.all fun c => !isSpace c) (by simp [IsWord])

section Spaced
variable {u w : Text} {ws : List Text}

/-- Words, with a space before each. -/
def spaced (ws : List Text) : Text := ws.flatMap (' ' :: ·)

@[simp] theorem spaced_nil : spaced [] = [] := rfl

@[simp] theorem spaced_cons (w : Text) (ws : List Text) :
    spaced (w :: ws) = ' ' :: (w ++ spaced ws) := by simp [spaced]

@[simp] theorem spaced_append (us ws : List Text) : spaced (us ++ ws) = spaced us ++ spaced ws := by
  simp [spaced]

theorem unwords_cons (w : Text) (ws : List Text) : unwords (w :: ws) = w ++ spaced ws := by
  induction ws generalizing w with
  | nil => simp [unwords]
  | cons u ws ih =>
    have htail := ih u
    simp only [unwords] at htail ⊢
    rw [List.intercalate_cons_cons, htail]
    simp

theorem unwords_append (w : Text) (us ws : List Text) :
    unwords ((w :: us) ++ ws) = unwords (w :: us) ++ spaced ws := by
  rw [List.cons_append, unwords_cons, unwords_cons, spaced_append, List.append_assoc]

theorem unwords_cons_cons (u w : Text) (ws : List Text) :
    unwords (u :: w :: ws) = u ++ ' ' :: unwords (w :: ws) := by
  rw [unwords_cons, spaced_cons, unwords_cons]

theorem spaced_of_ne_nil (h : ws ≠ []) : spaced ws = ' ' :: unwords ws := by
  cases ws with
  | nil => exact absurd rfl h
  | cons w ws => rw [spaced_cons, unwords_cons]

theorem isSpace_space : isSpace ' ' = true := by decide

theorem IsWord.head (h : IsWord w) : ∃ c rest, w = c :: rest ∧ isSpace c = false := by
  cases w with
  | nil => exact absurd rfl h.1
  | cons c rest => exact ⟨c, rest, rfl, h.2 c (by simp)⟩

theorem IsWord.last (h : IsWord w) : ∃ rest c, w = rest ++ [c] ∧ isSpace c = false := by
  obtain ⟨rest, c, rfl⟩ : ∃ rest c, w = rest ++ [c] :=
    ⟨w.dropLast, w.getLast h.1, (List.dropLast_append_getLast h.1).symm⟩
  exact ⟨rest, c, rfl, h.2 c (by simp)⟩

theorem IsWord.append {u : Text} (hu : ∀ c ∈ u, isSpace c = false) (hw : IsWord w) :
    IsWord (u ++ w) := by
  refine ⟨by simp [hw.1], fun c hc => ?_⟩
  rcases List.mem_append.mp hc with hc | hc
  · exact hu c hc
  · exact hw.2 c hc

theorem lstrip_word (h : IsWord w) (rest : Text) :
    (w ++ rest).dropWhile isSpace = w ++ rest := by
  obtain ⟨c, tail, rfl, hc⟩ := h.head
  simp [hc]

theorem rstrip_word (h : IsWord w) (pre : Text) : rstrip (pre ++ w) = pre ++ w := by
  obtain ⟨tail, c, rfl, hc⟩ := h.last
  simp [rstrip, hc]

/-- A text of words ends with its last word. -/
theorem unwords_snoc (ws : List Text) (w : Text) :
    ∃ pre, unwords (ws ++ [w]) = pre ++ w ∧ (pre = [] ∨ ∃ pre', pre = pre' ++ [' ']) := by
  cases ws with
  | nil => exact ⟨[], by simp [unwords], .inl rfl⟩
  | cons u ws =>
    refine ⟨unwords (u :: ws) ++ [' '], ?_, .inr ⟨_, rfl⟩⟩
    rw [unwords_append]
    simp

theorem strip_unwords (h : ∀ w ∈ ws, IsWord w) : strip (unwords ws) = unwords ws := by
  cases ws using List.reverseRecOn with
  | nil => rfl
  | append_singleton init w =>
    have hw : IsWord w := h w (by simp)
    have hleft : (unwords (init ++ [w])).dropWhile isSpace = unwords (init ++ [w]) := by
      cases init with
      | nil => simpa [unwords] using lstrip_word hw []
      | cons u init =>
        rw [List.cons_append, unwords_cons]
        exact lstrip_word (h u (by simp)) _
    rw [strip, hleft]
    obtain ⟨pre, hpre, -⟩ := unwords_snoc init w
    rw [hpre]
    exact rstrip_word hw pre

theorem unwords_ne_nil (h : ws ≠ []) (hw : ∀ w ∈ ws, IsWord w) : unwords ws ≠ [] := by
  cases ws with
  | nil => exact absurd rfl h
  | cons w ws =>
    rw [unwords_cons]
    simp [(hw w (by simp)).1]

theorem partitionSpace_word (hu : ' ' ∉ u) : partitionSpace u = (u, []) := by
  have hne : ∀ c ∈ u, decide (c ≠ ' ') = true := fun c hc => by
    simpa using ne_of_mem_of_not_mem hc hu
  have hall := @List.takeWhile_append_of_pos _ _ u [] hne
  have hnone := @List.dropWhile_append_of_pos _ _ u [] hne
  rw [List.append_nil] at hall hnone
  rw [partitionSpace, hall, hnone]
  simp

theorem partitionSpace_append (hu : ' ' ∉ u) (x : Text) :
    partitionSpace (u ++ ' ' :: x) = (u, x) := by
  have hne : ∀ c ∈ u, decide (c ≠ ' ') = true := fun c hc => by
    simpa using ne_of_mem_of_not_mem hc hu
  rw [partitionSpace, List.takeWhile_append_of_pos hne, List.dropWhile_append_of_pos hne]
  simp

/-- A text with no space, or the part of it before the first one and the part after. -/
theorem space_cases (x : Text) : ' ' ∉ x ∨ ∃ u v, ' ' ∉ u ∧ x = u ++ ' ' :: v := by
  by_cases h : ' ' ∈ x
  · obtain ⟨u, v, rfl, hu⟩ := List.eq_append_cons_of_mem h
    exact .inr ⟨u, v, hu, rfl⟩
  · exact .inl h

theorem IsWord.space_notMem (h : IsWord w) : ' ' ∉ w := by
  intro hc
  have hspace := h.2 ' ' hc
  rw [isSpace_space] at hspace
  cases hspace

theorem partitionSpace_unwords (hw : IsWord w) (ws : List Text) :
    partitionSpace (unwords (w :: ws)) = (w, unwords ws) := by
  rw [unwords_cons]
  cases ws with
  | nil =>
    rw [spaced_nil, List.append_nil, partitionSpace_word hw.space_notMem]
    rfl
  | cons u ws => rw [spaced_of_ne_nil (by simp), partitionSpace_append hw.space_notMem]

/-- Only the last word loses its punctuation. -/
theorem joinCutWord_unwords (ws : List Text) (hw : IsWord w) (piece : Text) :
    joinCutWord (unwords (ws ++ [w])) piece = unwords (ws ++ [trimCut w ++ piece]) := by
  obtain ⟨pre, hpre, hspace⟩ := unwords_snoc ws w
  have hpre' : unwords (ws ++ [trimCut w ++ piece]) = pre ++ (trimCut w ++ piece) := by
    cases ws with
    | nil =>
      have hnil : pre = [] := by simpa [unwords] using hpre
      simp [unwords, hnil]
    | cons u ws =>
      rw [unwords_append] at hpre ⊢
      have heq : pre = unwords (u :: ws) ++ [' '] := by
        simpa using (List.append_cancel_right (by simpa using hpre :
          (unwords (u :: ws) ++ [' ']) ++ w = pre ++ w)).symm
      simp [heq]
  rw [joinCutWord, hpre, rstrip_word hw, hpre', ← List.append_assoc]
  congr 1
  rcases hspace with rfl | ⟨pre', rfl⟩
  · rfl
  · have hpunct : isCutPunctuation ' ' = false := by decide
    simp only [trimCut, List.reverse_append, List.reverse_singleton, List.singleton_append]
    rw [List.dropWhile_append]
    split
    · rename_i hall
      have hnil : List.dropWhile isCutPunctuation w.reverse = [] := by simpa using hall
      simp [hpunct, hnil]
    · simp

end Spaced

section Tokens

/-- `text.split()` -/
def tokens (text : Text) : List Text := (text.splitOnP isSpace).filter (· ≠ [])

variable {z : Text}

theorem tokens_append_cons {c : Char} (hc : isSpace c = true) (x y : Text) :
    tokens (x ++ c :: y) = tokens x ++ tokens y := by
  rw [tokens, List.splitOnP_append_cons x y hc, List.filter_append]
  rfl

theorem tokens_append_space (x y : Text) : tokens (x ++ ' ' :: y) = tokens x ++ tokens y :=
  tokens_append_cons isSpace_space x y

theorem tokens_word {w : Text} (h : IsWord w) : tokens w = [w] := by
  rw [tokens, List.splitOnP_eq_singleton h.2]
  simp [h.1]

theorem tokens_nil : tokens [] = [] := by simp [tokens]

theorem tokens_blank_append (hz : ∀ c ∈ z, isSpace c = true) (x : Text) :
    tokens (z ++ x) = tokens x := by
  induction z with
  | nil => rfl
  | cons c z ih =>
    have hcut := tokens_append_cons (hz c (by simp)) [] (z ++ x)
    rw [tokens_nil, List.nil_append, List.nil_append] at hcut
    rw [List.cons_append, hcut]
    exact ih fun d hd => hz d (List.mem_cons_of_mem c hd)

theorem tokens_append_blank (hz : ∀ c ∈ z, isSpace c = true) (x : Text) :
    tokens (x ++ z) = tokens x := by
  cases z with
  | nil => rw [List.append_nil]
  | cons c z =>
    have hblank := tokens_blank_append (fun d hd => hz d (List.mem_cons_of_mem c hd)) []
    rw [List.append_nil] at hblank
    rw [tokens_append_cons (hz c (by simp)), hblank, tokens_nil, List.append_nil]

/-- A text that does not begin with white space begins with a token. -/
theorem tokens_ne_nil {c : Char} (hc : isSpace c = false) (y : Text) : tokens (c :: y) ≠ [] := by
  have hword : IsWord ((c :: y).takeWhile (! isSpace ·)) :=
    ⟨by simp [hc], fun d hd => by simpa using List.mem_takeWhile_imp hd⟩
  rw [← List.takeWhile_append_dropWhile (p := (! isSpace ·)) (l := c :: y)]
  cases hrest : (c :: y).dropWhile (! isSpace ·) with
  | nil => simp [tokens_word hword]
  | cons d rest =>
    have hd : isSpace d = true := by
      have hhead := List.head?_dropWhile_not (! isSpace ·) (c :: y)
      simpa [hrest] using hhead
    simp [tokens_append_cons hd, tokens_word hword]

theorem tokens_lstrip (x : Text) : tokens (x.dropWhile isSpace) = tokens x := by
  have hblank := tokens_blank_append (z := x.takeWhile isSpace)
    (fun c hc => List.mem_takeWhile_imp hc) (x.dropWhile isSpace)
  rwa [List.takeWhile_append_dropWhile, eq_comm] at hblank

/-- What `rstrip` takes away. -/
theorem rstrip_append (x : Text) : ∃ z, (∀ c ∈ z, isSpace c = true) ∧ x = rstrip x ++ z := by
  refine ⟨(x.reverse.takeWhile isSpace).reverse, fun c hc => ?_, ?_⟩
  · exact List.mem_takeWhile_imp (List.mem_reverse.mp hc)
  · rw [rstrip, ← List.reverse_append, List.takeWhile_append_dropWhile, List.reverse_reverse]

theorem tokens_rstrip (x : Text) : tokens (rstrip x) = tokens x := by
  obtain ⟨z, hz, heq⟩ := rstrip_append x
  have hblank := tokens_append_blank hz (rstrip x)
  rwa [← heq, eq_comm] at hblank

theorem tokens_strip (x : Text) : tokens (strip x) = tokens x := by
  rw [strip, tokens_rstrip, tokens_lstrip]

theorem tokens_spaced_eq (ws : List Text) : tokens (spaced ws) = ws.flatMap tokens := by
  induction ws with
  | nil => exact tokens_nil
  | cons w ws ih =>
    have hspace : spaced (w :: ws) = [' '] ++ (w ++ spaced ws) := spaced_cons w ws
    rw [hspace, tokens_blank_append (by simp [isSpace_space])]
    cases ws with
    | nil => simp
    | cons u ws =>
      rw [spaced_of_ne_nil (by simp)] at ih ⊢
      have hcut := tokens_append_space [] (unwords (u :: ws))
      rw [List.nil_append, tokens_nil, List.nil_append] at hcut
      rw [tokens_append_space, ← hcut, ih]
      rfl

theorem tokens_spaced {ws : List Text} (h : ∀ w ∈ ws, IsWord w) : tokens (spaced ws) = ws := by
  have hwords : ws.flatMap tokens = ws.flatMap ([·]) :=
    List.flatMap_congr fun w hw => tokens_word (h w hw)
  rw [tokens_spaced_eq, hwords, List.flatMap_singleton']

theorem tokens_unwords (ws : List Text) : tokens (unwords ws) = ws.flatMap tokens := by
  cases ws with
  | nil => exact tokens_nil
  | cons w ws =>
    rw [← tokens_spaced_eq, spaced_of_ne_nil (by simp)]
    exact (tokens_blank_append (z := [' ']) (by simp [isSpace_space]) _).symm

end Tokens

section Runs
variable {τ : Type}

/-- The words of some runs, each with its speaker. -/
def expand (runs : List (τ × List Text)) : List (τ × Text) :=
  runs.flatMap fun run => run.2.map fun w => (run.1, w)

@[simp] theorem expand_nil : expand ([] : List (τ × List Text)) = [] := rfl

@[simp] theorem expand_cons (run : τ × List Text) (runs : List (τ × List Text)) :
    expand (run :: runs) = run.2.map (fun w => (run.1, w)) ++ expand runs := by simp [expand]

@[simp] theorem expand_append (runs more : List (τ × List Text)) :
    expand (runs ++ more) = expand runs ++ expand more := by simp [expand]

variable [DecidableEq τ]

/-- A word joins the last run, if that is of its speaker. -/
def extend (runs : List (τ × List Text)) (w : τ × Text) : List (τ × List Text) :=
  match runs.getLast? with
  | some (t, ws) =>
    if t = w.1 then runs.dropLast ++ [(t, ws ++ [w.2])] else runs ++ [(w.1, [w.2])]
  | none => [(w.1, [w.2])]

/-- Consecutive words of one speaker. -/
def grouped (ws : List (τ × Text)) : List (τ × List Text) := ws.foldl extend []

theorem extend_snoc (runs : List (τ × List Text)) (t : τ) (ws : List Text) (w : τ × Text) :
    extend (runs ++ [(t, ws)]) w =
      if t = w.1 then runs ++ [(t, ws ++ [w.2])] else runs ++ [(t, ws)] ++ [(w.1, [w.2])] := by
  simp [extend]

theorem expand_extend (runs : List (τ × List Text)) (w : τ × Text) :
    expand (extend runs w) = expand runs ++ [w] := by
  cases runs using List.reverseRecOn with
  | nil => simp [extend]
  | append_singleton runs run =>
    obtain ⟨t, ws⟩ := run
    rw [extend_snoc]
    split
    · rename_i ht
      subst ht
      simp
    · simp

theorem expand_foldl (runs : List (τ × List Text)) (ws : List (τ × Text)) :
    expand (ws.foldl extend runs) = expand runs ++ ws := by
  induction ws generalizing runs with
  | nil => simp
  | cons w ws ih =>
    rw [List.foldl_cons, ih, expand_extend, List.append_assoc, List.singleton_append]

theorem expand_grouped (ws : List (τ × Text)) : expand (grouped ws) = ws := by
  simp [grouped, expand_foldl]

theorem extend_ne_nil {runs : List (τ × List Text)} (h : ∀ r ∈ runs, r.2 ≠ []) (w : τ × Text) :
    ∀ r ∈ extend runs w, r.2 ≠ [] := by
  cases runs using List.reverseRecOn with
  | nil => simp [extend]
  | append_singleton runs run =>
    obtain ⟨t, ws⟩ := run
    rw [extend_snoc]
    intro r hr
    have hold : ∀ r ∈ runs, r.2 ≠ [] := fun r hr => h r (by simp [hr])
    split at hr
    · rcases List.mem_append.mp hr with hr | hr
      · exact hold r hr
      · obtain rfl := List.mem_singleton.mp hr
        simp
    · rcases List.mem_append.mp hr with hr | hr
      · exact h r hr
      · obtain rfl := List.mem_singleton.mp hr
        simp

theorem foldl_extend_ne_nil {runs : List (τ × List Text)} (h : ∀ r ∈ runs, r.2 ≠ [])
    (ws : List (τ × Text)) : ∀ r ∈ ws.foldl extend runs, r.2 ≠ [] := by
  induction ws generalizing runs with
  | nil => exact h
  | cons w ws ih => exact ih (extend_ne_nil h w)

theorem grouped_ne_nil (ws : List (τ × Text)) : ∀ r ∈ grouped ws, r.2 ≠ [] :=
  foldl_extend_ne_nil (by simp) ws

/-- A run of several words joins as they do one by one. -/
theorem foldl_extend_run (runs : List (τ × List Text)) (t : τ) (w : Text) (ws : List Text) :
    ((w :: ws).map fun w => (t, w)).foldl extend runs =
      match runs.getLast? with
      | some (u, us) =>
        if u = t then runs.dropLast ++ [(u, us ++ w :: ws)] else runs ++ [(t, w :: ws)]
      | none => [(t, w :: ws)] := by
  have hmore : ∀ (init : List (τ × List Text)) (us : List Text),
      (ws.map fun w => (t, w)).foldl extend (init ++ [(t, us)]) = init ++ [(t, us ++ ws)] := by
    intro init us
    induction ws generalizing us with
    | nil => simp
    | cons v ws ih =>
      rw [List.map_cons, List.foldl_cons, extend_snoc, if_pos rfl, ih]
      simp
  rw [List.map_cons, List.foldl_cons]
  cases runs using List.reverseRecOn with
  | nil =>
    have hone := hmore [] [w]
    simpa [extend] using hone
  | append_singleton init run =>
    obtain ⟨u, us⟩ := run
    rw [extend_snoc]
    by_cases hu : u = t
    · subst hu
      rw [if_pos rfl, hmore]
      simp
    · rw [if_neg hu, hmore]
      simp [hu]

end Runs

section Labels

def speakerWord : Text := ['S', 'p', 'e', 'a', 'k', 'e', 'r']

def label (n : ℕ) : Text := Nat.toDigits 10 (n + 1) ++ [':']

/-- The digits of a token `N:`. -/
def numberOf? (isDigit : Char → Bool) (token : Text) : Option Text :=
  let digits := token.dropLast
  if token.getLast? = some ':' ∧ digits ≠ [] ∧ digits.all isDigit then some digits else none

theorem numberOf?_eq_some_iff {isDigit : Char → Bool} {token n : Text} :
    numberOf? isDigit token = some n ↔
      token = n ++ [':'] ∧ n ≠ [] ∧ ∀ c ∈ n, isDigit c = true := by
  unfold numberOf?
  dsimp only
  constructor
  · intro h
    split at h
    · next hshape =>
      cases h
      obtain ⟨hlast, hne, hdigits⟩ := hshape
      obtain ⟨init, rfl⟩ := List.getLast?_eq_some_iff.mp hlast
      rw [List.dropLast_concat] at hne hdigits ⊢
      exact ⟨rfl, hne, List.all_eq_true.mp hdigits⟩
    · cases h
  · rintro ⟨rfl, hne, hdigits⟩
    rw [List.dropLast_concat, List.getLast?_concat]
    exact if_pos ⟨rfl, hne, List.all_eq_true.mpr hdigits⟩

/-- The speaker that `N:` names. -/
def speakerOf? (token : Text) : Option ℕ :=
  (numberOf? Char.isDigit token).map fun digits => Nat.ofDigitChars 10 digits 0 - 1

theorem speakerOf?_label (n : ℕ) : speakerOf? (label n) = some n := by
  have hdigits : ∀ c ∈ Nat.toDigits 10 (n + 1), c.isDigit = true :=
    fun c hc => Nat.isDigit_of_mem_toDigits (by decide) (by decide) hc
  have hne : Nat.toDigits 10 (n + 1) ≠ [] := Nat.toDigits_ne_nil
  rw [speakerOf?, label, numberOf?_eq_some_iff.mpr ⟨rfl, hne, hdigits⟩, Option.map_some,
    Nat.ofDigitChars_ten_toDigits]
  rfl

theorem isWord_speakerWord : IsWord speakerWord := by decide +kernel

theorem isWord_label (n : ℕ) : IsWord (label n) := by
  refine ⟨by simp [label], fun c hc => ?_⟩
  rcases List.mem_append.mp hc with hc | hc
  · have hdigit : c.isDigit = true := Nat.isDigit_of_mem_toDigits (by decide) (by decide) hc
    have hrange : 48 ≤ c.toNat ∧ c.toNat ≤ 57 := by
      simpa [Char.isDigit, UInt32.le_iff_toNat_le] using hdigit
    simp only [isSpace, Bool.or_eq_false_iff]
    refine ⟨?_, by simp; omega⟩
    simp
    omega
  · obtain rfl := List.mem_singleton.mp hc
    decide

theorem speakerPrefix_eq (n : ℕ) : speakerPrefix n = speakerWord ++ ' ' :: (label n ++ [' ']) := by
  have hdigits : (toString (n + 1)).toList = Nat.toDigits 10 (n + 1) := by
    rw [Nat.toString_eq_repr, Nat.toList_repr]
  unfold speakerPrefix label
  rw [hdigits]
  have hword : "Speaker ".toList = speakerWord ++ [' '] := by decide +kernel
  rw [hword]
  simp

section Split
variable {α : Type} (read : Text → Option α)

/-- Tokens before the first `Speaker N:`, and the runs that such tokens begin. -/
def splitTokens : List Text → List Text × List (α × List Text)
  | [] => ([], [])
  | [token] => ([token], [])
  | token :: next :: rest =>
    match (if token = speakerWord then read next else none) with
    | some n => ([], (n, (splitTokens rest).1) :: (splitTokens rest).2)
    | none => (token :: (splitTokens (next :: rest)).1, (splitTokens (next :: rest)).2)

variable {read}

theorem splitTokens_cons {token : Text} {rest : List Text}
    (h : token = speakerWord → ∀ next ∈ rest.head?, read next = none) :
    splitTokens read (token :: rest) =
      (token :: (splitTokens read rest).1, (splitTokens read rest).2) := by
  cases rest with
  | nil => rfl
  | cons next rest =>
    have hnone : (if token = speakerWord then read next else none) = none := by
      split
      · rename_i htoken
        exact h htoken next rfl
      · rfl
    rw [splitTokens, hnone]

theorem splitTokens_label {next : Text} {n : α} (h : read next = some n) (rest : List Text) :
    splitTokens read (speakerWord :: next :: rest) =
      ([], (n, (splitTokens read rest).1) :: (splitTokens read rest).2) := by
  rw [splitTokens, if_pos rfl, h]

end Split

/-- A text, split at its speaker prefixes; what stands before the first has no speaker. -/
def splitAtPrefixes (text : Text) : List (Option ℕ × Text) :=
  let (lead, runs) := splitTokens speakerOf? (tokens text)
  (if lead = [] then [] else [(none, unwords lead)]) ++
    runs.map fun run => (some run.1, unwords run.2)

variable {τ : Type} [DecidableEq τ]

/-- The tokens of some words: a label at each change of speaker, after `last`. -/
def labelled (number : τ → ℕ) (last : Option τ) : List (τ × Text) → List Text
  | [] => []
  | (t, w) :: rest =>
    (if last = some t then [] else [speakerWord, label (number t)]) ++
      w :: labelled number (some t) rest

/-- No word `Speaker` stands before a word that looks like the rest of a prefix. -/
def Unprefixed (ws : List (τ × Text)) : Prop :=
  List.IsChain (fun a b => a.2 = speakerWord → speakerOf? b.2 = none) ws

theorem isWord_labelled {number : τ → ℕ} {last : Option τ} {ws : List (τ × Text)}
    (h : ∀ w ∈ ws, IsWord w.2) : ∀ token ∈ labelled number last ws, IsWord token := by
  induction ws generalizing last with
  | nil => simp [labelled]
  | cons w ws ih =>
    obtain ⟨t, w⟩ := w
    intro token htoken
    rcases List.mem_append.mp htoken with htoken | htoken
    · split at htoken
      · cases htoken
      · rcases List.mem_cons.mp htoken with rfl | htoken
        · exact isWord_speakerWord
        · obtain rfl := List.mem_singleton.mp htoken
          exact isWord_label _
    · rcases List.mem_cons.mp htoken with rfl | htoken
      · exact h _ (List.mem_cons_self ..)
      · exact ih (fun u hu => h u (List.mem_cons_of_mem _ hu)) token htoken

/-- The last speaker of some words, after `last`. -/
def lastOf (last : Option τ) (ws : List (τ × Text)) : Option τ :=
  (ws.getLast?.map Prod.fst).or last

theorem labelled_append (number : τ → ℕ) (last : Option τ) (us ws : List (τ × Text)) :
    labelled number last (us ++ ws) =
      labelled number last us ++ labelled number (lastOf last us) ws := by
  induction us generalizing last with
  | nil => simp [labelled, lastOf]
  | cons u us ih =>
    obtain ⟨t, u⟩ := u
    have hlast : lastOf (some t) us = lastOf last ((t, u) :: us) := by
      cases us using List.reverseRecOn with
      | nil => simp [lastOf]
      | append_singleton us v => simp [lastOf, List.getLast?_cons]
    rw [List.cons_append, labelled, labelled, ih, hlast, List.append_assoc, List.cons_append]

/-- The runs of some words, read from the left: the words of `last`, then the rest. -/
def runsFrom (last : Option τ) : List (τ × Text) → List Text × List (τ × List Text)
  | [] => ([], [])
  | (t, w) :: rest =>
    if last = some t then (w :: (runsFrom (some t) rest).1, (runsFrom (some t) rest).2)
    else ([], (t, w :: (runsFrom (some t) rest).1) :: (runsFrom (some t) rest).2)

/-- What follows a word never makes a prefix of it. -/
theorem head_labelled (number : τ → ℕ) {t : τ} {w : Text} {ws : List (τ × Text)}
    (h : Unprefixed ((t, w) :: ws)) (hw : w = speakerWord) :
    ∀ next ∈ (labelled number (some t) ws).head?, speakerOf? next = none := by
  cases ws with
  | nil => simp [labelled]
  | cons u ws =>
    obtain ⟨t', u⟩ := u
    intro next hnext
    rw [labelled] at hnext
    split at hnext
    · obtain rfl : u = next := by simpa using hnext
      exact (List.isChain_cons_cons.mp h).1 hw
    · obtain rfl : speakerWord = next := by simpa using hnext
      decide

theorem splitTokens_labelled (number : τ → ℕ) (last : Option τ) {ws : List (τ × Text)}
    (h : Unprefixed ws) :
    splitTokens speakerOf? (labelled number last ws) =
      ((runsFrom last ws).1, (runsFrom last ws).2.map fun run => (number run.1, run.2)) := by
  induction ws generalizing last with
  | nil => rfl
  | cons w ws ih =>
    obtain ⟨t, w⟩ := w
    have htail : Unprefixed ws := h.of_cons
    have hword := splitTokens_cons (fun hw : w = speakerWord => head_labelled number h hw)
    rw [labelled, runsFrom]
    split
    · rw [List.nil_append, hword, ih (some t) htail]
    · rw [List.cons_append, List.singleton_append, splitTokens_label (speakerOf?_label _), hword,
        ih (some t) htail]
      rfl

theorem grouped_cons (t : τ) (w : Text) (ws : List (τ × Text)) :
    grouped ((t, w) :: ws) = (t, w :: (runsFrom (some t) ws).1) :: (runsFrom (some t) ws).2 := by
  have hfold : ∀ (init : List (τ × List Text)) (t : τ) (us : List Text),
      ws.foldl extend (init ++ [(t, us)]) =
        init ++ (t, us ++ (runsFrom (some t) ws).1) :: (runsFrom (some t) ws).2 := by
    induction ws with
    | nil => simp [runsFrom]
    | cons v ws ih =>
      obtain ⟨t', v⟩ := v
      intro init t us
      rw [List.foldl_cons, extend_snoc, runsFrom]
      by_cases ht : t = t'
      · subst ht
        rw [if_pos rfl, if_pos rfl, ih]
        simp
      · have hne : some t ≠ some t' := fun heq => ht (Option.some.inj heq)
        rw [if_neg ht, if_neg hne, ih]
        simp
  have hone := hfold [] t [w]
  simpa [grouped, extend] using hone

/-- A labelled text splits into the runs of its words. -/
theorem splitAtPrefixes_labelled (number : τ → ℕ) {ws : List (τ × Text)}
    (hw : ∀ w ∈ ws, IsWord w.2) (h : Unprefixed ws) :
    splitAtPrefixes (spaced (labelled number none ws)) =
      (grouped ws).map fun run => (some (number run.1), unwords run.2) := by
  rw [splitAtPrefixes, tokens_spaced (isWord_labelled hw), splitTokens_labelled number none h]
  cases ws with
  | nil => rfl
  | cons w ws =>
    obtain ⟨t, w⟩ := w
    rw [grouped_cons]
    simp [runsFrom]

end Labels

end VoiceAgent.SpeakerText
