import Mathlib.Data.List.Chain
import VoiceAgent.JsonValues
import VoiceAgent.SpeakerText

/-!
Speaker lines and how those that follow each other are joined. A line is a text that names the
speaker of each run of words, and is read here by its tokens; the labels that the join goes by are
found in the text itself.
-/
namespace VoiceAgent.SpeakerLines

open StreamingEvents JsonValues
open Diarization (unwords)
open SpeakerText (speakerWord numberOf? splitTokens expand unwords_cons_cons)

section Labels

/-- `\d`. -/
structure DecimalDigits where
  isDigit : Char → Bool
  colon : isDigit ':' = false
  space : isDigit ' ' = false

variable (D : DecimalDigits)

/-- `_SPEAKER_LABEL` where a match begins. -/
def matchLabel (text : Text) : Option Text :=
  if (speakerWord ++ [' ']).isPrefixOf text then
    let rest := text.drop (speakerWord.length + 1)
    let digits := rest.takeWhile D.isDigit
    if digits ≠ [] ∧ [':', ' '].isPrefixOf (rest.dropWhile D.isDigit) then
      some (speakerWord ++ ' ' :: digits ++ [':', ' '])
    else none
  else none

/-- `_SPEAKER_LABEL.findall`; `skip` characters of a match are still to be passed. -/
def findLabels : ℕ → Text → List Text
  | _, [] => []
  | skip + 1, _ :: cs => findLabels skip cs
  | 0, c :: cs =>
    match matchLabel D (c :: cs) with
    | some label => label :: findLabels (label.length - 1) cs
    | none => findLabels 0 cs

end Labels

section Messages

/-- What a message says; `other` for what is no string. -/
inductive Content
  | text (t : Text)
  | other (value : Json)
  deriving DecidableEq

/-- A message with its other fields. -/
structure Message where
  role : Option Text
  content : Content
  fields : Fields := .nil
  deriving DecidableEq

/-- The text of a user line that starts with "Speaker ". -/
def Message.line (m : Message) : Option Text :=
  if m.role = some "user".toList then
    match m.content with
    | .text t => if (speakerWord ++ [' ']).isPrefixOf t then some t else none
    | .other _ => none
  else none

variable (D : DecimalDigits)

def joinTexts (previous text : Text) : Text :=
  let text := match (findLabels D 0 previous).getLast? with
    | some label => if label.isPrefixOf text then text.drop label.length else text
    | none => text
  previous ++ ' ' :: text

/-- What takes the place of two lines that follow each other. -/
def joinLines (previous message : Message) : Option Message :=
  match previous.line, message.line with
  | some before, some text => some { previous with content := .text (joinTexts D before text) }
  | _, _ => none

/-- The messages that exist, and the list that is built of them. -/
structure Sent where
  dicts : List Message
  joined : List ℕ

def Sent.read (s : Sent) (ref : ℕ) : Message := (s.dicts[ref]?).getD ⟨none, .other .null, .nil⟩

def Sent.values (s : Sent) : List Message := s.joined.map s.read

def Sent.Valid (s : Sent) : Prop := ∀ ref ∈ s.joined, ref < s.dicts.length

/-- One turn of the loop: a joined line is a new message. -/
def Sent.joinNext (s : Sent) (ref : ℕ) : Sent :=
  match (s.joined.getLast?.bind fun previous => joinLines D (s.read previous) (s.read ref)) with
  | some message =>
    { dicts := s.dicts ++ [message], joined := s.joined.dropLast ++ [s.dicts.length] }
  | none => { s with joined := s.joined ++ [ref] }

/-- `join_back_to_back_lines`. -/
def joinBackToBackLines (dicts : List Message) (messages : List ℕ) : Sent :=
  messages.foldl (Sent.joinNext D) ⟨dicts, []⟩

end Messages

section Values
variable (D : DecimalDigits)

/-- One turn of the loop, by the messages themselves. -/
def joinNext (joined : List Message) (message : Message) : List Message :=
  match joined.getLast?.bind fun previous => joinLines D previous message with
  | some line => joined.dropLast ++ [line]
  | none => joined ++ [message]

def joinMessages (messages : List Message) : List Message := messages.foldl (joinNext D) []

end Values

section Tokens

variable (D : DecimalDigits)

/-- The token after "Speaker" in a label. -/
def numberToken (token : Text) : Bool := (numberOf? D.isDigit token).isSome

/-- Two tokens that a label could be read from. -/
def LabelShaped (token next : Text) : Prop := speakerWord <:+ token ∧ numberToken D next = true

instance (token next : Text) : Decidable (LabelShaped D token next) :=
  inferInstanceAs (Decidable (_ ∧ _))

/-- The labels that `findall` finds, by the tokens. -/
def tokenLabels : List Text → List Text
  | token :: next :: rest =>
    if LabelShaped D token next ∧ rest ≠ [] then
      (speakerWord ++ ' ' :: next ++ [' ']) :: tokenLabels rest
    else tokenLabels (next :: rest)
  | _ => []

/-- The words of a line, each with the number of its speaker. -/
def readLine (text : Text) : List (Text × Text) :=
  let (lead, runs) := splitTokens (numberOf? D.isDigit) (text.splitOn ' ')
  lead.map (fun w => ([], w)) ++ expand runs

def Plain (words : List Text) : Prop := words.IsChain fun w w' => ¬LabelShaped D w w'

instance (words : List Text) : Decidable (Plain D words) :=
  inferInstanceAs (Decidable (List.IsChain _ _))

/-- A label and words that are not shaped like labels. -/
structure Run where
  number : Text
  words : List Text
  number_ne : number ≠ []
  digits : ∀ c ∈ number, D.isDigit c = true
  words_ne : words ≠ []
  word : ∀ w ∈ words, w ≠ [] ∧ ' ' ∉ w
  plain : Plain D words

variable {D}

def Run.tokens (r : Run D) : List Text := speakerWord :: (r.number ++ [':']) :: r.words

def Run.label (r : Run D) : Text := speakerWord ++ ' ' :: r.number ++ [':', ' ']

def Run.pairs (r : Run D) : List (Text × Text) := r.words.map fun w => (r.number, w)

def lineText (runs : List (Run D)) : Text := unwords (runs.flatMap Run.tokens)

end Tokens

section Matching
variable {D : DecimalDigits} {s t u : Text} {rest : List Text}

theorem unwords_append {ts us : List Text} (ht : ts ≠ []) (hu : us ≠ []) :
    unwords (ts ++ us) = unwords ts ++ ' ' :: unwords us := by
  obtain ⟨t, ts, rfl⟩ := List.exists_cons_of_ne_nil ht
  rw [SpeakerText.unwords_append, SpeakerText.spaced_of_ne_nil hu]

theorem numberToken_iff : numberToken D t = true ↔
    ∃ n, t = n ++ [':'] ∧ n ≠ [] ∧ ∀ c ∈ n, D.isDigit c = true := by
  simp only [numberToken, Option.isSome_iff_exists, SpeakerText.numberOf?_eq_some_iff]

theorem matchLabel_label {n : Text} (hne : n ≠ []) (hdigits : ∀ c ∈ n, D.isDigit c = true)
    (text : Text) : matchLabel D (speakerWord ++ ' ' :: n ++ ':' :: ' ' :: text) =
      some (speakerWord ++ ' ' :: n ++ [':', ' ']) := by
  have htake : (n ++ ':' :: ' ' :: text).takeWhile D.isDigit = n := by
    rw [List.takeWhile_append_of_pos hdigits, List.takeWhile_cons_of_neg (by simp [D.colon]),
      List.append_nil]
  have hdrop : (speakerWord ++ ' ' :: n ++ ':' :: ' ' :: text).drop (speakerWord.length + 1) =
      n ++ ':' :: ' ' :: text := by
    simp [speakerWord]
  have hstart : (speakerWord ++ [' ']).isPrefixOf (speakerWord ++ ' ' :: n ++ ':' :: ' ' :: text) :=
    List.isPrefixOf_iff_prefix.mpr ⟨n ++ ':' :: ' ' :: text, by simp⟩
  have hafter : (n ++ ':' :: ' ' :: text).dropWhile D.isDigit = ':' :: ' ' :: text := by
    rw [List.dropWhile_append_of_pos hdigits, List.dropWhile_cons_of_neg (by simp [D.colon])]
  have hcolon : [':', ' '].isPrefixOf (':' :: ' ' :: text) = true :=
    List.isPrefixOf_iff_prefix.mpr ⟨text, rfl⟩
  unfold matchLabel
  rw [if_pos hstart]
  simp only [hdrop, htake, hafter]
  rw [if_pos ⟨hne, hcolon⟩]

/-- The first blank of a text cuts it. -/
theorem cut_eq {a b r r' : Text} (ha : ' ' ∉ a) (hb : ' ' ∉ b)
    (h : a ++ ' ' :: r = b ++ ' ' :: r') : a = b ∧ r = r' := by
  have htake : ∀ {a r : Text}, ' ' ∉ a → (a ++ ' ' :: r).takeWhile (· ≠ ' ') = a := by
    intro a r ha
    have hne : ∀ c ∈ a, decide (c ≠ ' ') = true := by
      intro c hc
      rw [decide_eq_true_eq]
      rintro rfl
      exact ha hc
    rw [List.takeWhile_append_of_pos hne, List.takeWhile_cons_of_neg (by simp), List.append_nil]
  obtain rfl : a = b := by rw [← htake (r := r) ha, h, htake hb]
  exact ⟨rfl, (List.cons.inj (List.append_cancel_left h)).2⟩

/-- A match that begins inside a token takes the rest of the token and the next one. -/
theorem of_matchLabel {label : Text} (hs : s ≠ []) (hspace : ' ' ∉ s)
    (hrest : ∀ t ∈ rest, ' ' ∉ t) (h : matchLabel D (unwords (s :: rest)) = some label) :
    ∃ next more, s = speakerWord ∧ rest = next :: more ∧ more ≠ [] ∧ numberToken D next = true := by
  unfold matchLabel at h
  split at h
  · rename_i hstart
    obtain ⟨r, hr⟩ := List.isPrefixOf_iff_prefix.mp hstart
    have hspeaker : ' ' ∉ speakerWord := by decide
    cases rest with
    | nil =>
      rw [unwords, List.intercalate_singleton] at hr
      exact absurd (hr ▸ by simp) hspace
    | cons next more =>
      rw [unwords_cons_cons, List.append_assoc, List.singleton_append] at hr
      obtain ⟨rfl, rfl⟩ := cut_eq hspeaker hspace hr
      rw [unwords_cons_cons] at h
      have hdrop : (speakerWord ++ ' ' :: unwords (next :: more)).drop (speakerWord.length + 1) =
          unwords (next :: more) := by
        simp [speakerWord]
      simp only [hdrop] at h
      split at h
      · rename_i hdigits
        obtain ⟨r, hr⟩ := List.isPrefixOf_iff_prefix.mp hdigits.2
        have hnumber : unwords (next :: more) =
            (unwords (next :: more)).takeWhile D.isDigit ++ [':'] ++ ' ' :: r := by
          rw [List.append_assoc, List.singleton_append]
          conv_lhs => rw [← List.takeWhile_append_dropWhile (p := D.isDigit)
            (l := unwords (next :: more)), ← hr]
          rfl
        generalize hn : (unwords (next :: more)).takeWhile D.isDigit = n at hdigits hnumber
        have hall : ∀ c ∈ n, D.isDigit c = true :=
          List.all_eq_true.mp (hn ▸ List.all_takeWhile)
        have hblank : ' ' ∉ n ++ [':'] := by
          simp only [List.mem_append, List.mem_singleton, not_or]
          exact ⟨fun hc => by simpa [D.space] using hall _ hc, by decide⟩
        have hnext := hrest next List.mem_cons_self
        cases more with
        | nil =>
          rw [unwords, List.intercalate_singleton] at hnumber
          exact absurd (hnumber ▸ by simp) hnext
        | cons last more =>
          rw [unwords_cons_cons] at hnumber
          obtain ⟨rfl, -⟩ := cut_eq hnext hblank hnumber
          exact ⟨n ++ [':'], last :: more, rfl, rfl, by simp,
            numberToken_iff.mpr ⟨n, rfl, hdigits.1, hall⟩⟩
      · cases h
  · cases h

theorem findLabels_drop (skip : ℕ) (text : Text) :
    findLabels D skip text = findLabels D 0 (text.drop skip) := by
  induction text generalizing skip with
  | nil => cases skip <;> simp [findLabels]
  | cons c cs ih =>
    cases skip with
    | zero => rfl
    | succ skip => exact ih skip

theorem findLabels_label {n : Text} (hne : n ≠ []) (hdigits : ∀ c ∈ n, D.isDigit c = true)
    (text : Text) : findLabels D 0 (speakerWord ++ ' ' :: n ++ ':' :: ' ' :: text) =
      (speakerWord ++ ' ' :: n ++ [':', ' ']) :: findLabels D 0 text := by
  have hmatch := matchLabel_label hne hdigits text
  have hcons : speakerWord ++ ' ' :: n ++ ':' :: ' ' :: text =
      'S' :: ("peaker".toList ++ ' ' :: n ++ ':' :: ' ' :: text) := rfl
  have hdrop : ("peaker".toList ++ ' ' :: n ++ ':' :: ' ' :: text).drop
      ((speakerWord ++ ' ' :: n ++ [':', ' ']).length - 1) = text := by
    have hsplit : "peaker".toList ++ ' ' :: n ++ ':' :: ' ' :: text =
        ("peaker".toList ++ ' ' :: n ++ [':', ' ']) ++ text := by simp
    rw [hsplit, List.drop_left']
    simp [speakerWord]
  rw [hcons] at hmatch ⊢
  rw [findLabels, hmatch]
  simp only [findLabels_drop _ ("peaker".toList ++ ' ' :: n ++ ':' :: ' ' :: text), hdrop]

theorem findLabels_skip {c : Char} {text : Text} (h : matchLabel D (c :: text) = none) :
    findLabels D 0 (c :: text) = findLabels D 0 text := by
  rw [findLabels, h]

theorem matchLabel_of_ne {c : Char} (hc : c ≠ 'S') (text : Text) :
    matchLabel D (c :: text) = none := by
  have hstart : (speakerWord ++ [' ']).isPrefixOf (c :: text) = false := by
    simp [speakerWord, List.isPrefixOf, Ne.symm hc]
  simp [matchLabel, hstart]

/-- The labels found in a text are those of its tokens, if they are of the tokens that follow. -/
theorem findLabels_token (ht : ' ' ∉ t) (hrest : ∀ u ∈ rest, ' ' ∉ u)
    (h : ∀ more, more <:+ rest → findLabels D 0 (unwords more) = tokenLabels D more) :
    findLabels D 0 (unwords (t :: rest)) = tokenLabels D (t :: rest) := by
  induction t with
  | nil =>
    cases rest with
    | nil => rfl
    | cons next more =>
      have hshape : ¬LabelShaped D [] next := fun hshape => by
        simpa [speakerWord] using hshape.1
      rw [unwords_cons_cons, List.nil_append, findLabels_skip (matchLabel_of_ne (by decide) _),
        h _ (List.suffix_refl _), tokenLabels, if_neg fun hand => hshape hand.1]
  | cons c t ih =>
    have hcons : unwords ((c :: t) :: rest) = c :: unwords (t :: rest) :=
      List.intercalate_cons_cons_left
    have ht' : ' ' ∉ t := fun hmem => ht (List.mem_cons_of_mem c hmem)
    cases hmatch : matchLabel D (unwords ((c :: t) :: rest)) with
    | some label =>
      obtain ⟨next, more, hs, rfl, hmore, hnumber⟩ :=
        of_matchLabel (List.cons_ne_nil c t) ht hrest hmatch
      obtain ⟨n, rfl, hne, hdigits⟩ := numberToken_iff.mp hnumber
      obtain ⟨last, more, rfl⟩ := List.exists_cons_of_ne_nil hmore
      have htext : unwords ((c :: t) :: (n ++ [':']) :: last :: more) =
          speakerWord ++ ' ' :: n ++ ':' :: ' ' :: unwords (last :: more) := by
        rw [unwords_cons_cons, unwords_cons_cons, hs]
        simp
      rw [htext, findLabels_label hne hdigits, h _ ((List.suffix_cons _ _)), tokenLabels,
        if_pos ⟨⟨hs ▸ List.suffix_refl _, hnumber⟩, hmore⟩]
      simp
    | none =>
      rw [hcons] at hmatch ⊢
      rw [findLabels_skip hmatch, ih ht']
      cases rest with
      | nil => rfl
      | cons next more =>
        have hiff : LabelShaped D (c :: t) next ∧ more ≠ [] ↔
            LabelShaped D t next ∧ more ≠ [] := by
          constructor
          · rintro ⟨⟨hsuffix, hnumber⟩, hmore⟩
            refine ⟨⟨(List.suffix_cons_iff.mp hsuffix).resolve_left fun hs => ?_, hnumber⟩, hmore⟩
            obtain ⟨n, rfl, hne, hdigits⟩ := numberToken_iff.mp hnumber
            obtain ⟨last, more, rfl⟩ := List.exists_cons_of_ne_nil hmore
            have hlabel := matchLabel_label hne hdigits (unwords (last :: more))
            have htext : speakerWord ++ ' ' :: n ++ ':' :: ' ' :: unwords (last :: more) =
                c :: unwords (t :: (n ++ [':']) :: last :: more) := by
              rw [← hcons, unwords_cons_cons, unwords_cons_cons, ← hs]
              simp
            rw [htext, hmatch] at hlabel
            cases hlabel
          · rintro ⟨⟨hsuffix, hnumber⟩, hmore⟩
            exact ⟨⟨hsuffix.trans (List.suffix_cons c t), hnumber⟩, hmore⟩
        simp only [tokenLabels, hiff]

theorem findLabels_unwords {tokens : List Text} (h : ∀ t ∈ tokens, ' ' ∉ t) :
    findLabels D 0 (unwords tokens) = tokenLabels D tokens := by
  have hall : ∀ more, more <:+ tokens → findLabels D 0 (unwords more) = tokenLabels D more := by
    induction tokens with
    | nil =>
      intro more hmore
      rw [List.suffix_nil.mp hmore]
      rfl
    | cons t tokens ih =>
      have htokens := ih fun u hu => h u (List.mem_cons_of_mem t hu)
      intro more hmore
      rcases List.suffix_cons_iff.mp hmore with rfl | hmore
      · exact findLabels_token (h t List.mem_cons_self)
          (fun u hu => h u (List.mem_cons_of_mem t hu)) htokens
      · exact htokens more hmore
  exact hall tokens (List.suffix_refl _)

end Matching

section Reading
variable {D : DecimalDigits} {words rest : List Text} {runs : List (Run D)} {r : Run D}

theorem not_numberToken_speakerWord : ¬numberToken D speakerWord = true := by
  simp [numberToken, numberOf?, speakerWord]

theorem Plain.tail {w : Text} (h : Plain D (w :: words)) : Plain D words := List.IsChain.tail h

theorem Plain.head {w w' : Text} (h : Plain D (w :: w' :: words)) : ¬LabelShaped D w w' :=
  (List.isChain_cons_cons.mp h).1

/-- The words are passed, to the end or to the next label. -/
theorem tokenLabels_words (h : Plain D words) (hrest : ∀ t ∈ rest.head?, t = speakerWord) :
    tokenLabels D (words ++ rest) = tokenLabels D rest := by
  induction words with
  | nil => rfl
  | cons w words ih =>
    cases words with
    | nil =>
      cases rest with
      | nil => rfl
      | cons t rest =>
        obtain rfl := hrest t rfl
        rw [List.singleton_append, tokenLabels,
          if_neg fun hand => not_numberToken_speakerWord hand.1.2]
    | cons w' words =>
      rw [List.cons_append, List.cons_append, tokenLabels, if_neg fun hand => h.head hand.1,
        ← List.cons_append, ih h.tail]

theorem splitTokens_words (h : Plain D words) (hrest : ∀ t ∈ rest.head?, t = speakerWord) :
    splitTokens (numberOf? D.isDigit) (words ++ rest) =
      (words ++ (splitTokens (numberOf? D.isDigit) rest).1,
        (splitTokens (numberOf? D.isDigit) rest).2) := by
  induction words with
  | nil => rfl
  | cons w words ih =>
    rw [List.cons_append, SpeakerText.splitTokens_cons, ih h.tail]
    · rfl
    · intro hw next hnext
      by_contra hnumber
      have hnumber : numberToken D next = true := Option.isSome_iff_ne_none.mpr hnumber
      cases words with
      | nil => exact not_numberToken_speakerWord (hrest next hnext ▸ hnumber)
      | cons w' words =>
        obtain rfl : w' = next := by simpa using hnext
        exact h.head ⟨hw ▸ List.suffix_refl _, hnumber⟩

theorem head_tokens (runs : List (Run D)) :
    ∀ t ∈ (runs.flatMap Run.tokens).head?, t = speakerWord := by
  cases runs with
  | nil => simp
  | cons r runs =>
    intro t ht
    simpa [Run.tokens] using ht.symm

theorem Run.numberOf (r : Run D) : numberOf? D.isDigit (r.number ++ [':']) = some r.number :=
  SpeakerText.numberOf?_eq_some_iff.mpr ⟨rfl, r.number_ne, r.digits⟩

theorem Run.numberToken (r : Run D) : numberToken D (r.number ++ [':']) = true :=
  Option.isSome_of_eq_some r.numberOf

theorem Run.blankless (r : Run D) : ∀ t ∈ r.tokens, ' ' ∉ t := by
  intro t ht
  rcases List.mem_cons.mp ht with rfl | ht
  · decide
  · rcases List.mem_cons.mp ht with rfl | ht
    · simp only [List.mem_append, List.mem_singleton, not_or]
      exact ⟨fun hc => by simpa [D.space] using r.digits _ hc, by decide⟩
    · exact (r.word t ht).2

theorem tokens_blankless (runs : List (Run D)) : ∀ t ∈ runs.flatMap Run.tokens, ' ' ∉ t := by
  intro t ht
  obtain ⟨r, -, hr⟩ := List.mem_flatMap.mp ht
  exact r.blankless t hr

/-- The labels of a line are found, and nothing else. -/
theorem findLabels_lineText (runs : List (Run D)) :
    findLabels D 0 (lineText runs) = runs.map Run.label := by
  rw [lineText, findLabels_unwords (tokens_blankless runs)]
  induction runs with
  | nil => rfl
  | cons r runs ih =>
    have hrest : r.words ++ runs.flatMap Run.tokens ≠ [] := by simp [r.words_ne]
    rw [List.flatMap_cons, Run.tokens, List.cons_append, List.cons_append, tokenLabels,
      if_pos ⟨⟨List.suffix_refl _, r.numberToken⟩, hrest⟩,
      tokenLabels_words r.plain (head_tokens runs), ih, List.map_cons]
    simp [Run.label]

theorem readLine_lineText (hruns : runs ≠ []) :
    readLine D (lineText runs) = runs.flatMap Run.pairs := by
  have hne : runs.flatMap Run.tokens ≠ [] := by
    obtain ⟨r, runs, rfl⟩ := List.exists_cons_of_ne_nil hruns
    simp [Run.tokens]
  have hsplit : ∀ runs : List (Run D), splitTokens (numberOf? D.isDigit)
      (runs.flatMap Run.tokens) = ([], runs.map fun r => (r.number, r.words)) := by
    intro runs
    induction runs with
    | nil => rfl
    | cons r runs ih =>
      rw [List.flatMap_cons, Run.tokens, List.cons_append, List.cons_append,
        SpeakerText.splitTokens_label r.numberOf, splitTokens_words r.plain (head_tokens runs), ih]
      simp
  rw [readLine, lineText, unwords, List.splitOn_intercalate ' ' (tokens_blankless runs) hne,
    hsplit]
  simp only [List.map_nil, List.nil_append, expand, List.flatMap_map]
  rfl

theorem readLine_head : (readLine D (lineText (r :: runs))).head? =
    r.words.head?.map (r.number, ·) := by
  obtain ⟨w, words, hw⟩ := List.exists_cons_of_ne_nil r.words_ne
  simp [readLine_lineText, Run.pairs, hw]

theorem readLine_getLast : (readLine D (lineText (runs ++ [r]))).getLast? =
    r.words.getLast?.map (r.number, ·) := by
  have hne : r.pairs ≠ [] := by simp [Run.pairs, r.words_ne]
  rw [readLine_lineText (by simp), List.flatMap_append, List.flatMap_singleton,
    List.getLast?_append_of_ne_nil _ hne, Run.pairs, List.getLast?_map]

theorem readLine_ne (hruns : runs ≠ []) : readLine D (lineText runs) ≠ [] := by
  obtain ⟨r, runs, rfl⟩ := List.exists_cons_of_ne_nil hruns
  simp [readLine_lineText, Run.pairs, r.words_ne]

end Reading

section Joining
variable {D : DecimalDigits} {runs runs' : List (Run D)} {r r' : Run D}

/-- Two runs of one speaker, where the words that meet are not shaped like a label. -/
def Run.merge (r r' : Run D)
    (hmeet : ∀ w ∈ r.words.getLast?, ∀ w' ∈ r'.words.head?, ¬LabelShaped D w w') : Run D where
  number := r.number
  words := r.words ++ r'.words
  number_ne := r.number_ne
  digits := r.digits
  words_ne := by simp [r.words_ne]
  word w hw := (List.mem_append.mp hw).elim (r.word w) (r'.word w)
  plain := r.plain.append r'.plain hmeet

theorem lineText_cons (r : Run D) (runs : List (Run D)) : lineText (r :: runs) = speakerWord ++
    ' ' :: r.number ++ ':' :: ' ' :: unwords (r.words ++ runs.flatMap Run.tokens) := by
  obtain ⟨w, words, hw⟩ := List.exists_cons_of_ne_nil
    (show r.words ++ runs.flatMap Run.tokens ≠ [] by simp [r.words_ne])
  rw [lineText, List.flatMap_cons, Run.tokens, List.cons_append, List.cons_append, hw,
    unwords_cons_cons, unwords_cons_cons]
  simp

theorem label_prefix_iff : r.label.isPrefixOf (lineText (r' :: runs')) = true ↔
    r.number = r'.number := by
  rw [List.isPrefixOf_iff_prefix, lineText_cons, Run.label]
  constructor
  · rintro ⟨rest, h⟩
    have hcut : (r.number ++ [':']) ++ ' ' :: rest =
        (r'.number ++ [':']) ++ ' ' :: unwords (r'.words ++ runs'.flatMap Run.tokens) := by
      simpa using h
    have hblank : ∀ r : Run D, ' ' ∉ r.number ++ [':'] :=
      fun r => r.blankless _ (by simp [Run.tokens])
    exact List.append_cancel_right (cut_eq (hblank r) (hblank r') hcut).1
  · intro h
    exact ⟨unwords (r'.words ++ runs'.flatMap Run.tokens), by simp [h]⟩

theorem lineText_append {tokens : List Text} (h : tokens ≠ []) :
    unwords ((runs ++ [r]).flatMap Run.tokens ++ tokens) =
      lineText (runs ++ [r]) ++ ' ' :: unwords tokens := by
  have hne : (runs ++ [r]).flatMap Run.tokens ≠ [] := by
    rw [List.flatMap_append]
    simp [Run.tokens]
  exact unwords_append hne h

/-- A line of another speaker is joined with its label. -/
theorem joinTexts_of_ne (h : r.number ≠ r'.number) :
    joinTexts D (lineText (runs ++ [r])) (lineText (r' :: runs')) =
      lineText ((runs ++ [r]) ++ r' :: runs') := by
  have hlabel : r.label.isPrefixOf (lineText (r' :: runs')) = false := by
    rw [Bool.eq_false_iff]
    exact fun hstart => h (label_prefix_iff.mp hstart)
  rw [joinTexts, findLabels_lineText, List.map_append, List.map_singleton, List.getLast?_concat]
  simp only [hlabel, Bool.false_eq_true, if_false]
  have hne : (r' :: runs').flatMap Run.tokens ≠ [] := by simp [Run.tokens]
  have hjoin := @lineText_append D runs r _ hne
  rw [← List.flatMap_append] at hjoin
  exact hjoin.symm

/-- A line of the same speaker is joined without it. -/
theorem joinTexts_of_eq (h : r.number = r'.number)
    (hmeet : ∀ w ∈ r.words.getLast?, ∀ w' ∈ r'.words.head?, ¬LabelShaped D w w') :
    joinTexts D (lineText (runs ++ [r])) (lineText (r' :: runs')) =
      lineText (runs ++ r.merge r' hmeet :: runs') := by
  have hdrop : (lineText (r' :: runs')).drop r.label.length =
      unwords (r'.words ++ runs'.flatMap Run.tokens) := by
    have hsplit : lineText (r' :: runs') =
        r.label ++ unwords (r'.words ++ runs'.flatMap Run.tokens) := by
      rw [lineText_cons, Run.label, h]
      simp
    rw [hsplit, List.drop_left]
  rw [joinTexts, findLabels_lineText, List.map_append, List.map_singleton, List.getLast?_concat]
  simp only [label_prefix_iff.mpr h, if_true, hdrop]
  rw [← lineText_append (by simp [r'.words_ne]), lineText]
  simp [Run.tokens, Run.merge, List.append_assoc]

end Joining

end VoiceAgent.SpeakerLines
