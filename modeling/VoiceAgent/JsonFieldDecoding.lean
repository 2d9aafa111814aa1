import VoiceAgent.JsonStream

/-!
What the field streamer decodes of a JSON object. It looks for the quoted name of the field, a
colon and a quote, wherever in the text they stand, and reads what follows one character or one
escape at a time. So the member itself is decoded if nothing before it looks like it, if its key
is spelled as the name and if its value has no surrogate pair among its escapes.
-/
namespace VoiceAgent.JsonFieldDecoding

open Chunks JsonText JsonStream JsonStringFieldStreamer

section Search

/-- White space, a colon, white space and an opening quote. -/
def OpensString (rest found : Points) : Prop :=
  ∃ ws ws', (∀ c ∈ ws, isSpace c = true) ∧ (∀ c ∈ ws', isSpace c = true) ∧
    rest = ws ++ colonMark :: (ws' ++ quoteMark :: found)

/-- A text scan for a string member of some name: of the places where the quoted name stands,
taken from the left without overlap, the first at which a string opens. -/
inductive Lands (needle : Points) : Points → Points → Prop
  | here {rest found : Points} (h : OpensString rest found) : Lands needle (needle ++ rest) found
  | skip {rest found : Points} (hno : ∀ other, ¬ OpensString rest other)
      (h : Lands needle rest found) : Lands needle (needle ++ rest) found
  | later {c : ℕ} {text found : Points} (hno : ¬ needle <+: c :: text)
      (h : Lands needle text found) : Lands needle (c :: text) found

variable {needle rest found left text x ws : Points} {c : ℕ} {phase : Phase}

theorem quote_not_mem_blank (hws : ∀ c ∈ ws, isSpace c = true) : quoteMark ∉ ws := by
  intro h
  exact absurd (hws _ h) (by decide)

theorem dropWhile_blank (hws : ∀ c ∈ ws, isSpace c = true) (hc : isSpace c = false)
    (text : Points) : (ws ++ c :: text).dropWhile isSpace = c :: text := by
  rw [List.dropWhile_append_of_pos hws, List.dropWhile_cons_of_neg (by simp [hc])]

/-- A text is blank, or blank up to some character. -/
theorem blank_cases (rest : Points) :
    (∀ c ∈ rest, isSpace c = true) ∨
    ∃ ws c left, (∀ c ∈ ws, isSpace c = true) ∧ isSpace c = false ∧ rest = ws ++ c :: left := by
  induction rest with
  | nil => exact .inl (by simp)
  | cons c rest ih =>
    cases hc : isSpace c with
    | false => exact .inr ⟨[], c, rest, by simp, hc, rfl⟩
    | true =>
      rcases ih with hall | ⟨ws, d, left, hws, hd, rfl⟩
      · exact .inl (by simpa [hc] using hall)
      · exact .inr ⟨c :: ws, d, left, by simpa [hc] using hws, hd, rfl⟩

theorem atQuote_blank (h : ∀ c ∈ rest, isSpace c = true) : atQuote rest = .waits .quote := by
  rw [atQuote, alphabet_isSpace, List.dropWhile_eq_nil_iff.mpr h]

theorem atColon_blank (h : ∀ c ∈ rest, isSpace c = true) : atColon rest = .waits .colon := by
  rw [atColon, alphabet_isSpace, List.dropWhile_eq_nil_iff.mpr h]

theorem atQuote_eq (hws : ∀ c ∈ ws, isSpace c = true) (hc : isSpace c = false) (left : Points) :
    atQuote (ws ++ c :: left) = if c = quoteMark then .opens left else .again (c :: left) := by
  rw [atQuote, alphabet_isSpace, dropWhile_blank hws hc]
  rfl

theorem atColon_eq (hws : ∀ c ∈ ws, isSpace c = true) (hc : isSpace c = false) (left : Points) :
    atColon (ws ++ c :: left) = if c = colonMark then atQuote left else .again (c :: left) := by
  rw [atColon, alphabet_isSpace, dropWhile_blank hws hc]
  rfl

theorem atColon_head (hc : isSpace c = false) (left : Points) :
    atColon (c :: left) = if c = colonMark then atQuote left else .again (c :: left) := by
  rw [atColon, List.dropWhile_cons_of_neg (by simp [hc])]
  rfl

theorem atColon_colon (left : Points) : atColon (colonMark :: left) = atQuote left := by
  rw [atColon_head (by decide), if_pos rfl]

/-- What the loop leaves behind holds no quote, unless that opens the string. -/
theorem atQuote_spec (rest : Points) :
    match atQuote rest with
    | .waits _ => quoteMark ∉ rest
    | .opens found => ∃ ws, (∀ c ∈ ws, isSpace c = true) ∧ rest = ws ++ quoteMark :: found
    | .again left => ∃ x, quoteMark ∉ x ∧ rest = x ++ left := by
  rcases blank_cases rest with hall | ⟨ws, c, left, hws, hc, rfl⟩
  · rw [atQuote_blank hall]
    exact quote_not_mem_blank hall
  · rw [atQuote_eq hws hc]
    by_cases hq : c = quoteMark
    · rw [if_pos hq]
      exact ⟨ws, hws, by rw [hq]⟩
    · rw [if_neg hq]
      exact ⟨ws, quote_not_mem_blank hws, rfl⟩

theorem atColon_spec (rest : Points) :
    match atColon rest with
    | .waits _ => quoteMark ∉ rest
    | .opens found => OpensString rest found
    | .again left => ∃ x, quoteMark ∉ x ∧ rest = x ++ left := by
  rcases blank_cases rest with hall | ⟨ws, c, left, hws, hc, rfl⟩
  · rw [atColon_blank hall]
    exact quote_not_mem_blank hall
  · have hnone := quote_not_mem_blank hws
    rw [atColon_eq hws hc]
    by_cases hq : c = colonMark
    · subst c
      rw [if_pos rfl]
      have hquote := atQuote_spec left
      cases hnext : atQuote left with
      | waits phase =>
        rw [hnext] at hquote
        simp only [List.mem_append, List.mem_cons, not_or]
        exact ⟨hnone, by decide, hquote⟩
      | opens found =>
        rw [hnext] at hquote
        obtain ⟨ws', hws', rfl⟩ := hquote
        exact ⟨ws, ws', hws, hws', rfl⟩
      | again after =>
        rw [hnext] at hquote
        obtain ⟨x, hx, rfl⟩ := hquote
        refine ⟨ws ++ colonMark :: x, ?_, by simp⟩
        simp only [List.mem_append, List.mem_cons, not_or]
        exact ⟨hnone, by decide, hx⟩
    · rw [if_neg hq]
      exact ⟨ws, hnone, rfl⟩

theorem opens_iff : OpensString rest found ↔ atColon rest = .opens found := by
  constructor
  · rintro ⟨ws, ws', hws, hws', rfl⟩
    rw [atColon_eq hws (by decide), if_pos rfl, atQuote_eq hws' (by decide), if_pos rfl]
  · intro h
    have := atColon_spec rest
    rwa [h] at this

/-- What follows the opening quote of the string that a scan of the text finds. -/
def landing (needle text : Points) : Option Points := (search needle text).2.2

theorem landing_later (hneedle : needle ≠ []) (hno : ¬ needle <+: c :: text) :
    landing needle (c :: text) = landing needle text := by
  rw [landing, landing, search_eq hneedle, search_eq hneedle text, splitFirst, if_neg hno]
  cases splitFirst needle text <;> rfl

theorem splitFirst_needle (hneedle : needle ≠ []) (rest : Points) :
    splitFirst needle (needle ++ rest) = some ([], rest) := by
  obtain ⟨c, tail, rfl⟩ := List.exists_cons_of_ne_nil hneedle
  rw [List.cons_append, splitFirst, ← List.cons_append, if_pos (List.prefix_append _ _),
    List.drop_left]

theorem landing_needle (hneedle : needle ≠ []) (rest : Points) :
    landing needle (needle ++ rest) = (goOn needle (atColon rest)).2.2 := by
  rw [landing, search_eq hneedle, splitFirst_needle hneedle]

theorem landing_opens (hneedle : needle ≠ []) (h : OpensString rest found) :
    landing needle (needle ++ rest) = some found := by
  rw [landing_needle hneedle, opens_iff.mp h]
  rfl

theorem landing_nil (hneedle : needle ≠ []) : landing needle [] = none := by
  rw [landing, search_eq hneedle, splitFirst, if_neg hneedle]

/-- Text without a quote is no part of the quoted name. -/
theorem landing_skip (f : Points) (hx : quoteMark ∉ x) (text : Points) :
    landing (needleOf f) (x ++ text) = landing (needleOf f) text := by
  induction x with
  | nil => rfl
  | cons c x ih =>
    rw [List.mem_cons, not_or] at hx
    have hno : ¬ needleOf f <+: c :: (x ++ text) := by
      rintro ⟨rest, hrest⟩
      exact hx.1 (List.cons.inj hrest).1
    rw [List.cons_append, landing_later (needleOf_ne_nil f) hno, ih hx.2]

theorem landing_none (f : Points) (hx : quoteMark ∉ x) : landing (needleOf f) x = none := by
  have hskip := landing_skip f hx []
  rwa [List.append_nil, landing_nil (needleOf_ne_nil f)] at hskip

/-- Where no string opens after the quoted name, the scan goes on. -/
theorem landing_passes (f : Points) (hno : ∀ found, ¬ OpensString rest found) :
    landing (needleOf f) (needleOf f ++ rest) = landing (needleOf f) rest := by
  have hspec := atColon_spec rest
  rw [landing_needle (needleOf_ne_nil f)]
  cases hnext : atColon rest with
  | waits phase =>
    rw [hnext] at hspec
    exact (landing_none f hspec).symm
  | opens found => exact absurd (opens_iff.mpr hnext) (hno found)
  | again left =>
    rw [hnext] at hspec
    obtain ⟨x, hx, rfl⟩ := hspec
    exact (landing_skip f hx left).symm

theorem landing_iff (f : Points) (text found : Points) :
    landing (needleOf f) text = some found ↔ Lands (needleOf f) text found := by
  have hneedle := needleOf_ne_nil f
  constructor
  · intro h
    induction hn : text.length using Nat.strong_induction_on generalizing text with
    | _ n ih =>
      subst n
      by_cases hprefix : needleOf f <+: text
      · obtain ⟨rest, rfl⟩ := hprefix
        by_cases hopens : ∃ other, OpensString rest other
        · obtain ⟨other, hopens⟩ := hopens
          rw [landing_opens hneedle hopens] at h
          cases h
          exact .here hopens
        · rw [not_exists] at hopens
          rw [landing_passes f hopens] at h
          have hpos : 0 < (needleOf f).length := List.length_pos_of_ne_nil hneedle
          refine .skip hopens (ih rest.length ?_ rest h rfl)
          rw [List.length_append]
          omega
      · cases text with
        | nil => cases (landing_nil hneedle).symm.trans h
        | cons c text =>
          rw [landing_later hneedle hprefix] at h
          exact .later hprefix (ih text.length (Nat.lt_succ_self _) text h rfl)
  · intro h
    induction h with
    | here hopens => exact landing_opens hneedle hopens
    | skip hno _ ih => rw [landing_passes f hno, ih]
    | later hno _ ih => rw [landing_later hneedle hno, ih]

end Search

section Read
variable (other : Points → Option ℕ)

/-- The characters of a string up to its closing quote, each escape for itself. -/
inductive Reads : Points → Points → Prop
  | close (rest : Points) : Reads (quoteMark :: rest) []
  | plain {c : ℕ} {text out : Points} (hc : c ≠ quoteMark ∧ c ≠ backslash)
      (h : Reads text out) : Reads (c :: text) (c :: out)
  | escape {c : ℕ} {text out : Points} (hc : c ≠ letterU) (h : Reads text out) :
      Reads (backslash :: c :: text) ((jsonEscapes.lookup c).getD c :: out)
  | unicode {a b c d : ℕ} {text out : Points} (h : Reads text out) :
      Reads (backslash :: letterU :: a :: b :: c :: d :: text)
        ((match chrOfHex other [a, b, c, d] with
          | some x => [x]
          | none => [backslash, letterU, a, b, c, d]) ++ out)

variable {other}

/-- Between two characters, in the string. -/
structure Ready (s : JsonStringFieldStreamer ℕ) : Prop where
  plain : s.escaped = false
  digits : s.unicodeRemaining = 0
  buffer : s.unicodeBuffer = []
  going : s.done = false

variable {s : JsonStringFieldStreamer ℕ} {text out : Points} {c : ℕ}

/-- What is put out and whether the closing quote has come. -/
def readout (other : Points → Option ℕ) (s : JsonStringFieldStreamer ℕ) (text : Points) :
    Points × Bool :=
  ((s.consume (chrOfHex other) text).2, (s.consume (chrOfHex other) text).1.done)

theorem readout_nil (h : Ready s) : readout other s [] = ([], false) := by
  simp [readout, consume, h.going]

theorem readout_close (h : Ready s) (rest : Points) :
    readout other s (quoteMark :: rest) = ([], true) := by
  have hstop : ∀ t : JsonStringFieldStreamer ℕ, t.done = true →
      consume (chrOfHex other) t rest = (t, []) := by
    intro t ht
    cases rest <;> simp [consume, ht]
  simp [readout, consume, readChar, h.plain, h.digits, h.going, quoteMark, backslash, hstop]

theorem readout_plain (h : Ready s) (hc : c ≠ quoteMark ∧ c ≠ backslash) (text : Points) :
    readout other s (c :: text) = (c :: (readout other s text).1, (readout other s text).2) := by
  simp [readout, consume, readChar, h.plain, h.digits, h.going, hc.1, hc.2]

theorem readout_escape (h : Ready s) (hc : c ≠ letterU) (text : Points) :
    readout other s (backslash :: c :: text) =
      ((jsonEscapes.lookup c).getD c :: (readout other s text).1, (readout other s text).2) := by
  obtain ⟨fieldName, phase, buffer, escaped, remaining, digits, done⟩ := s
  obtain ⟨rfl, rfl, rfl, rfl⟩ := h
  simp [readout, consume, readChar, hc]

theorem readout_unicode (h : Ready s) (a b c d : ℕ) (text : Points) :
    readout other s (backslash :: letterU :: a :: b :: c :: d :: text) =
      ((match chrOfHex other [a, b, c, d] with
        | some x => [x]
        | none => [backslash, letterU, a, b, c, d]) ++ (readout other s text).1,
        (readout other s text).2) := by
  obtain ⟨fieldName, phase, buffer, escaped, remaining, digits, done⟩ := s
  obtain ⟨rfl, rfl, rfl, rfl⟩ := h
  cases hchar : chrOfHex other [a, b, c, d] <;> simp [readout, consume, readChar, hchar]

/-- An escape that is cut off does not end the string. -/
theorem readout_cut (other : Points → Option ℕ) (h : Ready s) (digits : Points)
    (hlen : digits.length < 4) :
    (readout other s (backslash :: letterU :: digits)).2 = false := by
  obtain ⟨fieldName, phase, buffer, escaped, remaining, unicodeBuffer, done⟩ := s
  obtain ⟨rfl, rfl, rfl, rfl⟩ := h
  match digits, hlen with
  | [], _ => simp [readout, consume, readChar]
  | [a], _ => simp [readout, consume, readChar]
  | [a, b], _ => simp [readout, consume, readChar]
  | [a, b, c], _ => simp [readout, consume, readChar]

theorem exists_four (h : 4 ≤ text.length) :
    ∃ a b c d rest, text = a :: b :: c :: d :: rest := by
  obtain ⟨a, text, rfl⟩ := List.exists_cons_of_length_pos (l := text) (by omega)
  obtain ⟨b, text, rfl⟩ := List.exists_cons_of_length_pos (l := text)
    (by simp only [List.length_cons] at h; omega)
  obtain ⟨c, text, rfl⟩ := List.exists_cons_of_length_pos (l := text)
    (by simp only [List.length_cons] at h; omega)
  obtain ⟨d, text, rfl⟩ := List.exists_cons_of_length_pos (l := text)
    (by simp only [List.length_cons] at h; omega)
  exact ⟨a, b, c, d, text, rfl⟩

theorem reads_iff (h : Ready s) : readout other s text = (out, true) ↔ Reads other text out := by
  constructor
  · intro hread
    induction hn : text.length using Nat.strong_induction_on generalizing text out with
    | _ n ih =>
      subst n
      cases text with
      | nil =>
        rw [readout_nil h] at hread
        cases hread
      | cons c text =>
        by_cases hquote : c = quoteMark
        · subst c
          rw [readout_close h] at hread
          cases hread
          exact .close text
        by_cases hback : c = backslash
        · subst c
          cases text with
          | nil =>
            obtain ⟨fieldName, phase, buffer, escaped, remaining, digits, done⟩ := s
            obtain ⟨rfl, rfl, rfl, rfl⟩ := h
            simp [readout, consume, readChar] at hread
          | cons c text =>
            by_cases hu : c = letterU
            · subst c
              have hlong : 4 ≤ text.length := by
                by_contra hshort
                have hcut := readout_cut other h text (by omega)
                rw [hread] at hcut
                cases hcut
              obtain ⟨a, b, c, d, text, rfl⟩ := exists_four hlong
              rw [readout_unicode h, Prod.mk.injEq] at hread
              obtain ⟨rfl, hdone⟩ := hread
              exact .unicode (ih text.length (by simp only [List.length_cons]; omega)
                (Prod.ext rfl hdone) rfl)
            · rw [readout_escape h hu, Prod.mk.injEq] at hread
              obtain ⟨rfl, hdone⟩ := hread
              exact .escape hu (ih text.length (by simp only [List.length_cons]; omega)
                (Prod.ext rfl hdone) rfl)
        · rw [readout_plain h ⟨hquote, hback⟩, Prod.mk.injEq] at hread
          obtain ⟨rfl, hdone⟩ := hread
          exact .plain ⟨hquote, hback⟩ (ih text.length (Nat.lt_succ_self _)
            (Prod.ext rfl hdone) rfl)
  · intro hread
    induction hread with
    | close rest => exact readout_close h rest
    | plain hc _ ih => rw [readout_plain h hc, ih]
    | escape hc _ ih => rw [readout_escape h hc, ih]
    | unicode _ ih => rw [readout_unicode h, ih]

/-- One text fed whole: the scan of it lands, and the string is read from there on. -/
theorem stream_iff (f text out : Points) :
    stream other f [text] = (out, true) ↔
      ∃ found, Lands (needleOf f) text found ∧ Reads other found out := by
  have hfeed : stream other f [text] =
      ((feed (chrOfHex other) { fieldName := f } text).2,
        (feed (chrOfHex other) { fieldName := f } text).1.done) := by
    simp [stream, feedAll]
  have hlands : ∀ found, landing (needleOf f) text = some found ↔ Lands (needleOf f) text found :=
    landing_iff f text
  simp only [← hlands]
  rw [hfeed]
  by_cases htext : text = []
  · subst text
    simp [feed, landing_nil (needleOf_ne_nil f)]
  · rw [feed, if_neg (by simp [htext]), if_neg (by simp), List.nil_append]
    unfold landing
    change _ ↔ ∃ found, (search (needleOf f) text).2.2 = some found ∧ _
    rw [advanceToString]
    cases hsearch : search (needleOf f) text with
    | mk phase more =>
      obtain ⟨buffer, emitted⟩ := more
      cases emitted with
      | none => simp [readOn]
      | some found =>
        have hready : Ready { fieldName := f, phase := phase, buffer := buffer } :=
          ⟨rfl, rfl, rfl, rfl⟩
        have hreads : readout other { fieldName := f, phase := phase, buffer := buffer } found =
            (out, true) ↔ Reads other found out := reads_iff hready
        simpa [readout, readOn] using hreads

end Read

section Document
variable {f p rest found text : Points} {key s : List Spelling} {ws : List Blank}

/-- A name of letters, digits and the like. -/
structure Plain (f : Points) : Prop where
  quote : quoteMark ∉ f
  backslash : backslash ∉ f
  colon : colonMark ∉ f
  comma : commaMark ∉ f

/-- The spelling of the key is that of the name, or ends in a quote and that of the name. -/
def EndsAs (f : Points) (key : List Spelling) : Prop :=
  spelled (key.rtakeWhile (· ≠ .escape .quote)) = f

instance (f : Points) (key : List Spelling) : Decidable (EndsAs f key) :=
  inferInstanceAs (Decidable (_ = _))

def stringOf : Value → Option (List Spelling)
  | .str s => some s
  | _ => none

mutual
/-- The first string, at any depth, whose key ends as the name. -/
def firstIn (f : Points) : Value → Option (List Spelling)
  | .atom _ | .str _ => none
  | .arr _ items => firstItem f items
  | .obj _ members => firstMember f members

def firstItem (f : Points) : Items → Option (List Spelling)
  | .nil => none
  | .cons _ v _ rest => (firstIn f v).or (firstItem f rest)

def firstMember (f : Points) : Members → Option (List Spelling)
  | .nil => none
  | .cons _ key _ _ v _ rest =>
    (if EndsAs f key then stringOf v else none).or ((firstIn f v).or (firstMember f rest))
end

/-- What may follow a value: no colon does, and a colon or a comma stands before the next quote. -/
structure Follows (rest : Points) : Prop where
  fenced : ∀ found, ¬ OpensString rest found
  gap : quoteMark ∈ rest → colonMark ∈ rest.takeWhile (· ≠ quoteMark) ∨
    commaMark ∈ rest.takeWhile (· ≠ quoteMark)

section Blanks

theorem blank_space (ws : List Blank) : ∀ c ∈ blanks ws, isSpace c = true := by
  simp only [blanks, List.mem_map]
  rintro _ ⟨w, _, rfl⟩
  cases w <;> decide

theorem quote_not_mem_blanks (ws : List Blank) : quoteMark ∉ blanks ws :=
  quote_not_mem_blank (blank_space ws)

theorem takeWhile_blanks (ws : List Blank) (rest : Points) :
    (blanks ws ++ rest).takeWhile (· ≠ quoteMark) =
      blanks ws ++ rest.takeWhile (· ≠ quoteMark) := by
  refine List.takeWhile_append_of_pos fun c hc => ?_
  have hne : c ≠ quoteMark := by
    rintro rfl
    exact quote_not_mem_blanks ws hc
  simpa using hne

theorem opensString_blanks (ws : List Blank) :
    OpensString (blanks ws ++ rest) found ↔ OpensString rest found := by
  rw [opens_iff, opens_iff, atColon, atColon, alphabet_isSpace,
    List.dropWhile_append_of_pos (blank_space ws)]

theorem opensString_head {c : ℕ} (hspace : isSpace c = false) (hcolon : c ≠ colonMark) :
    ¬ OpensString (c :: rest) found := by
  rw [opens_iff, atColon_head hspace, if_neg hcolon]
  simp

theorem follows_nil : Follows [] := by
  refine ⟨fun found h => ?_, by simp⟩
  rw [opens_iff] at h
  cases h

theorem follows_blanks (h : Follows rest) (ws : List Blank) : Follows (blanks ws ++ rest) := by
  refine ⟨fun found hopens => h.fenced found ((opensString_blanks ws).mp hopens), fun hmem => ?_⟩
  have hrest : quoteMark ∈ rest := (List.mem_append.mp hmem).resolve_left (quote_not_mem_blanks ws)
  rw [takeWhile_blanks]
  exact (h.gap hrest).imp (List.mem_append_right _) (List.mem_append_right _)

theorem follows_comma (text : Points) : Follows (commaMark :: text) := by
  refine ⟨fun found => opensString_head (by decide) (by decide), fun _ => .inr ?_⟩
  rw [List.takeWhile_cons_of_pos (by decide)]
  exact List.mem_cons_self

theorem follows_bracket {c : ℕ} (hc : c = 0x5D ∨ c = 0x7D) (h : Follows rest) :
    Follows (c :: rest) := by
  have hspace : isSpace c = false := by rcases hc with rfl | rfl <;> decide
  have hcolon : c ≠ colonMark := by rcases hc with rfl | rfl <;> decide
  have hquote : c ≠ quoteMark := by rcases hc with rfl | rfl <;> decide
  refine ⟨fun found => opensString_head hspace hcolon, fun hmem => ?_⟩
  have hrest : quoteMark ∈ rest := (List.mem_cons.mp hmem).resolve_left (Ne.symm hquote)
  rw [List.takeWhile_cons_of_pos (by simpa using hquote)]
  exact (h.gap hrest).imp (List.mem_cons_of_mem _) (List.mem_cons_of_mem _)

end Blanks

section Strings

theorem needle_eq (f rest : Points) :
    needleOf f ++ rest = quoteMark :: (f ++ quoteMark :: rest) := by
  simp [needleOf]

theorem takeWhile_quote (hp : quoteMark ∉ p) (text : Points) :
    (p ++ quoteMark :: text).takeWhile (· ≠ quoteMark) = p := by
  rw [List.takeWhile_append_of_pos, List.takeWhile_cons_of_neg (by simp), List.append_nil]
  intro c hc
  have hne : c ≠ quoteMark := by
    rintro rfl
    exact hp hc
  simpa using hne

/-- A closing quote is no beginning of the name. -/
theorem landing_gap (hf : Plain f) (hgap : quoteMark ∈ rest →
    colonMark ∈ rest.takeWhile (· ≠ quoteMark) ∨ commaMark ∈ rest.takeWhile (· ≠ quoteMark)) :
    landing (needleOf f) (quoteMark :: rest) = landing (needleOf f) rest := by
  refine landing_later (needleOf_ne_nil f) fun hprefix => ?_
  obtain ⟨text, htext⟩ := hprefix
  rw [needle_eq, List.cons.injEq] at htext
  obtain rfl := htext.2
  rw [takeWhile_quote hf.quote] at hgap
  exact (hgap (by simp)).elim hf.colon hf.comma

/-- Between two quotes stands something else. -/
theorem landing_segment (hf : Plain f) (hp : quoteMark ∉ p) (hne : p ≠ f) (text : Points) :
    landing (needleOf f) (quoteMark :: (p ++ quoteMark :: text)) =
      landing (needleOf f) (quoteMark :: text) := by
  rw [landing_later (needleOf_ne_nil f), landing_skip f hp]
  rintro ⟨rest, hrest⟩
  rw [needle_eq, List.cons.injEq] at hrest
  have hseg := congrArg (List.takeWhile (· ≠ quoteMark)) hrest.2
  rw [takeWhile_quote hf.quote, takeWhile_quote hp] at hseg
  exact hne hseg.symm

theorem quote_not_mem_text {u : Spelling} (hu : u ≠ .escape .quote) : quoteMark ∉ u.text := by
  cases u with
  | plain c printable =>
    rw [Spelling.text, List.mem_singleton]
    exact Ne.symm printable.2.1
  | escape e =>
    cases e <;> simp [Spelling.text, quoteMark, JsonText.backslash, Escape.letter] at hu ⊢
  | unicode a b c d =>
    have hdigit : ∀ x : HexDigit, quoteMark ≠ x.point := by
      intro x
      simp only [quoteMark, HexDigit.point]
      split_ifs <;> omega
    simp [Spelling.text, hdigit, show quoteMark ≠ JsonText.backslash by decide,
      show quoteMark ≠ letterU by decide]

theorem spelled_cons (u : Spelling) (key : List Spelling) :
    spelled (u :: key) = u.text ++ spelled key := rfl

theorem endsAs_whole (h : .escape .quote ∉ key) : EndsAs f key ↔ spelled key = f := by
  have hwhole : key.rtakeWhile (· ≠ .escape .quote) = key := by
    rw [List.rtakeWhile_eq_self_iff]
    intro u hu
    have hne : u ≠ .escape .quote := by
      rintro rfl
      exact h hu
    simpa using hne
  rw [EndsAs, hwhole]

theorem endsAs_cons (h : .escape .quote ∈ key) (u : Spelling) :
    EndsAs f (u :: key) ↔ EndsAs f key := by
  have hnot : ¬ (key.reverse.takeWhile (· ≠ .escape .quote)).length = key.reverse.length := by
    intro hlen
    have hself := (List.takeWhile_prefix _).eq_of_length hlen
    have hall := List.takeWhile_eq_self_iff.mp hself (.escape .quote) (List.mem_reverse.mpr h)
    simp at hall
  rw [EndsAs, EndsAs, List.rtakeWhile, List.rtakeWhile, List.reverse_cons, List.takeWhile_append,
    if_neg hnot]

theorem endsAs_quote (h : .escape .quote ∉ key) :
    EndsAs f (.escape .quote :: key) ↔ spelled key = f := by
  have hself : key.reverse.takeWhile (· ≠ .escape .quote) = key.reverse := by
    rw [List.takeWhile_eq_self_iff]
    intro u hu
    have hne : u ≠ .escape .quote := by
      rintro rfl
      exact h (List.mem_reverse.mp hu)
    simpa using hne
  rw [EndsAs, List.rtakeWhile, List.reverse_cons, List.takeWhile_append, if_pos (by rw [hself]),
    List.takeWhile_cons_of_neg (by simp), List.append_nil, List.reverse_reverse]

/-- A scan from a quote on, `p` being what has been spelled since. -/
theorem landing_spelled (hf : Plain f) (key : List Spelling) (hp : quoteMark ∉ p)
    (rest : Points) :
    landing (needleOf f) (quoteMark :: (p ++ (spelled key ++ quoteMark :: rest))) =
      if (if .escape .quote ∈ key then EndsAs f key else p ++ spelled key = f) then
        landing (needleOf f) (needleOf f ++ rest)
      else landing (needleOf f) (quoteMark :: rest) := by
  induction key generalizing p with
  | nil =>
    have hnil : spelled [] = [] := rfl
    simp only [hnil, List.nil_append, List.append_nil, if_neg List.not_mem_nil]
    by_cases hname : p = f
    · rw [if_pos hname, hname, needle_eq]
    · rw [if_neg hname, landing_segment hf hp hname]
  | cons u key ih =>
    rw [spelled_cons]
    by_cases hu : u = .escape .quote
    · subst u
      have hback : p ++ [JsonText.backslash] ≠ f := by
        rintro rfl
        exact hf.backslash (by simp)
      have hfree : quoteMark ∉ p ++ [JsonText.backslash] := by
        simpa [quoteMark, JsonText.backslash] using hp
      have htext : quoteMark :: (p ++ (Spelling.text (.escape .quote) ++ spelled key ++
          quoteMark :: rest)) = quoteMark :: (p ++ [JsonText.backslash] ++
            quoteMark :: ([] ++ (spelled key ++ quoteMark :: rest))) := by
        simp [Spelling.text, Escape.letter, quoteMark]
      rw [htext, landing_segment hf hfree hback, ih List.not_mem_nil, List.nil_append]
      simp only [if_pos List.mem_cons_self]
      by_cases hmem : .escape .quote ∈ key
      · simp only [if_pos hmem, endsAs_cons hmem]
      · simp only [if_neg hmem, endsAs_quote hmem]
    · have hfree : quoteMark ∉ p ++ u.text := by
        rw [List.mem_append, not_or]
        exact ⟨hp, quote_not_mem_text hu⟩
      have hmem : .escape .quote ∈ u :: key ↔ .escape .quote ∈ key := by
        simp [Ne.symm hu]
      rw [List.append_assoc, ← List.append_assoc p, ih hfree]
      by_cases hin : .escape .quote ∈ key
      · simp only [if_pos (hmem.mpr hin), if_pos hin, endsAs_cons hin]
      · simp only [if_neg (mt hmem.mp hin), if_neg hin, List.append_assoc]

theorem quoted_append (key : List Spelling) (rest : Points) :
    quoted key ++ rest = quoteMark :: (spelled key ++ quoteMark :: rest) := by
  simp [quoted]

/-- A scan of a string lands after it, or goes on from its closing quote. -/
theorem landing_quoted (hf : Plain f) (key : List Spelling) (rest : Points) :
    landing (needleOf f) (quoted key ++ rest) =
      if EndsAs f key then landing (needleOf f) (needleOf f ++ rest)
      else landing (needleOf f) (quoteMark :: rest) := by
  have hspelled := landing_spelled hf key List.not_mem_nil rest
  rw [List.nil_append, List.nil_append] at hspelled
  rw [quoted_append, hspelled]
  by_cases hmem : .escape .quote ∈ key
  · simp only [if_pos hmem]
  · simp only [if_neg hmem, endsAs_whole hmem]

end Strings

section Heads

/-- No quote and no white space. -/
def Solid (c : ℕ) : Prop := c ≠ quoteMark ∧ isSpace c = false

instance (c : ℕ) : Decidable (Solid c) := inferInstanceAs (Decidable (_ ∧ _))

theorem solid_digit (d : Fin 10) : Solid (0x30 + d.val) := by
  revert d
  decide

theorem solid_wholeText (n : ℕ) : ∀ c ∈ wholeText n, Solid c := by
  intro c hc
  unfold wholeText at hc
  split at hc
  · rw [List.mem_singleton] at hc
    subst c
    decide
  · simp only [List.mem_map, List.mem_reverse] at hc
    obtain ⟨x, hx, rfl⟩ := hc
    exact solid_digit ⟨x, Nat.digits_lt_base (by norm_num) hx⟩

theorem solid_digits (digits : List (Fin 10)) : ∀ c ∈ digits.map digit, Solid c := by
  simp only [List.mem_map]
  rintro _ ⟨d, _, rfl⟩
  exact solid_digit d

theorem solid_exponent (e : Exponent) : ∀ c ∈ e.text, Solid c := by
  intro c hc
  rw [Exponent.text, List.mem_cons, List.mem_append, List.mem_cons] at hc
  rcases hc with rfl | hc | rfl | hc
  · split_ifs <;> decide
  · unfold signText at hc
    split at hc
    · cases hc
    · rw [List.mem_singleton] at hc
      subst c
      split_ifs <;> decide
  · exact solid_digit e.first
  · exact solid_digits _ c hc

theorem solid_number (n : Number) : ∀ c ∈ n.text, Solid c := by
  intro c hc
  simp only [Number.text, List.mem_append] at hc
  rcases hc with ((hc | hc) | hc) | hc
  · split at hc
    · rw [List.mem_singleton] at hc
      subst c
      decide
    · cases hc
  · exact solid_wholeText _ c hc
  · split at hc
    · cases hc
    · rw [List.mem_cons] at hc
      rcases hc with rfl | hc
      · decide
      · exact solid_digits _ c hc
  · cases hexp : n.exponent with
    | none =>
      rw [hexp] at hc
      cases hc
    | some e =>
      rw [hexp] at hc
      exact solid_exponent e c hc

theorem solid_atom (a : Atom) : ∀ c ∈ a.text, Solid c := by
  cases a with
  | null | true | false => decide
  | number n => exact solid_number n

theorem wholeText_ne_nil (n : ℕ) : wholeText n ≠ [] := by
  unfold wholeText
  split
  · simp
  · simpa using Nat.digits_ne_nil_iff_ne_zero.mpr ‹_›

theorem atom_ne_nil (a : Atom) : a.text ≠ [] := by
  cases a with
  | null | true | false => decide
  | number n => simp [Atom.text, Number.text, wholeText_ne_nil]

/-- A value that is no string begins with no quote. -/
theorem value_head {v : Value} (h : stringOf v = none) :
    ∃ c text, v.text = c :: text ∧ Solid c := by
  cases v with
  | atom a =>
    obtain ⟨c, text, htext⟩ := List.exists_cons_of_ne_nil (atom_ne_nil a)
    exact ⟨c, text, htext, solid_atom a c (by rw [htext]; exact List.mem_cons_self)⟩
  | str s => cases h
  | arr lead items => exact ⟨0x5B, _, rfl, by decide⟩
  | obj lead members => exact ⟨0x7B, _, rfl, by decide⟩

end Heads

section Scan

/-- A scan lands in the string, if there is one, or goes on after the text. -/
def Finds (f text rest : Points) : Option (List Spelling) → Prop
  | some s => ∃ after, landing (needleOf f) text = some (spelled s ++ quoteMark :: after)
  | none => landing (needleOf f) text = landing (needleOf f) rest

theorem Finds.or {o o' : Option (List Spelling)} (h : Finds f text found o)
    (h' : Finds f found rest o') : Finds f text rest (o.or o') := by
  cases o with
  | some s => exact h
  | none =>
    cases o' with
    | some s =>
      obtain ⟨after, hafter⟩ := h'
      exact ⟨after, h.trans hafter⟩
    | none => exact h.trans h'

/-- The scan passes over text without a quote. -/
theorem Finds.skip {o : Option (List Spelling)} {x : Points} (hx : quoteMark ∉ x)
    (h : Finds f text rest o) : Finds f (x ++ text) rest o :=
  Finds.or (o := none) (landing_skip f hx text) h

theorem Finds.upto {o : Option (List Spelling)} {x : Points} (hx : quoteMark ∉ x)
    (h : Finds f text (x ++ rest) o) : Finds f text rest o := by
  have hpass : Finds f (x ++ rest) rest none := landing_skip f hx rest
  have hor := h.or hpass
  rwa [Option.or_none] at hor

/-- A string that is no key. -/
theorem finds_string (hf : Plain f) (s : List Spelling) (h : Follows rest) :
    Finds f (quoted s ++ rest) rest none := by
  change landing _ _ = _
  rw [landing_quoted hf]
  split
  · exact landing_passes f h.fenced
  · exact landing_gap hf h.gap

theorem opensString_value {v : Value} (h : stringOf v = none) (ws ws' : List Blank)
    (rest found : Points) :
    ¬ OpensString (blanks ws ++ colonMark :: (blanks ws' ++ (v.text ++ rest))) found := by
  obtain ⟨c, text, htext, hquote, hspace⟩ := value_head h
  rw [opensString_blanks, htext, List.cons_append, opens_iff, atColon_colon,
    atQuote_eq (blank_space ws') hspace, if_neg hquote]
  simp

/-- A key, its colon and what stands before the value. -/
theorem finds_key (hf : Plain f) (key : List Spelling) (ws ws' : List Blank) (v : Value)
    (rest : Points) :
    Finds f (quoted key ++ (blanks ws ++ colonMark :: (blanks ws' ++ (v.text ++ rest))))
      (v.text ++ rest) (if EndsAs f key then stringOf v else none) := by
  have hcolon : quoteMark ∉ blanks ws ++ colonMark :: blanks ws' := by
    rw [List.mem_append, List.mem_cons, not_or, not_or]
    exact ⟨quote_not_mem_blanks ws, by decide, quote_not_mem_blanks ws'⟩
  have hskip : landing (needleOf f) (blanks ws ++ colonMark :: (blanks ws' ++ (v.text ++ rest))) =
      landing (needleOf f) (v.text ++ rest) := by
    have hall := landing_skip f hcolon (v.text ++ rest)
    rwa [List.append_assoc, List.cons_append] at hall
  by_cases hkey : EndsAs f key
  · rw [if_pos hkey]
    cases hv : stringOf v with
    | none =>
      change landing _ _ = _
      rw [landing_quoted hf, if_pos hkey, landing_passes f (opensString_value hv ws ws' rest),
        hskip]
    | some s =>
      obtain rfl : v = .str s := by cases v <;> simp_all [stringOf]
      refine ⟨rest, ?_⟩
      rw [landing_quoted hf, if_pos hkey]
      refine landing_opens (needleOf_ne_nil f)
        ⟨blanks ws, blanks ws', blank_space ws, blank_space ws', ?_⟩
      rw [Value.text, quoted_append]
  · rw [if_neg hkey]
    change landing _ _ = _
    rw [landing_quoted hf, if_neg hkey, landing_gap hf, hskip]
    intro _
    rw [takeWhile_blanks, List.takeWhile_cons_of_pos (by decide)]
    exact .inl (by simp)

mutual
theorem finds_value (hf : Plain f) (v : Value) {rest : Points} (h : Follows rest) :
    Finds f (v.text ++ rest) rest (firstIn f v) := by
  cases v with
  | atom a =>
    rw [Value.text, firstIn]
    refine landing_skip f (fun hmem => ?_) rest
    exact (solid_atom a _ hmem).1 rfl
  | str s =>
    rw [firstIn]
    exact finds_string hf s h
  | arr lead items =>
    have hopen : quoteMark ∉ 0x5B :: blanks lead := by
      rw [List.mem_cons, not_or]
      exact ⟨by decide, quote_not_mem_blanks lead⟩
    have hitems := finds_items hf items (follows_bracket (c := 0x5D) (.inl rfl) h)
    have hall := (hitems.upto (x := [0x5D]) (by decide)).skip hopen
    rw [firstIn]
    simpa [Value.text] using hall
  | obj lead members =>
    have hopen : quoteMark ∉ 0x7B :: blanks lead := by
      rw [List.mem_cons, not_or]
      exact ⟨by decide, quote_not_mem_blanks lead⟩
    have hmembers := finds_members hf members (follows_bracket (c := 0x7D) (.inr rfl) h)
    have hall := (hmembers.upto (x := [0x7D]) (by decide)).skip hopen
    rw [firstIn]
    simpa [Value.text] using hall

theorem finds_items (hf : Plain f) (items : Items) {rest : Points} (h : Follows rest) :
    Finds f (items.text ++ rest) rest (firstItem f items) := by
  cases items with
  | nil => rfl
  | cons before v after more =>
    have hv : ∀ tail, Follows tail →
        Finds f (v.text ++ (blanks after ++ tail)) tail (firstIn f v) := fun tail htail =>
      (finds_value hf v (follows_blanks htail after)).upto (quote_not_mem_blanks after)
    have hmore := (finds_items hf more h).skip (x := [commaMark]) (by decide)
    rw [firstItem]
    cases more with
    | nil =>
      have hall := (hv rest h).skip (quote_not_mem_blanks before)
      simpa [Items.text, firstItem] using hall
    | cons before' v' after' more' =>
      have hall := ((hv _ (follows_comma _)).or hmore).skip (quote_not_mem_blanks before)
      rw [Items.text]
      simpa using hall

theorem finds_members (hf : Plain f) (members : Members) {rest : Points} (h : Follows rest) :
    Finds f (members.text ++ rest) rest (firstMember f members) := by
  cases members with
  | nil => rfl
  | cons before key afterKey beforeValue v after more =>
    have hv : ∀ tail, Follows tail →
        Finds f (quoted key ++ (blanks afterKey ++ colonMark :: (blanks beforeValue ++
          (v.text ++ (blanks after ++ tail))))) tail
          ((if EndsAs f key then stringOf v else none).or (firstIn f v)) := fun tail htail =>
      (finds_key hf key afterKey beforeValue v _).or
        ((finds_value hf v (follows_blanks htail after)).upto (quote_not_mem_blanks after))
    have hmore := (finds_members hf more h).skip (x := [commaMark]) (by decide)
    rw [firstMember, ← Option.or_assoc]
    cases more with
    | nil =>
      have hall := (hv rest h).skip (quote_not_mem_blanks before)
      simpa [Members.text, firstMember] using hall
    | cons before' key' afterKey' beforeValue' v' after' more' =>
      have hall := ((hv _ (follows_comma _)).or hmore).skip (quote_not_mem_blanks before)
      rw [Members.text]
      simpa using hall
end

/-- What a scan of a document finds: the first string whose key ends as the name. -/
theorem lands_document (hf : Plain f) (d : ObjectText) :
    match firstMember f d.members with
    | some s => ∃ after, landing (needleOf f) d.text = some (spelled s ++ quoteMark :: after)
    | none => landing (needleOf f) d.text = none := by
  have hend : Follows (blanks d.after) := by
    simpa using follows_blanks follows_nil d.after
  have hfinds : Finds f d.text (blanks d.after) (firstMember f d.members) := by
    have hvalue := finds_value hf (.obj d.lead d.members) hend
    rw [firstIn] at hvalue
    rw [ObjectText.text, List.append_assoc]
    exact hvalue.skip (quote_not_mem_blanks d.before)
  cases hfirst : firstMember f d.members with
  | some s =>
    rw [hfirst] at hfinds
    exact hfinds
  | none =>
    rw [hfirst] at hfinds
    exact hfinds.trans (landing_none f (quote_not_mem_blanks d.after))

end Scan

section Spellings
variable {other : Points → Option ℕ} {out : Points}

theorem hexValue_point (d : HexDigit) : hexValue d.point = some d.value.val := by
  obtain ⟨value, upper⟩ := d
  revert value
  cases upper <;> decide

theorem chrOfHex_points (a b c d : HexDigit) :
    chrOfHex other [a.point, b.point, c.point, d.point] =
      some (Spelling.unicode a b c d).point := by
  simp [chrOfHex, hexValue_point, Spelling.point]

/-- A string is read one escape at a time. -/
theorem readout_spelled {t : JsonStringFieldStreamer ℕ} (h : Ready t) (s : List Spelling)
    (rest : Points) :
    readout other t (spelled s ++ quoteMark :: rest) = (s.map Spelling.point, true) := by
  induction s with
  | nil => exact readout_close h rest
  | cons u s ih =>
    rw [spelled_cons, List.append_assoc, List.map_cons]
    cases u with
    | plain c printable =>
      rw [Spelling.text, List.singleton_append, readout_plain h printable.2, ih]
      rfl
    | escape e =>
      have hletter : e.letter ≠ letterU := by cases e <;> decide
      have hpoint : (jsonEscapes.lookup e.letter).getD e.letter = e.point := by
        cases e <;> rfl
      change readout other t
        (JsonText.backslash :: e.letter :: (spelled s ++ quoteMark :: rest)) = _
      rw [readout_escape h hletter, ih, hpoint]
      rfl
    | unicode a b c d =>
      change readout other t
        (JsonText.backslash :: letterU :: a.point :: b.point :: c.point :: d.point ::
          (spelled s ++ quoteMark :: rest)) = _
      rw [readout_unicode h, ih, chrOfHex_points]
      rfl

theorem reads_spelled (s : List Spelling) (rest : Points) :
    Reads other (spelled s ++ quoteMark :: rest) out ↔ s.map Spelling.point = out := by
  have hready : Ready { fieldName := [], phase := .inString } := ⟨rfl, rfl, rfl, rfl⟩
  rw [← reads_iff hready, readout_spelled hready]
  simp

/-- The field of an object comes out as its value `s` exactly when the first place that looks
like it reads so: for a name without quotes, backslashes, colons and commas, when the first string
in the document whose key ends as the name spells the value one escape at a time. -/
theorem stream_value_iff {d : ObjectText} {f : Points} {s : List Spelling} {chunks : List Points}
    (hchunks : chunks.flatten = d.text) :
    (stream other f chunks = (decode s, true) ↔
      ∃ found, Lands (needleOf f) d.text found ∧ Reads other found (decode s)) ∧
    (Plain f → (stream other f chunks = (decode s, true) ↔
      ∃ v, firstMember f d.members = some v ∧ v.map Spelling.point = decode s)) := by
  have hscan : stream other f chunks = (decode s, true) ↔
      ∃ found, Lands (needleOf f) d.text found ∧ Reads other found (decode s) := by
    rw [stream_eq, hchunks, stream_iff]
  refine ⟨hscan, fun hf => hscan.trans ?_⟩
  have hlands := lands_document hf d
  simp only [← landing_iff]
  cases hfirst : firstMember f d.members with
  | some v =>
    rw [hfirst] at hlands
    obtain ⟨after, hafter⟩ := hlands
    rw [hafter]
    simp [reads_spelled]
  | none =>
    rw [hfirst] at hlands
    rw [hlands]
    simp

def letters (s : List (Fin 26)) : List Spelling :=
  s.map fun c => .plain (0x61 + c.val) (by
    have := c.isLt
    simp only [quoteMark, JsonText.backslash]
    omega)

/-- An object of one string member, without blanks. -/
def oneMember (key s : List Spelling) : ObjectText where
  before := []
  lead := []
  members := .cons [] key [] [] (.str s) [] .nil
  after := []
  distinct := by simp [Members.toList]

theorem stream_value_iff_ab :
    stream (fun _ => none) [0x61, 0x62] [points "\x7b\"ab\"", points ":\"hi\"\x7d"] =
      ([0x68, 0x69], true) :=
  ((stream_value_iff (d := oneMember (letters [0, 1]) (letters [7, 8])) (s := letters [7, 8])
    (by decide +kernel)).2
      ⟨by decide +kernel, by decide +kernel, by decide +kernel, by decide +kernel⟩).mpr
    ⟨letters [7, 8], by decide +kernel, by decide +kernel⟩

/-- A smiling face as a surrogate pair of escapes. -/
def smile : List Spelling :=
  [.unicode ⟨⟨13, by decide⟩, false⟩ ⟨⟨8, by decide⟩, false⟩ ⟨⟨3, by decide⟩, false⟩
      ⟨⟨13, by decide⟩, false⟩,
    .unicode ⟨⟨13, by decide⟩, false⟩ ⟨⟨14, by decide⟩, false⟩ ⟨⟨0, by decide⟩, false⟩
      ⟨⟨0, by decide⟩, false⟩]

theorem stream_value_pair : ¬ ∀ (d : ObjectText) (f : Points) (s : List Spelling)
    (chunks : List Points), (f, Value.str s) ∈ d.members.toList → chunks.flatten = d.text →
      stream (fun _ => none) f chunks = (decode s, true) := by
  intro h
  have hpair := h (oneMember (letters [0]) smile) [0x61] smile
    [points "\x7b\"a\":\"\\ud83d\\ude00\"\x7d"] (List.mem_singleton.mpr rfl) (by decide +kernel)
  have hread : stream (fun _ => none) [0x61] [points "\x7b\"a\":\"\\ud83d\\ude00\"\x7d"] =
      ([0xD83D, 0xDE00], true) := by decide +kernel
  rw [hread] at hpair
  exact absurd hpair (by decide +kernel)

end Spellings

end Document

end VoiceAgent.JsonFieldDecoding
