import VoiceAgent.JsonDocuments
import VoiceAgent.ObjectExtraction
import VoiceAgent.TagRemoval

/-!
JSON in what a model answers. `extract_json_object` looks for an object at each opening brace and
takes the first that can be decoded; `parse_plan_json` cuts the thinking out, decodes the whole
answer or else what lies between its outermost braces. Code fences and prose around the object do
not matter.
-/
namespace VoiceAgent.ModelReplies

open JsonText JsonDecoder JsonDocuments JsonStream TagRemoval
open ObjectExtraction (stripWhile strip fence withoutClosingFence withoutFence cleanedReply
  firstObject)

section Extraction

/-- The fields of an object that can be decoded at the beginning of a text. -/
def decodeObject (text : Points) : Option Fields :=
  match rawDecode text with
  | .ok (.obj fields, _) => some fields
  | _ => none

/-- `extract_json_object`; no fields where there is no object. -/
def extractJsonObject (text : Points) : Fields :=
  (ObjectExtraction.extractJsonObject decodeObject text).getD .nil

/-- An object with these fields stands at the beginning of the text. -/
def Stands (text : Points) (fields : Fields) : Prop :=
  ∃ d rest, text = Doc.text d ++ rest ∧ d.value = some (.obj fields)

theorem stands_brace {text : Points} {fields : Fields} (h : Stands text fields) :
    ∃ rest, text = openBrace :: rest := by
  obtain ⟨d, rest, rfl, hvalue⟩ := h
  cases d with
  | emptyObj ws => exact ⟨_, rfl⟩
  | obj ws ms => exact ⟨_, rfl⟩
  | constant w => cases w <;> cases hvalue
  | number n =>
    simp only [Doc.value, Numeral.value] at hvalue
    split at hvalue
    · split at hvalue <;> cases hvalue
    · cases hvalue
  | str s => cases hvalue
  | emptyArr ws => cases hvalue
  | arr ws els =>
    obtain ⟨_, _, hv⟩ := Option.map_eq_some_iff.mp hvalue
    cases hv

theorem stands_iff {rest : Points} {fields : Fields} : Stands (openBrace :: rest) fields ↔
    ∃ left, rawDecode (openBrace :: rest) = .ok (.obj fields, left) := by
  constructor
  · rintro ⟨d, left, htext, hvalue⟩
    exact ⟨left, rawDecode_object.mpr ⟨d, htext, hvalue⟩⟩
  · rintro ⟨left, hraw⟩
    obtain ⟨d, htext, hvalue⟩ := rawDecode_object.mp hraw
    exact ⟨d, left, htext, hvalue⟩

/-- A text has one object at its beginning at most. -/
theorem stands_unique {text : Points} {fields fields' : Fields} (h : Stands text fields)
    (h' : Stands text fields') : fields = fields' := by
  obtain ⟨rest, rfl⟩ := stands_brace h
  obtain ⟨left, hraw⟩ := stands_iff.mp h
  obtain ⟨left', hraw'⟩ := stands_iff.mp h'
  rw [hraw] at hraw'
  cases hraw'
  rfl

theorem decodeObject_eq_some {rest : Points} {fields : Fields} :
    decodeObject (openBrace :: rest) = some fields ↔ Stands (openBrace :: rest) fields := by
  rw [stands_iff, decodeObject]
  constructor
  · intro h
    split at h
    · next found left hraw =>
      cases h
      exact ⟨left, hraw⟩
    · cases h
  · rintro ⟨left, hraw⟩
    rw [hraw]

theorem firstObject_stands {text : Points} {fields : Fields} (h : Stands text fields) :
    firstObject decodeObject text = some fields := by
  obtain ⟨rest, rfl⟩ := stands_brace h
  have hbrace : openBrace = (Alphabet.openBrace : ℕ) := rfl
  rw [firstObject, if_pos hbrace, decodeObject_eq_some.mpr h]

/-- Where no object stands, the search goes on behind the first character. -/
theorem firstObject_skip {c : ℕ} {rest : Points} (h : ∀ fields, ¬Stands (c :: rest) fields) :
    firstObject decodeObject (c :: rest) = firstObject decodeObject rest := by
  rw [firstObject]
  split
  · next hc =>
    subst hc
    split
    · next fields hfields => exact absurd (decodeObject_eq_some.mp hfields) (h fields)
    · rfl
  · rfl

/-- An object stands somewhere in the text, and none before it. -/
def FirstStands (text : Points) (fields : Fields) : Prop :=
  ∃ p q, text = p ++ q ∧ Stands q fields ∧
    ∀ p' q', text = p' ++ q' → p'.length < p.length → ∀ other, ¬Stands q' other

def NowhereStands (text : Points) : Prop :=
  ∀ p q, text = p ++ q → ∀ fields, ¬Stands q fields

theorem firstObject_first {text : Points} {fields : Fields} (h : FirstStands text fields) :
    firstObject decodeObject text = some fields := by
  obtain ⟨p, q, rfl, hq, hbefore⟩ := h
  induction p with
  | nil => exact firstObject_stands hq
  | cons c p ih =>
    have hc : ∀ other, ¬Stands (c :: (p ++ q)) other :=
      hbefore [] _ rfl (by simp)
    rw [List.cons_append, firstObject_skip hc]
    refine ih fun p' q' heq hlt => hbefore (c :: p') q' ?_ ?_
    · rw [List.cons_append, heq, List.cons_append]
    · simpa using hlt

theorem firstObject_nowhere {text : Points} (h : NowhereStands text) :
    firstObject decodeObject text = none := by
  induction text with
  | nil => rfl
  | cons c rest ih =>
    rw [firstObject_skip (h [] _ rfl)]
    refine ih fun p q heq => h (c :: p) q ?_
    rw [heq, List.cons_append]

/-- Either an object stands first in a text, or none stands in it. -/
theorem firstStands_or_nowhere (text : Points) :
    (∃ fields, FirstStands text fields) ∨ NowhereStands text := by
  induction text with
  | nil =>
    refine .inr fun p q heq fields hq => ?_
    obtain ⟨-, rfl⟩ := List.append_eq_nil_iff.mp heq.symm
    obtain ⟨rest, hrest⟩ := stands_brace hq
    cases hrest
  | cons c rest ih =>
    by_cases hc : ∃ fields, Stands (c :: rest) fields
    · obtain ⟨fields, hfields⟩ := hc
      exact .inl ⟨fields, [], _, rfl, hfields, fun _ _ _ hlt => absurd hlt (Nat.not_lt_zero _)⟩
    · have hnot : ∀ fields, ¬Stands (c :: rest) fields := fun fields h => hc ⟨fields, h⟩
      rcases ih with ⟨fields, p, q, rfl, hq, hbefore⟩ | hnowhere
      · refine .inl ⟨fields, c :: p, q, rfl, hq, ?_⟩
        intro p' q' heq hlt
        cases p' with
        | nil =>
          rw [List.nil_append] at heq
          rw [← heq]
          exact hnot
        | cons c' p' =>
          rw [List.cons_append, List.cons.injEq] at heq
          exact hbefore p' q' heq.2 (by simpa using hlt)
      · refine .inr fun p q heq => ?_
        cases p with
        | nil =>
          rw [List.nil_append] at heq
          rw [← heq]
          exact hnot
        | cons c' p =>
          rw [List.cons_append, List.cons.injEq] at heq
          exact hnowhere p q heq.2

end Extraction

section Wrapping

/-- A text that begins with an opening brace and ends with a closing one. -/
structure Braced (body : Points) : Prop where
  opens : ∃ t, body = openBrace :: t
  closes : ∃ t, body = t ++ [closeBrace]

theorem entries_closes : ∀ ms : Entries, ∃ t, ms.text = t ++ [closeBrace]
  | .last key afterKey lead v after => ⟨_, rfl⟩
  | .more key afterKey lead v after next ms => by
    obtain ⟨t, ht⟩ := entries_closes ms
    refine ⟨quoteMark :: spelled key ++ quoteMark :: blanks afterKey ++ colonMark :: blanks lead ++
      v.text ++ blanks after ++ commaMark :: blanks next ++ t, ?_⟩
    rw [Entries.text, ht]
    simp

/-- The text of an object is braced. -/
theorem braced_text {d : Doc} {fields : Fields} (h : d.value = some (.obj fields)) :
    Braced d.text := by
  refine ⟨stands_brace ⟨d, [], (List.append_nil _).symm, h⟩, ?_⟩
  obtain ⟨rest, hrest⟩ := stands_brace ⟨d, [], (List.append_nil _).symm, h⟩
  cases d with
  | emptyObj ws => exact ⟨openBrace :: blanks ws, rfl⟩
  | obj ws ms =>
    obtain ⟨t, ht⟩ := entries_closes ms
    exact ⟨openBrace :: blanks ws ++ t, by rw [Doc.text, ht]; simp⟩
  | constant w => exact absurd h (by cases w <;> simp [Doc.value, Constant.value])
  | number n => exact absurd rfl (doc_ne_number ((List.append_nil _).trans hrest) n)
  | str u => cases h
  | emptyArr ws => cases h
  | arr ws els => cases hrest

/-- Before the body and behind it, what `f` leaves of a text is a part of what was there. -/
def Trims (body : Points) (f : Points → Points) : Prop :=
  ∀ p q, ∃ p' q', p'.Sublist p ∧ q'.Sublist q ∧ f (p ++ body ++ q) = p' ++ body ++ q'

variable {body : Points}

theorem Trims.comp {f g : Points → Points} (hf : Trims body f) (hg : Trims body g) :
    Trims body fun text => g (f text) := by
  intro p q
  obtain ⟨p₁, q₁, hp₁, hq₁, hf⟩ := hf p q
  obtain ⟨p₂, q₂, hp₂, hq₂, hg⟩ := hg p₁ q₁
  exact ⟨p₂, q₂, hp₂.trans hp₁, hq₂.trans hq₁, by simp only [hf, hg]⟩

theorem dropWhile_before (h : Braced body) {pred : ℕ → Bool} (hopen : pred openBrace = false)
    (p q : Points) : (p ++ body ++ q).dropWhile pred = p.dropWhile pred ++ body ++ q := by
  obtain ⟨t, ht⟩ := h.opens
  rw [List.append_assoc, List.dropWhile_append, ht, List.cons_append]
  split
  · next hnil =>
    rw [List.isEmpty_iff] at hnil
    rw [hnil, List.dropWhile_cons_of_neg (by simp [hopen])]
    rfl
  · simp

theorem rdropWhile_behind (h : Braced body) {pred : ℕ → Bool} (hclose : pred closeBrace = false)
    (p q : Points) : (p ++ body ++ q).rdropWhile pred = p ++ body ++ q.rdropWhile pred := by
  obtain ⟨t, ht⟩ := h.closes
  simp only [List.rdropWhile, List.reverse_append, ht, List.reverse_cons, List.reverse_nil,
    List.nil_append, List.cons_append]
  rw [List.dropWhile_append]
  split
  · next hnil =>
    rw [List.isEmpty_iff] at hnil
    rw [hnil, List.dropWhile_cons_of_neg (by simp [hclose])]
    simp
  · simp

theorem trims_dropWhile (h : Braced body) {pred : ℕ → Bool} (hopen : pred openBrace = false) :
    Trims body fun text => text.dropWhile pred := fun p q =>
  ⟨_, q, List.dropWhile_sublist _, .refl q, dropWhile_before h hopen p q⟩

theorem trims_rdropWhile (h : Braced body) {pred : ℕ → Bool} (hclose : pred closeBrace = false) :
    Trims body fun text => text.rdropWhile pred := fun p q =>
  ⟨p, _, .refl p, (List.rdropWhile_prefix pred q).sublist, rdropWhile_behind h hclose p q⟩

theorem trims_stripWhile (h : Braced body) {pred : ℕ → Bool} (hopen : pred openBrace = false)
    (hclose : pred closeBrace = false) : Trims body (stripWhile pred) :=
  (trims_dropWhile h hopen).comp (trims_rdropWhile h hclose)

theorem trims_strip (h : Braced body) : Trims body strip :=
  trims_stripWhile h (by decide) (by decide)

/-- A word without an opening brace that begins the text begins what is before the body. -/
theorem prefix_before (h : Braced body) {p q word : Points} (hword : openBrace ∉ word)
    (hfront : word <+: p ++ body ++ q) : word <+: p := by
  obtain ⟨t, ht⟩ := h.opens
  obtain ⟨left, hleft⟩ := hfront
  rw [ht, List.append_assoc, List.cons_append] at hleft
  rcases List.append_eq_append_iff.mp hleft with ⟨k, hk, -⟩ | ⟨k, hk, hrest⟩
  · exact ⟨k, hk.symm⟩
  · cases k with
    | nil => exact ⟨[], by rw [hk]; simp⟩
    | cons c k =>
      rw [List.cons_append, List.cons.injEq] at hrest
      exact absurd (by rw [hk, ← hrest.1]; simp) hword

theorem drop_before (h : Braced body) {p q word : Points} (hword : openBrace ∉ word)
    (hfront : word <+: p ++ body ++ q) :
    (p ++ body ++ q).drop word.length = p.drop word.length ++ body ++ q := by
  have hle := (prefix_before h hword hfront).length_le
  rw [List.append_assoc, List.drop_append_of_le_length hle, List.append_assoc]

/-- A word without a closing brace that ends the text ends what is behind the body. -/
theorem suffix_behind (h : Braced body) {p q word : Points} (hword : closeBrace ∉ word)
    (hsuffix : word <:+ p ++ body ++ q) : word <:+ q := by
  obtain ⟨t, ht⟩ := h.closes
  obtain ⟨left, hleft⟩ := hsuffix
  have hassoc : left ++ word = (p ++ t ++ [closeBrace]) ++ q := by
    rw [hleft, ht]
    simp
  rcases List.append_eq_append_iff.mp hassoc with ⟨k, hk, hrest⟩ | ⟨k, hk, hrest⟩
  · rcases List.eq_nil_or_concat k with rfl | ⟨k', c, rfl⟩
    · exact ⟨[], by simpa using hrest⟩
    · have hlast : closeBrace = c := by
        have hback := congrArg List.getLast? hk
        simpa [← List.append_assoc] using hback
      exact absurd (by rw [hrest, ← hlast]; simp) hword
  · exact ⟨k, hrest.symm⟩

theorem trims_withoutClosingFence (h : Braced body) : Trims body withoutClosingFence := by
  intro p q
  rw [withoutClosingFence]
  split
  · next hfence =>
    have hsuffix := suffix_behind h (by decide) (List.isSuffixOf_iff_suffix.mp hfence)
    have hle : 3 ≤ q.length := hsuffix.length_le
    have htake : (p ++ body ++ q).take ((p ++ body ++ q).length - 3) =
        p ++ body ++ q.take (q.length - 3) := by
      rw [List.take_append, List.take_of_length_le (by simp only [List.length_append]; omega)]
      congr 2
      simp only [List.length_append]
      omega
    have htrims : Trims body fun text => text.rdropWhile isSpace := trims_rdropWhile h (by decide)
    obtain ⟨p', q', hp, hq, heq⟩ := htrims p (q.take (q.length - 3))
    exact ⟨p', q', hp, hq.trans (List.take_sublist _ _), by rw [htake]; exact heq⟩
  · exact ⟨p, q, .refl p, .refl q, rfl⟩

theorem trims_cleanedReply (h : Braced body) : Trims body cleanedReply := by
  have halnum : Trims body fun text => text.dropWhile isAsciiAlnum := trims_dropWhile h (by decide)
  have hspace : Trims body fun text => text.dropWhile isSpace := trims_dropWhile h (by decide)
  have hopened := ((halnum.comp hspace).comp (trims_withoutClosingFence h)).comp (trims_strip h)
  intro p q
  obtain ⟨p₁, q₁, hp₁, hq₁, hstrip⟩ := trims_strip h p q
  rw [cleanedReply, hstrip]
  split
  · next hfence =>
    have hdrop : (p₁ ++ body ++ q₁).drop 3 = p₁.drop 3 ++ body ++ q₁ :=
      drop_before h (by decide) (List.isPrefixOf_iff_prefix.mp hfence)
    obtain ⟨p', q', hp, hq, heq⟩ := hopened (p₁.drop 3) q₁
    refine ⟨p', q', (hp.trans (List.drop_sublist _ _)).trans hp₁, hq.trans hq₁, ?_⟩
    rw [← heq, ← hdrop]
    rfl
  · exact ⟨p₁, q₁, hp₁, hq₁, rfl⟩

end Wrapping

section Plans

def thinkOpen : Points := points "<think>"

def thinkClose : Points := points "</think>"

/-- `_strip_thinking`; none where the fuel does not suffice. -/
def stripThinking (fuel : ℕ) (text : Points) : Option Points :=
  remove thinkOpen thinkClose fuel text

def asciiLower (c : ℕ) : ℕ := if 0x41 ≤ c ∧ c ≤ 0x5A then c + 0x20 else c

def jsonWord : Points := points "json"

/-- The answer without a code fence, and without the name of its language. -/
def unfenced (text : Points) : Points :=
  if fence.isPrefixOf text then
    let inner := strip (stripWhile (· == backtick) text)
    if (inner.take 4).map asciiLower = jsonWord then strip (inner.drop 4) else inner
  else text

inductive PlanFault
  | json (fault : Fault)
  | notObject
  deriving DecidableEq

/-- What lies between the first opening and the last closing brace. -/
def outermost (text : Points) : Option Points :=
  let start := text.findIdx (· == openBrace)
  let behind := (text.rdropWhile (· != closeBrace)).length
  if start < text.length ∧ start + 1 < behind then some ((text.take behind).drop start) else none

def asObject : Except Fault Datum → Except PlanFault Fields
  | .ok (.obj fields) => .ok fields
  | .ok _ => .error .notObject
  | .error fault => .error (.json fault)

/-- Only a `JSONDecodeError` has the braces tried. -/
def parsePlanText (text : Points) : Except PlanFault Fields :=
  match loadsDocument text with
  | .error .malformed =>
    match outermost text with
    | some inner => asObject (loadsDocument inner)
    | none => .error (.json .malformed)
  | decoded => asObject decoded

/-- `parse_plan_json`; none where cutting the thinking out needs more fuel. -/
def parsePlanJson (fuel : ℕ) (raw : Points) : Option (Except PlanFault Fields) :=
  (stripThinking fuel raw).map fun text => parsePlanText (unfenced (strip text))

theorem apart_think : Apart thinkOpen thinkClose where
  marked := ⟨0x3C, points "think>", points "/think>", rfl, rfl, by decide, by decide⟩
  left := by decide
  right := by decide

/-- The loop that cuts the thinking out ends exactly if the answer, without the thinking that is
closed, lacks one of the tags. -/
theorem stripThinking_eq_some_iff (raw out : Points) :
    (∃ fuel, stripThinking fuel raw = some out) ↔
      ¬(thinkOpen <:+: reduced thinkOpen thinkClose raw ∧
        thinkClose <:+: reduced thinkOpen thinkClose raw) ∧
        out = reduced thinkOpen thinkClose raw :=
  remove_eq_some_iff apart_think out

variable {body : Points}

theorem trims_unfenced (h : Braced body) : Trims body unfenced := by
  have hticks : Trims body fun text => strip (stripWhile (· == backtick) text) :=
    (trims_stripWhile h (by decide) (by decide)).comp (trims_strip h)
  intro p q
  rw [unfenced]
  split
  · obtain ⟨p₁, q₁, hp₁, hq₁, hinner⟩ := hticks p q
    simp only [hinner]
    split
    · next hword =>
      have hlower : ∀ c ∈ (p₁ ++ body ++ q₁).take 4, asciiLower c ∈ jsonWord := by
        intro c hc
        rw [← hword]
        exact List.mem_map_of_mem hc
      have hfree : openBrace ∉ (p₁ ++ body ++ q₁).take 4 := fun hmem =>
        absurd (hlower _ hmem) (by decide)
      have hlen : ((p₁ ++ body ++ q₁).take 4).length = 4 := by
        have hmap := congrArg List.length hword
        rwa [List.length_map] at hmap
      have hdrop := drop_before h hfree (List.take_prefix 4 _)
      rw [hlen] at hdrop
      obtain ⟨p', q', hp, hq, heq⟩ := trims_strip h (p₁.drop 4) q₁
      exact ⟨p', q', (hp.trans (List.drop_sublist _ _)).trans hp₁, hq.trans hq₁,
        by rw [hdrop]; exact heq⟩
    · exact ⟨p₁, q₁, hp₁, hq₁, rfl⟩
  · exact ⟨p, q, .refl p, .refl q, rfl⟩

/-- Between the outermost braces lies the body, if no brace stands around it. -/
theorem outermost_body (h : Braced body) {p q : Points} (hp : openBrace ∉ p)
    (hq : closeBrace ∉ q) : outermost (p ++ body ++ q) = some body := by
  obtain ⟨t, ht⟩ := h.opens
  obtain ⟨u, hu⟩ := h.closes
  have hstart : (p ++ body ++ q).findIdx (· == openBrace) = p.length := by
    have hnone : p.findIdx (· == openBrace) = p.length := by
      rw [List.findIdx_eq_length]
      intro c hc
      exact beq_eq_false_iff_ne.mpr fun hce => hp (hce ▸ hc)
    rw [List.append_assoc, ht, List.cons_append, List.findIdx_append, hnone,
      if_neg (Nat.lt_irrefl _), List.findIdx_cons]
    simp
  have hbehind : (p ++ body ++ q).rdropWhile (· != closeBrace) = p ++ body := by
    have hall : q.rdropWhile (· != closeBrace) = [] := by
      rw [List.rdropWhile_eq_nil_iff]
      intro c hc
      exact bne_iff_ne.mpr fun hce => hq (hce ▸ hc)
    rw [rdropWhile_behind h (by decide), hall, List.append_nil]
  have hlen : 2 ≤ body.length := by
    cases u with
    | nil =>
      rw [ht, List.nil_append, List.cons.injEq] at hu
      exact absurd hu.1 (by decide)
    | cons c u => rw [hu]; simp
  rw [outermost]
  simp only [hstart, hbehind]
  rw [if_pos (by simp only [List.length_append]; omega), List.append_assoc,
    ← List.append_assoc, List.take_left, List.drop_left]

theorem constant_free (w : Constant) : openBrace ∉ w.text := by
  cases w <;> decide

theorem numeral_free (n : Numeral) : openBrace ∉ n.text := by
  have hdigit : ∀ ds : List (Fin 10), openBrace ∉ digitsText ds := by
    intro ds hmem
    obtain ⟨d, -, hd⟩ := List.mem_map.mp hmem
    rw [digit, openBrace] at hd
    have := d.isLt
    omega
  have hexponent : openBrace ∉ exponentText n.exponent := by
    cases n.exponent with
    | none => simp [exponentText]
    | some e =>
      obtain ⟨upper, sign, first, digits⟩ := e
      have hfirst := hdigit [first]
      have hdigits := hdigit digits
      simp only [digitsText, List.map_cons, List.map_nil, List.mem_singleton] at hfirst hdigits
      cases upper <;> rcases sign with _ | _ | _ <;>
        simp_all [exponentText, Exponent.text, signText, openBrace]
  have hfraction : openBrace ∉ fractionText n.fraction := by
    rw [fractionText]
    split
    · simp
    · rw [List.mem_cons]
      rintro (h | h)
      · cases h
      · exact hdigit _ h
  rw [Numeral.text]
  simp only [List.mem_append, not_or]
  exact ⟨⟨⟨by cases n.negative <;> decide, hdigit _⟩, hfraction⟩, hexponent⟩

theorem isSpace_of_readBlank {c : ℕ} {b : Blank} (h : readBlank c = some b) :
    isSpace c = true := by
  rw [← point_of_readBlank h]
  cases b <;> rfl

theorem strip_head {text : Points} {c : ℕ} (h : (strip text).head? = some c) :
    isSpace c = false := by
  obtain ⟨rest, hrest⟩ := List.rdropWhile_prefix isSpace (text.dropWhile isSpace)
  have hdrop : (text.dropWhile isSpace).head? = some c := by
    rw [← hrest, List.head?_append_of_ne_nil]
    · exact h
    · rintro hnil
      rw [strip, stripWhile, alphabet_isSpace, hnil] at h
      cases h
  have hnot := List.head?_dropWhile_not isSpace text
  rw [hdrop] at hnot
  simpa using hnot

theorem unfenced_strip (text : Points) : ∃ x, unfenced (strip text) = strip x := by
  rw [unfenced]
  split
  · simp only
    split
    · exact ⟨_, rfl⟩
    · exact ⟨_, rfl⟩
  · exact ⟨_, rfl⟩

/-- What is read at a first character that begins neither an object, nor a string, nor an array,
leaves every opening brace. -/
theorem loadsDocument_plain {c : ℕ} {rest : Points} (hbrace : c ≠ openBrace)
    (hquote : c ≠ quoteMark) (hbracket : c ≠ openBracket) (hspace : isSpace c = false)
    (hmem : openBrace ∈ c :: rest) :
    loadsDocument (c :: rest) = .error .malformed ∨
      ∃ n left, c :: rest = Numeral.text n ++ left ∧ maxStrDigits < n.whole.digits.length := by
  have hblank : readBlank c = none := by
    cases hb : readBlank c with
    | none => rfl
    | some b =>
      rw [isSpace_of_readBlank hb] at hspace
      cases hspace
  have hskip : skipBlanks (c :: rest) = c :: rest := skipBlanks_cons [] rest hblank
  rw [loadsDocument]
  split
  · exact .inl rfl
  · have hraw : rawDecode (skipBlanks (c :: rest)) = readLiteral (c :: rest) := by
      rw [hskip, rawDecode, scanOnce, if_neg hquote, if_neg hbracket, if_neg hbrace]
    have hleft : ∀ left word, openBrace ∉ word → c :: rest = word ++ left →
        skipBlanks left ≠ [] := by
      intro left word hword heq hnil
      obtain ⟨ws, hws, -⟩ := exists_skipBlanks left
      rw [hnil, List.append_nil] at hws
      rw [heq, List.mem_append, hws] at hmem
      rcases hmem with hmem | hmem
      · exact hword hmem
      · obtain ⟨b, -, hb⟩ := List.mem_map.mp hmem
        cases b <;> cases hb
    rw [hraw, readLiteral]
    cases hconst : readConstant (c :: rest) with
    | some read =>
      left
      simp only [bind_ok]
      rw [if_neg (hleft read.2 read.1.text (constant_free _) (text_readConstant hconst))]
    | none =>
      cases hnum : readNumeral (c :: rest) with
      | none => exact .inl rfl
      | some read =>
        have htext := text_readNumeral hnum
        cases hvalue : read.1.value with
        | none =>
          refine .inr ⟨read.1, read.2, htext, ?_⟩
          rw [Numeral.value] at hvalue
          split at hvalue
          · split at hvalue
            · cases hvalue
            · omega
          · cases hvalue
        | some v =>
          left
          simp only [parsed_some, bind_ok, hvalue, converted_some, map_ok]
          rw [if_neg (hleft read.2 read.1.text (numeral_free _) htext)]

theorem loadsDocument_object {d : Doc} {fields : Fields} (hvalue : d.value = some (.obj fields))
    (q : Points) : loadsDocument (d.text ++ q) =
      if skipBlanks q = [] then .ok (.obj fields) else .error .malformed := by
  obtain ⟨rest, hrest⟩ := stands_brace ⟨d, q, rfl, hvalue⟩
  have hmark : (d.text ++ q).head? ≠ some byteOrderMark := by
    rw [hrest]
    exact fun h => absurd (Option.some.inj h) (by decide)
  have hraw : rawDecode (d.text ++ q) = .ok (.obj fields, q) := by
    rw [rawDecode_text d fun n hn => absurd hn (doc_ne_number hrest n), hvalue]
    rfl
  have hskip : skipBlanks (d.text ++ q) = d.text ++ q := by
    rw [hrest]
    exact skipBlanks_cons [] rest rfl
  rw [loadsDocument, if_neg hmark, hskip, hraw, bind_ok]

/-- The object of a plan is found behind prose that is short and has no bracket and no quote of
its own, if no brace closes after it. -/
theorem parsePlanText_object {d : Doc} {fields : Fields} (hvalue : d.value = some (.obj fields))
    {p q : Points} (hbrace : openBrace ∉ p) (hquote : quoteMark ∉ p) (hbracket : openBracket ∉ p)
    (hspace : ∀ c ∈ p.head?, isSpace c = false) (hlen : p.length ≤ maxStrDigits)
    (hq : closeBrace ∉ q) : parsePlanText (p ++ d.text ++ q) = .ok fields := by
  have hinner : asObject (loadsDocument d.text) = .ok fields := by
    have hloads := loadsDocument_object hvalue []
    rw [List.append_nil] at hloads
    rw [hloads]
    rfl
  have hfallback : loadsDocument (p ++ d.text ++ q) = .error .malformed →
      parsePlanText (p ++ d.text ++ q) = .ok fields := by
    intro hmalformed
    rw [parsePlanText, hmalformed, outermost_body (braced_text hvalue) hbrace hq]
    exact hinner
  cases p with
  | nil =>
    have hloads := loadsDocument_object hvalue q
    by_cases hblank : skipBlanks q = []
    · rw [if_pos hblank] at hloads
      rw [parsePlanText, List.nil_append, hloads]
      rfl
    · rw [if_neg hblank] at hloads
      exact hfallback hloads
  | cons c p =>
    have hbody : openBrace ∈ c :: (p ++ d.text ++ q) := by
      obtain ⟨t, ht⟩ := (braced_text hvalue).opens
      simp [ht]
    rcases loadsDocument_plain (fun hc => hbrace (by simp [hc])) (fun hc => hquote (by simp [hc]))
      (fun hc => hbracket (by simp [hc])) (hspace c rfl) hbody with hloads | ⟨n, left, hn, hlong⟩
    · exact hfallback hloads
    · -- so long a numeral does not fit into the prose
      have hfront : n.text <+: c :: p :=
        prefix_before (braced_text hvalue) (numeral_free n) ⟨left, hn.symm⟩
      have hdigits : n.whole.digits.length ≤ n.text.length := by
        simp only [Numeral.text, List.length_append, digitsText, List.length_map]
        omega
      have hle := hfront.length_le
      omega

/-- An answer whose first tag closes and whose last tag opens is never parsed: the loop that cuts
the thinking out does not end on it. -/
theorem parsePlanJson_crossed {raw : Points} (h : Crossed thinkOpen thinkClose raw) (fuel : ℕ) :
    parsePlanJson fuel raw = none := by
  rw [parsePlanJson, stripThinking, remove_crossed apart_think fuel h, Option.map_none]

end Plans

end VoiceAgent.ModelReplies
