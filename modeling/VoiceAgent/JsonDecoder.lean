import VoiceAgent.JsonDumps

/-!
JSON as Python's decoder reads it, and the documents it reads. A document is written down with
every blank, escape and digit. Numbers and strings are read as far as they go, and what is read
of them is what was written.
-/
namespace VoiceAgent.JsonDecoder

open JsonText JsonDumps

section Values

mutual
/-- What the decoder returns. A number with a fraction or an exponent keeps its text. -/
inductive Datum
  | null
  | bool (b : Bool)
  | int (n : ℤ)
  | float (text : Points)
  | nan
  | infinity (negative : Bool)
  | str (s : Points)
  | arr (items : Data)
  | obj (fields : Fields)
  deriving DecidableEq

inductive Data
  | nil
  | cons (head : Datum) (tail : Data)
  deriving DecidableEq

inductive Fields
  | nil
  | cons (key : Points) (value : Datum) (rest : Fields)
  deriving DecidableEq
end

namespace Fields

def get? : Fields → Points → Option Datum
  | .nil, _ => none
  | .cons key value rest, k => if key = k then some value else rest.get? k

/-- A new key goes to the end; an old one keeps its place. -/
def set : Fields → Points → Datum → Fields
  | .nil, k, v => .cons k v .nil
  | .cons key value rest, k, v =>
    if key = k then .cons key v rest else .cons key value (rest.set k v)

end Fields

/-- A later member of an object replaces an earlier one of the same key. -/
def dictOf (pairs : List (Points × Datum)) : Fields :=
  pairs.foldl (fun d kv => d.set kv.1 kv.2) .nil

end Values

section Documents

/-- The words that the decoder knows; three of them are not in the standard. -/
inductive Constant
  | null | true | false | nan | infinity | negativeInfinity
  deriving DecidableEq

def Constant.text : Constant → Points
  | null => points "null"
  | true => points "true"
  | false => points "false"
  | nan => points "NaN"
  | infinity => points "Infinity"
  | negativeInfinity => points "-Infinity"

def Constant.value : Constant → Datum
  | null => .null
  | true => .bool Bool.true
  | false => .bool Bool.false
  | nan => .nan
  | infinity => .infinity Bool.false
  | negativeInfinity => .infinity Bool.true

/-- The whole part of a number: no zero leads it unless it is one. -/
inductive Whole
  | zero
  | positive (first : Fin 9) (digits : List (Fin 10))
  deriving DecidableEq

def Whole.digits : Whole → List (Fin 10)
  | zero => [0]
  | positive first digits => first.succ :: digits

structure Numeral where
  negative : Bool
  whole : Whole
  fraction : List (Fin 10)
  exponent : Option Exponent
  deriving DecidableEq

def digitsText (ds : List (Fin 10)) : Points := ds.map digit

def fractionText (ds : List (Fin 10)) : Points :=
  if ds = [] then [] else 0x2E :: digitsText ds

def exponentText (e : Option Exponent) : Points := (e.map Exponent.text).getD []

def Numeral.text (n : Numeral) : Points :=
  (if n.negative then [0x2D] else []) ++ digitsText n.whole.digits ++ fractionText n.fraction ++
    exponentText n.exponent

/-- `int` refuses a text with more digits. -/
def maxStrDigits : ℕ := 4300

def Whole.value (w : Whole) : ℕ := w.digits.foldl (fun n d => 10 * n + d.val) 0

def Numeral.value (n : Numeral) : Option Datum :=
  if n.fraction = [] ∧ n.exponent = none then
    if n.whole.digits.length ≤ maxStrDigits then
      some (.int (if n.negative then -(n.whole.value : ℤ) else n.whole.value))
    else none
  else some (.float n.text)

mutual
/-- Blanks stand where the decoder skips them, and nowhere else. -/
inductive Doc
  | constant (c : Constant)
  | number (n : Numeral)
  | str (s : List Spelling)
  | emptyArr (inside : List Blank)
  | arr (lead : List Blank) (items : Elements)
  | emptyObj (inside : List Blank)
  | obj (lead : List Blank) (members : Entries)

inductive Elements
  | last (v : Doc) (after : List Blank)
  | more (v : Doc) (after lead : List Blank) (rest : Elements)

inductive Entries
  | last (key : List Spelling) (afterKey lead : List Blank) (v : Doc) (after : List Blank)
  | more (key : List Spelling) (afterKey lead : List Blank) (v : Doc)
      (after next : List Blank) (rest : Entries)
end

def openBracket : ℕ := 0x5B

def closeBracket : ℕ := 0x5D

def closeBrace : ℕ := 0x7D

mutual
def Doc.text : Doc → Points
  | .constant c => c.text
  | .number n => n.text
  | .str s => quoteMark :: spelled s ++ [quoteMark]
  | .emptyArr inside => openBracket :: blanks inside ++ [closeBracket]
  | .arr lead items => openBracket :: blanks lead ++ items.text
  | .emptyObj inside => openBrace :: blanks inside ++ [closeBrace]
  | .obj lead members => openBrace :: blanks lead ++ members.text

/-- The items of an array, to its closing bracket. -/
def Elements.text : Elements → Points
  | .last v after => v.text ++ blanks after ++ [closeBracket]
  | .more v after lead rest => v.text ++ blanks after ++ commaMark :: blanks lead ++ rest.text

/-- The members of an object, to its closing brace. -/
def Entries.text : Entries → Points
  | .last key afterKey lead v after =>
    quoteMark :: spelled key ++ quoteMark :: blanks afterKey ++ colonMark :: blanks lead ++
      v.text ++ blanks after ++ [closeBrace]
  | .more key afterKey lead v after next rest =>
    quoteMark :: spelled key ++ quoteMark :: blanks afterKey ++ colonMark :: blanks lead ++
      v.text ++ blanks after ++ commaMark :: blanks next ++ rest.text
end

mutual
/-- What a document says; none where an integer is too long for `int`. -/
def Doc.value : Doc → Option Datum
  | .constant c => some c.value
  | .number n => n.value
  | .str s => some (.str (decode s))
  | .emptyArr _ => some (.arr .nil)
  | .arr _ items => items.value.map .arr
  | .emptyObj _ => some (.obj .nil)
  | .obj _ members => members.pairs.map fun pairs => .obj (dictOf pairs)

def Elements.value : Elements → Option Data
  | .last v _ => v.value.map fun x => .cons x .nil
  | .more v _ _ rest => v.value.bind fun x => rest.value.map fun xs => .cons x xs

def Entries.pairs : Entries → Option (List (Points × Datum))
  | .last key _ _ v _ => v.value.map fun x => [(decode key, x)]
  | .more key _ _ v _ _ rest =>
    v.value.bind fun x => rest.pairs.map fun xs => (decode key, x) :: xs
end

end Documents

section Decoding

def readBlank (c : ℕ) : Option Blank :=
  [(0x20, Blank.space), (0x09, .tab), (0x0A, .lineFeed), (0x0D, .carriageReturn)].lookup c

def skipBlanks : Points → Points
  | [] => []
  | c :: rest => if (readBlank c).isSome then skipBlanks rest else c :: rest

def readDigit (c : ℕ) : Option (Fin 10) :=
  if 0x30 ≤ c ∧ c ≤ 0x39 then some (Fin.ofNat 10 (c - 0x30)) else none

def readDigits : Points → List (Fin 10) × Points
  | [] => ([], [])
  | c :: rest =>
    match readDigit c with
    | some d => (d :: (readDigits rest).1, (readDigits rest).2)
    | none => ([], c :: rest)

def readWhole : Points → Option (Whole × Points)
  | [] => none
  | c :: rest =>
    if c = 0x30 then some (.zero, rest)
    else if 0x31 ≤ c ∧ c ≤ 0x39 then
      some (.positive (Fin.ofNat 9 (c - 0x31)) (readDigits rest).1, (readDigits rest).2)
    else none

/-- A point with no digit after it is not read. -/
def readFraction (text : Points) : List (Fin 10) × Points :=
  match text with
  | [] => ([], text)
  | c :: rest => if c = 0x2E ∧ (readDigits rest).1 ≠ [] then readDigits rest else ([], text)

def readSign (text : Points) : Option Bool × Points :=
  match text with
  | [] => (none, text)
  | c :: rest =>
    if c = 0x2D then (some true, rest) else if c = 0x2B then (some false, rest)
    else (none, text)

/-- Nor is an exponent without digits. -/
def readExponent (text : Points) : Option Exponent × Points :=
  match text with
  | [] => (none, text)
  | c :: rest =>
    if c = 0x65 ∨ c = 0x45 then
      match readDigits (readSign rest).2 with
      | ([], _) => (none, text)
      | (d :: ds, left) => (some ⟨c = 0x45, (readSign rest).1, d, ds⟩, left)
    else (none, text)

def readMinus (text : Points) : Bool × Points :=
  match text with
  | [] => (false, text)
  | c :: rest => if c = 0x2D then (true, rest) else (false, text)

def readNumeral (text : Points) : Option (Numeral × Points) :=
  (readWhole (readMinus text).2).map fun whole =>
    let fraction := readFraction whole.2
    let exponent := readExponent fraction.2
    (⟨(readMinus text).1, whole.1, fraction.1, exponent.1⟩, exponent.2)

def constants : List Constant :=
  [.null, .true, .false, .nan, .infinity, .negativeInfinity]

def readConstant (text : Points) : Option (Constant × Points) :=
  constants.findSome? fun c =>
    if c.text.isPrefixOf text then some (c, text.drop c.text.length) else none

/-- Why the decoder raises: a `JSONDecodeError`, or the `ValueError` of `int`. -/
inductive Fault
  | malformed
  | tooLong
  deriving DecidableEq

def parsed {α : Type} : Option α → Except Fault α
  | none => .error .malformed
  | some a => .ok a

def converted {α : Type} : Option α → Except Fault α
  | none => .error .tooLong
  | some a => .ok a

def readLiteral (text : Points) : Except Fault (Datum × Points) :=
  match readConstant text with
  | some read => .ok (read.1.value, read.2)
  | none => (parsed (readNumeral text)).bind fun read =>
      (converted read.1.value).map fun v => (v, read.2)

/-- A string after its opening quote. -/
def readString (text : Points) : Option (Points × Points) :=
  (scanString .nothing text).map fun read => (decode read.1, read.2)

/-- A key with the colon after it, up to the value. -/
def readKey : Points → Option (Points × Points)
  | [] => none
  | c :: rest =>
    if c = quoteMark then
      (readString rest).bind fun read =>
        match skipBlanks read.2 with
        | [] => none
        | d :: left => if d = colonMark then some (read.1, skipBlanks left) else none
    else none

mutual
/-- `scan_once`. The fuel bounds the nesting and the items. -/
def scanOnce : ℕ → Points → Except Fault (Datum × Points)
  | 0, _ => .error .malformed
  | _ + 1, [] => .error .malformed
  | fuel + 1, c :: rest =>
    if c = quoteMark then (parsed (readString rest)).map fun read => (.str read.1, read.2)
    else if c = openBracket then
      match skipBlanks rest with
      | [] => .error .malformed
      | d :: left =>
        if d = closeBracket then .ok (.arr .nil, left)
        else (scanItems fuel (d :: left)).map fun read => (.arr read.1, read.2)
    else if c = openBrace then
      match skipBlanks rest with
      | [] => .error .malformed
      | d :: left =>
        if d = closeBrace then .ok (.obj .nil, left)
        else (scanEntries fuel (d :: left)).map fun read => (.obj (dictOf read.1), read.2)
    else readLiteral (c :: rest)

def scanItems : ℕ → Points → Except Fault (Data × Points)
  | 0, _ => .error .malformed
  | fuel + 1, text =>
    (scanOnce fuel text).bind fun read =>
      match skipBlanks read.2 with
      | [] => .error .malformed
      | d :: left =>
        if d = closeBracket then .ok (.cons read.1 .nil, left)
        else if d = commaMark then
          (scanItems fuel (skipBlanks left)).map fun more => (.cons read.1 more.1, more.2)
        else .error .malformed

def scanEntries : ℕ → Points → Except Fault (List (Points × Datum) × Points)
  | 0, _ => .error .malformed
  | fuel + 1, text =>
    (parsed (readKey text)).bind fun key =>
      (scanOnce fuel key.2).bind fun read =>
        match skipBlanks read.2 with
        | [] => .error .malformed
        | d :: left =>
          if d = closeBrace then .ok ([(key.1, read.1)], left)
          else if d = commaMark then
            (scanEntries fuel (skipBlanks left)).map fun more =>
              ((key.1, read.1) :: more.1, more.2)
          else .error .malformed
end

/-- `JSONDecoder.raw_decode`. -/
def rawDecode (text : Points) : Except Fault (Datum × Points) := scanOnce (text.length + 1) text

def byteOrderMark : ℕ := 0xFEFF

/-- `json.loads`: one document and nothing else but blanks. -/
def loadsDocument (text : Points) : Except Fault Datum :=
  if text.head? = some byteOrderMark then .error .malformed
  else (rawDecode (skipBlanks text)).bind fun read =>
    if skipBlanks read.2 = [] then .ok read.1 else .error .malformed

end Decoding

section Outcomes
variable {α β : Type} {x : Except Fault α} {b : β}

theorem map_eq_ok {f : α → β} : x.map f = .ok b ↔ ∃ a, x = .ok a ∧ f a = b := by
  cases x <;> simp [Except.map]

theorem bind_eq_ok {f : α → Except Fault β} : x.bind f = .ok b ↔ ∃ a, x = .ok a ∧ f a = .ok b := by
  cases x <;> simp [Except.bind]

theorem parsed_eq_ok {o : Option α} {a : α} : parsed o = .ok a ↔ o = some a := by
  cases o <;> simp [parsed]

theorem converted_eq_ok {o : Option α} {a : α} : converted o = .ok a ↔ o = some a := by
  cases o <;> simp [converted]

@[simp] theorem parsed_some (a : α) : parsed (some a) = .ok a := rfl

@[simp] theorem converted_some (a : α) : converted (some a) = .ok a := rfl

@[simp] theorem map_ok (f : α → β) (a : α) : (Except.ok a : Except Fault α).map f = .ok (f a) :=
  rfl

@[simp] theorem bind_ok (f : α → Except Fault β) (a : α) : (Except.ok a).bind f = f a := rfl

end Outcomes

section Blanks

theorem readBlank_point (b : Blank) : readBlank b.point = some b := by
  cases b <;> rfl

theorem point_of_readBlank {c : ℕ} {b : Blank} (h : readBlank c = some b) : b.point = c := by
  simp only [readBlank, List.lookup_eq_some_iff] at h
  obtain ⟨l₁, l₂, hl, -⟩ := h
  have hmem : (c, b) ∈ [(0x20, Blank.space), (0x09, .tab), (0x0A, .lineFeed),
      (0x0D, .carriageReturn)] := by simp [hl]
  simp only [List.mem_cons, Prod.mk.injEq, List.not_mem_nil, or_false] at hmem
  rcases hmem with ⟨rfl, rfl⟩ | ⟨rfl, rfl⟩ | ⟨rfl, rfl⟩ | ⟨rfl, rfl⟩ <;> rfl

/-- The text does not begin with a blank. -/
def Unblank (text : Points) : Prop := ∀ c ∈ text.head?, readBlank c = none

theorem skipBlanks_blanks (ws : List Blank) {text : Points} (h : Unblank text) :
    skipBlanks (blanks ws ++ text) = text := by
  induction ws with
  | nil =>
    cases text with
    | nil => rfl
    | cons c rest =>
      have hc : readBlank c = none := h c rfl
      simp [blanks, skipBlanks, hc]
  | cons b ws ih =>
    simp only [blanks, List.map_cons, List.cons_append, skipBlanks, readBlank_point,
      Option.isSome_some, if_true]
    exact ih

theorem exists_skipBlanks (text : Points) :
    ∃ ws, text = blanks ws ++ skipBlanks text ∧ Unblank (skipBlanks text) := by
  induction text with
  | nil => exact ⟨[], rfl, by simp [skipBlanks, Unblank]⟩
  | cons c rest ih =>
    cases hc : readBlank c with
    | none =>
      have hskip : skipBlanks (c :: rest) = c :: rest := by simp [skipBlanks, hc]
      refine ⟨[], by rw [hskip]; rfl, ?_⟩
      rw [hskip]
      intro d hd
      cases hd
      exact hc
    | some b =>
      obtain ⟨ws, hws, hleft⟩ := ih
      have hskip : skipBlanks (c :: rest) = skipBlanks rest := by simp [skipBlanks, hc]
      rw [hskip]
      refine ⟨b :: ws, ?_, hleft⟩
      rw [blanks, List.map_cons, point_of_readBlank hc, List.cons_append]
      exact congrArg (List.cons c) hws

/-- What is read after blanks begins with a point that is none. -/
theorem exists_blanks {text left : Points} {d : ℕ} (h : skipBlanks text = d :: left) :
    ∃ ws, text = blanks ws ++ d :: left := by
  obtain ⟨ws, hws, -⟩ := exists_skipBlanks text
  exact ⟨ws, by rw [← h]; exact hws⟩

end Blanks

section Numbers

theorem readDigit_digit (d : Fin 10) : readDigit (digit d) = some d := by
  revert d
  decide

theorem digit_of_readDigit {c : ℕ} {d : Fin 10} (h : readDigit c = some d) : digit d = c := by
  unfold readDigit at h
  split at h
  · next hc =>
    cases h
    simp only [digit, Fin.ofNat]
    omega
  · cases h

/-- The text does not begin with a digit. -/
def Undigit (text : Points) : Prop := ∀ c ∈ text.head?, readDigit c = none

theorem readDigits_text (ds : List (Fin 10)) {text : Points} (h : Undigit text) :
    readDigits (digitsText ds ++ text) = (ds, text) := by
  induction ds with
  | nil =>
    cases text with
    | nil => rfl
    | cons c rest =>
      have hc : readDigit c = none := h c rfl
      simp [digitsText, readDigits, hc]
  | cons d ds ih =>
    have hcons : digitsText (d :: ds) ++ text = digit d :: (digitsText ds ++ text) := rfl
    simp only [hcons, readDigits, readDigit_digit, ih]

theorem text_readDigits (text : Points) :
    text = digitsText (readDigits text).1 ++ (readDigits text).2 := by
  induction text with
  | nil => rfl
  | cons c rest ih =>
    rw [readDigits]
    cases hc : readDigit c with
    | none => rfl
    | some d =>
      simp only [digitsText, List.map_cons, List.cons_append, digit_of_readDigit hc]
      exact congrArg (List.cons c) ih

theorem readWhole_text {w : Whole} {text : Points} (h : Undigit text) :
    readWhole (digitsText w.digits ++ text) = some (w, text) := by
  cases w with
  | zero => rfl
  | positive first digits =>
    have hcons : digitsText (Whole.positive first digits).digits ++ text =
        (0x31 + first.val) :: (digitsText digits ++ text) := by
      simp only [Whole.digits, digitsText, List.map_cons, List.cons_append, digit, Fin.val_succ]
      congr 1
      omega
    have hfirst : Fin.ofNat 9 (0x31 + first.val - 0x31) = first := by
      ext
      simp [Fin.ofNat, Nat.mod_eq_of_lt first.isLt]
    have hlt := first.isLt
    rw [hcons, readWhole, if_neg (by omega), if_pos (by omega), readDigits_text digits h, hfirst]

theorem text_readWhole {text left : Points} {w : Whole} (h : readWhole text = some (w, left)) :
    text = digitsText w.digits ++ left := by
  cases text with
  | nil => cases h
  | cons c rest =>
    rw [readWhole] at h
    split at h
    · next hc =>
      cases h
      subst hc
      rfl
    · split at h
      · next hc =>
        cases h
        have hfirst : digit (Fin.succ (Fin.ofNat 9 (c - 0x31))) = c := by
          simp only [digit, Fin.val_succ, Fin.ofNat]
          omega
        simp only [Whole.digits, digitsText, List.map_cons, List.cons_append, hfirst]
        exact congrArg (List.cons c) (text_readDigits rest)
      · cases h

theorem undigit_cons {c : ℕ} {rest : Points} (h : readDigit c = none) : Undigit (c :: rest) := by
  intro d hd
  cases hd
  exact h

/-- No number goes on in this text. -/
structure Unnumbered (text : Points) : Prop where
  digit : Undigit text
  point : text.head? ≠ some 0x2E
  small : text.head? ≠ some 0x65
  capital : text.head? ≠ some 0x45

theorem readFraction_text (ds : List (Fin 10)) {text : Points} (h : Undigit text)
    (hpoint : text.head? ≠ some 0x2E) : readFraction (fractionText ds ++ text) = (ds, text) := by
  cases ds with
  | nil =>
    cases text with
    | nil => rfl
    | cons c rest =>
      have hc : c ≠ 0x2E := fun hc => hpoint (by rw [hc]; rfl)
      simp [fractionText, readFraction, hc]
  | cons d ds =>
    have hcons : fractionText (d :: ds) ++ text = 0x2E :: (digitsText (d :: ds) ++ text) := by
      simp [fractionText]
    rw [hcons, readFraction, readDigits_text (d :: ds) h, if_pos (by simp)]

theorem text_readFraction (text : Points) :
    text = fractionText (readFraction text).1 ++ (readFraction text).2 := by
  cases text with
  | nil => rfl
  | cons c rest =>
    rw [readFraction]
    split
    · next hc =>
      rw [fractionText, if_neg hc.2, hc.1, List.cons_append]
      exact congrArg (List.cons 0x2E) (text_readDigits rest)
    · rfl

theorem readSign_text (sign : Option Bool) {text : Points} (hplus : text.head? ≠ some 0x2B)
    (hminus : text.head? ≠ some 0x2D) : readSign (signText sign ++ text) = (sign, text) := by
  match sign with
  | none =>
    cases text with
    | nil => rfl
    | cons c rest =>
      have hp : c ≠ 0x2B := fun hc => hplus (by rw [hc]; rfl)
      have hm : c ≠ 0x2D := fun hc => hminus (by rw [hc]; rfl)
      simp [signText, readSign, hp, hm]
  | some true => rfl
  | some false => rfl

theorem text_readSign (text : Points) :
    text = signText (readSign text).1 ++ (readSign text).2 := by
  cases text with
  | nil => rfl
  | cons c rest =>
    rw [readSign]
    split
    · next hc => rw [hc]; rfl
    · split
      · next hc => rw [hc]; rfl
      · rfl

theorem readExponent_text (e : Option Exponent) {text : Points} (h : Unnumbered text) :
    readExponent (exponentText e ++ text) = (e, text) := by
  match e with
  | none =>
    cases text with
    | nil => rfl
    | cons c rest =>
      have hs : c ≠ 0x65 := fun hc => h.small (by rw [hc]; rfl)
      have hb : c ≠ 0x45 := fun hc => h.capital (by rw [hc]; rfl)
      simp [exponentText, readExponent, hs, hb]
  | some e =>
    have hdigits : digitsText (e.first :: e.digits) ++ text =
        digit e.first :: (digitsText e.digits ++ text) := rfl
    have hsign : readSign (signText e.sign ++ (digitsText (e.first :: e.digits) ++ text)) =
        (e.sign, digitsText (e.first :: e.digits) ++ text) := by
      refine readSign_text e.sign ?_ ?_ <;>
      · rw [hdigits, List.head?_cons, ne_eq, Option.some.injEq, digit]
        omega
    have hcons : exponentText (some e) ++ text = (if e.upper then 0x45 else 0x65) ::
        (signText e.sign ++ (digitsText (e.first :: e.digits) ++ text)) := by
      simp [exponentText, Exponent.text, digitsText]
    rw [hcons, readExponent, hsign, readDigits_text (e.first :: e.digits) h.digit]
    cases e with
    | mk upper sign first digits => cases upper <;> rfl

theorem text_readExponent (text : Points) :
    text = exponentText (readExponent text).1 ++ (readExponent text).2 := by
  cases text with
  | nil => rfl
  | cons c rest =>
    rw [readExponent]
    split
    · next hc =>
      have hrest := text_readSign rest
      have hdigits := text_readDigits (readSign rest).2
      split
      · rfl
      · next d ds left heq =>
        rw [heq] at hdigits
        have hletter : (if decide (c = 0x45) = true then 0x45 else 0x65) = c := by
          rcases hc with rfl | rfl <;> rfl
        simp only [exponentText, Option.map_some, Option.getD_some, Exponent.text, hletter,
          List.cons_append, List.append_assoc]
        exact congrArg (List.cons c) (hrest.trans (congrArg (signText _ ++ ·) hdigits))
    · rfl

theorem digit_ne_minus (d : Fin 10) : digit d ≠ 0x2D := by
  revert d
  decide

theorem exists_digits (w : Whole) : ∃ d ds, w.digits = d :: ds := by
  cases w with
  | zero => exact ⟨_, _, rfl⟩
  | positive first digits => exact ⟨_, _, rfl⟩

theorem readMinus_text (negative : Bool) (w : Whole) (text : Points) :
    readMinus ((if negative then [0x2D] else []) ++ (digitsText w.digits ++ text)) =
      (negative, digitsText w.digits ++ text) := by
  cases negative with
  | true => rfl
  | false =>
    obtain ⟨d, ds, hds⟩ := exists_digits w
    simp [hds, digitsText, readMinus, digit_ne_minus]

theorem text_readMinus (text : Points) :
    text = (if (readMinus text).1 then [0x2D] else []) ++ (readMinus text).2 := by
  cases text with
  | nil => rfl
  | cons c rest =>
    rw [readMinus]
    split
    · next hc => rw [hc]; rfl
    · rfl

theorem undigit_append {a b : Points} (ha : ∀ c ∈ a.head?, readDigit c = none) (hb : Undigit b) :
    Undigit (a ++ b) := by
  cases a with
  | nil => exact hb
  | cons c rest => exact undigit_cons (ha c rfl)

theorem undigit_exponentText (e : Option Exponent) {text : Points} (h : Undigit text) :
    Undigit (exponentText e ++ text) := by
  refine undigit_append ?_ h
  intro c hc
  match e with
  | none => cases hc
  | some ⟨upper, _, _, _⟩ =>
    cases upper <;>
    · cases hc
      rfl

theorem undigit_fractionText (ds : List (Fin 10)) {text : Points} (h : Undigit text) :
    Undigit (fractionText ds ++ text) := by
  refine undigit_append ?_ h
  intro c hc
  cases ds with
  | nil => cases hc
  | cons d ds =>
    cases hc
    rfl

theorem exponentText_head (e : Option Exponent) {text : Points} (h : text.head? ≠ some 0x2E) :
    (exponentText e ++ text).head? ≠ some 0x2E := by
  match e with
  | none => exact h
  | some ⟨upper, _, _, _⟩ => cases upper <;> simp [exponentText, Exponent.text]

/-- A numeral is read as far as it goes. -/
theorem readNumeral_text (n : Numeral) {text : Points} (h : Unnumbered text) :
    readNumeral (n.text ++ text) = some (n, text) := by
  have hexponent := undigit_exponentText n.exponent h.digit
  have hfraction := undigit_fractionText n.fraction hexponent
  have hassoc : n.text ++ text = (if n.negative then [0x2D] else []) ++
      (digitsText n.whole.digits ++ (fractionText n.fraction ++ (exponentText n.exponent ++
        text))) := by
    simp [Numeral.text]
  rw [hassoc, readNumeral, readMinus_text, readWhole_text hfraction, Option.map_some,
    readFraction_text n.fraction hexponent (exponentText_head n.exponent h.point)]
  simp only [readExponent_text n.exponent h]

theorem text_readNumeral {text left : Points} {n : Numeral}
    (h : readNumeral text = some (n, left)) : text = n.text ++ left := by
  obtain ⟨⟨w, r⟩, hwhole, hn⟩ := Option.map_eq_some_iff.mp h
  cases hn
  have hminus := text_readMinus text
  have hfraction := text_readFraction r
  have hexponent := text_readExponent (readFraction r).2
  simp only [Numeral.text, List.append_assoc]
  rw [← hexponent, ← hfraction, ← text_readWhole hwhole]
  exact hminus

end Numbers

section Literals

theorem readConstant_text (c : Constant) (text : Points) :
    readConstant (c.text ++ text) = some (c, text) := by
  cases c <;> rfl

theorem text_readConstant {text left : Points} {c : Constant}
    (h : readConstant text = some (c, left)) : text = c.text ++ left := by
  obtain ⟨c', -, hc⟩ := List.exists_of_findSome?_eq_some h
  split at hc
  · next hfront =>
    cases hc
    obtain ⟨left', hleft⟩ := List.isPrefixOf_iff_prefix.mp hfront
    rw [← hleft, List.drop_left]
  · cases hc

theorem readConstant_numeral (n : Numeral) (text : Points) :
    readConstant (n.text ++ text) = none := by
  have hnone : ∀ d : Fin 10, ∀ rest : Points, readConstant (digit d :: rest) = none ∧
      readConstant (0x2D :: digit d :: rest) = none := by
    intro d rest
    match d with
    | 0 | 1 | 2 | 3 | 4 | 5 | 6 | 7 | 8 | 9 => exact ⟨rfl, rfl⟩
  obtain ⟨d, ds, hds⟩ := exists_digits n.whole
  rw [Numeral.text, hds]
  cases n.negative with
  | true => exact (hnone d _).2
  | false => exact (hnone d _).1

theorem readLiteral_constant (c : Constant) (text : Points) :
    readLiteral (c.text ++ text) = .ok (c.value, text) := by
  rw [readLiteral, readConstant_text]

theorem readLiteral_numeral (n : Numeral) {text : Points} (h : Unnumbered text) :
    readLiteral (n.text ++ text) = (converted n.value).map fun v => (v, text) := by
  rw [readLiteral, readConstant_numeral, readNumeral_text n h]
  rfl

theorem text_readLiteral {text left : Points} {v : Datum}
    (h : readLiteral text = .ok (v, left)) :
    ∃ d : Doc, text = d.text ++ left ∧ d.value = some v := by
  unfold readLiteral at h
  split at h
  · next c hc =>
    cases h
    exact ⟨.constant c.1, text_readConstant hc, rfl⟩
  · obtain ⟨⟨n, r⟩, hn, hv⟩ := bind_eq_ok.mp h
    obtain ⟨v', hvalue, heq⟩ := map_eq_ok.mp hv
    cases heq
    exact ⟨.number n, text_readNumeral (parsed_eq_ok.mp hn), converted_eq_ok.mp hvalue⟩

end Literals

section Strings

/-- Digits below ten have one spelling. -/
def canonicalDigit (d : HexDigit) : HexDigit := ⟨d.value, d.upper && decide (9 < d.value.val)⟩

def canonical : Spelling → Spelling
  | .unicode a b c d =>
    .unicode (canonicalDigit a) (canonicalDigit b) (canonicalDigit c) (canonicalDigit d)
  | s => s

theorem readHexDigit_point (d : HexDigit) : readHexDigit d.point = some (canonicalDigit d) := by
  have hall : ∀ (v : Fin 16) (upper : Bool),
      readHexDigit (HexDigit.point ⟨v, upper⟩) = some (canonicalDigit ⟨v, upper⟩) := by decide
  exact hall d.value d.upper

theorem point_of_readHexDigit {c : ℕ} {d : HexDigit} (h : readHexDigit c = some d) :
    d.point = c := by
  unfold readHexDigit at h
  split at h
  · cases h
    simp only [HexDigit.point, Fin.ofNat]
    grind
  · split at h
    · cases h
      simp only [HexDigit.point, Fin.ofNat]
      grind
    · split at h
      · cases h
        simp only [HexDigit.point, Fin.ofNat]
        grind
      · cases h

theorem letter_of_readEscape {c : ℕ} {e : Escape} (h : readEscape c = some e) : e.letter = c := by
  simp only [readEscape, List.lookup_eq_some_iff] at h
  obtain ⟨l₁, l₂, hl, -⟩ := h
  have hmem : (c, e) ∈ [(0x22, Escape.quote), (0x5C, .backslash), (0x2F, .slash), (0x62, .b),
      (0x66, .f), (0x6E, .n), (0x72, .r), (0x74, .t)] := by simp [hl]
  simp only [List.mem_cons, Prod.mk.injEq, List.not_mem_nil, or_false] at hmem
  rcases hmem with ⟨rfl, rfl⟩ | ⟨rfl, rfl⟩ | ⟨rfl, rfl⟩ | ⟨rfl, rfl⟩ | ⟨rfl, rfl⟩ |
    ⟨rfl, rfl⟩ | ⟨rfl, rfl⟩ | ⟨rfl, rfl⟩ <;> rfl

theorem scanString_hex (a b c d : HexDigit) (rest : Points) :
    scanString .nothing ((Spelling.unicode a b c d).text ++ rest) =
      (scanString .nothing rest).map fun read =>
        (canonical (.unicode a b c d) :: read.1, read.2) := by
  have hdigit : ∀ read, read.length ≠ 3 → ∀ x : HexDigit, scanStep x.point (.digits read) =
      .waits (.digits (read ++ [canonicalDigit x])) := by
    intro read hread x
    unfold scanStep
    split <;> simp_all [readHexDigit_point]
  have hlast : scanStep d.point (.digits [canonicalDigit a, canonicalDigit b, canonicalDigit c]) =
      .reads (canonical (.unicode a b c d)) := by
    rw [scanStep, readHexDigit_point]
    rfl
  exact (scanString_waits rfl).trans ((scanString_waits rfl).trans
    ((scanString_waits (hdigit [] (by simp) _)).trans
      ((scanString_waits (hdigit _ (by simp) _)).trans
        ((scanString_waits (hdigit _ (by simp) _)).trans (scanString_reads hlast)))))

/-- A spelled string is read to its closing quote. -/
theorem scanString_spelled (s : List Spelling) (rest : Points) :
    scanString .nothing (spelled s ++ quoteMark :: rest) = some (s.map canonical, rest) := by
  induction s with
  | nil => rfl
  | cons u s ih =>
    have hcons : spelled (u :: s) ++ quoteMark :: rest =
        u.text ++ (spelled s ++ quoteMark :: rest) := by simp [spelled]
    rw [hcons]
    cases u with
    | plain c hc => rw [scanString_plain, ih]; rfl
    | escape e => rw [scanString_escape, ih]; rfl
    | unicode a b c d => rw [scanString_hex, ih]; rfl

theorem point_canonical (u : Spelling) : (canonical u).point = u.point := by
  cases u <;> rfl

theorem isHigh_canonical (u : Spelling) : (canonical u).isHigh = u.isHigh := by
  cases u <;> rfl

theorem isLow_canonical (u : Spelling) : (canonical u).isLow = u.isLow := by
  cases u <;> rfl

theorem decode_canonical (s : List Spelling) : decode (s.map canonical) = decode s := by
  induction s using decode.induct with
  | case1 => rfl
  | case2 u => simp [decode, point_canonical]
  | case3 u w rest hpair ih =>
    have hpair' : ((canonical u).isHigh && (canonical w).isLow) = true := by
      rw [isHigh_canonical, isLow_canonical, hpair]
    simp only [List.map_cons, decode, hpair', hpair, if_true, point_canonical, ih]
  | case4 u w rest hpair ih =>
    have hpair' : ((canonical u).isHigh && (canonical w).isLow) ≠ true := by
      rw [isHigh_canonical, isLow_canonical]
      exact hpair
    rw [List.map_cons] at ih
    simp only [List.map_cons, decode, if_neg hpair', if_neg hpair, point_canonical, ih]

theorem readString_spelled (s : List Spelling) (rest : Points) :
    readString (spelled s ++ quoteMark :: rest) = some (decode s, rest) := by
  rw [readString, scanString_spelled, Option.map_some, decode_canonical]

/-- What of a character has been read, as it was written. -/
def pendingText : Pending → Points
  | .nothing => []
  | .escape => [backslash]
  | .digits read => backslash :: letterU :: read.map HexDigit.point

def Pending.Short : Pending → Prop
  | .digits read => read.length ≤ 3
  | _ => True

/-- One point more is what is waited for, or ends a character. -/
theorem scanStep_text {c : ℕ} {p : Pending} (hp : Pending.Short p) :
    (∀ q, scanStep c p = .waits q → pendingText p ++ [c] = pendingText q ∧ Pending.Short q) ∧
      (∀ s, scanStep c p = .reads s → pendingText p ++ [c] = s.text) ∧
      (scanStep c p = .closes → p = .nothing ∧ c = quoteMark) := by
  cases p with
  | nothing =>
    rw [scanStep]
    split
    · next hc => simp [hc]
    · split
      · next hc =>
        refine ⟨?_, by simp, by simp⟩
        intro q hq
        cases hq
        simp [pendingText, Pending.Short, hc]
      · split
        · refine ⟨by simp, ?_, by simp⟩
          intro s hs
          cases hs
          rfl
        · simp
  | escape =>
    rw [scanStep]
    split
    · next hc =>
      refine ⟨?_, by simp, by simp⟩
      intro q hq
      cases hq
      simp [pendingText, Pending.Short, hc]
    · cases he : readEscape c with
      | none => simp
      | some e =>
        refine ⟨by simp, ?_, by simp⟩
        intro s hs
        cases hs
        simp [pendingText, Spelling.text, letter_of_readEscape he]
  | digits read =>
    cases hd : readHexDigit c with
    | none =>
      unfold scanStep
      split <;> simp_all
    | some d =>
      have hc := point_of_readHexDigit hd
      rcases read with _ | ⟨x, _ | ⟨y, _ | ⟨z, _ | ⟨w, more⟩⟩⟩⟩
      case cons.cons.cons.nil =>
        simp only [scanStep, hd, Option.elim_some]
        refine ⟨by simp, ?_, by simp⟩
        intro s hs
        cases hs
        simp [pendingText, Spelling.text, hc]
      case cons.cons.cons.cons =>
        simp only [Pending.Short, List.length_cons] at hp
        omega
      all_goals
        simp only [scanStep, hd, Option.elim_some]
        refine ⟨?_, by simp, by simp⟩
        intro q hq
        cases hq
        simp [pendingText, Pending.Short, hc]

theorem text_scanString {p : Pending} (hp : Pending.Short p) {text left : Points}
    {s : List Spelling} (h : scanString p text = some (s, left)) :
    pendingText p ++ text = spelled s ++ quoteMark :: left := by
  induction text generalizing p s with
  | nil => cases h
  | cons c rest ih =>
    obtain ⟨hwaits, hreads, hcloses⟩ := scanStep_text (c := c) hp
    rw [scanString] at h
    cases hstep : scanStep c p with
    | fails => simp [hstep] at h
    | closes =>
      obtain ⟨rfl, rfl⟩ := hcloses hstep
      simp only [hstep, Option.some.injEq, Prod.mk.injEq] at h
      obtain ⟨rfl, rfl⟩ := h
      rfl
    | waits q =>
      obtain ⟨hq, hshort⟩ := hwaits q hstep
      simp only [hstep] at h
      rw [← ih hshort h, ← hq, List.append_assoc]
      rfl
    | reads u =>
      simp only [hstep] at h
      obtain ⟨⟨s', left'⟩, hrest, heq⟩ := Option.map_eq_some_iff.mp h
      cases heq
      have hih := ih (p := .nothing) trivial hrest
      have hu := hreads u hstep
      rw [pendingText, List.nil_append] at hih
      simp only [spelled, List.flatMap_cons, List.append_assoc]
      rw [← hu, hih, List.append_assoc]
      rfl

theorem text_readString {text left s : Points} (h : readString text = some (s, left)) :
    ∃ u : List Spelling, text = spelled u ++ quoteMark :: left ∧ decode u = s := by
  obtain ⟨⟨u, r⟩, hscan, heq⟩ := Option.map_eq_some_iff.mp h
  cases heq
  exact ⟨u, text_scanString (p := .nothing) trivial hscan, rfl⟩

end Strings

end VoiceAgent.JsonDecoder
