import Mathlib.Data.List.Basic
import Mathlib.Data.List.Nodup
import Mathlib.Tactic.Common

/-!
Base64 in the standard alphabet. Strict decoding scans the text and keeps the bits of the letter
before; it accepts exactly the texts made of quads and one padded tail, and skips pads after the
last quad. Bits that a tail does not use may be anything, so several texts give the same bytes;
the encoder writes the one with zeros and no pad too many.
-/
namespace VoiceAgent.Base64

abbrev Bytes := List UInt8

/-- The value of a letter. -/
abbrev Sextet := Fin 64

section Alphabet

def alphabet : List Char := [
  'A', 'B', 'C', 'D', 'E', 'F', 'G', 'H', 'I', 'J', 'K', 'L', 'M', 'N', 'O', 'P',
  'Q', 'R', 'S', 'T', 'U', 'V', 'W', 'X', 'Y', 'Z', 'a', 'b', 'c', 'd', 'e', 'f',
  'g', 'h', 'i', 'j', 'k', 'l', 'm', 'n', 'o', 'p', 'q', 'r', 's', 't', 'u', 'v',
  'w', 'x', 'y', 'z', '0', '1', '2', '3', '4', '5', '6', '7', '8', '9', '+', '/']

theorem alphabet_length : alphabet.length = 64 := by decide

theorem alphabet_nodup : alphabet.Nodup := .of_map Char.toNat (by decide +kernel)

theorem pad_not_mem : '=' ∉ alphabet := by decide

theorem alphabet_ascii : (alphabet.all fun c => c.toNat < 128) = true := by decide

def letter (v : Sextet) : Char := alphabet.get (v.cast alphabet_length.symm)

def value (c : Char) : Option Sextet :=
  if h : c ∈ alphabet then
    some ⟨alphabet.idxOf c, alphabet_length ▸ List.idxOf_lt_length_of_mem h⟩
  else none

theorem letter_mem (v : Sextet) : letter v ∈ alphabet := List.get_mem ..

@[simp] theorem letter_ne_pad (v : Sextet) : letter v ≠ '=' := fun h =>
  pad_not_mem (h ▸ letter_mem v)

@[simp] theorem value_letter (v : Sextet) : value (letter v) = some v := by
  rw [value, dif_pos (letter_mem v)]
  congr 1
  exact Fin.ext (alphabet_nodup.idxOf_getElem v (alphabet_length.symm ▸ v.isLt))

theorem eq_letter {c : Char} {v : Sextet} (h : value c = some v) : c = letter v := by
  rw [value] at h
  split at h
  · next hmem =>
    cases h
    exact (List.getElem_idxOf (List.idxOf_lt_length_of_mem hmem)).symm
  · cases h

end Alphabet

section Grammar

/-- The bits of two neighbouring letters that a byte is made of. -/
def firstByte (a b : Sextet) : UInt8 := .ofNat (a * 4 + b / 16)

def secondByte (b c : Sextet) : UInt8 := .ofNat (b % 16 * 16 + c / 4)

def thirdByte (c d : Sextet) : UInt8 := .ofNat (c % 4 * 64 + d)

structure Quad where
  a : Sextet
  b : Sextet
  c : Sextet
  d : Sextet

def Quad.text (q : Quad) : List Char := [letter q.a, letter q.b, letter q.c, letter q.d]

def Quad.bytes (q : Quad) : Bytes := [firstByte q.a q.b, secondByte q.b q.c, thirdByte q.c q.d]

/-- What may stand after the quads: pads that are skipped, or letters with the pads they lack. -/
inductive Tail
  | pads (n : ℕ)
  | one (a b : Sextet)
  | two (a b c : Sextet)

def Tail.text : Tail → List Char
  | .pads n => List.replicate n '='
  | .one a b => [letter a, letter b, '=', '=']
  | .two a b c => [letter a, letter b, letter c, '=']

def Tail.bytes : Tail → Bytes
  | .pads _ => []
  | .one a b => [firstByte a b]
  | .two a b c => [firstByte a b, secondByte b c]

/-- No pad comes first. -/
structure Encoded where
  quads : List Quad
  tail : Tail
  opens : quads = [] → tail.text.head? ≠ some '='

def Encoded.text (e : Encoded) : List Char := e.quads.flatMap Quad.text ++ e.tail.text

def Encoded.bytes (e : Encoded) : Bytes := e.quads.flatMap Quad.bytes ++ e.tail.bytes

/-- Four letters stand for at most three bytes. -/
theorem bytes_length_le (e : Encoded) : 4 * e.bytes.length ≤ 3 * e.text.length := by
  have htail : 4 * e.tail.bytes.length ≤ 3 * e.tail.text.length := by
    cases e.tail <;> simp [Tail.bytes, Tail.text]
  have hquads : 4 * (e.quads.flatMap Quad.bytes).length ≤
      3 * (e.quads.flatMap Quad.text).length := by
    induction e.quads with
    | nil => simp
    | cons q quads ih =>
      simp only [List.flatMap_cons, List.length_append, Quad.bytes, Quad.text, List.length_cons,
        List.length_nil]
      omega
  simp only [Encoded.bytes, Encoded.text, List.length_append]
  omega

theorem text_ascii (e : Encoded) {c : Char} (hc : c ∈ e.text) : c.toNat < 128 := by
  have hpad : ('=' : Char).toNat < 128 := by decide
  have hletter : ∀ v, (letter v).toNat < 128 := fun v =>
    of_decide_eq_true (List.all_eq_true.mp alphabet_ascii _ (letter_mem v))
  rw [Encoded.text, List.mem_append, List.mem_flatMap] at hc
  rcases hc with ⟨q, -, hq⟩ | hc
  · simp only [Quad.text, List.mem_cons, List.not_mem_nil, or_false] at hq
    rcases hq with rfl | rfl | rfl | rfl <;> exact hletter _
  · cases ht : e.tail <;> rw [ht] at hc <;>
      simp only [Tail.text, List.mem_replicate, List.mem_cons, List.not_mem_nil, or_false] at hc
    · rw [hc.2]
      exact hpad
    · rcases hc with rfl | rfl | rfl | rfl
      exacts [hletter _, hletter _, hpad, hpad]
    · rcases hc with rfl | rfl | rfl | rfl
      exacts [hletter _, hletter _, hletter _, hpad]

end Grammar

section Decode

inductive Fault
  | leadingPadding
  | excessData
  | notInAlphabet
  | discontinuousPadding
  | oneMore (characters : ℕ)
  | incorrectPadding
  deriving DecidableEq, Repr

/-- The scan between two characters: the place in the quad, and the bits of the letter before
that no byte has used yet. -/
structure Scan where
  quadPos : Fin 4
  leftchar : ℕ
  paddingStarted : Bool
  pads : ℕ
  binData : Bytes

def Scan.start : Scan := ⟨0, 0, false, 0, []⟩

/-- The next letter: every one but the first of a quad completes a byte. -/
def Scan.take (s : Scan) (v : Sextet) : Scan :=
  match s.quadPos with
  | 0 => { s with quadPos := 1, leftchar := v, pads := 0 }
  | 1 => { s with
      quadPos := 2, leftchar := v % 16, pads := 0
      binData := s.binData ++ [.ofNat (s.leftchar * 4 + v / 16)] }
  | 2 => { s with
      quadPos := 3, leftchar := v % 4, pads := 0
      binData := s.binData ++ [.ofNat (s.leftchar * 16 + v / 4)] }
  | 3 => { s with
      quadPos := 0, leftchar := 0, pads := 0
      binData := s.binData ++ [.ofNat (s.leftchar * 64 + v)] }

def Scan.finish (s : Scan) : Except Fault Bytes :=
  if s.quadPos = 0 then .ok s.binData
  else if s.quadPos = 1 then .error (.oneMore (s.binData.length / 3 * 4 + 1))
  else .error .incorrectPadding

def scan (s : Scan) : List Char → Except Fault Bytes
  | [] => s.finish
  | c :: rest =>
    if c = '=' then
      if 2 ≤ s.quadPos then
        if 4 ≤ s.quadPos.val + (s.pads + 1) then
          if rest = [] then .ok s.binData else .error .excessData
        else scan { s with paddingStarted := true, pads := s.pads + 1 } rest
      -- a pad that comes too early is skipped
      else scan { s with paddingStarted := true } rest
    else
      match value c with
      | none => .error .notInAlphabet
      | some v =>
        if s.paddingStarted then .error .discontinuousPadding else scan (s.take v) rest

/-- `binascii.a2b_base64` in strict mode. -/
def a2bBase64 (text : List Char) : Except Fault Bytes :=
  if text.head? = some '=' then .error .leadingPadding else scan .start text

/-- Between two quads, with the bytes so far. -/
def between (out : Bytes) : Scan := ⟨0, 0, false, 0, out⟩

variable {out : Bytes} {s : Scan} {rest : List Char} {v : Sextet}

theorem scan_nil : scan s [] = s.finish := rfl

theorem scan_pad : scan s ('=' :: rest) =
    if 2 ≤ s.quadPos then
      if 4 ≤ s.quadPos.val + (s.pads + 1) then
        if rest = [] then .ok s.binData else .error .excessData
      else scan { s with paddingStarted := true, pads := s.pads + 1 } rest
    else scan { s with paddingStarted := true } rest := rfl

theorem scan_foreign {c : Char} (hc : c ≠ '=') (h : value c = none) :
    scan s (c :: rest) = .error .notInAlphabet :=
  (if_neg hc).trans (by rw [h])

theorem scan_value {c : Char} (hc : c ≠ '=') (h : value c = some v) : scan s (c :: rest) =
    if s.paddingStarted then .error .discontinuousPadding else scan (s.take v) rest :=
  (if_neg hc).trans (by rw [h])

theorem scan_letter (h : s.paddingStarted = false) :
    scan s (letter v :: rest) = scan (s.take v) rest := by
  rw [scan_value (letter_ne_pad v) (value_letter v), h]
  rfl

theorem scan_quad (q : Quad) :
    scan (between out) (q.text ++ rest) = scan (between (out ++ q.bytes)) rest := by
  simp only [Quad.text, List.cons_append, List.nil_append]
  rw [between, scan_letter rfl, scan_letter rfl, scan_letter rfl, scan_letter rfl]
  simp [Scan.take, between, Quad.bytes, firstByte, secondByte, thirdByte]

theorem scan_quads (quads : List Quad) : scan (between out) (quads.flatMap Quad.text ++ rest) =
    scan (between (out ++ quads.flatMap Quad.bytes)) rest := by
  induction quads generalizing out with
  | nil => simp
  | cons q quads ih => simp only [List.flatMap_cons, List.append_assoc, scan_quad, ih]

/-- The last pad of a quad. -/
theorem scan_last_pad {p : Fin 4} (hpos : s.quadPos = p) (htwo : 2 ≤ p)
    (hfour : p.val + (s.pads + 1) = 4) : scan s ['='] = .ok s.binData := by
  subst hpos
  rw [scan_pad, if_pos htwo, if_pos (Nat.le_of_eq hfour.symm), if_pos rfl]

theorem scan_two_pads (hpos : s.quadPos = 2) (hpads : s.pads = 0) :
    scan s ['=', '='] = .ok s.binData := by
  have htwo : 2 ≤ s.quadPos := Nat.le_of_eq (by rw [hpos])
  have hfour : ¬4 ≤ s.quadPos.val + (s.pads + 1) := by
    rw [hpos, hpads]
    decide
  rw [scan_pad, if_pos htwo, if_neg hfour]
  exact scan_last_pad (s := { s with paddingStarted := true, pads := s.pads + 1 }) hpos
    (Nat.le_refl 2) (by rw [hpads]; rfl)

/-- Pads after a quad are skipped. -/
theorem scan_pads (hpos : s.quadPos = 0) (n : ℕ) :
    scan s (List.replicate n '=') = .ok s.binData := by
  induction n generalizing s with
  | zero => simp [scan_nil, Scan.finish, hpos]
  | succ n ih =>
    rw [List.replicate_succ, scan_pad, if_neg (by rw [hpos]; decide)]
    exact ih (s := { s with paddingStarted := true }) hpos

theorem scan_tail (t : Tail) : scan (between out) t.text = .ok (out ++ t.bytes) := by
  cases t with
  | pads n =>
    rw [Tail.text, scan_pads rfl]
    simp [between, Tail.bytes]
  | one a b =>
    have hread : scan (between out) (Tail.one a b).text =
        scan (((between out).take a).take b) ['=', '='] := by
      rw [Tail.text, scan_letter rfl, scan_letter rfl]
    exact hread.trans (scan_two_pads rfl rfl)
  | two a b c =>
    rw [Tail.text, between, scan_letter rfl, scan_letter rfl, scan_letter rfl,
      scan_last_pad (p := 3) rfl (by decide) rfl]
    simp [Scan.take, Tail.bytes, firstByte, secondByte]

/-- A scan that goes on after a character has found a pad in place, or one to skip, or a letter
before any pad. -/
theorem scan_cases {c : Char} {bytes : Bytes} (h : scan s (c :: rest) = .ok bytes) :
    (c = '=' ∧ s.quadPos < 2 ∧ scan { s with paddingStarted := true } rest = .ok bytes) ∨
    (c = '=' ∧ 2 ≤ s.quadPos ∧ 4 ≤ s.quadPos.val + (s.pads + 1) ∧ rest = [] ∧
      bytes = s.binData) ∨
    (c = '=' ∧ 2 ≤ s.quadPos ∧ s.quadPos.val + (s.pads + 1) < 4 ∧
      scan { s with paddingStarted := true, pads := s.pads + 1 } rest = .ok bytes) ∨
    ∃ v, c = letter v ∧ s.paddingStarted = false ∧ scan (s.take v) rest = .ok bytes := by
  by_cases hc : c = '='
  · subst hc
    rw [scan_pad] at h
    split at h
    · next htwo =>
      split at h
      · next hfour =>
        split at h
        · next hnil =>
          cases h
          exact .inr (.inl ⟨rfl, htwo, hfour, hnil, rfl⟩)
        · cases h
      · next hfour => exact .inr (.inr (.inl ⟨rfl, htwo, Nat.lt_of_not_le hfour, h⟩))
    · next htwo => exact .inl ⟨rfl, Nat.lt_of_not_le htwo, h⟩
  · cases hv : value c with
    | none =>
      rw [scan_foreign hc hv] at h
      cases h
    | some v =>
      rw [scan_value hc hv] at h
      split at h
      · cases h
      · next hstarted =>
        exact .inr (.inr (.inr ⟨v, eq_letter hv, eq_false_of_ne_true hstarted, h⟩))

/-- A pad after the first letter of a quad cannot be made good. -/
theorem scan_one_started (hpos : s.quadPos = 1) (hstarted : s.paddingStarted = true)
    (bytes : Bytes) : scan s rest ≠ .ok bytes := by
  induction rest generalizing s with
  | nil => simp [scan_nil, Scan.finish, hpos]
  | cons c rest ih =>
    intro h
    rcases scan_cases h with ⟨-, -, h⟩ | ⟨-, htwo, -⟩ | ⟨-, htwo, -⟩ | ⟨v, -, hfalse, -⟩
    · exact ih (s := { s with paddingStarted := true }) hpos rfl h
    · rw [hpos] at htwo
      exact absurd htwo (by decide)
    · rw [hpos] at htwo
      exact absurd htwo (by decide)
    · rw [hstarted] at hfalse
      cases hfalse

/-- After a pad that was skipped only pads are read, to the end. -/
theorem scan_zero_started (hpos : s.quadPos = 0) (hstarted : s.paddingStarted = true)
    {bytes : Bytes} (h : scan s rest = .ok bytes) :
    (∃ n, rest = List.replicate n '=') ∧ bytes = s.binData := by
  induction rest generalizing s with
  | nil =>
    simp only [scan_nil, Scan.finish, hpos, if_true, Except.ok.injEq] at h
    exact ⟨⟨0, rfl⟩, h.symm⟩
  | cons c rest ih =>
    rcases scan_cases h with ⟨rfl, -, h⟩ | ⟨-, htwo, -⟩ | ⟨-, htwo, -⟩ | ⟨v, -, hfalse, -⟩
    · obtain ⟨⟨n, rfl⟩, hbytes⟩ := ih (s := { s with paddingStarted := true }) hpos rfl h
      exact ⟨⟨n + 1, rfl⟩, hbytes⟩
    · rw [hpos] at htwo
      exact absurd htwo (by decide)
    · rw [hpos] at htwo
      exact absurd htwo (by decide)
    · rw [hstarted] at hfalse
      cases hfalse

/-- What is left after the quads of an accepted text is a tail. -/
theorem scan_rest {bytes : Bytes} (hfront : ∀ (q : Quad) t, rest ≠ q.text ++ t)
    (h : scan (between out) rest = .ok bytes) :
    ∃ t : Tail, rest = t.text ∧ bytes = out ++ t.bytes := by
  cases rest with
  | nil =>
    simp only [scan_nil, Scan.finish, between, if_true, Except.ok.injEq] at h
    exact ⟨.pads 0, rfl, by simp [Tail.bytes, h]⟩
  | cons c₁ rest =>
    rcases scan_cases h with ⟨rfl, -, h⟩ | ⟨-, hpos, -⟩ | ⟨-, hpos, -⟩ | ⟨a, rfl, -, h⟩
    · obtain ⟨⟨n, rfl⟩, rfl⟩ :=
        scan_zero_started (s := { between out with paddingStarted := true }) rfl rfl h
      exact ⟨.pads (n + 1), rfl, by simp [Tail.bytes]⟩
    · exact absurd hpos (by simp [between])
    · exact absurd hpos (by simp [between])
    cases rest with
    | nil => simp [scan_nil, Scan.finish, Scan.take, between] at h
    | cons c₂ rest =>
      rcases scan_cases h with ⟨-, -, h⟩ | ⟨-, hpos, -⟩ | ⟨-, hpos, -⟩ | ⟨b, rfl, -, h⟩
      · exact absurd h (scan_one_started
          (s := { (between out).take a with paddingStarted := true }) rfl rfl bytes)
      · exact absurd hpos (by simp [between, Scan.take])
      · exact absurd hpos (by simp [between, Scan.take])
      cases rest with
      | nil => simp [scan_nil, Scan.finish, Scan.take, between] at h
      | cons c₃ rest =>
        rcases scan_cases h with ⟨-, hpos, -⟩ | ⟨-, -, hfour, -⟩ | ⟨rfl, -, -, h⟩ | ⟨c, rfl, -, h⟩
        · exact absurd hpos (by simp [between, Scan.take])
        · exact absurd hfour (by simp [between, Scan.take])
        · cases rest with
          | nil => simp [scan_nil, Scan.finish, Scan.take, between] at h
          | cons c₄ rest =>
            rcases scan_cases h with ⟨-, hpos, -⟩ | ⟨rfl, -, -, rfl, rfl⟩ | ⟨-, -, hfour, -⟩ |
              ⟨d, -, hstarted, -⟩
            · exact absurd hpos (by simp [between, Scan.take])
            · exact ⟨.one a b, rfl, by simp [between, Scan.take, Tail.bytes, firstByte]⟩
            · exact absurd hfour (by simp [between, Scan.take])
            · cases hstarted
        · cases rest with
          | nil => simp [scan_nil, Scan.finish, Scan.take, between] at h
          | cons c₄ rest =>
            rcases scan_cases h with ⟨-, hpos, -⟩ | ⟨rfl, -, -, rfl, rfl⟩ | ⟨-, -, hfour, -⟩ |
              ⟨d, rfl, -, -⟩
            · exact absurd hpos (by simp [between, Scan.take])
            · exact ⟨.two a b c, rfl,
                by simp [between, Scan.take, Tail.bytes, firstByte, secondByte]⟩
            · exact absurd hfour (Nat.lt_irrefl 4)
            · exact absurd rfl (hfront ⟨a, b, c, d⟩ rest)

/-- Every text is a run of quads and a rest that begins with none. -/
theorem exists_quads (text : List Char) : ∃ (quads : List Quad) (rest : List Char),
    text = quads.flatMap Quad.text ++ rest ∧ ∀ (q : Quad) t, rest ≠ q.text ++ t := by
  by_cases hquad : ∃ (q : Quad) (t : List Char), text = q.text ++ t
  · obtain ⟨q, t, htext⟩ := hquad
    have hlt : t.length < text.length := by
      simp only [htext, Quad.text, List.length_append, List.length_cons]
      omega
    obtain ⟨quads, rest, ht, hrest⟩ := exists_quads t
    exact ⟨q :: quads, rest, by rw [htext, ht]; simp, hrest⟩
  · exact ⟨[], text, rfl, fun q t h => hquad ⟨q, t, h⟩⟩
termination_by text.length

theorem scan_start_eq_ok (text : List Char) (bytes : Bytes) : scan .start text = .ok bytes ↔
    ∃ (quads : List Quad) (t : Tail), quads.flatMap Quad.text ++ t.text = text ∧
      quads.flatMap Quad.bytes ++ t.bytes = bytes := by
  constructor
  · intro h
    obtain ⟨quads, rest, rfl, hfront⟩ := exists_quads text
    have hscan := @scan_quads [] rest quads
    rw [List.nil_append] at hscan
    obtain ⟨t, rfl, rfl⟩ := scan_rest hfront (hscan.symm.trans h)
    exact ⟨quads, t, rfl, rfl⟩
  · rintro ⟨quads, t, rfl, rfl⟩
    exact (scan_quads quads).trans (scan_tail t)

theorem text_head_ne_pad (e : Encoded) : e.text.head? ≠ some '=' := by
  obtain ⟨quads, tail, opens⟩ := e
  cases quads with
  | nil => exact opens rfl
  | cons q quads => simp [Encoded.text, Quad.text]

/-- The decoder accepts quads and a tail, with no pad first, and nothing else. -/
theorem a2bBase64_eq_ok {text : List Char} {bytes : Bytes} :
    a2bBase64 text = .ok bytes ↔ ∃ e : Encoded, e.text = text ∧ e.bytes = bytes := by
  rw [a2bBase64]
  split
  · next hpad =>
    constructor
    · intro h
      cases h
    · rintro ⟨e, rfl, -⟩
      exact absurd hpad (text_head_ne_pad e)
  · next hpad =>
    refine (scan_start_eq_ok text bytes).trans ⟨?_, ?_⟩
    · rintro ⟨quads, t, rfl, rfl⟩
      exact ⟨⟨quads, t, by rintro rfl; exact hpad⟩, rfl, rfl⟩
    · rintro ⟨⟨quads, t, -⟩, rfl, rfl⟩
      exact ⟨quads, t, rfl, rfl⟩

example : a2bBase64 "AAAAAAAA=".toList = .ok (List.replicate 6 0) := by decide +kernel

end Decode

section Encode

/-- The letters over three neighbouring bytes. -/
def firstLetter (x : UInt8) : Sextet := .ofNat 64 (x.toNat / 4)

def secondLetter (x y : UInt8) : Sextet := .ofNat 64 (x.toNat % 4 * 16 + y.toNat / 16)

def thirdLetter (y z : UInt8) : Sextet := .ofNat 64 (y.toNat % 16 * 4 + z.toNat / 64)

def fourthLetter (z : UInt8) : Sextet := .ofNat 64 (z.toNat % 64)

/-- Three bytes at a time, with zeros for the missing bits. -/
def split : Bytes → Encoded
  | [] => ⟨[], .pads 0, by simp [Tail.text]⟩
  | [x] => ⟨[], .one (firstLetter x) (secondLetter x 0), by simp [Tail.text]⟩
  | [x, y] =>
    ⟨[], .two (firstLetter x) (secondLetter x y) (thirdLetter y 0), by simp [Tail.text]⟩
  | x :: y :: z :: rest =>
    let more := split rest
    ⟨⟨firstLetter x, secondLetter x y, thirdLetter y z, fourthLetter z⟩ :: more.quads, more.tail,
      nofun⟩

/-- `binascii.b2a_base64`, without the newline. -/
def b2aBase64 (bytes : Bytes) : List Char := (split bytes).text

theorem firstByte_letters (x y : UInt8) : firstByte (firstLetter x) (secondLetter x y) = x := by
  have hx := x.toNat_lt
  have hy := y.toNat_lt
  apply UInt8.toNat_inj.mp
  simp only [firstByte, firstLetter, secondLetter, Fin.val_ofNat, UInt8.toNat_ofNat']
  omega

theorem secondByte_letters (x y z : UInt8) :
    secondByte (secondLetter x y) (thirdLetter y z) = y := by
  have hy := y.toNat_lt
  have hz := z.toNat_lt
  apply UInt8.toNat_inj.mp
  simp only [secondByte, secondLetter, thirdLetter, Fin.val_ofNat, UInt8.toNat_ofNat']
  omega

theorem thirdByte_letters (y z : UInt8) : thirdByte (thirdLetter y z) (fourthLetter z) = z := by
  have hz := z.toNat_lt
  apply UInt8.toNat_inj.mp
  simp only [thirdByte, thirdLetter, fourthLetter, Fin.val_ofNat, UInt8.toNat_ofNat']
  omega

/-- What is written for bytes stands for them. -/
theorem split_bytes (bytes : Bytes) : (split bytes).bytes = bytes := by
  fun_induction split bytes with
  | case1 => rfl
  | case2 x => simp [Encoded.bytes, Tail.bytes, firstByte_letters]
  | case3 x y => simp [Encoded.bytes, Tail.bytes, firstByte_letters, secondByte_letters]
  | case4 x y z rest more ih =>
    rw [Encoded.bytes] at ih
    simp only [Encoded.bytes, List.flatMap_cons, Quad.bytes, List.cons_append, List.nil_append,
      firstByte_letters, secondByte_letters, thirdByte_letters, more, ih]

theorem a2b_b2a (bytes : Bytes) : a2bBase64 (b2aBase64 bytes) = .ok bytes :=
  a2bBase64_eq_ok.mpr ⟨split bytes, rfl, split_bytes bytes⟩

theorem b2a_length (bytes : Bytes) :
    (b2aBase64 bytes).length = 4 * ((bytes.length + 2) / 3) := by
  rw [b2aBase64]
  fun_induction split bytes with
  | case1 => rfl
  | case2 x => simp [Encoded.text, Tail.text]
  | case3 x y => simp [Encoded.text, Tail.text]
  | case4 x y z rest more ih =>
    have hcons : (Encoded.text ⟨⟨firstLetter x, secondLetter x y, thirdLetter y z,
        fourthLetter z⟩ :: more.quads, more.tail, nofun⟩).length = 4 + more.text.length := by
      simp only [Encoded.text, List.flatMap_cons, Quad.text, List.append_assoc, List.length_append,
        List.length_cons, List.length_nil]
    rw [hcons, ih]
    simp only [List.length_cons]
    omega

end Encode

end VoiceAgent.Base64
