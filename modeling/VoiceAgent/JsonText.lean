import Mathlib.Data.List.Basic
import Mathlib.Data.Nat.Digits.Defs

/-!
JSON documents as they are written: every blank, every escape and every digit is part of the
syntax tree, so that a value has as many trees as it has spellings. Python strings may hold lone
surrogates, so a text is a list of code points.
-/
namespace VoiceAgent.JsonText

/-- A Python string by its code points. -/
abbrev Points := List ℕ

def points (s : String) : Points := s.toList.map Char.toNat

def quoteMark : ℕ := 0x22

def colonMark : ℕ := 0x3A

def commaMark : ℕ := 0x2C

def backslash : ℕ := 0x5C

def letterU : ℕ := 0x75

def openBrace : ℕ := 0x7B

def backtick : ℕ := 0x60

section Strings

inductive Blank
  | space | tab | lineFeed | carriageReturn
  deriving DecidableEq

def Blank.point : Blank → ℕ
  | space => 0x20
  | tab => 0x09
  | lineFeed => 0x0A
  | carriageReturn => 0x0D

def blanks (ws : List Blank) : Points := ws.map Blank.point

structure HexDigit where
  value : Fin 16
  upper : Bool
  deriving DecidableEq

def HexDigit.point (d : HexDigit) : ℕ :=
  if d.value.val < 10 then 0x30 + d.value.val
  else (if d.upper then 0x41 else 0x61) + (d.value.val - 10)

inductive Escape
  | quote | backslash | slash | b | f | n | r | t
  deriving DecidableEq

/-- The character after the backslash. -/
def Escape.letter : Escape → ℕ
  | quote => 0x22
  | backslash => 0x5C
  | slash => 0x2F
  | b => 0x62
  | f => 0x66
  | n => 0x6E
  | r => 0x72
  | t => 0x74

def Escape.point : Escape → ℕ
  | quote => 0x22
  | backslash => 0x5C
  | slash => 0x2F
  | b => 0x08
  | f => 0x0C
  | n => 0x0A
  | r => 0x0D
  | t => 0x09

/-- One character of a string, as it is spelled. -/
inductive Spelling
  | plain (c : ℕ) (printable : 0x20 ≤ c ∧ c ≠ quoteMark ∧ c ≠ backslash)
  | escape (e : Escape)
  | unicode (a b c d : HexDigit)
  deriving DecidableEq

namespace Spelling

def text : Spelling → Points
  | plain c _ => [c]
  | escape e => [JsonText.backslash, e.letter]
  | unicode a b c d => [JsonText.backslash, letterU, a.point, b.point, c.point, d.point]

/-- The code point, or the code unit, that is spelled. -/
def point : Spelling → ℕ
  | plain c _ => c
  | escape e => e.point
  | unicode a b c d => 16 * (16 * (16 * a.value + b.value) + c.value) + d.value

/-- An escape for the first half of a surrogate pair. -/
def isHigh : Spelling → Bool
  | unicode a b c d =>
    decide (0xD800 ≤ (unicode a b c d).point ∧ (unicode a b c d).point ≤ 0xDBFF)
  | _ => false

def isLow : Spelling → Bool
  | unicode a b c d =>
    decide (0xDC00 ≤ (unicode a b c d).point ∧ (unicode a b c d).point ≤ 0xDFFF)
  | _ => false

end Spelling

def spelled (s : List Spelling) : Points := s.flatMap Spelling.text

/-- The string that is spelled: two escapes for the halves of a surrogate pair are one character. -/
def decode : List Spelling → Points
  | [] => []
  | [u] => [u.point]
  | u :: w :: rest =>
    if u.isHigh && w.isLow then
      (0x10000 + 0x400 * (u.point - 0xD800) + (w.point - 0xDC00)) :: decode rest
    else u.point :: decode (w :: rest)

end Strings

section Values

structure Exponent where
  upper : Bool
  sign : Option Bool
  first : Fin 10
  digits : List (Fin 10)
  deriving DecidableEq

/-- A number: no fraction is an empty one. -/
structure Number where
  negative : Bool
  whole : ℕ
  fraction : List (Fin 10)
  exponent : Option Exponent
  deriving DecidableEq

def digit (d : Fin 10) : ℕ := 0x30 + d.val

def signText (sign : Option Bool) : Points :=
  match sign with
  | none => []
  | some negative => [if negative then 0x2D else 0x2B]

def Exponent.text (e : Exponent) : Points :=
  (if e.upper then 0x45 else 0x65) :: (signText e.sign ++ digit e.first :: e.digits.map digit)

/-- The digits of a natural number, without leading zeros. -/
def wholeText (n : ℕ) : Points :=
  if n = 0 then [0x30] else (Nat.digits 10 n).reverse.map (0x30 + ·)

def Number.text (n : Number) : Points :=
  (if n.negative then [0x2D] else []) ++ wholeText n.whole ++
    (if n.fraction = [] then [] else 0x2E :: n.fraction.map digit) ++
      (n.exponent.map Exponent.text).getD []

inductive Atom
  | null | true | false
  | number (n : Number)
  deriving DecidableEq

def Atom.text : Atom → Points
  | null => points "null"
  | true => points "true"
  | false => points "false"
  | number n => n.text

mutual
/-- Blanks stand after an opening bracket, and before and after every item and key. -/
inductive Value
  | atom (a : Atom)
  | str (s : List Spelling)
  | arr (lead : List Blank) (items : Items)
  | obj (lead : List Blank) (members : Members)

inductive Items
  | nil
  | cons (before : List Blank) (v : Value) (after : List Blank) (rest : Items)

inductive Members
  | nil
  | cons (before : List Blank) (key : List Spelling) (afterKey beforeValue : List Blank)
      (v : Value) (after : List Blank) (rest : Members)
end

def quoted (s : List Spelling) : Points := quoteMark :: spelled s ++ [quoteMark]

mutual
def Value.text : Value → Points
  | .atom a => a.text
  | .str s => quoted s
  | .arr lead items => 0x5B :: blanks lead ++ items.text ++ [0x5D]
  | .obj lead members => 0x7B :: blanks lead ++ members.text ++ [0x7D]

/-- Commas stand between the items. -/
def Items.text : Items → Points
  | .nil => []
  | .cons before v after rest =>
    blanks before ++ v.text ++ blanks after ++ (match rest with
      | .nil => []
      | .cons .. => commaMark :: rest.text)

def Members.text : Members → Points
  | .nil => []
  | .cons before key afterKey beforeValue v after rest =>
    blanks before ++ quoted key ++ blanks afterKey ++ colonMark :: blanks beforeValue ++ v.text ++
      blanks after ++ (match rest with
        | .nil => []
        | .cons .. => commaMark :: rest.text)
end

/-- The members of an object, their keys decoded. -/
def Members.toList : Members → List (Points × Value)
  | .nil => []
  | .cons _ key _ _ v _ rest => (decode key, v) :: rest.toList

/-- A JSON text whose value is an object. -/
structure ObjectText where
  before : List Blank
  lead : List Blank
  members : Members
  after : List Blank
  distinct : (members.toList.map Prod.fst).Nodup

def ObjectText.text (d : ObjectText) : Points :=
  blanks d.before ++ (Value.obj d.lead d.members).text ++ blanks d.after

end Values

end VoiceAgent.JsonText
