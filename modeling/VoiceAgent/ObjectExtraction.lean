import VoiceAgent.JsonStream
import Mathlib.Data.List.DropRight

/-!
`extract_json_object`: the first object in what a model answers. A code fence around the answer
is taken off, and an object is looked for at each opening brace.
-/
namespace VoiceAgent.ObjectExtraction

open JsonStream

variable {α β : Type} [Alphabet α]

/-- `text.strip()` for the characters of `p`. -/
def stripWhile (p : α → Bool) (text : List α) : List α := (text.dropWhile p).rdropWhile p

def strip (text : List α) : List α := stripWhile Alphabet.isSpace text

def fence : List α := [Alphabet.backtick, Alphabet.backtick, Alphabet.backtick]

variable [DecidableEq α]

/-- The text without a code fence at its end. -/
def withoutClosingFence (text : List α) : List α :=
  if fence.isSuffixOf text then (text.take (text.length - 3)).rdropWhile Alphabet.isSpace else text

/-- The text without the code fence around it. -/
def withoutFence (text : List α) : List α :=
  strip (withoutClosingFence
    (((text.drop 3).dropWhile Alphabet.isAlnum).dropWhile Alphabet.isSpace))

def cleanedReply (text : List α) : List α :=
  if fence.isPrefixOf (strip text) then withoutFence (strip text) else strip text

variable (decodeObject : List α → Option β)

/-- What can be decoded at the first opening brace at which anything can. -/
def firstObject : List α → Option β
  | [] => none
  | c :: rest =>
    if c = Alphabet.openBrace then
      match decodeObject (c :: rest) with
      | some fields => some fields
      | none => firstObject rest
    else firstObject rest

/-- `extract_json_object`; none where there is no object. -/
def extractJsonObject (text : List α) : Option β := firstObject decodeObject (cleanedReply text)

end VoiceAgent.ObjectExtraction
