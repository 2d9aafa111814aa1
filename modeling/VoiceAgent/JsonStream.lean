import VoiceAgent.Chunks
import VoiceAgent.JsonText

/-!
`JsonStringFieldStreamer`: one string field decoded out of a JSON text while the text arrives,
over the characters of any alphabet. Python strings may hold lone surrogates, and an escape is
decoded by itself, so the texts that it is fed are lists of code points in the end. What
`int(digits, 16)` makes of digits that are no plain hexadecimal ones is a parameter.
-/
namespace VoiceAgent.JsonStream

open Chunks JsonText

section Streamer

/-- The characters of a JSON text, with what Python's `str` knows of them. -/
class Alphabet (α : Type) where
  isSpace : α → Bool
  isAlnum : α → Bool
  quote : α
  colon : α
  backslash : α
  letterU : α
  openBrace : α
  backtick : α
  /-- `_JSON_ESCAPES`. -/
  escapes : List (α × α)

inductive Phase
  | search | colon | quote | inString
  deriving DecidableEq

structure JsonStringFieldStreamer (α : Type) where
  fieldName : List α
  phase : Phase := .search
  buffer : List α := []
  escaped : Bool := false
  unicodeRemaining : ℕ := 0
  unicodeBuffer : List α := []
  done : Bool := false
  deriving DecidableEq

/-- One turn of the loop of `_advance_to_string` from its colon or its quote on. -/
inductive Advance (α : Type)
  | waits (phase : Phase)
  | opens (rest : List α)
  | again (buffer : List α)

variable {α : Type} [Alphabet α] [DecidableEq α]

/-- The field name between quotes. -/
def needleOf (fieldName : List α) : List α := Alphabet.quote :: fieldName ++ [Alphabet.quote]

def atQuote (buffer : List α) : Advance α :=
  match buffer.dropWhile Alphabet.isSpace with
  | [] => .waits .quote
  | c :: rest => if c = Alphabet.quote then .opens rest else .again (c :: rest)

def atColon (buffer : List α) : Advance α :=
  match buffer.dropWhile Alphabet.isSpace with
  | [] => .waits .colon
  | c :: rest => if c = Alphabet.colon then atQuote rest else .again (c :: rest)

/-- The loop of `_advance_to_string`, started from a search. What it emits is none while it
waits for more text. Every round takes the needle off the buffer, and `fuel` bounds them. -/
def searchFrom (needle : List α) : ℕ → List α → Phase × List α × Option (List α)
  | 0, buffer => (.search, (holdBack needle.length buffer).2, none)
  | fuel + 1, buffer =>
    match splitFirst needle buffer with
    | none => (.search, (holdBack needle.length buffer).2, none)
    | some (_, rest) =>
      match atColon rest with
      | .waits phase => (phase, [], none)
      | .opens emitted => (.inString, [], some emitted)
      | .again left => searchFrom needle fuel left

def search (needle buffer : List α) : Phase × List α × Option (List α) :=
  searchFrom needle (buffer.length + 1) buffer

def goOn (needle : List α) : Advance α → Phase × List α × Option (List α)
  | .waits phase => (phase, [], none)
  | .opens emitted => (.inString, [], some emitted)
  | .again left => search needle left

def advanceToString (needle : List α) (phase : Phase) (buffer : List α) :
    Phase × List α × Option (List α) :=
  match phase with
  | .colon => goOn needle (atColon buffer)
  | .quote => goOn needle (atQuote buffer)
  | .search | .inString => search needle buffer

namespace JsonStringFieldStreamer
variable (chr : List α → Option α)

/-- One turn of the loop of `_consume_string_chars`; it ends at the closing quote. -/
def readChar (s : JsonStringFieldStreamer α) (ch : α) : JsonStringFieldStreamer α × List α :=
  if s.unicodeRemaining ≠ 0 then
    let unicodeBuffer := s.unicodeBuffer ++ [ch]
    if s.unicodeRemaining = 1 then
      ({ s with unicodeRemaining := 0, unicodeBuffer := [] },
        match chr unicodeBuffer with
        | some c => [c]
        | none => Alphabet.backslash :: Alphabet.letterU :: unicodeBuffer)
    else
      ({ s with unicodeRemaining := s.unicodeRemaining - 1, unicodeBuffer := unicodeBuffer }, [])
  else if s.escaped then
    if ch = Alphabet.letterU then
      ({ s with escaped := false, unicodeRemaining := 4, unicodeBuffer := [] }, [])
    else ({ s with escaped := false }, [(Alphabet.escapes.lookup ch).getD ch])
  else if ch = Alphabet.backslash then ({ s with escaped := true }, [])
  else if ch = Alphabet.quote then ({ s with done := true }, [])
  else (s, [ch])

def consume (s : JsonStringFieldStreamer α) : List α → JsonStringFieldStreamer α × List α
  | [] => (s, [])
  | ch :: rest =>
    if s.done then (s, [])
    else
      let read := s.readChar chr ch
      let more := read.1.consume rest
      (more.1, read.2 ++ more.2)

/-- The end of `feed`, once `_advance_to_string` is through. -/
def readOn (s : JsonStringFieldStreamer α) :
    Phase × List α × Option (List α) → JsonStringFieldStreamer α × List α
  | (phase, buffer, none) => ({ s with phase := phase, buffer := buffer }, [])
  | (phase, buffer, some emitted) =>
    consume chr { s with phase := phase, buffer := buffer } emitted

def feed (s : JsonStringFieldStreamer α) (text : List α) : JsonStringFieldStreamer α × List α :=
  if s.done ∨ text = [] then (s, [])
  else if s.phase = .inString then s.consume chr text
  else s.readOn chr (advanceToString (needleOf s.fieldName) s.phase (s.buffer ++ text))

end JsonStringFieldStreamer

end Streamer

section Searching
variable {α : Type} [DecidableEq α] {needle buffer rest left : List α} {phase : Phase}

theorem length_splitFirst (hneedle : needle ≠ []) {before : List α}
    (h : splitFirst needle buffer = some (before, rest)) : rest.length < buffer.length := by
  have hpos : 0 < needle.length := List.length_pos_of_ne_nil hneedle
  rw [splitFirst_eq_some h]
  simp only [List.length_append]
  omega

variable [Alphabet α]

theorem length_atQuote (h : atQuote rest = .again left) : left.length ≤ rest.length := by
  have hlen := (List.dropWhile_suffix Alphabet.isSpace (l := rest)).length_le
  unfold atQuote at h
  split at h
  · cases h
  · rename_i heq
    rw [heq] at hlen
    split at h
    · cases h
    · cases h
      exact hlen

theorem length_atColon (h : atColon rest = .again left) : left.length ≤ rest.length := by
  have hlen := (List.dropWhile_suffix Alphabet.isSpace (l := rest)).length_le
  unfold atColon at h
  split at h
  · cases h
  · rename_i heq
    rw [heq] at hlen
    split at h
    · have hquote := length_atQuote h
      rw [List.length_cons] at hlen
      omega
    · cases h
      exact hlen

/-- A search takes no more rounds than its buffer is long. -/
theorem searchFrom_enough (hneedle : needle ≠ []) {fuel : ℕ} (h : buffer.length < fuel) :
    searchFrom needle fuel buffer = search needle buffer := by
  induction fuel using Nat.strong_induction_on generalizing buffer with
  | _ fuel ih =>
    obtain ⟨fuel, rfl⟩ : ∃ n, fuel = n + 1 := ⟨fuel - 1, by omega⟩
    rw [search, searchFrom, searchFrom]
    cases hfound : splitFirst needle buffer with
    | none => rfl
    | some found =>
      obtain ⟨before, rest⟩ := found
      have hrest := length_splitFirst hneedle hfound
      dsimp only
      cases hnext : atColon rest with
      | waits phase => rfl
      | opens emitted => rfl
      | again left =>
        have hleft := length_atColon hnext
        dsimp only
        rw [ih fuel (by omega) (by omega)]
        by_cases hlast : buffer.length = fuel
        · rw [hlast, ih fuel (by omega) (by omega)]
        · exact (ih buffer.length (by omega) (by omega)).symm

/-- The loop, unfolded once. -/
theorem search_eq (hneedle : needle ≠ []) (buffer : List α) :
    search needle buffer =
      match splitFirst needle buffer with
      | none => (.search, (holdBack needle.length buffer).2, none)
      | some (_, rest) => goOn needle (atColon rest) := by
  rw [search, searchFrom]
  cases hfound : splitFirst needle buffer with
  | none => rfl
  | some found =>
    obtain ⟨before, rest⟩ := found
    have hrest := length_splitFirst hneedle hfound
    dsimp only
    cases hnext : atColon rest with
    | waits phase => rfl
    | opens emitted => rfl
    | again left =>
      have hleft := length_atColon hnext
      exact searchFrom_enough hneedle (by omega)

end Searching

section Chunking

open JsonStringFieldStreamer

variable {α : Type} [Alphabet α] {needle buffer rest : List α} {chr : List α → Option α}

theorem needleOf_ne_nil (fieldName : List α) : needleOf fieldName ≠ [] := by
  simp [needleOf]

variable [DecidableEq α]

/-- The search goes on when more text has arrived. -/
def resumed (needle : List α) (r : Phase × List α × Option (List α)) (b : List α) :
    Phase × List α × Option (List α) :=
  match r with
  | (phase, buffer, none) => advanceToString needle phase (buffer ++ b)
  | (phase, buffer, some emitted) => (phase, buffer, some (emitted ++ b))

/-- More text after the opening quote is sought, if it does after a search in less. -/
theorem atQuote_append {b : List α}
    (hs : ∀ left, left.length ≤ rest.length →
      search needle (left ++ b) = resumed needle (search needle left) b) :
    goOn needle (atQuote (rest ++ b)) = resumed needle (goOn needle (atQuote rest)) b := by
  have hlen := (List.dropWhile_suffix Alphabet.isSpace (l := rest)).length_le
  by_cases hblank : rest.dropWhile Alphabet.isSpace = []
  · have hwait : atQuote rest = .waits .quote := by rw [atQuote, hblank]
    rw [hwait, atQuote, dropWhile_none hblank]
    rfl
  · obtain ⟨c, r, hr⟩ := List.exists_cons_of_ne_nil hblank
    rw [hr] at hlen
    rw [atQuote, dropWhile_more hblank, atQuote, hr, List.cons_append]
    by_cases hc : c = Alphabet.quote
    · simp only [if_pos hc]
      rfl
    · simp only [if_neg hc]
      exact hs (c :: r) hlen

theorem atColon_append {b : List α}
    (hs : ∀ left, left.length ≤ rest.length →
      search needle (left ++ b) = resumed needle (search needle left) b) :
    goOn needle (atColon (rest ++ b)) = resumed needle (goOn needle (atColon rest)) b := by
  have hlen := (List.dropWhile_suffix Alphabet.isSpace (l := rest)).length_le
  by_cases hblank : rest.dropWhile Alphabet.isSpace = []
  · have hwait : atColon rest = .waits .colon := by rw [atColon, hblank]
    rw [hwait, atColon, dropWhile_none hblank]
    rfl
  · obtain ⟨c, r, hr⟩ := List.exists_cons_of_ne_nil hblank
    rw [hr] at hlen
    rw [atColon, dropWhile_more hblank, atColon, hr, List.cons_append]
    by_cases hc : c = Alphabet.colon
    · simp only [if_pos hc]
      refine atQuote_append fun left hleft => hs left ?_
      simp only [List.length_cons] at hlen
      omega
    · simp only [if_neg hc]
      exact hs (c :: r) hlen

/-- A search that has found nothing yet keeps what it needs of the text. -/
theorem search_append (hneedle : needle ≠ []) (b : List α) :
    search needle (buffer ++ b) = resumed needle (search needle buffer) b := by
  induction hn : buffer.length using Nat.strong_induction_on generalizing buffer with
  | _ n ih =>
    subst n
    rw [search_eq hneedle buffer]
    cases hfound : splitFirst needle buffer with
    | none =>
      have hheld := splitFirst_held hfound (k := needle.length) (by omega) b
      change _ = search needle ((holdBack needle.length buffer).2 ++ b)
      rw [search_eq hneedle, search_eq hneedle, hheld, holdBack_append]
      cases splitFirst needle ((holdBack needle.length buffer).2 ++ b) <;> rfl
    | some found =>
      obtain ⟨before, rest⟩ := found
      have hrest := length_splitFirst hneedle hfound
      rw [search_eq hneedle, splitFirst_append hfound]
      exact atColon_append fun left hleft => ih left.length (by omega) rfl

theorem advanceToString_append (hneedle : needle ≠ []) (phase : Phase) (b : List α) :
    advanceToString needle phase (buffer ++ b) =
      resumed needle (advanceToString needle phase buffer) b := by
  cases phase with
  | colon => exact atColon_append fun left _ => search_append hneedle b
  | quote => exact atQuote_append fun left _ => search_append hneedle b
  | search | inString => exact search_append hneedle b

theorem consume_append (s : JsonStringFieldStreamer α) (a b : List α) :
    s.consume chr (a ++ b) =
      (((s.consume chr a).1.consume chr b).1,
        (s.consume chr a).2 ++ ((s.consume chr a).1.consume chr b).2) := by
  induction a generalizing s with
  | nil => simp [consume]
  | cons ch rest ih =>
    by_cases hd : s.done = true
    · have hstop : ∀ text, s.consume chr text = (s, []) := fun text => by
        cases text <;> simp [consume, hd]
      simp [hstop]
    · simp only [List.cons_append, consume, hd, ih]
      simp

theorem consume_phase (chr : List α → Option α) (s : JsonStringFieldStreamer α)
    (text : List α) :
    (s.consume chr text).1.phase = s.phase := by
  induction text generalizing s with
  | nil => rfl
  | cons ch rest ih =>
    rw [consume]
    split
    · rfl
    · refine (ih _).trans ?_
      unfold readChar
      split_ifs <;> rfl

/-- In the string, a chunk is read character by character. -/
theorem feed_inString {s : JsonStringFieldStreamer α} (hp : s.phase = .inString) (text : List α) :
    s.feed chr text = s.consume chr text := by
  unfold feed
  split
  · rename_i h
    cases text with
    | nil => rfl
    | cons ch rest =>
      have hd : s.done = true := by simpa using h
      simp [consume, hd]
  · rfl

theorem atQuote_waits {phase : Phase} (h : atQuote rest = .waits phase) : phase ≠ .inString := by
  unfold atQuote at h
  split at h
  · cases h
    simp
  · split at h <;> cases h

theorem atColon_waits {phase : Phase} (h : atColon rest = .waits phase) : phase ≠ .inString := by
  unfold atColon at h
  split at h
  · cases h
    simp
  · split at h
    · exact atQuote_waits h
    · cases h

/-- The search ends in the string exactly when it emits something. -/
theorem searchFrom_phase (fuel : ℕ) (buffer : List α) :
    (searchFrom needle fuel buffer).1 = .inString ↔
      (searchFrom needle fuel buffer).2.2.isSome := by
  induction fuel generalizing buffer with
  | zero => simp [searchFrom]
  | succ fuel ih =>
    rw [searchFrom]
    cases splitFirst needle buffer with
    | none => simp
    | some found =>
      dsimp only
      cases hnext : atColon found.2 with
      | waits phase => simpa using atColon_waits hnext
      | opens emitted => simp
      | again left => exact ih left

theorem advanceToString_phase (needle : List α) (phase : Phase) (buffer : List α) :
    (advanceToString needle phase buffer).1 = .inString ↔
      (advanceToString needle phase buffer).2.2.isSome := by
  have hgo : ∀ next, (∀ phase, next = .waits phase → phase ≠ .inString) →
      ((goOn needle next).1 = .inString ↔ (goOn needle next).2.2.isSome) := by
    intro next hnext
    cases next with
    | waits phase => simpa [goOn] using hnext phase rfl
    | opens emitted => simp [goOn]
    | again left => exact searchFrom_phase _ _
  cases phase with
  | colon => exact hgo _ fun _ h => atColon_waits h
  | quote => exact hgo _ fun _ h => atQuote_waits h
  | search | inString => exact searchFrom_phase _ _

theorem feed_search {s : JsonStringFieldStreamer α} (hd : s.done ≠ true) (hp : s.phase ≠ .inString)
    {text : List α} (htext : text ≠ []) : s.feed chr text =
      s.readOn chr (advanceToString (needleOf s.fieldName) s.phase (s.buffer ++ text)) := by
  rw [feed, if_neg (by simp [hd, htext]), if_neg hp]

/-- Step lemma: a text fed in two pieces is fed whole. -/
theorem feed_additive (chr : List α → Option α) : Additive (feed chr) := by
  intro s a b
  by_cases hd : s.done = true
  · have hstop : ∀ text, s.feed chr text = (s, []) := fun text => by simp [feed, hd]
    simp [hstop]
  by_cases hp : s.phase = .inString
  · have hphase : (s.consume chr a).1.phase = .inString := (consume_phase chr s a).trans hp
    rw [feed_inString hp, feed_inString hp, feed_inString hphase, consume_append]
  by_cases ha : a = []
  · simp [ha, feed]
  by_cases hb : b = []
  · simp [hb, feed]
  rw [feed_search hd hp (by simp [ha] : a ++ b ≠ []), feed_search hd hp ha, ← List.append_assoc,
    advanceToString_append (needleOf_ne_nil _)]
  have hstring := advanceToString_phase (needleOf s.fieldName) s.phase (s.buffer ++ a)
  generalize advanceToString (needleOf s.fieldName) s.phase (s.buffer ++ a) = r at hstring ⊢
  obtain ⟨phase, buffer, emitted⟩ := r
  cases emitted with
  | none =>
    have hnot : phase ≠ .inString := by simpa using hstring
    simp [resumed, readOn, feed, hd, hb, hnot]
  | some emitted =>
    obtain rfl : phase = .inString := by simpa using hstring
    have hphase := consume_phase chr
      { s with phase := .inString, buffer := buffer } emitted
    simp only [resumed, readOn]
    rw [consume_append, feed_inString hphase]

theorem feed_append (s : JsonStringFieldStreamer α) (a b : List α) :
    s.feed chr (a ++ b) =
      (((s.feed chr a).1.feed chr b).1, (s.feed chr a).2 ++ ((s.feed chr a).1.feed chr b).2) :=
  feed_additive chr s a b

theorem feed_nil (s : JsonStringFieldStreamer α) : s.feed chr [] = (s, []) := by
  simp [feed]

theorem feed_done {s : JsonStringFieldStreamer α} (h : s.done = true) (text : List α) :
    s.feed chr text = (s, []) := by
  simp [feed, h]

/-- Run lemma: the chunks of a text do not matter. -/
theorem feedAll_flatten (s : JsonStringFieldStreamer α) (chunks : List (List α)) :
    feedAll (feed chr) s chunks = s.feed chr chunks.flatten :=
  feedAll_eq (feed_additive chr) (feed_nil s) chunks

end Chunking

section Points

open JsonStringFieldStreamer

variable {other : Points → Option ℕ}

/-- What Python's `str.isspace` accepts. -/
def isSpace (c : ℕ) : Bool :=
  [0x09, 0x0A, 0x0B, 0x0C, 0x0D, 0x1C, 0x1D, 0x1E, 0x1F, 0x20, 0x85, 0xA0, 0x1680,
    0x2028, 0x2029, 0x202F, 0x205F, 0x3000].contains c ||
  (0x2000 ≤ c && c ≤ 0x200A)

def jsonEscapes : List (ℕ × ℕ) :=
  [(0x22, 0x22), (0x5C, 0x5C), (0x2F, 0x2F), (0x62, 0x08), (0x66, 0x0C), (0x6E, 0x0A),
    (0x72, 0x0D), (0x74, 0x09)]

def hexValue (c : ℕ) : Option ℕ :=
  if 0x30 ≤ c ∧ c ≤ 0x39 then some (c - 0x30)
  else if 0x61 ≤ c ∧ c ≤ 0x66 then some (c - 0x61 + 10)
  else if 0x41 ≤ c ∧ c ≤ 0x46 then some (c - 0x41 + 10)
  else none

/-- `chr(int(digits, 16))`; none for a `ValueError`. -/
def chrOfHex (other : Points → Option ℕ) (digits : Points) : Option ℕ :=
  match digits.mapM hexValue with
  | some values => some (values.foldl (fun n value => 16 * n + value) 0)
  | none => other digits

def isAsciiAlnum (c : ℕ) : Bool :=
  (0x30 ≤ c && c ≤ 0x39) || (0x41 ≤ c && c ≤ 0x5A) || (0x61 ≤ c && c ≤ 0x7A)

instance : Alphabet ℕ where
  isSpace := isSpace
  isAlnum := isAsciiAlnum
  quote := quoteMark
  colon := colonMark
  backslash := backslash
  letterU := letterU
  openBrace := openBrace
  backtick := backtick
  escapes := jsonEscapes

@[simp] theorem alphabet_isSpace : (Alphabet.isSpace : ℕ → Bool) = isSpace := rfl

@[simp] theorem alphabet_quote : (Alphabet.quote : ℕ) = quoteMark := rfl

@[simp] theorem alphabet_colon : (Alphabet.colon : ℕ) = colonMark := rfl

@[simp] theorem alphabet_backslash : (Alphabet.backslash : ℕ) = backslash := rfl

@[simp] theorem alphabet_letterU : (Alphabet.letterU : ℕ) = letterU := rfl

@[simp] theorem alphabet_escapes : (Alphabet.escapes : List (ℕ × ℕ)) = jsonEscapes := rfl

/-- What a streamer of the field has put out after the chunks, and whether it is done. -/
def stream (other : Points → Option ℕ) (fieldName : Points) (chunks : List Points) :
    Points × Bool :=
  let read := feedAll (feed (chrOfHex other)) { fieldName := fieldName } chunks
  (read.2, read.1.done)

theorem stream_eq (fieldName : Points) (chunks : List Points) :
    stream other fieldName chunks = stream other fieldName [chunks.flatten] := by
  unfold stream
  rw [feedAll_flatten, feedAll_flatten, List.flatten_singleton]

/-- However a text is split into chunks, the same characters of the field come out, and the
streamer is done or not. -/
theorem stream_chunks {fieldName : Points} {chunks chunks' : List Points}
    (h : chunks.flatten = chunks'.flatten) :
    stream other fieldName chunks = stream other fieldName chunks' := by
  rw [stream_eq, h, ← stream_eq]

theorem stream_chunks_cut :
    stream (fun _ => none) (points "a") [points "\x7b\"a", points "\" : \"x\\u00", [],
      points "e9\", 1\x7d"] = ([0x78, 0xE9], true) := by
  have hcut : stream (fun _ => none) (points "a") [points "\x7b\"a", points "\" : \"x\\u00", [],
      points "e9\", 1\x7d"] =
      stream (fun _ => none) (points "a") [points "\x7b\"a\" : \"x\\u00e9\", 1\x7d"] :=
    stream_chunks (by decide +kernel)
  rw [hcut]
  decide +kernel

end Points

end VoiceAgent.JsonStream
