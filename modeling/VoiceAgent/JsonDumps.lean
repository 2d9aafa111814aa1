import VoiceAgent.JsonText

/-!
A string written as JSON in ASCII, as `json.dumps` does, and read back, as `json.loads` does. What
is written is printable and ends at its own closing quote, whatever the string holds.
-/
namespace VoiceAgent.JsonDumps

open JsonText

section Writing

/-- A Python string: lone surrogates are code points of their own. -/
abbrev Str := List (Fin 0x110000)

def Str.points (t : Str) : Points := t.map Fin.val

def hexDigit (n : ℕ) : HexDigit := ⟨⟨n % 16, Nat.mod_lt n (by decide)⟩, false⟩

/-- `\u` and four digits. -/
def unicodeEscape (n : ℕ) : Spelling :=
  .unicode (hexDigit (n / 0x1000)) (hexDigit (n / 0x100)) (hexDigit (n / 0x10)) (hexDigit n)

def shortEscape (c : ℕ) : Option Escape :=
  [(0x22, Escape.quote), (0x5C, .backslash), (0x0A, .n), (0x0D, .r), (0x09, .t), (0x0C, .f),
    (0x08, .b)].lookup c

/-- How `json.dumps` writes a code point. -/
def spellingOf (c : ℕ) : List Spelling :=
  match shortEscape c with
  | some e => [.escape e]
  | none =>
    if h : (0x20 ≤ c ∧ c ≠ quoteMark ∧ c ≠ backslash) ∧ c ≤ 0x7E then [.plain c h.1]
    else if c < 0x10000 then [unicodeEscape c]
    else [unicodeEscape (0xD800 + (c - 0x10000) / 0x400),
      unicodeEscape (0xDC00 + (c - 0x10000) % 0x400)]

def spellings (t : Points) : List Spelling := t.flatMap spellingOf

def dumps (t : Str) : Points := quoted (spellings t.points)

end Writing

section Reading

def readHexDigit (c : ℕ) : Option HexDigit :=
  if 0x30 ≤ c ∧ c ≤ 0x39 then some ⟨Fin.ofNat 16 (c - 0x30), false⟩
  else if 0x61 ≤ c ∧ c ≤ 0x66 then some ⟨Fin.ofNat 16 (c - 0x61 + 10), false⟩
  else if 0x41 ≤ c ∧ c ≤ 0x46 then some ⟨Fin.ofNat 16 (c - 0x41 + 10), true⟩
  else none

def readEscape (c : ℕ) : Option Escape :=
  [(0x22, Escape.quote), (0x5C, .backslash), (0x2F, .slash), (0x62, .b), (0x66, .f), (0x6E, .n),
    (0x72, .r), (0x74, .t)].lookup c

/-- What of a character has been read. -/
inductive Pending
  | nothing
  | escape
  | digits (read : List HexDigit)

/-- What the next code point makes of it. -/
inductive Step
  | fails
  | closes
  | waits (p : Pending)
  | reads (s : Spelling)

def scanStep (c : ℕ) : Pending → Step
  | .nothing =>
    if c = quoteMark then .closes
    else if c = backslash then .waits .escape
    else if h : 0x20 ≤ c ∧ c ≠ quoteMark ∧ c ≠ backslash then .reads (.plain c h)
    else .fails
  | .escape =>
    if c = letterU then .waits (.digits [])
    else (readEscape c).elim .fails fun e => .reads (.escape e)
  | .digits [x, y, z] =>
    (readHexDigit c).elim .fails fun w => .reads (.unicode x y z w)
  | .digits read => (readHexDigit c).elim .fails fun d => .waits (.digits (read ++ [d]))

/-- A string after its opening quote, with what follows its closing quote; none where
`json.loads` raises. -/
def scanString (p : Pending) : Points → Option (List Spelling × Points)
  | [] => none
  | c :: rest =>
    match scanStep c p with
    | .fails => none
    | .closes => some ([], rest)
    | .waits q => scanString q rest
    | .reads s => (scanString .nothing rest).map fun read => (s :: read.1, read.2)

/-- The string at the beginning of a JSON text. -/
def loads : Points → Option (Points × Points)
  | [] => none
  | c :: rest =>
    if c = quoteMark then (scanString .nothing rest).map fun read => (decode read.1, read.2)
    else none

end Reading

section RoundTrip

def isHighPoint (c : ℕ) : Bool := decide (0xD800 ≤ c ∧ c ≤ 0xDBFF)

def isLowPoint (c : ℕ) : Bool := decide (0xDC00 ≤ c ∧ c ≤ 0xDFFF)

/-- The halves of a surrogate pair that stand together are read back as one character. -/
def joined : Points → Points
  | [] => []
  | [c] => [c]
  | c :: d :: rest =>
    if isHighPoint c && isLowPoint d then
      (0x10000 + 0x400 * (c - 0xD800) + (d - 0xDC00)) :: joined rest
    else c :: joined (d :: rest)

/-- No half of a surrogate pair stands before the other. -/
def Unpaired : Points → Prop
  | c :: d :: rest => (isHighPoint c && isLowPoint d) = false ∧ Unpaired (d :: rest)
  | _ => True

theorem joined_of_unpaired {t : Points} (h : Unpaired t) : joined t = t := by
  induction t using joined.induct with
  | case1 => rfl
  | case2 c => rfl
  | case3 c d rest hpair ih =>
    rw [h.1] at hpair
    cases hpair
  | case4 c d rest hpair ih => rw [joined, if_neg hpair, ih h.2]

theorem readHexDigit_hexDigit (n : ℕ) : readHexDigit (hexDigit n).point = some (hexDigit n) := by
  have hdigits : ∀ v : Fin 16, readHexDigit (HexDigit.point ⟨v, false⟩) = some ⟨v, false⟩ := by
    decide
  exact hdigits _

theorem readEscape_letter (e : Escape) : readEscape e.letter = some e := by
  cases e <;> rfl

theorem scanString_waits {c : ℕ} {p q : Pending} {rest : Points} (h : scanStep c p = .waits q) :
    scanString p (c :: rest) = scanString q rest := by
  rw [scanString, h]

theorem scanString_reads {c : ℕ} {p : Pending} {s : Spelling} {rest : Points}
    (h : scanStep c p = .reads s) : scanString p (c :: rest) =
      (scanString .nothing rest).map fun read => (s :: read.1, read.2) := by
  rw [scanString, h]

theorem scanString_plain {c : ℕ} (h : 0x20 ≤ c ∧ c ≠ quoteMark ∧ c ≠ backslash)
    (rest : Points) : scanString .nothing ((Spelling.plain c h).text ++ rest) =
      (scanString .nothing rest).map fun read => (.plain c h :: read.1, read.2) :=
  scanString_reads (by rw [scanStep, if_neg h.2.1, if_neg h.2.2, dif_pos h])

theorem scanString_escape (e : Escape) (rest : Points) :
    scanString .nothing ((Spelling.escape e).text ++ rest) =
      (scanString .nothing rest).map fun read => (.escape e :: read.1, read.2) := by
  have hletter : e.letter ≠ letterU := by cases e <;> decide
  exact (scanString_waits rfl).trans
    (scanString_reads (by rw [scanStep, if_neg hletter, readEscape_letter]; rfl))

theorem scanString_unicode (n : ℕ) (rest : Points) :
    scanString .nothing ((unicodeEscape n).text ++ rest) =
      (scanString .nothing rest).map fun read => (unicodeEscape n :: read.1, read.2) := by
  have hdigit : ∀ read, read.length ≠ 3 → ∀ m, scanStep (hexDigit m).point (.digits read) =
      .waits (.digits (read ++ [hexDigit m])) := by
    intro read hread m
    unfold scanStep
    split <;> simp_all [readHexDigit_hexDigit]
  have hlast : scanStep (hexDigit n).point (.digits [hexDigit (n / 0x1000), hexDigit (n / 0x100),
      hexDigit (n / 0x10)]) = .reads (unicodeEscape n) := by
    rw [scanStep, readHexDigit_hexDigit]
    rfl
  exact (scanString_waits rfl).trans ((scanString_waits rfl).trans
    ((scanString_waits (hdigit [] (by simp) _)).trans
      ((scanString_waits (hdigit _ (by simp) _)).trans
        ((scanString_waits (hdigit _ (by simp) _)).trans (scanString_reads hlast)))))

theorem scanString_spellingOf (c : ℕ) (rest : Points) :
    scanString .nothing (spelled (spellingOf c) ++ rest) =
      (scanString .nothing rest).map fun read => (spellingOf c ++ read.1, read.2) := by
  unfold spellingOf
  split
  · simpa [spelled] using scanString_escape _ rest
  · split
    · simpa [spelled] using scanString_plain _ rest
    · split
      · simpa [spelled] using scanString_unicode c rest
      · simp only [spelled, List.flatMap_cons, List.flatMap_nil, List.append_nil,
          List.append_assoc]
        rw [scanString_unicode, scanString_unicode, Option.map_map]
        rfl

/-- What `json.dumps` writes is read up to its own closing quote. -/
theorem scanString_spellings (t rest : Points) :
    scanString .nothing (spelled (spellings t) ++ quoteMark :: rest) =
      some (spellings t, rest) := by
  induction t with
  | nil => rfl
  | cons c t ih =>
    have hcons : spelled (spellings (c :: t)) =
        spelled (spellingOf c) ++ spelled (spellings t) := by
      simp [spelled, spellings, List.flatMap_append]
    rw [hcons, List.append_assoc, scanString_spellingOf, ih]
    rfl

theorem point_unicodeEscape {n : ℕ} (h : n < 0x10000) : (unicodeEscape n).point = n := by
  simp only [unicodeEscape, Spelling.point, hexDigit]
  omega

theorem isHigh_unicodeEscape {n : ℕ} (h : n < 0x10000) :
    (unicodeEscape n).isHigh = isHighPoint n := by
  have hpoint := point_unicodeEscape h
  unfold unicodeEscape at hpoint
  rw [unicodeEscape, Spelling.isHigh, hpoint, isHighPoint]

theorem isLow_unicodeEscape {n : ℕ} (h : n < 0x10000) :
    (unicodeEscape n).isLow = isLowPoint n := by
  have hpoint := point_unicodeEscape h
  unfold unicodeEscape at hpoint
  rw [unicodeEscape, Spelling.isLow, hpoint, isLowPoint]

/-- A spelling is for a code point, and a half of a pair just where that is one. -/
structure Spells (s : Spelling) (c : ℕ) : Prop where
  point : s.point = c
  isHigh : s.isHigh = isHighPoint c
  isLow : s.isLow = isLowPoint c

theorem spells_shortEscape {c : ℕ} {e : Escape} (h : shortEscape c = some e) :
    Spells (.escape e) c := by
  have hmem : (c, e) ∈ [(0x22, Escape.quote), (0x5C, .backslash), (0x0A, .n), (0x0D, .r),
      (0x09, .t), (0x0C, .f), (0x08, .b)] := by
    obtain ⟨before, after, hl, -⟩ := List.lookup_eq_some_iff.mp h
    rw [hl]
    simp
  simp only [List.mem_cons, Prod.mk.injEq, List.not_mem_nil, or_false] at hmem
  rcases hmem with ⟨rfl, rfl⟩ | ⟨rfl, rfl⟩ | ⟨rfl, rfl⟩ | ⟨rfl, rfl⟩ | ⟨rfl, rfl⟩ | ⟨rfl, rfl⟩ |
    ⟨rfl, rfl⟩ <;> exact ⟨rfl, rfl, rfl⟩

theorem spellingOf_small {c : ℕ} (h : c < 0x10000) : ∃ s, spellingOf c = [s] ∧ Spells s c := by
  unfold spellingOf
  split
  · exact ⟨_, rfl, spells_shortEscape ‹_›⟩
  · split
    · rename_i hplain
      have hhigh : isHighPoint c = false := by simp [isHighPoint]; omega
      have hlow : isLowPoint c = false := by simp [isLowPoint]; omega
      exact ⟨_, rfl, rfl, hhigh.symm, hlow.symm⟩
    · exact ⟨_, rfl, point_unicodeEscape h, isHigh_unicodeEscape h, isLow_unicodeEscape h⟩

theorem spellingOf_large {c : ℕ} (h : 0x10000 ≤ c) (hc : c < 0x110000) :
    ∃ u w, spellingOf c = [u, w] ∧ u.isHigh = true ∧ u.isLow = false ∧ w.isLow = true ∧
      0x10000 + 0x400 * (u.point - 0xD800) + (w.point - 0xDC00) = c := by
  have hshort : shortEscape c = none := by
    simp only [shortEscape, List.lookup_eq_none_iff]
    simp
    omega
  have hhigh : 0xD800 + (c - 0x10000) / 0x400 < 0x10000 := by omega
  have hlow : 0xDC00 + (c - 0x10000) % 0x400 < 0x10000 := by omega
  refine ⟨_, _, by rw [spellingOf, hshort]; simp only; rw [dif_neg (by omega), if_neg (by omega)],
    ?_, ?_, ?_, ?_⟩
  · rw [isHigh_unicodeEscape hhigh, isHighPoint, decide_eq_true_eq]
    omega
  · rw [isLow_unicodeEscape hhigh, isLowPoint, decide_eq_false_iff_not]
    omega
  · rw [isLow_unicodeEscape hlow, isLowPoint, decide_eq_true_eq]
    omega
  · rw [point_unicodeEscape hhigh, point_unicodeEscape hlow]
    omega

theorem spellings_cons (c : ℕ) (t : Points) : spellings (c :: t) = spellingOf c ++ spellings t :=
  List.flatMap_cons

/-- What a string is spelled with begins with the second half of a pair just where the string
does. -/
theorem exists_spellings_cons {d : ℕ} (hd : d < 0x110000) (rest : Points) :
    ∃ x more, spellings (d :: rest) = x :: more ∧ x.isLow = isLowPoint d := by
  rw [spellings_cons]
  rcases Nat.lt_or_ge d 0x10000 with hsmall | hlarge
  · obtain ⟨s, hs, hspells⟩ := spellingOf_small hsmall
    exact ⟨s, spellings rest, by rw [hs]; rfl, hspells.isLow⟩
  · obtain ⟨u, w, hs, -, hlow, -⟩ := spellingOf_large hlarge hd
    have hpoint : isLowPoint d = false := by
      simp only [isLowPoint, decide_eq_false_iff_not]
      omega
    exact ⟨u, w :: spellings rest, by rw [hs]; rfl, hlow.trans hpoint.symm⟩

theorem decode_pair {u w : Spelling} (rest : List Spelling) (hu : u.isHigh = true)
    (hw : w.isLow = true) : decode (u :: w :: rest) =
      (0x10000 + 0x400 * (u.point - 0xD800) + (w.point - 0xDC00)) :: decode rest := by
  rw [decode, hu, hw]
  rfl

/-- Read back, a string is itself but for its surrogate pairs. -/
theorem decode_spellings (t : Points) (ht : ∀ c ∈ t, c < 0x110000) :
    decode (spellings t) = joined t := by
  induction t using joined.induct with
  | case1 => rfl
  | case2 c =>
    rcases Nat.lt_or_ge c 0x10000 with hsmall | hlarge
    · obtain ⟨s, hs, hspells⟩ := spellingOf_small hsmall
      simp [spellings, hs, decode, joined, hspells.point]
    · obtain ⟨u, w, hs, hu, -, hw, hc⟩ := spellingOf_large hlarge (ht c (by simp))
      rw [spellings_cons, hs]
      simp [spellings, decode_pair _ hu hw, hc, decode, joined]
  | case3 c d rest hpair ih =>
    obtain ⟨hhigh, hlow⟩ := Bool.and_eq_true_iff.mp hpair
    have hc : c < 0x10000 := by
      simp only [isHighPoint, decide_eq_true_eq] at hhigh
      omega
    have hd : d < 0x10000 := by
      simp only [isLowPoint, decide_eq_true_eq] at hlow
      omega
    obtain ⟨u, hu, hspells⟩ := spellingOf_small hc
    obtain ⟨w, hw, hspells'⟩ := spellingOf_small hd
    rw [spellings_cons, spellings_cons, hu, hw, List.singleton_append, List.singleton_append,
      decode_pair _ (hspells.isHigh.trans hhigh) (hspells'.isLow.trans hlow), hspells.point,
      hspells'.point, ih fun e he => ht e (by simp [he]), joined, if_pos hpair]
  | case4 c d rest hpair ih =>
    have hrest := ih fun e he => ht e (List.mem_cons_of_mem c he)
    rcases Nat.lt_or_ge c 0x10000 with hsmall | hlarge
    · obtain ⟨s, hs, hspells⟩ := spellingOf_small hsmall
      obtain ⟨x, more, hx, hlow⟩ := exists_spellings_cons (ht d (by simp)) rest
      rw [spellings_cons, hs, List.singleton_append, joined, if_neg hpair, ← hrest, hx, decode,
        hspells.isHigh, hlow, if_neg hpair, hspells.point]
    · obtain ⟨u, w, hs, hu, -, hw, hc⟩ := spellingOf_large hlarge (ht c (by simp))
      rw [spellings_cons, hs, List.cons_append, List.singleton_append, decode_pair _ hu hw, hc,
        hrest, joined, if_neg hpair]

/-- What `json.dumps` writes is read back, and only up to its end. -/
theorem loads_dumps (t : Str) (rest : Points) :
    loads (dumps t ++ rest) = some (joined t.points, rest) := by
  have hpoints : ∀ c ∈ t.points, c < 0x110000 := by
    intro c hc
    obtain ⟨p, -, rfl⟩ := List.mem_map.mp hc
    exact p.isLt
  have hscan := scanString_spellings t.points rest
  simp only [dumps, quoted, List.cons_append, List.append_assoc, List.nil_append, loads,
    if_pos, hscan, Option.map_some, decode_spellings _ hpoints]

end RoundTrip

section Ascii

/-- Printable ASCII. -/
def Printable (c : ℕ) : Prop := 0x20 ≤ c ∧ c ≤ 0x7E

theorem printable_hexDigit (d : HexDigit) : Printable d.point := by
  unfold HexDigit.point Printable
  have hd := d.value.isLt
  split
  · omega
  · split <;> omega

theorem printable_unicodeEscape (n : ℕ) : ∀ c ∈ (unicodeEscape n).text, Printable c := by
  intro c hc
  simp only [unicodeEscape, Spelling.text, List.mem_cons, List.not_mem_nil, or_false] at hc
  rcases hc with rfl | rfl | rfl | rfl | rfl | rfl
  · exact ⟨by decide, by decide⟩
  · exact ⟨by decide, by decide⟩
  all_goals exact printable_hexDigit _

theorem printable_spellingOf (c : ℕ) : ∀ d ∈ spelled (spellingOf c), Printable d := by
  intro d hd
  unfold spellingOf at hd
  split at hd
  · rename_i e _
    have hescape : ∀ e : Escape, ∀ d ∈ (Spelling.escape e).text, Printable d := by
      intro e
      cases e <;> simp [Spelling.text, Escape.letter, Printable, JsonText.backslash]
    exact hescape e d (by simpa [spelled] using hd)
  · split at hd
    · rename_i hplain
      obtain rfl : d = c := by simpa [spelled, Spelling.text] using hd
      exact ⟨hplain.1.1, hplain.2⟩
    · split at hd
      · exact printable_unicodeEscape c d (by simpa [spelled] using hd)
      · simp only [spelled, List.flatMap_cons, List.flatMap_nil, List.append_nil,
          List.mem_append] at hd
        exact hd.elim (printable_unicodeEscape _ d) (printable_unicodeEscape _ d)

/-- Nothing but printable ASCII is written. -/
theorem printable_dumps (t : Str) : ∀ c ∈ dumps t, Printable c := by
  intro c hc
  simp only [dumps, quoted, List.cons_append, List.mem_cons, List.mem_append, List.not_mem_nil,
    or_false] at hc
  rcases hc with rfl | hc | rfl
  · exact ⟨by decide, by decide⟩
  · simp only [spelled, spellings, List.mem_flatMap] at hc
    obtain ⟨s, ⟨p, -, hs⟩, hc⟩ := hc
    exact printable_spellingOf p c (List.mem_flatMap.mpr ⟨s, hs, hc⟩)
  · exact ⟨by decide, by decide⟩

end Ascii

end VoiceAgent.JsonDumps
