import VoiceAgent.JsonDecoder

/-!
The decoder against the documents. Whatever it reads was written by a document, and every
document is read with what stands after it; so on a text that begins as an object it succeeds
exactly where a document stands at the beginning.
-/
namespace VoiceAgent.JsonDocuments

open JsonText JsonDumps JsonDecoder

section Sound

theorem text_readKey {text left k : Points} (h : readKey text = some (k, left)) :
    ∃ key afterKey lead, decode key = k ∧ text = quoteMark :: spelled key ++ quoteMark ::
      blanks afterKey ++ colonMark :: blanks lead ++ left := by
  cases text with
  | nil => cases h
  | cons c rest =>
    rw [readKey] at h
    split at h
    · next hc =>
      obtain ⟨⟨k', r⟩, hstring, hcolon⟩ := Option.bind_eq_some_iff.mp h
      obtain ⟨key, hkey, hdecode⟩ := text_readString hstring
      dsimp only at hcolon
      split at hcolon
      · cases hcolon
      · next d after hskip =>
        split at hcolon
        · next hd =>
          cases hcolon
          obtain ⟨afterKey, hafter⟩ := exists_blanks hskip
          obtain ⟨lead, hlead, -⟩ := exists_skipBlanks after
          refine ⟨key, afterKey, lead, hdecode, ?_⟩
          rw [hc, hkey, hafter, hd]
          simp only [List.cons_append, List.append_assoc]
          rw [← hlead]
        · cases hcolon
    · cases h

/-- Whatever is read was written by a document, and what is left stands after it. -/
theorem scan_sound (fuel : ℕ) :
    (∀ text v left, scanOnce fuel text = .ok (v, left) →
      ∃ d : Doc, text = d.text ++ left ∧ d.value = some v) ∧
    (∀ text xs left, scanItems fuel text = .ok (xs, left) →
      ∃ els : Elements, text = els.text ++ left ∧ els.value = some xs) ∧
    (∀ text ps left, scanEntries fuel text = .ok (ps, left) →
      ∃ ms : Entries, text = ms.text ++ left ∧ ms.pairs = some ps) := by
  induction fuel with
  | zero =>
    refine ⟨?_, ?_, ?_⟩ <;>
    · intro _ _ _ h
      simp [scanOnce, scanItems, scanEntries] at h
  | succ fuel ih =>
    obtain ⟨ihOnce, ihItems, ihMembers⟩ := ih
    refine ⟨?_, ?_, ?_⟩
    · intro text v left h
      cases text with
      | nil => cases h
      | cons c rest =>
        rw [scanOnce] at h
        split at h
        · next hc =>
          obtain ⟨⟨s, r⟩, hread, heq⟩ := map_eq_ok.mp h
          cases heq
          obtain ⟨u, hu, hdecode⟩ := text_readString (parsed_eq_ok.mp hread)
          exact ⟨.str u, by simp [Doc.text, hc, hu], by rw [Doc.value, hdecode]⟩
        · split at h
          · next hc =>
            split at h
            · cases h
            · next d after hskip =>
              obtain ⟨ws, hws⟩ := exists_blanks hskip
              split at h
              · next hd =>
                cases h
                exact ⟨.emptyArr ws, by simp [Doc.text, hc, hws, hd], rfl⟩
              · obtain ⟨⟨xs, r⟩, hread, heq⟩ := map_eq_ok.mp h
                cases heq
                obtain ⟨els, htext, hvalue⟩ := ihItems _ _ _ hread
                exact ⟨.arr ws els, by simp [Doc.text, hc, hws, htext],
                  by rw [Doc.value, hvalue, Option.map_some]⟩
          · split at h
            · next hc =>
              split at h
              · cases h
              · next d after hskip =>
                obtain ⟨ws, hws⟩ := exists_blanks hskip
                split at h
                · next hd =>
                  cases h
                  exact ⟨.emptyObj ws, by simp [Doc.text, hc, hws, hd], rfl⟩
                · obtain ⟨⟨ps, r⟩, hread, heq⟩ := map_eq_ok.mp h
                  cases heq
                  obtain ⟨ms, htext, hpairs⟩ := ihMembers _ _ _ hread
                  exact ⟨.obj ws ms, by simp [Doc.text, hc, hws, htext],
                    by rw [Doc.value, hpairs, Option.map_some]⟩
            · exact text_readLiteral h
    · intro text xs left h
      rw [scanItems] at h
      obtain ⟨⟨v, r⟩, hread, h⟩ := bind_eq_ok.mp h
      obtain ⟨d, hd, hvalue⟩ := ihOnce _ _ _ hread
      dsimp only at h
      split at h
      · cases h
      · next c after hskip =>
        obtain ⟨ws, hws⟩ := exists_blanks hskip
        split at h
        · next hc =>
          cases h
          exact ⟨.last d ws, by simp [Elements.text, hd, hws, hc],
            by rw [Elements.value, hvalue, Option.map_some]⟩
        · split at h
          · next hc =>
            obtain ⟨⟨more, r'⟩, hmore, heq⟩ := map_eq_ok.mp h
            cases heq
            obtain ⟨els, htext, hels⟩ := ihItems _ _ _ hmore
            obtain ⟨lead, hlead, -⟩ := exists_skipBlanks after
            refine ⟨.more d ws lead els, ?_, ?_⟩
            · rw [hd, hws, hc, hlead, htext]
              simp [Elements.text]
            · rw [Elements.value, hvalue, Option.bind_some, hels, Option.map_some]
          · cases h
    · intro text ps left h
      rw [scanEntries] at h
      obtain ⟨⟨k, r₀⟩, hkey, h⟩ := bind_eq_ok.mp h
      obtain ⟨key, afterKey, lead, hdecode, hkeyText⟩ := text_readKey (parsed_eq_ok.mp hkey)
      obtain ⟨⟨v, r⟩, hread, h⟩ := bind_eq_ok.mp h
      obtain ⟨d, hd, hvalue⟩ := ihOnce _ _ _ hread
      dsimp only at h hd
      split at h
      · cases h
      · next c after hskip =>
        obtain ⟨ws, hws⟩ := exists_blanks hskip
        split at h
        · next hc =>
          cases h
          refine ⟨.last key afterKey lead d ws, ?_, ?_⟩
          · rw [hkeyText, hd, hws, hc]
            simp [Entries.text]
          · rw [Entries.pairs, hvalue, Option.map_some, hdecode]
        · split at h
          · next hc =>
            obtain ⟨⟨more, r'⟩, hmore, heq⟩ := map_eq_ok.mp h
            cases heq
            obtain ⟨ms, htext, hms⟩ := ihMembers _ _ _ hmore
            obtain ⟨next, hnext, -⟩ := exists_skipBlanks after
            refine ⟨.more key afterKey lead d ws next ms, ?_, ?_⟩
            · rw [hkeyText, hd, hws, hc, hnext, htext]
              simp [Entries.text]
            · rw [Entries.pairs, hvalue, Option.bind_some, hms, Option.map_some, hdecode]
          · cases h

end Sound

section Complete

theorem numeral_head (n : Numeral) :
    ∃ c t, n.text = c :: t ∧ (c = 0x2D ∨ ∃ d : Fin 10, c = digit d) := by
  obtain ⟨d, ds, hds⟩ := exists_digits n.whole
  rw [Numeral.text, hds]
  cases n.negative with
  | true => exact ⟨0x2D, _, rfl, .inl rfl⟩
  | false => exact ⟨digit d, _, rfl, .inr ⟨d, rfl⟩⟩

/-- A point at which a literal begins. -/
def StartsLiteral (c : ℕ) : Prop :=
  c ≠ quoteMark ∧ c ≠ openBracket ∧ c ≠ openBrace ∧ c ≠ closeBracket ∧ readBlank c = none ∧
    c ≠ byteOrderMark

instance (c : ℕ) : Decidable (StartsLiteral c) :=
  inferInstanceAs (Decidable (c ≠ quoteMark ∧ c ≠ openBracket ∧ c ≠ openBrace ∧
    c ≠ closeBracket ∧ readBlank c = none ∧ c ≠ byteOrderMark))

theorem constant_head (w : Constant) : ∃ c t, w.text = c :: t ∧ StartsLiteral c := by
  cases w
  · exact ⟨0x6E, points "ull", rfl, by decide⟩
  · exact ⟨0x74, points "rue", rfl, by decide⟩
  · exact ⟨0x66, points "alse", rfl, by decide⟩
  · exact ⟨0x4E, points "aN", rfl, by decide⟩
  · exact ⟨0x49, points "nfinity", rfl, by decide⟩
  · exact ⟨0x2D, points "Infinity", rfl, by decide⟩

theorem numeral_starts (n : Numeral) : ∃ c t, n.text = c :: t ∧ StartsLiteral c := by
  have hdigit : ∀ d : Fin 10, StartsLiteral (digit d) := by decide
  obtain ⟨c, t, htext, rfl | ⟨d, rfl⟩⟩ := numeral_head n
  · exact ⟨_, t, htext, by decide⟩
  · exact ⟨_, t, htext, hdigit d⟩

theorem scanOnce_literal {c : ℕ} (h : StartsLiteral c) (fuel : ℕ) (rest : Points) :
    scanOnce (fuel + 1) (c :: rest) = readLiteral (c :: rest) := by
  rw [scanOnce, if_neg h.1, if_neg h.2.1, if_neg h.2.2.1]

/-- No document begins with a closing bracket, a blank or a byte order mark. -/
theorem doc_head (d : Doc) : ∃ c t, d.text = c :: t ∧ c ≠ closeBracket ∧ readBlank c = none ∧
    c ≠ byteOrderMark := by
  cases d with
  | constant w =>
    obtain ⟨c, t, htext, hc⟩ := constant_head w
    exact ⟨c, t, by rw [Doc.text, htext], hc.2.2.2⟩
  | number n =>
    obtain ⟨c, t, htext, hc⟩ := numeral_starts n
    exact ⟨c, t, by rw [Doc.text, htext], hc.2.2.2⟩
  | str s => exact ⟨quoteMark, _, rfl, by decide, rfl, by decide⟩
  | emptyArr ws => exact ⟨openBracket, _, rfl, by decide, rfl, by decide⟩
  | arr ws items => exact ⟨openBracket, _, rfl, by decide, rfl, by decide⟩
  | emptyObj ws => exact ⟨openBrace, _, rfl, by decide, rfl, by decide⟩
  | obj ws members => exact ⟨openBrace, _, rfl, by decide, rfl, by decide⟩

theorem doc_unblank (d : Doc) (rest : Points) : Unblank (d.text ++ rest) := by
  obtain ⟨c, t, htext, -, hc, -⟩ := doc_head d
  rw [htext]
  intro c' hc'
  cases hc'
  exact hc

theorem elements_head (els : Elements) :
    ∃ c t, els.text = c :: t ∧ c ≠ closeBracket ∧ readBlank c = none := by
  cases els with
  | last v after =>
    obtain ⟨c, t, htext, hc, hblank, -⟩ := doc_head v
    exact ⟨c, _, by rw [Elements.text, htext]; rfl, hc, hblank⟩
  | more v after lead rest =>
    obtain ⟨c, t, htext, hc, hblank, -⟩ := doc_head v
    exact ⟨c, _, by rw [Elements.text, htext]; rfl, hc, hblank⟩

theorem entries_head (ms : Entries) : ∃ t, ms.text = quoteMark :: t := by
  cases ms <;> exact ⟨_, rfl⟩

theorem unblank_cons {c : ℕ} {rest : Points} (h : readBlank c = none) : Unblank (c :: rest) := by
  intro d hd
  cases hd
  exact h

/-- What may stand after a number: a blank, a comma or a closing bracket. -/
theorem unnumbered_cons {c : ℕ} {rest : Points} (hdigit : readDigit c = none) (hpoint : c ≠ 0x2E)
    (hsmall : c ≠ 0x65) (hcapital : c ≠ 0x45) : Unnumbered (c :: rest) where
  digit := undigit_cons hdigit
  point h := hpoint (by simpa using h)
  small h := hsmall (by simpa using h)
  capital h := hcapital (by simpa using h)

theorem unnumbered_blanks (ws : List Blank) {c : ℕ} {rest : Points} (h : Unnumbered (c :: rest)) :
    Unnumbered (blanks ws ++ c :: rest) := by
  cases ws with
  | nil => exact h
  | cons b ws => cases b <;> exact unnumbered_cons rfl (by decide) (by decide) (by decide)

theorem unnumbered_nil : Unnumbered [] where
  digit := by simp [Undigit]
  point := by simp
  small := by simp
  capital := by simp

theorem skipBlanks_cons (ws : List Blank) {c : ℕ} (rest : Points) (h : readBlank c = none) :
    skipBlanks (blanks ws ++ c :: rest) = c :: rest :=
  skipBlanks_blanks ws (unblank_cons h)

theorem readKey_text (key : List Spelling) (afterKey lead : List Blank) {rest : Points}
    (h : Unblank rest) : readKey (quoteMark :: (spelled key ++ quoteMark ::
      (blanks afterKey ++ colonMark :: (blanks lead ++ rest)))) = some (decode key, rest) := by
  rw [readKey, if_pos rfl, readString_spelled, Option.bind_some,
    skipBlanks_cons afterKey _ (by rfl)]
  simp only [if_true, skipBlanks_blanks lead h]

mutual
/-- Every document is read, if no number goes on after it. -/
theorem scanOnce_text : ∀ (d : Doc) {fuel : ℕ} (rest : Points), d.text.length < fuel →
    (∀ n, d = .number n → Unnumbered rest) →
    scanOnce fuel (d.text ++ rest) = (converted d.value).map fun v => (v, rest)
  | _, 0, _, h, _ => absurd h (Nat.not_lt_zero _)
  | .constant w, fuel + 1, rest, _, _ => by
    obtain ⟨c, t, htext, hc⟩ := constant_head w
    have hread := readLiteral_constant w rest
    rw [Doc.text, Doc.value]
    rw [htext, List.cons_append] at hread ⊢
    rw [scanOnce_literal hc, hread]
    rfl
  | .number n, fuel + 1, rest, _, hn => by
    obtain ⟨c, t, htext, hc⟩ := numeral_starts n
    have hread := readLiteral_numeral n (hn n rfl)
    rw [Doc.text, Doc.value]
    rw [htext, List.cons_append] at hread ⊢
    rw [scanOnce_literal hc, hread]
  | .str s, fuel + 1, rest, _, _ => by
    have hassoc : (Doc.str s).text ++ rest = quoteMark :: (spelled s ++ quoteMark :: rest) := by
      simp [Doc.text]
    rw [hassoc, scanOnce, if_pos rfl, readString_spelled]
    rfl
  | .emptyArr ws, fuel + 1, rest, _, _ => by
    have hassoc : (Doc.emptyArr ws).text ++ rest =
        openBracket :: (blanks ws ++ closeBracket :: rest) := by
      simp [Doc.text]
    rw [hassoc, scanOnce, if_neg (by decide), if_pos rfl, skipBlanks_cons ws rest (by rfl)]
    rfl
  | .arr ws items, fuel + 1, rest, h, _ => by
    have hassoc : (Doc.arr ws items).text ++ rest =
        openBracket :: (blanks ws ++ (items.text ++ rest)) := by
      simp [Doc.text]
    obtain ⟨c, t, htext, hc, hblank⟩ := elements_head items
    have hlength : items.text.length < fuel := by
      simp only [Doc.text, List.length_append, List.length_cons] at h
      omega
    have hitems := scanItems_text items rest hlength
    rw [htext, List.cons_append] at hitems
    rw [hassoc, htext, List.cons_append, scanOnce, if_neg (by decide), if_pos rfl,
      skipBlanks_cons ws _ hblank]
    simp only [if_neg hc, hitems, Doc.value]
    cases items.value <;> rfl
  | .emptyObj ws, fuel + 1, rest, _, _ => by
    have hassoc : (Doc.emptyObj ws).text ++ rest =
        openBrace :: (blanks ws ++ closeBrace :: rest) := by
      simp [Doc.text]
    rw [hassoc, scanOnce, if_neg (by decide), if_neg (by decide), if_pos rfl,
      skipBlanks_cons ws rest (by rfl)]
    rfl
  | .obj ws members, fuel + 1, rest, h, _ => by
    have hassoc : (Doc.obj ws members).text ++ rest =
        openBrace :: (blanks ws ++ (members.text ++ rest)) := by
      simp [Doc.text]
    obtain ⟨t, htext⟩ := entries_head members
    have hlength : members.text.length < fuel := by
      simp only [Doc.text, List.length_append, List.length_cons] at h
      omega
    have hmembers := scanEntries_text members rest hlength
    rw [htext, List.cons_append] at hmembers
    rw [hassoc, htext, List.cons_append, scanOnce, if_neg (by decide), if_neg (by decide),
      if_pos rfl, skipBlanks_cons ws _ (by rfl)]
    simp only [if_neg (show quoteMark ≠ closeBrace by decide), hmembers, Doc.value]
    cases members.pairs <;> rfl

theorem scanItems_text : ∀ (els : Elements) {fuel : ℕ} (rest : Points),
    els.text.length < fuel →
    scanItems fuel (els.text ++ rest) = (converted els.value).map fun xs => (xs, rest)
  | _, 0, _, h => absurd h (Nat.not_lt_zero _)
  | .last v after, fuel + 1, rest, h => by
    have hassoc : (Elements.last v after).text ++ rest =
        v.text ++ (blanks after ++ closeBracket :: rest) := by
      simp [Elements.text]
    have hlength : v.text.length < fuel := by
      simp only [Elements.text, List.length_append, List.length_cons] at h
      omega
    have hv := scanOnce_text v (blanks after ++ closeBracket :: rest) hlength
      fun n _ => unnumbered_blanks after
        (unnumbered_cons rfl (by decide) (by decide) (by decide))
    rw [hassoc, scanItems, hv, Elements.value]
    cases v.value with
    | none => rfl
    | some x =>
      simp only [converted_some, map_ok, bind_ok, Option.map_some, skipBlanks_cons after rest
        (show readBlank closeBracket = none by rfl), if_true]
  | .more v after lead els, fuel + 1, rest, h => by
    have hassoc : (Elements.more v after lead els).text ++ rest =
        v.text ++ (blanks after ++ commaMark :: (blanks lead ++ (els.text ++ rest))) := by
      simp [Elements.text]
    have hlength : v.text.length < fuel ∧ els.text.length < fuel := by
      simp only [Elements.text, List.length_append, List.length_cons] at h
      omega
    have hv := scanOnce_text v
      (blanks after ++ commaMark :: (blanks lead ++ (els.text ++ rest))) hlength.1
      fun n _ => unnumbered_blanks after
        (unnumbered_cons rfl (by decide) (by decide) (by decide))
    have hels := scanItems_text els rest hlength.2
    have hunblank : Unblank (els.text ++ rest) := by
      obtain ⟨c, t, htext, -, hblank⟩ := elements_head els
      rw [htext]
      exact unblank_cons hblank
    rw [hassoc, scanItems, hv, Elements.value]
    cases v.value with
    | none => rfl
    | some x =>
      simp only [converted_some, map_ok, bind_ok, Option.bind_some, skipBlanks_cons after _
        (show readBlank commaMark = none by rfl), skipBlanks_blanks lead hunblank, hels,
        if_neg (show commaMark ≠ closeBracket by decide), if_true]
      cases els.value <;> rfl

theorem scanEntries_text : ∀ (ms : Entries) {fuel : ℕ} (rest : Points),
    ms.text.length < fuel →
    scanEntries fuel (ms.text ++ rest) = (converted ms.pairs).map fun ps => (ps, rest)
  | _, 0, _, h => absurd h (Nat.not_lt_zero _)
  | .last key afterKey lead v after, fuel + 1, rest, h => by
    have hassoc : (Entries.last key afterKey lead v after).text ++ rest =
        quoteMark :: (spelled key ++ quoteMark :: (blanks afterKey ++ colonMark ::
          (blanks lead ++ (v.text ++ (blanks after ++ closeBrace :: rest))))) := by
      simp [Entries.text]
    have hlength : v.text.length < fuel := by
      simp only [Entries.text, List.length_append, List.length_cons] at h
      omega
    have hv := scanOnce_text v (blanks after ++ closeBrace :: rest) hlength
      fun n _ => unnumbered_blanks after
        (unnumbered_cons rfl (by decide) (by decide) (by decide))
    rw [hassoc, scanEntries, readKey_text key afterKey lead (doc_unblank v _), parsed_some, bind_ok,
      hv, Entries.pairs]
    cases v.value with
    | none => rfl
    | some x =>
      simp only [converted_some, map_ok, bind_ok, Option.map_some, skipBlanks_cons after rest
        (show readBlank closeBrace = none by rfl), if_true]
  | .more key afterKey lead v after next ms, fuel + 1, rest, h => by
    have hassoc : (Entries.more key afterKey lead v after next ms).text ++ rest =
        quoteMark :: (spelled key ++ quoteMark :: (blanks afterKey ++ colonMark ::
          (blanks lead ++ (v.text ++ (blanks after ++ commaMark ::
            (blanks next ++ (ms.text ++ rest))))))) := by
      simp [Entries.text]
    have hlength : v.text.length < fuel ∧ ms.text.length < fuel := by
      simp only [Entries.text, List.length_append, List.length_cons] at h
      omega
    have hv := scanOnce_text v
      (blanks after ++ commaMark :: (blanks next ++ (ms.text ++ rest))) hlength.1
      fun n _ => unnumbered_blanks after
        (unnumbered_cons rfl (by decide) (by decide) (by decide))
    have hms := scanEntries_text ms rest hlength.2
    have hunblank : Unblank (ms.text ++ rest) := by
      obtain ⟨t, htext⟩ := entries_head ms
      rw [htext]
      exact unblank_cons (by rfl)
    rw [hassoc, scanEntries, readKey_text key afterKey lead (doc_unblank v _), parsed_some, bind_ok,
      hv, Entries.pairs]
    cases v.value with
    | none => rfl
    | some x =>
      simp only [converted_some, map_ok, bind_ok, Option.bind_some, skipBlanks_cons after _
        (show readBlank commaMark = none by rfl), skipBlanks_blanks next hunblank, hms,
        if_neg (show commaMark ≠ closeBrace by decide), if_true]
      cases ms.pairs <;> rfl
end

/-- A document is decoded, with what stands after it, if no number goes on there. -/
theorem rawDecode_text (d : Doc) {rest : Points} (h : ∀ n, d = .number n → Unnumbered rest) :
    rawDecode (d.text ++ rest) = (converted d.value).map fun v => (v, rest) :=
  scanOnce_text d _ (by simp only [List.length_append]; omega) h

theorem doc_ne_number {d : Doc} {t rest : Points} (h : d.text ++ rest = openBrace :: t)
    (n : Numeral) : d ≠ .number n := by
  rintro rfl
  obtain ⟨c, t', htext, hc⟩ := numeral_starts n
  rw [Doc.text, htext, List.cons_append, List.cons.injEq] at h
  exact hc.2.2.1 h.1

/-- A text that begins as an object is decoded exactly where a document stands at its beginning. -/
theorem rawDecode_object {t rest : Points} {v : Datum} :
    rawDecode (openBrace :: t) = .ok (v, rest) ↔
      ∃ d : Doc, openBrace :: t = d.text ++ rest ∧ d.value = some v := by
  constructor
  · exact (scan_sound _).1 _ _ _
  · rintro ⟨d, htext, hvalue⟩
    rw [htext, rawDecode_text d fun n hn => absurd hn (doc_ne_number htext.symm n), hvalue]
    rfl

theorem skipBlanks_only (ws : List Blank) : skipBlanks (blanks ws) = [] := by
  simpa using skipBlanks_blanks ws (by simp [Unblank] : Unblank [])

/-- `json.loads` reads one document between blanks, and nothing else. -/
theorem loadsDocument_eq_ok {text : Points} {v : Datum} : loadsDocument text = .ok v ↔
    ∃ before d after, text = blanks before ++ Doc.text d ++ blanks after ∧ d.value = some v := by
  constructor
  · intro h
    rw [loadsDocument] at h
    split at h
    · cases h
    · obtain ⟨⟨v', rest⟩, hraw, hend⟩ := bind_eq_ok.mp h
      dsimp only at hend
      split at hend
      · next hnil =>
        cases hend
        obtain ⟨before, hbefore, -⟩ := exists_skipBlanks text
        obtain ⟨after, hafter, -⟩ := exists_skipBlanks rest
        rw [hnil, List.append_nil] at hafter
        obtain ⟨d, hd, hvalue⟩ := (scan_sound _).1 _ _ _ hraw
        refine ⟨before, d, after, ?_, hvalue⟩
        rw [List.append_assoc, ← hafter, ← hd]
        exact hbefore
      · cases hend
  · rintro ⟨before, d, after, rfl, hvalue⟩
    have hmark : (blanks before ++ d.text ++ blanks after).head? ≠ some byteOrderMark := by
      cases before with
      | nil =>
        obtain ⟨c, t, htext, -, -, hc⟩ := doc_head d
        rw [htext]
        exact fun hhead => hc (by simpa [blanks] using hhead)
      | cons b ws =>
        cases b <;> simp [blanks, Blank.point, byteOrderMark]
    have hraw : rawDecode (d.text ++ blanks after) = .ok (v, blanks after) := by
      rw [rawDecode_text d, hvalue]
      · rfl
      · intro n _
        cases after with
        | nil => exact unnumbered_nil
        | cons b ws => cases b <;> exact unnumbered_cons rfl (by decide) (by decide) (by decide)
    rw [loadsDocument, if_neg hmark, List.append_assoc,
      skipBlanks_blanks before (doc_unblank d _), hraw, bind_ok, if_pos (skipBlanks_only after)]

end Complete

end VoiceAgent.JsonDocuments
