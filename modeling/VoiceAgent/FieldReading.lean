import VoiceAgent.EnvelopeSpeech
import VoiceAgent.JsonFieldDecoding

/-!
The field streamers of a Speaker turn on the JSON text of an envelope. A streamer over characters
searches as the one over their code points does, so it finds the first string of the document
whose key ends as its name.
-/
namespace VoiceAgent.FieldReading

open StreamingEvents ActionEnvelope EnvelopeSpeech JsonText JsonStream JsonStringFieldStreamer

section Codes

def codes (text : Text) : Points := text.map Char.toNat

theorem toNat_injective : Function.Injective Char.toNat :=
  fun _ _ h => Char.ext (UInt32.toNat_inj.mp h)

theorem codes_eq_nil {text : Text} : codes text = [] ↔ text = [] := List.map_eq_nil_iff

theorem codes_dropSpace (text : Text) :
    codes (text.dropWhile Alphabet.isSpace) = (codes text).dropWhile Alphabet.isSpace := by
  rw [codes, codes, List.dropWhile_map]
  rfl

def advanceOf : Advance Char → Advance ℕ
  | .waits phase => .waits phase
  | .opens rest => .opens (codes rest)
  | .again left => .again (codes left)

/-- What a search has come to: its phase, what it keeps and what it emits. -/
def foundOf (r : Phase × Text × Option Text) : Phase × Points × Option Points :=
  (r.1, codes r.2.1, r.2.2.map codes)

end Codes

section Search

/-- A mark is found where its code point is. -/
theorem atQuote_codes (buffer : Text) : atQuote (codes buffer) = advanceOf (atQuote buffer) := by
  rw [atQuote, ← codes_dropSpace, atQuote]
  cases buffer.dropWhile Alphabet.isSpace with
  | nil => rfl
  | cons c rest =>
    by_cases hc : c = '"'
    · subst hc
      rfl
    · have hmark : c.toNat ≠ Alphabet.quote := fun h => hc (toNat_injective h)
      change (if c.toNat = Alphabet.quote then _ else _) =
        advanceOf (if c = Alphabet.quote then _ else _)
      rw [if_neg hmark, if_neg (show c ≠ Alphabet.quote from hc)]
      rfl

theorem atColon_codes (buffer : Text) : atColon (codes buffer) = advanceOf (atColon buffer) := by
  rw [atColon, ← codes_dropSpace, atColon]
  cases buffer.dropWhile Alphabet.isSpace with
  | nil => rfl
  | cons c rest =>
    by_cases hc : c = ':'
    · subst hc
      exact atQuote_codes rest
    · have hmark : c.toNat ≠ Alphabet.colon := fun h => hc (toNat_injective h)
      change (if c.toNat = Alphabet.colon then _ else _) =
        advanceOf (if c = Alphabet.colon then _ else _)
      rw [if_neg hmark, if_neg (show c ≠ Alphabet.colon from hc)]
      rfl

theorem splitFirst_codes (needle buffer : Text) :
    Chunks.splitFirst (codes needle) (codes buffer) =
      (Chunks.splitFirst needle buffer).map (Prod.map codes codes) := by
  induction buffer with
  | nil =>
    by_cases hn : needle = []
    · subst hn
      rfl
    · have hcodes : codes needle ≠ [] := fun h => hn (codes_eq_nil.mp h)
      rw [Chunks.splitFirst, if_neg hn]
      exact if_neg hcodes
  | cons c cs ih =>
    have hcons : codes (c :: cs) = c.toNat :: codes cs := rfl
    have hcodes : codes needle <+: codes (c :: cs) ↔ needle <+: c :: cs :=
      List.prefix_map_iff_of_injective toNat_injective
    rw [hcons] at hcodes ⊢
    rw [Chunks.splitFirst, Chunks.splitFirst]
    by_cases hp : needle <+: c :: cs
    · rw [if_pos hp, if_pos (hcodes.mpr hp)]
      simp [codes, List.map_drop]
    · rw [if_neg hp, if_neg (hcodes.not.mpr hp), ih, Option.map_map, Option.map_map]
      rfl

theorem searchFrom_codes (needle : Text) (fuel : ℕ) (buffer : Text) :
    searchFrom (codes needle) fuel (codes buffer) = foundOf (searchFrom needle fuel buffer) := by
  have hheld : (Chunks.holdBack (codes needle).length (codes buffer)).2 =
      codes (Chunks.holdBack needle.length buffer).2 := by
    simp [Chunks.holdBack, codes, List.map_drop]
  induction fuel generalizing buffer with
  | zero => exact congrArg (fun held => (Phase.search, held, none)) hheld
  | succ fuel ih =>
    rw [searchFrom, searchFrom, splitFirst_codes]
    cases Chunks.splitFirst needle buffer with
    | none => exact congrArg (fun held => (Phase.search, held, none)) hheld
    | some found =>
      dsimp only [Option.map_some, Prod.map_snd]
      rw [atColon_codes]
      cases atColon found.2 with
      | waits phase => rfl
      | opens emitted => rfl
      | again left => exact ih left (by simp [Chunks.holdBack, codes, List.map_drop])

end Search

section Document
variable {T : TextOps} {other : Points → Option ℕ} {fieldName : String}

/-- Inside the string both streamers stand at the same place. -/
structure Keeps (s : FieldStreamer) (s' : JsonStringFieldStreamer ℕ) : Prop where
  escaped : s.escaped = s'.escaped
  remaining : s.unicodeRemaining = s'.unicodeRemaining
  done : s.done = s'.done

variable {s : FieldStreamer} {s' : JsonStringFieldStreamer ℕ}

/-- They move on by the same character, and both put something out or neither does. -/
theorem Keeps.readChar (h : Keeps s s') (chr : Text → Option Char) (chr' : Points → Option ℕ)
    (c : Char) : Keeps (s.readChar chr c).1 (s'.readChar chr' c.toNat).1 ∧
      ((s.readChar chr c).2 = [] ↔ (s'.readChar chr' c.toNat).2 = []) := by
  have hu : c.toNat = letterU ↔ c = 'u' := toNat_injective.eq_iff (b := 'u')
  have hback : c.toNat = backslash ↔ c = '\\' := toNat_injective.eq_iff (b := '\\')
  have hquote : c.toNat = quoteMark ↔ c = '"' := toNat_injective.eq_iff (b := '"')
  obtain ⟨name, phase, buffer, escaped, remaining, digits, done⟩ := s
  obtain ⟨name', phase', buffer', escaped', remaining', digits', done'⟩ := s'
  obtain ⟨rfl, rfl, rfl⟩ := h
  unfold JsonStringFieldStreamer.readChar
  dsimp only
  by_cases hdigits : remaining ≠ 0
  · rw [if_pos hdigits, if_pos hdigits]
    by_cases hlast : remaining = 1
    · rw [if_pos hlast, if_pos hlast]
      refine ⟨⟨rfl, rfl, rfl⟩, ?_⟩
      cases chr (digits ++ [c]) <;> cases chr' (digits' ++ [c.toNat]) <;> simp
    · rw [if_neg hlast, if_neg hlast]
      exact ⟨⟨rfl, rfl, rfl⟩, by simp⟩
  rw [if_neg hdigits, if_neg hdigits]
  by_cases hesc : escaped = true
  · rw [if_pos hesc, if_pos hesc]
    by_cases hc : c = 'u'
    · rw [if_pos (show c = Alphabet.letterU from hc),
        if_pos (show c.toNat = Alphabet.letterU from hu.mpr hc)]
      exact ⟨⟨rfl, rfl, rfl⟩, by simp⟩
    · rw [if_neg (show c ≠ Alphabet.letterU from hc),
        if_neg (show c.toNat ≠ Alphabet.letterU from fun h => hc (hu.mp h))]
      exact ⟨⟨rfl, rfl, rfl⟩, by simp⟩
  rw [if_neg hesc, if_neg hesc]
  by_cases hc : c = '\\'
  · rw [if_pos (show c = Alphabet.backslash from hc),
      if_pos (show c.toNat = Alphabet.backslash from hback.mpr hc)]
    exact ⟨⟨rfl, rfl, rfl⟩, by simp⟩
  rw [if_neg (show c ≠ Alphabet.backslash from hc),
    if_neg (show c.toNat ≠ Alphabet.backslash from fun h => hc (hback.mp h))]
  by_cases hq : c = '"'
  · rw [if_pos (show c = Alphabet.quote from hq),
      if_pos (show c.toNat = Alphabet.quote from hquote.mpr hq)]
    exact ⟨⟨rfl, rfl, rfl⟩, by simp⟩
  · rw [if_neg (show c ≠ Alphabet.quote from hq),
      if_neg (show c.toNat ≠ Alphabet.quote from fun h => hq (hquote.mp h))]
    exact ⟨⟨rfl, rfl, rfl⟩, by simp⟩

theorem Keeps.consume (h : Keeps s s') (chr : Text → Option Char) (chr' : Points → Option ℕ)
    (text : Text) : Keeps (s.consume chr text).1 (s'.consume chr' (codes text)).1 ∧
      ((s.consume chr text).2 = [] ↔ (s'.consume chr' (codes text)).2 = []) := by
  induction text generalizing s s' with
  | nil => exact ⟨h, by simp [JsonStringFieldStreamer.consume, codes]⟩
  | cons c rest ih =>
    obtain ⟨hread, hout⟩ := h.readChar chr chr' c
    obtain ⟨hrest, hmore⟩ := ih hread
    have hcodes : codes (c :: rest) = c.toNat :: codes rest := rfl
    rw [hcodes, JsonStringFieldStreamer.consume, JsonStringFieldStreamer.consume, ← h.done]
    by_cases hd : s.done = true
    · rw [if_pos hd, if_pos hd]
      exact ⟨h, by simp⟩
    · rw [if_neg hd, if_neg hd]
      refine ⟨hrest, ?_⟩
      rw [List.append_eq_nil_iff, List.append_eq_nil_iff, hout, hmore]

theorem codes_needle (fieldName : String) :
    codes (needleOf (FieldStreamer.of fieldName).fieldName) = needleOf (points fieldName) := by
  simp [FieldStreamer.of, codes, needleOf, points]
  rfl

theorem landing_codes (fieldName : String) (text : Text) :
    JsonFieldDecoding.landing (needleOf (points fieldName)) (codes text) =
      ((search (needleOf (FieldStreamer.of fieldName).fieldName) text).2.2).map codes := by
  have hlen : (codes text).length = text.length := List.length_map _
  rw [JsonFieldDecoding.landing, search, hlen, ← codes_needle, searchFrom_codes]
  rfl

theorem feed_of (T : TextOps) (fieldName : String) {text : Text} (htext : text ≠ []) :
    (FieldStreamer.of fieldName).feed T.chr text =
      (FieldStreamer.of fieldName).readOn T.chr
        (search (needleOf (FieldStreamer.of fieldName).fieldName) text) :=
  feed_search (by simp [FieldStreamer.of]) (by simp [FieldStreamer.of]) htext

/-- A text in which the scan finds a string: the streamer reads all of it. -/
theorem feed_of_landing (T : TextOps) {text : Text} {spelling : List Spelling} {after : Points}
    (h : JsonFieldDecoding.landing (needleOf (points fieldName)) (codes text) =
      some (spelled spelling ++ quoteMark :: after)) :
    ((FieldStreamer.of fieldName).feed T.chr text).1.done = true ∧
      (((FieldStreamer.of fieldName).feed T.chr text).2 = [] ↔ spelling = []) := by
  have htext : text ≠ [] := by
    rintro rfl
    rw [codes_eq_nil.mpr rfl, JsonFieldDecoding.landing_nil (needleOf_ne_nil _)] at h
    cases h
  rw [landing_codes, Option.map_eq_some_iff] at h
  obtain ⟨emitted, hemitted, hcodes⟩ := h
  have hready : JsonFieldDecoding.Ready { fieldName := [], phase := .inString } :=
    ⟨rfl, rfl, rfl, rfl⟩
  have hread : JsonFieldDecoding.readout (fun _ => none) { fieldName := [], phase := .inString }
      (spelled spelling ++ quoteMark :: after) = (spelling.map Spelling.point, true) :=
    JsonFieldDecoding.readout_spelled hready spelling after
  rw [feed_of T fieldName htext]
  generalize search (needleOf (FieldStreamer.of fieldName).fieldName) text = r at hemitted
  obtain ⟨phase, buffer, found⟩ := r
  obtain rfl : found = some emitted := hemitted
  have hkeeps : Keeps { FieldStreamer.of fieldName with phase := phase, buffer := buffer }
      { fieldName := [], phase := .inString } := ⟨rfl, rfl, rfl⟩
  obtain ⟨hstate, hout⟩ := hkeeps.consume T.chr (chrOfHex fun _ => none) emitted
  rw [hcodes] at hstate hout
  obtain ⟨hpoints, hdone⟩ := Prod.mk.inj hread
  refine ⟨hstate.done.trans hdone, hout.trans ?_⟩
  rw [hpoints, List.map_eq_nil_iff]

/-- A text in which the scan finds none. -/
theorem feed_of_no_landing (T : TextOps) {text : Text}
    (h : JsonFieldDecoding.landing (needleOf (points fieldName)) (codes text) = none) :
    ((FieldStreamer.of fieldName).feed T.chr text).1.phase ≠ .inString := by
  by_cases htext : text = []
  · rw [htext, feed_nil]
    simp [FieldStreamer.of]
  rw [landing_codes, Option.map_eq_none_iff] at h
  have hphase := advanceToString_phase (needleOf (FieldStreamer.of fieldName).fieldName)
    .search text
  rw [advanceToString, h] at hphase
  rw [feed_of T fieldName htext]
  generalize search (needleOf (FieldStreamer.of fieldName).fieldName) text = r at h hphase ⊢
  obtain ⟨phase, buffer, found⟩ := r
  obtain rfl : found = none := h
  have hsearch : phase ≠ .inString := by simpa using hphase
  exact hsearch

end Document

section Order

open JsonFieldDecoding

def actionName : Points := points "turn_action"

def responseName : Points := points "response"

theorem plain_action : Plain actionName where
  quote := by decide +kernel
  backslash := by decide +kernel
  colon := by decide +kernel
  comma := by decide +kernel

theorem plain_response : Plain responseName where
  quote := by decide +kernel
  backslash := by decide +kernel
  colon := by decide +kernel
  comma := by decide +kernel

/-- The first string under the name in a member itself. -/
def ownString (f : Points) (key : List Spelling) (v : Value) : Option (List Spelling) :=
  (if EndsAs f key then stringOf v else none).or (firstIn f v)

/-- The action is a string member, and the first string named as the response comes after it. -/
inductive ActionFirst (response : List Spelling) : Members → Prop
  | here {before : List Blank} {key : List Spelling} {afterKey beforeValue : List Blank}
      {action : List Spelling} {after : List Blank} {rest : Members}
      (hkey : EndsAs actionName key) (hresponse :
        firstMember responseName rest = some response) :
      ActionFirst response (.cons before key afterKey beforeValue (.str action) after rest)
  | later {before : List Blank} {key : List Spelling} {afterKey beforeValue : List Blank}
      {v : Value} {after : List Blank} {rest : Members}
      (haction : ownString actionName key v = none)
      (hresponse : ownString responseName key v = none) (h : ActionFirst response rest) :
      ActionFirst response (.cons before key afterKey beforeValue v after rest)

variable {f : Points} {s : List Spelling} {members : Members}

theorem firstMember_cons (f : Points) (before : List Blank) (key : List Spelling)
    (afterKey beforeValue : List Blank) (v : Value) (after : List Blank) (rest : Members) :
    firstMember f (.cons before key afterKey beforeValue v after rest) =
      (ownString f key v).or (firstMember f rest) := by
  rw [firstMember, ownString, Option.or_assoc]

theorem ownString_action {key : List Spelling} (hkey : EndsAs actionName key)
    (action : List Spelling) :
    ownString actionName key (.str action) = some action ∧
      ownString responseName key (.str action) = none := by
  have hother : ¬ EndsAs responseName key := by
    intro h
    have hsame : actionName = responseName := Eq.trans (Eq.symm hkey) h
    exact absurd hsame (by decide +kernel)
  refine ⟨?_, ?_⟩
  · rw [ownString, if_pos hkey]
    rfl
  · rw [ownString, if_neg hother]
    rfl

theorem ActionFirst.response (h : ActionFirst s members) :
    firstMember responseName members = some s := by
  induction h with
  | here hkey hresponse =>
    rw [firstMember_cons, (ownString_action hkey _).2, hresponse]
    rfl
  | later haction hresponse h ih =>
    rw [firstMember_cons, hresponse, ih]
    rfl

/-- The members up to the quote that closes the action. -/
theorem ActionFirst.cut (h : ActionFirst s members) :
    ∃ cut more, cut ≠ Members.nil ∧ members.text = cut.text ++ more ∧
      (∃ action, firstMember actionName cut = some action) ∧
      firstMember responseName cut = none := by
  induction h with
  | @here before key afterKey beforeValue action after rest hkey hresponse =>
    obtain ⟨hown, hother⟩ := ownString_action hkey action
    have hcut : ∃ more,
        (Members.cons before key afterKey beforeValue (.str action) after rest).text =
          (Members.cons before key afterKey beforeValue (.str action) [] .nil).text ++ more := by
      cases rest with
      | nil => exact ⟨blanks after, by simp [Members.text, blanks]⟩
      | cons before' key' afterKey' beforeValue' v' after' rest' =>
        exact ⟨blanks after ++ commaMark ::
          (Members.cons before' key' afterKey' beforeValue' v' after' rest').text,
          by rw [Members.text]; simp [Members.text, blanks]⟩
    obtain ⟨more, hmore⟩ := hcut
    refine ⟨_, more, Members.noConfusion, hmore, ⟨action, ?_⟩, ?_⟩
    · rw [firstMember_cons, hown]
      rfl
    · rw [firstMember_cons, hother]
      rfl
  | @later before key afterKey beforeValue v after rest haction hresponse h ih =>
    obtain ⟨cut, more, hcut, htext, ⟨action, haction'⟩, hnone⟩ := ih
    refine ⟨.cons before key afterKey beforeValue v after cut, more, Members.noConfusion, ?_,
      ⟨action, ?_⟩, ?_⟩
    · cases h <;> cases cut <;> simp_all [Members.text]
    · rw [firstMember_cons, haction, haction']
      rfl
    · rw [firstMember_cons, hresponse, hnone]
      rfl

/-- The envelope's text up to the quote that closes the action: there the action is read, and of
the response nothing. -/
theorem read_in_order (T : TextOps) {d : ObjectText} {text : Text} (htext : codes text = d.text)
    (h : ActionFirst s d.members) :
    (∃ upTo more, text = upTo ++ more ∧
      ((FieldStreamer.of "turn_action").feed T.chr upTo).1.done = true ∧
      ((FieldStreamer.of "response").feed T.chr upTo).1.phase ≠ .inString) ∧
    ((FieldStreamer.of "response").feed T.chr text).1.done = true ∧
    (((FieldStreamer.of "response").feed T.chr text).2 = [] ↔ s = []) := by
  obtain ⟨cut, more, hcut, hmore, ⟨action, haction⟩, hnone⟩ := h.cut
  have hopen : quoteMark ∉ blanks d.before ++ 0x7B :: blanks d.lead := by
    rw [List.mem_append, List.mem_cons, not_or, not_or]
    exact ⟨quote_not_mem_blanks _, by decide, quote_not_mem_blanks _⟩
  have hupTo : codes text = (blanks d.before ++ 0x7B :: blanks d.lead) ++ cut.text ++
      (more ++ 0x7D :: blanks d.after) := by
    rw [htext, ObjectText.text, Value.text, hmore]
    simp
  obtain ⟨upTo, rest, hsplit, hcodes, -⟩ := List.map_eq_append_iff.mp hupTo
  have hfinds : ∀ {f : Points}, Plain f → Finds f (codes upTo) [] (firstMember f cut) := by
    intro f hf
    have hmembers := finds_members hf cut follows_nil
    rw [List.append_nil] at hmembers
    rw [codes, hcodes]
    exact hmembers.skip hopen
  have hdocument := lands_document plain_response d
  rw [h.response, ← htext] at hdocument
  obtain ⟨after, hafter⟩ := hdocument
  have hacted := hfinds plain_action
  rw [haction] at hacted
  obtain ⟨after', hafter'⟩ := hacted
  have hwaits := hfinds plain_response
  rw [hnone] at hwaits
  refine ⟨⟨upTo, rest, hsplit, (feed_of_landing T hafter').1, feed_of_no_landing T ?_⟩,
    feed_of_landing T hafter⟩
  exact hwaits.trans (landing_nil (needleOf_ne_nil _))

end Order

end VoiceAgent.FieldReading
