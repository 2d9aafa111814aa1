import Mathlib.Data.List.Induction
import VoiceAgent.SpeakerLines

/-!
The messages that are sent in place of a context. Lines that follow each other become one new
message, with the words and the speakers of both; no message that exists is written to.
-/
namespace VoiceAgent.JoinedLines

open StreamingEvents JsonValues SpeakerLines
open Diarization (unwords)
open SpeakerText (speakerWord)

section Adjacent
variable {D : DecimalDigits} {joined messages : List Message} {previous message line : Message}

/-- No two lines follow each other. -/
def Apart (messages : List Message) : Prop :=
  messages.IsChain fun m m' => ¬(m.line.isSome = true ∧ m'.line.isSome = true)

theorem line_eq_some {m : Message} {t : Text} (h : m.line = some t) :
    m.role = some "user".toList ∧ m.content = .text t ∧ (speakerWord ++ [' ']) <+: t := by
  unfold Message.line at h
  split at h
  · rename_i hrole
    split at h
    · rename_i t' hcontent
      split at h
      · rename_i hstart
        cases h
        exact ⟨hrole, hcontent, List.isPrefixOf_iff_prefix.mp hstart⟩
      · cases h
    · cases h
  · cases h

theorem line_of {m : Message} {t : Text} (hrole : m.role = some "user".toList)
    (hcontent : m.content = .text t) (ht : (speakerWord ++ [' ']) <+: t) : m.line = some t := by
  simp [Message.line, hrole, hcontent, List.isPrefixOf_iff_prefix.mpr ht]

theorem joinLines_eq_some (h : joinLines D previous message = some line) :
    ∃ a b, previous.line = some a ∧ message.line = some b ∧
      line = { previous with content := .text (joinTexts D a b) } ∧
      line.line = some (joinTexts D a b) := by
  unfold joinLines at h
  split at h
  · rename_i a b ha hb
    cases h
    obtain ⟨hrole, -, hstart⟩ := line_eq_some ha
    exact ⟨a, b, ha, hb, rfl, line_of hrole rfl (hstart.trans ⟨_, rfl⟩)⟩
  · cases h

theorem joinLines_eq_none (h : joinLines D previous message = none) :
    ¬(previous.line.isSome = true ∧ message.line.isSome = true) := by
  rintro ⟨hp, hm⟩
  obtain ⟨a, ha⟩ := Option.isSome_iff_exists.mp hp
  obtain ⟨b, hb⟩ := Option.isSome_iff_exists.mp hm
  simp [joinLines, ha, hb] at h

/-- A turn of the loop ends the list with a message, or joins it to the last. -/
theorem joinNext_cases (D : DecimalDigits) (joined : List Message) (message : Message) :
    (joinNext D joined message = joined ++ [message] ∧
      ∀ previous ∈ joined.getLast?, joinLines D previous message = none) ∨
    ∃ init previous line, joined = init ++ [previous] ∧
      joinLines D previous message = some line ∧ joinNext D joined message = init ++ [line] := by
  unfold joinNext
  rcases List.eq_nil_or_concat joined with rfl | ⟨init, previous, rfl⟩
  · exact .inl ⟨rfl, by simp⟩
  · rw [List.concat_eq_append, List.getLast?_concat, Option.bind_some, List.dropLast_concat]
    cases hjoin : joinLines D previous message with
    | none => exact .inl ⟨rfl, by simpa using hjoin⟩
    | some line => exact .inr ⟨init, previous, line, rfl, hjoin, rfl⟩

theorem apart_concat : Apart (joined ++ [message]) ↔ Apart joined ∧
    ∀ previous ∈ joined.getLast?, ¬(previous.line.isSome = true ∧ message.line.isSome = true) := by
  simp [Apart, List.isChain_append]

theorem Apart.joinNext (h : Apart joined) : Apart (joinNext D joined message) := by
  obtain ⟨heq, hlast⟩ | ⟨init, previous, line, rfl, hjoin, heq⟩ :=
    joinNext_cases D joined message
  · rw [heq]
    exact apart_concat.mpr ⟨h, fun previous hp => joinLines_eq_none (hlast previous hp)⟩
  · obtain ⟨a, b, ha, -, -, hline⟩ := joinLines_eq_some hjoin
    obtain ⟨hinit, hprevious⟩ := apart_concat.mp h
    rw [heq]
    refine apart_concat.mpr ⟨hinit, fun m hm => ?_⟩
    have hm := hprevious m hm
    rw [ha] at hm
    rwa [hline]

/-- Run lemma. -/
theorem apart_joinMessages (D : DecimalDigits) (messages : List Message) :
    Apart (joinMessages D messages) := by
  unfold joinMessages
  induction messages using List.reverseRecOn with
  | nil => exact List.isChain_nil
  | append_singleton messages m ih =>
    rw [List.foldl_append]
    exact ih.joinNext

/-- What is not a line. -/
def others (messages : List Message) : List Message := messages.filter fun m => m.line.isNone

theorem others_joinMessages (D : DecimalDigits) (messages : List Message) :
    others (joinMessages D messages) = others messages := by
  unfold joinMessages
  induction messages using List.reverseRecOn with
  | nil => rfl
  | append_singleton messages m ih =>
    rw [List.foldl_append, List.foldl_cons, List.foldl_nil]
    generalize List.foldl (joinNext D) [] messages = joined at ih
    obtain ⟨heq, -⟩ | ⟨init, previous, line, rfl, hjoin, heq⟩ := joinNext_cases D joined m
    · rw [heq, others, List.filter_append, ← others, ih, others, others, List.filter_append]
    · obtain ⟨a, b, ha, hb, -, hline⟩ := joinLines_eq_some hjoin
      rw [heq]
      simp only [others, List.filter_append] at ih ⊢
      simpa [hline, hb, ha] using ih

end Adjacent

section Contents
variable (D : DecimalDigits)

/-- A line of runs. -/
def WellFormed (text : Text) : Prop := ∃ runs : List (Run D), runs ≠ [] ∧ text = lineText runs

/-- The last word of a line and the first of the next are one speaker's and shaped like a label. -/
def Clash (a b : Text) : Prop :=
  ∃ p ∈ (readLine D a).getLast?, ∃ q ∈ (readLine D b).head?, p.1 = q.1 ∧ LabelShaped D p.2 q.2

instance (a b : Text) : Decidable (Clash D a b) := inferInstanceAs (Decidable (∃ _ ∈ _, _))

/-- The words of the lines with their speakers, and every other message, in their order. -/
def contents (messages : List Message) : List (Message ⊕ Text × Text) :=
  messages.flatMap fun m => (m.line.map fun t => (readLine D t).map .inr).getD [.inl m]

/-- A line that ends with the word and the speaker that the other ends with. -/
structure EndsAs (a b : Text) : Prop where
  wellFormed : WellFormed D a
  last : (readLine D a).getLast? = (readLine D b).getLast?

variable {D} {a b c : Text}

theorem WellFormed.endsAs (h : WellFormed D a) : EndsAs D a a := ⟨h, rfl⟩

/-- Step lemma. -/
theorem EndsAs.join (h : EndsAs D a b) (hc : WellFormed D c) (hmeet : ¬Clash D b c) :
    readLine D (joinTexts D a c) = readLine D a ++ readLine D c ∧
      EndsAs D (joinTexts D a c) c := by
  obtain ⟨⟨runs, hruns, rfl⟩, hlast⟩ := h
  obtain ⟨runs', hne, rfl⟩ := hc
  obtain ⟨r', runs', rfl⟩ := List.exists_cons_of_ne_nil hne
  obtain ⟨runs, r, rfl⟩ := (List.eq_nil_or_concat runs).resolve_left hruns
  rw [List.concat_eq_append] at *
  have hjoin : WellFormed D (joinTexts D (lineText (runs ++ [r])) (lineText (r' :: runs'))) ∧
      readLine D (joinTexts D (lineText (runs ++ [r])) (lineText (r' :: runs'))) =
        readLine D (lineText (runs ++ [r])) ++ readLine D (lineText (r' :: runs')) := by
    by_cases hr : r.number = r'.number
    · -- the label is dropped, and the words must not make another with those before them
      have hplain : ∀ w ∈ r.words.getLast?, ∀ w' ∈ r'.words.head?, ¬LabelShaped D w w' := by
        intro w hw w' hw' hshape
        refine hmeet ⟨(r.number, w), ?_, (r'.number, w'), ?_, hr, hshape⟩
        · rw [← hlast, readLine_getLast, hw]
          rfl
        · rw [readLine_head, hw']
          rfl
      rw [joinTexts_of_eq hr hplain]
      refine ⟨⟨_, by simp, rfl⟩, ?_⟩
      rw [readLine_lineText (by simp), readLine_lineText hruns, readLine_lineText hne]
      simp [Run.pairs, Run.merge, hr]
    · rw [joinTexts_of_ne hr]
      refine ⟨⟨_, by simp, rfl⟩, ?_⟩
      rw [readLine_lineText (by simp), readLine_lineText hruns, readLine_lineText hne,
        List.flatMap_append]
  refine ⟨hjoin.2, hjoin.1, ?_⟩
  rw [hjoin.2, List.getLast?_append_of_ne_nil _ (readLine_ne hne)]

variable (D)

/-- What was sent and what was given end with lines that end alike, or with no line. -/
def Ending (joined messages : List Message) : Prop :=
  Option.Rel (EndsAs D) (joined.getLast?.bind Message.line) (messages.getLast?.bind Message.line)

/-- No label could be read where two messages meet. -/
def Meeting (messages : List Message) : Prop :=
  messages.IsChain fun m m' => ∀ a ∈ m.line, ∀ c ∈ m'.line, ¬Clash D a c

variable {D} {joined messages : List Message} {m : Message}

theorem contents_append (l l' : List Message) :
    contents D (l ++ l') = contents D l ++ contents D l' := List.flatMap_append

theorem contents_line {m : Message} (h : m.line = some a) :
    contents D [m] = (readLine D a).map .inr := by
  simp [contents, h]

/-- Step lemma. -/
theorem Ending.joinNext (h : Ending D joined messages)
    (hline : ∀ c, m.line = some c → WellFormed D c)
    (hmeet : ∀ b c, messages.getLast?.bind Message.line = some b → m.line = some c → ¬Clash D b c) :
    contents D (joinNext D joined m) = contents D (joined ++ [m]) ∧
      Ending D (joinNext D joined m) (messages ++ [m]) := by
  obtain ⟨heq, hlast⟩ | ⟨init, previous, line, rfl, hjoin, heq⟩ := joinNext_cases D joined m
  · rw [heq]
    refine ⟨rfl, ?_⟩
    rw [Ending, List.getLast?_concat, List.getLast?_concat]
    cases hm : m.line with
    | none => simp [hm]
    | some c => simpa [hm] using Option.Rel.some (hline c hm).endsAs
  · obtain ⟨a, c, ha, hc, -, hjoined⟩ := joinLines_eq_some hjoin
    rw [Ending, List.getLast?_concat, Option.bind_some, ha] at h
    generalize hb : messages.getLast?.bind Message.line = b at h
    cases h with
    | some hends =>
      obtain ⟨hread, hends⟩ := hends.join (hline c hc) (hmeet _ c hb hc)
      rw [heq]
      constructor
      · rw [contents_append, contents_append, contents_append, contents_line hjoined,
          contents_line ha, contents_line hc, hread, List.map_append, List.append_assoc]
      · rw [Ending, List.getLast?_concat, List.getLast?_concat, Option.bind_some,
          Option.bind_some, hjoined, hc]
        exact .some hends

/-- Run lemma. -/
theorem ending_joinMessages (hlines : ∀ m ∈ messages, ∀ c, m.line = some c → WellFormed D c)
    (hmeet : Meeting D messages) :
    contents D (joinMessages D messages) = contents D messages ∧
      Ending D (joinMessages D messages) messages := by
  unfold joinMessages
  induction messages using List.reverseRecOn with
  | nil => exact ⟨rfl, .none⟩
  | append_singleton messages m ih =>
    obtain ⟨hinit, -, hlast⟩ := List.isChain_append.mp hmeet
    obtain ⟨hcontents, hending⟩ :=
      ih (fun m' hm' => hlines m' (List.mem_append_left [m] hm')) hinit
    rw [List.foldl_append, List.foldl_cons, List.foldl_nil]
    obtain ⟨hstep, hending⟩ := hending.joinNext (m := m) (hlines m (by simp)) fun b c hb hc => by
      obtain ⟨m', hm', hb⟩ := Option.bind_eq_some_iff.mp hb
      exact hlast m' hm' m rfl b hb c hc
    exact ⟨by rw [hstep, contents_append, contents_append, hcontents], hending⟩

end Contents

section Dicts
variable {D : DecimalDigits} {s : Sent} {ref : ℕ} {dicts : List Message}

theorem read_grown {s s' : Sent} (h : s.dicts <+: s'.dicts) (href : ref < s.dicts.length) :
    s'.read ref = s.read ref := by
  obtain ⟨more, hmore⟩ := h
  rw [Sent.read, Sent.read, ← hmore, List.getElem?_append_left href]

theorem map_read_grown {s s' : Sent} (h : s.dicts <+: s'.dicts) {refs : List ℕ}
    (hrefs : ∀ ref ∈ refs, ref < s.dicts.length) : refs.map s'.read = refs.map s.read :=
  List.map_congr_left fun ref href => read_grown h (hrefs ref href)

/-- Step lemma: a joined line takes a place of its own. -/
theorem valid_joinNext (h : s.Valid) (href : ref < s.dicts.length) :
    (s.joinNext D ref).Valid ∧ s.dicts <+: (s.joinNext D ref).dicts ∧
      (s.joinNext D ref).values = SpeakerLines.joinNext D s.values (s.read ref) := by
  have hlast : (s.values.getLast?.bind fun previous => joinLines D previous (s.read ref)) =
      s.joined.getLast?.bind fun previous => joinLines D (s.read previous) (s.read ref) := by
    rw [Sent.values, List.getLast?_map, Option.bind_map]
    rfl
  unfold Sent.joinNext SpeakerLines.joinNext
  rw [hlast]
  split
  · rename_i line hline
    have hstart : s.dicts <+: s.dicts ++ [line] := ⟨[line], rfl⟩
    refine ⟨?_, hstart, ?_⟩
    · intro ref' href'
      rw [List.length_append, List.length_singleton]
      rcases List.mem_append.mp href' with href' | href'
      · have := h ref' (List.dropLast_subset _ href')
        omega
      · rw [List.mem_singleton.mp href']
        omega
    · rw [Sent.values, List.map_append, Sent.values, List.map_singleton, ← List.map_dropLast,
        @map_read_grown s ⟨s.dicts ++ [line], _⟩ hstart _ fun ref' href' =>
          h ref' (List.dropLast_subset _ href')]
      simp [Sent.read]
  · refine ⟨?_, List.prefix_refl _, ?_⟩
    · intro ref' href'
      rcases List.mem_append.mp href' with href' | href'
      · exact h ref' href'
      · rwa [List.mem_singleton.mp href']
    · rw [Sent.values, List.map_append]
      rfl

/-- Run lemma. -/
theorem valid_joinBackToBackLines {refs : List ℕ} (hrefs : ∀ ref ∈ refs, ref < dicts.length) :
    (joinBackToBackLines D dicts refs).Valid ∧
      dicts <+: (joinBackToBackLines D dicts refs).dicts ∧
      (joinBackToBackLines D dicts refs).values =
        joinMessages D (refs.map (Sent.mk dicts []).read) := by
  unfold joinBackToBackLines joinMessages
  induction refs using List.reverseRecOn with
  | nil => exact ⟨by simp [Sent.Valid], List.prefix_refl _, rfl⟩
  | append_singleton refs ref ih =>
    obtain ⟨hvalid, hstart, hvalues⟩ := ih fun ref' h => hrefs ref' (List.mem_append_left _ h)
    have href : ref < dicts.length := hrefs ref (by simp)
    rw [List.foldl_append, List.foldl_cons, List.foldl_nil, List.map_append, List.foldl_append,
      ← hvalues]
    generalize List.foldl (Sent.joinNext D) ⟨dicts, []⟩ refs = s at hvalid hstart
    obtain ⟨hvalid', hstart', hvalues'⟩ :=
      valid_joinNext (D := D) hvalid (href.trans_le hstart.length_le)
    refine ⟨hvalid', hstart.trans hstart', ?_⟩
    rw [hvalues', @read_grown ref ⟨dicts, []⟩ s hstart href]
    rfl

/-- Where no two lines follow each other, nothing is joined. -/
theorem joinBackToBackLines_of_apart {refs : List ℕ}
    (h : Apart (refs.map (Sent.mk dicts []).read)) :
    joinBackToBackLines D dicts refs = ⟨dicts, refs⟩ := by
  unfold joinBackToBackLines
  induction refs using List.reverseRecOn with
  | nil => rfl
  | append_singleton refs ref ih =>
    rw [List.map_append, List.map_singleton] at h
    obtain ⟨hinit, hlast⟩ := apart_concat.mp h
    rw [List.foldl_append, ih hinit, List.foldl_cons, List.foldl_nil, Sent.joinNext]
    split
    · rename_i line hline
      obtain ⟨previous, hprevious, hline⟩ := Option.bind_eq_some_iff.mp hline
      obtain ⟨a, c, ha, hc, -, -⟩ := joinLines_eq_some hline
      have hmem : (Sent.mk dicts []).read previous ∈
          (refs.map (Sent.mk dicts []).read).getLast? := by
        rw [List.getLast?_map, hprevious]
        rfl
      exact absurd ⟨Option.isSome_of_eq_some ha, Option.isSome_of_eq_some hc⟩ (hlast _ hmem)
    · rfl

end Dicts

section Claim
variable (D : DecimalDigits) (dicts : List Message) (messages : List (Fin dicts.length))

def refs : List ℕ := messages.map Fin.val

def given : List Message := messages.map dicts.get

/-- What is sent in place of the messages; the messages that were given stand as they were. -/
structure Joined : Prop where
  apart : Apart (joinBackToBackLines D dicts (refs dicts messages)).values
  others : others (joinBackToBackLines D dicts (refs dicts messages)).values =
    others (given dicts messages)
  contents : contents D (joinBackToBackLines D dicts (refs dicts messages)).values =
    contents D (given dicts messages)
  again : joinBackToBackLines D (joinBackToBackLines D dicts (refs dicts messages)).dicts
    (joinBackToBackLines D dicts (refs dicts messages)).joined =
      joinBackToBackLines D dicts (refs dicts messages)
  untouched : dicts <+: (joinBackToBackLines D dicts (refs dicts messages)).dicts

theorem read_refs : (refs dicts messages).map (Sent.mk dicts []).read = given dicts messages := by
  rw [refs, given, List.map_map]
  refine List.map_congr_left fun ref _ => ?_
  simp [Sent.read]

theorem lines_joined
    (hlines : ∀ m ∈ given dicts messages, ∀ t, m.line = some t → WellFormed D t)
    (hmeet : Meeting D (given dicts messages)) : Joined D dicts messages := by
  have hrefs : ∀ ref ∈ refs dicts messages, ref < dicts.length := by
    intro ref href
    obtain ⟨ref, -, rfl⟩ := List.mem_map.mp href
    exact ref.isLt
  obtain ⟨hvalid, hstart, hvalues⟩ := valid_joinBackToBackLines (D := D) hrefs
  rw [read_refs] at hvalues
  have happart : Apart (joinBackToBackLines D dicts (refs dicts messages)).values :=
    hvalues ▸ apart_joinMessages D _
  exact {
    apart := happart
    others := hvalues ▸ others_joinMessages D _
    contents := hvalues ▸ (ending_joinMessages hlines hmeet).1
    again := joinBackToBackLines_of_apart happart
    untouched := hstart }

end Claim

section Examples

/-- The digits of the lines below. -/
def asciiDigits : DecimalDigits := ⟨Char.isDigit, by decide, by decide⟩

def userLine (text : Text) : Message := ⟨some "user".toList, .text text, .nil⟩

/-- "Speaker 1: " and the words. -/
def spoken (words : List Text) (words_ne : words ≠ []) (word : ∀ w ∈ words, w ≠ [] ∧ ' ' ∉ w)
    (plain : Plain asciiDigits words) : Run asciiDigits :=
  have one : ∀ c ∈ ['1'], asciiDigits.isDigit c = true := fun c hc => by
    rw [List.mem_singleton.mp hc]
    decide
  ⟨['1'], words, by decide, one, words_ne, word, plain⟩

def hello : Run asciiDigits := spoken ["hello".toList] (by decide) (by decide) (by decide)

def there : Run asciiDigits := spoken ["there".toList] (by decide) (by decide) (by decide)

theorem line_userLine (r : Run D) (runs : List (Run D)) :
    (userLine (lineText (r :: runs))).line = some (lineText (r :: runs)) := by
  refine line_of rfl rfl ?_
  rw [lineText_cons]
  exact ⟨r.number ++ ':' :: ' ' :: unwords (r.words ++ runs.flatMap Run.tokens), by simp⟩

theorem wellFormed_userLine {r : Run D} {runs : List (Run D)} {t : Text}
    (h : (userLine (lineText (r :: runs))).line = some t) : WellFormed D t := by
  rw [line_userLine] at h
  exact ⟨r :: runs, List.cons_ne_nil r runs, (Option.some.inj h).symm⟩

def reply : Message := ⟨some "assistant".toList, .text "hi".toList, .nil⟩

theorem lines_joined_closed : Joined asciiDigits
    [userLine (lineText [hello]), userLine (lineText [there]), reply] [0, 1, 2] := by
  refine lines_joined asciiDigits _ _ ?_ ?_
  · intro m hm t ht
    simp only [given, List.map_cons, List.map_nil, List.mem_cons, List.not_mem_nil] at hm
    rcases hm with rfl | rfl | rfl | hm
    · exact wellFormed_userLine ht
    · exact wellFormed_userLine ht
    · exact absurd (ht.symm.trans (show reply.line = none by decide)) (by simp)
    · exact hm.elim
  · rw [Meeting]
    decide

/-- "Speaker 1: hello Speaker", before "Speaker 1: 2: yes". -/
def asked : Run asciiDigits :=
  spoken ["hello".toList, "Speaker".toList] (by decide) (by decide) (by decide)

def answered : Run asciiDigits :=
  spoken ["2:".toList, "yes".toList] (by decide) (by decide) (by decide)

theorem joined_line_names_other : ¬∀ (D : DecimalDigits) (dicts : List Message)
    (messages : List (Fin dicts.length)),
    (∀ m ∈ given dicts messages, ∀ t, m.line = some t → WellFormed D t) →
      Joined D dicts messages := by
  intro h
  have hjoined := h asciiDigits [userLine (lineText [asked]), userLine (lineText [answered])]
    [0, 1] fun m hm t ht => by
      simp only [given, List.map_cons, List.map_nil, List.mem_cons, List.not_mem_nil] at hm
      rcases hm with rfl | rfl | hm
      · exact wellFormed_userLine ht
      · exact wellFormed_userLine ht
      · exact hm.elim
  have hcontents := congrArg List.length hjoined.contents
  revert hcontents
  decide

end Examples

end VoiceAgent.JoinedLines
