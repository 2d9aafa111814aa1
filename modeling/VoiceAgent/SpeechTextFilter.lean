import VoiceAgent.StreamingEvents
import VoiceAgent.Sweep

/-!
What the text filter in front of NVIDIA TTS deletes, and the texts of which it leaves no markup.
-/
namespace VoiceAgent.SpeechTextFilter

open StreamingEvents Sweep

/-- `[*{}]`. -/
def isMarker (c : Char) : Bool := c = '*' || c = '{' || c = '}'

/-- `[A-Za-z/!]`, what makes a `<` the start of a tag. -/
def startsTag (c : Char) : Bool := c.isAlpha || c = '/' || c = '!'

/-- `_TTS_RESERVED_CHARACTERS` at a character and the one after it. -/
def ttsReserved (c : Char) (next : Option Char) : Bool :=
  (c = '<' && next.any startsTag) || isMarker c

/-- `NemotronSpeechTextFilter.filter`. -/
def filter (text : Text) : Text := sweep ttsReserved text

/-- A text without markup. -/
structure Speakable (text : Text) : Prop where
  asterisk : '*' ∉ text
  openBrace : '{' ∉ text
  closeBrace : '}' ∉ text
  tag : ∀ pre c post, text = pre ++ '<' :: c :: post → startsTag c = false

/-- Between a `<` and what would make it the start of a tag are only markers, or markers and a
`<`, which goes. -/
def HidesTag (text : Text) : Prop :=
  ∃ pre marks angle c post, text = pre ++ '<' :: (marks ++ angle ++ c :: post) ∧
    (∀ m ∈ marks, isMarker m = true) ∧ (angle = [] ∨ angle = ['<']) ∧ marks ++ angle ≠ [] ∧
      startsTag c = true

section Reserved
variable {c : Char} {next : Option Char}

theorem ttsReserved_of_marker (h : isMarker c = true) : ttsReserved c next = true := by
  simp [ttsReserved, h]

theorem isMarker_angle : isMarker '<' = false := by decide

theorem not_marker_of_startsTag (h : startsTag c = true) : isMarker c = false := by
  by_contra hm
  simp only [isMarker, Bool.or_eq_true, decide_eq_true_eq, Bool.not_eq_false] at hm
  rcases hm with (rfl | rfl) | rfl <;> revert h <;> decide

theorem not_angle_of_startsTag (h : startsTag c = true) : c ≠ '<' := by
  rintro rfl
  revert h
  decide

theorem not_startsTag_of_marker (h : isMarker c = true) : startsTag c = false := by
  by_contra hc
  rw [not_marker_of_startsTag (by simpa using hc)] at h
  cases h

/-- What starts a tag is never deleted itself. -/
theorem ttsReserved_of_startsTag (h : startsTag c = true) : ttsReserved c next = false := by
  simp [ttsReserved, not_angle_of_startsTag h, not_marker_of_startsTag h]

theorem ttsReserved_angle : ttsReserved '<' next = next.any startsTag := by
  simp [ttsReserved, isMarker_angle]

/-- A character that is deleted is a marker, or the `<` of a tag. -/
theorem of_ttsReserved (h : ttsReserved c next = true) :
    isMarker c = true ∨ c = '<' ∧ ∃ d, next = some d ∧ startsTag d = true := by
  simpa [ttsReserved, Option.any_eq_true, or_comm] using h

end Reserved

theorem clean_iff_speakable (text : Text) : Clean ttsReserved text ↔ Speakable text := by
  induction text with
  | nil => exact ⟨fun _ => ⟨by simp, by simp, by simp, by simp⟩, fun _ => trivial⟩
  | cons c cs ih =>
    rw [Clean, ih]
    constructor
    · rintro ⟨hc, hcs⟩
      have hmarker : isMarker c = false := by
        by_contra hm
        rw [ttsReserved_of_marker (by simpa using hm)] at hc
        cases hc
      have hne : ∀ m, isMarker m = true → m ∉ cs → m ∉ c :: cs := by
        rintro m hm hcs (_ | ⟨_, hmem⟩)
        · rw [hm] at hmarker
          cases hmarker
        · exact hcs hmem
      refine ⟨hne _ (by decide) hcs.asterisk, hne _ (by decide) hcs.openBrace,
        hne _ (by decide) hcs.closeBrace, fun pre d post heq => ?_⟩
      cases pre with
      | nil =>
        cases heq
        simpa [ttsReserved_angle] using hc
      | cons e pre =>
        cases heq
        exact hcs.tag pre d post rfl
    · intro h
      refine ⟨?_, ⟨fun hm => h.asterisk (List.mem_cons_of_mem c hm),
        fun hm => h.openBrace (List.mem_cons_of_mem c hm),
        fun hm => h.closeBrace (List.mem_cons_of_mem c hm),
        fun pre d post heq => h.tag (c :: pre) d post (heq ▸ rfl)⟩⟩
      by_contra hc
      rcases of_ttsReserved (by simpa using hc) with hm | ⟨rfl, d, hd, hstarts⟩
      · simp only [isMarker, Bool.or_eq_true, decide_eq_true_eq] at hm
        rcases hm with (rfl | rfl) | rfl
        · exact h.asterisk List.mem_cons_self
        · exact h.openBrace List.mem_cons_self
        · exact h.closeBrace List.mem_cons_self
      · obtain ⟨post, rfl⟩ := List.head?_eq_some_iff.mp hd
        rw [h.tag [] d post rfl] at hstarts
        cases hstarts

/-- What goes before a letter that stays: markers, and perhaps one `<` right before it. -/
theorem exists_marks {mid post : Text} (h : Cleared ttsReserved mid post) :
    ∃ marks angle, mid = marks ++ angle ∧ (∀ m ∈ marks, isMarker m = true) ∧
      (angle = [] ∨ angle = ['<']) := by
  induction mid with
  | nil => exact ⟨[], [], rfl, by simp, .inl rfl⟩
  | cons c mid ih =>
    obtain ⟨marks, angle, rfl, hmarks, hangle⟩ := ih h.2
    rcases of_ttsReserved h.1 with hc | ⟨rfl, d, hd, hstarts⟩
    · exact ⟨c :: marks, angle, rfl, by simpa [hc] using hmarks, hangle⟩
    · -- a letter that is deleted starts no tag, so nothing is left after the `<`
      cases marks with
      | nil =>
        rcases hangle with rfl | rfl
        · exact ⟨[], ['<'], rfl, by simp, .inr rfl⟩
        · cases hd
          exact absurd hstarts (by decide)
      | cons m marks =>
        cases hd
        rw [not_startsTag_of_marker (hmarks d List.mem_cons_self)] at hstarts
        cases hstarts

theorem cleared_marks {marks post : Text} (h : ∀ m ∈ marks, isMarker m = true) :
    Cleared ttsReserved marks post := by
  induction marks with
  | nil => trivial
  | cons m marks ih =>
    exact ⟨ttsReserved_of_marker (h m List.mem_cons_self),
      ih fun n hn => h n (List.mem_cons_of_mem m hn)⟩

theorem cleared_append {mid mid' post : Text} (h : Cleared ttsReserved mid (mid' ++ post))
    (h' : Cleared ttsReserved mid' post) : Cleared ttsReserved (mid ++ mid') post := by
  induction mid with
  | nil => exact h'
  | cons c mid ih => exact ⟨by simpa using h.1, ih h.2⟩

theorem uncovers_iff_hidesTag (text : Text) : Uncovers ttsReserved text ↔ HidesTag text := by
  constructor
  · rintro ⟨pre, c, mid, post, rfl, h⟩
    rcases of_ttsReserved h.drops with hc | ⟨rfl, d, hd, hstarts⟩
    · have hstays := h.stays
      rw [ttsReserved_of_marker hc] at hstays
      cases hstays
    · obtain ⟨post, rfl⟩ := List.head?_eq_some_iff.mp hd
      obtain ⟨marks, angle, rfl, hmarks, hangle⟩ := exists_marks h.cleared
      refine ⟨pre, marks, angle, d, post, rfl, hmarks, hangle, fun hnil => ?_, hstarts⟩
      have hstays := h.stays
      rw [hnil, ttsReserved_angle] at hstays
      simp [hstarts] at hstays
  · rintro ⟨pre, marks, angle, d, post, rfl, hmarks, hangle, hne, hstarts⟩
    refine ⟨pre, '<', marks ++ angle, d :: post, rfl, ?_, ?_, fun c cs heq => ?_, ?_⟩
    · rw [ttsReserved_angle]
      cases marks with
      | nil =>
        obtain rfl := hangle.resolve_left hne
        rfl
      | cons m marks => simpa using not_startsTag_of_marker (hmarks m List.mem_cons_self)
    · refine cleared_append (cleared_marks hmarks) ?_
      rcases hangle with rfl | rfl
      · trivial
      · exact ⟨by simpa [ttsReserved_angle] using hstarts, trivial⟩
    · cases heq
      exact ttsReserved_of_startsTag hstarts
    · simpa [ttsReserved_angle] using hstarts

/-- The filter leaves no markup, and nothing for itself to delete, exactly where no `<` is kept
apart from what starts a tag by characters that it deletes. -/
theorem filter_speakable_iff (text : Text) :
    (Speakable (filter text) ∧ filter (filter text) = filter text) ↔ ¬HidesTag text := by
  rw [← uncovers_iff_hidesTag, ← clean_sweep_iff, ← clean_iff_speakable]
  exact and_iff_left_of_imp sweep_eq_self_iff.mpr

/-- A tag with a marker inside it comes out whole. -/
theorem filter_uncovers_tag :
    filter "<*b>".toList = "<b>".toList ∧
      ¬(Speakable (filter "<*b>".toList) ∧
        filter (filter "<*b>".toList) = filter "<*b>".toList) :=
  ⟨by decide, fun h => absurd h.2 (by decide)⟩

end VoiceAgent.SpeechTextFilter
