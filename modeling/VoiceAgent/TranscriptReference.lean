import VoiceAgent.TranscriptResponse
import VoiceAgent.SpeakerText

/-!
What the extractor of transcripts comes to, as one split of the whole text. The two agree but for
a transcript that is never closed: of such a one the extractor drops the tail that it has held
back for a closing tag.
-/
namespace VoiceAgent.TranscriptReference

open StreamingEvents Chunks TranscriptResponse Extractor

section Blanks
variable {a b : Text}

theorem rstrip_eq_nil_iff : rstrip a = [] ↔ ∀ c ∈ a, isSpace c = true := by
  simp [rstrip, List.dropWhile_eq_nil_iff]

theorem rstrip_append (h : rstrip b ≠ []) : rstrip (a ++ b) = a ++ rstrip b := by
  have hb : b.reverse.dropWhile isSpace ≠ [] := by simpa [rstrip] using h
  unfold rstrip
  rw [List.reverse_append, dropWhile_more hb, List.reverse_append, List.reverse_reverse]

theorem rstrip_append_blank (h : rstrip b = []) : rstrip (a ++ b) = rstrip a := by
  have hb : b.reverse.dropWhile isSpace = [] := by simpa [rstrip] using h
  unfold rstrip
  rw [List.reverse_append, dropWhile_none hb]

theorem length_rstrip_le (a : Text) : (rstrip a).length ≤ a.length := by
  have hle := (List.dropWhile_suffix (l := a.reverse) isSpace).length_le
  simpa [rstrip] using hle

theorem strip_eq_nil_iff : strip a = [] ↔ ∀ c ∈ a, isSpace c = true := by
  unfold strip
  rw [rstrip_eq_nil_iff]
  constructor
  · intro h c hc
    rw [← List.takeWhile_append_dropWhile (p := isSpace) (l := a)] at hc
    rcases List.mem_append.mp hc with hc | hc
    · exact List.mem_takeWhile_imp hc
    · exact h c hc
  · intro h c hc
    exact h c ((List.dropWhile_suffix isSpace).subset hc)

/-- A tail makes no difference to the stripped text exactly if it is blank. -/
theorem strip_append_iff : strip (a ++ b) = strip a ↔ ∀ c ∈ b, isSpace c = true := by
  by_cases ha : a.dropWhile isSpace = []
  · have hblank : strip a = [] := by simp [strip, ha, rstrip]
    have hall : strip (a ++ b) = strip b := by
      unfold strip
      rw [dropWhile_none ha]
    rw [hblank, hall, strip_eq_nil_iff]
  · unfold strip
    rw [dropWhile_more ha, ← rstrip_eq_nil_iff]
    constructor
    · intro h
      by_contra hb
      rw [rstrip_append hb] at h
      have hlen := congrArg List.length h
      rw [List.length_append] at hlen
      have hle := length_rstrip_le (a.dropWhile isSpace)
      have hpos := List.length_pos_of_ne_nil hb
      omega
    · exact rstrip_append_blank

end Blanks

section Reference

def lstrip (text : Text) : Text := text.dropWhile isSpace

/-- The response in what follows the transcript. -/
def referenceResponse (after : Text) : Text :=
  let answer := after.dropWhile isSpace
  if responseOpen <+: answer then
    let body := answer.drop responseOpen.length
    ((splitFirst responseClose body).map Prod.fst).getD body
  else after

/-- The transcript and the response of a whole text. -/
def reference (text : Text) : Text × Text :=
  let opened := text.dropWhile isSpace
  if transcriptOpen <+: opened then
    let body := opened.drop transcriptOpen.length
    match splitFirst transcriptClose body with
    | some (heard, after) => (strip heard, referenceResponse after)
    | none => (strip body, [])
  else ([], text)

/-- What the extractor holds back of a transcript that is never closed. -/
def withheld (text : Text) : Text :=
  let opened := text.dropWhile isSpace
  if transcriptOpen <+: opened then
    let body := opened.drop transcriptOpen.length
    if (splitFirst transcriptClose body).isNone then
      (holdBack (transcriptClose.length - 1) body).2
    else []
  else []

variable {s : Extractor} {text : Text}

theorem tagMatch_partly {a tag : Text} (h : tagMatch a tag = .partly) : ¬tag <+: a := by
  unfold tagMatch at h
  split at h
  · cases h
  · assumption

theorem tagMatch_no' {a tag : Text} (h : tagMatch a tag = .no) : ¬tag <+: a := by
  unfold tagMatch at h
  split at h
  · cases h
  · assumption

/-- A round of a state, and what is flushed after it. -/
def flushed (r : Extractor × Text) : Extractor × Text :=
  (r.1.finalize.1, r.2 ++ r.1.finalize.2)

theorem extract_eq (chunks : List Text) :
    extract chunks = flushed (readDetecting { buffer := chunks.flatten }) := by
  have hfeed : feed {} chunks.flatten = readDetecting { buffer := chunks.flatten } := rfl
  unfold extract flushed
  rw [feedAll_eq feed_additive rfl, hfeed]

theorem whileBuffer_nil {round : Extractor → Extractor × Text} (hb : s.buffer = []) :
    whileBuffer round s = (s, []) := if_pos hb

theorem whileBuffer_cons {round : Extractor → Extractor × Text} (hb : s.buffer ≠ []) :
    whileBuffer round s = round s := if_neg hb

/-- Nothing is flushed of an empty buffer. -/
theorem flushed_nil (hb : s.buffer = []) : (flushed (s, [])).2 = [] := by
  have hout : s.finalize.2 = [] := by
    unfold finalize
    split
    · split <;> rfl
    · rfl
    · exact hb
  simpa [flushed] using hout

theorem flushed_passthrough (hp : s.phase = .passthrough) :
    (flushed (readPassthrough s)).2 = s.buffer := by
  unfold readPassthrough
  by_cases hb : s.buffer = []
  · rw [whileBuffer_nil hb, flushed_nil hb, hb]
  · rw [whileBuffer_cons hb]
    simp [flushed, finalize, hp]

theorem splitFirst_nil {needle : Text} (h : needle ≠ []) : splitFirst needle [] = none := if_neg h

theorem flushed_response (hp : s.phase = .response) :
    (flushed (readResponse s)).2 =
      ((splitFirst responseClose s.buffer).map Prod.fst).getD s.buffer := by
  unfold readResponse
  by_cases hb : s.buffer = []
  · rw [whileBuffer_nil hb, flushed_nil hb, hb, splitFirst_nil (by decide)]
    rfl
  · rw [whileBuffer_cons hb]
    dsimp only
    cases splitFirst responseClose s.buffer with
    | some found => simp [flushed, finalize]
    | none => simp [flushed, finalize, hp, holdBack_eq]

theorem not_prefix_nil {tag : Text} (h : tag ≠ []) : ¬tag <+: [] := by
  simpa using h

theorem flushed_between (hp : s.phase = .between) :
    lstrip (flushed (readBetween s)).2 = lstrip (referenceResponse s.buffer) := by
  have htag : responseOpen ≠ [] := by decide
  unfold readBetween referenceResponse
  by_cases hb : s.buffer = []
  · rw [whileBuffer_nil hb, flushed_nil hb, hb, List.dropWhile_nil, if_neg (not_prefix_nil htag)]
  · rw [whileBuffer_cons hb]
    dsimp only
    by_cases hblank : s.buffer.dropWhile isSpace = []
    · rw [if_pos hblank, hblank, if_neg (not_prefix_nil htag)]
      simp [flushed, finalize, hp, lstrip, hblank]
    · rw [if_neg hblank]
      have hagain : lstrip (s.buffer.dropWhile isSpace) = lstrip s.buffer := by
        simpa [lstrip] using dropWhile_again hblank []
      cases hmatch : tagMatch (s.buffer.dropWhile isSpace) responseOpen with
      | partly =>
        rw [if_neg (tagMatch_partly hmatch)]
        simpa [flushed, finalize, hp] using hagain
      | no =>
        rw [if_neg (tagMatch_no' hmatch)]
        dsimp only
        rw [flushed_passthrough rfl]
        exact hagain
      | full =>
        rw [if_pos (tagMatch_full hmatch)]
        dsimp only
        rw [flushed_response rfl]

/-- The transcript is settled. -/
def Settled (s s' : Extractor) : Prop := s'.transcript = s.transcript ∧ s'.phase ≠ .transcript

theorem Settled.flushed {r : Extractor × Text} (h : Settled s r.1) :
    (flushed r).1.transcript = s.transcript := by
  have hkept : r.1.finalize.1.transcript = r.1.transcript := by
    unfold finalize
    split
    · rename_i hp
      exact absurd hp h.2
    · rfl
    · rfl
  exact hkept.trans h.1

theorem settled_self (hp : s.phase ≠ .transcript) : Settled s s := ⟨rfl, hp⟩

theorem settled_passthrough (hp : s.phase = .passthrough) : Settled s (readPassthrough s).1 := by
  unfold readPassthrough
  by_cases hb : s.buffer = []
  · rw [whileBuffer_nil hb]
    exact settled_self (by simp [hp])
  · rw [whileBuffer_cons hb]
    exact ⟨rfl, by simp [hp]⟩

theorem settled_response (hp : s.phase = .response) : Settled s (readResponse s).1 := by
  unfold readResponse
  by_cases hb : s.buffer = []
  · rw [whileBuffer_nil hb]
    exact settled_self (by simp [hp])
  · rw [whileBuffer_cons hb]
    dsimp only
    cases splitFirst responseClose s.buffer with
    | some found => exact ⟨rfl, by simp⟩
    | none => exact ⟨rfl, by simp [hp]⟩

theorem settled_between (hp : s.phase = .between) : Settled s (readBetween s).1 := by
  unfold readBetween
  by_cases hb : s.buffer = []
  · rw [whileBuffer_nil hb]
    exact settled_self (by simp [hp])
  · rw [whileBuffer_cons hb]
    dsimp only
    split
    · exact ⟨rfl, by simp [hp]⟩
    · cases tagMatch (s.buffer.dropWhile isSpace) responseOpen with
      | partly => exact ⟨rfl, by simp [hp]⟩
      | full => exact settled_response rfl
      | no => exact settled_passthrough rfl

/-- The transcript is closed: it is what stands before its closing tag. -/
theorem flushed_closed {before after : Text} (hheard : s.heard = [])
    (hfound : splitFirst transcriptClose s.buffer = some (before, after)) :
    lstrip (flushed (readTranscript s)).2 = lstrip (referenceResponse after) ∧
      (flushed (readTranscript s)).1.transcript = strip before := by
  have hb : s.buffer ≠ [] := by
    intro hb
    rw [hb, splitFirst_nil (by decide)] at hfound
    cases hfound
  unfold readTranscript
  rw [whileBuffer_cons hb]
  dsimp only
  rw [hfound, hheard]
  exact ⟨flushed_between rfl, (settled_between rfl).flushed⟩

/-- It is not: the transcript is what was not held back for a closing tag. -/
theorem flushed_open (hp : s.phase = .transcript) (hheard : s.heard = [])
    (htranscript : s.transcript = []) (hdone : s.transcriptDone = false)
    (hfound : splitFirst transcriptClose s.buffer = none) :
    (flushed (readTranscript s)).2 = [] ∧ (flushed (readTranscript s)).1.transcript =
      strip (holdBack (transcriptClose.length - 1) s.buffer).1 := by
  unfold readTranscript
  by_cases hb : s.buffer = []
  · rw [whileBuffer_nil hb, flushed_nil hb]
    simp [flushed, finalize, hp, hheard, htranscript, hb, holdBack, strip, rstrip]
  · rw [whileBuffer_cons hb]
    dsimp only
    rw [hfound, hheard]
    dsimp only
    by_cases hheld : (holdBack (transcriptClose.length - 1) s.buffer).1 = []
    · simp [flushed, finalize, hp, hheld, htranscript, strip, rstrip]
    · simp [flushed, finalize, hp, hheld, hdone]

/-- A blank text is kept until the end. -/
theorem flushed_blank (hp : s.phase = .detecting) (hblank : s.buffer.dropWhile isSpace = []) :
    (flushed (readDetecting s)).2 = s.buffer ∧
      (flushed (readDetecting s)).1.transcript = s.transcript := by
  have hread : readDetecting s = (s, []) := by
    unfold readDetecting
    by_cases hb : s.buffer = []
    · exact whileBuffer_nil hb
    · rw [whileBuffer_cons hb]
      exact if_pos hblank
  rw [hread]
  simp [flushed, finalize, hp]

theorem buffer_ne (hblank : s.buffer.dropWhile isSpace ≠ []) : s.buffer ≠ [] := by
  intro hb
  rw [hb] at hblank
  exact hblank rfl

theorem readDetecting_partly (hblank : s.buffer.dropWhile isSpace ≠ [])
    (hmatch : tagMatch (s.buffer.dropWhile isSpace) transcriptOpen = .partly) :
    readDetecting s = (s, []) := by
  unfold readDetecting
  rw [whileBuffer_cons (buffer_ne hblank)]
  dsimp only
  rw [if_neg hblank, hmatch]

theorem readDetecting_no (hblank : s.buffer.dropWhile isSpace ≠ [])
    (hmatch : tagMatch (s.buffer.dropWhile isSpace) transcriptOpen = .no) :
    readDetecting s =
      readPassthrough { s with buffer := s.buffer.dropWhile isSpace, phase := .passthrough } := by
  unfold readDetecting
  rw [whileBuffer_cons (buffer_ne hblank)]
  dsimp only
  rw [if_neg hblank, hmatch]

theorem readDetecting_full (hblank : s.buffer.dropWhile isSpace ≠ [])
    (hmatch : tagMatch (s.buffer.dropWhile isSpace) transcriptOpen = .full) :
    readDetecting s = readTranscript { s with
      buffer := (s.buffer.dropWhile isSpace).drop transcriptOpen.length
      phase := .transcript } := by
  unfold readDetecting
  rw [whileBuffer_cons (buffer_ne hblank)]
  dsimp only
  rw [if_neg hblank, hmatch]

/-- What the extractor lets through and the transcript it ends with are those of the whole text,
up to blanks before the response, exactly if what it holds back of an open transcript is blank. -/
theorem extract_reference (chunks : List Text) :
    (lstrip (extract chunks).2 = lstrip (reference chunks.flatten).2 ∧
      (extract chunks).1.transcript = (reference chunks.flatten).1) ↔
    ∀ c ∈ withheld chunks.flatten, isSpace c = true := by
  rw [extract_eq]
  set text := chunks.flatten
  have hnil : ¬transcriptOpen <+: [] := not_prefix_nil (by decide)
  by_cases hblank : text.dropWhile isSpace = []
  · -- of a blank text all is flushed at the end
    obtain ⟨hout, htranscript⟩ := flushed_blank (s := { buffer := text }) rfl hblank
    simp [reference, withheld, hblank, hnil, hout, htranscript]
  cases hmatch : tagMatch (text.dropWhile isSpace) transcriptOpen with
  | partly =>
    have hopen := tagMatch_partly hmatch
    rw [readDetecting_partly hblank hmatch]
    simp [reference, withheld, hopen, flushed, finalize]
  | no =>
    have hopen := tagMatch_no' hmatch
    have hagain : lstrip (text.dropWhile isSpace) = lstrip text := by
      simpa [lstrip] using dropWhile_again hblank []
    rw [readDetecting_no hblank hmatch, flushed_passthrough rfl,
      (settled_passthrough rfl).flushed]
    simp [reference, withheld, hopen, hagain]
  | full =>
    have hopen := tagMatch_full hmatch
    rw [readDetecting_full hblank hmatch]
    unfold reference withheld
    dsimp only
    rw [if_pos hopen, if_pos hopen]
    set body := (text.dropWhile isSpace).drop transcriptOpen.length
    cases hfound : splitFirst transcriptClose body with
    | some found =>
      obtain ⟨hout, htranscript⟩ := flushed_closed
        (s := { buffer := body, phase := .transcript }) rfl hfound
      simp [hout, htranscript]
    | none =>
      -- only the tail that is held back can make a difference
      obtain ⟨hout, htranscript⟩ := flushed_open
        (s := { buffer := body, phase := .transcript }) rfl rfl rfl rfl hfound
      have hbody := holdBack_eq (transcriptClose.length - 1) body
      have hcut := strip_append_iff (a := (holdBack (transcriptClose.length - 1) body).1)
        (b := (holdBack (transcriptClose.length - 1) body).2)
      rw [hbody, eq_comm] at hcut
      simp [hout, htranscript, hcut]

/-- A transcript that is never closed loses its end. -/
theorem open_transcript_cut :
    (extract ["<transcript>book a ".toList, "flight".toList]).1.transcript = "b".toList ∧
    (reference ["<transcript>book a ".toList, "flight".toList].flatten).1 =
      "book a flight".toList := by
  decide +kernel

end Reference

end VoiceAgent.TranscriptReference
