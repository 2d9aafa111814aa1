import VoiceAgent.JsonFieldDecoding

/-!
The reply of several speakers: chunks of one JSON object whose `reply` string is streamed on
while it arrives, unless the object says that the assistant was not addressed. That is found by
a pattern over all the text so far, the reply's own text among it.
-/
namespace VoiceAgent.ReplyField

open Chunks JsonText JsonStream JsonFieldDecoding

section Model

/-- "...". -/
def silenceReply : Points := points "..."

def addressedToAssistant : Points := points "addressed_to_assistant"

def replyField : Points := points "reply"

/-- `_NOT_ADDRESSED`, less its look-behind, where a match begins. -/
def matchesFlag (text : Points) : Bool :=
  (needleOf addressedToAssistant).isPrefixOf text &&
    match (text.drop (needleOf addressedToAssistant).length).dropWhile isSpace with
    | [] => false
    | c :: rest => c == colonMark && (points "false").isPrefixOf (rest.dropWhile isSpace)

/-- `_NOT_ADDRESSED.search`; `behind` is the character before the text. -/
def notAddressed : Option ℕ → Points → Bool
  | _, [] => false
  | behind, c :: cs =>
    (behind != some backslash && matchesFlag (c :: cs)) || notAddressed (some c) cs

/-- A chunk with its first choice's delta and that delta's content; `rest` is its other data. -/
structure Chunk (α : Type) where
  delta : Option (Option Points)
  rest : α

/-- The locals of `reply_field_chunks`. -/
structure ReplyReader where
  reply : JsonStringFieldStreamer ℕ := { fieldName := replyField }
  raw : Points := []
  isJson : Option Bool := none
  spoke : Bool := false
  silenced : Bool := false

variable (other : Points → Option ℕ) {α : Type}

/-- The end of a turn of the loop, for content of a JSON object. -/
def ReplyReader.extract (r : ReplyReader) (content : Points) : ReplyReader × Option Points :=
  let fed := r.reply.feed (chrOfHex other) content
  let silences := !r.spoke && !r.silenced && notAddressed none r.raw
  let text := if silences then silenceReply else if r.silenced then [] else fed.2
  ({ r with
      reply := fed.1
      silenced := r.silenced || silences
      spoke := r.spoke || decide (text ≠ []) },
    if text = [] then none else some text)

/-- A turn of the loop for a chunk with content, and the content that it leaves with. -/
def ReplyReader.read (r : ReplyReader) (content : Points) : ReplyReader × Option Points :=
  let r := { r with raw := r.raw ++ content }
  match r.isJson with
  | some true => r.extract other content
  | some false => (r, some content)
  | none =>
    if r.raw.dropWhile isSpace = [] then (r, none)
    else if (r.raw.dropWhile isSpace).head? = some openBrace then
      { r with isJson := some true }.extract other r.raw
    else ({ r with isJson := some false }, some r.raw)

/-- `reply_field_chunks`. -/
def replyFieldChunks (r : ReplyReader) : List (Chunk α) → List (Chunk α)
  | [] => []
  | chunk :: chunks =>
    match chunk.delta with
    | some (some content) =>
      if content = [] then chunk :: replyFieldChunks r chunks
      else
        let read := r.read other content
        { chunk with delta := some read.2 } :: replyFieldChunks read.1 chunks
    | _ => chunk :: replyFieldChunks r chunks

def Chunk.content (chunk : Chunk α) : Points := (chunk.delta.join).getD []

/-- The concatenated content. -/
def contents (chunks : List (Chunk α)) : Points := chunks.flatMap Chunk.content

end Model

section Flag
variable {behind : Option ℕ} {text rest x y : Points} {c : ℕ}

theorem isPrefixOf_append {p text : Points} (h : p.isPrefixOf text = true) (more : Points) :
    p.isPrefixOf (text ++ more) = true :=
  List.isPrefixOf_iff_prefix.mpr ((List.isPrefixOf_iff_prefix.mp h).trans (List.prefix_append _ _))

theorem matchesFlag_append (h : matchesFlag text = true) (more : Points) :
    matchesFlag (text ++ more) = true := by
  unfold matchesFlag at h ⊢
  rw [Bool.and_eq_true] at h ⊢
  obtain ⟨hneedle, hflag⟩ := h
  refine ⟨isPrefixOf_append hneedle more, ?_⟩
  have hlen := (List.isPrefixOf_iff_prefix.mp hneedle).length_le
  rw [List.drop_append_of_le_length hlen]
  have hne : (text.drop (needleOf addressedToAssistant).length).dropWhile isSpace ≠ [] := by
    intro hnil
    rw [hnil] at hflag
    cases hflag
  rw [dropWhile_more hne]
  obtain ⟨c, tail, htail⟩ := List.exists_cons_of_ne_nil hne
  rw [htail] at hflag ⊢
  simp only [List.cons_append, Bool.and_eq_true] at hflag ⊢
  refine ⟨hflag.1, ?_⟩
  have hne' : tail.dropWhile isSpace ≠ [] := by
    intro hnil
    rw [hnil] at hflag
    exact absurd hflag.2 (by decide)
  rw [dropWhile_more hne']
  exact isPrefixOf_append hflag.2 more

/-- What has been found stays found when more text arrives. -/
theorem notAddressed_append (h : notAddressed behind text = true) (more : Points) :
    notAddressed behind (text ++ more) = true := by
  induction text generalizing behind with
  | nil => cases h
  | cons c text ih =>
    rw [notAddressed, Bool.or_eq_true, Bool.and_eq_true] at h
    rw [List.cons_append, notAddressed, Bool.or_eq_true, Bool.and_eq_true]
    rcases h with ⟨hbehind, hmatch⟩ | h
    · exact .inl ⟨hbehind, matchesFlag_append hmatch more⟩
    · exact .inr (ih h)

end Flag

section Reading
variable {other : Points → Option ℕ} {α : Type} {r : ReplyReader} {p content done text : Points}

/-- The reply as a streamer decodes it from a text. -/
def decoded (other : Points → Option ℕ) (text : Points) : Points :=
  (JsonStringFieldStreamer.feed (chrOfHex other) { fieldName := replyField } text).2

/-- What is streamed on in place of the object's text. -/
def spokenOf (other : Points → Option ℕ) (text : Points) : Points :=
  if notAddressed none text = true then silenceReply else decoded other text

/-- The reader has fed `p` to its streamer, and `done` has left. -/
structure Streamed (other : Points → Option ℕ) (r : ReplyReader) (p done : Points) : Prop where
  reply : r.reply = (JsonStringFieldStreamer.feed (chrOfHex other) { fieldName := replyField } p).1
  silenced : r.silenced = notAddressed none p
  content : done = spokenOf other p
  spoke : r.spoke = decide (done ≠ [])

theorem streamed_start (h : r.reply = { fieldName := replyField }) (hs : r.silenced = false)
    (hr : r.spoke = false) : Streamed other r [] [] where
  reply := h
  silenced := hs
  content := rfl
  spoke := hr

/-- Step lemma: the flag is found before anything is spoken, or after. -/
theorem Streamed.extract (h : Streamed other r p done) (hraw : r.raw = p ++ content)
    (hearly : notAddressed none p = false → notAddressed none (p ++ content) = true →
      decoded other p = []) :
    Streamed other (r.extract other content).1 (p ++ content)
      (done ++ ((r.extract other content).2).getD []) := by
  have hfeed := feed_additive (chrOfHex other) { fieldName := replyField } p content
  have hleft : ∀ text : Points, (if text = [] then none else some text).getD [] = text := by
    intro text
    split
    · rename_i hnil
      exact hnil.symm
    · rfl
  have hreply : (r.reply.feed (chrOfHex other) content).1 =
      (JsonStringFieldStreamer.feed (chrOfHex other) { fieldName := replyField }
        (p ++ content)).1 := by
    rw [h.reply]
    exact (congrArg Prod.fst hfeed).symm
  have hdecoded : decoded other (p ++ content) =
      decoded other p ++ (r.reply.feed (chrOfHex other) content).2 := by
    rw [h.reply]
    exact congrArg Prod.snd hfeed
  have hspoke := h.spoke
  have hdone := h.content
  unfold ReplyReader.extract
  cases hp : notAddressed none p with
  | true =>
    have hs : r.silenced = true := h.silenced.trans hp
    have hmore := notAddressed_append hp content
    rw [spokenOf, if_pos hp] at hdone
    refine ⟨hreply, ?_, ?_, ?_⟩
    · simp [hs, hmore]
    · simp [hs, spokenOf, hmore, hdone]
    · simp [hs, hspoke]
  | false =>
    have hs : r.silenced = false := h.silenced.trans hp
    rw [spokenOf, if_neg (by simp [hp])] at hdone
    cases hc : notAddressed none (p ++ content) with
    | true =>
      rw [hearly hp hc] at hdone
      have hr : r.spoke = false := by simp [hspoke, hdone]
      have hdots : silenceReply ≠ [] := by decide
      refine ⟨hreply, ?_, ?_, ?_⟩
      · simp [hs, hr, hraw, hc]
      · simp [hs, hr, hraw, hc, hdone, hdots, spokenOf]
      · simp [hs, hr, hraw, hc, hdone, hdots]
    | false =>
      refine ⟨hreply, ?_, ?_, ?_⟩
      · simp [hs, hraw, hc]
      · simp only [hs, hraw, hc, Bool.and_false, Bool.false_eq_true, if_false, hleft]
        rw [spokenOf, if_neg (by simp [hc]), hdecoded, hdone]
      · simp only [hs, hraw, hc, Bool.and_false, Bool.false_eq_true, if_false, hleft, hspoke]
        by_cases hd : done = [] <;> simp [hd]

/-- How far the reader has come: only white space has arrived, or an object, or plain text. -/
inductive Stage (other : Points → Option ℕ) (r : ReplyReader) (done : Points) : Prop
  | waiting (hjson : r.isJson = none) (hraw : r.raw.dropWhile isSpace = []) (hdone : done = [])
      (hreply : r.reply = { fieldName := replyField }) (hspoke : r.spoke = false)
      (hsilenced : r.silenced = false)
  | json (hjson : r.isJson = some true)
      (hraw : (r.raw.dropWhile isSpace).head? = some openBrace)
      (hstreamed : Streamed other r r.raw done)
  | plain (hjson : r.isJson = some false) (hraw : r.raw.dropWhile isSpace ≠ [])
      (hbrace : (r.raw.dropWhile isSpace).head? ≠ some openBrace) (hdone : done = r.raw)

theorem head_more {more : Points} (h : p.dropWhile isSpace ≠ []) :
    ((p ++ more).dropWhile isSpace).head? = (p.dropWhile isSpace).head? := by
  rw [dropWhile_more h]
  obtain ⟨c, rest, hc⟩ := List.exists_cons_of_ne_nil h
  rw [hc]
  rfl

/-- Nothing of the reply is decoded before the flag is found, if it is found at all. -/
def Early (other : Points → Option ℕ) (text : Points) : Prop :=
  notAddressed none text = true → ∀ p, p <+: text → notAddressed none p = false →
    decoded other p = []

/-- Step lemma. -/
theorem Stage.read (h : Stage other r done) (htext : r.raw ++ content <+: text)
    (hearly : (text.dropWhile isSpace).head? = some openBrace → Early other text) :
    Stage other (r.read other content).1 (done ++ ((r.read other content).2).getD []) ∧
      (r.read other content).1.raw = r.raw ++ content := by
  obtain ⟨more, htext⟩ := htext
  have hhead : ((r.raw ++ content).dropWhile isSpace).head? = some openBrace →
      (text.dropWhile isSpace).head? = some openBrace := by
    intro hbrace
    rw [← htext, head_more fun hnil => by simp [hnil] at hbrace]
    exact hbrace
  have hfound : ∀ p, p <+: r.raw ++ content →
      ((r.raw ++ content).dropWhile isSpace).head? = some openBrace →
      notAddressed none p = false → notAddressed none (r.raw ++ content) = true →
        decoded other p = [] := by
    intro p hp hbrace hno hyes
    refine hearly (hhead hbrace) ?_ p (hp.trans ⟨more, htext⟩) hno
    rw [← htext]
    exact notAddressed_append hyes more
  cases h with
  | waiting hjson hraw hdone hreply hspoke hsilenced =>
    unfold ReplyReader.read
    simp only [hjson]
    by_cases hblank : (r.raw ++ content).dropWhile isSpace = []
    · rw [if_pos hblank]
      exact ⟨.waiting rfl hblank (by rw [hdone]; rfl) hreply hspoke hsilenced, rfl⟩
    · rw [if_neg hblank]
      by_cases hbrace : ((r.raw ++ content).dropWhile isSpace).head? = some openBrace
      · rw [if_pos hbrace, hdone]
        have hstart : Streamed other
            { r with raw := r.raw ++ content, isJson := some true } [] [] :=
          streamed_start hreply hsilenced hspoke
        have hstreamed := @Streamed.extract other _ [] (r.raw ++ content) [] hstart rfl
          fun hno hyes => hfound [] List.nil_prefix hbrace hno hyes
        exact ⟨.json rfl hbrace hstreamed, rfl⟩
      · rw [if_neg hbrace]
        exact ⟨.plain rfl hblank hbrace (by rw [hdone]; rfl), rfl⟩
  | json hjson hraw hstreamed =>
    have hne : r.raw.dropWhile isSpace ≠ [] := fun hnil => by simp [hnil] at hraw
    have hbrace : ((r.raw ++ content).dropWhile isSpace).head? = some openBrace :=
      (head_more hne).trans hraw
    unfold ReplyReader.read
    simp only [hjson]
    have hnext : Streamed other { r with raw := r.raw ++ content } r.raw done :=
      ⟨hstreamed.reply, hstreamed.silenced, hstreamed.content, hstreamed.spoke⟩
    have hextract := @Streamed.extract other { r with raw := r.raw ++ content } r.raw content done
      hnext rfl fun hno hyes => hfound r.raw (List.prefix_append _ _) hbrace hno hyes
    rw [← hjson]
    exact ⟨.json hjson hbrace hextract, rfl⟩
  | plain hjson hraw hbrace hdone =>
    unfold ReplyReader.read
    simp only [hjson]
    refine ⟨.plain rfl ?_ ?_ (by rw [hdone]; rfl), trivial⟩
    · intro hnil
      rw [dropWhile_more hraw] at hnil
      exact hraw (List.append_eq_nil_iff.mp hnil).1
    · rw [head_more hraw]
      exact hbrace

/-- Run lemma: what has left, and the text that has arrived. -/
theorem stage_run (chunks : List (Chunk α)) (h : Stage other r done)
    (htext : r.raw ++ contents chunks = text)
    (hearly : (text.dropWhile isSpace).head? = some openBrace → Early other text) :
    ∃ r', Stage other r' (done ++ contents (replyFieldChunks other r chunks)) ∧ r'.raw = text := by
  induction chunks generalizing r done with
  | nil => exact ⟨r, by simpa [replyFieldChunks, contents] using h, by simpa [contents] using htext⟩
  | cons chunk chunks ih =>
    have hcons : ∀ (chunk : Chunk α) chunks, contents (chunk :: chunks) =
        chunk.content ++ contents chunks := fun _ _ => rfl
    rw [hcons] at htext
    rcases chunk with ⟨_ | _ | content, rest⟩
    · exact ih h htext
    · exact ih h htext
    · by_cases hnil : content = []
      · subst hnil
        exact ih h htext
      · have hcontent : (Chunk.mk (some (some content)) rest).content = content := rfl
        rw [hcontent, ← List.append_assoc] at htext
        obtain ⟨hstage, hraw⟩ := h.read ⟨contents chunks, htext⟩ hearly
        rw [← hraw] at htext
        obtain ⟨r', hstage', hraw'⟩ := ih hstage htext
        refine ⟨r', ?_, hraw'⟩
        rw [replyFieldChunks]
        simp only [if_neg hnil, hcons]
        rwa [List.append_assoc] at hstage'

theorem rest_replyFieldChunks (r : ReplyReader) (chunks : List (Chunk α)) :
    (replyFieldChunks other r chunks).map Chunk.rest = chunks.map Chunk.rest := by
  induction chunks generalizing r with
  | nil => rfl
  | cons chunk chunks ih =>
    rcases chunk with ⟨_ | _ | content, rest⟩
    · exact congrArg (rest :: ·) (ih r)
    · exact congrArg (rest :: ·) (ih r)
    · rw [replyFieldChunks]
      dsimp only
      split
      · exact congrArg (rest :: ·) (ih r)
      · exact congrArg (rest :: ·) (ih _)

end Reading

section Objects

/-- A reply object in the order of its schema, with the blanks around its parts. -/
structure ReplyObject where
  before : List Blank
  lead : List Blank
  afterFlagKey : List Blank
  beforeFlag : List Blank
  addressed : Bool
  afterFlag : List Blank
  beforeReplyKey : List Blank
  afterReplyKey : List Blank
  beforeReply : List Blank
  reply : List Spelling
  afterReply : List Blank
  after : List Blank

namespace ReplyObject

/-- Up to the flag. -/
def front (d : ReplyObject) : Points :=
  (blanks d.before ++ openBrace :: blanks d.lead) ++ (needleOf addressedToAssistant ++
    (blanks d.afterFlagKey ++ colonMark :: (blanks d.beforeFlag ++
      if d.addressed then points "true" else points "false")))

/-- What closes the object. -/
def closing (d : ReplyObject) : Points := blanks d.afterReply ++ 0x7D :: blanks d.after

/-- From the flag on. -/
def back (d : ReplyObject) : Points :=
  (blanks d.afterFlag ++ commaMark :: blanks d.beforeReplyKey) ++ (needleOf replyField ++
    (blanks d.afterReplyKey ++ colonMark :: (blanks d.beforeReply ++
      quoteMark :: (spelled d.reply ++ quoteMark :: d.closing))))

def text (d : ReplyObject) : Points := d.front ++ d.back

end ReplyObject

variable {d : ReplyObject} {other : Points → Option ℕ} {rest p text : Points}

theorem quote_not_mem_around (l l' : List Blank) {c : ℕ} (hc : quoteMark ≠ c) :
    quoteMark ∉ blanks l ++ c :: blanks l' := by
  simp only [List.mem_append, List.mem_cons, not_or]
  exact ⟨quote_not_mem_blanks l, hc, quote_not_mem_blanks l'⟩

theorem quote_not_mem_flag (d : ReplyObject) : quoteMark ∉ blanks d.afterFlagKey ++
    colonMark :: (blanks d.beforeFlag ++
      if d.addressed then points "true" else points "false") := by
  have hword : quoteMark ∉ if d.addressed then points "true" else points "false" := by
    cases d.addressed <;> decide
  simp only [List.mem_append, List.mem_cons, not_or]
  exact ⟨quote_not_mem_blanks _, by decide, quote_not_mem_blanks _, hword⟩

theorem plain_replyField : Plain replyField :=
  ⟨by decide, by decide, by decide, by decide⟩

/-- The scan for the reply passes the flag. -/
theorem landing_front (d : ReplyObject) (rest : Points) :
    landing (needleOf replyField) (d.front ++ rest) = landing (needleOf replyField) rest := by
  have hflag : quoteMark ∉ addressedToAssistant := by decide
  have hne : addressedToAssistant ≠ replyField := by decide
  rw [ReplyObject.front, List.append_assoc, landing_skip _ (quote_not_mem_around _ _ (by decide)),
    List.append_assoc, needle_eq, landing_segment plain_replyField hflag hne, landing_gap,
    landing_skip _ (quote_not_mem_flag d)]
  · exact plain_replyField
  · intro _
    rw [List.takeWhile_append_of_pos]
    · exact .inl (by simp)
    · intro c hc
      have hcne : c ≠ quoteMark := by
        rintro rfl
        exact quote_not_mem_flag d hc
      simpa using hcne

theorem landing_text (d : ReplyObject) : landing (needleOf replyField) d.text =
    some (spelled d.reply ++ quoteMark :: d.closing) := by
  rw [ReplyObject.text, landing_front, ReplyObject.back,
    landing_skip _ (quote_not_mem_around _ _ (by decide))]
  refine landing_opens (needleOf_ne_nil _) ?_
  exact ⟨blanks d.afterReplyKey, blanks d.beforeReply, blank_space _, blank_space _, by simp⟩

/-- The streamer decodes the reply one escape at a time. -/
theorem stream_text (other : Points → Option ℕ) (d : ReplyObject) :
    stream other replyField [d.text] = (d.reply.map Spelling.point, true) := by
  rw [stream_iff]
  exact ⟨_, (landing_iff _ _ _).mp (landing_text d), (reads_spelled _ _).mpr rfl⟩

theorem decoded_text (other : Points → Option ℕ) (d : ReplyObject) :
    decoded other d.text = d.reply.map Spelling.point := by
  have hstream := congrArg Prod.fst (stream_text other d)
  simpa [stream, feedAll, decoded] using hstream

/-- Where the scan has not landed, nothing is decoded. -/
theorem decoded_eq_nil (h : landing (needleOf replyField) text = none) :
    decoded other text = [] := by
  rw [landing] at h
  unfold decoded JsonStringFieldStreamer.feed
  split
  · rfl
  · cases hsearch : search (needleOf replyField) text with
    | mk phase found =>
      obtain ⟨buffer, emitted⟩ := found
      rw [hsearch] at h
      obtain rfl : emitted = none := h
      rw [if_neg (by simp), advanceToString, List.nil_append]
      simp only [hsearch, JsonStringFieldStreamer.readOn]

theorem landing_more (h : landing (needleOf replyField) (p ++ rest) = none) :
    landing (needleOf replyField) p = none := by
  rw [landing, search_append (needleOf_ne_nil _)] at h
  rw [landing]
  cases hsearch : search (needleOf replyField) p with
  | mk phase found =>
    obtain ⟨buffer, emitted⟩ := found
    rw [hsearch] at h
    cases emitted with
    | none => rfl
    | some emitted => cases h

/-- Nothing is found, whatever stands before. -/
def Quiet (text : Points) : Prop := ∀ behind, notAddressed behind text = false

theorem quiet_nil : Quiet [] := fun _ => rfl

theorem matchesFlag_of_ne {c : ℕ} (hc : c ≠ quoteMark) (text : Points) :
    matchesFlag (c :: text) = false := by
  have hno : (needleOf addressedToAssistant).isPrefixOf (c :: text) = false := by
    rw [Bool.eq_false_iff]
    intro h
    obtain ⟨tail, htail⟩ := List.isPrefixOf_iff_prefix.mp h
    exact hc (List.cons.inj htail).1.symm
  rw [matchesFlag, hno, Bool.false_and]

theorem quiet_cons {c : ℕ} (hc : c ≠ quoteMark) (h : Quiet rest) : Quiet (c :: rest) := by
  intro behind
  rw [notAddressed, matchesFlag_of_ne hc, Bool.and_false, Bool.false_or]
  exact h _

theorem quiet_skip {x : Points} (hx : quoteMark ∉ x) (h : Quiet rest) : Quiet (x ++ rest) := by
  induction x with
  | nil => exact h
  | cons c x ih =>
    rw [List.mem_cons, not_or] at hx
    exact quiet_cons (Ne.symm hx.1) (ih hx.2)

theorem quiet_quote (hm : matchesFlag (quoteMark :: rest) = false) (h : Quiet rest) :
    Quiet (quoteMark :: rest) := by
  intro behind
  rw [notAddressed, hm, Bool.and_false, Bool.false_or]
  exact h _

/-- A quote with a backslash before it begins no match. -/
theorem quiet_escaped (h : Quiet rest) : Quiet (backslash :: quoteMark :: rest) := by
  intro behind
  rw [notAddressed, matchesFlag_of_ne (by decide), Bool.and_false, Bool.false_or, notAddressed]
  exact h _

/-- The name begins with a letter. -/
theorem matchesFlag_of_head {c : ℕ} (hc : c ≠ 0x61) (text : Points) :
    matchesFlag (quoteMark :: c :: text) = false := by
  have hno : (needleOf addressedToAssistant).isPrefixOf (quoteMark :: c :: text) = false := by
    rw [Bool.eq_false_iff]
    intro h
    obtain ⟨tail, htail⟩ := List.isPrefixOf_iff_prefix.mp h
    exact hc (List.cons.inj (List.cons.inj htail).2).1.symm
  rw [matchesFlag, hno, Bool.false_and]

theorem quiet_spelled (s : List Spelling) (h : Quiet (quoteMark :: rest)) :
    Quiet (spelled s ++ quoteMark :: rest) := by
  induction s with
  | nil => exact h
  | cons u s ih =>
    rw [spelled_cons, List.append_assoc]
    by_cases hu : u = .escape .quote
    · subst hu
      exact quiet_escaped ih
    · exact quiet_skip (quote_not_mem_text hu) ih

/-- Blanks and a mark after a closing quote are no name. -/
theorem matchesFlag_of_blanks (ws : List Blank) {c : ℕ} (hc : c ≠ 0x61) (text : Points) :
    matchesFlag (quoteMark :: (blanks ws ++ c :: text)) = false := by
  cases ws with
  | nil => exact matchesFlag_of_head hc text
  | cons w ws => exact matchesFlag_of_head (by cases w <;> decide) _

/-- A string that is spelled up to a quote has no quote of its own, or a backslash before it. -/
theorem spelled_cut {s : List Spelling} {name tail : Points} (hname : quoteMark ∉ name)
    (hback : backslash ∉ name)
    (h : spelled s ++ quoteMark :: rest = name ++ quoteMark :: tail) : rest = tail := by
  induction s generalizing name with
  | nil =>
    cases name with
    | nil => exact (List.cons.inj h).2
    | cons c name => exact absurd (List.cons.inj h).1 (fun hc => hname (hc ▸ List.mem_cons_self))
  | cons u s ih =>
    rw [spelled_cons, List.append_assoc] at h
    have hescape : ∀ more : Points, backslash :: more ≠ name ++ quoteMark :: tail := by
      intro more heq
      cases name with
      | nil => exact absurd (List.cons.inj heq).1 (by decide)
      | cons c name => exact hback ((List.cons.inj heq).1 ▸ List.mem_cons_self)
    cases u with
    | plain c printable =>
      cases name with
      | nil => exact absurd (List.cons.inj h).1 printable.2.1
      | cons c' name =>
        rw [List.mem_cons, not_or] at hname hback
        exact ih hname.2 hback.2 (List.cons.inj h).2
    | escape e => exact absurd h (hescape _)
    | unicode a b c d => exact absurd h (hescape _)

/-- The flag after its key. -/
theorem matchesFlag_key (ws ws' : List Blank) {c : ℕ} (hc : isSpace c = false) (text : Points) :
    matchesFlag (needleOf addressedToAssistant ++
      (blanks ws ++ colonMark :: (blanks ws' ++ c :: text))) =
        (points "false").isPrefixOf (c :: text) := by
  have hneedle : (needleOf addressedToAssistant).isPrefixOf (needleOf addressedToAssistant ++
      (blanks ws ++ colonMark :: (blanks ws' ++ c :: text))) = true :=
    List.isPrefixOf_iff_prefix.mpr (List.prefix_append _ _)
  rw [matchesFlag, hneedle, List.drop_left, dropWhile_blank (blank_space ws) (by decide)]
  simp only [Bool.true_and, beq_self_eq_true]
  rw [dropWhile_blank (blank_space ws') hc]

/-- The flag is not found in the reply's own text. -/
theorem matchesFlag_reply (d : ReplyObject) :
    matchesFlag (quoteMark :: (spelled d.reply ++ quoteMark :: d.closing)) = false := by
  rw [Bool.eq_false_iff]
  intro h
  have h' := h
  rw [matchesFlag, Bool.and_eq_true] at h'
  obtain ⟨tail, htail⟩ := List.isPrefixOf_iff_prefix.mp h'.1
  rw [needle_eq, List.cons.injEq] at htail
  have hcut : d.closing = tail := spelled_cut (by decide) (by decide) htail.2.symm
  rw [← htail.2, ← hcut, ← needle_eq] at h
  have hneedle : (needleOf addressedToAssistant).isPrefixOf
      (needleOf addressedToAssistant ++ d.closing) = true :=
    List.isPrefixOf_iff_prefix.mpr (List.prefix_append _ _)
  rw [matchesFlag, hneedle, List.drop_left, ReplyObject.closing,
    dropWhile_blank (blank_space _) (by decide)] at h
  exact absurd h (by simp [colonMark])

theorem quiet_back (d : ReplyObject) : Quiet d.back := by
  have hclosing : Quiet d.closing := by
    have hskip := quiet_skip (@quote_not_mem_around d.afterReply d.after 0x7D (by decide)) quiet_nil
    rwa [List.append_nil] at hskip
  have hend : Quiet (quoteMark :: d.closing) :=
    quiet_quote (matchesFlag_of_blanks d.afterReply (by decide) _) hclosing
  have hreply := quiet_quote (matchesFlag_reply d) (quiet_spelled d.reply hend)
  have hcolon : Quiet (blanks d.afterReplyKey ++ colonMark :: (blanks d.beforeReply ++
      quoteMark :: (spelled d.reply ++ quoteMark :: d.closing))) := by
    have hskip := quiet_skip
      (@quote_not_mem_around d.afterReplyKey d.beforeReply colonMark (by decide)) hreply
    rwa [List.append_assoc, List.cons_append] at hskip
  have hkey := quiet_quote (matchesFlag_of_blanks d.afterReplyKey (by decide) _) hcolon
  have hname := quiet_quote (matchesFlag_of_head (by decide) _)
    (quiet_skip (show quoteMark ∉ replyField by decide) hkey)
  rw [ReplyObject.back, needle_eq]
  exact quiet_skip (quote_not_mem_around _ _ (by decide)) hname

theorem quiet_text (hd : d.addressed = true) : Quiet d.text := by
  have hflag := quiet_skip (quote_not_mem_flag d) (quiet_back d)
  rw [hd, List.append_assoc, List.cons_append, List.append_assoc] at hflag
  have hkey := quiet_quote (matchesFlag_of_blanks d.afterFlagKey (by decide) _) hflag
  have hmatch : matchesFlag (quoteMark :: (addressedToAssistant ++ quoteMark ::
      (blanks d.afterFlagKey ++ colonMark :: (blanks d.beforeFlag ++
        (points "true" ++ d.back))))) = false := by
    rw [← needle_eq]
    exact (matchesFlag_key d.afterFlagKey d.beforeFlag (by decide) _).trans rfl
  have hname := quiet_quote hmatch
    (quiet_skip (show quoteMark ∉ addressedToAssistant by decide) hkey)
  rw [← needle_eq] at hname
  have hfront := quiet_skip
    (@quote_not_mem_around d.before d.lead openBrace (by decide)) hname
  simpa [ReplyObject.text, ReplyObject.front, hd] using hfront

theorem notAddressed_found {x y : Points} {behind : Option ℕ}
    (hbehind : x.getLast?.or behind ≠ some backslash) (h : matchesFlag y = true) :
    notAddressed behind (x ++ y) = true := by
  induction x generalizing behind with
  | nil =>
    cases y with
    | nil => cases h
    | cons c y =>
      have hne : (behind != some backslash) = true := by simpa using hbehind
      rw [List.nil_append, notAddressed, h, hne]
      rfl
  | cons c x ih =>
    rw [List.cons_append, notAddressed, Bool.or_eq_true]
    refine .inr (ih ?_)
    cases x with
    | nil => simpa using hbehind
    | cons c' x =>
      have hlast : (c' :: x).getLast? = some ((c' :: x).getLast (List.cons_ne_nil c' x)) :=
        List.getLast?_eq_some_getLast _
      rw [List.getLast?_cons_cons, hlast, Option.some_or] at hbehind
      rwa [hlast, Option.some_or]

theorem notAddressed_front (hd : d.addressed = false) : notAddressed none d.front = true := by
  rw [ReplyObject.front, hd]
  refine notAddressed_found ?_ ?_
  · rw [Option.or_none]
    intro hlast
    have hblank : ∀ ws : List Blank, backslash ∉ blanks ws := fun ws hmem =>
      absurd (blank_space ws _ hmem) (by decide)
    rcases List.mem_append.mp (List.mem_of_getLast? hlast) with hmem | hmem
    · exact hblank _ hmem
    · rcases List.mem_cons.mp hmem with hbrace | hmem
      · exact absurd hbrace (by decide)
      · exact hblank _ hmem
  · exact (matchesFlag_key d.afterFlagKey d.beforeFlag (by decide) _).trans (by decide)

/-- The flag comes before the reply. -/
theorem early_text (other : Points → Option ℕ) (d : ReplyObject) : Early other d.text := by
  intro hyes p hp hno
  cases hd : d.addressed with
  | true => exact absurd hyes (by rw [quiet_text hd]; simp)
  | false =>
    rcases List.prefix_or_prefix_of_prefix hp (List.prefix_append d.front d.back) with hp | hp
    · obtain ⟨more, hmore⟩ := hp
      refine decoded_eq_nil (@landing_more more p ?_)
      have hfront := landing_front d []
      rw [List.append_nil, landing_nil (needleOf_ne_nil _)] at hfront
      rw [hmore, hfront]
    · obtain ⟨more, hmore⟩ := hp
      have hfound := notAddressed_append (notAddressed_front hd) more
      rw [hmore, hno] at hfound
      cases hfound

theorem head_text (d : ReplyObject) :
    (d.text.dropWhile isSpace).head? = some openBrace := by
  have htext : d.text = blanks d.before ++ openBrace :: (blanks d.lead ++
      (needleOf addressedToAssistant ++ (blanks d.afterFlagKey ++ colonMark ::
        (blanks d.beforeFlag ++ if d.addressed then points "true" else points "false"))) ++
          d.back) := by
    simp [ReplyObject.text, ReplyObject.front]
  rw [htext, dropWhile_blank (blank_space _) (by decide)]
  rfl

theorem spokenOf_text (other : Points → Option ℕ) (d : ReplyObject) : spokenOf other d.text =
    if d.addressed then d.reply.map Spelling.point else silenceReply := by
  cases hd : d.addressed with
  | true =>
    rw [spokenOf, if_neg (by rw [quiet_text hd]; simp), decoded_text]
    rfl
  | false =>
    rw [spokenOf, if_pos]
    · rfl
    · rw [ReplyObject.text]
      exact notAddressed_append (notAddressed_front hd) d.back

end Objects

section Claim
variable (other : Points → Option ℕ) {α : Type} (chunks : List (Chunk α))

/-- What `reply_field_chunks` makes of its stream: of an object the dots, or the reply as a
streamer decodes it from the whole text. -/
structure Extracted : Prop where
  object : ∀ d : ReplyObject, contents chunks = d.text →
    contents (replyFieldChunks other {} chunks) =
      if d.addressed then d.reply.map Spelling.point else silenceReply
  decodes : ∀ d : ReplyObject, stream other replyField [d.text] = (d.reply.map Spelling.point, true)
  plain : ∀ c ≠ openBrace, ((contents chunks).dropWhile isSpace).head? = some c →
    contents (replyFieldChunks other {} chunks) = contents chunks
  length : (replyFieldChunks other {} chunks).length = chunks.length

theorem reply_extracted : Extracted other chunks := by
  have hstart : Stage other {} [] := .waiting rfl rfl rfl rfl rfl rfl
  have hlength := congrArg List.length (@rest_replyFieldChunks other _ {} chunks)
  rw [List.length_map, List.length_map] at hlength
  refine ⟨?_, stream_text other, ?_, hlength⟩
  · intro d hd
    obtain ⟨r, hstage, hraw⟩ := stage_run chunks hstart hd fun _ => early_text other d
    have hhead := head_text d
    rw [← hraw] at hhead
    cases hstage with
    | waiting hjson hblank => simp [hblank] at hhead
    | json hjson hbrace hstreamed =>
      have hcontent := hstreamed.content
      rwa [hraw, spokenOf_text, List.nil_append] at hcontent
    | plain hjson hne hbrace => exact absurd hhead hbrace
  · intro c hc hhead
    have htext : ({} : ReplyReader).raw ++ contents chunks = contents chunks := rfl
    obtain ⟨r, hstage, hraw⟩ := stage_run chunks hstart htext fun hbrace => by
      rw [hhead] at hbrace
      exact absurd (Option.some.inj hbrace) hc
    rw [← hraw] at hhead
    cases hstage with
    | waiting hjson hblank => simp [hblank] at hhead
    | json hjson hbrace =>
      rw [hhead] at hbrace
      exact absurd (Option.some.inj hbrace) hc
    | plain hjson hne hbrace hdone =>
      rw [List.nil_append] at hdone
      rw [hdone, hraw]

end Claim

end VoiceAgent.ReplyField
