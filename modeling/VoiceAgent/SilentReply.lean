import VoiceAgent.StreamingEvents

/-!
The filter that keeps silent replies out of text-to-speech. It holds a reply back while its text
is all dots, and releases it in order as soon as that is decided; what becomes of a frame is said
here by the frames around it.
-/
namespace VoiceAgent.SilentReply

open StreamingEvents

section Filter

inductive Kind
  | interruption
  | system
  | responseStart
  | text (text : Text)
  | responseEnd
  | other
  deriving DecidableEq

structure Frame where
  id : ℕ
  kind : Kind
  skipTts : Option Bool := none
  deriving DecidableEq

def Frame.isSystem (f : Frame) : Bool :=
  match f.kind with
  | .interruption | .system => true
  | _ => false

def Frame.setSkipTts (f : Frame) : Frame := { f with skipTts := some true }

/-- `_SILENCE_TEXT.match(text)`. -/
def isSilenceText (text : Text) : Bool := text.all fun c => c = '.' || c = '…' || isSpace c

def isSilenceReply (text : Text) : Bool := strip text ≠ [] && isSilenceText text

inductive Direction
  | downstream
  | upstream
  deriving DecidableEq

/-- `SilentReplyFilter`. -/
structure ReplyFilter where
  held : List Frame := []
  holding : Bool := false
  text : Text := []

/-- `process_frame`, with the frames that it pushes. -/
def ReplyFilter.processFrame (s : ReplyFilter) (frame : Frame) (direction : Direction) :
    ReplyFilter × List Frame :=
  if direction ≠ .downstream then (s, [frame])
  else
    match frame.kind with
    | .interruption => ({}, [frame])
    | .responseStart => ({ held := [frame], holding := true }, s.held)
    | .system => (s, [frame])
    | .text text =>
      if !s.holding then (s, [frame])
      else if isSilenceText (s.text ++ text) then
        ({ s with held := s.held ++ [frame], text := s.text ++ text }, [])
      else ({}, s.held ++ [frame])
    | .responseEnd =>
      if !s.holding then (s, [frame])
      else
        let held := s.held ++ [frame]
        ({}, if isSilenceReply s.text then held.map Frame.setSkipTts else held)
    | .other => if !s.holding then (s, [frame]) else ({}, s.held ++ [frame])

/-- What leaves the filter while downstream frames arrive. -/
def ReplyFilter.run (s : ReplyFilter) : List Frame → List Frame
  | [] => []
  | frame :: frames =>
    (s.processFrame frame .downstream).2 ++ (s.processFrame frame .downstream).1.run frames

def nonSystem (frames : List Frame) : List Frame := frames.filter fun f => !f.isSystem

end Filter

section Fates

/-- A frame that a reply may go on with: text, or a system frame that does not interrupt. -/
def Quiet (f : Frame) : Prop := (∃ text, f.kind = .text text) ∨ f.kind = .system

/-- A text or a system frame. -/
def TextOrSystem (f : Frame) : Prop := (∃ text, f.kind = .text text) ∨ f.isSystem = true

def textOf (f : Frame) : Text :=
  match f.kind with
  | .text text => text
  | _ => []

def replyText (frames : List Frame) : Text := frames.flatMap textOf

/-- A reply that may still turn out to be silent. -/
inductive Waiting : List Frame → Prop
  | mk {start : Frame} {mid : List Frame} (opens : start.kind = .responseStart)
      (quiet : ∀ f ∈ mid, Quiet f) (silent : isSilenceText (replyText mid) = true) :
      Waiting (start :: mid)

/-- A whole reply, with what may stand between its start and its end, that is silent. -/
inductive Silent (Between : Frame → Prop) : List Frame → Prop
  | mk {start finish : Frame} {mid : List Frame} (opens : start.kind = .responseStart)
      (between : ∀ f ∈ mid, Between f) (closes : finish.kind = .responseEnd)
      (silent : isSilenceReply (replyText mid) = true) : Silent Between (start :: (mid ++ [finish]))

/-- Of the frames `pre ++ f :: post`, `f` is held as the sequence ends or an interruption
arrives. -/
def Lost (pre : List Frame) (f : Frame) (post : List Frame) : Prop :=
  ∃ before reply later rest, pre = before ++ reply ∧ post = later ++ rest ∧
    Waiting (reply ++ f :: later) ∧ ∀ g ∈ rest.head?, g.kind = .interruption

/-- Of the frames `pre ++ f :: post`, `f` is one of a silent reply. -/
def InSilentReply (Between : Frame → Prop) (pre : List Frame) (f : Frame) (post : List Frame) :
    Prop :=
  f.isSystem = false ∧ ∃ before reply later rest, pre = before ++ reply ∧ post = later ++ rest ∧
    Silent Between (reply ++ f :: later)

open Classical in
/-- What leaves of a frame. -/
noncomputable def fate (pre : List Frame) (f : Frame) (post : List Frame) : Option Frame :=
  if f.isSystem = true ∨ Lost pre f post then none
  else if InSilentReply Quiet pre f post then some f.setSkipTts
  else some f

/-- What leaves of the frames after `pre`, each once and in their order. -/
noncomputable def leaving (pre : List Frame) : List Frame → List Frame
  | [] => []
  | f :: post => (fate pre f post).toList ++ leaving (pre ++ [f]) post

end Fates

section Replies
variable {f g : Frame} {t u a : List Frame} {text text' : Text}

theorem isSilenceText_append :
    isSilenceText (text ++ text') = (isSilenceText text && isSilenceText text') :=
  List.all_append

theorem isSilenceText_of_reply (h : isSilenceReply text = true) : isSilenceText text = true := by
  simp only [isSilenceReply, Bool.and_eq_true] at h
  exact h.2

theorem replyText_append : replyText (t ++ u) = replyText t ++ replyText u := List.flatMap_append

theorem replyText_of_not_text (h : ∀ text, f.kind ≠ .text text) : replyText [f] = [] := by
  cases hkind : f.kind with
  | text text => exact absurd hkind (h text)
  | interruption | system | responseStart | responseEnd | other =>
    simp [replyText, textOf, hkind]

/-- The frame that starts a reply has no text. -/
theorem replyText_opened (h : f.kind = .responseStart) : replyText (f :: t) = replyText t := by
  rw [← List.singleton_append, replyText_append, replyText_of_not_text (by simp [h]),
    List.nil_append]

theorem replyText_of_text (h : f.kind = .text text) : replyText [f] = text := by
  simp [replyText, textOf, h]

theorem Quiet.not_start (h : Quiet f) : f.kind ≠ .responseStart := by
  rcases h with ⟨text, h⟩ | h <;> simp [h]

theorem Quiet.not_interruption (h : Quiet f) : f.kind ≠ .interruption := by
  rcases h with ⟨text, h⟩ | h <;> simp [h]

theorem Quiet.not_end (h : Quiet f) : f.kind ≠ .responseEnd := by
  rcases h with ⟨text, h⟩ | h <;> simp [h]

theorem Waiting.head_start (h : Waiting (f :: u)) : f.kind = .responseStart := by
  cases h with
  | mk opens => exact opens

/-- Only its first frame starts a reply. -/
theorem Waiting.quiet (h : Waiting (t ++ f :: u)) (ht : t ≠ []) : Quiet f := by
  cases t with
  | nil => exact absurd rfl ht
  | cons start t =>
    cases h with
    | mk opens quiet silent => exact quiet f (by simp)

theorem Waiting.take (h : Waiting (t ++ u)) (ht : t ≠ []) : Waiting t := by
  cases t with
  | nil => exact absurd rfl ht
  | cons start t =>
    cases h with
    | mk opens quiet silent =>
      refine ⟨opens, fun f hf => quiet f (List.mem_append_left u hf), ?_⟩
      have hsilent : isSilenceText (replyText (t ++ u)) = true := silent
      rw [replyText_append, isSilenceText_append, Bool.and_eq_true] at hsilent
      exact hsilent.1

theorem Waiting.concat (h : Waiting t) (hf : Quiet f)
    (htext : isSilenceText (replyText t ++ replyText [f]) = true) : Waiting (t ++ [f]) := by
  cases h with
  | @mk start mid opens quiet silent =>
    have hquiet : ∀ e ∈ mid ++ [f], Quiet e := by
      intro e he
      rcases List.mem_append.mp he with hmem | hlast
      · exact quiet e hmem
      · exact List.mem_singleton.mp hlast ▸ hf
    have hsilent : isSilenceText (replyText (mid ++ [f])) = true := by
      rwa [replyText_append, ← replyText_opened opens]
    exact .mk opens hquiet hsilent

theorem Waiting.silent (h : Waiting t) : isSilenceText (replyText t) = true := by
  cases h with
  | mk opens quiet silent => rwa [replyText_opened opens]

/-- A silent reply is held until its end. -/
theorem Silent.take (h : Silent Quiet (t ++ u)) (ht : t ≠ []) (hu : u ≠ []) : Waiting t := by
  generalize hreply : t ++ u = reply at h
  cases h with
  | @mk start finish mid opens quiet closes silent =>
    have hmid : Waiting (start :: mid) := ⟨opens, quiet, isSilenceText_of_reply silent⟩
    obtain ⟨u, last, rfl⟩ := List.eq_nil_or_concat u |>.resolve_left hu
    have heq : (t ++ u) ++ [last] = (start :: mid) ++ [finish] := by simpa using hreply
    obtain ⟨hinit, -⟩ := List.append_inj' heq rfl
    exact (hinit ▸ hmid : Waiting (t ++ u)).take ht

theorem Silent.last_end {Between : Frame → Prop} (h : Silent Between (t ++ [f])) :
    f.kind = .responseEnd := by
  generalize hreply : t ++ [f] = reply at h
  cases h with
  | @mk start finish mid opens quiet closes silent =>
    have heq : t ++ [f] = (start :: mid) ++ [finish] := hreply
    obtain ⟨-, hlast⟩ := List.append_inj' heq rfl
    exact (List.cons.inj hlast).1 ▸ closes

theorem not_silent_of_kind {Between : Frame → Prop} (h : f.kind ≠ .responseEnd) :
    ¬Silent Between (t ++ [f]) :=
  fun hsilent => h hsilent.last_end

theorem Silent.end_mem {Between : Frame → Prop} (h : Silent Between (t ++ f :: u)) :
    ∃ e ∈ f :: u, e.kind = .responseEnd := by
  obtain ⟨init, last, hlast⟩ := List.eq_nil_or_concat (f :: u) |>.resolve_left (by simp)
  rw [List.concat_eq_append] at hlast
  rw [hlast, ← List.append_assoc] at h
  exact ⟨last, hlast ▸ by simp, h.last_end⟩

theorem Waiting.not_end (h : Waiting t) : ∀ f ∈ t, f.kind ≠ .responseEnd := by
  cases h with
  | mk opens quiet silent =>
    rintro f (_ | ⟨_, hf⟩)
    · simp [opens]
    · exact (quiet f hf).not_end

theorem silent_concat_iff (h : Waiting t) (hf : f.kind = .responseEnd) :
    Silent Quiet (t ++ [f]) ↔ isSilenceReply (replyText t) = true := by
  cases h with
  | @mk start mid opens quiet silent =>
    rw [replyText_opened opens]
    constructor
    · intro h
      generalize hreply : start :: mid ++ [f] = reply at h
      cases h with
      | @mk start' finish mid' opens quiet closes silent =>
        have heq : (start :: mid) ++ [f] = (start' :: mid') ++ [finish] := hreply
        obtain ⟨hinit, -⟩ := List.append_inj' heq rfl
        exact (List.cons.inj hinit).2 ▸ silent
    · exact fun h => .mk opens quiet hf h

end Replies

section Runs
variable {a t u tail post : List Frame} {f g : Frame} {s : ReplyFilter}

/-- No reply that began earlier reaches to the end of `tail`. -/
def Apart (a tail : List Frame) : Prop :=
  ∀ before reply, a = before ++ reply → reply ≠ [] → ¬Waiting (reply ++ tail)

/-- What is held is a reply that waits. -/
theorem Apart.reply_eq (h : Apart a (t ++ u)) (hwait : Waiting (t ++ u)) {before reply : List Frame}
    (hcut : a ++ t = before ++ reply) (hreply : Waiting (reply ++ u)) : reply = t := by
  obtain ⟨x, rfl, rfl⟩ | ⟨x, rfl, rfl⟩ := List.append_eq_append_iff.mp hcut
  · by_cases hx : x = []
    · rw [hx, List.nil_append]
    · -- the reply would start inside what is held
      exfalso
      cases hru : reply ++ u with
      | nil => rw [hru] at hreply; cases hreply
      | cons start rest =>
        rw [List.append_assoc, hru] at hwait
        rw [hru] at hreply
        exact (hwait.quiet hx).not_start hreply.head_start
  · by_cases hx : x = []
    · rw [hx, List.nil_append]
    · exact absurd (List.append_assoc x t u ▸ hreply) (h before x rfl hx)

/-- A frame ends what is held, and starts nothing. -/
theorem Apart.close (h : Apart a tail) (htail : tail = [] ∨ Waiting tail)
    (hwait : ¬Waiting (tail ++ [g])) (hg : g.kind ≠ .responseStart) :
    Apart (a ++ (tail ++ [g])) [] := by
  intro before reply hcut hne hreply
  rw [List.append_nil] at hreply
  obtain ⟨reply, last, rfl⟩ := List.eq_nil_or_concat reply |>.resolve_left hne
  rw [List.concat_eq_append] at hcut hreply
  have heq : (a ++ tail) ++ [g] = (before ++ reply) ++ [last] := by simpa using hcut
  obtain ⟨hinit, hlast⟩ := List.append_inj' heq rfl
  obtain rfl : g = last := (List.cons.inj hlast).1
  cases reply with
  | nil => exact hg hreply.head_start
  | cons start rest =>
    have htake : Waiting (start :: rest) := hreply.take (List.cons_ne_nil _ _)
    rcases htail with rfl | htail
    · exact h before _ (by simpa using hinit) (List.cons_ne_nil _ _)
        (by rwa [List.append_nil])
    · have heq : start :: rest = tail := by
        refine Apart.reply_eq (u := []) ?_ ?_ hinit ?_
        all_goals simpa
      exact hwait (heq ▸ hreply)

theorem Apart.start (hg : g.kind = .responseStart) : Apart a [g] :=
  fun _ _ _ hne hwait => (hwait.quiet hne).not_start hg

/-- What becomes of a held frame is decided by the frame that ends what is held. -/
theorem Apart.lost_iff (h : Apart a (t ++ f :: u)) (hwait : Waiting (t ++ f :: u))
    (hg : ¬Waiting (t ++ f :: u ++ [g])) :
    Lost (a ++ t) f (u ++ g :: post) ↔ g.kind = .interruption := by
  constructor
  · rintro ⟨before, reply, later, rest, hcut, hpost, hreply, hrest⟩
    obtain ⟨x, rfl, hx⟩ | ⟨x, rfl, rfl⟩ := List.append_eq_append_iff.mp hpost
    · cases x with
      | nil =>
        rw [List.nil_append] at hx
        exact hrest g (hx ▸ rfl)
      | cons e x =>
        obtain ⟨rfl, -⟩ := List.cons.inj hx
        have hlong : Waiting (reply ++ f :: u ++ g :: x) := by simpa using hreply
        have heq := h.reply_eq hwait hcut (hlong.take (by simp))
        have hshort : Waiting (reply ++ f :: u ++ [g] ++ x) := by simpa using hreply
        exact absurd (heq ▸ hshort.take (by simp)) hg
    · cases x with
      | nil => exact hrest g rfl
      | cons e x =>
        -- an interruption is not held
        have hquiet : Quiet e := by
          have hsplit : Waiting ((t ++ f :: later) ++ e :: x) := by simpa using hwait
          exact hsplit.quiet (by simp)
        exact absurd (hrest e rfl) hquiet.not_interruption
  · exact fun hkind => ⟨a, t, u, g :: post, rfl, rfl, hwait, fun e he => by
      cases he
      exact hkind⟩

theorem Apart.inSilent_iff (h : Apart a (t ++ f :: u)) (hwait : Waiting (t ++ f :: u))
    (hg : ¬Waiting (t ++ f :: u ++ [g])) :
    InSilentReply Quiet (a ++ t) f (u ++ g :: post) ↔
      f.isSystem = false ∧ Silent Quiet (t ++ f :: u ++ [g]) := by
  refine and_congr_right fun _ => ⟨?_, fun hsilent => ?_⟩
  · rintro ⟨before, reply, later, rest, hcut, hpost, hreply⟩
    obtain ⟨x, rfl, hx⟩ | ⟨x, rfl, rfl⟩ := List.append_eq_append_iff.mp hpost
    · cases x with
      | nil =>
        rw [List.append_nil] at hreply
        obtain ⟨e, he, hend⟩ := hreply.end_mem
        exact absurd hend (hwait.not_end e (List.mem_append_right t he))
      | cons e x =>
        obtain ⟨rfl, -⟩ := List.cons.inj hx
        have hlong : Silent Quiet (reply ++ f :: u ++ g :: x) := by simpa using hreply
        obtain rfl := h.reply_eq hwait hcut (hlong.take (by simp) (by simp))
        by_cases hx : x = []
        · exact hx ▸ hlong
        · have hshort : Silent Quiet (reply ++ f :: u ++ [g] ++ x) := by simpa using hlong
          exact absurd (hshort.take (by simp) hx) hg
    · obtain ⟨e, he, hend⟩ := hreply.end_mem
      refine absurd hend (hwait.not_end e (List.mem_append_right t ?_))
      exact (List.mem_cons.mp he).elim (fun h => h ▸ List.mem_cons_self)
        fun h => List.mem_cons_of_mem f (List.mem_append_left x h)
  · exact ⟨a, t, u ++ [g], post, rfl, by simp, by simpa using hsilent⟩

/-- What becomes of the frame that ends it. -/
theorem Apart.not_lost (h : Apart a tail) (htail : tail = [] ∨ Waiting tail)
    (hwait : ¬Waiting (tail ++ [g])) (hg : g.kind ≠ .responseStart) :
    ¬Lost (a ++ tail) g post := by
  rintro ⟨before, reply, later, rest, hcut, -, hreply, -⟩
  have hsplit : Waiting (reply ++ [g] ++ later) := by simpa using hreply
  refine h.close htail hwait hg before (reply ++ [g]) ?_ (by simp) ?_
  · rw [← List.append_assoc, hcut, List.append_assoc]
  · rw [List.append_nil]
    exact hsplit.take (by simp)

theorem Apart.inSilent (h : Apart a tail) (htail : tail = [] ∨ Waiting tail)
    (hwait : ¬Waiting (tail ++ [g])) (hg : g.kind ≠ .responseStart)
    (hsilent : InSilentReply Quiet (a ++ tail) g post) :
    Waiting tail ∧ Silent Quiet (tail ++ [g]) := by
  obtain ⟨-, before, reply, later, rest, hcut, -, hreply⟩ := hsilent
  have hsplit : Silent Quiet (reply ++ [g] ++ later) := by simpa using hreply
  obtain rfl : later = [] := by
    by_contra hlater
    refine h.close htail hwait hg before (reply ++ [g]) ?_ (by simp) ?_
    · rw [← List.append_assoc, hcut, List.append_assoc]
    · rw [List.append_nil]
      exact hsplit.take (by simp) hlater
  rw [List.append_nil] at hsplit
  have hne : reply ≠ [] := by
    rintro rfl
    generalize hlength : [] ++ [g] = reply at hsplit
    cases hsplit
    simpa using congrArg List.length hlength
  have htake : Waiting reply := hsplit.take hne (by simp)
  rcases htail with rfl | htail
  · rw [List.append_nil] at hcut
    exact absurd (by rwa [List.append_nil]) (h before reply hcut hne)
  · obtain rfl : reply = tail := by
      refine Apart.reply_eq (u := []) ?_ ?_ hcut ?_
      all_goals simpa
    exact ⟨htail, hsplit⟩

theorem leaving_append {φ : Frame → Option Frame} (r : List Frame)
    (h : ∀ t f u, tail = t ++ f :: u → fate (a ++ t) f (u ++ r) = φ f) :
    leaving a (tail ++ r) = tail.filterMap φ ++ leaving (a ++ tail) r := by
  induction tail generalizing a with
  | nil => simp
  | cons f tail ih =>
    have hfate : fate a f (tail ++ r) = φ f := by simpa using h [] f tail rfl
    have hrest := @ih (a ++ [f]) fun t g u htail => by
      simpa using h (f :: t) g u (by rw [htail, List.cons_append])
    rw [List.cons_append, leaving, hfate, hrest, List.append_assoc, List.singleton_append]
    cases hφ : φ f <;> simp [hφ]

theorem fate_system (h : f.isSystem = true) : fate a f post = none := by
  simp [fate, h]

theorem fate_lost (h : Lost a f post) : fate a f post = none := by
  simp [fate, h]

theorem fate_silent (hf : f.isSystem = false) (h : ¬Lost a f post)
    (hsilent : InSilentReply Quiet a f post) : fate a f post = some f.setSkipTts := by
  simp [fate, hf, h, hsilent]

theorem fate_leaves (hf : f.isSystem = false) (h : ¬Lost a f post)
    (hsilent : ¬InSilentReply Quiet a f post) : fate a f post = some f := by
  simp [fate, hf, h, hsilent]

theorem nonSystem_append : nonSystem (t ++ u) = nonSystem t ++ nonSystem u :=
  List.filter_append t u

theorem nonSystem_of_system (h : f.isSystem = true) : nonSystem [f] = [] := by
  simp [nonSystem, h]

theorem nonSystem_of_not_system (h : f.isSystem = false) : nonSystem [f] = [f] := by
  simp [nonSystem, h]

theorem filterMap_eq_nonSystem (mark : Frame → Frame) :
    tail.filterMap (fun f => if f.isSystem then none else some (mark f)) =
      (nonSystem tail).map mark := by
  induction tail with
  | nil => rfl
  | cons f tail ih => cases hf : f.isSystem <;> simp_all [nonSystem]

/-- Every frame that is held at the end is lost. -/
theorem leaving_end (hwait : tail = [] ∨ Waiting tail) : leaving a tail = [] := by
  rcases hwait with rfl | hwait
  · rfl
  · have hlost := @leaving_append a tail (fun _ => none) [] fun t f u htail =>
      fate_lost ⟨a, t, u, [], rfl, rfl, htail ▸ hwait, by simp⟩
    simpa [leaving] using hlost

section Closing
variable (h : Apart a tail) (hwait : Waiting tail) (hg : ¬Waiting (tail ++ [g]))

include h hwait hg in
theorem leaving_interrupted (hkind : g.kind = .interruption) :
    leaving a (tail ++ g :: post) = leaving (a ++ tail) (g :: post) := by
  have hlost := @leaving_append a tail (fun _ => none) (g :: post) fun t f u htail => by
    subst htail
    exact fate_lost ((h.lost_iff hwait hg).mpr hkind)
  simpa using hlost

include h hwait hg in
theorem leaving_held (hkind : g.kind ≠ .interruption) {mark : Frame → Frame}
    (hmark : Silent Quiet (tail ++ [g]) ∧ mark = Frame.setSkipTts ∨
      ¬Silent Quiet (tail ++ [g]) ∧ mark = id) :
    leaving a (tail ++ g :: post) =
      (nonSystem tail).map mark ++ leaving (a ++ tail) (g :: post) := by
  rw [← filterMap_eq_nonSystem]
  refine leaving_append (g :: post) fun t f u htail => ?_
  subst htail
  have hlost : ¬Lost (a ++ t) f (u ++ g :: post) :=
    fun hlost => hkind ((h.lost_iff hwait hg).mp hlost)
  cases hf : f.isSystem with
  | true => simp [fate_system hf]
  | false =>
    rcases hmark with ⟨hsilent, rfl⟩ | ⟨hsilent, rfl⟩
    · simp [fate_silent hf hlost ((h.inSilent_iff hwait hg).mpr ⟨hf, hsilent⟩)]
    · simp [fate_leaves hf hlost fun hin => hsilent ((h.inSilent_iff hwait hg).mp hin).2]

end Closing

/-- A frame that ends what is held leaves with it, marked as it is. -/
theorem leaving_closing (h : Apart a tail) (htail : tail = [] ∨ Waiting tail)
    (hg : ¬Waiting (tail ++ [g])) (hstart : g.kind ≠ .responseStart) (hf : g.isSystem = false)
    {mark : Frame → Frame} (hmark : Silent Quiet (tail ++ [g]) ∧ Waiting tail ∧
      mark = Frame.setSkipTts ∨ ¬Silent Quiet (tail ++ [g]) ∧ mark = id) :
    leaving (a ++ tail) (g :: post) = mark g :: leaving (a ++ (tail ++ [g])) post := by
  have hlost : ¬Lost (a ++ tail) g post := h.not_lost htail hg hstart
  have hfate : fate (a ++ tail) g post = some (mark g) := by
    rcases hmark with ⟨hsilent, hwait, rfl⟩ | ⟨hsilent, rfl⟩
    · exact fate_silent hf hlost ⟨hf, a, tail, [], post, rfl, rfl, hsilent⟩
    · exact fate_leaves hf hlost fun hin => hsilent (h.inSilent htail hg hstart hin).2
  rw [leaving, hfate, List.append_assoc]
  rfl

/-- The filter while it holds `tail`. -/
def holdingOf (tail : List Frame) : ReplyFilter where
  held := nonSystem tail
  holding := true
  text := replyText tail

/-- The filter after `a ++ tail`, of which it holds `tail`. -/
structure Holds (s : ReplyFilter) (a tail : List Frame) : Prop where
  apart : Apart a tail
  held : (tail = [] ∧ s = {}) ∨
    Waiting tail ∧ s = holdingOf tail

theorem Holds.starts (hg : g.kind = .responseStart) :
    Holds { held := [g], holding := true } a [g] := by
  have hwait : Waiting [g] := .mk hg (by simp) rfl
  refine ⟨.start hg, .inr ⟨hwait, ?_⟩⟩
  rw [holdingOf, nonSystem_of_not_system (by simp [Frame.isSystem, hg]),
    replyText_of_not_text (by simp [hg])]

theorem Holds.closes (h : Apart a tail) (htail : tail = [] ∨ Waiting tail)
    (hg : ¬Waiting (tail ++ [g])) (hstart : g.kind ≠ .responseStart) :
    Holds {} (a ++ (tail ++ [g])) [] :=
  ⟨h.close htail hg hstart, .inl ⟨rfl, rfl⟩⟩

theorem Holds.goesOn (h : Apart a tail) (hwait : Waiting (tail ++ [g])) (hne : tail ≠ []) :
    Holds (holdingOf (tail ++ [g])) a (tail ++ [g]) := by
  refine ⟨fun before reply ha hreply hlong => ?_, .inr ⟨hwait, rfl⟩⟩
  rw [← List.append_assoc] at hlong
  exact h before reply ha hreply (hlong.take (by simp [hne]))

theorem not_waiting_concat (ht : tail ≠ []) (hg : ¬Quiet g) : ¬Waiting (tail ++ [g]) :=
  fun hwait => hg (hwait.quiet ht)

theorem leaving_system (hf : f.isSystem = true) :
    leaving a (f :: post) = leaving (a ++ [f]) post := by
  rw [leaving, fate_system hf]
  rfl

/-- The filter waits for a reply to start. -/
theorem Holds.run_idle (h : Apart a []) (hrun : ∀ {s a tail}, Holds s a tail →
    nonSystem (s.run post) = leaving a (tail ++ post)) :
    nonSystem (({} : ReplyFilter).run (g :: post)) = leaving a (g :: post) := by
  by_cases hstart : g.kind = .responseStart
  · have hstep : ({} : ReplyFilter).processFrame g .downstream =
        ({ held := [g], holding := true }, []) := by
      simp [ReplyFilter.processFrame, hstart]
    rw [ReplyFilter.run, hstep]
    exact hrun (.starts hstart)
  have hstep : ({} : ReplyFilter).processFrame g .downstream = ({}, [g]) := by
    cases hkind : g.kind <;> simp_all [ReplyFilter.processFrame]
  have hwait : ¬Waiting ([] ++ [g]) := fun hwait => hstart hwait.head_start
  rw [ReplyFilter.run, hstep, nonSystem_append, hrun (.closes h (.inl rfl) hwait hstart)]
  cases hf : g.isSystem with
  | true => rw [nonSystem_of_system hf, leaving_system hf]; rfl
  | false =>
    have hnot : ¬Silent Quiet ([] ++ [g]) := fun hsilent => by
      generalize hreply : [] ++ [g] = reply at hsilent
      cases hsilent
      simpa using congrArg List.length hreply
    rw [nonSystem_of_not_system hf, ← List.append_nil a,
      leaving_closing h (.inl rfl) hwait hstart hf (.inr ⟨hnot, rfl⟩), List.append_nil]
    rfl

theorem nonSystem_marked {mark : Frame → Frame} (hmark : mark = Frame.setSkipTts ∨ mark = id) :
    nonSystem ((nonSystem tail).map mark) = (nonSystem tail).map mark := by
  have hsame : ∀ f, (mark f).isSystem = f.isSystem := by
    rcases hmark with rfl | rfl <;> exact fun f => rfl
  refine List.filter_eq_self.mpr fun f hf => ?_
  obtain ⟨g, hg, rfl⟩ := List.mem_map.mp hf
  rw [hsame]
  exact (List.mem_filter.mp hg).2

/-- What is held leaves with the frame that ends it. -/
theorem Holds.run_closing (h : Apart a tail) (hwait : Waiting tail)
    (hrun : nonSystem (({} : ReplyFilter).run post) = leaving (a ++ (tail ++ [g])) post)
    (hclose : ¬Waiting (tail ++ [g])) (hstart : g.kind ≠ .responseStart)
    (hf : g.isSystem = false) {mark : Frame → Frame}
    (hmark : Silent Quiet (tail ++ [g]) ∧ mark = Frame.setSkipTts ∨
      ¬Silent Quiet (tail ++ [g]) ∧ mark = id) :
    nonSystem ((nonSystem tail ++ [g]).map mark ++ ({} : ReplyFilter).run post) =
      leaving a (tail ++ g :: post) := by
  have hkind : g.kind ≠ .interruption := by
    intro hkind
    simp [Frame.isSystem, hkind] at hf
  have hlast : nonSystem [mark g] = [mark g] := by
    rcases hmark with ⟨-, rfl⟩ | ⟨-, rfl⟩ <;> exact nonSystem_of_not_system hf
  rw [leaving_held h hwait hclose hkind hmark, leaving_closing h (.inr hwait) hclose hstart hf
    (hmark.imp_left fun hsilent => ⟨hsilent.1, hwait, hsilent.2⟩), List.map_append,
    nonSystem_append, nonSystem_append, nonSystem_marked (hmark.imp And.right And.right), hrun,
    List.map_singleton, hlast, List.append_assoc, List.singleton_append]

/-- The filter holds a reply that waits. -/
theorem Holds.run_held (h : Apart a tail) (hwait : Waiting tail) (hrun : ∀ {s a tail},
    Holds s a tail → nonSystem (s.run post) = leaving a (tail ++ post)) :
    nonSystem ((holdingOf tail).run (g :: post)) = leaving a (tail ++ g :: post) := by
  have hne : tail ≠ [] := by
    rintro rfl
    cases hwait
  have hclosed : ¬Waiting (tail ++ [g]) → g.kind ≠ .responseStart →
      nonSystem (({} : ReplyFilter).run post) = leaving (a ++ (tail ++ [g])) post :=
    fun hclose hstart => hrun (.closes h (.inr hwait) hclose hstart)
  have hgoesOn : Waiting (tail ++ [g]) →
      nonSystem ((holdingOf (tail ++ [g])).run post) = leaving a (tail ++ g :: post) := by
    intro hlong
    have heq := hrun (.goesOn h hlong hne)
    rwa [List.append_assoc] at heq
  cases hkind : g.kind with
  | interruption =>
    have hf : g.isSystem = true := by simp [Frame.isSystem, hkind]
    have hclose := not_waiting_concat hne fun hquiet => hquiet.not_interruption hkind
    rw [leaving_interrupted h hwait hclose hkind, leaving_system hf, List.append_assoc,
      ← hclosed hclose (by simp [hkind])]
    simp [ReplyFilter.run, ReplyFilter.processFrame, hkind, nonSystem, hf]
  | system =>
    have hf : g.isSystem = true := by simp [Frame.isSystem, hkind]
    have htext : replyText [g] = [] := replyText_of_not_text (by simp [hkind])
    have hlong : Waiting (tail ++ [g]) :=
      hwait.concat (.inr hkind) (by rw [htext, List.append_nil]; exact hwait.silent)
    have hstep : (holdingOf tail).processFrame g .downstream = (holdingOf (tail ++ [g]), [g]) := by
      simp [ReplyFilter.processFrame, hkind, holdingOf, nonSystem_append, nonSystem_of_system hf,
        replyText_append, htext]
    rw [← hgoesOn hlong, ReplyFilter.run, hstep, nonSystem_append, nonSystem_of_system hf,
      List.nil_append]
  | responseStart =>
    have hclose := not_waiting_concat hne fun hquiet => hquiet.not_start hkind
    have hsilent : ¬Silent Quiet (tail ++ [g]) := fun hsilent => by
      rw [hsilent.last_end] at hkind
      cases hkind
    have heq := @hrun _ (a ++ tail) _ (.starts hkind)
    rw [leaving_held h hwait hclose (by simp [hkind]) (.inr ⟨hsilent, rfl⟩),
      ← List.singleton_append, ← heq]
    simp [ReplyFilter.run, ReplyFilter.processFrame, holdingOf, hkind, nonSystem]
  | text text =>
    have htext : replyText [g] = text := replyText_of_text hkind
    have hf : g.isSystem = false := by simp [Frame.isSystem, hkind]
    cases hsilent : isSilenceText (replyText tail ++ text) with
    | true =>
      have hlong : Waiting (tail ++ [g]) := hwait.concat (.inl ⟨text, hkind⟩) (by rwa [htext])
      have hstep : (holdingOf tail).processFrame g .downstream =
          (holdingOf (tail ++ [g]), []) := by
        simp [ReplyFilter.processFrame, hkind, holdingOf, nonSystem_append,
          nonSystem_of_not_system hf, replyText_append, htext, hsilent]
      rw [← hgoesOn hlong, ReplyFilter.run, hstep, List.nil_append]
    | false =>
      have hclose : ¬Waiting (tail ++ [g]) := fun hlong => by
        have hlong := hlong.silent
        rw [replyText_append, htext, hsilent] at hlong
        cases hlong
      have hopen : ¬Silent Quiet (tail ++ [g]) := not_silent_of_kind (by simp [hkind])
      rw [← Holds.run_closing h hwait (hclosed hclose (by simp [hkind])) hclose (by simp [hkind])
        hf (.inr ⟨hopen, rfl⟩)]
      simp [ReplyFilter.run, ReplyFilter.processFrame, holdingOf, hkind, hsilent]
  | responseEnd =>
    have hf : g.isSystem = false := by simp [Frame.isSystem, hkind]
    have hclose := not_waiting_concat hne fun hquiet => hquiet.not_end hkind
    have hclosing := @Holds.run_closing _ _ post _ h hwait (hclosed hclose (by simp [hkind])) hclose
      (by simp [hkind]) hf
    have hiff := silent_concat_iff hwait hkind
    cases hsilent : isSilenceReply (replyText tail) with
    | true =>
      rw [← hclosing (.inl ⟨hiff.mpr hsilent, rfl⟩)]
      simp [ReplyFilter.run, ReplyFilter.processFrame, holdingOf, hkind, hsilent]
    | false =>
      have hopen : ¬Silent Quiet (tail ++ [g]) := fun hin => by
        rw [hiff.mp hin] at hsilent
        cases hsilent
      rw [← hclosing (.inr ⟨hopen, rfl⟩)]
      simp [ReplyFilter.run, ReplyFilter.processFrame, holdingOf, hkind, hsilent]
  | other =>
    have hf : g.isSystem = false := by simp [Frame.isSystem, hkind]
    have hclose := not_waiting_concat hne fun hquiet => by
      rcases hquiet with ⟨text, htext⟩ | hsystem
      · cases htext.symm.trans hkind
      · cases hsystem.symm.trans hkind
    have hopen : ¬Silent Quiet (tail ++ [g]) := not_silent_of_kind (by simp [hkind])
    rw [← Holds.run_closing h hwait (hclosed hclose (by simp [hkind])) hclose (by simp [hkind])
      hf (.inr ⟨hopen, rfl⟩)]
    simp [ReplyFilter.run, ReplyFilter.processFrame, holdingOf, hkind]

/-- Run lemma. -/
theorem Holds.run (h : Holds s a tail) : nonSystem (s.run post) = leaving a (tail ++ post) := by
  induction post generalizing s a tail with
  | nil =>
    rw [List.append_nil, leaving_end (h.held.imp And.left And.left)]
    rfl
  | cons g post ih =>
    rcases h.held with ⟨rfl, rfl⟩ | ⟨hwait, rfl⟩
    · exact Holds.run_idle h.apart ih
    · exact Holds.run_held h.apart hwait ih

/-- Every frame that is no system frame leaves once and in its order, unless it is held as an
interruption or the end comes, and those of silent replies leave marked. -/
theorem silent_replies_marked (frames : List Frame) :
    nonSystem (({} : ReplyFilter).run frames) = leaving [] frames :=
  have hidle : Holds {} [] [] := ⟨fun before reply hcut hne => by simp_all, .inl ⟨rfl, rfl⟩⟩
  hidle.run

/-- An interruption ends a reply: its end leaves as it came, though all text before it is dots. -/
theorem interrupted_reply_unmarked :
    let start : Frame := { id := 0, kind := .responseStart }
    let dots : Frame := { id := 1, kind := .text "...".toList }
    let interruption : Frame := { id := 2, kind := .interruption }
    let finish : Frame := { id := 3, kind := .responseEnd }
    InSilentReply TextOrSystem [start, dots, interruption] finish [] ∧
      finish.setSkipTts ∉ ({} : ReplyFilter).run [start, dots, interruption, finish] := by
  intro start dots interruption finish
  refine ⟨⟨rfl, [], [start, dots, interruption], [], [], rfl, rfl, ?_⟩, by decide⟩
  have hbetween : ∀ f ∈ [dots, interruption], TextOrSystem f := by
    simp [dots, interruption, TextOrSystem, Frame.isSystem]
  exact .mk rfl hbetween rfl (by decide)

end Runs

end VoiceAgent.SilentReply
