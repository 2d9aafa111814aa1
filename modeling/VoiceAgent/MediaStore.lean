import VoiceAgent.AttachmentStore
import VoiceAgent.Moves

/-!
Media analysis goes by a store of one session, with numbers for the ids that are drawn. It is the
attachment store seen at that session: in every run of media analysis the attachments and the
capture request are those that the calls of the run leave there, whatever calls for other sessions
come in between.
-/
namespace VoiceAgent.MediaStore

open StreamingEvents Coroutine Interleaving MediaAnalysis Relation
open AttachmentStore (Call Session act after ownCalls sessionAfter)

section Naming

/-- The session of media analysis, and the ids that are drawn for its numbers. -/
structure Naming where
  session : Text
  attachment : ℕ → Text
  request : ℕ → Text
  session_clean : strip session = session
  session_ne : session ≠ []
  attachment_clean : ∀ n, strip (attachment n) = attachment n
  attachment_ne : ∀ n, attachment n ≠ []
  attachment_injective : attachment.Injective
  request_clean : ∀ n, strip (request n) = request n
  request_ne : ∀ n, request n ≠ []
  request_injective : request.Injective

theorem strip_replicate (n : ℕ) :
    strip (List.replicate (n + 1) 'a') = List.replicate (n + 1) 'a' := by
  have hspace : isSpace 'a' = false := by decide
  have hfront : (List.replicate (n + 1) 'a').dropWhile isSpace = List.replicate (n + 1) 'a' :=
    List.dropWhile_cons_of_neg (by simp [hspace])
  rw [strip, hfront, rstrip, List.reverse_replicate, hfront, List.reverse_replicate]

instance : Inhabited Naming where
  default :=
    { session := ['a']
      attachment := fun n => List.replicate (n + 1) 'a'
      request := fun n => List.replicate (n + 1) 'a'
      session_clean := strip_replicate 0
      session_ne := List.cons_ne_nil _ _
      attachment_clean := strip_replicate
      attachment_ne := fun _ => List.cons_ne_nil _ _
      attachment_injective := fun n m h => by simpa using congrArg List.length h
      request_clean := strip_replicate
      request_ne := fun _ => List.cons_ne_nil _ _
      request_injective := fun n m h => by simpa using congrArg List.length h }

def sourceName : Source → Text
  | .upload => "upload".toList
  | .capture => "capture".toList

/-- The words that the store knows are in lower case. -/
structure Lowers (lower : Text → Text) : Prop where
  empty : lower [] = []
  kind : ∀ k, lower (kindName k) = kindName k
  source : ∀ s, lower (sourceName s) = sourceName s

/-- The arguments with which an upload is stored. -/
def spell (N : Naming) (u : Upload) (source : Source) (id : ℕ) : AttachmentStore.Upload where
  sessionId := N.session
  kind := (u.kind.map kindName).getD []
  name := u.name
  contentType := u.contentType
  data := List.replicate u.bytes 0
  source := sourceName source
  id := N.attachment id
  createdAt := []

variable (N : Naming)

/-- The attachment of the store is the one that media analysis has under a number. -/
structure Named (a : AttachmentStore.Attachment) (m : Attachment) : Prop where
  id : a.id = N.attachment m.id
  kind : a.kind = m.kind
  name : a.name = m.name
  contentType : a.contentType = m.contentType
  bytes : a.data.length = m.bytes
  source : a.source = m.source

/-- A session of the store as media analysis sees it. -/
structure Agrees (σ : Session) (s : Media) : Prop where
  attachments : List.Forall₂ (Named N) σ.attachments s.attachments
  captureRequest : σ.captureRequest = s.captureRequest.map N.request

variable {N} {lower : Text → Text} {σ : Session} {s s' : Media}

theorem Agrees.same (h : Agrees N σ s) (ha : s'.attachments = s.attachments)
    (hc : s'.captureRequest = s.captureRequest) : Agrees N σ s' := by
  refine ⟨?_, ?_⟩
  · rw [ha]
    exact h.attachments
  · rw [hc]
    exact h.captureRequest

end Naming

section Words
variable {N : Naming} {lower : Text → Text}

theorem readKind_spelled (hlower : Lowers lower) (kind : Option Kind) :
    AttachmentStore.readKind lower ((kind.map kindName).getD []) = kind := by
  have hempty : strip [] = [] := rfl
  have hclean : ∀ k, strip (kindName k) = kindName k := by
    intro k
    cases k <;> decide
  have hfound : ∀ k, [Kind.image, .audio, .video].find? (fun j => kindName j = kindName k) =
      some k := by
    intro k
    cases k <;> decide
  cases kind with
  | none =>
    rw [AttachmentStore.readKind, Option.map_none, Option.getD_none, hempty, hlower.empty]
    decide
  | some k =>
    rw [AttachmentStore.readKind, Option.map_some, Option.getD_some, hclean, hlower.kind]
    exact hfound k

theorem readSource_spelled (hlower : Lowers lower) (source : Source) :
    AttachmentStore.readSource lower (sourceName source) = some source := by
  have hclean : strip (sourceName source) = sourceName source := by
    cases source <;> decide
  rw [AttachmentStore.readSource, hclean, hlower.source]
  cases source <;> decide

/-- Both embeddings of `store_attachment` raise the same error or store the same. -/
theorem readAttachment_spelled (hlower : Lowers lower) (u : Upload) (source : Source)
    (id n : ℕ) :
    (∃ message, AttachmentStore.readAttachment lower (spell N u source id) n = .error message ∧
        MediaAnalysis.readAttachment u source id = .error message) ∨
      ∃ a m, AttachmentStore.readAttachment lower (spell N u source id) n = .ok a ∧
        MediaAnalysis.readAttachment u source id = .ok m ∧ Named N a m := by
  have hsession : strip (spell N u source id).sessionId ≠ [] := by
    rw [spell, N.session_clean]
    exact N.session_ne
  have hkind : AttachmentStore.readKind lower (spell N u source id).kind = u.kind :=
    readKind_spelled hlower u.kind
  have hsource : AttachmentStore.readSource lower (spell N u source id).source = some source :=
    readSource_spelled hlower source
  rw [AttachmentStore.readAttachment, AttachmentStore.checkUpload, MediaAnalysis.readAttachment,
    if_neg hsession, hkind, hsource]
  cases u.kind with
  | none => exact .inl ⟨_, rfl, rfl⟩
  | some kind =>
    by_cases hbytes : u.bytes = 0
    · have hdata : (spell N u source id).data = [] := by rw [spell, hbytes]; rfl
      simp only [if_pos hbytes, if_pos hdata]
      exact .inl ⟨_, rfl, rfl⟩
    · have hdata : (spell N u source id).data ≠ [] := by
        simpa [spell, List.replicate_eq_nil_iff] using hbytes
      simp only [if_neg hbytes, if_neg hdata]
      exact .inr ⟨_, _, rfl, rfl, rfl, rfl, rfl, rfl, List.length_replicate, rfl⟩

end Words

section Operations
variable {N : Naming} {lower : Text → Text} {σ : Session} {s : Media} {n : ℕ}

/-- Both find the same attachment, or none. -/
theorem find?_named {p : AttachmentStore.Attachment → Bool} {q : Attachment → Bool}
    {l : List AttachmentStore.Attachment} {l' : List Attachment} (h : List.Forall₂ (Named N) l l')
    (hpq : ∀ a m, Named N a m → p a = q m) : Option.Rel (Named N) (l.find? p) (l'.find? q) := by
  induction h with
  | nil => exact .none
  | cons hhead _ ih =>
    rw [List.find?_cons, List.find?_cons, hpq _ _ hhead]
    split
    · exact .some hhead
    · exact ih

theorem filter_named {p : AttachmentStore.Attachment → Bool} {q : Attachment → Bool}
    {l : List AttachmentStore.Attachment} {l' : List Attachment} (h : List.Forall₂ (Named N) l l')
    (hpq : ∀ a m, Named N a m → p a = q m) : List.Forall₂ (Named N) (l.filter p) (l'.filter q) := by
  induction h with
  | nil => exact .nil
  | cons hhead _ ih =>
    rw [List.filter_cons, List.filter_cons, hpq _ _ hhead]
    split
    · exact .cons hhead ih
    · exact ih

theorem Agrees.latestUser (h : Agrees N σ s) :
    Option.Rel (Named N) σ.latestUser s.latestUserAttachment :=
  find?_named (List.rel_reverse h.attachments) fun _ _ hnamed => by rw [hnamed.source]

theorem Agrees.latest (h : Agrees N σ s) : Option.Rel (Named N) σ.latest s.latestAttachment := by
  rw [Session.latest, Media.latestAttachment, ← List.head?_reverse, ← List.head?_reverse]
  have hreverse := List.rel_reverse h.attachments
  generalize σ.attachments.reverse = l, s.attachments.reverse = l' at hreverse ⊢
  cases hreverse with
  | nil => exact .none
  | cons hhead _ => exact .some hhead

theorem Agrees.store (hlower : Lowers lower) (h : Agrees N σ s) (u : Upload) (source : Source)
    {s' : Media} (hrequest : s'.captureRequest = s.captureRequest)
    (hstored : s'.attachments = match MediaAnalysis.readAttachment u source s.sequence with
      | .error _ => s.attachments
      | .ok m => s.attachments ++ [m]) :
    Agrees N (act lower (.storeAttachment (spell N u source s.sequence)) n σ).state s' := by
  rcases readAttachment_spelled (N := N) hlower u source s.sequence n with
    ⟨message, hspelled, hread⟩ | ⟨a, m, hspelled, hread, hnamed⟩
  · rw [act, hspelled]
    exact h.same (by rw [hstored, hread]) hrequest
  · rw [act, hspelled]
    refine ⟨?_, ?_⟩
    · rw [hstored, hread]
      exact List.rel_append h.attachments (.cons hnamed .nil)
    · rw [hrequest]
      exact h.captureRequest

theorem Agrees.request (h : Agrees N σ s) (query : Text) (hquery : strip query ≠ []) :
    Agrees N (act lower (.createCaptureRequest N.session (N.request s.requests)) n σ).state
      (s.queueHighresCapture query) := by
  have hsession : strip N.session ≠ [] := by
    rw [N.session_clean]
    exact N.session_ne
  rw [act, if_neg hsession, Media.queueHighresCapture, if_neg hquery]
  exact ⟨h.attachments, rfl⟩

theorem Agrees.consume (h : Agrees N σ s) (request : ℕ) :
    Agrees N (act lower (.consumeCaptureRequest N.session (N.request request)) n σ).state
      (s.acceptCapture request) := by
  have hsession : strip N.session ≠ [] := by
    rw [N.session_clean]
    exact N.session_ne
  have hexpects : σ.expects (N.request request) ↔ s.captureRequest = some request := by
    have hsame : s.captureRequest.map N.request = some (N.request request) ↔
        s.captureRequest = some request := by
      rw [← Option.map_some, (Option.map_injective N.request_injective).eq_iff]
    simp [Session.expects, N.request_clean, N.request_ne, h.captureRequest, -Option.map_eq_some_iff,
      hsame]
  rw [act, Media.acceptCapture]
  by_cases hrequest : s.captureRequest = some request
  · rw [if_pos ⟨hsession, hexpects.mpr hrequest⟩, if_pos hrequest]
    exact ⟨h.attachments, rfl⟩
  · rw [if_neg fun h => hrequest (hexpects.mp h.2), if_neg hrequest]
    exact h

theorem Agrees.remove (h : Agrees N σ s) (id : ℕ) :
    Agrees N (act lower (.removeAttachment N.session (N.attachment id)) n σ).state
      (s.removeAttachment (some id)) := by
  have hcalled : ¬(strip N.session = [] ∨ strip (N.attachment id) = []) := by
    rw [N.session_clean, N.attachment_clean]
    exact not_or.mpr ⟨N.session_ne, N.attachment_ne id⟩
  rw [act, if_neg hcalled]
  refine ⟨filter_named h.attachments fun a m hnamed => ?_, h.captureRequest⟩
  rw [N.attachment_clean, hnamed.id]
  exact decide_eq_decide.mpr (not_congr N.attachment_injective.eq_iff)

end Operations

section Calls
variable (N : Naming) {lower : Text → Text} {s s' : Media} {own : List Call}

/-- The call of the store that a move from outside makes, if any. -/
def callsFor (s : Media) : Move → List Call
  | .upload u => [.storeAttachment (spell N u .upload s.sequence)]
  | .highresCapture query =>
    if strip query = [] then [] else [.createCaptureRequest N.session (N.request s.requests)]
  | .acceptCapture request => [.consumeCaptureRequest N.session (N.request request)]
  | .storeCapture _ (some u) =>
    [.storeAttachment (spell N { u with kind := some .image } .capture s.sequence)]
  | .storeCapture _ none | .callback | .prompt .. | .interruption => []

def removal (id : ℕ) : Call := .removeAttachment N.session (N.attachment id)

/-- The attachments that are there before a turn and not after it. -/
def gone (s s' : Media) : List ℕ :=
  (s.attachments.map Attachment.id).filter fun id => id ∉ s'.attachments.map Attachment.id

theorem session_callsFor (s : Media) (m : Move) : ∀ c ∈ callsFor N s m, c.session = N.session := by
  have hown : ∀ c : Call, c.session = strip N.session → c.session = N.session := fun c hc =>
    hc.trans N.session_clean
  intro c hc
  cases m with
  | upload u => exact hown c (by rw [List.mem_singleton.mp hc]; rfl)
  | highresCapture query =>
    rw [callsFor] at hc
    split at hc
    · cases hc
    · exact hown c (by rw [List.mem_singleton.mp hc]; rfl)
  | acceptCapture request => exact hown c (by rw [List.mem_singleton.mp hc]; rfl)
  | storeCapture request u =>
    cases u with
    | none => cases hc
    | some u => exact hown c (by rw [List.mem_singleton.mp hc]; rfl)
  | callback => cases hc
  | prompt transcript prompt action source => cases hc
  | interruption => cases hc

variable {N}

/-- One more call of the session. -/
theorem agrees_call {c : Call} (hc : c.session = N.session)
    (h : Agrees N (sessionAfter lower own N.session) s)
    (hact : ∀ n σ, Agrees N σ s → Agrees N (act lower c n σ).state s') :
    Agrees N (sessionAfter lower (own ++ [c]) N.session) s' := by
  rw [← hc, AttachmentStore.sessionAfter_snoc, hc]
  exact hact _ _ h

theorem agrees_removals {ids : List ℕ} (h : Agrees N (sessionAfter lower own N.session) s)
    (ha : s'.attachments = s.attachments.filter fun a => a.id ∉ ids)
    (hc : s'.captureRequest = s.captureRequest) :
    Agrees N (sessionAfter lower (own ++ ids.map (removal N)) N.session) s' := by
  induction ids generalizing own s with
  | nil =>
    rw [List.map_nil, List.append_nil]
    exact h.same (by simpa using ha) hc
  | cons id ids ih =>
    rw [List.map_cons, ← List.singleton_append, ← List.append_assoc]
    refine ih (s := s.removeAttachment (some id)) ?_ ?_ hc
    · exact agrees_call N.session_clean h fun n σ hagrees => hagrees.remove id
    · rw [ha, Media.removeAttachment, List.filter_filter]
      congr 1
      funext a
      simp [Bool.and_comm]

end Calls

section Moves
variable {N : Naming} {lower : Text → Text} {s s' t : Media} {own : List Call}

/-- What a task may do to the store: it removes attachments. -/
def Tidies (s s' : Media) : Prop :=
  ∃ ids : List ℕ, s'.attachments = s.attachments.filter (fun a => a.id ∉ ids) ∧
    s'.captureRequest = s.captureRequest

theorem Tidies.same (ha : s'.attachments = s.attachments)
    (hc : s'.captureRequest = s.captureRequest) : Tidies s s' :=
  ⟨[], by simpa using ha, hc⟩

theorem Tidies.trans (h : Tidies s s') (h' : Tidies s' t) : Tidies s t := by
  obtain ⟨ids, ha, hc⟩ := h
  obtain ⟨ids', ha', hc'⟩ := h'
  refine ⟨ids ++ ids', ?_, hc'.trans hc⟩
  rw [ha', ha, List.filter_filter]
  congr 1
  funext a
  simp [Bool.and_comm]

theorem tidies_moves (h : ReflTransGen Tidies s s') : Tidies s s' := by
  induction h with
  | refl => exact .same rfl rfl
  | tail _ hlast ih => exact ih.trans hlast

/-- What is left is what the calls for the attachments that are gone leave. -/
theorem Tidies.agrees (h : Tidies s s') (hagrees : Agrees N (sessionAfter lower own N.session) s) :
    Agrees N (sessionAfter lower (own ++ (gone s s').map (removal N)) N.session) s' := by
  obtain ⟨ids, ha, hc⟩ := h
  refine agrees_removals hagrees ?_ hc
  rw [ha]
  refine List.filter_congr fun a hmem => ?_
  rw [decide_eq_decide, gone, List.mem_filter, ha]
  simp only [List.mem_map, List.mem_filter, decide_eq_true_eq, not_exists, not_and]
  constructor
  · exact fun hid _ hleft => hleft a ⟨hmem, hid⟩ rfl
  · exact fun hleft hid => hleft ⟨a, hmem, rfl⟩ fun b hb hbid => hb.2 (hbid ▸ hid)

theorem removeAttachment_tidies (s : Media) (id : Option ℕ) :
    Tidies s (s.removeAttachment id) := by
  cases id with
  | none => exact .same rfl rfl
  | some id => exact ⟨[id], by simp [Media.removeAttachment], rfl⟩

/-- The store is left as it is. -/
def Still (s s' : Media) : Prop :=
  s'.attachments = s.attachments ∧ s'.captureRequest = s.captureRequest

theorem Still.agrees {σ : Session} (h : Still s s') (hagrees : Agrees N σ s) : Agrees N σ s' :=
  hagrees.same h.1 h.2

theorem markAttachmentPending_still (s : Media) : Still s s.markAttachmentPending := by
  unfold Media.markAttachmentPending
  split
  · exact ⟨rfl, rfl⟩
  · split <;> exact ⟨rfl, rfl⟩

theorem onAttachmentStored_still (s : Media) : Still s s.onAttachmentStored := by
  unfold Media.onAttachmentStored
  split
  · exact markAttachmentPending_still s
  · split
    · exact ⟨rfl, rfl⟩
    · exact markAttachmentPending_still s

theorem queuePrompt_still (s : Media) (transcript prompt action source : Text) :
    Still s (s.queuePrompt transcript prompt action source) := by
  unfold Media.queuePrompt
  dsimp only
  split
  · exact ⟨rfl, rfl⟩
  · split
    · exact ⟨rfl, rfl⟩
    · split
      · exact ⟨rfl, rfl⟩
      · split <;> exact ⟨rfl, rfl⟩

theorem clearPendingOnInterruption_still (s : Media) :
    Still s s.clearPendingOnInterruption := by
  unfold Media.clearPendingOnInterruption
  split <;> exact ⟨rfl, rfl⟩

theorem agrees_storeUpload (hlower : Lowers lower)
    (h : Agrees N (sessionAfter lower own N.session) s) (u : Upload) :
    Agrees N (sessionAfter lower (own ++ callsFor N s (.upload u)) N.session)
      (s.storeUpload u) := by
  refine agrees_call N.session_clean h fun n σ hagrees => hagrees.store hlower u .upload ?_ ?_
  · unfold Media.storeUpload
    split <;> rfl
  · unfold Media.storeUpload
    split <;> simp [*]

theorem agrees_storeCapture (hlower : Lowers lower)
    (h : Agrees N (sessionAfter lower own N.session) s) (request : ℕ) (u : Option Upload) :
    Agrees N (sessionAfter lower (own ++ callsFor N s (.storeCapture request u)) N.session)
      (s.storeCapture request u) := by
  cases u with
  | none =>
    rw [callsFor, List.append_nil]
    exact h.same rfl rfl
  | some u =>
    refine agrees_call N.session_clean h fun n σ hagrees =>
      hagrees.store hlower { u with kind := some .image } .capture ?_ ?_
    · unfold Media.storeCapture
      dsimp only
      split <;> rfl
    · unfold Media.storeCapture
      dsimp only
      split <;> simp [*]

/-- Step lemma: a move from outside is what its call does. -/
theorem agrees_apply (hlower : Lowers lower) (h : Agrees N (sessionAfter lower own N.session) s)
    (m : Move) :
    Agrees N (sessionAfter lower (own ++ callsFor N s m) N.session) (s.apply m) := by
  have hstill : ∀ s', Still s s' →
      Agrees N (sessionAfter lower (own ++ []) N.session) s' := fun s' hs => by
    rw [List.append_nil]
    exact hs.agrees h
  cases m with
  | upload u => exact agrees_storeUpload hlower h u
  | callback => exact hstill _ (onAttachmentStored_still { s with callbacks := s.callbacks - 1 })
  | highresCapture query =>
    rw [callsFor]
    by_cases hquery : strip query = []
    · rw [if_pos hquery, Media.apply, Media.queueHighresCapture, if_pos hquery]
      exact hstill _ ⟨rfl, rfl⟩
    · rw [if_neg hquery]
      exact agrees_call N.session_clean h fun n σ hagrees => hagrees.request query hquery
  | acceptCapture request =>
    exact agrees_call N.session_clean h fun n σ hagrees => hagrees.consume request
  | storeCapture request u => exact agrees_storeCapture hlower h request u
  | prompt transcript prompt action source => exact hstill _ (queuePrompt_still s _ _ _ _)
  | interruption => exact hstill _ (clearPendingOnInterruption_still s)

end Moves

section Programs

theorem always_queueFrame (l : Site) (f : Frame) : Always Tidies (queueFrame l f) := by
  refine .bind (.modify fun s => .same rfl rfl) fun _ => .bind (.pause l) fun reply => ?_
  exact .ite (.raise _) (.pure _)

theorem always_startPending (n : ℕ) : Always Tidies (startPending n) := by
  refine .bind .get fun s => .bind (.modify fun s => .same rfl rfl) fun _ => ?_
  refine .ite (.pure _) ?_
  cases s.latestUserAttachment with
  | none => exact .pure _
  | some a =>
    refine .ite (.pure _) (.ite (.pure _) ?_)
    refine .bind (.modify fun s => .same rfl rfl) fun _ =>
      .bind (.modify fun s => .same rfl rfl) fun _ => .bind (.pause _) fun reply => ?_
    exact .ite (.modify fun s => .same rfl rfl) (.modify fun s => .same rfl rfl)

theorem always_analyzeCapture (n : ℕ) (a : Attachment) (query : Text) :
    Always Tidies (analyzeCapture n a query) := by
  refine .bind (.modify fun s => .same rfl rfl) fun _ => .bind (.pause _) fun reply => ?_
  refine .ite (.modify fun s => ?_) (.modify fun s => .same rfl rfl)
  exact (removeAttachment_tidies s _).trans (.same rfl rfl)

theorem always_emitAnalysisResponse (job : JobId) (r : Response) (isCapture : Bool) :
    Always Tidies (emitAnalysisResponse job r isCapture) := by
  refine .bind (.modify fun s => ?_) fun _ => .bind (.pause _) fun _ => ?_
  · split <;> exact .same rfl rfl
  · exact .bind (always_queueFrame _ _) fun _ => .bind (always_queueFrame _ _) fun _ =>
      .bind (always_queueFrame _ _) fun _ => always_queueFrame _ _

theorem always_removeCapture (r : Response) (isCapture : Bool) :
    Always Tidies (removeCapture r isCapture) := by
  refine .modify fun s => ?_
  split
  · exact removeAttachment_tidies s _
  · exact .same rfl rfl

theorem appendFindings_still (s : Media) (patch : Text) : Still s (s.appendFindings patch) := by
  unfold Media.appendFindings
  dsimp only
  split <;> exact ⟨rfl, rfl⟩

theorem noteAnalysis_still (s : Media) (r : Response) : Still s (s.noteAnalysis r) := by
  unfold Media.noteAnalysis
  split
  · exact ⟨rfl, rfl⟩
  · split
    · exact ⟨rfl, rfl⟩
    · split
      · exact appendFindings_still s _
      · split <;> exact ⟨rfl, rfl⟩

theorem always_handleJobResponse (job : JobId) (r : Response) :
    Always Tidies (handleJobResponse job r) := by
  refine .bind (.modify fun s => .same rfl rfl) fun _ => .bind .get fun s => ?_
  refine .bind (.modify fun s => .same rfl rfl) fun _ => ?_
  refine .ite (always_removeCapture r _) (.bind (.modify fun s => ?_) fun _ => ?_)
  · split
    · exact .same rfl rfl
    · exact .same (noteAnalysis_still s r).1 (noteAnalysis_still s r).2
  · refine .bind (.ensure (always_emitAnalysisResponse job r _) (always_removeCapture r _))
      fun _ => .modify fun s => ?_
    unfold Media.closeActive
    split <;> exact .same rfl rfl

theorem always_body (t : Task) (loop : Loop) (reply : Reply) :
    Always Tidies (media.body t loop reply) := by
  change Always Tidies (turn t loop reply)
  unfold turn
  split
  · exact .bind (always_startPending _) fun _ => .pure _
  · exact .bind (always_handleJobResponse _ _) fun _ => .pure _
  · refine .bind .get fun s => ?_
    split
    · exact .pure _
    · exact .bind (always_analyzeCapture _ _ _) fun _ => .pure _
  · exact .pure _

end Programs

section Runs
variable (N : Naming) (allowed : MediaView → Task → Reply → Prop) (cond : Media → Move → Prop)
  (base : SpeakerContext.Message)

/-- A run, with the calls of the store that it makes. -/
inductive Makes : MediaPool → List Call → Prop
  | fresh : Makes (freshMedia base) []
  | outside {p : MediaPool} {own : List Call} (h : Makes p own) (m : Move)
      (hopen : m.Open p.shared) (hcond : cond p.shared m) :
      Makes ⟨p.shared.apply m, p.task⟩ (own ++ callsFor N p.shared m)
  | turn {p : MediaPool} {own : List Call} (h : Makes p own) (t : Task) (i : Reply)
      (hallowed : allowed p.view t i) :
      Makes (media.resume p t i)
        (own ++ (gone p.shared (media.resume p t i).shared).map (removal N))

variable {N allowed cond base} {lower : Text → Text} {p : MediaPool} {own : List Call}

/-- Every run makes some calls. -/
theorem exists_makes (h : media.Reach allowed (outside cond) (freshMedia base) p) :
    ∃ own, Makes N allowed cond base p own := by
  induction h with
  | refl => exact ⟨[], .fresh⟩
  | tail _ hstep ih =>
    obtain ⟨own, hmakes⟩ := ih
    cases hstep with
    | turn t i hallowed => exact ⟨_, hmakes.turn t i hallowed⟩
    | outside s he =>
      obtain ⟨m, hopen, hcond, rfl⟩ := he
      exact ⟨_, hmakes.outside m hopen hcond⟩

theorem Makes.session (h : Makes N allowed cond base p own) : ∀ c ∈ own, c.session = N.session := by
  induction h with
  | fresh => exact fun c hc => absurd hc List.not_mem_nil
  | outside _ m _ _ ih =>
    intro c hc
    exact (List.mem_append.mp hc).elim (ih c) (session_callsFor N _ m c)
  | turn _ t i _ ih =>
    intro c hc
    rcases List.mem_append.mp hc with hc | hc
    · exact ih c hc
    · obtain ⟨id, -, rfl⟩ := List.mem_map.mp hc
      exact N.session_clean

/-- Step lemma: a turn removes attachments at most. -/
theorem tidies_turn (hp : Tame (fun _ => Tidies) p) (t : Task) (i : Reply) :
    Tame (fun _ => Tidies) (media.resume p t i) ∧ Tidies p.shared (media.resume p t i).shared := by
  have hstep : media.Step (fun _ _ _ => True) (fun _ _ => False) p (media.resume p t i) :=
    .turn p t i trivial
  obtain ⟨htame, hmoves⟩ := hp.step always_body hstep
  obtain ⟨-, hmoves⟩ := hmoves.resolve_right id
  exact ⟨htame, tidies_moves hmoves⟩

/-- Run lemma: the calls of a run leave what media analysis goes by. -/
theorem Makes.agrees (hlower : Lowers lower) (h : Makes N allowed cond base p own) :
    Tame (fun _ => Tidies) p ∧ Agrees N (sessionAfter lower own N.session) p.shared := by
  induction h with
  | fresh => exact ⟨tame_start always_body _ _, .nil, rfl⟩
  | outside _ m _ _ ih => exact ⟨ih.1, agrees_apply hlower ih.2 m⟩
  | turn _ t i _ ih =>
    obtain ⟨htame, htidies⟩ := tidies_turn ih.1 t i
    exact ⟨htame, htidies.agrees ih.2⟩

/-- Numbers do not matter to what media analysis sees. -/
theorem agrees_unnumbered {σ σ' : Session} {s : Media} (h : σ.unnumbered = σ'.unnumbered)
    (ha : Agrees N σ s) : Agrees N σ' s := by
  have hnamed : ∀ a m, Named N a.unnumbered m ↔ Named N a m := fun a m =>
    ⟨fun h => ⟨h.id, h.kind, h.name, h.contentType, h.bytes, h.source⟩,
      fun h => ⟨h.id, h.kind, h.name, h.contentType, h.bytes, h.source⟩⟩
  have hmap : ∀ l l',
      List.Forall₂ (Named N) (l.map .unnumbered) l' ↔ List.Forall₂ (Named N) l l' := by
    intro l l'
    simp only [List.forall₂_map_left_iff, hnamed]
  obtain ⟨hattachments, -, hrequest⟩ := Session.mk.inj h
  refine ⟨?_, hrequest ▸ ha.captureRequest⟩
  rw [← hmap, ← hattachments, hmap]
  exact ha.attachments

/-- Both stores return the same attachments, or none. -/
theorem Agrees.reads {d : AttachmentStore.Store} {s : Media}
    (h : Agrees N (d.session N.session) s) :
    Option.Rel (Named N) (d.latestAttachment N.session) s.latestAttachment ∧
      Option.Rel (Named N) (d.latestUserAttachment N.session) s.latestUserAttachment := by
  have hof : d.attachmentsOf N.session = (d.session N.session).attachments := by
    rw [AttachmentStore.Store.attachmentsOf, N.session_clean]
    rfl
  rw [AttachmentStore.Store.latestAttachment, AttachmentStore.Store.latestUserAttachment, hof]
  exact ⟨h.latest, h.latestUser⟩

/-- Refinement: every run of media analysis makes calls of its session, and under any calls for
other sessions its attachments and its capture request are those that these leave in the store,
and what it reads there is what the store returns. -/
theorem media_refines_store (hlower : Lowers lower)
    (h : media.Reach allowed (outside cond) (freshMedia base) p) :
    (∃ own, Makes N allowed cond base p own ∧ ownCalls N.session own = own) ∧
      ∀ own, Makes N allowed cond base p own → ∀ calls, ownCalls N.session calls = own →
        Agrees N ((after lower calls).1.session N.session) p.shared ∧
          Option.Rel (Named N) ((after lower calls).1.latestAttachment N.session)
            p.shared.latestAttachment ∧
          Option.Rel (Named N) ((after lower calls).1.latestUserAttachment N.session)
            p.shared.latestUserAttachment := by
  constructor
  · obtain ⟨own, hmakes⟩ := exists_makes (N := N) h
    exact ⟨own, hmakes, List.filter_eq_self.mpr fun c hc => decide_eq_true (hmakes.session c hc)⟩
  · intro own hmakes calls hcalls
    have hstored : Agrees N ((after lower calls).1.session N.session) p.shared := by
      refine agrees_unnumbered ?_ (hmakes.agrees hlower).2
      rw [(AttachmentStore.after_isolated lower calls N.session).1, hcalls]
      rfl
    exact ⟨hstored, hstored.reads⟩

end Runs

end VoiceAgent.MediaStore
