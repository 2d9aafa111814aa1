import VoiceAgent.KeyedRuns
import VoiceAgent.MediaAnalysis

/-!
The attachment store of all sessions: three dictionaries and a counter. Every function holds one
lock while it reads and writes, so what threads do to the store is some sequence of calls; only
the listeners of a session are called when the lock is free again. Ids and times come from
outside. No call reads or writes the dictionaries but at the key of its own session, so the store
is a machine with a state under every key.
-/
namespace VoiceAgent.AttachmentStore

open StreamingEvents KeyedRuns
open MediaAnalysis (Kind Source kindName)

section Store

structure Attachment where
  id : Text
  sessionId : Text
  sequence : ℕ
  kind : Kind
  name : Text
  contentType : Text
  data : List UInt8
  createdAt : Text
  source : Source := .upload
  deriving DecidableEq

/-- The arguments of `store_attachment`, with the id and the time that the call draws. -/
structure Upload where
  sessionId : Text
  kind : Text
  name : Text
  contentType : Text
  data : List UInt8
  source : Text := "upload".toList
  id : Text
  createdAt : Text
  deriving DecidableEq

variable (lower : Text → Text)

def readKind (kind : Text) : Option Kind :=
  [Kind.image, .audio, .video].find? fun k => kindName k = lower (strip kind)

def readSource (source : Text) : Option Source :=
  let cleaned := lower (strip source)
  if cleaned = [] ∨ cleaned = "upload".toList then some .upload
  else if cleaned = "capture".toList then some .capture
  else none

def orElse (text fallback : Text) : Text := if text = [] then fallback else text

/-- The checks of `store_attachment`, in their order. -/
def checkUpload (u : Upload) : Except Text (Kind × Source) :=
  if strip u.sessionId = [] then .error "session_id is required".toList
  else match readKind lower u.kind, readSource lower u.source with
  | none, _ => .error "kind must be image, audio, or video".toList
  | some _, none => .error "source must be upload or capture".toList
  | some kind, some source =>
    if u.data = [] then .error "attachment is empty".toList else .ok (kind, source)

def readAttachment (u : Upload) (sequence : ℕ) : Except Text Attachment :=
  (checkUpload lower u).map fun (kind, source) =>
    { id := u.id
      sessionId := strip u.sessionId
      sequence := sequence
      kind := kind
      name := orElse (strip u.name) "attachment".toList
      contentType := orElse (strip u.contentType) (kindName kind ++ "/*".toList)
      data := u.data
      createdAt := u.createdAt
      source := source }

inductive Call
  | register (sessionId : Text) (listener : ℕ)
  | unregister (sessionId : Text) (listener : ℕ)
  | createCaptureRequest (sessionId requestId : Text)
  | consumeCaptureRequest (sessionId requestId : Text)
  | storeAttachment (u : Upload)
  | latestAttachment (sessionId : Text)
  | latestUserAttachment (sessionId : Text)
  | getAttachment (sessionId attachmentId : Text)
  | removeAttachment (sessionId attachmentId : Text)
  | clearSessionAttachments (sessionId : Text)
  deriving DecidableEq

/-- The session id of a call, stripped. -/
def Call.session : Call → Text
  | .register s _ | .unregister s _ | .createCaptureRequest s _ | .consumeCaptureRequest s _
  | .latestAttachment s | .latestUserAttachment s | .getAttachment s _ | .removeAttachment s _
  | .clearSessionAttachments s => strip s
  | .storeAttachment u => strip u.sessionId

/-- What a call returns; a stored attachment comes with the listeners that are called for it. -/
inductive Reply
  | done
  | raised (message : Text)
  | requested (requestId : Text)
  | consumed (matched : Bool)
  | stored (a : Attachment) (notified : List ℕ)
  | found (a : Option Attachment)
  deriving DecidableEq

/-- The counter and the three dictionaries. -/
structure Store where
  sequence : ℕ := 1
  attachments : Text → Option (List Attachment) := fun _ => none
  listeners : Text → Option (List ℕ) := fun _ => none
  captureRequests : Text → Option Text := fun _ => none

namespace Store
variable (d : Store)

def attachmentsOf (sessionId : Text) : List Attachment :=
  (d.attachments (strip sessionId)).getD []

def listenersOf (sessionId : Text) : List ℕ := (d.listeners (strip sessionId)).getD []

def registerAttachmentListener (sessionId : Text) (listener : ℕ) : Store :=
  if strip sessionId = [] then d
  else
    { d with
      listeners := Function.update d.listeners (strip sessionId)
        (some (d.listenersOf sessionId ++ [listener])) }

/-- What `register_attachment_listener` returns. -/
def unregister (sessionId : Text) (listener : ℕ) : Store :=
  if strip sessionId = [] ∨ d.listenersOf sessionId = [] then d
  else
    let left := (d.listenersOf sessionId).erase listener
    { d with
      listeners := Function.update d.listeners (strip sessionId)
        (if left = [] then none else some left) }

def createCaptureRequest (sessionId requestId : Text) : Store × Reply :=
  if strip sessionId = [] then (d, .raised "session_id is required".toList)
  else
    ({ d with
      captureRequests := Function.update d.captureRequests (strip sessionId) (some requestId) },
      .requested requestId)

def consumeCaptureRequest (sessionId requestId : Text) : Store × Bool :=
  if strip sessionId = [] ∨ strip requestId = [] then (d, false)
  else if d.captureRequests (strip sessionId) ≠ some (strip requestId) then (d, false)
  else
    ({ d with captureRequests := Function.update d.captureRequests (strip sessionId) none }, true)

def storeAttachment (u : Upload) : Store × Reply :=
  match readAttachment lower u d.sequence with
  | .error message => (d, .raised message)
  | .ok a =>
    ({ d with
      sequence := d.sequence + 1
      attachments := Function.update d.attachments (strip u.sessionId)
        (some (d.attachmentsOf u.sessionId ++ [a])) },
      .stored a (d.listenersOf u.sessionId))

def latestAttachment (sessionId : Text) : Option Attachment :=
  (d.attachmentsOf sessionId).getLast?

def latestUserAttachment (sessionId : Text) : Option Attachment :=
  (d.attachmentsOf sessionId).reverse.find? fun a => a.source = .upload

def getAttachment (sessionId attachmentId : Text) : Option Attachment :=
  if strip sessionId = [] ∨ strip attachmentId = [] then none
  else (d.attachmentsOf sessionId).find? fun a => a.id = strip attachmentId

def removeAttachment (sessionId attachmentId : Text) : Store :=
  if strip sessionId = [] ∨ strip attachmentId = [] then d
  else if d.attachmentsOf sessionId = [] then d
  else
    { d with
      attachments := Function.update d.attachments (strip sessionId)
        (some ((d.attachmentsOf sessionId).filter fun a => a.id ≠ strip attachmentId)) }

def clearSessionAttachments (sessionId : Text) : Store :=
  { d with
    attachments := Function.update d.attachments (strip sessionId) none
    listeners := Function.update d.listeners (strip sessionId) none
    captureRequests := Function.update d.captureRequests (strip sessionId) none }

def perform : Call → Store × Reply
  | .register sessionId listener => (d.registerAttachmentListener sessionId listener, .done)
  | .unregister sessionId listener => (d.unregister sessionId listener, .done)
  | .createCaptureRequest sessionId requestId => d.createCaptureRequest sessionId requestId
  | .consumeCaptureRequest sessionId requestId =>
    ((d.consumeCaptureRequest sessionId requestId).1,
      .consumed (d.consumeCaptureRequest sessionId requestId).2)
  | .storeAttachment u => d.storeAttachment lower u
  | .latestAttachment sessionId => (d, .found (d.latestAttachment sessionId))
  | .latestUserAttachment sessionId => (d, .found (d.latestUserAttachment sessionId))
  | .getAttachment sessionId attachmentId => (d, .found (d.getAttachment sessionId attachmentId))
  | .removeAttachment sessionId attachmentId => (d.removeAttachment sessionId attachmentId, .done)
  | .clearSessionAttachments sessionId => (d.clearSessionAttachments sessionId, .done)

end Store

/-- The replies so far, each with its call. -/
abbrev Log := List (Call × Reply)

/-- The store after a sequence of calls, and what they returned. -/
def after (calls : List Call) : Store × Log :=
  calls.foldl (fun p c => ((p.1.perform lower c).1, p.2 ++ [(c, (p.1.perform lower c).2)])) ({}, [])

def log (calls : List Call) : Log := (after lower calls).2

end Store

section Sessions
variable (lower : Text → Text)

/-- The three dictionaries at the key of one session; a missing entry is an empty one. -/
structure Session where
  attachments : List Attachment := []
  listeners : List ℕ := []
  captureRequest : Option Text := none
  deriving DecidableEq

def Store.session (d : Store) (k : Text) : Session where
  attachments := (d.attachments k).getD []
  listeners := (d.listeners k).getD []
  captureRequest := d.captureRequests k

namespace Session
variable (s : Session)

def latest : Option Attachment := s.attachments.getLast?

def latestUser : Option Attachment := s.attachments.reverse.find? fun a => a.source = .upload

def get (attachmentId : Text) : Option Attachment :=
  if strip attachmentId = [] then none
  else s.attachments.find? fun a => a.id = strip attachmentId

def remove (attachmentId : Text) : Session :=
  { s with attachments := s.attachments.filter fun a => a.id ≠ strip attachmentId }

/-- Whether `consume_capture_request` accepts an id. -/
def expects (requestId : Text) : Bool :=
  strip requestId ≠ [] ∧ s.captureRequest = some (strip requestId)

end Session

/-- What a call does under the key of its session. -/
def act (c : Call) (next : ℕ) (s : Session) : Outcome Session Reply :=
  match c with
  | .register sid listener =>
    if strip sid = [] then ⟨s, .done, false⟩
    else ⟨{ s with listeners := s.listeners ++ [listener] }, .done, false⟩
  | .unregister sid listener =>
    if strip sid = [] then ⟨s, .done, false⟩
    else ⟨{ s with listeners := s.listeners.erase listener }, .done, false⟩
  | .createCaptureRequest sid requestId =>
    if strip sid = [] then ⟨s, .raised "session_id is required".toList, false⟩
    else ⟨{ s with captureRequest := some requestId }, .requested requestId, false⟩
  | .consumeCaptureRequest sid requestId =>
    if strip sid ≠ [] ∧ s.expects requestId then
      ⟨{ s with captureRequest := none }, .consumed true, false⟩
    else ⟨s, .consumed false, false⟩
  | .storeAttachment u =>
    match readAttachment lower u next with
    | .error message => ⟨s, .raised message, false⟩
    | .ok a => ⟨{ s with attachments := s.attachments ++ [a] }, .stored a s.listeners, true⟩
  | .latestAttachment _ => ⟨s, .found s.latest, false⟩
  | .latestUserAttachment _ => ⟨s, .found s.latestUser, false⟩
  | .getAttachment sid attachmentId =>
    if strip sid = [] then ⟨s, .found none, false⟩ else ⟨s, .found (s.get attachmentId), false⟩
  | .removeAttachment sid attachmentId =>
    if strip sid = [] ∨ strip attachmentId = [] then ⟨s, .done, false⟩
    else ⟨s.remove attachmentId, .done, false⟩
  | .clearSessionAttachments _ => ⟨{}, .done, false⟩

def sessions : Machine Call Text Session Reply where
  key := Call.session
  init := {}
  act := act lower

/-- What `store_attachment` makes of an upload: its id, its session and the next number. -/
theorem readAttachment_ok {u : Upload} {n : ℕ} {a : Attachment}
    (h : readAttachment lower u n = .ok a) :
    a.id = u.id ∧ a.sessionId = strip u.sessionId ∧ a.sequence = n ∧
      ∀ m, readAttachment lower u m = .ok { a with sequence := m } := by
  unfold readAttachment at h ⊢
  cases hcheck : checkUpload lower u with
  | error message =>
    rw [hcheck] at h
    cases h
  | ok checked =>
    rw [hcheck] at h
    cases h
    exact ⟨rfl, rfl, rfl, fun m => rfl⟩

theorem readAttachment_error {u : Upload} {n : ℕ} {message : Text}
    (h : readAttachment lower u n = .error message) (m : ℕ) :
    readAttachment lower u m = .error message := by
  unfold readAttachment at h ⊢
  cases hcheck : checkUpload lower u with
  | error message' =>
    rw [hcheck] at h
    exact h
  | ok checked =>
    rw [hcheck] at h
    cases h

end Sessions

section Refinement
variable {lower : Text → Text} {d : Store}

theorem session_attachments (k : Text) (entry : Option (List Attachment)) :
    ({ d with attachments := Function.update d.attachments k entry } : Store).session =
      Function.update d.session k { d.session k with attachments := entry.getD [] } := by
  funext k'
  by_cases h : k' = k
  · subst h
    simp [Store.session]
  · simp [Store.session, h]

theorem session_listeners (k : Text) (entry : Option (List ℕ)) :
    ({ d with listeners := Function.update d.listeners k entry } : Store).session =
      Function.update d.session k { d.session k with listeners := entry.getD [] } := by
  funext k'
  by_cases h : k' = k
  · subst h
    simp [Store.session]
  · simp [Store.session, h]

theorem session_captureRequests (k : Text) (entry : Option Text) :
    ({ d with captureRequests := Function.update d.captureRequests k entry } : Store).session =
      Function.update d.session k { d.session k with captureRequest := entry } := by
  funext k'
  by_cases h : k' = k
  · subst h
    simp [Store.session]
  · simp [Store.session, h]

/-- The dictionaries and the counter are as the outcome says, and so is the reply. -/
def Follows (d : Store) (k : Text) (o : Outcome Session Reply) (p : Store × Reply) : Prop :=
  p.2 = o.reply ∧ p.1.sequence = (if o.counted then d.sequence + 1 else d.sequence) ∧
    p.1.session = Function.update d.session k o.state

theorem follows_refl (k : Text) (r : Reply) : Follows d k ⟨d.session k, r, false⟩ (d, r) :=
  ⟨rfl, rfl, (Function.update_eq_self ..).symm⟩

/-- An emptied list of listeners is dropped, which the session does not see. -/
theorem left_getD (left : List ℕ) : (if left = [] then none else some left).getD [] = left := by
  split
  · next h => exact h.symm
  · rfl

theorem unregister_follows (sid : Text) (listener : ℕ) :
    Follows d (strip sid) (act lower (.unregister sid listener) d.sequence (d.session (strip sid)))
      (d.perform lower (.unregister sid listener)) := by
  rw [act, Store.perform, Store.unregister]
  by_cases hid : strip sid = []
  · rw [if_pos hid, if_pos (Or.inl hid)]
    exact follows_refl _ _
  · rw [if_neg hid]
    by_cases hnone : d.listenersOf sid = []
    · have hlisteners : (d.session (strip sid)).listeners = [] := hnone
      rw [if_pos (Or.inr hnone), hlisteners, List.erase_nil, ← hlisteners]
      exact follows_refl _ _
    · rw [if_neg (not_or.mpr ⟨hid, hnone⟩)]
      refine ⟨rfl, rfl, (session_listeners _ _).trans ?_⟩
      rw [left_getD]
      rfl

theorem removeAttachment_follows (sid attachmentId : Text) :
    Follows d (strip sid)
      (act lower (.removeAttachment sid attachmentId) d.sequence (d.session (strip sid)))
      (d.perform lower (.removeAttachment sid attachmentId)) := by
  rw [act, Store.perform, Store.removeAttachment]
  by_cases hid : strip sid = [] ∨ strip attachmentId = []
  · rw [if_pos hid, if_pos hid]
    exact follows_refl _ _
  · rw [if_neg hid, if_neg hid]
    by_cases hnone : d.attachmentsOf sid = []
    · have hattachments : (d.session (strip sid)).attachments = [] := hnone
      rw [if_pos hnone, Session.remove, hattachments, List.filter_nil, ← hattachments]
      exact follows_refl _ _
    · rw [if_neg hnone]
      exact ⟨rfl, rfl, session_attachments _ _⟩

theorem clearSessionAttachments_follows (sid : Text) :
    Follows d (strip sid)
      (act lower (.clearSessionAttachments sid) d.sequence (d.session (strip sid)))
      (d.perform lower (.clearSessionAttachments sid)) := by
  refine ⟨rfl, rfl, ?_⟩
  funext k
  by_cases h : k = strip sid
  · subst h
    simp [act, Store.perform, Store.clearSessionAttachments, Store.session]
  · simp [Store.perform, Store.clearSessionAttachments, Store.session, h]

theorem consumeCaptureRequest_follows (sid requestId : Text) :
    Follows d (strip sid)
      (act lower (.consumeCaptureRequest sid requestId) d.sequence (d.session (strip sid)))
      (d.perform lower (.consumeCaptureRequest sid requestId)) := by
  rw [act, Store.perform, Store.consumeCaptureRequest]
  by_cases hid : strip sid = [] ∨ strip requestId = []
  · have hrefused : ¬(strip sid ≠ [] ∧ (d.session (strip sid)).expects requestId) := by
      simpa [Session.expects, imp_iff_not_or, or_assoc] using hid.imp id Or.inl
    rw [if_pos hid, if_neg hrefused]
    exact follows_refl _ _
  · rw [if_neg hid]
    by_cases hmatch : d.captureRequests (strip sid) = some (strip requestId)
    · have haccepted : strip sid ≠ [] ∧ (d.session (strip sid)).expects requestId := by
        simpa [Session.expects, Store.session, hmatch] using hid
      rw [if_pos haccepted, if_neg (not_not.mpr hmatch)]
      exact ⟨rfl, rfl, session_captureRequests _ _⟩
    · have hrefused : ¬(strip sid ≠ [] ∧ (d.session (strip sid)).expects requestId) := by
        simp [Session.expects, Store.session, hmatch]
      rw [if_neg hrefused, if_pos hmatch]
      exact follows_refl _ _

variable (lower d)

/-- Step lemma: a call reads and writes the dictionaries at the key of its session only. -/
theorem perform_follows (c : Call) :
    Follows d c.session (act lower c d.sequence (d.session c.session)) (d.perform lower c) := by
  cases c with
  | register sid listener =>
    rw [act, Store.perform, Store.registerAttachmentListener]
    split
    · exact follows_refl _ _
    · exact ⟨rfl, rfl, session_listeners _ _⟩
  | unregister sid listener => exact unregister_follows sid listener
  | createCaptureRequest sid requestId =>
    rw [act, Store.perform, Store.createCaptureRequest]
    split
    · exact follows_refl _ _
    · exact ⟨rfl, rfl, session_captureRequests _ _⟩
  | consumeCaptureRequest sid requestId => exact consumeCaptureRequest_follows sid requestId
  | storeAttachment u =>
    rw [act, Store.perform, Store.storeAttachment]
    cases readAttachment lower u d.sequence with
    | error message => exact follows_refl _ _
    | ok a => exact ⟨rfl, rfl, session_attachments _ _⟩
  | latestAttachment sid => exact follows_refl _ _
  | latestUserAttachment sid => exact follows_refl _ _
  | getAttachment sid attachmentId =>
    rw [act, Store.perform, Store.getAttachment]
    by_cases hid : strip sid = []
    · rw [if_pos hid, if_pos (Or.inl hid)]
      exact follows_refl _ _
    · rw [if_neg hid, Session.get]
      simp only [hid, false_or]
      exact follows_refl _ _
  | removeAttachment sid attachmentId => exact removeAttachment_follows sid attachmentId
  | clearSessionAttachments sid => exact clearSessionAttachments_follows sid

theorem after_snoc (calls : List Call) (c : Call) : after lower (calls ++ [c]) =
    (((after lower calls).1.perform lower c).1,
      (after lower calls).2 ++ [(c, ((after lower calls).1.perform lower c).2)]) := by
  rw [after, List.foldl_append]
  rfl

/-- Run lemma: the counter, the dictionaries and the replies are those of the machine that keeps
one session under each key. -/
theorem after_refines (calls : List Call) :
    (after lower calls).1.sequence = (run (sessions lower) calls).next ∧
      (after lower calls).1.session = (run (sessions lower) calls).states ∧
      (after lower calls).2 = (run (sessions lower) calls).replies := by
  induction calls using List.reverseRecOn with
  | nil => exact ⟨rfl, rfl, rfl⟩
  | append_singleton calls c ih =>
    obtain ⟨hsequence, hsession, hlog⟩ := ih
    obtain ⟨hreply, hcounted, hstate⟩ := perform_follows lower (after lower calls).1 c
    rw [hsequence, hsession] at hreply hcounted hstate
    rw [after_snoc, run_snoc, hlog, hreply]
    exact ⟨hcounted, hstate, rfl⟩

end Refinement

section Isolation
variable (lower : Text → Text)

def Attachment.unnumbered (a : Attachment) : Attachment := { a with sequence := 0 }

def Session.unnumbered (s : Session) : Session :=
  { s with attachments := s.attachments.map Attachment.unnumbered }

def Reply.unnumbered : Reply → Reply
  | .stored a notified => .stored a.unnumbered notified
  | .found a => .found (a.map Attachment.unnumbered)
  | r => r

/-- A search that does not look at the numbers finds the same. -/
theorem find?_unnumbered (p : Attachment → Bool) (hp : ∀ a, p a.unnumbered = p a)
    (l : List Attachment) :
    (l.find? p).map Attachment.unnumbered = (l.map Attachment.unnumbered).find? p := by
  rw [List.find?_map]
  congr 2
  funext a
  exact (hp a).symm

theorem latest_unnumbered (s : Session) :
    s.latest.map Attachment.unnumbered = s.unnumbered.latest := by
  simp [Session.latest, Session.unnumbered, List.getLast?_map]

theorem latestUser_unnumbered (s : Session) :
    s.latestUser.map Attachment.unnumbered = s.unnumbered.latestUser := by
  rw [Session.latestUser, find?_unnumbered _ fun _ => rfl, List.map_reverse]
  rfl

theorem get_unnumbered (s : Session) (id : Text) :
    (s.get id).map Attachment.unnumbered = s.unnumbered.get id := by
  rw [Session.get, Session.get]
  split
  · rfl
  · exact find?_unnumbered _ (fun _ => rfl) _

theorem remove_unnumbered (s : Session) (id : Text) :
    (s.remove id).unnumbered = s.unnumbered.remove id := by
  simp only [Session.remove, Session.unnumbered, List.filter_map, Session.mk.injEq, and_true]
  rfl

/-- A call does the same to two sessions that differ in numbers only. -/
theorem act_unnumbered (c : Call) (n n' : ℕ) {s s' : Session}
    (h : s.unnumbered = s'.unnumbered) :
    (act lower c n s).state.unnumbered = (act lower c n' s').state.unnumbered ∧
      (act lower c n s).reply.unnumbered = (act lower c n' s').reply.unnumbered := by
  obtain ⟨hattachments, hlisteners, hrequest⟩ := Session.mk.inj h
  cases c with
  | register sid listener =>
    rw [act, act]
    split
    · exact ⟨h, rfl⟩
    · simp [Session.unnumbered, hlisteners, hrequest, hattachments]
  | unregister sid listener =>
    rw [act, act]
    split
    · exact ⟨h, rfl⟩
    · simp [Session.unnumbered, hlisteners, hrequest, hattachments]
  | createCaptureRequest sid requestId =>
    rw [act, act]
    split
    · exact ⟨h, rfl⟩
    · simp [Session.unnumbered, hlisteners, hattachments]
  | consumeCaptureRequest sid requestId =>
    rw [act, act, show s.expects requestId = s'.expects requestId by
      rw [Session.expects, Session.expects, hrequest]]
    split
    · simp [Session.unnumbered, hlisteners, hattachments]
    · exact ⟨h, rfl⟩
  | storeAttachment u =>
    rw [act, act]
    cases hread : readAttachment lower u n with
    | error message =>
      rw [readAttachment_error lower hread n']
      exact ⟨h, rfl⟩
    | ok a =>
      rw [(readAttachment_ok lower hread).2.2.2 n']
      simp [Session.unnumbered, Reply.unnumbered, Attachment.unnumbered, hlisteners, hrequest,
        hattachments]
  | latestAttachment sid =>
    exact ⟨h, by simp only [act, Reply.unnumbered, latest_unnumbered, h]⟩
  | latestUserAttachment sid =>
    exact ⟨h, by simp only [act, Reply.unnumbered, latestUser_unnumbered, h]⟩
  | getAttachment sid id =>
    rw [act, act]
    split
    · exact ⟨h, rfl⟩
    · exact ⟨h, by simp only [Reply.unnumbered, get_unnumbered, h]⟩
  | removeAttachment sid id =>
    rw [act, act]
    split
    · exact ⟨h, rfl⟩
    · exact ⟨by simp only [remove_unnumbered, h], rfl⟩
  | clearSessionAttachments sid => exact ⟨rfl, rfl⟩

def ownCalls (k : Text) (calls : List Call) : List Call := calls.filter fun c => c.session = k

def ownReplies (k : Text) (h : Log) : List Reply :=
  (h.filter fun cr => cr.1.session = k).map Prod.snd

theorem after_own (calls : List Call) (k : Text) :
    (after lower calls).1.session k = (run (sessions lower) calls).states k ∧
      ownReplies k (after lower calls).2 =
        repliesOf (sessions lower) k (run (sessions lower) calls) := by
  obtain ⟨-, hsession, hlog⟩ := after_refines lower calls
  rw [hsession, hlog]
  exact ⟨rfl, rfl⟩

/-- A session of the store is that of its own calls, up to the numbers, and so are its replies. -/
theorem after_isolated (calls : List Call) (k : Text) :
    ((after lower calls).1.session k).unnumbered =
        ((after lower (ownCalls k calls)).1.session k).unnumbered ∧
      List.Forall₂ (fun r r' => r.unnumbered = r'.unnumbered) (ownReplies k (after lower calls).2)
        (ownReplies k (after lower (ownCalls k calls)).2) := by
  obtain ⟨hsession, hown⟩ := after_own lower calls k
  obtain ⟨hsession', hown'⟩ := after_own lower (ownCalls k calls) k
  rw [hsession, hsession', hown, hown']
  exact run_isolated (M := sessions lower) (R := fun s s' => s.unnumbered = s'.unnumbered)
    (Q := fun r r' => r.unnumbered = r'.unnumbered) rfl
    (fun c n n' s s' h => act_unnumbered lower c n n' h) calls k

/-- Sessions do not see each other: whatever threads do for other sessions, what the dictionaries
keep for a session and what its calls return are those of its own calls alone, up to the numbers
drawn. -/
theorem session_isolated (calls : List Call) (k : Text) :
    ((after lower calls).1.session k).unnumbered =
        ((after lower (ownCalls k calls)).1.session k).unnumbered ∧
      (ownReplies k (after lower calls).2).map Reply.unnumbered =
        (ownReplies k (after lower (ownCalls k calls)).2).map Reply.unnumbered := by
  obtain ⟨hsession, hreplies⟩ := after_isolated lower calls k
  refine ⟨hsession, ?_⟩
  rwa [← List.forall₂_eq_eq_eq, List.forall₂_map_left_iff, List.forall₂_map_right_iff]

end Isolation

section Contents
variable (lower : Text → Text) {calls : List Call} {k : Text} {a : Attachment}

def sessionAfter (calls : List Call) (k : Text) : Session := (after lower calls).1.session k

variable {lower}

theorem log_snoc (calls : List Call) (c : Call) :
    log lower (calls ++ [c]) = log lower calls ++
      [(c, (act lower c (after lower calls).1.sequence
        (sessionAfter lower calls c.session)).reply)] := by
  rw [log, after_snoc, (perform_follows lower _ c).1]
  rfl

theorem sessionAfter_snoc (calls : List Call) (c : Call) :
    sessionAfter lower (calls ++ [c]) c.session =
      (act lower c (after lower calls).1.sequence (sessionAfter lower calls c.session)).state := by
  rw [sessionAfter, after_snoc, (perform_follows lower _ c).2.2, Function.update_self]
  rfl

theorem sessionAfter_other (calls : List Call) {c : Call} (h : c.session ≠ k) :
    sessionAfter lower (calls ++ [c]) k = sessionAfter lower calls k := by
  rw [sessionAfter, after_snoc, (perform_follows lower _ c).2.2, Function.update_of_ne h.symm]
  rfl

/-- A call that takes this attachment out of its session. -/
def Drops (a : Attachment) : Call → Prop
  | .removeAttachment sid id => strip sid ≠ [] ∧ strip id ≠ [] ∧ a.id = strip id
  | .clearSessionAttachments _ => True
  | _ => False

/-- The attachment was stored in the session, and nothing has taken it out since. -/
def Live (k : Text) (a : Attachment) (h : Log) : Prop :=
  a.sessionId = k ∧ Since (fun cr : Call × Reply => ∃ notified, cr.2 = .stored a notified)
    (fun cr => cr.1.session = k → ¬Drops a cr.1) h

theorem live_snoc {h : Log} {cr : Call × Reply} : Live k a (h ++ [cr]) ↔
    (a.sessionId = k ∧ ∃ notified, cr.2 = .stored a notified) ∨
      (Live k a h ∧ (cr.1.session = k → ¬Drops a cr.1)) := by
  rw [Live, since_snoc, Live]
  tauto

/-- Step lemma: the attachments of a session after one of its calls. -/
theorem mem_act (c : Call) (n : ℕ) (s : Session) : a ∈ (act lower c n s).state.attachments ↔
    (∃ notified, (act lower c n s).reply = .stored a notified) ∨
      (a ∈ s.attachments ∧ ¬Drops a c) := by
  cases c with
  | storeAttachment u =>
    rw [act]
    cases readAttachment lower u n with
    | error message => simp [Drops]
    | ok b => simp [Drops, or_comm, eq_comm]
  | removeAttachment sid id =>
    rw [act]
    split
    · next h =>
      rcases h with h | h
      · simp_all [Drops]
      · simp_all [Drops]
    · next h =>
      simp only [not_or] at h
      simp [Drops, Session.remove, h.1, h.2]
  | clearSessionAttachments sid => simp [act, Drops]
  | register sid listener => rw [act]; split <;> simp [Drops]
  | unregister sid listener => rw [act]; split <;> simp [Drops]
  | createCaptureRequest sid requestId => rw [act]; split <;> simp [Drops]
  | consumeCaptureRequest sid requestId => rw [act]; split <;> simp [Drops]
  | latestAttachment sid => simp [act, Drops]
  | latestUserAttachment sid => simp [act, Drops]
  | getAttachment sid id => rw [act]; split <;> simp [Drops]

theorem stored_session {c : Call} {n : ℕ} {s : Session} {notified : List ℕ}
    (h : (act lower c n s).reply = .stored a notified) :
    a.sessionId = c.session ∧ a.sequence = n ∧ (act lower c n s).counted = true ∧
      (act lower c n s).state.attachments = s.attachments ++ [a] := by
  cases c with
  | storeAttachment u =>
    rw [act] at h ⊢
    cases hread : readAttachment lower u n with
    | error message => simp [hread] at h
    | ok b =>
      simp only [hread, Reply.stored.injEq] at h
      obtain ⟨rfl, -⟩ := h
      obtain ⟨-, hsession, hsequence, -⟩ := readAttachment_ok lower hread
      exact ⟨hsession, hsequence, rfl, rfl⟩
  | register sid listener => rw [act] at h; split at h <;> cases h
  | unregister sid listener => rw [act] at h; split at h <;> cases h
  | createCaptureRequest sid requestId => rw [act] at h; split at h <;> cases h
  | consumeCaptureRequest sid requestId => rw [act] at h; split at h <;> cases h
  | getAttachment sid id => rw [act] at h; split at h <;> cases h
  | removeAttachment sid id => rw [act] at h; split at h <;> cases h
  | _ => cases h

/-- Run lemma: a session holds what was stored in it and not taken out since. -/
theorem mem_attachments (calls : List Call) (k : Text) (a : Attachment) :
    a ∈ (sessionAfter lower calls k).attachments ↔ Live k a (log lower calls) := by
  induction calls using List.reverseRecOn with
  | nil =>
    refine ⟨fun h => absurd h List.not_mem_nil, ?_⟩
    rintro ⟨-, hs⟩
    exact absurd hs not_since_nil
  | append_singleton calls c ih =>
    rw [log_snoc, live_snoc]
    by_cases hk : c.session = k
    · subst hk
      rw [sessionAfter_snoc, mem_act, ih]
      constructor
      · rintro (⟨notified, h⟩ | ⟨hlive, hdrops⟩)
        · exact .inl ⟨(stored_session h).1, notified, h⟩
        · exact .inr ⟨hlive, fun _ => hdrops⟩
      · rintro (⟨-, hstored⟩ | ⟨hlive, hdrops⟩)
        · exact .inl hstored
        · exact .inr ⟨hlive, hdrops rfl⟩
    · rw [sessionAfter_other calls hk, ih]
      constructor
      · exact fun hlive => .inr ⟨hlive, fun h => absurd h hk⟩
      · rintro (⟨hsession, notified, h⟩ | ⟨hlive, -⟩)
        · exact absurd ((stored_session h).1.symm.trans hsession) hk
        · exact hlive

/-- The attachments of a session are numbered upwards, below the next number. -/
def Ordered (n : ℕ) (s : Session) : Prop :=
  s.attachments.Pairwise (fun a b => a.sequence < b.sequence) ∧
    ∀ a ∈ s.attachments, a.sequence < n

theorem act_ordered (c : Call) (n : ℕ) (s : Session) (h : Ordered n s) :
    Ordered (if (act lower c n s).counted then n + 1 else n) (act lower c n s).state := by
  cases c with
  | storeAttachment u =>
    cases hread : readAttachment lower u n with
    | error message => simpa [act, hread] using h
    | ok b =>
      have hsequence := (readAttachment_ok lower hread).2.2.1
      simp only [act, hread, if_true]
      refine ⟨List.pairwise_append.mpr ⟨h.1, List.pairwise_singleton _ _, ?_⟩, ?_⟩
      · intro a ha b' hb'
        rw [List.mem_singleton.mp hb', hsequence]
        exact h.2 a ha
      · intro a ha
        rcases List.mem_append.mp ha with ha | ha
        · exact Nat.lt_succ_of_lt (h.2 a ha)
        · rw [List.mem_singleton.mp ha, hsequence]
          exact Nat.lt_succ_self n
  | removeAttachment sid id =>
    rw [act]
    split
    · exact h
    · exact ⟨h.1.filter _, fun a ha => h.2 a (List.mem_of_mem_filter ha)⟩
  | clearSessionAttachments sid => exact ⟨.nil, by simp [act]⟩
  | register sid listener => rw [act]; split <;> exact h
  | unregister sid listener => rw [act]; split <;> exact h
  | createCaptureRequest sid requestId => rw [act]; split <;> exact h
  | consumeCaptureRequest sid requestId => rw [act]; split <;> exact h
  | latestAttachment sid => exact h
  | latestUserAttachment sid => exact h
  | getAttachment sid id => rw [act]; split <;> exact h

theorem sessionAfter_ordered (calls : List Call) (k : Text) :
    (sessionAfter lower calls k).attachments.Pairwise fun a b => a.sequence < b.sequence := by
  rw [sessionAfter, (after_refines lower calls).2.1]
  exact (run_counted (M := sessions lower) (P := Ordered) ⟨.nil, by simp [sessions]⟩
    (fun _ _ h => ⟨h.1, fun a ha => Nat.lt_succ_of_lt (h.2 a ha)⟩)
    (fun c n s h => act_ordered c n s h) calls k).1

/-- In a list that is numbered upwards a search from the end finds the greatest. -/
theorem find?_reverse {l : List Attachment} {p : Attachment → Bool}
    (h : l.Pairwise fun a b => a.sequence < b.sequence) : l.reverse.find? p = some a ↔
      a ∈ l ∧ p a ∧ ∀ b ∈ l, p b → b.sequence ≤ a.sequence := by
  induction l using List.reverseRecOn with
  | nil => simp
  | append_singleton l z ih =>
    obtain ⟨hl, -, hz⟩ := List.pairwise_append.mp h
    rw [List.reverse_append, List.reverse_singleton, List.singleton_append, List.find?_cons]
    cases hp : p z with
    | true =>
      constructor
      · intro heq
        cases heq
        refine ⟨by simp, hp, fun b hb _ => ?_⟩
        rcases List.mem_append.mp hb with hb | hb
        · exact Nat.le_of_lt (hz b hb a (by simp))
        · rw [List.mem_singleton.mp hb]
      · rintro ⟨ha, -, hall⟩
        rcases List.mem_append.mp ha with ha | ha
        · exact absurd (hall z (by simp) hp) (Nat.not_le.mpr (hz a ha z (by simp)))
        · rw [List.mem_singleton.mp ha]
    | false =>
      rw [ih hl]
      constructor
      · rintro ⟨ha, hpa, hall⟩
        refine ⟨List.mem_append_left _ ha, hpa, fun b hb hpb => ?_⟩
        rcases List.mem_append.mp hb with hb | hb
        · exact hall b hb hpb
        · rw [List.mem_singleton.mp hb, hp] at hpb
          cases hpb
      · rintro ⟨ha, hpa, hall⟩
        rcases List.mem_append.mp ha with ha | ha
        · exact ⟨ha, hpa, fun b hb => hall b (List.mem_append_left _ hb)⟩
        · rw [List.mem_singleton.mp ha, hp] at hpa
          cases hpa

/-- After any calls the latest upload of a session is the one with the greatest number among those
that were stored in it and neither removed nor cleared since; no capture takes its place. -/
theorem latestUser_eq_some_iff (calls : List Call) (k : Text) (a : Attachment) :
    (sessionAfter lower calls k).latestUser = some a ↔
      Live k a (log lower calls) ∧ a.source = .upload ∧
        ∀ b, Live k b (log lower calls) → b.source = .upload → b.sequence ≤ a.sequence := by
  rw [Session.latestUser, find?_reverse (sessionAfter_ordered calls k)]
  simp only [mem_attachments, decide_eq_true_eq]

end Contents

section Captures
variable {lower : Text → Text} {calls : List Call} {k id : Text}

/-- What ends a capture request of its session: a later one, its use, or the end of the session. -/
def Settles (cr : Call × Reply) : Prop :=
  (∃ r, cr.2 = .requested r) ∨ cr.2 = .consumed true ∨ ∃ sid, cr.1 = .clearSessionAttachments sid

/-- The capture request was the last one made for the session, and is not used or dropped. -/
def Open (k id : Text) (h : Log) : Prop :=
  Since (fun cr : Call × Reply => cr.1.session = k ∧ cr.2 = .requested id)
    (fun cr => cr.1.session = k → ¬Settles cr) h

/-- Step lemma: the capture request of a session after one of its calls. -/
theorem captureRequest_act (c : Call) (n : ℕ) (s : Session) :
    (act lower c n s).state.captureRequest = some id ↔
      (act lower c n s).reply = .requested id ∨
        (s.captureRequest = some id ∧ ¬Settles (c, (act lower c n s).reply)) := by
  cases c with
  | createCaptureRequest sid requestId => rw [act]; split <;> simp [Settles]
  | consumeCaptureRequest sid requestId => rw [act]; split <;> simp [Settles]
  | clearSessionAttachments sid => simp [act, Settles]
  | storeAttachment u => rw [act]; cases readAttachment lower u n <;> simp [Settles]
  | register sid listener => rw [act]; split <;> simp [Settles]
  | unregister sid listener => rw [act]; split <;> simp [Settles]
  | latestAttachment sid => simp [act, Settles]
  | latestUserAttachment sid => simp [act, Settles]
  | getAttachment sid attachmentId => rw [act]; split <;> simp [Settles]
  | removeAttachment sid attachmentId => rw [act]; split <;> simp [Settles, Session.remove]

/-- Run lemma: the request a session keeps is the open one. -/
theorem captureRequest_eq_some_iff (calls : List Call) (k id : Text) :
    (sessionAfter lower calls k).captureRequest = some id ↔ Open k id (log lower calls) := by
  induction calls using List.reverseRecOn with
  | nil =>
    refine ⟨fun h => ?_, fun h => absurd h not_since_nil⟩
    cases h
  | append_singleton calls c ih =>
    rw [log_snoc, Open, since_snoc]
    by_cases hk : c.session = k
    · subst hk
      rw [sessionAfter_snoc, captureRequest_act, ih]
      simp only [true_and, true_imp_iff, Open]
    · rw [sessionAfter_other calls hk, ih]
      simp only [hk, false_and, false_imp_iff, and_true, false_or, Open]

theorem consumed_iff (sid requestId : Text) (n : ℕ) (s : Session) :
    (act lower (.consumeCaptureRequest sid requestId) n s).reply = .consumed true ↔
      strip sid ≠ [] ∧ strip requestId ≠ [] ∧ s.captureRequest = some (strip requestId) := by
  rw [act]
  split
  · next h => simpa [Call.session, Session.expects] using h
  · next h => simpa [Call.session, Session.expects] using h

/-- The ids that the calls for capture requests draw. -/
def requestIds (calls : List Call) : List Text :=
  calls.filterMap fun
    | .createCaptureRequest _ requestId => some requestId
    | _ => none

def isUse (id : Text) (cr : Call × Reply) : Bool :=
  match cr with
  | (.consumeCaptureRequest _ requestId, .consumed true) => strip requestId = id
  | _ => false

/-- How often an id has been consumed. -/
def uses (id : Text) (h : Log) : ℕ := h.countP (isUse id)

theorem uses_snoc (h : Log) (cr : Call × Reply) :
    uses id (h ++ [cr]) = uses id h + if isUse id cr then 1 else 0 := by
  rw [uses, List.countP_append, List.countP_singleton]
  rfl

theorem requested_id {c : Call} {n : ℕ} {s : Session}
    (h : (act lower c n s).reply = .requested id) : ∃ sid, c = .createCaptureRequest sid id := by
  cases c with
  | createCaptureRequest sid requestId =>
    rw [act] at h
    split at h
    · cases h
    · cases h
      exact ⟨sid, rfl⟩
  | storeAttachment u =>
    rw [act] at h
    cases hread : readAttachment lower u n <;> simp [hread] at h
  | register sid listener => rw [act] at h; split at h <;> cases h
  | unregister sid listener => rw [act] at h; split at h <;> cases h
  | consumeCaptureRequest sid requestId => rw [act] at h; split at h <;> cases h
  | getAttachment sid attachmentId => rw [act] at h; split at h <;> cases h
  | removeAttachment sid attachmentId => rw [act] at h; split at h <;> cases h
  | _ => cases h

theorem isUse_iff {c : Call} {r : Reply} : isUse id (c, r) = true ↔
    ∃ sid requestId, c = .consumeCaptureRequest sid requestId ∧ r = .consumed true ∧
      strip requestId = id := by
  unfold isUse
  split
  · next heq =>
    cases heq
    simp
  · next hother =>
    simp only [Bool.false_eq_true, false_iff, not_exists, not_and]
    rintro sid requestId rfl rfl
    exact absurd rfl (hother sid requestId)

/-- What is known of each id: an open one is unused, no id is open twice, and one that is open or
used has been drawn. -/
structure Once (drawn : List Text) (h : Log) : Prop where
  atMost : ∀ id, uses id h ≤ 1
  unused : ∀ k id, Open k id h → uses id h = 0
  single : ∀ k k' id, Open k id h → Open k' id h → k = k'
  openDrawn : ∀ k id, Open k id h → id ∈ drawn
  usedDrawn : ∀ id, uses id h ≠ 0 → id ∈ drawn

theorem open_snoc {h : Log} {cr : Call × Reply} : Open k id (h ++ [cr]) ↔
    (cr.1.session = k ∧ cr.2 = .requested id) ∨
      (Open k id h ∧ (cr.1.session = k → ¬Settles cr)) :=
  since_snoc

/-- Step lemma: a call keeps what is known, if the id it draws is new. -/
theorem Once.snoc {drawn : List Text} {h : Log} (ho : Once drawn h) {c : Call} {r : Reply}
    (hdraws : ∀ id, r = .requested id → id ∈ requestIds [c] ∧ id ∉ drawn)
    (huses : ∀ id, isUse id (c, r) = true → r = .consumed true ∧ Open c.session id h) :
    Once (drawn ++ requestIds [c]) (h ++ [(c, r)]) where
  atMost id := by
    rw [uses_snoc]
    split
    · next huse => rw [ho.unused _ _ (huses id huse).2]
    · exact ho.atMost id
  unused k id hopen := by
    rw [uses_snoc]
    rcases open_snoc.mp hopen with ⟨-, hr⟩ | ⟨hold, hsettles⟩
    · have hunused : uses id h = 0 := by
        by_contra hne
        exact (hdraws id hr).2 (ho.usedDrawn id hne)
      have huse : ¬isUse id (c, r) = true := fun huse => by
        have hconsumed := (huses id huse).1
        rw [show r = .requested id from hr] at hconsumed
        cases hconsumed
      rw [hunused, if_neg huse]
    · have huse : ¬isUse id (c, r) = true := fun huse => by
        obtain ⟨hconsumed, hopen'⟩ := huses id huse
        exact hsettles (ho.single _ _ _ hopen' hold) (.inr (.inl hconsumed))
      rw [ho.unused k id hold, if_neg huse]
  single k k' id hopen hopen' := by
    rcases open_snoc.mp hopen with ⟨hk, hr⟩ | ⟨hold, -⟩
    · rcases open_snoc.mp hopen' with ⟨hk', -⟩ | ⟨hold', -⟩
      · exact hk.symm.trans hk'
      · exact absurd (ho.openDrawn k' id hold') (hdraws id hr).2
    · rcases open_snoc.mp hopen' with ⟨-, hr⟩ | ⟨hold', -⟩
      · exact absurd (ho.openDrawn k id hold) (hdraws id hr).2
      · exact ho.single k k' id hold hold'
  openDrawn k id hopen := by
    rcases open_snoc.mp hopen with ⟨-, hr⟩ | ⟨hold, -⟩
    · exact List.mem_append_right _ (hdraws id hr).1
    · exact List.mem_append_left _ (ho.openDrawn k id hold)
  usedDrawn id huses' := by
    rw [uses_snoc] at huses'
    by_cases huse : isUse id (c, r) = true
    · exact List.mem_append_left _ (ho.openDrawn _ id (huses id huse).2)
    · rw [if_neg huse, Nat.add_zero] at huses'
      exact List.mem_append_left _ (ho.usedDrawn id huses')

theorem once_log (hfresh : (requestIds calls).Nodup) :
    Once (requestIds calls) (log lower calls) := by
  induction calls using List.reverseRecOn with
  | nil =>
    have hnil : ∀ k id, ¬Open k id (log lower []) := fun _ _ => not_since_nil
    exact ⟨fun _ => Nat.zero_le 1, fun _ _ h => absurd h (hnil _ _),
      fun _ _ _ h => absurd h (hnil _ _), fun _ _ h => absurd h (hnil _ _), fun _ h => absurd rfl h⟩
  | append_singleton calls c ih =>
    have hids : requestIds (calls ++ [c]) = requestIds calls ++ requestIds [c] :=
      List.filterMap_append
    rw [hids, List.nodup_append] at hfresh
    obtain ⟨hold, -, hnew⟩ := hfresh
    rw [hids, log_snoc]
    refine (ih hold).snoc (fun id hr => ?_) fun id huse => ?_
    · obtain ⟨sid, rfl⟩ := requested_id hr
      have hmem : id ∈ requestIds [.createCaptureRequest sid id] := by simp [requestIds]
      exact ⟨hmem, fun hdrawn => hnew id hdrawn id hmem rfl⟩
    · obtain ⟨sid, requestId, rfl, hr, rfl⟩ := isUse_iff.mp huse
      exact ⟨hr, (captureRequest_eq_some_iff calls _ _).mp ((consumed_iff _ _ _ _).mp hr).2.2⟩

/-- A capture is accepted exactly for the open request of its session: the one made last there, not
used before and not dropped since. -/
theorem consume_accepts_iff (calls : List Call) (sid requestId : Text) :
    ((after lower calls).1.consumeCaptureRequest sid requestId).2 = true ↔
      strip sid ≠ [] ∧ strip requestId ≠ [] ∧
        Open (strip sid) (strip requestId) (log lower calls) := by
  have hreply := (perform_follows lower (after lower calls).1
    (.consumeCaptureRequest sid requestId)).1
  rw [← captureRequest_eq_some_iff, ← Reply.consumed.injEq]
  exact (Iff.of_eq (congrArg (· = Reply.consumed true) hreply)).trans (consumed_iff _ _ _ _)

/-- Whatever the threads do, no capture request is used twice, in whatever sessions it is tried. -/
theorem consumed_once (calls : List Call) (hfresh : (requestIds calls).Nodup) (id : Text) :
    uses id (log lower calls) ≤ 1 :=
  (once_log hfresh).atMost id

theorem consumed_once_raced : uses "r".toList (log (fun t => t) [
    .createCaptureRequest "a".toList "r".toList, .consumeCaptureRequest "a".toList "r ".toList,
    .consumeCaptureRequest "a".toList "r".toList]) ≤ 1 :=
  consumed_once _ (by decide) _

end Captures

end VoiceAgent.AttachmentStore
