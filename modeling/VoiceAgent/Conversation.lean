import VoiceAgent.RealtimeEvents

/-!
Conversation and response ids shared by the serializer and the observer. The
methods are the state's own: none of them awaits, so each is one atomic step of
the coroutine that calls it. `Slot.Coherent` is the invariant of the response
slot that every method keeps; the later modules rest on it.
-/
namespace VoiceAgent.Conversation

open RealtimeEvents

/-- Ids and transcript captured when a response is completed. -/
structure ResponseSnapshot where
  generation : ℕ
  responseId : ResponseId
  itemId : Option ItemId
  transcript : Text
  status : ResponseStatus
  audioDoneEmitted : Bool
  transcriptDoneEmitted : Bool
  deriving DecidableEq, Repr

structure ConversationState where
  userItemId : Option ItemId := none
  inputAudioSamples : ℕ := 0
  inputSampleRate : ℕ := 16000
  userTurnStartSample : Option ℕ := none
  userTurnEndSample : Option ℕ := none
  userTurnStopped : Bool := false
  userItemAnnounced : Bool := false
  pendingUserTranscript : Option Text := none
  assistantItemId : Option ItemId := none
  responseId : Option ResponseId := none
  responseStatus : Option ResponseStatus := none
  responseRequested : Bool := false
  responseGeneration : ℕ := 0
  assistantTranscript : Text := []
  outputItemAnnounced : Bool := false
  contentPartAnnounced : Bool := false
  transcriptDoneEmitted : Bool := false
  audioDoneEmitted : Bool := false
  itemTranscripts : ItemId → Option Text := fun _ => none
  assistantHasResponded : Bool := false
  /-- How many user item ids have been drawn. -/
  userItems : ℕ := 0

namespace ConversationState

def openClientText (c : ConversationState) : ConversationState :=
  { c with assistantHasResponded := true }

section UserTurn

def newItemId (c : ConversationState) : ItemId × ConversationState :=
  (.user c.userItems, { c with userItems := c.userItems + 1 })

def beginUserItem (c : ConversationState) : ItemId × ConversationState :=
  match c.userItemId with
  | some item => (item, c)
  | none =>
    let (item, c) := c.newItemId
    (item, { c with userItemId := some item })

def addInputAudio (c : ConversationState) (byteCount sampleRate : ℕ) : ConversationState :=
  if byteCount = 0 then c
  else { c with
    inputSampleRate := max sampleRate 1
    inputAudioSamples := c.inputAudioSamples + byteCount / 2 }

def inputMs (c : ConversationState) (samples : ℕ) : ℕ :=
  samples * 1000 / max c.inputSampleRate 1

def clearUserItem (c : ConversationState) : ConversationState :=
  { c with
    userItemId := none
    userTurnStartSample := none
    userTurnEndSample := none
    userTurnStopped := false
    userItemAnnounced := false
    pendingUserTranscript := none }

def beginUserTurn (c : ConversationState) : (ItemId × ℕ) × ConversationState :=
  let c := if c.userTurnStopped then c.clearUserItem else c
  let (item, c) := c.beginUserItem
  match c.userTurnStartSample with
  | some start => ((item, c.inputMs start), c)
  | none => ((item, c.inputMs c.inputAudioSamples), { c with
      userTurnStartSample := some c.inputAudioSamples
      userTurnEndSample := none
      userTurnStopped := false
      userItemAnnounced := false
      pendingUserTranscript := none })

def stopUserTurn (c : ConversationState) : (ItemId × ℕ) × ConversationState :=
  let (item, c) := c.beginUserItem
  ((item, c.inputMs c.inputAudioSamples),
    { c with userTurnEndSample := some c.inputAudioSamples, userTurnStopped := true })

def setUserTranscript (c : ConversationState) (transcript : Text) : ConversationState :=
  { c.beginUserItem.2 with pendingUserTranscript := some transcript }

/-- Whether the current user item was still to be announced; now it is. -/
def announceUserItem (c : ConversationState) : Bool × ConversationState :=
  (!c.userItemAnnounced, { c with userItemAnnounced := true })

def readyUserTranscript (c : ConversationState) :
    Option (ItemId × Text) × ConversationState :=
  match c.userTurnStopped, c.pendingUserTranscript with
  | true, some transcript =>
    let (item, c) := c.beginUserItem
    (some (item, transcript), c)
  | _, _ => (none, c)

end UserTurn

section Response

/-- The response in progress: the guard of `begin_response` and `complete_response`. -/
def active (c : ConversationState) : Option ResponseId :=
  if c.responseStatus = some .inProgress then c.responseId else none

/-- The fresh response that `begin_response` opens when none is in progress. -/
def openResponse (c : ConversationState) : ConversationState :=
  { c with
    responseRequested := false
    responseGeneration := c.responseGeneration + 1
    responseId := some ⟨c.responseGeneration + 1⟩
    responseStatus := some .inProgress
    assistantItemId := some (.assistant (c.responseGeneration + 1))
    assistantTranscript := []
    outputItemAnnounced := false
    contentPartAnnounced := false
    transcriptDoneEmitted := false
    audioDoneEmitted := false }

def beginResponse (c : ConversationState) : (ResponseId × Bool) × ConversationState :=
  match c.active with
  | some response => ((response, false), c)
  | none => ((⟨c.responseGeneration + 1⟩, true), c.openResponse)

/-- Reserve a client-triggered response before pipeline output arrives. -/
def requestResponse (c : ConversationState) : Bool × ConversationState :=
  if c.responseRequested ∨ c.responseStatus = some .inProgress then (false, c)
  else (true, { c with responseRequested := true })

def releaseResponseRequest (c : ConversationState) : ConversationState :=
  if c.responseStatus ≠ some .inProgress then { c with responseRequested := false } else c

/-- The transcript grows, and with it the text kept for a later truncate. -/
def extendTranscript (c : ConversationState) (text : Text) : ConversationState :=
  { c with
    assistantTranscript := c.assistantTranscript ++ text
    itemTranscripts := match c.assistantItemId with
      | some item => Function.update c.itemTranscripts item (some (c.assistantTranscript ++ text))
      | none => c.itemTranscripts }

def appendAssistantTranscript (c : ConversationState) (text : Text) : ConversationState :=
  if text = [] then c else c.beginResponse.2.extendTranscript text

def snapshot (c : ConversationState) (response : ResponseId) (status : ResponseStatus) :
    ResponseSnapshot where
  generation := c.responseGeneration
  responseId := response
  itemId := c.assistantItemId
  transcript := c.assistantTranscript
  status := status
  audioDoneEmitted := c.audioDoneEmitted
  transcriptDoneEmitted := c.transcriptDoneEmitted

/-- `none` when no response is in progress; the caller must not emit `response.done` then. -/
def completeResponse (c : ConversationState) (status : ResponseStatus) :
    Option ResponseSnapshot × ConversationState :=
  match c.active with
  | none => (none, c)
  | some response =>
    (some (c.snapshot response status), { c.openClientText with
      responseStatus := some status
      itemTranscripts := match c.assistantItemId with
        | some item =>
          if c.assistantTranscript = [] then c.itemTranscripts
          else Function.update c.itemTranscripts item (some c.assistantTranscript)
        | none => c.itemTranscripts })

/-- The reset is skipped when a newer generation already owns the slot. -/
def resetResponseSlot (c : ConversationState) (generation : ℕ) : ConversationState :=
  if generation ≠ c.responseGeneration then c
  else { c with
    responseId := none
    responseStatus := none
    responseRequested := false
    assistantItemId := none
    assistantTranscript := []
    outputItemAnnounced := false
    contentPartAnnounced := false
    transcriptDoneEmitted := false
    audioDoneEmitted := false }

end Response

end ConversationState

open ConversationState

variable {c : ConversationState}

/-- A response in the slot and its item are those of the current generation. -/
structure Coherent (c : ConversationState) : Prop where
  response : ∀ r, c.responseId = some r → r = ⟨c.responseGeneration⟩
  item : c.responseStatus = some .inProgress →
    c.responseId ≠ none ∧ c.assistantItemId = some (.assistant c.responseGeneration)

@[simp] theorem active_openResponse (c : ConversationState) :
    c.openResponse.active = some ⟨c.responseGeneration + 1⟩ := rfl

/-- In a coherent slot the active response is that of the current generation. -/
theorem Coherent.active_eq (h : Coherent c) {r : ResponseId} (hr : c.active = some r) :
    r = ⟨c.responseGeneration⟩ ∧ c.assistantItemId = some (.assistant c.responseGeneration) ∧
      c.responseStatus = some .inProgress ∧ c.responseId = some r := by
  unfold active at hr
  split at hr
  · rename_i hstatus
    exact ⟨h.response r hr, (h.item hstatus).2, hstatus, hr⟩
  · cases hr

theorem coherent_openResponse (c : ConversationState) : Coherent c.openResponse :=
  ⟨by simp [openResponse], by simp [openResponse]⟩

theorem beginResponse_of_active {r : ResponseId} (h : c.active = some r) :
    c.beginResponse = ((r, false), c) := by simp [beginResponse, h]

theorem beginResponse_of_none (h : c.active = none) :
    c.beginResponse = ((⟨c.responseGeneration + 1⟩, true), c.openResponse) := by
  simp [beginResponse, h]

theorem completeResponse_of_active {r : ResponseId} (h : c.active = some r)
    (status : ResponseStatus) :
    (c.completeResponse status).1 = some (c.snapshot r status) := by
  simp [completeResponse, h]

theorem completeResponse_of_none (h : c.active = none) (status : ResponseStatus) :
    c.completeResponse status = (none, c) := by simp [completeResponse, h]

theorem active_completeResponse {status : ResponseStatus} (hs : status ≠ .inProgress) :
    (c.completeResponse status).2.active = none := by
  unfold ConversationState.completeResponse
  split
  · assumption
  · simp [active, hs]

theorem Coherent.beginResponse (h : Coherent c) : Coherent c.beginResponse.2 := by
  unfold ConversationState.beginResponse
  split
  · exact h
  · exact coherent_openResponse c

theorem Coherent.extendTranscript (h : Coherent c) (text : Text) :
    Coherent (c.extendTranscript text) := ⟨h.response, h.item⟩

theorem Coherent.completeResponse (h : Coherent c) {status : ResponseStatus}
    (hs : status ≠ .inProgress) : Coherent (c.completeResponse status).2 := by
  unfold ConversationState.completeResponse
  split
  · exact h
  · exact ⟨h.response, fun hin => absurd (Option.some.inj hin) hs⟩

theorem Coherent.resetResponseSlot (h : Coherent c) (g : ℕ) :
    Coherent (c.resetResponseSlot g) := by
  unfold ConversationState.resetResponseSlot
  split
  · exact h
  · exact ⟨by simp, by simp⟩

/-- The guard of the reset, as the finish sequence relies on it. -/
theorem resetResponseSlot_of_ne {g : ℕ} (h : g ≠ c.responseGeneration) :
    c.resetResponseSlot g = c := by
  simp [resetResponseSlot, h]

end VoiceAgent.Conversation
