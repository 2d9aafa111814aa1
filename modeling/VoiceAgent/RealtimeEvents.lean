import Mathlib.Data.List.Basic
import Mathlib.Tactic.Common

/-!
The server events of the Realtime wire protocol and their two dialects.
`emit_with_aliases` calls the emit callback with the canonical payload and then
with a pre-GA alias; the transport's callback keeps one dialect. Exactly one
payload of each event reaches the wire, so the rest of the development logs an
emitted event once, at its emit call.
-/
namespace VoiceAgent.RealtimeEvents

/-- Text whose characters matter; fixed names and messages are `String`s. -/
abbrev Text := List Char

/-- `new_response_id` draws a fresh uuid; the one drawn for a generation is named by it. -/
structure ResponseId where
  generation : ℕ
  deriving DecidableEq, Repr

/-- `new_item_id` draws a fresh uuid: one for the assistant item of each response
generation, one for each user item. A client may bring any name of its own. -/
inductive ItemId
  | assistant (generation : ℕ)
  | user (serial : ℕ)
  | client (name : Text)
  deriving DecidableEq, Repr

inductive ResponseStatus
  | inProgress | completed | cancelled | failed
  deriving DecidableEq, Repr

/-- Item statuses are in_progress, completed or incomplete; cancelled is response-only. -/
inductive ItemStatus
  | inProgress | completed | incomplete
  deriving DecidableEq, Repr

/-- The metric frames a `response.done` summarises, in the order they were consumed. -/
structure RealtimeResponseTelemetry where
  frames : List Text
  deriving DecidableEq, Repr

inductive ServerEvent
  | error (message : String) (code : String) (eventId : Option Text) (param : Option String)
  | sessionUpdated
  | speechStarted (item : ItemId) (audioStartMs : ℕ)
  | speechStopped (item : ItemId) (audioEndMs : ℕ)
  | audioCommitted (item : ItemId)
  | audioCleared
  | userItemCreated (item : ItemId) (content : Text)
  | inputTranscriptDelta (item : ItemId) (delta : Text)
  | inputTranscriptCompleted (item : ItemId) (transcript : Text)
  | nvidiaToolStarted (callId : Text) (name : Text) (arguments : Text)
  | nvidiaToolCompleted (callId : Text) (name : Text) (arguments : Text) (result : Text)
  | responseCreated (response : ResponseId)
  | assistantItemCreated (item : Option ItemId)
  | outputItemAdded (response : Option ResponseId) (item : Option ItemId)
  | contentPartAdded (response : Option ResponseId) (item : Option ItemId)
  | outputAudioDelta (response : Option ResponseId) (item : Option ItemId) (delta : Text)
  | outputAudioTranscriptDelta (response : Option ResponseId) (item : Option ItemId)
      (delta : Text)
  | outputAudioDone (response : Option ResponseId) (item : Option ItemId)
  | outputAudioTranscriptDone (response : Option ResponseId) (item : Option ItemId)
      (transcript : Text)
  | contentPartDone (response : Option ResponseId) (item : Option ItemId) (transcript : Text)
  | outputItemDone (response : Option ResponseId) (item : Option ItemId)
      (itemStatus : ItemStatus) (transcript : Text)
  | responseDone (response : ResponseId) (status : ResponseStatus) (item : Option ItemId)
      (itemStatus : ItemStatus) (transcript : Text)
      (telemetry : Option RealtimeResponseTelemetry)
  deriving DecidableEq, Repr

namespace ServerEvent

/-- The `response_id` and the item id an event carries. `response.done` names its
response and the item in its output. -/
def response? : ServerEvent → Option (Option ResponseId × Option ItemId)
  | outputItemAdded r i | contentPartAdded r i | outputAudioDelta r i _
  | outputAudioTranscriptDelta r i _ | outputAudioDone r i
  | outputAudioTranscriptDone r i _ | contentPartDone r i _
  | outputItemDone r i _ _ => some (r, i)
  | responseDone r _ i _ _ _ => some (some r, i)
  | _ => none

/-- The final transcript an event reports, and for which response. -/
def reported? : ServerEvent → Option (Option ResponseId × Text)
  | outputAudioTranscriptDone r _ x | contentPartDone r _ x | outputItemDone r _ _ x => some (r, x)
  | responseDone r _ _ _ x _ => some (some r, x)
  | _ => none

end ServerEvent

end VoiceAgent.RealtimeEvents
