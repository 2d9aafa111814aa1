import VoiceAgent.RealtimeSerializer
import VoiceAgent.RealtimeRules
import VoiceAgent.ResponseFinish
import VoiceAgent.History
import VoiceAgent.ResponseBracketing
import VoiceAgent.TranscriptDeltas
import VoiceAgent.StaleTriggers
import VoiceAgent.FrameDedupe
import VoiceAgent.EngineRequest
import VoiceAgent.EngineLedger
import VoiceAgent.EngineAnswers
import VoiceAgent.StreamingSession
import VoiceAgent.SessionInvariant
import VoiceAgent.EngineOwnership
import VoiceAgent.ScopedSlot
import VoiceAgent.OmniService
import VoiceAgent.OmniTurns
import VoiceAgent.OutOfBand
import VoiceAgent.PrefillTokens
import VoiceAgent.StreamingClient
import VoiceAgent.StreamingAgreement
import VoiceAgent.ClientIsolation
import VoiceAgent.ClientRules
import VoiceAgent.SessionNames
import VoiceAgent.ResponseIsolation
import VoiceAgent.UserTranscripts
import VoiceAgent.ThinkerCalls
import VoiceAgent.ThinkerRuns
import VoiceAgent.Diarization
import VoiceAgent.SpeakerText
import VoiceAgent.SpeakerRuns
import VoiceAgent.SpeakerTurn
import VoiceAgent.BookingFlow
import VoiceAgent.BookingConfirmation
import VoiceAgent.JsonValues
import VoiceAgent.SessionView
import VoiceAgent.SessionSound
import VoiceAgent.SessionEcho
import VoiceAgent.AudioFormats
import VoiceAgent.FlightSearch
import VoiceAgent.FlightBooking
import VoiceAgent.ActionEnvelope
import VoiceAgent.EnvelopeSpeech
import VoiceAgent.SpeakerContext
import VoiceAgent.BookingState
import VoiceAgent.ThinkingController
import VoiceAgent.ThinkingFreshness
import VoiceAgent.ThinkingActivity
import VoiceAgent.ActivityCheck
import VoiceAgent.ActivityStages
import VoiceAgent.ActivityCompletions
import VoiceAgent.WebcamController
import VoiceAgent.WebcamEpochs
import VoiceAgent.MediaAnalysis
import VoiceAgent.CaptureRuns
import VoiceAgent.MediaRuns
import VoiceAgent.Zoom
import VoiceAgent.MediaDispatch
import VoiceAgent.DispatchRuns
import VoiceAgent.TranscriptResponse
import VoiceAgent.JsonStream
import VoiceAgent.JsonFieldDecoding
import VoiceAgent.SpokenTranscripts
import VoiceAgent.AdvertisedVoice
import VoiceAgent.NullMembers
import VoiceAgent.EndpointIsolation
import VoiceAgent.BookingIntegrity
import VoiceAgent.CatalogIsolation
import VoiceAgent.SettingsRespected
import VoiceAgent.WordTimings
import VoiceAgent.TranscriptReference
import VoiceAgent.TurnCleanup
import VoiceAgent.UtteranceAudio
import VoiceAgent.NvidiaView
import VoiceAgent.TwoStageSettings
import VoiceAgent.SpokenExactly
import VoiceAgent.OwnedSpeech
import VoiceAgent.RateCoherence
import VoiceAgent.Sweep
import VoiceAgent.SpeechTextFilter
import VoiceAgent.GestureController
import VoiceAgent.GestureRuns
import VoiceAgent.SilentReply
import VoiceAgent.JsonDumps
import VoiceAgent.SubagentBoard
import VoiceAgent.SpeakerLines
import VoiceAgent.JoinedLines
import VoiceAgent.TurnOwnership
import VoiceAgent.PromptSummary
import VoiceAgent.ReplyField
import VoiceAgent.SpeakerIsolation
import VoiceAgent.MergedTurns
import VoiceAgent.ResponseUsage
import VoiceAgent.BookingAtomicity
import VoiceAgent.BookingRefinement
import VoiceAgent.InputClock
import VoiceAgent.EditDistance
import VoiceAgent.FuzzyMatch
import VoiceAgent.IsoTimes
import VoiceAgent.TimestampRewriters
import VoiceAgent.Memo
import VoiceAgent.TtsCatalog
import VoiceAgent.CatalogCache
import VoiceAgent.JsonDecoder
import VoiceAgent.JsonDocuments
import VoiceAgent.TagRemoval
import VoiceAgent.ModelReplies
import VoiceAgent.KeyedRuns
import VoiceAgent.AttachmentStore
import VoiceAgent.MediaStore
import VoiceAgent.Base64
import VoiceAgent.RealtimeAudio
import VoiceAgent.Triples
import VoiceAgent.WelcomeGate
