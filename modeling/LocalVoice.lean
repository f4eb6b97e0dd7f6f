import LocalVoice.ActionsManager.OneEntry
import LocalVoice.Admission.Slots
import LocalVoice.AgentSession.Lockstep
import LocalVoice.AgentSession.Paired
import LocalVoice.AgentSession.Trimmed
import LocalVoice.ApiExecution.Kept
import LocalVoice.ArmPlugin.OneMotion
import LocalVoice.ArtifactProvision.Kept
import LocalVoice.AsrInferenceGate.Hold
import LocalVoice.AsrSegmenter.Coverage
import LocalVoice.AsrSegmenter.Decode
import LocalVoice.AsrSegmenter.Packing
import LocalVoice.AsrSegmenter.Rejoin
import LocalVoice.AsrStream.Finals
import LocalVoice.AsrWorker.Delta
import LocalVoice.AsrWorker.Finals
import LocalVoice.AsrWorker.Prefix
import LocalVoice.AsrWorker.Survival
import LocalVoice.AudioIO.Playback
import LocalVoice.BackendCoordinator.Residency
import LocalVoice.BackendManager.InFlight
import LocalVoice.BackendManager.Leases
import LocalVoice.BackendManager.Resting
import LocalVoice.BackendManager.Rollback
import LocalVoice.CapabilityResolver.Downgrade
import LocalVoice.CompositionBoot.Environ
import LocalVoice.DialogueTurn.Frames
import LocalVoice.Diarization.Spans
import LocalVoice.EngineResolver.Provenance
import LocalVoice.EngineResolver.Refusals
import LocalVoice.GpuWatchdog.Hysteresis
import LocalVoice.LeafComposition.Validation
import LocalVoice.Lib.Replay
import LocalVoice.LlmAvailability.Breaker
import LocalVoice.LlmBackend.Retries
import LocalVoice.MicPump.Pump
import LocalVoice.ModeManager.Pairs
import LocalVoice.ModelCache.Idempotent
import LocalVoice.ModelCache.Merge
import LocalVoice.ModelCache.Names
import LocalVoice.ModelDownloader.Freshness
import LocalVoice.ProfileLoader.Atomicity
import LocalVoice.ProfileLoader.Frame
import LocalVoice.ProfileLoader.History
import LocalVoice.RK1828.ChatPaths
import LocalVoice.RK1828.OwnTokens
import LocalVoice.RK1828.RoundTrip
import LocalVoice.RK1828.Splitter
import LocalVoice.RK1828.Tools
import LocalVoice.RealtimeProvider.Updates
import LocalVoice.RealtimeRelay.Resample
import LocalVoice.RebotArm.Gripper
import LocalVoice.RebotArm.GripperOrder
import LocalVoice.RebotArm.Owned
import LocalVoice.SerialResolve.Resolve
import LocalVoice.ServerLoop.Answered
import LocalVoice.SimulInterpret.Apart
import LocalVoice.SlvClient.Closing
import LocalVoice.SlvClient.Delivery
import LocalVoice.SlvClient.Frames
import LocalVoice.SlvClient.Sessions
import LocalVoice.SparkTTSVoices.Accepted
import LocalVoice.SparkTTSVoices.Atomic
import LocalVoice.SparkTTSVoices.Commits
import LocalVoice.StreamingTranslate.Locked
import LocalVoice.TTSSpeakers.Builtin
import LocalVoice.TTSSpeakers.Interleaved
import LocalVoice.TTSStream.Drained
import LocalVoice.TTSStream.OneReader
import LocalVoice.TTSStream.Prefetch
import LocalVoice.TarExtraction.Atomic
import LocalVoice.TarExtraction.Confined
import LocalVoice.V2V.Abort
import LocalVoice.V2V.DirectSpeech
import LocalVoice.V2V.Frames
import LocalVoice.V2V.Generations
import LocalVoice.V2V.Handler
import LocalVoice.V2V.Lifecycle
import LocalVoice.V2V.Preroll
import LocalVoice.V2V.Segmented
import LocalVoice.V2V.Sentences
import LocalVoice.V2V.Teardown
import LocalVoice.V2V.Turns
import LocalVoice.Vad.Session
import LocalVoice.VadGate.Gated
import LocalVoice.WorkerIO.Answers
import LocalVoice.WorkerIO.Load
import LocalVoice.WyomingStt.Bridge
import LocalVoice.WyomingTts.Mirror
import LocalVoice.WyomingTts.Spoken
