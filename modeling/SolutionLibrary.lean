import SolutionLibrary.Library.Finmap
import SolutionLibrary.Library.Invariant
import SolutionLibrary.Library.Traversal
import SolutionLibrary.Library.Schedule
import SolutionLibrary.Library.Journal
import SolutionLibrary.Library.Loop
import SolutionLibrary.Library.Store
import SolutionLibrary.Library.Text
import SolutionLibrary.Library.Tsv
import SolutionLibrary.Library.Chunks
import SolutionLibrary.Library.Decimal
import SolutionLibrary.Library.Substitution
import SolutionLibrary.Library.Provenance
import SolutionLibrary.LoadBalancer
import SolutionLibrary.ObjectStorage
import SolutionLibrary.RouteSwitcherV2.Config
import SolutionLibrary.RouteSwitcherV2.NextHops
import SolutionLibrary.RouteSwitcherV2.Routes
import SolutionLibrary.RouteSwitcherV2.Handler
import SolutionLibrary.RouteSwitcherV2.Tick
import SolutionLibrary.RouteSwitcherV2.Restoration
import SolutionLibrary.RouteSwitcherV2.Completion
import SolutionLibrary.RouteSwitcherV2.Forgetting
import SolutionLibrary.RouteSwitcherV2.Preference
import SolutionLibrary.RouteSwitcherV2.Convergence
import SolutionLibrary.RouteSwitcherV2.BlackHole
import SolutionLibrary.RouteSwitcherV2.Isolation
import SolutionLibrary.RouteSwitcherV2.Interleaving
import SolutionLibrary.RouteSwitcherV2.Safety
import SolutionLibrary.RouteSwitcherV2.Pruning
import SolutionLibrary.RouteSwitcherV1.Checker
import SolutionLibrary.RouteSwitcherV1.Attachment
import SolutionLibrary.RouteSwitcherV1.Agreement
import SolutionLibrary.RouteSwitcherV1.Recovery
import SolutionLibrary.RouteSwitcherV1.Availability
import SolutionLibrary.RouteSwitcherV1.Acknowledgement
import SolutionLibrary.RouteSwitcherV1.ClosedLoop
import SolutionLibrary.SpeechKitStream.Client
import SolutionLibrary.SpeechKitStream.Delivery
import SolutionLibrary.SpeechKitStream.Readers
import SolutionLibrary.SpeechKitStream.SizeLimit
import SolutionLibrary.SpeechWeb.Processor
import SolutionLibrary.SpeechWeb.SessionIsolation
import SolutionLibrary.SpeechWeb.FinalResults
import SolutionLibrary.AsrBatch.Script
import SolutionLibrary.AsrBatch.Records
import SolutionLibrary.AsrBatch.Completion
import SolutionLibrary.AsrBatch.Overlapping
import SolutionLibrary.AsrBatch.Submission
import SolutionLibrary.AsrBatch.Polls
import SolutionLibrary.AsrBatch.Paging
import SolutionLibrary.AsrBatch.Acceptance
import SolutionLibrary.VisionOcr.Script
import SolutionLibrary.VisionOcr.Outputs
import SolutionLibrary.VisionOcr.OcrFunction
import SolutionLibrary.SpeechKitBatchAsr.Recordings
import SolutionLibrary.SpeechKitBatchAsr.TasksDb
import SolutionLibrary.SpeechKitBatchAsr.Transcripts
import SolutionLibrary.TrackerImport.Scroll
import SolutionLibrary.TrackerImport.Encoding
import SolutionLibrary.TrackerImport.Script
import SolutionLibrary.TrackerImport.Watermark
import SolutionLibrary.SnapBackup.Functions
import SolutionLibrary.SnapBackup.Delivery
import SolutionLibrary.SnapBackup.Expiry
import SolutionLibrary.SpeechKitTts.Client
import SolutionLibrary.VisionBatch.ClassifyTaskHelper
import SolutionLibrary.VisionBatch.VisionClassifier
import SolutionLibrary.Transcoder.Pipeline
import SolutionLibrary.Transcoder.Options
import SolutionLibrary.Transcoder.ConfigText
import SolutionLibrary.Isoduration.Exactness
import SolutionLibrary.TrackerImport.Estimates
import SolutionLibrary.TrackerImport.Views
import SolutionLibrary.SpeechKitBatchAsr.Creation
import SolutionLibrary.SpeechKitBatchAsr.Sessions
import SolutionLibrary.Library.Overwriting
import SolutionLibrary.SpeechKitStream.FileSession
import SolutionLibrary.SpeechKitStream.Recognised
import SolutionLibrary.SpeechKitStream.ResultsFile
import SolutionLibrary.Library.Calendar
import SolutionLibrary.Library.DecimalMagnitude
import SolutionLibrary.Library.Paths
import SolutionLibrary.Library.FileTree
import SolutionLibrary.Isoduration.Operations
import SolutionLibrary.Isoduration.WholeNumbers
import SolutionLibrary.Isoduration.Addition
import SolutionLibrary.Isoduration.EndlessLoop
