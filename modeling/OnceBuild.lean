import OnceBuild.Actions.Refinement
import OnceBuild.Analysis.WorkspaceScan
import OnceBuild.Archive.ExpansionBound
import OnceBuild.Archive.ZipConfined
import OnceBuild.Cas.BlobStore
import OnceBuild.Cas.Gc.Store
import OnceBuild.Core.LinkTarget
import OnceBuild.Events.Batches
import OnceBuild.Events.LossCalls
import OnceBuild.Events.Presentation
import OnceBuild.Events.Receiving
import OnceBuild.Graph.BuildReceiptSound
import OnceBuild.Graph.ChangedDirectories
import OnceBuild.Graph.DigestWindow
import OnceBuild.Graph.SourceDigestSound
import OnceBuild.Graph.TargetOutcomesSound
import OnceBuild.Materialization.PathOverlap
import OnceBuild.Materialization.Restoration
import OnceBuild.Network.Program
import OnceBuild.Plans.Safety
import OnceBuild.Preparation.KeyCoverage
import OnceBuild.Recovery.RepairsSafe
import OnceBuild.Remote.RootBinding
import OnceBuild.Resolution.Bounded
import OnceBuild.Resolution.Sound
import OnceBuild.Resources.CapturePermits
import OnceBuild.Resources.NoDelay
import OnceBuild.Sandbox.Preparation
import OnceBuild.Scheduler.Safety
import OnceBuild.Tuist.BatchDownloads
import OnceBuild.Tuist.BatchResponses
import OnceBuild.Tuist.ReadBack
import OnceBuild.Tuist.Recovering
