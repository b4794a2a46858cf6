import Stim.Core.Noise.Completion
import Stim.Core.KeyedDelta
import Stim.Cli.MetroOutput
import Stim.Cli.WarmClaim
import Stim.Core.Oversight.AfterQuiet
import Stim.Core.StatusViews.Oversight
import Stim.Core.OwnershipClaim.Handover
import Stim.Cli.EngineSwitch.Admission
import Stim.Cli.HomeSchema.Restore
import Stim.Cli.PodsRelocate.Once
import Stim.Cli.EngineStore.Newest
import Stim.Cli.BuildSession.Upload
import Stim.Cli.BuildSlots.Order
import Stim.Cli.DeviceAdmission.Caps
import Stim.Cli.DeviceAdmission.Queue
import Stim.Cli.DeviceLease.Exclusion
import Stim.Server.OffloadJobs.Ownership
import Stim.Server.Replay.Playback
import Stim.Server.ShareSessions.Soundness
import Stim.Core.ExpoContext.Following
import Stim.Core.LogQuery.Exclusion
import Stim.Core.NdjsonTail.FullRead
import Stim.Core.LogIndex.Resumed
import Stim.Core.HostedLogs.Paging
import Stim.Cli.MetroAdoption.Handover
import Stim.Cli.OffloadBuild.Closed
import Stim.Cli.NativeLogs.Windows
import Stim.Cli.WorktreeRefresh.Owed
import Stim.Core.ArtifactStore.Publication
import Stim.Server.Footage
import Stim.Server.ServiceTask
import Stim.Cli.IndexStore.Moved
import Stim.Server.UsageHistory.Definition
import Stim.Server.Presence.Agreement
import Stim.Cli.SignedTail.Archive
import Stim.Server.HostedApp.Delivery
import Stim.Server.AdbInput
import Stim.Server.JobRelay
import Stim.Server.ArchivePages
import Stim.Cli.BuildKey.Explained
import Stim.Cli.GitIndex.Format
import Stim.Server.JsonSpans.Agreement
import Stim.Server.ServiceUnit.RoundTrip
import Stim.Core.LogSelection
import Stim.Core.Trace.Secrets
import Stim.Cli.NativeXcodeSyntax.Reading
import Stim.Cli.RunStats.Runs
import Stim.Cli.HostedBundle.Links
