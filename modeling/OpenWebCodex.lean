import OpenWebCodex.PatchAnnounce
import OpenWebCodex.PatchMove
import OpenWebCodex.PatchRoundTrip
import OpenWebCodex.RunCleanup
import OpenWebCodex.RunLease
import OpenWebCodex.RunTurn
import OpenWebCodex.ApprovalRace
import OpenWebCodex.ProjectSecrecy
import OpenWebCodex.InlineAgree
import OpenWebCodex.ThreadSteady
import OpenWebCodex.ThreadList
import OpenWebCodex.RolloutShown
import OpenWebCodex.WorldState
import OpenWebCodex.DeleteThreads
import OpenWebCodex.WorktreeSetup
import OpenWebCodex.TerminalSessions
import OpenWebCodex.TerminalOutput
import OpenWebCodex.FuzzyMatch
import OpenWebCodex.Truncation
import OpenWebCodex.RolloutTruncate
import OpenWebCodex.HistoryNormalize
import OpenWebCodex.PermissionsEquivalence
import OpenWebCodex.ExecPolicyMerge
import OpenWebCodex.NetworkInclusion
import OpenWebCodex.RemoteSplitDeliver
import OpenWebCodex.RemoteTrackerTasks
import OpenWebCodex.RemoteOutbound
import OpenWebCodex.NoiseRelayDeliver
import OpenWebCodex.AssistantText
import OpenWebCodex.TaggedLineSpec
import OpenWebCodex.HeadTailBuffer
import OpenWebCodex.WordOnly
import OpenWebCodex.GitPaths
import OpenWebCodex.RolloutWriterRun
import OpenWebCodex.ProfileHostEvents
import OpenWebCodex.ProfileHostTurns
import OpenWebCodex.ProviderAtomic
import OpenWebCodex.AutoAccept
