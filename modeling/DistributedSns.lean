import DistributedSns.Lib.Machine
import DistributedSns.FSWrapper.Utils
import DistributedSns.FSWrapper.TreeNode
import DistributedSns.FSWrapper.Lemmas.Split
import DistributedSns.FSWrapper.Memory
import DistributedSns.FSWrapper.InterchangeTheorems
import DistributedSns.Coordinator.Lemmas.Locks
import DistributedSns.Coordinator.Interleaved
import DistributedSns.Coordinator.Lemmas.Election
import DistributedSns.Coordinator.RaceTheorems
import DistributedSns.Coordinator.Theorems
import DistributedSns.Lib.LastWrite
import DistributedSns.Server.Graph
import DistributedSns.Server.Lemmas.Lines
import DistributedSns.Server.Lemmas.Restore
import DistributedSns.Server.Theorems
import DistributedSns.Server.SnapshotTheorems
import DistributedSns.Server.TimelineTheorems
import DistributedSns.System.Delivery
import DistributedSns.System.DeliveryTheorems
import DistributedSns.Coordinator.AssignmentTheorems
import DistributedSns.Coordinator.LeaderTheorems
import DistributedSns.Coordinator.ReleaseTheorems
import DistributedSns.Coordinator.LockFileTheorems
import DistributedSns.Coordinator.ConfinementTheorems
import DistributedSns.Coordinator.ServerTheorems
import DistributedSns.Coordinator.SyncTheorems
import DistributedSns.System.Failover
import DistributedSns.System.FailoverTheorems
import DistributedSns.System.HeartbeatTheorems
import DistributedSns.Server.FollowTheorems
import DistributedSns.Server.CompletionTheorems
import DistributedSns.Server.CommuteTheorems
import DistributedSns.Server.FileTheorems
import DistributedSns.Server.TimeTheorems
import DistributedSns.Server.StartupTheorems
import DistributedSns.System.JoinTheorems
import DistributedSns.FSWrapper.SplitTheorems
import DistributedSns.FSWrapper.TreeTheorems
import DistributedSns.FSWrapper.ParentTheorems
import DistributedSns.Coordinator.RangeTheorems
import DistributedSns.Server.BacklogTheorems
import DistributedSns.Client.Lemmas.Refresh
import DistributedSns.Client.Model
import DistributedSns.Client.RefreshTheorems
import DistributedSns.Client.ScriptTheorems
import DistributedSns.Client.ServedTheorems
import DistributedSns.Client.Session
import DistributedSns.Client.SessionTheorems
import DistributedSns.Coordinator.PassTheorems
import DistributedSns.FSWrapper.Lemmas.Names
import DistributedSns.FSWrapper.Render
import DistributedSns.FSWrapper.RenderTheorems
import DistributedSns.FSWrapper.Save
import DistributedSns.FSWrapper.SaveTheorems
import DistributedSns.Server.Host
import DistributedSns.Server.HostTheorems
import DistributedSns.Shell.Interpreter
import DistributedSns.Shell.SessionTheorems
