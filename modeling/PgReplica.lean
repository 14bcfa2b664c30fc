import PgReplica.ConsensusModel.LogDivergence
import PgReplica.ConsensusModel.Tolerance
import PgReplica.ConsensusModel.LeadershipSafety
import PgReplica.ConsensusModel.StaleLeaders
import PgReplica.ConsensusModel.ElectedRanks
import PgReplica.Store.PurgedLog
import PgReplica.Store.Reapplication
import PgReplica.Store.Replicas
import PgReplica.Store.Readings
import PgReplica.Store.Recovery
import PgReplica.Store.SnapshotOrder
import PgReplica.Store.SnapshotReplay
import PgReplica.Rpc.ResponseMatching
import PgReplica.Supervisor.Startup
import PgReplica.Supervisor.PersistedSettings
import PgReplica.Supervisor.Authority
import PgReplica.Supervisor.SyncQuorum
import PgReplica.Supervisor.Divergence
import PgReplica.Supervisor.Stall
import PgReplica.Supervisor.OrderFree
import PgReplica.Supervisor.ProbeRank
import PgReplica.Supervisor.ConfirmWindow
import PgReplica.Supervisor.Rejoin
import PgReplica.Supervisor.Bootstrap
import PgReplica.Supervisor.Silence
import PgReplica.Supervisor.Watchdog
import PgReplica.Supervisor.Pacing
import PgReplica.Supervisor.StatusFile
import PgReplica.System.DecisionLog
import PgReplica.System.Adoption
import PgReplica.System.Availability
import PgReplica.System.Promotion
import PgReplica.Timed.Isolation
import PgReplica.Timed.Transport
