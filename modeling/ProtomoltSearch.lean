import ProtomoltSearch.Aggregate.Calendar
import ProtomoltSearch.Aggregate.Rank
import ProtomoltSearch.Aggregate.Relays
import ProtomoltSearch.Allowlist
import ProtomoltSearch.Capacity.Observations
import ProtomoltSearch.Catalog.AuditRuns
import ProtomoltSearch.Catalog.Outcomes
import ProtomoltSearch.ControlPlane.Conservation
import ProtomoltSearch.ControlPlane.Pending
import ProtomoltSearch.Coordinator.Cutover
import ProtomoltSearch.Coordinator.StreamCollapse
import ProtomoltSearch.Interleave
import ProtomoltSearch.Postings.Frontier
import ProtomoltSearch.Raft.Library
import ProtomoltSearch.Raft.SnapshotRuns
import ProtomoltSearch.Receiver.Admission
import ProtomoltSearch.Replication.CatchUpRuns
import ProtomoltSearch.Reshard.Partition
import ProtomoltSearch.Synonyms
import ProtomoltSearch.Vector.BatchScan
import ProtomoltSearch.Wal.Damage
