import ShardedKvs.Machine.Basic
import ShardedKvs.Machine.Rank
import ShardedKvs.Log.Latest
import ShardedKvs.Heap.Basic
import ShardedKvs.Text.Decimal
import ShardedKvs.Batch.Basic
import ShardedKvs.Program.Basic
import ShardedKvs.Flight.Basic
import ShardedKvs.Raft.Basic
import ShardedKvs.Raft.Setup
import ShardedKvs.Raft.Join
import ShardedKvs.KvStore.Basic
import ShardedKvs.KvStore.Shared
import ShardedKvs.KvStore.Snapshot
import ShardedKvs.KvStore.Flag
import ShardedKvs.KvStore.Restore
import ShardedKvs.Shard.Basic
import ShardedKvs.Shard.Pause
import ShardedKvs.Shard.Entry
import ShardedKvs.Config.Basic
import ShardedKvs.Scale.Basic
import ShardedKvs.Scale.Migration
import ShardedKvs.Scale.Writes
import ShardedKvs.Scale.Resume
import ShardedKvs.Replica.Basic
import ShardedKvs.Replica.Move
import ShardedKvs.Replica.Count
import ShardedKvs.Replica.Drain
import ShardedKvs.Replica.Serve
import ShardedKvs.Replica.Reads
import ShardedKvs.Replica.Workers
import ShardedKvs.Replica.Sweep
import ShardedKvs.KvServer.Map
import ShardedKvs.Ring.Reload
import ShardedKvs.Ring.Clients
import ShardedKvs.Kvctl.Basic
import ShardedKvs.Kvctl.View
import ShardedKvs.Kvctl.Stock
import ShardedKvs.Kvctl.Prepare
import ShardedKvs.Kvctl.Race
import ShardedKvs.Kvctl.Segment
import ShardedKvs.Kvctl.Quiet
import ShardedKvs.Kvctl.Replicas
import ShardedKvs.Kvctl.Names
import ShardedKvs.Kvctl.Surplus
import ShardedKvs.Kvctl.Retry
import ShardedKvs.Kvctl.Mounts
import ShardedKvs.Kvctl.Converge
import ShardedKvs.Raft.Members
import ShardedKvs.Raft.Voters
import ShardedKvs.Raft.Fresh
import ShardedKvs.KvStore.Wire
import ShardedKvs.Kvctl.Keep
import ShardedKvs.Shard.Once
import ShardedKvs.Ring.InUse
import ShardedKvs.Kvctl.Rings
import ShardedKvs.KvStore.Locks
import ShardedKvs.KvStore.Progress
import ShardedKvs.KvStore.Races
