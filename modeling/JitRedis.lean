import JitRedis.Dict.Scan
import JitRedis.Rax.Refinement
import JitRedis.Cluster.ElectionSafety
import JitRedis.Sentinel.ElectionSafety
import JitRedis.Cluster.MigrateSafety
import JitRedis.Replication.FullResync
import JitRedis.Replication.ScriptsSafety
import JitRedis.Stream.NextID
import JitRedis.Intset.Refinement
import JitRedis.Listpack.Edit
import JitRedis.Ziplist.Merging
import JitRedis.Quicklist.Lrem
import JitRedis.Quicklist.Insertion
import JitRedis.Bitops.Overflow
import JitRedis.Stream.Failures
import JitRedis.Stream.Unread
import JitRedis.Bitops.Bitop
import JitRedis.Util.Quoting
import JitRedis.Keyspace.Setrange
import JitRedis.Cluster.Query
import JitRedis.Aof.Recovery
