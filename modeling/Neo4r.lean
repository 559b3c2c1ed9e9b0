import Neo4r.Raft.Reads
import Neo4r.Db.Leadership
import Neo4r.Db.LogMatching
import Neo4r.Storage.GraphRefinement
import Neo4r.Storage.IndexInvariant
import Neo4r.Server.DistributedQuery
import Neo4r.Server.TwoPhaseCommit
import Neo4r.Db.RelationshipIds
import Neo4r.Db.TcpReplicator
import Neo4r.Db.TransferHistory
import Neo4r.Storage.LogCompaction
import Neo4r.Server.NativeWorkers
import Neo4r.Server.Tenants
import Neo4r.Server.TransactionIsolation
import Neo4r.Raft.LeaderCommit
import Neo4r.Raft.SnapshotInstall
import Neo4r.Db.StaticPrimary
import Neo4r.Db.DeltaCommands
import Neo4r.Db.MergeLookup
import Neo4r.Db.ShardScopedRead
import Neo4r.Server.ResponseText
import Neo4r.Server.PeerStores
