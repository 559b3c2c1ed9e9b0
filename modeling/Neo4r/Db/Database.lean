/-
  `Db.Database`: the state of a database server and its write path
  (`neo4r-db/src/database.rs`, `database/db_raft_apply.rs`,
  `database/db_maintenance_plan.rs`, `database/db_index_validation.rs`).

  Every vector of the program that has one element for each shard is a function of the
  shard here, next to the number of shards.  What the code does not look into is a
  parameter: the graph store with its indexes and validations (`GraphEngine`) and the
  replicator (`ShardReplicator`), so what is proved holds for all of them.  File
  operations succeed, apart from the saves of the Raft state.
-/
import Neo4r.Db.Consensus
import Neo4r.Foundation.Fallible

set_option autoImplicit false

namespace Neo4r.Db

open Foundation Raft Storage Function Fallible

/-! ## State -/

/-- The settings that the modelled operations read. -/
structure DatabaseConfig where
  serverId : Nat
  checkpointInterval : Nat
  failAfterCommitBeforeApply : Bool
  deriving DecidableEq, Repr

/-- The checkpoint file of a shard. -/
structure LoadedCheckpoint where
  lastAppliedTerm : Nat
  lastAppliedIndex : Nat
  timestamp : HybridTimestamp
  deriving DecidableEq, Repr

/-- The commit file of a shard. -/
structure LoadedCommit where
  term : Nat
  index : Nat
  deriving DecidableEq, Repr

/-- Who has acknowledged an entry. -/
structure ReplicationOutcome where
  ackedServerIds : List Nat
  ackedMatchIndexes : List (Nat × Nat × Nat)
  deriving DecidableEq, Repr

/-- `ReplicationOutcome::local`. -/
def ReplicationOutcome.local (originServerId : Nat) : ReplicationOutcome := ⟨[originServerId], []⟩

/-- The trait `ShardReplicator`, for replicators with state `R`. -/
structure ShardReplicator (C R : Type) where
  publish : LogEntry C → Fallible DatabaseError R ReplicationOutcome
  publishBatch : List (LogEntry C) → Fallible DatabaseError R (List ReplicationOutcome)
  installRoutingTable : ShardRoutingTable → Fallible DatabaseError R Unit

/-- `NoopShardReplicator`. -/
def noopShardReplicator (C : Type) : ShardReplicator C Unit where
  publish entry := pure (.local entry.originServerId)
  publishBatch entries := collect (fun entry => pure (.local entry.originServerId)) entries
  installRoutingTable _ := pure ()

/-- The graph store of a server, with the validations and indexes that go with it.
`configChange` gives the phase and the table of a `ClusterConfigChange` command, and
`validateReplicatedVectorIndexes` gets the commands accepted before in the batch. -/
structure GraphEngine (C G : Type) where
  configChange : C → Option (String × ShardRoutingTable)
  validateStorableProperties : C → Except DatabaseError Unit
  validateVectorIndexes : G → C → Except DatabaseError Unit
  validateUniqueConstraints : G → C → Except DatabaseError Unit
  validateReplicatedVectorIndexes : G → List C → C → Except DatabaseError Unit
  apply : Nat → C → Fallible DatabaseError G Unit
  applyBatch : List (Nat × C) → Fallible DatabaseError G Unit
  updateVectorIndexes : C → Fallible DatabaseError G Unit
  refreshStatistics : Fallible DatabaseError G Unit

/-- A database server: commands `C`, graph store `G`, replicator `R`.  The last two
fields are what the clocks of the machine read. -/
structure Database (C G R : Type) where
  config : DatabaseConfig
  shardCount : Nat
  store : G
  logs : Nat → SegmentedShardLog C
  checkpoints : Nat → Option LoadedCheckpoint
  commits : Nat → Option LoadedCommit
  snapshots : Nat → Option RaftSnapshotMetadata
  stateStores : Nat → RaftPersistentStateStore
  routingTable : ShardRoutingTable
  configEpoch : Nat
  nextLogIndexes : Nat → Nat
  commitIndexes : Nat → Nat
  matchIndexes : Nat → Nat → Option Nat
  clock : HybridClock
  raftGroups : Option (RaftShardConsensus C)
  replicator : R
  physicalMs : Nat
  instant : Nat

namespace Database

variable {C G R : Type}

/-- An operation on a database. -/
abbrev Op (C G R α : Type) : Type := Fallible DatabaseError (Database C G R) α

/-! ## Lookups by shard -/

/-- What a vector holds for a shard. -/
def ofShard {α : Type} (vector : Database C G R → Nat → α) (shardId : Nat)
    (db : Database C G R) : Except DatabaseError α :=
  if shardId < db.shardCount then .ok (vector db shardId) else .error (.missingShardLog shardId)

variable (shardId : Nat)

/-- `log`. -/
def log : Database C G R → Except DatabaseError (SegmentedShardLog C) := ofShard logs shardId

/-- `next_log_index`. -/
def nextLogIndex : Database C G R → Except DatabaseError Nat := ofShard nextLogIndexes shardId

/-- `commit_index`. -/
def commitIndex : Database C G R → Except DatabaseError Nat := ofShard commitIndexes shardId

variable (db : Database C G R)

/-- `applied_index`. -/
def appliedIndex : Except DatabaseError Nat := (nextLogIndex shardId db).map (· - 1)

/-! ## Admission of writes -/

/-- `ensure_write_epoch`. -/
def ensureWriteEpoch : Except DatabaseError Unit :=
  if db.configEpoch ≠ db.routingTable.version then
    let epoch := db.configEpoch
    let version := db.routingTable.version
    .error (.invalidConfig s!"stale write epoch: metadata epoch {epoch}, routing version {version}")
  else .ok ()

/-- `ensure_local_primary` on a server with Raft. -/
def ensureRaftLeader (consensus : RaftShardConsensus C) (shardId : Nat)
    (db : Database C G R) : Except DatabaseError Unit :=
  if db.routingTable.hasLocalCopy shardId db.config.serverId = false then
    .error (.shardNotPrimary shardId db.config.serverId (db.routingTable.primaryServerId shardId))
  else do
    let applied ← appliedIndex shardId db
    let committed ← commitIndex shardId db
    if applied < committed then
      .error (.shardReplaying shardId db.config.serverId applied committed)
    else
      let group ← consensus.group shardId
      if group.role = .leader then .ok ()
      else .error (.shardNotPrimary shardId db.config.serverId
        (group.leaderId.or (db.routingTable.primaryServerId shardId)))

/-- `ensure_local_primary`. -/
def ensureLocalPrimary : Except DatabaseError Unit :=
  match db.raftGroups with
  | some consensus => ensureRaftLeader consensus shardId db
  | none =>
    let primaryServerId := db.routingTable.primaryServerId shardId
    if primaryServerId = some db.config.serverId then .ok ()
    else .error (.shardNotPrimary shardId db.config.serverId primaryServerId)

/-- `ensure_local_copy`. -/
def ensureLocalCopy : Except DatabaseError Unit :=
  if db.routingTable.hasLocalCopy shardId db.config.serverId then .ok ()
  else .error (.shardNotLocal shardId db.config.serverId)

/-! ## The log -/

/-- Appends to the write-ahead log of a shard. -/
def appendToLog (entry : LogEntry C) : Op C G R Unit := do
  let log ← lookup fun db => (log shardId db).bind fun log => log.appendWithSync entry
  change fun db => { db with logs := update db.logs shardId log }

variable (entry : LogEntry C)

/-- `observe_log_position`. -/
def observeLogPosition : Op C G R Unit :=
  change fun db => { db with
    nextLogIndexes := update db.nextLogIndexes entry.shardId
      (max (db.nextLogIndexes entry.shardId) (saturatingAdd entry.index 1)) }

/-- `observe_entry`, apart from the id allocators. -/
def observeEntry : Op C G R Unit := do
  observeLogPosition entry
  change fun db => { db with
    clock := db.clock.observe db.physicalMs entry.timestamp }

/-- An operation on the Raft group of a shard. -/
def onGroup {α : Type} (consensus : RaftShardConsensus C) (shardId : Nat)
    (call : RaftCore C → Except DatabaseError α × RaftCore C) : Op C G R α := do
  let group ← lookup fun _ => consensus.group shardId
  ⟨fun db => ((call group).1,
    { db with raftGroups := some (consensus.setGroup shardId (call group).2) })⟩

/-- `local_raft_term_for_append`. -/
def localRaftTermForAppend : Except DatabaseError Nat :=
  match db.raftGroups with
  | none => .ok 0
  | some consensus => do
      let group ← consensus.group shardId
      if group.role = .leader then .ok group.currentTerm
      else
        let serverId := db.config.serverId
        .error (.replication s!"local server {serverId} is not raft leader for shard {shardId}")

/-- `append_entry_to_local_raft`. -/
def appendEntryToLocalRaft : Op C G R Unit := do
  let db ← current
  match db.raftGroups with
  | none => pure ()
  | some consensus => do
      let _ ← onGroup consensus entry.shardId fun group => group.appendExistingLocalEntry entry
      pure ()

variable (engine : GraphEngine C G)

/-- The checks at the start of `append_local_command`. -/
def checkLocalCommand (shardId : Nat) (command : C)
    (db : Database C G R) : Except DatabaseError Unit := do
  ensureWriteEpoch db
  ensureLocalPrimary shardId db
  engine.validateStorableProperties command
  engine.validateVectorIndexes db.store command
  engine.validateUniqueConstraints db.store command

/-- `self.clock.tick()`. -/
def tickClock : Op C G R HybridTimestamp := do
  let db ← current
  let clock := db.clock.tick db.physicalMs
  change fun db => { db with clock }
  pure clock.last

/-- `append_local_command`. -/
def appendLocalCommand (shardId : Nat) (command : C) : Op C G R (LogEntry C) := do
  lookup (checkLocalCommand engine shardId command)
  let index ← lookup (nextLogIndex shardId)
  let term ← lookup (localRaftTermForAppend shardId)
  let timestamp ← tickClock
  let db ← current
  let entry := LogEntry.newWithMetadata shardId term index db.config.serverId
    db.routingTable.version timestamp command
  appendToLog shardId entry
  appendEntryToLocalRaft entry
  observeLogPosition entry
  pure entry

/-! ## Acknowledgements and commit -/

/-- A slot of the match indexes raised to an index. -/
def raiseMatch (slots : Nat → Option Nat) (serverId index : Nat) : Nat → Option Nat :=
  update slots serverId (some (max ((slots serverId).getD 0) index))

/-- `observe_replication_outcome`. -/
def observeReplicationOutcome (outcome : ReplicationOutcome) : Op C G R Unit := do
  let slots ← lookup (ofShard matchIndexes entry.shardId)
  let slots := (outcome.ackedMatchIndexes.filter fun ack => ack.2.1 = entry.shardId).foldl
    (fun slots ack => raiseMatch slots ack.1 ack.2.2) slots
  let slots := outcome.ackedServerIds.foldl
    (fun slots serverId => raiseMatch slots serverId entry.index) slots
  change fun db => { db with
    matchIndexes := update db.matchIndexes entry.shardId slots }

/-- The acknowledgements of an outcome as the match indexes that
`observe_raft_replication_outcome` records for an entry, in order. -/
def raftMatches (outcome : ReplicationOutcome) : List (Nat × Nat) :=
  ((outcome.ackedMatchIndexes.filter fun ack => ack.2.1 = entry.shardId).map
      fun ack => (ack.1, ack.2.2)) ++
    outcome.ackedServerIds.map fun serverId => (serverId, entry.index)

/-- The loops of `observe_raft_replication_outcome` on a group. -/
def recordMatches (now : Nat) :
    List (Nat × Nat) → RaftCore C → Except DatabaseError Unit × RaftCore C
  | [], group => (.ok (), group)
  | (serverId, index) :: acks, group =>
    match group.recordReplicationMatch serverId index now with
    | (.error err, group) => (.error err, group)
    | (.ok _, group) => recordMatches now acks group

/-- `observe_raft_replication_outcome`. -/
def observeRaftReplicationOutcome (outcome : ReplicationOutcome) : Op C G R Unit := do
  let db ← current
  match db.raftGroups with
  | none => pure ()
  | some consensus =>
    onGroup consensus entry.shardId fun group =>
      match recordMatches db.instant (raftMatches entry outcome) group with
      | (.error err, group) => (.error err, group)
      | (.ok (), group) =>
        if group.commitIndex < entry.index then
          let shardId := entry.shardId
          let index := entry.index
          (.error (.replication
            s!"raft quorum did not commit shard {shardId} entry {index}"), group)
        else (.ok (), group)

/-- The check of `commit_entry` and `commit_entries`, with the error both raise. -/
def ensureContiguous (db : Database C G R) : Except DatabaseError Unit := do
  let committed ← commitIndex entry.shardId db
  if entry.index ≠ saturatingAdd committed 1 then
    let shardId := entry.shardId
    let index := entry.index
    let current := saturatingAdd committed 1 - 1
    .error (.replication
      s!"cannot commit non-contiguous shard {shardId} entry {index} while commit index is {current}")
  else .ok ()

/-- Raises the commit index in memory. -/
def setCommitIndex : Op C G R Unit :=
  change fun db => { db with
    commitIndexes := update db.commitIndexes entry.shardId entry.index }

/-- Saves the commit file of the entry's shard. -/
def saveCommit : Op C G R Unit :=
  change fun db => { db with
    commits := update db.commits entry.shardId (some ⟨entry.term, entry.index⟩) }

/-- `commit_entry`. -/
def commitEntry : Op C G R Unit := do
  lookup (ensureContiguous entry)
  saveCommit entry
  setCommitIndex entry

/-- The last entry of each shard, by shard. -/
def lastByShard (entries : List (LogEntry C)) : List (LogEntry C) :=
  (keysOf LogEntry.shardId entries).filterMap fun shardId =>
    entries.reverse.find? fun entry => entry.shardId = shardId

/-- `commit_entries`. -/
def commitEntries (entries : List (LogEntry C)) : Op C G R Unit := do
  forEach (fun entry => do
    lookup (ensureContiguous entry)
    setCommitIndex entry) entries
  forEach saveCommit (lastByShard entries)

/-! ## Applying -/

/-- An operation on the graph store. -/
def onStore {α : Type} (x : Fallible DatabaseError G α) : Op C G R α :=
  zoom store (fun db store => { db with store }) x

/-- An operation on the replicator. -/
def onReplicator {α : Type} (x : Fallible DatabaseError R α) : Op C G R α :=
  zoom replicator (fun db replicator => { db with replicator }) x

/-- What opening the groups reads. -/
def consensusFiles : ConsensusFiles C where
  logs := (List.range db.shardCount).map db.logs
  snapshots := db.snapshots
  commitIndexes := (List.range db.shardCount).map db.commitIndexes

/-- The result of opening the groups anew, and the database with it.  If that fails the
server keeps the groups it has, on state files that may have changed. -/
def withRebuiltGroups (consensus : RaftShardConsensus C) :
    Except DatabaseError Unit × Database C G R :=
  let stores := fun shardId => match consensus.groups[shardId]? with
    | some group => group.stateStore
    | none => db.stateStores shardId
  match RaftShardConsensus.openAll db.config.serverId db.routingTable db.consensusFiles
    db.instant stores with
  | (.ok rebuilt, stores) =>
    (.ok (), { db with raftGroups := some rebuilt, stateStores := stores })
  | (.error err, stores) =>
    (.error err, { db with
      raftGroups := some (consensus.withStores stores), stateStores := stores })

/-- `rebuild_raft_groups`. -/
def rebuildRaftGroups : Op C G R Unit := do
  let db ← current
  match db.raftGroups with
  | none => pure ()
  | some consensus => ⟨fun db => db.withRebuiltGroups consensus⟩

/-- `validate_routing_table`. -/
def validateRoutingTable (table : ShardRoutingTable) (shardCount : Nat) :
    Except DatabaseError Unit :=
  if table.version = 0 then
    .error (.invalidConfig "routing table version must be greater than zero")
  else if table.placements.length ≠ shardCount then
    .error (.invalidConfig s!"routing table must contain {shardCount} shard placements")
  else (List.range shardCount).forM fun shardId =>
    match table.placement shardId with
    | none => .error (.invalidConfig s!"routing table missing shard {shardId}")
    | some placement =>
      if placement.primaryServerId = none then
        .error (.invalidConfig s!"routing table shard {shardId} has no primary")
      else .ok ()

/-- The part of `apply_cluster_config_change` that installs a table, without the files
it saves. -/
def installRoutingTable (replicator : ShardReplicator C R) (table : ShardRoutingTable) :
    Op C G R Unit := do
  onReplicator (replicator.installRoutingTable table)
  change fun db => { db with configEpoch := table.version, routingTable := table }
  rebuildRaftGroups

variable (replicator : ShardReplicator C R)

/-- `apply_cluster_config_change`. -/
def applyClusterConfigChange
    (command : C) : Op C G R Unit := do
  let db ← current
  match engine.configChange command with
  | none => pure ()
  | some (phase, table) =>
    if phase ≠ "install" ∨ table.version < db.routingTable.version then pure ()
    else do
      lookup fun db => validateRoutingTable table db.shardCount
      if table = db.routingTable then pure () else installRoutingTable replicator table

/-- `should_checkpoint`. -/
def shouldCheckpoint (index : Nat) : Bool := index ≠ 0 && index % db.config.checkpointInterval = 0

/-- Saves the checkpoint file of the entry's shard. -/
def saveCheckpoint : Op C G R Unit :=
  change fun db => { db with
    checkpoints := update db.checkpoints entry.shardId
      (some ⟨entry.term, entry.index, entry.timestamp⟩) }

/-- `apply_entry`. -/
def applyEntry
    (entry : LogEntry C) : Op C G R Unit := do
  applyClusterConfigChange engine replicator entry.command
  onStore (engine.apply entry.shardId entry.command)
  onStore (engine.updateVectorIndexes entry.command)
  observeEntry entry
  onStore engine.refreshStatistics
  let db ← current
  if db.shouldCheckpoint entry.index then saveCheckpoint entry else pure ()

/-- `apply_entries_batch`. -/
def applyEntriesBatch
    (entries : List (LogEntry C)) : Op C G R Unit :=
  if entries.isEmpty then pure ()
  else do
    forEach (fun entry => applyClusterConfigChange engine replicator entry.command) entries
    onStore (engine.applyBatch (entries.map fun entry => (entry.shardId, entry.command)))
    forEach (fun entry => do
      onStore (engine.updateVectorIndexes entry.command)
      observeEntry entry) entries
    onStore engine.refreshStatistics
    let db ← current
    forEach saveCheckpoint
      (lastByShard (entries.filter fun entry => db.shouldCheckpoint entry.index))

/-! ## Writes -/

/-- `maybe_inject_failure_after_commit_before_apply`. -/
def maybeInjectFailureAfterCommitBeforeApply :
    Except DatabaseError Unit :=
  if db.config.failAfterCommitBeforeApply then
    .error (.replication "injected failure after commit before apply")
  else .ok ()

/-- `write_command`. -/
def writeCommand
    (shardId : Nat) (command : C) : Op C G R Unit := do
  let entry ← appendLocalCommand engine shardId command
  let outcome ← onReplicator (replicator.publish entry)
  observeReplicationOutcome entry outcome
  observeRaftReplicationOutcome entry outcome
  commitEntry entry
  lookup maybeInjectFailureAfterCommitBeforeApply
  applyEntry engine replicator entry

/-- `flush_entries`; syncing the segments changes nothing but looks the logs up. -/
def flushEntries
    (entries : List (LogEntry C)) : Op C G R Unit := do
  forEach (fun entry => do
    let _ ← lookup (log entry.shardId)
    pure ()) entries
  commitEntries entries
  applyEntriesBatch engine replicator entries

/-- `flush_group_commit`. -/
def flushGroupCommit
    (entries : List (LogEntry C)) : Op C G R Unit := do
  let outcomes ← onReplicator (replicator.publishBatch entries)
  forEach (fun (entry, outcome) => do
    observeReplicationOutcome entry outcome
    observeRaftReplicationOutcome entry outcome) (entries.zip outcomes)
  flushEntries engine replicator entries

/-- What preparing an operation comes to: an error of the checks before its command is
appended, or the shard and the command. -/
abbrev Request (C : Type) : Type := Except DatabaseError (Nat × C)

/-- `execute_batch_write`, over what preparing each operation comes to.  A staged transaction
and a batch of Cypher writes are batches in which every operation is prepared beforehand. -/
def executeBatchWrite (operations : List (Request C)) : Op C G R Unit := do
  let entries ← collect (fun operation => do
    let (shardId, command) ← lookup fun _ => operation
    appendLocalCommand engine shardId command) operations
  if entries.isEmpty then pure () else flushGroupCommit engine replicator entries

/-- `execute_write_batch`, over what preparing each request comes to: a request that cannot be
prepared or appended is answered by itself, and the others are flushed. -/
def executeWriteBatch (requests : List (Request C)) : Op C G R Unit := do
  let entries ← collectOk (fun request => do
    let (shardId, command) ← lookup fun _ => request
    appendLocalCommand engine shardId command) requests
  if entries.isEmpty then pure () else flushGroupCommit engine replicator entries

end Database

end Neo4r.Db
