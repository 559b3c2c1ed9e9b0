/-
  `Db.GraphDatabase`: a server with its id allocators, the calls that write single records,
  and opening a server on its files (`neo4r-db/src/database/db_open_write.rs`,
  `database/db_maintenance_plan.rs`, `database/db_raft_apply.rs`).

  `Database` leaves the allocators out, since the write path does not look at them.  They are
  put next to it here.  In `apply_entry` they are advanced once the command is in the store;
  of what follows there nothing fails on this engine, so they are advanced last.

  What survives a restart are the store, the logs, the checkpoint and commit files, the Raft
  state and the routing table.
-/
import Neo4r.Db.Follower
import Neo4r.Db.GraphIndexes
import Neo4r.Db.StoreMoves

set_option autoImplicit false

namespace Neo4r.Db

open Foundation Raft Storage Database Fallible

/-- `Neo4rDatabase`. -/
structure GraphDatabase (R : Type) where
  core : Database Command IndexedGraph R
  nextNodeId : Nat
  nextRelationshipId : Nat

namespace GraphDatabase

variable {R : Type}

/-- An operation on a server. -/
abbrev Op (R α : Type) : Type := Fallible DatabaseError (GraphDatabase R) α

/-- An operation that does not look at the allocators. -/
def onCore {α : Type} (x : Database.Op Command IndexedGraph R α) : Op R α :=
  zoom core (fun db core => { db with core }) x

/-! ## Allocators -/

/-- The part of `observe_entry` about the allocators. -/
def observeIds (command : Command) (db : GraphDatabase R) : GraphDatabase R :=
  match command with
  | .createNode id _ _ | .upsertBoundaryNode id _ _ _ _ =>
    { db with nextNodeId := max db.nextNodeId (saturatingAdd id 1) }
  | .createRelationship id _ _ _ _ =>
    { db with nextRelationshipId := max db.nextRelationshipId (saturatingAdd id 1) }
  | _ => db

/-- `allocate_node_id`. -/
def allocateNodeId : Op R Nat := do
  let db ← current
  change fun db => { db with nextNodeId := (db.nextNodeId + 1) % 2 ^ 64 }
  pure db.nextNodeId

/-- `allocate_relationship_id`. -/
def allocateRelationshipId : Op R Nat := do
  let db ← current
  change fun db => { db with nextRelationshipId := (db.nextRelationshipId + 1) % 2 ^ 64 }
  pure db.nextRelationshipId

/-! ## Writes -/

variable (replicator : ShardReplicator Command R)

/-- `apply_entry`. -/
def applyEntry (entry : LogEntry Command) : Op R Unit := do
  onCore (Database.applyEntry graphEngine replicator entry)
  change (observeIds entry.command)

/-- `write_command`, which ends with `apply_entry`. -/
def writeCommand (shardId : Nat) (command : Command) : Op R Unit := do
  onCore (Database.writeCommand graphEngine replicator shardId command)
  change (observeIds command)

/-- `shard_map.owner_of_node`. -/
def ownerOfNode (db : GraphDatabase R) (id : Nat) : Nat := id % db.core.shardCount

/-- `shard_map.owner_of_relationship`. -/
def ownerOfRelationship (db : GraphDatabase R) (fromId : Nat) : Nat := db.ownerOfNode fromId

/-- `ensure_local_node_exists`. -/
def ensureLocalNodeExists (id : Nat) (db : GraphDatabase R) : Except DatabaseError Unit := do
  match ← db.core.store.node id with
  | some _ => pure ()
  | none => .error (.graph (.nodeNotFound id))

/-- `ensure_node_or_boundary_exists`. -/
def ensureNodeOrBoundaryExists (id : Nat) (db : GraphDatabase R) : Except DatabaseError Unit := do
  match ← db.core.store.node id with
  | some _ => pure ()
  | none => match ← (db.core.store.store.boundaryNode id).mapError .storage with
    | some _ => pure ()
    | none => .error (.graph (.nodeNotFound id))

/-- `relationship_owner_shard`. -/
def relationshipOwnerShard (id : Nat) (db : GraphDatabase R) : Except DatabaseError Nat := do
  match ← (db.core.store.store.relationship id).mapError .storage with
  | some relationship => pure (db.ownerOfRelationship relationship.fromId)
  | none => .error (.graph (.relationshipNotFound id))

/-- `create_node`. -/
def createNode (labels : List String) (properties : Properties) : Op R Nat := do
  let id ← allocateNodeId
  let db ← current
  writeCommand replicator (db.ownerOfNode id) (.createNode id labels properties)
  pure id

/-- `create_relationship`. -/
def createRelationship (fromId toId : Nat) (relType : String) (properties : Properties) :
    Op R Nat := do
  lookup (ensureLocalNodeExists fromId)
  lookup (ensureNodeOrBoundaryExists toId)
  let id ← allocateRelationshipId
  let db ← current
  writeCommand replicator (db.ownerOfRelationship fromId)
    (.createRelationship id fromId toId relType properties)
  pure id

/-- A call that writes a command about a stored node. -/
def writeToNode (id : Nat) (command : Command) : Op R Unit := do
  lookup (ensureLocalNodeExists id)
  let db ← current
  writeCommand replicator (db.ownerOfNode id) command

/-- A call that writes a command about a stored relationship. -/
def writeToRelationship (id : Nat) (command : Command) : Op R Unit := do
  let shardId ← lookup (relationshipOwnerShard id)
  writeCommand replicator shardId command

/-- `set_node_property`. -/
def setNodeProperty (id : Nat) (key : String) (value : Value) : Op R Unit :=
  writeToNode replicator id (.setNodeProperty id key value)

/-- `remove_node_property`. -/
def removeNodeProperty (id : Nat) (key : String) : Op R Unit :=
  writeToNode replicator id (.removeNodeProperty id key)

/-- `add_node_label`. -/
def addNodeLabel (id : Nat) (label : String) : Op R Unit :=
  writeToNode replicator id (.addNodeLabel id label)

/-- `remove_node_label`. -/
def removeNodeLabel (id : Nat) (label : String) : Op R Unit :=
  writeToNode replicator id (.removeNodeLabel id label)

/-- `set_relationship_property`. -/
def setRelationshipProperty (id : Nat) (key : String) (value : Value) : Op R Unit :=
  writeToRelationship replicator id (.setRelationshipProperty id key value)

/-- `remove_relationship_property`. -/
def removeRelationshipProperty (id : Nat) (key : String) : Op R Unit :=
  writeToRelationship replicator id (.removeRelationshipProperty id key)

/-- `delete_relationship`. -/
def deleteRelationship (id : Nat) : Op R Unit :=
  writeToRelationship replicator id (.deleteRelationship id)

/-- `delete_node`. -/
def deleteNode (id : Nat) : Op R Unit :=
  writeToNode replicator id (.deleteNode id)

/-! ## A replica -/

/-- `apply_entries_batch`. -/
def applyEntriesBatch (entries : List (LogEntry Command)) : Op R Unit := do
  onCore (Database.applyEntriesBatch graphEngine replicator entries)
  change fun db => entries.foldl (fun db entry => observeIds entry.command db) db

/-- `commit_and_apply_shards_through`. -/
def commitAndApplyShardsThrough (commitsByShard : List (Nat × Nat)) : Op R Unit := do
  let entries ← onCore (lookup fun db => committableEntriesThrough db commitsByShard)
  let entries := entries.insertionSort beforeInBatch
  if entries.isEmpty then pure ()
  else do
    onCore (commitEntries entries)
    applyEntriesBatch replicator entries

/-- `apply_raft_append_entries_with_response`. -/
def applyRaftAppendEntriesWithResponse [BEq Command] (shardId : Nat)
    (entries : List (LogEntry Command)) (leaderCommit : Nat) : Op R AppendEntriesResponse := do
  onCore (lookup fun db => validateRaftAppendEntries shardId db entries)
  let response ← onCore (observeRaftAppendEntries shardId entries leaderCommit)
  if response.success then do
    onCore (truncateReplicatedLogForAppend shardId entries)
    onCore (appendReplicatedEntries graphEngine entries)
    commitAndApplyShardsThrough replicator [(shardId, leaderCommit)]
    pure { response with durable := true }
  else pure response

/-- `apply_replicated_entries`. -/
def applyReplicatedEntries [BEq Command] (entries : List (LogEntry Command)) : Op R Unit := do
  onCore (appendReplicatedEntries graphEngine entries)
  commitAndApplyShardsThrough replicator (highestByShard entries)

/-! ## Opening -/

/-- `load_commit_indexes`. -/
def loadCommitIndexes (db : Database Command IndexedGraph R) (shardId : Nat) : Nat :=
  ((db.commits shardId).map LoadedCommit.index).getD 0

/-- The server that `open_with_replicator` builds from the files, before it replays the
logs. -/
def onFiles (db : GraphDatabase R) (replicator : R) : GraphDatabase R where
  core := { db.core with
    nextLogIndexes := fun _ => 1
    commitIndexes := loadCommitIndexes db.core
    matchIndexes := fun _ _ => none
    clock := ⟨.zero⟩
    replicator }
  nextNodeId := 0
  nextRelationshipId := 0

/-- The first index that `replay_logs` replays. -/
def replayStart (checkpoint : Option LoadedCheckpoint) : Nat :=
  (checkpoint.map fun checkpoint => saturatingAdd checkpoint.lastAppliedIndex 1).getD 0

/-- The body of the inner loop of `replay_logs`. -/
def replayEntry (entry : LogEntry Command) : Op R Unit := do
  onCore (observeLogPosition entry)
  let committed ← onCore (lookup (commitIndex entry.shardId))
  if entry.index ≤ committed then applyEntry replicator entry else pure ()

/-- The body of the outer loop of `replay_logs`. -/
def replayShard (shardId : Nat) : Op R Unit := do
  let checkpoint ← onCore (lookup (ofShard checkpoints shardId))
  let log ← onCore (lookup (log shardId))
  forEach (replayEntry replicator) (log.replayFrom (replayStart checkpoint))

/-- `replay_logs`. -/
def replayLogs : Op R Unit := do
  let db ← current
  forEach (replayShard replicator) (List.range db.core.shardCount)

/-- The id after the highest of a list, or the one given. -/
def idAfter (ids : List Nat) (next : Nat) : Nat :=
  ((ids.map fun id => saturatingAdd id 1).max?).getD next

/-- The body of the loop of `recover_allocators_from_store`. -/
def recoverLogPosition (shardId : Nat) : Database.Op Command IndexedGraph R Unit :=
  change fun db => match db.checkpoints shardId with
    | none => db
    | some checkpoint => { db with
        nextLogIndexes := Function.update db.nextLogIndexes shardId
          (max (db.nextLogIndexes shardId) (saturatingAdd checkpoint.lastAppliedIndex 1))
        clock := db.clock.observe db.physicalMs checkpoint.timestamp }

/-- `recover_allocators_from_store`. -/
def recoverAllocatorsFromStore : Op R Unit := do
  let nodes ← lookup fun db => db.core.store.store.nodes.mapError .storage
  change fun db => { db with nextNodeId := idAfter (nodes.map Node.id) db.nextNodeId }
  let relationships ← lookup fun db => db.core.store.store.relationships.mapError .storage
  change fun db => { db with
    nextRelationshipId := idAfter (relationships.map Relationship.id) db.nextRelationshipId }
  let db ← current
  onCore (forEach recoverLogPosition (List.range db.core.shardCount))

/-- `open_with_replicator` on the files of a server.  The Raft groups are opened first, on a
server that has them. -/
def openWithReplicator : Op R Unit := do
  onCore rebuildRaftGroups
  replayLogs replicator
  recoverAllocatorsFromStore

/-- A restart of a server, whose replicator then starts in the state `fresh`. -/
def restart (fresh : R) (db : GraphDatabase R) : Except DatabaseError Unit × GraphDatabase R :=
  (openWithReplicator replicator).run (db.onFiles fresh)

end GraphDatabase

end Neo4r.Db
