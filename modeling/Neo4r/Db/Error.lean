/-
  `Db.Error`: the errors of the storage and database layers
  (`neo4r-storage/src/log.rs`, `neo4r-db/src/error.rs`).

  Errors of the operating system reach the program as text, so they are text here.
-/
import Neo4r.Core.Model

set_option autoImplicit false

namespace Neo4r

/-- `StorageError`, for the variants the modelled code raises. -/
inductive StorageError
  | io (message : String)
  | corruptLog (message : String)
  | corruptStore (message : String)
  | wrongShard (expected actual : Nat)
  deriving DecidableEq, Repr

/-- `DatabaseError`, for the variants the modelled code raises. -/
inductive DatabaseError
  | invalidConfig (message : String)
  | storage (error : StorageError)
  | missingShardLog (shardId : Nat)
  | shardNotLocal (shardId serverId : Nat)
  | shardNotPrimary (shardId serverId : Nat) (primaryServerId : Option Nat)
  | shardReplaying (shardId serverId : Nat) (applied committed : Nat)
  | unexpectedLogIndex (shardId : Nat) (expected actual : Nat)
  | logConflict (shardId : Nat) (index : Nat) (message : String)
  | replication (message : String)
  | graph (error : GraphError)
  deriving DecidableEq, Repr

/-- The text of a graph error. -/
def GraphError.text : GraphError → String
  | .nodeAlreadyExists id => s!"node already exists: {id}"
  | .nodeNotFound id => s!"node not found: {id}"
  | .relationshipAlreadyExists id => s!"relationship already exists: {id}"
  | .relationshipNotFound id => s!"relationship not found: {id}"
  | .relationshipEndpointNotFound relationshipId nodeId =>
    s!"relationship {relationshipId} refers to missing node {nodeId}"

/-- The text of a storage error. -/
def StorageError.text : StorageError → String
  | .io message => message
  | .corruptLog message => s!"corrupt command log: {message}"
  | .corruptStore message => s!"corrupt graph store: {message}"
  | .wrongShard expected actual => s!"wrong shard entry: expected {expected}, got {actual}"

/-- The text of a database error. -/
def DatabaseError.text : DatabaseError → String
  | .invalidConfig message => s!"invalid database config: {message}"
  | .storage error => error.text
  | .missingShardLog shardId => s!"missing shard log: {shardId}"
  | .shardNotLocal shardId serverId => s!"shard {shardId} is not local to server {serverId}"
  | .shardNotPrimary shardId serverId primaryServerId =>
    let primary := match primaryServerId with
      | some primary => s!"Some({primary})"
      | none => "None"
    s!"server {serverId} is not primary for shard {shardId}; primary is {primary}"
  | .shardReplaying shardId serverId applied committed =>
    s!"server {serverId} cannot serve shard {shardId}: " ++
      s!"replaying applied {applied} committed {committed}"
  | .unexpectedLogIndex shardId expected actual =>
    s!"unexpected log index for shard {shardId}: expected {expected}, got {actual}"
  | .logConflict shardId index message =>
    s!"log conflict at shard {shardId} index {index}: {message}"
  | .replication message => s!"replication error: {message}"
  | .graph error => error.text

end Neo4r
