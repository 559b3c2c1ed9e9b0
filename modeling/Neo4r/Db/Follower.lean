/-
  `Db.Follower`: how a server takes entries from another one
  (`neo4r-db/src/database/db_raft_apply.rs`).

  `apply_raft_append_entries_with_response` serves a Raft leader: the request on the wire
  has the entries and the leader's commit index, and the check of the previous entry is
  made up from the server's own log.  Static replication and catch-up, which commit and
  apply what they append, use the same parts.
-/
import Neo4r.Db.Database

set_option autoImplicit false

namespace Neo4r.Db

open Foundation Raft Storage Function Fallible

namespace Database

variable {C G R : Type}

/-! ## Checks -/

/-- `validate_replicated_entry_metadata`. -/
def validateReplicatedEntryMetadata (entry : LogEntry C) (db : Database C G R) :
    Except DatabaseError Unit :=
  if entry.configVersion ≠ 0 ∧ entry.configVersion ≠ db.routingTable.version then
    let found := entry.configVersion
    let version := db.routingTable.version
    .error (.logConflict entry.shardId entry.index
      s!"config version mismatch: entry {found}, local {version}")
  else .ok ()

/-- `validate_raft_append_entries`. -/
def validateRaftAppendEntries (shardId : Nat) (db : Database C G R) :
    List (LogEntry C) → Except DatabaseError Unit
  | [] => .ok ()
  | entry :: entries =>
    if entry.shardId ≠ shardId then
      let found := entry.shardId
      .error (.logConflict entry.shardId entry.index
        s!"raft append entry shard {found} does not match request shard {shardId}")
    else do
      validateReplicatedEntryMetadata entry db
      if entry.configVersion = 0 then
        .error (.logConflict entry.shardId entry.index
          "raft append entry missing config authority stamp")
      else if entry.originServerId = 0 then
        .error (.logConflict entry.shardId entry.index
          "raft append entry missing leader authority stamp")
      else validateRaftAppendEntries shardId db entries

/-- `ensure_duplicate_entry_matches`. -/
def ensureDuplicateEntryMatches [BEq C] (entry : LogEntry C) (db : Database C G R) :
    Except DatabaseError Unit := do
  let log ← log entry.shardId db
  match log.entry entry.index with
  | none => .error (.logConflict entry.shardId entry.index
      "duplicate entry is below next index but missing locally")
  | some existing =>
    if existing.partialEq entry then .ok ()
    else .error (.logConflict entry.shardId entry.index
      "duplicate entry payload differs from local log")

/-! ## Appending -/

/-- The index that the next entry of a shard must have in `append_replicated_entries`. -/
def expectedIndex (nextIndexes : Nat → Option Nat) (shardId : Nat) (db : Database C G R) :
    Except DatabaseError Nat :=
  match nextIndexes shardId with
  | some expected => .ok expected
  | none => nextLogIndex shardId db

/-- The first loop of `append_replicated_entries`: which entries are new.  `nextIndexes`
has the next index of the shards that entries have been accepted for. -/
def acceptEntries [BEq C] (engine : GraphEngine C G) (db : Database C G R) :
    List (LogEntry C) → (Nat → Option Nat) → List (LogEntry C) →
      Except DatabaseError (List (LogEntry C))
  | [], _, accepted => .ok accepted
  | entry :: entries, nextIndexes, accepted => do
      validateReplicatedEntryMetadata entry db
      ensureLocalCopy entry.shardId db
      let expected ← expectedIndex nextIndexes entry.shardId db
      if entry.index < expected then do
        ensureDuplicateEntryMatches entry db
        acceptEntries engine db entries nextIndexes accepted
      else if entry.index ≠ expected then
        .error (.unexpectedLogIndex entry.shardId expected entry.index)
      else do
        engine.validateStorableProperties entry.command
        engine.validateReplicatedVectorIndexes db.store (accepted.map (·.command)) entry.command
        acceptEntries engine db entries
          (update nextIndexes entry.shardId (some (expected + 1))) (accepted ++ [entry])

/-- `append_replicated_entries`. -/
def appendReplicatedEntries [BEq C] (engine : GraphEngine C G) (entries : List (LogEntry C)) :
    Op C G R Unit :=
  if entries.isEmpty then pure ()
  else do
    let accepted ← lookup fun db => acceptEntries engine db entries (fun _ => none) []
    forEach (fun entry => do
      appendToLog entry.shardId entry
      observeLogPosition entry) accepted
    forEach (fun entry => do
      let _ ← lookup (log entry.shardId)
      pure ()) accepted

/-- `truncate_replicated_log_for_append`. -/
def truncateReplicatedLogForAppend [BEq C] (shardId : Nat) :
    List (LogEntry C) → Op C G R Unit
  | [] => pure ()
  | entry :: entries =>
    if entry.shardId ≠ shardId then truncateReplicatedLogForAppend shardId entries
    else do
      let log ← lookup (log shardId)
      match log.entry entry.index with
      | none => truncateReplicatedLogForAppend shardId entries
      | some existing =>
        if existing.partialEq entry then truncateReplicatedLogForAppend shardId entries
        else do
          let committed ← lookup (commitIndex shardId)
          if entry.index ≤ committed then
            fail (.logConflict shardId entry.index "cannot truncate committed replicated log entry")
          else
            change fun db => { db with
              logs := update db.logs shardId (log.truncateFrom entry.index)
              nextLogIndexes := update db.nextLogIndexes shardId entry.index }

/-! ## The Raft group -/

/-- The previous index that `observe_raft_append_entries` makes up: the one before the
first entry, or the last of the group. -/
def prevLogIndexFor (group : Option (RaftCore C)) (entries : List (LogEntry C)) : Nat :=
  match entries.head? with
  | some entry => entry.index - 1
  | none => (group.map RaftCore.lastLogIndex).getD 0

/-- The previous term that `observe_raft_append_entries` makes up: the one of the server's
own log, or else of the group's snapshot. -/
def prevLogTermFor (shardId : Nat) (group : Option (RaftCore C)) (prevLogIndex : Nat)
    (db : Database C G R) : Except DatabaseError Nat :=
  if prevLogIndex = 0 then .ok 0
  else do
    let log ← log shardId db
    let snapshot := group.bind fun group => group.snapshot.filter fun snapshot =>
      snapshot.lastIncludedIndex = prevLogIndex
    .ok ((((log.entry prevLogIndex).map (·.term)).or (snapshot.map (·.lastIncludedTerm))).getD 0)

/-- The body of the loop of `observe_raft_append_entries`: the entries of one shard. -/
def observeGroup (shardId : Nat) (entries : List (LogEntry C)) (leaderCommit : Nat) :
    Op C G R AppendEntriesResponse := do
  let db ← current
  match db.raftGroups with
  | none => fail (.missingShardLog shardId)
  | some consensus => do
      let group := consensus.groups[shardId]?
      let prevLogIndex := prevLogIndexFor group entries
      let prevLogTerm ← lookup (prevLogTermFor shardId group prevLogIndex)
      let term := match entries.getLast? with
        | some entry => entry.term
        | none => (group.map RaftCore.currentTerm).getD 0
      let leaderId := (entries.getLast?.map (·.originServerId)).getD 0
      onGroup consensus shardId fun group => group.appendEntries
        { term, leaderId, prevLogIndex, prevLogTerm, entries, leaderCommit }

/-- `record_leader_contact` on the groups of the server. -/
def recordLeaderContact (shardId : Nat) : Op C G R Unit := do
  let db ← current
  match db.raftGroups with
  | none => fail (.missingShardLog shardId)
  | some consensus => ⟨fun db =>
    ((consensus.recordLeaderContact shardId db.instant).1,
      { db with raftGroups := some (consensus.recordLeaderContact shardId db.instant).2 })⟩

/-- The loop of `observe_raft_append_entries` over the shards of the request; the first
refusal ends it. -/
def observeGroups (leaderCommit : Nat) :
    List (Nat × List (LogEntry C)) → AppendEntriesResponse → Op C G R AppendEntriesResponse
  | [], last => pure last
  | (shardId, entries) :: rest, _ => do
      let response ← observeGroup shardId entries leaderCommit
      if response.success then do
        recordLeaderContact shardId
        observeGroups leaderCommit rest response
      else pure response

/-- The response of a server without Raft. -/
def replyWithoutRaft (leaderCommit : Nat) : AppendEntriesResponse :=
  { term := 0, success := true, durable := false, matchIndex := leaderCommit
    conflictIndex := none, conflictTerm := none }

/-- `observe_raft_append_entries`. -/
def observeRaftAppendEntries (heartbeatShardId : Nat) (entries : List (LogEntry C))
    (leaderCommit : Nat) : Op C G R AppendEntriesResponse := do
  let db ← current
  if db.raftGroups.isNone then pure (replyWithoutRaft leaderCommit)
  else
    let entriesByShard := (keysOf LogEntry.shardId entries).map fun shardId =>
      (shardId, entries.filter fun entry => entry.shardId = shardId)
    observeGroups leaderCommit
      (if entriesByShard.isEmpty then [(heartbeatShardId, [])] else entriesByShard)
      (replyWithoutRaft leaderCommit)

/-! ## Committing -/

/-- The loop of `committable_entries_through`: the entries from an index on that follow
each other in the log, at most `count` of them. -/
def entriesFrom (log : SegmentedShardLog C) : Nat → Nat → List (LogEntry C)
  | _, 0 => []
  | next, count + 1 => match log.entry next with
    | none => []
    | some entry => entry :: entriesFrom log (next + 1) count

/-- What `committable_entries_through` finds for one shard. -/
def committableEntries (shardId leaderCommit : Nat) (db : Database C G R) :
    Except DatabaseError (List (LogEntry C)) :=
  if leaderCommit = 0 then .ok []
  else do
    let committed ← commitIndex shardId db
    let next := saturatingAdd committed 1
    if next ≤ leaderCommit then do
      let log ← log shardId db
      .ok (entriesFrom log next (leaderCommit + 1 - next))
    else .ok []

/-- `committable_entries_through`, over the shards with their commit indexes in order. -/
def committableEntriesThrough (db : Database C G R) :
    List (Nat × Nat) → Except DatabaseError (List (LogEntry C))
  | [] => .ok []
  | (shardId, leaderCommit) :: rest => do
      let entries ← committableEntries shardId leaderCommit db
      let others ← committableEntriesThrough db rest
      .ok (entries ++ others)

/-- The order `committable_entries_through` sorts by: the index, then the shard. -/
def beforeInBatch (a b : LogEntry C) : Prop :=
  a.index < b.index ∨ a.index = b.index ∧ a.shardId ≤ b.shardId

instance (a b : LogEntry C) : Decidable (beforeInBatch a b) := inferInstanceAs (Decidable (_ ∨ _))

/-- `commit_and_apply_shards_through`. -/
def commitAndApplyShardsThrough (engine : GraphEngine C G) (replicator : ShardReplicator C R)
    (commitsByShard : List (Nat × Nat)) : Op C G R Unit := do
  let entries ← lookup fun db => committableEntriesThrough db commitsByShard
  let entries := entries.insertionSort beforeInBatch
  if entries.isEmpty then pure ()
  else do
    commitEntries entries
    applyEntriesBatch engine replicator entries

/-- The highest index for each shard, by shard. -/
def highestByShard (entries : List (LogEntry C)) : List (Nat × Nat) :=
  (keysOf LogEntry.shardId entries).map fun shardId =>
    (shardId, ((entries.filter fun entry => entry.shardId = shardId).map (·.index)).foldl max 0)

/-! ## Appends of a leader -/

/-- `apply_raft_append_entries_with_response`. -/
def applyRaftAppendEntriesWithResponse [BEq C] (engine : GraphEngine C G)
    (replicator : ShardReplicator C R) (shardId : Nat) (entries : List (LogEntry C))
    (leaderCommit : Nat) : Op C G R AppendEntriesResponse := do
  lookup fun db => validateRaftAppendEntries shardId db entries
  let response ← observeRaftAppendEntries shardId entries leaderCommit
  if response.success then do
    truncateReplicatedLogForAppend shardId entries
    appendReplicatedEntries engine entries
    commitAndApplyShardsThrough engine replicator [(shardId, leaderCommit)]
    pure { response with durable := true }
  else pure response

end Database

end Neo4r.Db
