/-
  `Db.TcpReplicator`: the replicator of a server that reaches its peers through a channel
  (`TcpShardReplicator` in `neo4r-db/src/replication.rs`, with `replication/channel.rs`).

  What lies outside of the replicator is one state `N`: the network, the peers and the local
  database.  The channel and the reads of the database are operations on it that may fail at
  any time, so that a lost message is one that failed.

  Every send is counted as in flight until an acknowledgement or a failure is recorded for it.
  The two kinds of heartbeats record neither.
-/
import Neo4r.Db.Database
import Neo4r.Foundation.FiniteMap

set_option autoImplicit false

namespace Neo4r.Db

open Foundation Raft Storage Fallible List

/-! ## Channels -/

/-- `ReplicationChannelKind`. -/
inductive ReplicationChannelKind
  | tcp
  | udp
  | rdma
  | custom
  deriving DecidableEq, Repr

/-- `ReplicationEndpoint`, without the capabilities, which a replicator does not look at. -/
structure ReplicationEndpoint where
  kind : ReplicationChannelKind
  address : String
  deriving DecidableEq, Repr

/-- `RaftAppendChannelResponse`. -/
structure RaftAppendChannelResponse where
  append : AppendEntriesResponse
  ackPositions : List (Nat × Nat)

/-- The operations of `ReplicationChannel` that a replicator sends entries with. -/
structure ReplicationChannel (C N : Type) where
  sendReplicationBatch : ReplicationEndpoint → List (LogEntry C) →
    Fallible DatabaseError N (List (Nat × Nat))
  sendRaftAppendBatch : ReplicationEndpoint → Nat → Nat → List (LogEntry C) →
    Fallible DatabaseError N (List (Nat × Nat))
  sendRaftAppendBatchesByShard : ReplicationEndpoint → List (LogEntry C) →
    Fallible DatabaseError N (List (Nat × Nat))
  sendRaftAppendBatchOnce : ReplicationEndpoint → Nat → Nat → List (LogEntry C) →
    Fallible DatabaseError N RaftAppendChannelResponse
  installSnapshot : ReplicationEndpoint → InstallSnapshotRequest →
    Fallible DatabaseError N InstallSnapshotResponse

/-- What the pump reads of the local database. -/
structure PumpSource (C N : Type) where
  committedIndexes : Fallible DatabaseError N (List Nat)
  logEntriesFrom : Nat → Nat → Fallible DatabaseError N (List (LogEntry C))
  installSnapshotRequestForShard : Nat → Fallible DatabaseError N (Option InstallSnapshotRequest)

/-! ## Metrics -/

/-- `ReplicationChannelMetrics`, without the counts of bytes, elections and milliseconds. -/
structure ReplicationChannelMetrics where
  sentBatches : Nat
  ackedBatches : Nat
  failedBatches : Nat
  sentEntries : Nat
  inFlightBatches : Nat
  maxInFlightBatches : Nat
  backpressureRejections : Nat
  appendConflicts : Nat
  snapshotInstalls : Nat
  deriving DecidableEq, Repr

namespace ReplicationChannelMetrics

variable (metrics : ReplicationChannelMetrics)

/-- `record_send`. -/
def recordSend (entries : Nat) : ReplicationChannelMetrics :=
  { metrics with
    sentBatches := metrics.sentBatches + 1
    sentEntries := metrics.sentEntries + entries
    inFlightBatches := metrics.inFlightBatches + 1
    maxInFlightBatches := max metrics.maxInFlightBatches (metrics.inFlightBatches + 1) }

/-- `record_ack`. -/
def recordAck : ReplicationChannelMetrics :=
  { metrics with
    ackedBatches := metrics.ackedBatches + 1
    inFlightBatches := metrics.inFlightBatches - 1 }

/-- `record_failure`. -/
def recordFailure : ReplicationChannelMetrics :=
  { metrics with
    failedBatches := metrics.failedBatches + 1
    inFlightBatches := metrics.inFlightBatches - 1 }

/-- `record_backpressure_rejection`. -/
def recordBackpressureRejection : ReplicationChannelMetrics :=
  { metrics with backpressureRejections := metrics.backpressureRejections + 1 }

/-- `record_append_conflict`. -/
def recordAppendConflict : ReplicationChannelMetrics :=
  { metrics with appendConflicts := metrics.appendConflicts + 1 }

/-- `record_snapshot_install`. -/
def recordSnapshotInstall : ReplicationChannelMetrics :=
  { metrics with snapshotInstalls := metrics.snapshotInstalls + 1 }

end ReplicationChannelMetrics

/-! ## The replicator -/

/-- `ReplicationAckPolicy`. -/
inductive ReplicationAckPolicy
  | all
  | quorum
  | async
  deriving DecidableEq, Repr

namespace ReplicationAckPolicy

/-- `required_acks`. -/
def requiredAcks (policy : ReplicationAckPolicy) (voterCount : Nat) : Nat :=
  match policy with
  | .all => voterCount
  | .quorum => voterCount / 2 + 1
  | .async => 1

/-- The name of a policy in an error. -/
def name : ReplicationAckPolicy → String
  | .all => "All"
  | .quorum => "Quorum"
  | .async => "Async"

end ReplicationAckPolicy

/-- `RaftPeerProgress`. -/
structure RaftPeerProgress where
  nextIndex : Nat
  matchIndex : Nat
  deriving DecidableEq, Repr

/-- `clamp_to_commit`. -/
def RaftPeerProgress.clampToCommit (progress : RaftPeerProgress) (leaderCommit : Nat) :
    RaftPeerProgress where
  nextIndex := max 1 (min progress.nextIndex (saturatingAdd leaderCommit 1))
  matchIndex := min progress.matchIndex leaderCommit

/-- `TcpShardReplicator` and what lies outside of it.  The capacity is at least one, by
default and in `with_max_in_flight_batches`. -/
structure TcpReplicator (N : Type) where
  routingTable : ShardRoutingTable
  ackPolicy : ReplicationAckPolicy
  capacity : Nat
  raftTransport : Bool
  peers : FiniteMap Nat ReplicationEndpoint
  raftPeerProgress : Nat → Nat → Option RaftPeerProgress
  metrics : ReplicationChannelMetrics
  network : N
  capacity_pos : 0 < capacity

/-- `ReplicationOutcome::ack`. -/
def ReplicationOutcome.ack (outcome : ReplicationOutcome) (serverId shardId index : Nat) :
    ReplicationOutcome where
  ackedServerIds :=
    if serverId ∈ outcome.ackedServerIds then outcome.ackedServerIds
    else outcome.ackedServerIds ++ [serverId]
  ackedMatchIndexes := outcome.ackedMatchIndexes ++ [(serverId, shardId, index)]

/-- The placement of an entry's shard. -/
def placementOf {C : Type} (table : ShardRoutingTable) (entry : LogEntry C) :
    Except DatabaseError ShardPlacement :=
  match table.placement entry.shardId with
  | some placement => .ok placement
  | none =>
    let shardId := entry.shardId
    .error (.replication s!"missing routing placement for shard {shardId}")

/-- `replica_targets`. -/
def replicaTargets {C : Type} (table : ShardRoutingTable) (entry : LogEntry C) :
    Except DatabaseError (List Nat) := do
  let placement ← placementOf table entry
  pure ((placement.replicas.filter fun replica =>
    replica.role = .replica && replica.serverId ≠ entry.originServerId).map (·.serverId))

/-- `voter_count`. -/
def voterCount {C : Type} (table : ShardRoutingTable) (entry : LogEntry C) :
    Except DatabaseError Nat := do
  let placement ← placementOf table entry
  pure placement.replicas.length

namespace TcpReplicator

variable {C N : Type}

/-- An operation of a replicator. -/
abbrev Op (N α : Type) : Type := Fallible DatabaseError (TcpReplicator N) α

/-- An operation outside of the replicator. -/
def onNetwork {α : Type} (x : Fallible DatabaseError N α) : Op N α :=
  zoom network (fun replicator network => { replicator with network }) x

/-- Records something in the metrics. -/
def record (change : ReplicationChannelMetrics → ReplicationChannelMetrics) : Op N Unit :=
  Fallible.change fun replicator => { replicator with metrics := change replicator.metrics }

/-- `record_channel_send`. -/
def recordChannelSend (entries : List (LogEntry C)) : Op N Unit :=
  record fun metrics => metrics.recordSend entries.length

variable (replicator : TcpReplicator N)

/-- The peers in the order of their ids. -/
def peersInOrder : List (Nat × ReplicationEndpoint) :=
  (sortedIds replicator.peers.keys).filterMap fun serverId =>
    (replicator.peers.get serverId).map fun endpoint => (serverId, endpoint)

/-- `ensure_replication_capacity`. -/
def ensureReplicationCapacity : Op N Unit := do
  let replicator ← current
  if replicator.capacity ≤ replicator.metrics.inFlightBatches then do
    record .recordBackpressureRejection
    let inFlight := replicator.metrics.inFlightBatches
    let capacity := replicator.capacity
    fail (.replication
      s!"replication backpressure: in_flight_batches={inFlight} max_in_flight_batches={capacity}")
  else pure ()

/-! ### Heartbeats -/

variable (channel : ReplicationChannel C N)

/-- A heartbeat, whose answer is not looked at. -/
def sendHeartbeat (endpoint : ReplicationEndpoint)
    (shardId leaderCommit : Nat) : Op N Unit := do
  recordChannelSend ([] : List (LogEntry C))
  let _ ← (onNetwork (channel.sendRaftAppendBatch endpoint shardId leaderCommit [])).attempt
  pure ()

/-- `send_raft_heartbeats`. -/
def sendRaftHeartbeats (committedIndexes : List Nat) : Op N Unit := do
  let replicator ← current
  if replicator.raftTransport then do
    ensureReplicationCapacity
    forEach (fun peer : Nat × ReplicationEndpoint =>
      forEach (fun shard : Nat × Nat => sendHeartbeat channel peer.2 shard.2 shard.1)
        committedIndexes.zipIdx) replicator.peersInOrder
  else pure ()

variable (entries : List (LogEntry C))

/-- The highest index that each server has acknowledged of each shard, by server and shard,
without what the origins of the entries have acknowledged. -/
def commitsByPeer (outcomes : List ReplicationOutcome) :
    List ((Nat × Nat) × Nat) :=
  let acks := (entries.zip outcomes).flatMap fun (entry, outcome) =>
    (outcome.ackedServerIds.filter fun serverId => serverId ≠ entry.originServerId).map
      fun serverId => (serverId, entry.shardId, entry.index)
  (keysOf (fun ack : Nat × Nat × Nat => ack.1) acks).flatMap fun serverId =>
    let ofServer := acks.filter fun ack => ack.1 = serverId
    (keysOf (fun ack : Nat × Nat × Nat => ack.2.1) ofServer).map fun shardId =>
      ((serverId, shardId),
        ((ofServer.filter fun ack => ack.2.1 = shardId).map fun ack => ack.2.2).foldl max 0)

/-- `publish_raft_commit_heartbeats`. -/
def publishRaftCommitHeartbeats
    (outcomes : List ReplicationOutcome) : Op N Unit :=
  forEach (fun commit : (Nat × Nat) × Nat => do
    let replicator ← current
    match replicator.peers.get commit.1.1 with
    | none => pure ()
    | some endpoint => sendHeartbeat channel endpoint commit.1.2 commit.2)
    (commitsByPeer entries outcomes)

/-! ### Publishing -/

/-- How many acknowledgements an entry needs, and the servers it goes to. -/
def planEntry (entry : LogEntry C) : Except DatabaseError (Nat × List Nat) := do
  let voters ← voterCount replicator.routingTable entry
  let targets ← replicaTargets replicator.routingTable entry
  pure (replicator.ackPolicy.requiredAcks voters, targets)

/-- What goes to which server: the target, the position of the entry, and the entry. -/
def deliveries (plan : List (Nat × List Nat)) :
    List (Nat × Nat × LogEntry C) :=
  ((entries.zip plan).zipIdx).flatMap fun planned =>
    planned.1.2.2.map fun target => (target, planned.2, planned.1.1)

/-- The deliveries to each server, by server. -/
def batches (plan : List (Nat × List Nat)) :
    List (Nat × List (Nat × LogEntry C)) :=
  (keysOf (fun delivery : Nat × Nat × LogEntry C => delivery.1) (deliveries entries plan)).map
    fun target => (target,
      ((deliveries entries plan).filter fun delivery => delivery.1 = target).map (·.2))

/-- `preflight_tcp_ack_capacity`. -/
def preflightTcpAckCapacity (plan : List (Nat × List Nat))
    (replicator : TcpReplicator N) : Except DatabaseError Unit :=
  let missing := ((batches entries plan).map (·.1)).filter fun target =>
    (replicator.peers.get target).isNone
  plan.zipIdx.forM fun planned =>
    let position := planned.2
    let required := planned.1.1
    let possible := 1 + ((deliveries entries plan).filter fun delivery =>
      delivery.2.1 = position && (replicator.peers.get delivery.1).isSome).length
    if possible < required then
      .error (.replication (s!"replication ack policy cannot be satisfied for entry {position}: " ++
        s!"possible {possible}, required {required}; missing replication peers: {missing}"))
    else .ok ()

/-- What is known of each entry while a batch is published. -/
structure Progress where
  outcomes : List ReplicationOutcome
  errors : List (List String)

/-- An error at a position. -/
def Progress.fail (progress : Progress) (position : Nat) (message : String) : Progress :=
  { progress with errors := progress.errors.modify position (· ++ [message]) }

/-- An acknowledgement at a position. -/
def Progress.ack (progress : Progress) (target position : Nat) (entry : LogEntry C) : Progress :=
  { progress with
    outcomes := progress.outcomes.modify position (·.ack target entry.shardId entry.index) }

/-- What an answer to a batch says of each of its entries. -/
def Progress.answered (target : Nat) (positions : List (Nat × Nat)) (progress : Progress)
    (delivery : Nat × LogEntry C) : Progress :=
  if (delivery.2.shardId, delivery.2.index) ∈ positions then
    progress.ack target delivery.1 delivery.2
  else
    let shardId := delivery.2.shardId
    let index := delivery.2.index
    progress.fail delivery.1
      s!"replication peer {target} ack did not include shard {shardId} index {index}"

/-- The entries of a batch go to a server. -/
def sendBatch (progress : Progress)
    (batch : Nat × List (Nat × LogEntry C)) : Op N Progress := do
  let replicator ← current
  match replicator.peers.get batch.1 with
  | none =>
    let target := batch.1
    pure (batch.2.foldl (fun progress delivery =>
      let shardId := delivery.2.shardId
      progress.fail delivery.1 s!"missing replication peer {target} for shard {shardId}") progress)
  | some endpoint => do
      let entries := batch.2.map (·.2)
      recordChannelSend entries
      let answer ← (onNetwork (if replicator.raftTransport then
        channel.sendRaftAppendBatchesByShard endpoint entries
        else channel.sendReplicationBatch endpoint entries)).attempt
      match answer with
      | .ok positions => do
          record .recordAck
          pure (batch.2.foldl (Progress.answered batch.1 positions) progress)
      | .error err => do
          record .recordFailure
          pure (batch.2.foldl (fun progress delivery => progress.fail delivery.1 err.text) progress)

/-- The batches go to their servers in turn. -/
def sendBatches (channel : ReplicationChannel C N) :
    List (Nat × List (Nat × LogEntry C)) → Progress → Op N Progress
  | [], progress => pure progress
  | batch :: rest, progress => do
      let progress ← sendBatch channel progress batch
      sendBatches channel rest progress

/-- The acknowledgement policy at the end of `publish_batch`. -/
def checkAcks (policy : ReplicationAckPolicy) (entries : List (LogEntry C))
    (plan : List (Nat × List Nat)) (progress : Progress) : Except DatabaseError Unit :=
  ((entries.zip plan).zip (progress.outcomes.zip progress.errors)).forM fun item =>
    let acked := item.2.1.ackedServerIds.length
    let required := item.1.2.1
    if acked < required then
      let name := policy.name
      let shardId := item.1.1.shardId
      let errors := String.intercalate "; " item.2.2
      .error (.replication (s!"replication ack policy {name} not satisfied for shard {shardId}: " ++
        s!"got {acked}, required {required}; errors: {errors}"))
    else .ok ()

/-- `publish_batch`. -/
def publishBatch : Op N (List ReplicationOutcome) := do
  let replicator ← current
  let plan ← lookup fun _ => entries.mapM replicator.planEntry
  lookup (preflightTcpAckCapacity entries plan)
  let progress ← sendBatches channel (batches entries plan)
    ⟨entries.map fun entry => .local entry.originServerId, entries.map fun _ => []⟩
  lookup fun _ => checkAcks replicator.ackPolicy entries plan progress
  if replicator.raftTransport then publishRaftCommitHeartbeats channel entries progress.outcomes
  else pure ()
  pure progress.outcomes

/-- `publish`. -/
def publish (entry : LogEntry C) : Op N ReplicationOutcome := do
  let outcomes ← publishBatch channel [entry]
  match outcomes.getLast? with
  | some outcome => pure outcome
  | none => fail (.replication "empty replication batch")

/-! ### The pump -/

/-- `raft_progress`. -/
def raftProgress (serverId shardId leaderCommit : Nat) (replicator : TcpReplicator N) :
    RaftPeerProgress :=
  ((replicator.raftPeerProgress serverId shardId).getD ⟨1, 0⟩).clampToCommit leaderCommit

/-- `set_raft_progress`. -/
def setRaftProgress (serverId shardId : Nat) (progress : RaftPeerProgress) : Op N Unit :=
  change fun replicator => { replicator with
    raftPeerProgress := Function.update replicator.raftPeerProgress serverId
      (Function.update (replicator.raftPeerProgress serverId) shardId (some progress)) }

/-- `rewind_raft_progress`. -/
def rewindRaftProgress (serverId shardId : Nat) (response : AppendEntriesResponse) : Op N Unit :=
  let nextIndex := max (response.conflictIndex.getD (saturatingAdd response.matchIndex 1)) 1
  setRaftProgress serverId shardId ⟨nextIndex, min response.matchIndex (nextIndex - 1)⟩

/-- The highest position that a response acknowledges for a shard. -/
def ackedIndex (shardId : Nat) (response : RaftAppendChannelResponse) : Nat :=
  (((response.ackPositions.filter fun position => position.1 = shardId).map (·.2)).max?).getD
    response.append.matchIndex

/-- The answer to a follower that has rejected an append: the snapshot, if it needs one. -/
def offerSnapshot (source : PumpSource C N)
    (endpoint : ReplicationEndpoint) (serverId shardId : Nat) (response : AppendEntriesResponse) :
    Op N Bool := do
  let snapshot ← onNetwork (source.installSnapshotRequestForShard shardId)
  match snapshot with
  | none => pure false
  | some snapshot =>
    if response.conflictIndex.any fun index => index ≤ snapshot.metadata.lastIncludedIndex then do
      let installed ← onNetwork (channel.installSnapshot endpoint snapshot)
      record .recordSnapshotInstall
      if installed.success then do
        record .recordAck
        setRaftProgress serverId shardId
          ⟨saturatingAdd installed.lastIncludedIndex 1, installed.lastIncludedIndex⟩
        pure true
      else pure false
    else pure false

/-- The attempts to bring a peer up to date, and how many batches it has taken. -/
def pumpAttempts (channel : ReplicationChannel C N) (source : PumpSource C N)
    (endpoint : ReplicationEndpoint) (serverId shardId leaderCommit : Nat) : Nat → Op N Nat
  | 0 => pure 0
  | attempts + 1 => do
      let replicator ← current
      let progress := replicator.raftProgress serverId shardId leaderCommit
      let entries ← onNetwork (source.logEntriesFrom shardId progress.nextIndex)
      let entries := entries.filter fun entry => entry.index ≤ leaderCommit
      recordChannelSend entries
      let answer ← (onNetwork
        (channel.sendRaftAppendBatchOnce endpoint shardId leaderCommit entries)).attempt
      match answer with
      | .ok response =>
        if response.append.success && response.append.durable then do
          record .recordAck
          setRaftProgress serverId shardId
            ⟨saturatingAdd (ackedIndex shardId response) 1, ackedIndex shardId response⟩
          pure 1
        else if response.append.success then do
          record .recordFailure
          pumpAttempts channel source endpoint serverId shardId leaderCommit attempts
        else do
          record .recordFailure
          record .recordAppendConflict
          let installed ← offerSnapshot channel source endpoint serverId shardId response.append
          if installed then pure 1
          else do
            rewindRaftProgress serverId shardId response.append
            pumpAttempts channel source endpoint serverId shardId leaderCommit attempts
      | .error _ => do
          record .recordFailure
          if 1 < progress.nextIndex then do
            setRaftProgress serverId shardId
              ⟨progress.nextIndex - 1, min progress.matchIndex (progress.nextIndex - 2)⟩
            pumpAttempts channel source endpoint serverId shardId leaderCommit attempts
          else pure 0

/-- The pump for the peers and shards of a list, in turn. -/
def pumpAll (channel : ReplicationChannel C N) (source : PumpSource C N) :
    List ((Nat × ReplicationEndpoint) × Nat × Nat) → Op N Nat
  | [] => pure 0
  | target :: rest => do
      let here ← pumpAttempts channel source target.1.2 target.1.1 target.2.2 target.2.1 3
      let there ← pumpAll channel source rest
      pure (here + there)

/-- `run_raft_replication_pump`. -/
def runRaftReplicationPump (source : PumpSource C N) : Op N Nat := do
  let replicator ← current
  if replicator.raftTransport then do
    ensureReplicationCapacity
    let committedIndexes ← onNetwork source.committedIndexes
    let sent ← pumpAll channel source
      (replicator.peersInOrder.flatMap fun peer =>
        committedIndexes.zipIdx.map fun shard => (peer, shard))
    sendRaftHeartbeats channel committedIndexes
    pure sent
  else pure 0

/-! ## Batches in flight -/

/-- Nothing is in flight. -/
def Idle : Prop := replicator.metrics.inFlightBatches = 0

/-- One batch is in flight. -/
def Busy : Prop := replicator.metrics.inFlightBatches = 1

variable {channel : ReplicationChannel C N} {source : PumpSource C N} {α : Type}
  (x : Fallible DatabaseError N α)

theorem onNetwork_metrics : Preserves metrics (onNetwork x) := fun _ => rfl

/-- Whatever the answer to a batch is, the batch is in flight when it comes. -/
theorem onNetwork_attempt_busy :
    Triple Busy (onNetwork x).attempt (fun _ => Busy) (Idle : TcpReplicator N → Prop) := by
  have hbusy := (onNetwork_metrics x).triple fun metrics => metrics.inFlightBatches = 1
  refine hbusy.attempt.mono (fun _ hs => hs) ?_ fun _ hs => hs
  rintro result s (⟨_, -, hs⟩ | ⟨-, hs⟩) <;> exact hs

theorem recordChannelSend_busy (entries : List (LogEntry C)) :
    Triple Idle (recordChannelSend entries : Op N Unit) (fun _ => Busy) Idle :=
  triple_change fun _ hs => congrArg (· + 1) hs

/-- An acknowledgement or a failure takes the batch off. -/
theorem recordAck_idle : Triple Busy (record .recordAck : Op N Unit) (fun _ => Idle) Idle :=
  triple_change fun _ hs => congrArg (· - 1) hs

theorem recordFailure_idle : Triple Busy (record .recordFailure : Op N Unit) (fun _ => Idle) Idle :=
  triple_change fun _ hs => congrArg (· - 1) hs

theorem ensureReplicationCapacity_ok {replicator : TcpReplicator N} (h : replicator.Idle) :
    ensureReplicationCapacity.run replicator = (.ok (), replicator) := by
  have hroom : ¬replicator.capacity ≤ replicator.metrics.inFlightBatches := by
    rw [h]
    exact Nat.not_le.mpr replicator.capacity_pos
  rw [ensureReplicationCapacity, run_bind_of_ok (run_current _), if_neg hroom]
  rfl

theorem ensureReplicationCapacity_idle :
    Triple Idle (ensureReplicationCapacity : Op N Unit) (fun _ => Idle) Idle where
  ok hs hrun := by
    rw [ensureReplicationCapacity_ok hs] at hrun
    cases hrun
    exact hs
  error hs hrun := by
    rw [ensureReplicationCapacity_ok hs] at hrun
    cases hrun

/-- **A batch of a publish** is settled by its answer. -/
theorem sendBatch_idle (progress : Progress) (batch : Nat × List (Nat × LogEntry C)) :
    Triple Idle (sendBatch channel progress batch) (fun _ => Idle) Idle := by
  refine (triple_current (Q := fun _ => Idle) fun _ hs => hs).bind fun replicator => ?_
  cases replicator.peers.get batch.1 with
  | none => exact triple_pure fun _ hs => hs
  | some =>
    refine (recordChannelSend_busy _).bind fun _ => (onNetwork_attempt_busy _).bind fun answer => ?_
    cases answer with
    | ok => exact recordAck_idle.bind fun _ => triple_pure fun _ hs => hs
    | error => exact recordFailure_idle.bind fun _ => triple_pure fun _ hs => hs

theorem sendBatches_idle (rest : List (Nat × List (Nat × LogEntry C))) (progress : Progress) :
    Triple Idle (sendBatches channel rest progress) (fun _ => Idle) Idle := by
  induction rest generalizing progress with
  | nil => exact triple_pure fun _ hs => hs
  | cons batch rest ih => exact (sendBatch_idle progress batch).bind fun progress => ih progress

theorem setRaftProgress_idle (serverId shardId : Nat) (progress : RaftPeerProgress) :
    Triple Idle (setRaftProgress serverId shardId progress : Op N Unit) (fun _ => Idle) Idle :=
  triple_change fun _ hs => hs

theorem onNetwork_idle : Triple Idle (onNetwork x) (fun _ => Idle) Idle :=
  (onNetwork_metrics x).triple fun metrics => metrics.inFlightBatches = 0

/-- The acknowledgement of a snapshot takes off a batch that is not there. -/
theorem offerSnapshot_idle (endpoint : ReplicationEndpoint) (serverId shardId : Nat)
    (response : AppendEntriesResponse) :
    Triple Idle (offerSnapshot channel source endpoint serverId shardId response)
      (fun _ => Idle) Idle := by
  refine (onNetwork_idle _).bind fun snapshot => ?_
  cases snapshot with
  | none => exact triple_pure fun _ hs => hs
  | some snapshot =>
    dsimp only
    split
    · refine (onNetwork_idle _).bind fun installed => ?_
      refine Triple.bind (Q := fun _ => Idle) (triple_change fun _ hs => hs) fun _ => ?_
      split
      · refine Triple.bind (Q := fun _ => Idle) ?_ fun _ => ?_
        · exact triple_change fun _ hs => congrArg (· - 1) hs
        · exact (setRaftProgress_idle _ _ _).bind fun _ => triple_pure fun _ hs => hs
      · exact triple_pure fun _ hs => hs
    · exact triple_pure fun _ hs => hs

/-- **Every batch of the pump** is settled by its answer, before the next attempt. -/
theorem pumpAttempts_idle (endpoint : ReplicationEndpoint) (serverId shardId leaderCommit : Nat)
    (attempts : Nat) :
    Triple Idle (pumpAttempts channel source endpoint serverId shardId leaderCommit attempts)
      (fun _ => Idle) Idle := by
  induction attempts with
  | zero => exact triple_pure fun _ hs => hs
  | succ attempts ih =>
    refine (triple_current (Q := fun _ => Idle) fun _ hs => hs).bind fun replicator => ?_
    refine (onNetwork_idle _).bind fun entries => (recordChannelSend_busy _).bind fun _ => ?_
    refine (onNetwork_attempt_busy _).bind fun answer => ?_
    cases answer with
    | error =>
      refine recordFailure_idle.bind fun _ => ?_
      split
      · exact (setRaftProgress_idle _ _ _).bind fun _ => ih
      · exact triple_pure fun _ hs => hs
    | ok response =>
      dsimp only
      split
      · refine recordAck_idle.bind fun _ => ?_
        exact (setRaftProgress_idle _ _ _).bind fun _ => triple_pure fun _ hs => hs
      split
      · exact recordFailure_idle.bind fun _ => ih
      · refine recordFailure_idle.bind fun _ => ?_
        refine Triple.bind (Q := fun _ => Idle) (triple_change fun _ hs => hs) fun _ => ?_
        refine (offerSnapshot_idle _ _ _ _).bind fun installed => ?_
        split
        · exact triple_pure fun _ hs => hs
        · exact (setRaftProgress_idle _ _ _).bind fun _ => ih

theorem pumpAll_idle (targets : List ((Nat × ReplicationEndpoint) × Nat × Nat)) :
    Triple Idle (pumpAll channel source targets) (fun _ => Idle) Idle := by
  induction targets with
  | nil => exact triple_pure fun _ hs => hs
  | cons target rest ih =>
    exact (pumpAttempts_idle _ _ _ _ _).bind fun _ => ih.bind fun _ => triple_pure fun _ hs => hs

/-! ## Runs -/

/-- The calls of a replicator, and what happens outside of it. -/
inductive Event (C N : Type) where
  | publish (entry : LogEntry C)
  | publishBatch (entries : List (LogEntry C))
  | heartbeats (committedIndexes : List Nat)
  | pump
  | registerPeer (serverId : Nat) (endpoint : ReplicationEndpoint)
  | unregisterPeer (serverId : Nat)
  | installRoutingTable (table : ShardRoutingTable)
  | outside (network : N)

/-- What an event does. -/
def next (channel : ReplicationChannel C N) (source : PumpSource C N) (s : TcpReplicator N) :
    Event C N → TcpReplicator N
  | .publish entry => ((publish channel entry).run s).2
  | .publishBatch entries => ((publishBatch channel entries).run s).2
  | .heartbeats committedIndexes => ((sendRaftHeartbeats channel committedIndexes).run s).2
  | .pump => ((runRaftReplicationPump channel source).run s).2
  | .registerPeer serverId endpoint => { s with peers := s.peers.insert serverId endpoint }
  | .unregisterPeer serverId => { s with peers := s.peers.erase serverId }
  | .installRoutingTable table => { s with routingTable := table }
  | .outside network => { s with network }

/-- A replicator starts with empty metrics, and every call may come at any time. -/
def machine (channel : ReplicationChannel C N) (source : PumpSource C N) :
    Machine (TcpReplicator N) (Event C N) where
  init s := s.metrics = ⟨0, 0, 0, 0, 0, 0, 0, 0, 0⟩
  enabled _ _ := True
  next := next channel source

/-- None of the servers that the entries go to is a peer. -/
def NoPeerGets (s : TcpReplicator N) (entries : List (LogEntry C)) : Prop :=
  ∀ entry ∈ entries, ∀ targets, replicaTargets s.routingTable entry = .ok targets →
    ∀ target ∈ targets, s.peers.get target = none

/-- What a round of the pump does before its heartbeats. -/
def pumpPeers (channel : ReplicationChannel C N) (source : PumpSource C N)
    (peers : List (Nat × ReplicationEndpoint)) : Op N (List Nat × Nat) := do
  ensureReplicationCapacity
  let committedIndexes ← onNetwork source.committedIndexes
  let sent ← pumpAll channel source
    (peers.flatMap fun peer => committedIndexes.zipIdx.map fun shard => (peer, shard))
  pure (committedIndexes, sent)

/-- The call sends no heartbeat: it does not use the Raft transport, or there is nobody to send
one to, or the round of the pump fails before its heartbeats. -/
def SendsNoHeartbeat (channel : ReplicationChannel C N) (source : PumpSource C N)
    (s : TcpReplicator N) : Event C N → Prop
  | .publish entry => s.raftTransport = false ∨ s.NoPeerGets [entry]
  | .publishBatch entries => s.raftTransport = false ∨ s.NoPeerGets entries
  | .heartbeats committedIndexes =>
    s.raftTransport = false ∨ s.peers.keys = [] ∨ committedIndexes = []
  | .pump => s.raftTransport = false ∨ s.peers.keys = [] ∨ ∀ committedIndexes sent,
    ((pumpPeers channel source s.peersInOrder).run s).1 = .ok (committedIndexes, sent) →
      committedIndexes = []
  | _ => True

variable {s : TcpReplicator N}

theorem peersInOrder_of_keys (h : s.peers.keys = []) : s.peersInOrder = [] := by
  rw [peersInOrder, h]
  rfl

theorem sendRaftHeartbeats_idle (committedIndexes : List Nat) :
    Triple (fun s => s.Idle ∧
        (s.raftTransport = false ∨ s.peers.keys = [] ∨ committedIndexes = []))
      (sendRaftHeartbeats channel committedIndexes) (fun _ => Idle) Idle := by
  refine triple_current_bind fun s hs => ?_
  obtain ⟨hidle, hnone⟩ := hs
  split
  · next htransport =>
    refine (ensureReplicationCapacity_idle.mono ?_
      (fun _ _ ht => ht) fun _ ht => ht).bind fun _ => ?_
    · rintro t rfl
      exact hidle
    · refine triple_forEach fun peer hpeer => triple_forEach fun shard hshard => ?_
      rcases hnone with hoff | hpeers | hshards
      · exact absurd (hoff.symm.trans htransport) Bool.false_ne_true
      · rw [peersInOrder_of_keys hpeers] at hpeer
        exact absurd hpeer not_mem_nil
      · rw [hshards] at hshard
        exact absurd hshard not_mem_nil
  · refine triple_pure ?_
    rintro t rfl
    exact hidle

theorem pumpPeers_idle (peers : List (Nat × ReplicationEndpoint)) :
    Triple Idle (pumpPeers channel source peers) (fun _ => Idle) Idle :=
  ensureReplicationCapacity_idle.bind fun _ => (onNetwork_idle _).bind fun _ =>
    (pumpAll_idle _).bind fun _ => triple_pure fun _ hs => hs

theorem runRaftReplicationPump_eq : runRaftReplicationPump channel source = (do
    let replicator ← current
    if replicator.raftTransport then do
      let round ← pumpPeers channel source replicator.peersInOrder
      sendRaftHeartbeats channel round.1
      pure round.2
    else pure 0) := by
  simp only [runRaftReplicationPump, pumpPeers, bind_assoc, pure_bind]

/-- **A round of the pump** leaves nothing in flight but its heartbeats. -/
theorem runRaftReplicationPump_idle :
    Triple (fun s => s.Idle ∧ SendsNoHeartbeat channel source s .pump)
      (runRaftReplicationPump channel source) (fun _ => Idle) Idle := by
  rw [runRaftReplicationPump_eq]
  refine triple_current_bind fun s hs => ?_
  obtain ⟨hidle, hnone⟩ := hs
  split
  · next htransport =>
    have hpeers := hnone.resolve_left fun hoff => Bool.false_ne_true (hoff.symm.trans htransport)
    have hround := @pumpPeers_idle C N channel source s.peersInOrder
    refine Triple.bind (Q := fun round t => t.Idle ∧
      (t.raftTransport = false ∨ t.peers.keys = [] ∨ round.1 = [])) ⟨?_, ?_⟩ fun round => ?_
    · rintro s round t rfl hrun
      refine ⟨hround.ok hidle hrun, .inr ?_⟩
      rcases hpeers with hnobody | hfails
      · rw [peersInOrder_of_keys hnobody, pumpPeers,
          run_bind_of_ok (ensureReplicationCapacity_ok hidle)] at hrun
        obtain ⟨committedIndexes, u, hread, hrest⟩ := of_bind_ok hrun
        have hkept : u.peers = s.peers := Preserves.of_run (fun _ => rfl) hread
        cases hrest
        exact .inl (hkept ▸ hnobody)
      · exact .inr (hfails round.1 round.2 (congrArg Prod.fst hrun))
    · rintro _ err t rfl hrun
      exact hround.error hidle hrun
    · exact (sendRaftHeartbeats_idle round.1).bind fun _ => triple_pure fun _ ht => ht
  · refine triple_pure ?_
    rintro t rfl
    exact hidle

/-- Without a peer among the targets nobody acknowledges. -/
theorem sendBatches_noPeer {rest : List (Nat × List (Nat × LogEntry C))}
    (h : ∀ batch ∈ rest, s.peers.get batch.1 = none) (progress : Progress) :
    ∃ errors, (sendBatches channel rest progress).run s = (.ok ⟨progress.outcomes, errors⟩, s) := by
  induction rest generalizing progress with
  | nil => exact ⟨progress.errors, rfl⟩
  | cons batch rest ih =>
    obtain ⟨hbatch, hrest⟩ := forall_mem_cons.mp h
    have hkept : ∀ (msg : Nat × LogEntry C → String) (deliveries : List (Nat × LogEntry C))
        (progress : Progress), (deliveries.foldl (fun progress delivery =>
          progress.fail delivery.1 (msg delivery)) progress).outcomes = progress.outcomes := by
      intro msg deliveries
      induction deliveries with
      | nil => exact fun _ => rfl
      | cons delivery deliveries ih => exact fun progress => ih _
    have hsend : ∃ progress', progress'.outcomes = progress.outcomes ∧
        (sendBatch channel progress batch).run s = (.ok progress', s) := by
      rw [sendBatch, run_bind_of_ok (run_current s), hbatch]
      exact ⟨_, hkept _ batch.2 progress, rfl⟩
    obtain ⟨progress', houtcomes, hrun⟩ := hsend
    rw [sendBatches, run_bind_of_ok hrun, ← houtcomes]
    exact ih hrest progress'

variable (entries : List (LogEntry C)) {plan : List (Nat × List Nat)}

/-- The origins of the entries get no heartbeat. -/
theorem commitsByPeer_local :
    commitsByPeer entries (entries.map fun entry => .local entry.originServerId) = [] := by
  have hacks : ((entries.zip (entries.map fun entry => ReplicationOutcome.local
      entry.originServerId)).flatMap fun acked =>
        (acked.2.ackedServerIds.filter fun server => server ≠ acked.1.originServerId).map
          fun server => (server, acked.1.shardId, acked.1.index)) = [] := by
    rw [flatMap_eq_nil_iff]
    intro acked hmem
    have hzip := @zip_map' _ _ _ id (fun entry : LogEntry C =>
      ReplicationOutcome.local entry.originServerId) entries
    rw [map_id] at hzip
    rw [hzip, mem_map] at hmem
    obtain ⟨entry, -, rfl⟩ := hmem
    simp [ReplicationOutcome.local]
  rw [commitsByPeer]
  simp only [hacks]
  rfl

theorem mem_batches {entries : List (LogEntry C)} {batch : Nat × List (Nat × LogEntry C)}
    (h : batch ∈ batches entries plan) : ∃ planned ∈ entries.zip plan, batch.1 ∈ planned.2.2 := by
  obtain ⟨target, htarget, rfl⟩ := mem_map.mp h
  obtain ⟨delivery, hdelivery, rfl⟩ := mem_keysOf.mp htarget
  obtain ⟨planned, hplanned, hmem⟩ := mem_flatMap.mp hdelivery
  obtain ⟨target, hin, rfl⟩ := mem_map.mp hmem
  exact ⟨planned.1, fst_mem_of_mem_zipIdx hplanned, hin⟩

/-- The targets in a plan are those of the entries. -/
theorem targets_of_plan {entries : List (LogEntry C)} (h : entries.mapM s.planEntry = .ok plan) :
    ∀ planned ∈ entries.zip plan, replicaTargets s.routingTable planned.1 = .ok planned.2.2 := by
  induction entries generalizing plan with
  | nil => exact fun planned hmem => absurd hmem not_mem_nil
  | cons entry entries ih =>
    rw [mapM_cons] at h
    obtain ⟨first, hfirst, hrest⟩ := of_exceptBind_ok h
    obtain ⟨rest, hmap, hpure⟩ := of_exceptBind_ok hrest
    cases hpure
    rw [zip_cons_cons, forall_mem_cons]
    refine ⟨?_, ih hmap⟩
    obtain ⟨voters, -, htargets⟩ := of_exceptBind_ok hfirst
    obtain ⟨targets, hok, hpair⟩ := of_exceptBind_ok htargets
    cases hpair
    exact hok

theorem publishBatch_idle :
    Triple (fun s => s.Idle ∧ (s.raftTransport = false ∨ s.NoPeerGets entries))
      (publishBatch channel entries) (fun _ => Idle) Idle := by
  refine triple_current_bind fun s hs => ?_
  obtain ⟨hidle, hnone⟩ := hs
  have hhere : ∀ t, t = s → t.Idle := by
    rintro t rfl
    exact hidle
  refine (triple_lookup (Q := fun plan t => t = s ∧ entries.mapM s.planEntry = .ok plan)
    (fun t plan ht hplan => ⟨ht, hplan⟩) hhere).bind fun plan => ?_
  refine (triple_lookup (Q := fun _ t => t = s ∧ entries.mapM s.planEntry = .ok plan)
    (fun t _ ht _ => ht) fun t ht => hhere t ht.1).bind fun _ => ?_
  have hbatches : s.NoPeerGets entries → entries.mapM s.planEntry = .ok plan →
      ∀ batch ∈ batches entries plan, s.peers.get batch.1 = none := by
    intro hnobody hplan batch hbatch
    obtain ⟨planned, hplanned, htarget⟩ := mem_batches hbatch
    exact hnobody planned.1 (of_mem_zip hplanned).1 _
      (targets_of_plan hplan planned hplanned) _
      htarget
  rcases hnone with hoff | hnobody
  · refine ((sendBatches_idle _ _).mono (fun t ht => hhere t ht.1) (fun _ _ ht => ht)
      fun _ ht => ht).bind fun progress => ?_
    refine (triple_lookup (fun _ _ ht _ => ht) fun _ ht => ht).bind fun _ => ?_
    rw [hoff]
    exact triple_pure fun _ ht => ht
  · refine Triple.bind (Q := fun progress t => t = s ∧ progress.outcomes =
      entries.map fun entry => .local entry.originServerId) ⟨?_, ?_⟩ fun progress => ?_
    · rintro _ progress t ⟨rfl, hplan⟩ hrun
      obtain ⟨errors, hsent⟩ := sendBatches_noPeer (hbatches hnobody hplan) _
      cases hsent.symm.trans hrun
      exact ⟨rfl, rfl⟩
    · rintro _ err t ⟨rfl, hplan⟩ hrun
      obtain ⟨errors, hsent⟩ := sendBatches_noPeer (hbatches hnobody hplan) _
      cases hsent.symm.trans hrun
    · refine (triple_lookup (fun _ _ ht _ => ht) fun t ht => hhere t ht.1).bind fun _ => ?_
      refine ⟨?_, ?_⟩
      · rintro t _ u ⟨rfl, houtcomes⟩ hrun
        rw [houtcomes, publishRaftCommitHeartbeats, commitsByPeer_local] at hrun
        split at hrun <;> cases hrun <;> exact hidle
      · rintro t _ u ⟨rfl, houtcomes⟩ hrun
        rw [houtcomes, publishRaftCommitHeartbeats, commitsByPeer_local] at hrun
        split at hrun <;> cases hrun

theorem publish_idle (entry : LogEntry C) :
    Triple (fun s => s.Idle ∧ (s.raftTransport = false ∨ s.NoPeerGets [entry]))
      (publish channel entry) (fun _ => Idle) Idle := by
  refine (publishBatch_idle [entry]).bind fun outcomes => ?_
  cases outcomes.getLast? with
  | none => exact triple_lookup (fun _ _ ht _ => ht) fun _ ht => ht
  | some => exact triple_pure fun _ ht => ht

/-- **Nothing stays in flight** in a run that sends no heartbeats, and no call is rejected for
want of capacity. -/
theorem idle_between_calls
    (hs : ((machine channel source).restrict (SendsNoHeartbeat channel source)).Reachable s) :
    s.metrics.inFlightBatches = 0 ∧ (ensureReplicationCapacity.run s).1 = .ok () := by
  have hidle : s.Idle := by
    refine hs.invariant (P := Idle) ?_ ?_
    · exact fun s (hinit : s.metrics = _) => congrArg _ hinit
    · rintro s event - h ⟨-, hnone⟩
      cases event with
      | publish entry => exact (publish_idle entry).after ⟨h, hnone⟩
      | publishBatch entries => exact (publishBatch_idle entries).after ⟨h, hnone⟩
      | heartbeats committedIndexes =>
        exact (sendRaftHeartbeats_idle committedIndexes).after ⟨h, hnone⟩
      | pump => exact runRaftReplicationPump_idle.after ⟨h, hnone⟩
      | registerPeer | unregisterPeer | installRoutingTable | outside => exact h
  exact ⟨hidle, congrArg Prod.fst (ensureReplicationCapacity_ok hidle)⟩

/-- A network that delivers while it holds `true`. -/
def switchedChannel : ReplicationChannel Nat Bool where
  sendReplicationBatch _ entries := lookup fun up =>
    if up then .ok (entries.map fun entry => (entry.shardId, entry.index))
    else .error (.replication "connect: refused")
  sendRaftAppendBatch _ _ _ entries := lookup fun up =>
    if up then .ok (entries.map fun entry => (entry.shardId, entry.index))
    else .error (.replication "connect: refused")
  sendRaftAppendBatchesByShard _ entries := lookup fun up =>
    if up then .ok (entries.map fun entry => (entry.shardId, entry.index))
    else .error (.replication "connect: refused")
  sendRaftAppendBatchOnce _ _ _ _ := fail (.replication "connect: refused")
  installSnapshot _ _ := fail (.replication "connect: refused")

/-- A database with one shard and an empty log. -/
def emptySource : PumpSource Nat Bool where
  committedIndexes := pure [0]
  logEntriesFrom _ _ := pure []
  installSnapshotRequestForShard _ := pure none

/-- A replicator with a peer for its shard. -/
def oneReplica (raftTransport : Bool) : TcpReplicator Bool where
  routingTable := ⟨1, [⟨0, [⟨1, .primary⟩, ⟨2, .replica⟩]⟩]⟩
  ackPolicy := .quorum
  capacity := 1
  raftTransport := raftTransport
  peers := FiniteMap.insert .empty 2 ⟨.tcp, "peer"⟩
  raftPeerProgress _ _ := none
  metrics := ⟨0, 0, 0, 0, 0, 0, 0, 0, 0⟩
  network := true
  capacity_pos := Nat.one_pos

/-- A publish that is acknowledged, and one that is not. -/
def twoPublishes : List (Event Nat Bool) :=
  [.publish ⟨0, 0, 1, 1, 1, .zero, 0⟩, .outside false, .publish ⟨0, 0, 2, 1, 1, .zero, 0⟩]

theorem idle_between_calls_twoPublishes :
    ((machine switchedChannel emptySource).run (oneReplica false) twoPublishes).metrics =
        ⟨2, 1, 1, 2, 0, 1, 0, 0, 0⟩ ∧
      (ensureReplicationCapacity.run
        ((machine switchedChannel emptySource).run (oneReplica false) twoPublishes)).1 = .ok
          () := by
  refine ⟨rfl, (idle_between_calls (Machine.Reachable.run
    (m := (machine switchedChannel emptySource).restrict
      (SendsNoHeartbeat switchedChannel emptySource))
    (.start (rfl : (oneReplica false).metrics = _)) ?_)).2⟩
  exact ⟨⟨trivial, .inl rfl⟩, ⟨trivial, trivial⟩, ⟨trivial, .inl rfl⟩, trivial⟩

/-- One heartbeat is delivered, and the next one is rejected. -/
theorem heartbeat_stays_in_flight :
    (machine switchedChannel emptySource).Reachable
        ((machine switchedChannel emptySource).run (oneReplica true) [.heartbeats [0]]) ∧
      ((machine switchedChannel emptySource).run (oneReplica true)
        [.heartbeats [0]]).metrics.inFlightBatches = 1 ∧
      (ensureReplicationCapacity.run
        ((machine switchedChannel emptySource).run (oneReplica true) [.heartbeats [0]])).1 =
          .error (.replication
            "replication backpressure: in_flight_batches=1 max_in_flight_batches=1") :=
  ⟨(Machine.Reachable.start rfl).run ⟨trivial, trivial⟩, rfl, rfl⟩

end TcpReplicator

end Neo4r.Db
