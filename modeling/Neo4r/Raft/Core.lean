/-
  `Raft.Core`: the Raft state of one shard on one server (`neo4r-db/src/raft.rs`).

  Every method of the program is a function from the state before the call to its
  result and the state after it; a method that returns `Err` keeps whatever it had
  already written.  Methods that read the clock take the current instant; instants and
  durations are nanoseconds.

  Where the program keeps a `BTreeMap` from servers to indexes, the model has a
  function to `Option`; sets are finite sets.
-/
import Neo4r.Raft.Membership
import Neo4r.Raft.Persistent

set_option autoImplicit false

namespace Neo4r.Raft

open Foundation Function

/-! ## Messages -/

structure RequestVoteRequest where
  term : Nat
  candidateId : Nat
  lastLogIndex : Nat
  lastLogTerm : Nat
  deriving DecidableEq, Repr

structure RequestVoteResponse where
  term : Nat
  voteGranted : Bool
  deriving DecidableEq, Repr

structure AppendEntriesRequest (C : Type) where
  term : Nat
  leaderId : Nat
  prevLogIndex : Nat
  prevLogTerm : Nat
  entries : List (LogEntry C)
  leaderCommit : Nat
  deriving DecidableEq, Repr

structure AppendEntriesResponse where
  term : Nat
  success : Bool
  durable : Bool
  matchIndex : Nat
  conflictIndex : Option Nat
  conflictTerm : Option Nat
  deriving DecidableEq, Repr

structure RaftSnapshotMetadata where
  shardId : Nat
  lastIncludedTerm : Nat
  lastIncludedIndex : Nat
  deriving DecidableEq, Repr

structure InstallSnapshotRequest where
  term : Nat
  leaderId : Nat
  metadata : RaftSnapshotMetadata
  payload : List UInt8
  deriving DecidableEq, Repr

structure InstallSnapshotResponse where
  term : Nat
  success : Bool
  lastIncludedIndex : Nat
  deriving DecidableEq, Repr

/-! ## State -/

inductive RaftRole
  | follower
  | candidate
  | leader
  deriving DecidableEq, Repr

/-- The state of one shard's consensus on one server. -/
structure RaftCore (C : Type) where
  serverId : Nat
  shardId : Nat
  stateStore : RaftPersistentStateStore
  persistent : RaftPersistentState
  log : List (LogEntry C)
  snapshot : Option RaftSnapshotMetadata
  commitIndex : Nat
  role : RaftRole
  leaderId : Option Nat
  membership : RaftMembership
  matchIndexes : Nat → Option Nat
  votesReceived : Finset Nat
  leaseDeadline : Option Nat
  leaseDuration : Nat
  leaseClockDriftBound : Nat
  leaseMessageDelayBound : Nat

/-- The digits of a fraction with `width` places, without trailing zeros. -/
def fractionDigits (width n : Nat) : List Char :=
  let digits := decimal n
  let padded := List.replicate (width - digits.length) '0' ++ digits
  (padded.reverse.dropWhile (· = '0')).reverse

/-- The text `{:?}` gives a duration. -/
def debugDuration (nanos : Nat) : String :=
  let (whole, fraction, suffix) :=
    if 10 ^ 9 ≤ nanos then (nanos / 10 ^ 9, fractionDigits 9 (nanos % 10 ^ 9), "s")
    else if 10 ^ 6 ≤ nanos then (nanos / 10 ^ 6, fractionDigits 6 (nanos % 10 ^ 6), "ms")
    else if 10 ^ 3 ≤ nanos then (nanos / 10 ^ 3, fractionDigits 3 (nanos % 10 ^ 3), "µs")
    else (nanos, [], "ns")
  toString whole ++ String.ofList (if fraction = [] then [] else '.' :: fraction) ++ suffix

namespace RaftCore

variable {C : Type}

/-! ## Reading the state -/

def currentTerm (r : RaftCore C) : Nat := r.persistent.currentTerm

def votedFor (r : RaftCore C) : Option Nat := r.persistent.votedFor

variable (r : RaftCore C)

/-- `snapshot_index`: zero without a snapshot. -/
def snapshotIndex : Nat := (r.snapshot.map (·.lastIncludedIndex)).getD 0

/-- `snapshot_term`: zero without a snapshot. -/
def snapshotTerm : Nat := (r.snapshot.map (·.lastIncludedTerm)).getD 0

def lastLogIndex : Nat := (r.log.getLast?.map (·.index)).getD r.snapshotIndex

def lastLogTerm : Nat := (r.log.getLast?.map (·.term)).getD r.snapshotTerm

/-- `entry_at`: the first stored entry with the index. -/
def entryAt (index : Nat) : Option (LogEntry C) := r.log.find? fun entry => entry.index = index

/-- `is_log_up_to_date`: whether a log that ends so is at least as recent. -/
def isLogUpToDate (lastLogIndex : Nat) (lastLogTerm : Nat) : Bool :=
  lastLogTerm > r.lastLogTerm || (lastLogTerm = r.lastLogTerm && lastLogIndex ≥ r.lastLogIndex)

/-! ## Private steps -/

/-- Saves the persistent state. -/
def saveState : Except DatabaseError Unit × RaftCore C :=
  let (result, store) := r.stateStore.save r.persistent
  (result, { r with stateStore := store })

/-- `step_down`. -/
def stepDown (term : Nat) : Except DatabaseError Unit × RaftCore C :=
  let r := { r with
    role := .follower, leaderId := none, votesReceived := ∅, leaseDeadline := none }
  if term > r.persistent.currentTerm then
    { r with persistent := ⟨term, none⟩ }.saveState
  else (.ok (), r)

/-- `truncate_from`. -/
def truncateFrom (index : Nat) : RaftCore C :=
  { r with
    log := r.log.filter fun entry => entry.index < index
    commitIndex := max (min r.commitIndex (index - 1)) r.snapshotIndex }

/-- `self.log.push(entry)`. -/
def pushEntry (entry : LogEntry C) : RaftCore C := { r with log := r.log ++ [entry] }

/-- `compact_log_through_snapshot`. -/
def compactLogThroughSnapshot : RaftCore C :=
  { r with log := r.log.filter fun entry => entry.index > r.snapshotIndex }

/-- `self.log.sort_by_key(|entry| entry.index)`, a stable sort. -/
def sortLog : RaftCore C := { r with log := r.log.insertionSort fun a b => a.index ≤ b.index }

variable (serverId : Nat)

/-- `self.match_indexes.insert(server_id, match_index)`. -/
def setMatchIndex (matchIndex : Nat) :
    RaftCore C :=
  { r with matchIndexes := update r.matchIndexes serverId (some matchIndex) }

/-- The match index recorded for a server, zero if there is none. -/
def matchIndexOf : Nat := (r.matchIndexes serverId).getD 0

/-- The voters whose recorded match index reaches `index`. -/
def matchedVoters (index : Nat) : Finset Nat :=
  r.membership.allVoters.filter fun serverId => r.matchIndexOf serverId ≥ index

/-- The index `advance_leader_commit_index` settles on: it scans the voters' match
indexes in descending order and stops at the first one a quorum has reached, which
is the largest one, or zero. -/
def quorumIndex : Nat :=
  ((r.membership.allVoters.image r.matchIndexOf).filter fun candidate =>
    r.membership.hasQuorum (r.matchedVoters candidate)).sup id

/-- `advance_leader_commit_index`. -/
def advanceLeaderCommitIndex : RaftCore C :=
  if r.role ≠ .leader then r
  else if r.quorumIndex ≤ r.commitIndex then r
  else if (r.entryAt r.quorumIndex).any fun entry => entry.term = r.persistent.currentTerm then
    { r with commitIndex := r.quorumIndex }
  else r

/-- The voters that have a recorded match index reaching the commit index. -/
def confirmedVoters : Finset Nat :=
  r.membership.allVoters.filter fun serverId =>
    (r.matchIndexes serverId).any fun matchIndex => matchIndex ≥ r.commitIndex

/-- `refresh_leader_lease_if_quorum`. -/
def refreshLeaderLeaseIfQuorum (now : Nat) : RaftCore C :=
  if r.role ≠ .leader then { r with leaseDeadline := none }
  else if r.membership.hasQuorum r.confirmedVoters then
    { r with leaseDeadline := some (now + r.leaseDuration) }
  else r

/-! ## Opening -/

/-- `open_with_membership`. -/
def openWithMembership (shardId : Nat)
    (stateStore : RaftPersistentStateStore) (membership : RaftMembership) :
    Except DatabaseError (RaftCore C) :=
  if membership.isMember serverId = false then
    .error (.invalidConfig s!"local server {serverId} is not a raft member")
  else match stateStore.load with
    | .error err => .error err
    | .ok persistent => .ok
        { serverId, shardId, stateStore, persistent, membership
          log := [], snapshot := none, commitIndex := 0
          role := .follower, leaderId := none
          matchIndexes := fun _ => none, votesReceived := ∅
          leaseDeadline := none, leaseDuration := 750 * 10 ^ 6
          leaseClockDriftBound := 0, leaseMessageDelayBound := 0 }

/-- `RaftCore::open`: a group whose only voter is the server itself. -/
def openSingle (shardId : Nat)
    (stateStore : RaftPersistentStateStore) : Except DatabaseError (RaftCore C) :=
  match RaftMembership.new {serverId} with
  | .error err => .error err
  | .ok membership => openWithMembership serverId shardId stateStore membership

/-- `open_with_log`. -/
def openWithLog (shardId : Nat)
    (stateStore : RaftPersistentStateStore) (membership : RaftMembership)
    (log : List (LogEntry C)) (commitIndex : Nat) : Except DatabaseError (RaftCore C) :=
  match (openWithMembership serverId shardId stateStore membership :
      Except DatabaseError (RaftCore C)) with
  | .error err => .error err
  | .ok raft => match log.find? fun entry : LogEntry C => entry.shardId ≠ shardId with
    | some entry =>
      let found := entry.shardId
      .error (.invalidConfig s!"raft log entry has shard {found}, expected {shardId}")
    | none =>
      let raft := { raft with log }.sortLog
      .ok { raft with commitIndex := min commitIndex raft.lastLogIndex }

/-- `open_with_log_and_snapshot`. -/
def openWithLogAndSnapshot (shardId : Nat)
    (stateStore : RaftPersistentStateStore) (membership : RaftMembership)
    (log : List (LogEntry C)) (snapshot : Option RaftSnapshotMetadata)
    (commitIndex : Nat) : Except DatabaseError (RaftCore C) :=
  match openWithLog serverId shardId stateStore membership log commitIndex with
  | .error err => .error err
  | .ok raft => match snapshot with
    | none => .ok raft
    | some snapshot =>
      if snapshot.shardId ≠ shardId then
        let found := snapshot.shardId
        .error (.invalidConfig s!"raft snapshot has shard {found}, expected {shardId}")
      else
        let raft := { raft with snapshot := some snapshot }.compactLogThroughSnapshot
        .ok { raft with commitIndex := max raft.commitIndex raft.snapshotIndex }

/-- `with_lease_duration`. -/
def withLeaseDuration (leaseDuration : Nat) : RaftCore C := { r with leaseDuration }

/-- `with_lease_clock_bounds`. -/
def withLeaseClockBounds (clockDriftBound messageDelayBound : Nat) :
    RaftCore C :=
  { r with
    leaseClockDriftBound := clockDriftBound, leaseMessageDelayBound := messageDelayBound }

/-! ## Elections -/

/-- `start_election`. -/
def startElection :
    Except DatabaseError RequestVoteRequest × RaftCore C :=
  let r := { r with
    role := .candidate
    leaderId := none
    persistent := ⟨saturatingAdd r.persistent.currentTerm 1, some r.serverId⟩
    votesReceived := {r.serverId} }
  match r.saveState with
  | (.error err, r) => (.error err, r)
  | (.ok (), r) =>
    (.ok { term := r.persistent.currentTerm, candidateId := r.serverId
           lastLogIndex := r.lastLogIndex, lastLogTerm := r.lastLogTerm }, r)

/-- `become_leader`. -/
def becomeLeader (now : Nat) : RaftCore C :=
  { r with
    role := .leader
    leaderId := some r.serverId
    votesReceived := ∅
    matchIndexes := update (fun _ => none) r.serverId
      (some r.lastLogIndex) }.refreshLeaderLeaseIfQuorum now

/-- `record_vote_response`. -/
def recordVoteResponse (voterId : Nat) (response : RequestVoteResponse)
    (now : Nat) : Except DatabaseError Bool × RaftCore C :=
  if response.term > r.persistent.currentTerm then
    match r.stepDown response.term with
    | (.error err, r) => (.error err, r)
    | (.ok (), r) => (.ok false, r)
  else if r.role ≠ .candidate ∨ response.term ≠ r.persistent.currentTerm then (.ok false, r)
  else
    let r := if response.voteGranted then
        { r with votesReceived := insert voterId r.votesReceived }
      else r
    if r.membership.hasQuorum r.votesReceived then (.ok true, r.becomeLeader now)
    else (.ok false, r)

/-- The second half of `request_vote`, once the terms agree. -/
def castVote (request : RequestVoteRequest) :
    Except DatabaseError RequestVoteResponse × RaftCore C :=
  let canVote := r.persistent.votedFor = none ∨ r.persistent.votedFor = some request.candidateId
  if canVote ∧ r.isLogUpToDate request.lastLogIndex request.lastLogTerm = true then
    let r := { r with
      persistent := { r.persistent with votedFor := some request.candidateId } }
    match r.saveState with
    | (.error err, r) => (.error err, r)
    | (.ok (), r) => (.ok ⟨r.persistent.currentTerm, true⟩, r)
  else (.ok ⟨r.persistent.currentTerm, false⟩, r)

/-- `request_vote`. -/
def requestVote (request : RequestVoteRequest) :
    Except DatabaseError RequestVoteResponse × RaftCore C :=
  if request.term < r.persistent.currentTerm then
    (.ok ⟨r.persistent.currentTerm, false⟩, r)
  else if request.term > r.persistent.currentTerm then
    match r.stepDown request.term with
    | (.error err, r) => (.error err, r)
    | (.ok (), r) => r.castVote request
  else r.castVote request

/-- `leader_transfer_request`. -/
def leaderTransferRequest (transfereeId : Nat) :
    Except DatabaseError RequestVoteRequest :=
  if r.role ≠ .leader then .error (.replication "leader transfer requires raft leader")
  else if r.membership.contains transfereeId = false then
    .error (.replication s!"leader transfer target {transfereeId} is not a voter")
  else if r.matchIndexOf transfereeId < r.commitIndex then
    let commitIndex := r.commitIndex
    .error (.replication
      s!"leader transfer target {transfereeId} is behind commit index {commitIndex}")
  else .ok
    { term := saturatingAdd r.persistent.currentTerm 1, candidateId := transfereeId
      lastLogIndex := r.lastLogIndex, lastLogTerm := r.lastLogTerm }

/-! ## Replication -/

/-- The response to a refused append. -/
def refuseAppend (conflictIndex : Nat) (conflictTerm : Option Nat) :
    AppendEntriesResponse :=
  { term := r.persistent.currentTerm, success := false, durable := false
    matchIndex := r.lastLogIndex, conflictIndex := some conflictIndex, conflictTerm }

/-- The loop of `append_entries` over the entries of the request.  It stops early
with a refusal at an entry that contradicts a committed one, and with an error at
an entry of another shard.  (The source has the loop twice, after the snapshot
boundary and after an ordinary previous entry.) -/
def appendLoop (r : RaftCore C) :
    List (LogEntry C) → Except DatabaseError (Option AppendEntriesResponse) × RaftCore C
  | [] => (.ok none, r)
  | entry :: entries =>
    if entry.shardId ≠ r.shardId then
      let found := entry.shardId
      let expected := r.shardId
      (.error (.invalidConfig s!"raft append entry has shard {found}, expected {expected}"), r)
    else if entry.index ≤ r.snapshotIndex then r.appendLoop entries
    else match r.entryAt entry.index with
      | some existing =>
        if existing.term = entry.term then r.appendLoop entries
        else if entry.index ≤ r.commitIndex then
          (.ok (some (r.refuseAppend entry.index (some existing.term))), r)
        else ((r.truncateFrom entry.index).pushEntry entry).appendLoop entries
      | none => (r.pushEntry entry).appendLoop entries

/-- The end of `append_entries`: the loop, the sort and the new commit index. -/
def appendAndCommit (request : AppendEntriesRequest C) :
    Except DatabaseError AppendEntriesResponse × RaftCore C :=
  match r.appendLoop request.entries with
  | (.error err, r) => (.error err, r)
  | (.ok (some refusal), r) => (.ok refusal, r)
  | (.ok none, r) =>
    let r := r.sortLog
    let r := if request.leaderCommit > r.commitIndex then
        { r with commitIndex := min request.leaderCommit r.lastLogIndex }
      else r
    (.ok { term := r.persistent.currentTerm, success := true, durable := false
           matchIndex := r.lastLogIndex, conflictIndex := none, conflictTerm := none }, r)

/-- The middle of `append_entries`: the check of the previous entry. -/
def checkPrevious (request : AppendEntriesRequest C) :
    Except DatabaseError AppendEntriesResponse × RaftCore C :=
  if request.prevLogIndex > 0 then
    match r.entryAt request.prevLogIndex with
    | none =>
      if request.prevLogIndex = r.snapshotIndex ∧ request.prevLogTerm = r.snapshotTerm then
        r.appendAndCommit request
      else (.ok (r.refuseAppend (saturatingAdd r.lastLogIndex 1) none), r)
    | some previous =>
      if previous.term ≠ request.prevLogTerm then
        if request.prevLogIndex ≤ r.commitIndex then
          (.ok (r.refuseAppend request.prevLogIndex (some previous.term)), r)
        else
          let conflictIndex :=
            ((r.log.find? fun entry => entry.term = previous.term).map (·.index)).getD
              request.prevLogIndex
          let r := r.truncateFrom request.prevLogIndex
          (.ok (r.refuseAppend conflictIndex (some previous.term)), r)
      else r.appendAndCommit request
  else r.appendAndCommit request

/-- What `append_entries` and `install_snapshot` do on behalf of a leader whose term
is not stale: a server that is behind or not a follower steps down, and the leader's
id is remembered. -/
def followLeader (term : Nat) (leaderId : Nat) :
    Except DatabaseError Unit × RaftCore C :=
  if term > r.persistent.currentTerm ∨ r.role ≠ .follower then
    match r.stepDown term with
    | (.error err, r) => (.error err, r)
    | (.ok (), r) => (.ok (), { r with leaderId := some leaderId })
  else (.ok (), { r with leaderId := some leaderId })

/-- `append_entries`. -/
def appendEntries (request : AppendEntriesRequest C) :
    Except DatabaseError AppendEntriesResponse × RaftCore C :=
  if request.term < r.persistent.currentTerm then
    (.ok (r.refuseAppend (saturatingAdd r.lastLogIndex 1) (some r.persistent.currentTerm)), r)
  else match r.followLeader request.term request.leaderId with
    | (.error err, r) => (.error err, r)
    | (.ok (), r) => r.checkPrevious request

/-- The end of `install_snapshot`: a snapshot that is not older replaces the one the
server has. -/
def adoptSnapshot (metadata : RaftSnapshotMetadata) : RaftCore C :=
  if metadata.lastIncludedIndex ≥ r.snapshotIndex then
    let r := { r with snapshot := some metadata }.compactLogThroughSnapshot
    { r with commitIndex := max r.commitIndex r.snapshotIndex }
  else r

/-- `install_snapshot`. -/
def installSnapshot (request : InstallSnapshotRequest) :
    Except DatabaseError InstallSnapshotResponse × RaftCore C :=
  if request.term < r.persistent.currentTerm then
    (.ok ⟨r.persistent.currentTerm, false, r.snapshotIndex⟩, r)
  else if request.metadata.shardId ≠ r.shardId then
    let found := request.metadata.shardId
    let expected := r.shardId
    (.error (.invalidConfig s!"raft snapshot has shard {found}, expected {expected}"), r)
  else match r.followLeader request.term request.leaderId with
    | (.error err, r) => (.error err, r)
    | (.ok (), r) =>
      let r := r.adoptSnapshot request.metadata
      (.ok ⟨r.persistent.currentTerm, true, r.snapshotIndex⟩, r)

/-- `compact_log_to_snapshot`. -/
def compactLogToSnapshot (metadata : RaftSnapshotMetadata) :
    Except DatabaseError Unit × RaftCore C :=
  let expected := r.shardId
  if metadata.shardId ≠ r.shardId then
    let found := metadata.shardId
    (.error (.invalidConfig s!"raft snapshot has shard {found}, expected {expected}"), r)
  else if metadata.lastIncludedIndex > r.commitIndex then
    let index := metadata.lastIncludedIndex
    let commitIndex := r.commitIndex
    (.error (.replication (s!"cannot compact raft shard {expected} to uncommitted snapshot " ++
      s!"index {index} while commit index is {commitIndex}")), r)
  else (.ok (), { r with snapshot := some metadata }.compactLogThroughSnapshot)

/-- The effect both local appends share once the entry is accepted. -/
def pushLocalEntry (entry : LogEntry C) : RaftCore C :=
  ((r.pushEntry entry).setMatchIndex r.serverId entry.index).advanceLeaderCommitIndex

/-- `append_local_entry`. -/
def appendLocalEntry (command : C) :
    Except DatabaseError (LogEntry C) × RaftCore C :=
  if r.role ≠ .leader then
    (.error (.replication "cannot append local raft entry when not leader"), r)
  else
    let entry := LogEntry.new r.shardId r.persistent.currentTerm
      (saturatingAdd r.lastLogIndex 1) command
    (.ok entry, r.pushLocalEntry entry)

/-- `append_existing_local_entry`. -/
def appendExistingLocalEntry (entry : LogEntry C) :
    Except DatabaseError (LogEntry C) × RaftCore C :=
  if r.role ≠ .leader then
    (.error (.replication "cannot append local raft entry when not leader"), r)
  else if entry.shardId ≠ r.shardId then
    let found := entry.shardId
    let expected := r.shardId
    (.error (.invalidConfig s!"raft local entry has shard {found}, expected {expected}"), r)
  else
    let expected := saturatingAdd r.lastLogIndex 1
    if entry.index ≠ expected then
      (.error (.unexpectedLogIndex entry.shardId expected entry.index), r)
    else if entry.term ≠ r.persistent.currentTerm then
      let found := entry.term
      let current := r.persistent.currentTerm
      (.error (.logConflict entry.shardId entry.index
        s!"local raft entry term {found} does not match current term {current}"), r)
    else (.ok entry, r.pushLocalEntry entry)

/-- `record_replication_match`. -/
def recordReplicationMatch (matchIndex : Nat)
    (now : Nat) : Except DatabaseError Nat × RaftCore C :=
  if r.role ≠ .leader then
    (.error (.replication "cannot record raft replication match when not leader"), r)
  else if r.membership.isMember serverId = false then
    (.error (.invalidConfig s!"server {serverId} is not a raft member"), r)
  else
    let r := (r.setMatchIndex serverId matchIndex).advanceLeaderCommitIndex
    let r := r.refreshLeaderLeaseIfQuorum now
    (.ok r.commitIndex, r)

/-! ## Reads -/

/-- `read_index`. -/
def readIndex : Except DatabaseError Nat :=
  if r.role ≠ .leader then .error (.replication "read-index requires raft leader")
  else if r.membership.hasQuorum r.confirmedVoters then .ok r.commitIndex
  else .error (.replication "read-index requires a quorum-confirmed leader commit index")

/-- `leader_lease_read_index`. -/
def leaderLeaseReadIndex (now : Nat) : Except DatabaseError Nat :=
  let required := r.leaseClockDriftBound + r.leaseMessageDelayBound
  if r.role ≠ .leader then .error (.replication "leader lease requires raft leader")
  else if required ≠ 0 ∧ r.leaseDuration ≤ required then
    let duration := debugDuration r.leaseDuration
    let bound := debugDuration required
    .error (.replication (s!"leader lease duration {duration} must exceed configured " ++
      s!"clock/message bound {bound}"))
  else if r.leaseDeadline.any fun deadline => now ≤ deadline then .ok r.commitIndex
  else r.readIndex

/-! ## Membership changes -/

/-- `begin_joint_consensus`. -/
def beginJointConsensus (voters : Finset Nat) :
    Except DatabaseError Unit × RaftCore C :=
  if r.membership.isJoint then
    (.error (.invalidConfig "raft membership is already in joint consensus"), r)
  else
    let (result, membership) := r.membership.enterJoint voters
    (result, { r with membership })

/-- `finalize_joint_consensus`. -/
def finalizeJointConsensus : RaftCore C := { r with membership := r.membership.finalizeJoint }

/-- `apply_committed_membership_change`. -/
def applyCommittedMembershipChange :
    RaftMembershipChange → Except DatabaseError Unit × RaftCore C
  | .addLearner serverId =>
    let (result, membership) := r.membership.addLearner serverId
    (result, { r with membership })
  | .promoteLearner serverId =>
    let (result, membership) := r.membership.promoteLearner serverId
    (result, { r with membership })
  | .addVoter serverId => (.ok (), { r with membership := r.membership.addVoter serverId })
  | .removeVoter serverId =>
    match r.membership.removeVoter serverId with
    | (.error err, membership) => (.error err, { r with membership })
    | (.ok (), membership) =>
      let r := { r with
        membership, matchIndexes := update r.matchIndexes serverId none }
      (.ok (), if serverId = r.serverId then { r with role := .follower, leaderId := none }
        else r)

end RaftCore

end Neo4r.Raft
