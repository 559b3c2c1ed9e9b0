/-
  `Raft.Cluster`: the servers of one shard, with crashes, failing disks and a network
  that may lose, repeat and reorder messages.

  The state keeps, next to the servers, a history of what has happened: the vote
  requests that were issued, the responses that were given, the votes that became
  durable and the elections that were won.  The history decides which messages may
  still arrive; no server reads it.
-/
import Neo4r.Raft.Frame

set_option autoImplicit false

namespace Neo4r.Raft

open Foundation

variable {C : Type}

/-- A server is running, or it is down and only its state file is left. -/
inductive Server (C : Type)
  | down (store : RaftPersistentStateStore)
  | up (core : RaftCore C)

/-- The store of a server, running or not. -/
def Server.store : Server C → RaftPersistentStateStore
  | .down store => store
  | .up core => core.stateStore

/-- A vote that has been saved by the voter. -/
structure Ballot where
  voter : Nat
  term : Nat
  candidate : Nat
  deriving DecidableEq, Repr

/-- A response of `request_vote`, with the voter and the candidate it was meant for. -/
structure VoteReply where
  voter : Nat
  candidate : Nat
  response : RequestVoteResponse
  deriving DecidableEq, Repr

/-- The servers and the history. -/
structure Cluster (C : Type) where
  server : Nat → Server C
  issued : List RequestVoteRequest
  replies : List VoteReply
  ballots : List Ballot
  elected : List (Nat × Nat)

/-- What can happen in the cluster.  Each operation that saves comes with what the
operating system does with its saves. -/
inductive ClusterEvent (C : Type)
  | boot (id : Nat) (log : List (LogEntry C)) (snapshot : Option RaftSnapshotMetadata)
      (commitIndex : Nat)
  | crash (id : Nat)
  | startElection (id : Nat) (saves : List SaveOutcome)
  | requestVote (voter : Nat) (request : RequestVoteRequest) (saves : List SaveOutcome)
  | recordVoteResponse (id : Nat) (reply : VoteReply) (now : Nat) (saves : List SaveOutcome)
  | appendEntries (id : Nat) (request : AppendEntriesRequest C) (saves : List SaveOutcome)
  | installSnapshot (id : Nat) (request : InstallSnapshotRequest) (saves : List SaveOutcome)
  | compactLogToSnapshot (id : Nat) (metadata : RaftSnapshotMetadata)
  | appendLocalEntry (id : Nat) (command : C)
  | appendExistingLocalEntry (id : Nat) (entry : LogEntry C)
  | recordReplicationMatch (id : Nat) (serverId : Nat) (matchIndex : Nat) (now : Nat)

/-- The core with the outcomes of its coming saves replaced. -/
def RaftCore.withSaves (core : RaftCore C) (saves : List SaveOutcome) : RaftCore C :=
  { core with stateStore := { core.stateStore with outcomes := saves } }

theorem RaftCore.withSaves_sameVotes (core : RaftCore C) (saves : List SaveOutcome) :
    RaftCore.SameVotes core (core.withSaves saves) := ⟨rfl, rfl, rfl, rfl, rfl, rfl⟩

namespace Cluster

/-- The core of a running server. -/
def core? (s : Cluster C) (id : Nat) : Option (RaftCore C) :=
  match s.server id with
  | .up core => some core
  | .down _ => none

theorem exists_core (s : Cluster C) (id : Nat) (P : RaftCore C → Bool)
    (h : (s.core? id).any P = true) : ∃ core, s.server id = .up core ∧ P core = true := by
  unfold core? at h
  split at h
  · rename_i core hup
    exact ⟨core, hup, h⟩
  · cases h

/-- Replaces one server. -/
def setServer (s : Cluster C) (id : Nat) (server : Server C) : Cluster C :=
  { s with server := Function.update s.server id server }

/-- Replaces the core of a running server. -/
def setCore (s : Cluster C) (id : Nat) (core : RaftCore C) : Cluster C := s.setServer id (.up core)

/-- A server starts from its state file, its write-ahead log and its snapshot. -/
def boot (voters : Finset Nat) (shardId : Nat) (s : Cluster C) (id : Nat)
    (log : List (LogEntry C)) (snapshot : Option RaftSnapshotMetadata) (commitIndex : Nat) :
    Cluster C :=
  match s.server id with
  | .up _ => s
  | .down store =>
    match (RaftMembership.new voters).bind fun membership =>
      RaftCore.openWithLogAndSnapshot id shardId store membership log snapshot commitIndex with
    | .ok core => s.setCore id core
    | .error _ => s

/-- A running server starts an election; a request goes out if the call returns one,
and then the server's vote for itself is durable. -/
def startElection (s : Cluster C) (id : Nat) (core : RaftCore C) : Cluster C :=
  match core.startElection with
  | (.ok request, core) =>
    { s.setCore id core with
      issued := request :: s.issued
      ballots := ⟨id, request.term, id⟩ :: s.ballots }
  | (.error _, core) => s.setCore id core

/-- A running server answers a vote request; a granted vote is durable. -/
def requestVote (s : Cluster C) (voter : Nat) (core : RaftCore C)
    (request : RequestVoteRequest) : Cluster C :=
  match core.requestVote request with
  | (.ok response, core) =>
    { s.setCore voter core with
      replies := ⟨voter, request.candidateId, response⟩ :: s.replies
      ballots := if response.voteGranted then
          ⟨voter, response.term, request.candidateId⟩ :: s.ballots
        else s.ballots }
  | (.error _, core) => s.setCore voter core

/-- A running server counts a reply; a call that returns `true` has won the election. -/
def recordVoteResponse (s : Cluster C) (id : Nat) (core : RaftCore C) (reply : VoteReply)
    (now : Nat) : Cluster C :=
  match core.recordVoteResponse reply.voter reply.response now with
  | (.ok true, core) =>
    { s.setCore id core with elected := (id, core.currentTerm) :: s.elected }
  | (_, core) => s.setCore id core

/-- Applies an operation to a running server; nothing happens on one that is down. -/
def onCore (s : Cluster C) (id : Nat) (f : RaftCore C → Cluster C) : Cluster C :=
  match s.server id with
  | .up core => f core
  | .down _ => s

/-- The effect of an event. -/
def next (voters : Finset Nat) (shardId : Nat) (s : Cluster C) :
    ClusterEvent C → Cluster C
  | .boot id log snapshot commitIndex => s.boot voters shardId id log snapshot commitIndex
  | .crash id => s.onCore id fun core => s.setServer id (.down core.stateStore)
  | .startElection id saves => s.onCore id fun core =>
    s.startElection id (core.withSaves saves)
  | .requestVote voter request saves => s.onCore voter fun core =>
    s.requestVote voter (core.withSaves saves) request
  | .recordVoteResponse id reply now saves => s.onCore id fun core =>
    s.recordVoteResponse id (core.withSaves saves) reply now
  | .appendEntries id request saves => s.onCore id fun core =>
    s.setCore id ((core.withSaves saves).appendEntries request).2
  | .installSnapshot id request saves => s.onCore id fun core =>
    s.setCore id ((core.withSaves saves).installSnapshot request).2
  | .compactLogToSnapshot id metadata => s.onCore id fun core =>
    s.setCore id (core.compactLogToSnapshot metadata).2
  | .appendLocalEntry id command => s.onCore id fun core =>
    s.setCore id (core.appendLocalEntry command).2
  | .appendExistingLocalEntry id entry => s.onCore id fun core =>
    s.setCore id (core.appendExistingLocalEntry entry).2
  | .recordReplicationMatch id serverId matchIndex now => s.onCore id fun core =>
    s.setCore id (core.recordReplicationMatch serverId matchIndex now).2

/-- The guard of an event: terms stay below the 64-bit bound, and replies are only
delivered to the candidate they were given to.  Vote requests may come from anywhere. -/
def enabled (s : Cluster C) : ClusterEvent C → Bool
  | .startElection id _ => match s.server id with
      | .up core => core.currentTerm < u64Max
      | .down _ => true
  | .recordVoteResponse id reply _ _ => reply ∈ s.replies && reply.candidate = id
  | _ => true

/-- A vote request is one that a call of `start_election` returned. -/
def genuine (s : Cluster C) : ClusterEvent C → Bool
  | .requestVote _ request _ => request ∈ s.issued
  | _ => true

/-- A candidate counts a vote of its term only if its own vote has been saved. -/
def countsForSaved (s : Cluster C) : ClusterEvent C → Bool
  | .recordVoteResponse id reply _ _ => match s.server id with
      | .up core => core.role ≠ .candidate || reply.response.term ≠ core.currentTerm ||
          !reply.response.voteGranted || ⟨id, core.currentTerm, id⟩ ∈ s.ballots
      | .down _ => true
  | _ => true

/-- A cluster whose servers have yet to start, with any state files and no history. -/
structure Fresh (s : Cluster C) : Prop where
  down : ∀ id, ∃ store, s.server id = .down store
  issued : s.issued = []
  replies : s.replies = []
  ballots : s.ballots = []
  elected : s.elected = []

/-- The cluster as a machine. -/
def machine (C : Type) (voters : Finset Nat) (shardId : Nat) :
    Machine (Cluster C) (ClusterEvent C) where
  init := Fresh
  enabled s e := enabled s e = true
  next s e := next voters shardId s e

instance (voters : Finset Nat) (shardId : Nat) (s : Cluster C) (e : ClusterEvent C) :
    Decidable ((machine C voters shardId).enabled s e) :=
  inferInstanceAs (Decidable (_ = true))

/-- The cluster in which votes are counted only for saved candidacies. -/
def savedMachine (C : Type) (voters : Finset Nat) (shardId : Nat) :
    Machine (Cluster C) (ClusterEvent C) :=
  (machine C voters shardId).restrict fun s e => s.countsForSaved e = true

instance (voters : Finset Nat) (shardId : Nat) (s : Cluster C) (e : ClusterEvent C) :
    Decidable ((savedMachine C voters shardId).enabled s e) :=
  inferInstanceAs (Decidable (_ ∧ _ = true))

end Cluster

end Neo4r.Raft
