/-
  `Raft.Replication`: elections together with log replication.

  The servers of one shard start with empty logs, hold elections, append as leaders and
  send runs of their log to each other.  A run is read from the log of a server that
  leads at the moment; it may arrive at any server, in any order, any number of times
  or never.  Successful answers come back in the same way, and a leader records the
  match indexes of the answers to its own requests.

  The state remembers every request with the log it was read from, and every
  successful answer with its request.  No server reads that record.
-/
import Neo4r.Raft.Cluster

set_option autoImplicit false

namespace Neo4r.Raft

open Foundation

variable {C : Type}

/-! ## Requests -/

namespace AppendEntriesRequest

/-- The index the run of the request ends at. -/
def runEnd (request : AppendEntriesRequest C) : Nat := request.prevLogIndex + request.entries.length

/-- The term of the entry the run ends with: its last entry or the previous one. -/
def runTerm (request : AppendEntriesRequest C) : Nat :=
  (request.entries.getLast?.map (·.term)).getD request.prevLogTerm

end AppendEntriesRequest

/-- A request with `count` entries of the server's log after index `prev`. -/
def RaftCore.appendRequest (core : RaftCore C) (prev count : Nat) : AppendEntriesRequest C where
  term := core.currentTerm
  leaderId := core.serverId
  prevLogIndex := prev
  prevLogTerm := ((core.entryAt prev).map (·.term)).getD 0
  entries := (core.log.filter fun entry => entry.index > prev).take count
  leaderCommit := core.commitIndex

/-- A request that has been sent, and the log it was read from. -/
structure AppendMessage (C : Type) where
  request : AppendEntriesRequest C
  leaderLog : List (LogEntry C)

/-- A successful answer of `follower` to a request. -/
structure AppendAnswer (C : Type) where
  follower : Nat
  request : AppendEntriesRequest C
  response : AppendEntriesResponse

/-! ## The system -/

structure Replication (C : Type) where
  cluster : Cluster C
  messages : List (AppendMessage C)
  answers : List (AppendAnswer C)

/-- Elections and local appends are events of the cluster; requests and answers are
named by their position in the record. -/
inductive ReplicationEvent (C : Type)
  | cluster (event : ClusterEvent C)
  | send (id : Nat) (prev count : Nat)
  | deliver (follower : Nat) (position : Nat) (saves : List SaveOutcome)
  | recordMatch (id : Nat) (position : Nat) (now : Nat)

/-- The events of the cluster that belong to a system without crashes and snapshots:
the first start of a server, elections and local appends. -/
def ClusterEvent.isElectionOrAppend : ClusterEvent C → Bool
  | .boot _ log snapshot commitIndex => log.isEmpty && snapshot.isNone && commitIndex = 0
  | .startElection _ _ => true
  | .requestVote _ _ _ => true
  | .recordVoteResponse _ _ _ _ => true
  | .appendLocalEntry _ _ => true
  | .appendExistingLocalEntry _ _ => true
  | _ => false

namespace Replication

/-- The answer a server gives to a request, if it reports success. -/
def answer (follower : Nat) (core : RaftCore C) (request : AppendEntriesRequest C) :
    List (AppendAnswer C) :=
  match (core.appendEntries request).1 with
  | .ok response => if response.success then [⟨follower, request, response⟩] else []
  | .error _ => []

def next (voters : Finset Nat) (shardId : Nat) (s : Replication C) :
    ReplicationEvent C → Replication C
  | .cluster event => { s with cluster := s.cluster.next voters shardId event }
  | .send id prev count => match s.cluster.server id with
      | .up core =>
        { s with messages := s.messages ++ [⟨core.appendRequest prev count, core.log⟩] }
      | .down _ => s
  | .deliver follower position saves =>
    match s.messages[position]?, s.cluster.server follower with
    | some message, .up core =>
      let event := .appendEntries follower message.request saves
      { s with
        cluster := s.cluster.next voters shardId event
        answers := s.answers ++ answer follower (core.withSaves saves) message.request }
    | _, _ => s
  | .recordMatch id position now => match s.answers[position]? with
      | some answer =>
        let event := .recordReplicationMatch id answer.follower answer.response.matchIndex now
        { s with cluster := s.cluster.next voters shardId event }
      | none => s

/-- The guard of an event: vote requests are those a candidate issued, only leaders send,
from an index they have, and a match index is recorded by the server whose request was
answered. -/
def enabled (s : Replication C) : ReplicationEvent C → Bool
  | .cluster event => event.isElectionOrAppend && s.cluster.enabled event && s.cluster.genuine event
  | .send id prev _ => match s.cluster.server id with
      | .up core => core.role = .leader && (prev = 0 || (core.entryAt prev).isSome)
      | .down _ => false
  | .deliver _ _ _ => true
  | .recordMatch id position _ => match s.answers[position]? with
      | some answer => answer.request.leaderId = id
      | none => false

/-- Nothing has happened yet. -/
structure Fresh (s : Replication C) : Prop where
  cluster : s.cluster.Fresh
  messages : s.messages = []
  answers : s.answers = []

def machine (C : Type) (voters : Finset Nat) (shardId : Nat) :
    Machine (Replication C) (ReplicationEvent C) where
  init := Fresh
  enabled s e := enabled s e = true
  next s e := next voters shardId s e

instance (voters : Finset Nat) (shardId : Nat) (s : Replication C) (e : ReplicationEvent C) :
    Decidable ((machine C voters shardId).enabled s e) :=
  inferInstanceAs (Decidable (_ = true))

end Replication

/-! ## Sound steps -/

/-- The server already has an entry of the right term where the run ends, so the
request brings nothing new. -/
def RaftCore.holdsRun (core : RaftCore C) (request : AppendEntriesRequest C) : Bool :=
  request.runEnd = 0 || (core.entryAt request.runEnd).any fun entry =>
    entry.term = request.runTerm

/-- Every entry of the server past the run comes from the leader that sent it: it is
in the log the run was read from, or it is of the leader's term. -/
def RaftCore.tailFromLeader [DecidableEq C] (core : RaftCore C) (message : AppendMessage C) :
    Bool :=
  core.log.all fun entry => entry.index ≤ message.request.runEnd ||
    entry.term = message.request.term || entry ∈ message.leaderLog

/-- The steps after which the logs stay consistent.  A request that brings nothing new
reaches a server without a foreign tail, a match index is recorded in the term of the
request it answers, and indexes stay below the 64-bit bound. -/
def Replication.sound [DecidableEq C] (s : Replication C) : ReplicationEvent C → Bool
  | .cluster (.appendLocalEntry id _) | .cluster (.appendExistingLocalEntry id _) =>
    match s.cluster.server id with
    | .up core => core.lastLogIndex < u64Max
    | .down _ => true
  | .deliver follower position _ =>
    match s.messages[position]?, s.cluster.server follower with
    | some message, .up core =>
      !core.holdsRun message.request || core.tailFromLeader message
    | _, _ => true
  | .recordMatch id position _ => match s.answers[position]?, s.cluster.server id with
      | some answer, .up core => answer.request.term = core.currentTerm
      | _, _ => true
  | _ => true

/-- The system restricted to sound steps. -/
def Replication.soundMachine (C : Type) [DecidableEq C] (voters : Finset Nat) (shardId : Nat) :
    Machine (Replication C) (ReplicationEvent C) :=
  (Replication.machine C voters shardId).restrict fun s e => s.sound e = true

instance [DecidableEq C] (voters : Finset Nat) (shardId : Nat) (s : Replication C)
    (e : ReplicationEvent C) :
    Decidable ((Replication.soundMachine C voters shardId).enabled s e) :=
  inferInstanceAs (Decidable (_ ∧ _ = true))

end Neo4r.Raft
