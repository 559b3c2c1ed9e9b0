/-
  `Db.Consensus`: the Raft groups of a server and how they are opened
  (`RaftShardConsensus` in `neo4r-db/src/database.rs`).

  A server opens one group for every shard, from its routing table, its write-ahead
  logs, its snapshots and the state files.  Where the routing table names the server as
  primary of a shard, opening also makes it the leader of the group.
-/
import Neo4r.Raft.Frame
import Neo4r.Storage.ShardLog

set_option autoImplicit false

namespace Neo4r.Db

open Raft Storage Function

variable {C : Type}

/-- The groups of a server, and when each last heard from its leader. -/
structure RaftShardConsensus (C : Type) where
  groups : List (RaftCore C)
  leaderContacts : List (Option Nat)

/-- What is read from disk to open the groups. -/
structure ConsensusFiles (C : Type) where
  logs : List (SegmentedShardLog C)
  snapshots : Nat → Option RaftSnapshotMetadata
  commitIndexes : List Nat

/-- The voters a placement gives its shard. -/
def votersOf (placement : ShardPlacement) : Finset Nat :=
  (placement.replicas.map (·.serverId)).toFinset

namespace RaftShardConsensus

/-- What opening does to a group on the server that the routing table names as
primary: a server that has never voted first starts an election, and then it leads. -/
def promotePrimary (group : RaftCore C) (now : Nat) :
    Except DatabaseError (RaftCore C) × RaftPersistentStateStore :=
  if group.currentTerm = 0 then
    match group.startElection with
    | (.error err, group) => (.error err, group.stateStore)
    | (.ok _, group) => (.ok (group.becomeLeader now), group.stateStore)
  else (.ok (group.becomeLeader now), group.stateStore)

/-- The body of the loop of `open`: one shard's group and its state file afterwards. -/
def openGroup (serverId : Nat) (table : ShardRoutingTable) (files : ConsensusFiles C)
    (now : Nat) (shardId : Nat) (log : SegmentedShardLog C)
    (stateStore : RaftPersistentStateStore) :
    Except DatabaseError (RaftCore C) × RaftPersistentStateStore :=
  match table.placement shardId with
  | none =>
    (.error (.replication s!"missing routing placement for raft shard {shardId}"), stateStore)
  | some placement => match RaftMembership.new (votersOf placement) with
    | .error err => (.error err, stateStore)
    | .ok membership =>
      match RaftCore.openWithLogAndSnapshot serverId shardId stateStore membership
        (log.replayFrom 0) (files.snapshots shardId) (files.commitIndexes.getD shardId 0) with
      | .error err => (.error err, stateStore)
      | .ok group =>
        if placement.primaryServerId = some serverId then promotePrimary group now
        else (.ok group, stateStore)

/-- The loop of `open`, from a shard on.  An error ends it, with what the shards before
have written to their state files. -/
def openGroups (serverId : Nat) (table : ShardRoutingTable) (files : ConsensusFiles C)
    (now : Nat) : Nat → List (SegmentedShardLog C) → (Nat → RaftPersistentStateStore) →
      Except DatabaseError (List (RaftCore C)) × (Nat → RaftPersistentStateStore)
  | _, [], stores => (.ok [], stores)
  | shardId, log :: logs, stores =>
    match openGroup serverId table files now shardId log (stores shardId) with
    | (.error err, store) => (.error err, update stores shardId store)
    | (.ok group, store) =>
      match openGroups serverId table files now (shardId + 1) logs
        (update stores shardId store) with
      | (.error err, stores) => (.error err, stores)
      | (.ok groups, stores) => (.ok (group :: groups), stores)

/-- `RaftShardConsensus::open`. -/
def openAll (serverId : Nat) (table : ShardRoutingTable) (files : ConsensusFiles C)
    (now : Nat) (stores : Nat → RaftPersistentStateStore) :
    Except DatabaseError (RaftShardConsensus C) × (Nat → RaftPersistentStateStore) :=
  match openGroups serverId table files now 0 files.logs stores with
  | (.error err, stores) => (.error err, stores)
  | (.ok groups, stores) => (.ok ⟨groups, groups.map fun _ => none⟩, stores)

/-- `group_mut`, as a lookup. -/
def group (consensus : RaftShardConsensus C) (shardId : Nat) :
    Except DatabaseError (RaftCore C) :=
  match consensus.groups[shardId]? with
  | some group => .ok group
  | none => .error (.missingShardLog shardId)

/-- `group_mut`, as an update. -/
def setGroup (consensus : RaftShardConsensus C) (shardId : Nat) (group : RaftCore C) :
    RaftShardConsensus C :=
  { consensus with groups := consensus.groups.set shardId group }

/-- The groups with the state files as they are on disk; the groups of a server keep
running when opening new ones fails after it has changed state files. -/
def withStores (consensus : RaftShardConsensus C) (stores : Nat → RaftPersistentStateStore) :
    RaftShardConsensus C :=
  { consensus with groups := consensus.groups.mapIdx fun shardId group =>
      { group with stateStore := stores shardId } }

/-- `record_leader_contact`. -/
def recordLeaderContact (consensus : RaftShardConsensus C) (shardId now : Nat) :
    Except DatabaseError Unit × RaftShardConsensus C :=
  if shardId < consensus.leaderContacts.length then
    (.ok (), { consensus with
      leaderContacts := consensus.leaderContacts.set shardId (some now) })
  else (.error (.missingShardLog shardId), consensus)

/-! ## What opening returns -/

/-- A group that has been opened: it follows, or the routing table has made it the
leader of the term its file names, or of term 1 if the file names none. -/
structure OpenedGroup (serverId : Nat) (table : ShardRoutingTable) (shardId : Nat)
    (store : RaftPersistentStateStore) (group : RaftCore C) : Prop where
  server_eq : group.serverId = serverId
  placed : ∃ placement persistent, table.placement shardId = some placement ∧
    store.load = .ok persistent ∧ group.membership = .ofVoters (votersOf placement) ∧
    (group.role = .follower ∨
      placement.primaryServerId = some serverId ∧ group.role = .leader ∧
        (persistent.currentTerm = 0 ∨ group.currentTerm = persistent.currentTerm))

theorem becomeLeader_fields (group : RaftCore C) (now : Nat) :
    (group.becomeLeader now).serverId = group.serverId ∧
      (group.becomeLeader now).membership = group.membership ∧
      (group.becomeLeader now).role = .leader ∧
      (group.becomeLeader now).currentTerm = group.currentTerm := by
  obtain ⟨deadline, heq⟩ := group.exists_becomeLeader_eq now
  rw [heq]
  exact ⟨rfl, rfl, rfl, rfl⟩

variable {group : RaftCore C} {now server shard : Nat} {table : ShardRoutingTable}
  {files : ConsensusFiles C} {stores stores' : Nat → RaftPersistentStateStore}
  {store : RaftPersistentStateStore} {logs : List (SegmentedShardLog C)}
  {groups : List (RaftCore C)}

theorem promotePrimary_ok {group' : RaftCore C}
    (h : promotePrimary group now = (.ok group', store)) :
    group'.serverId = group.serverId ∧ group'.membership = group.membership ∧
      group'.role = .leader ∧ (group.currentTerm = 0 ∨ group'.currentTerm = group.currentTerm) := by
  unfold promotePrimary at h
  split at h
  · rename_i hzero
    obtain ⟨store', hstart, -⟩ := group.startElection_cases
    split at h
    · cases h
    · rename_i req started heq
      cases h
      obtain ⟨hid, hmembers, hrole, -⟩ := becomeLeader_fields started now
      obtain rfl : started = _ := (congrArg Prod.snd heq).symm.trans hstart
      exact ⟨hid, hmembers, hrole, .inl hzero⟩
  · cases h
    obtain ⟨hid, hmembers, hrole, hterm⟩ := becomeLeader_fields group now
    exact ⟨hid, hmembers, hrole, .inr hterm⟩

theorem openGroup_opened {log : SegmentedShardLog C} {store' : RaftPersistentStateStore}
    (h : openGroup server table files now shard log store = (.ok group, store')) :
    OpenedGroup server table shard store group := by
  unfold openGroup at h
  split at h
  · cases h
  · rename_i place hplace
    split at h
    · cases h
    · rename_i membership hmemb
      split at h
      · cases h
      · rename_i opened hopen
        have hopened := RaftCore.openWithLogAndSnapshot_opened hopen
        have hvoters : membership = .ofVoters (votersOf place) := by
          unfold RaftMembership.new at hmemb
          split at hmemb
          · cases hmemb
          · exact (Except.ok.inj hmemb).symm
        split at h
        · rename_i hprim
          obtain ⟨hid, hmembers, hrole, hterm⟩ := promotePrimary_ok h
          refine ⟨hid.trans hopened.serverId, place, opened.persistent, hplace,
            hopened.persistent, ?_, .inr ⟨hprim, hrole, hterm⟩⟩
          rw [hmembers, hopened.membership, hvoters]
        · cases h
          refine ⟨hopened.serverId, place, _, hplace, hopened.persistent, ?_, .inl hopened.role⟩
          rw [hopened.membership, hvoters]

section

variable (h : openGroups server table files now shard logs stores = (.ok groups, stores'))

include h

/-- Every group of an open is opened from its own shard's state file as it was before. -/
theorem openGroups_opened {i : Nat} (hgroup : groups[i]? = some group) :
    i < logs.length ∧ OpenedGroup server table (shard + i) (stores (shard + i)) group := by
  induction logs generalizing shard stores groups i with
  | nil =>
    cases h
    simp at hgroup
  | cons log logs ih =>
    unfold openGroups at h
    split at h
    · cases h
    · rename_i first store hfirst
      split at h
      · cases h
      · rename_i rest stores'' hrest
        cases h
        cases i with
        | zero =>
          cases hgroup
          exact ⟨Nat.zero_lt_succ _, openGroup_opened hfirst⟩
        | succ =>
          obtain ⟨hlen, hopened⟩ := ih hrest hgroup
          rw [Nat.add_right_comm, update_of_ne (by omega)] at hopened
          exact ⟨Nat.succ_lt_succ hlen, hopened⟩

theorem openGroups_length : groups.length = logs.length := by
  induction logs generalizing shard stores groups with
  | nil =>
    cases h
    rfl
  | cons log logs ih =>
    unfold openGroups at h
    split at h
    · cases h
    · split at h
      · cases h
      · rename_i rest stores'' hrest
        cases h
        exact congrArg (· + 1) (ih hrest)

end

theorem openAll_opened {consensus : RaftShardConsensus C}
    (h : openAll server table files now stores = (.ok consensus, stores'))
    (hgroup : consensus.groups[shard]? = some group) : shard < files.logs.length ∧
      OpenedGroup server table shard (stores shard) group := by
  unfold openAll at h
  split at h
  · cases h
  · rename_i groups stores'' heq
    cases h
    have hopened := openGroups_opened heq hgroup
    rwa [Nat.zero_add] at hopened

end RaftShardConsensus

end Neo4r.Db
