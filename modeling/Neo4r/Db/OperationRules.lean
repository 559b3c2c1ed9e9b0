/-
  `Db.OperationRules`: what the operations of a server leave as it is.

  One rule for each operation: it respects a preorder between databases if its parts do.
  Most of the parts change only what has to do with the cluster; a relation that ignores
  this is respected by them all.
-/
import Neo4r.Db.Database

set_option autoImplicit false

namespace Neo4r.Db

open Foundation Raft Storage
open Fallible (Respects run_bind run_lookup run_current)

variable {C G R : Type} {consensus : RaftShardConsensus C}

/-- What a group shows of itself is as before. -/
theorem RaftShardConsensus.map_groups_setGroup {β : Type} {target : Nat} {group group' : RaftCore C}
    (f : RaftCore C → β) (hgroup : consensus.groups[target]? = some group)
    (hsame : f group' = f group) (shard : Nat) :
    (consensus.setGroup target group').groups[shard]?.map f = consensus.groups[shard]?.map f := by
  rw [setGroup, List.getElem?_set]
  by_cases heq : target = shard
  · subst heq
    rw [if_pos rfl, if_pos (List.getElem?_eq_some_iff.mp hgroup).1, hgroup, Option.map_some,
      Option.map_some, hsame]
  · rw [if_neg heq]

namespace Database

variable {engine : GraphEngine C G} {replicator : ShardReplicator C R} {entry : LogEntry C}
  {entries : List (LogEntry C)} {outcome : ReplicationOutcome} {cmd : C} {shardId : Nat}
  {r : Database C G R → Database C G R → Prop} {α : Type}

theorem of_ofShard_ok {vector : Database C G R → Nat → α} {db : Database C G R} {a : α}
    (h : ofShard vector shardId db = .ok a) : shardId < db.shardCount ∧ a = vector db shardId := by
  unfold ofShard at h
  split at h
  · rename_i hlt
    exact ⟨hlt, (Except.ok.inj h).symm⟩
  · cases h

/-! ## The groups -/

section Groups

variable [IsPreorder (Database C G R) r]

/-- A call on a group of the server. -/
theorem onGroup_respects {db : Database C G R}
    {f : RaftCore C → Except DatabaseError α × RaftCore C}
    (h : ∀ group, consensus.groups[shardId]? = some group →
      r db { db with raftGroups := some (consensus.setGroup shardId (f group).2) }) :
    r db ((onGroup consensus shardId f).run db).2 := by
  rw [onGroup, run_bind, run_lookup, RaftShardConsensus.group]
  cases hgroup : consensus.groups[shardId]? with
  | none => exact refl db
  | some group => exact h group hgroup

theorem appendEntryToLocalRaft_respects
    (h : ∀ {db consensus group}, db.raftGroups = some consensus →
      consensus.groups[entry.shardId]? = some group → r db { db with
        raftGroups :=
          some (consensus.setGroup entry.shardId (group.appendExistingLocalEntry entry).2) }) :
    Respects r (appendEntryToLocalRaft entry) := by
  intro db
  rw [appendEntryToLocalRaft, run_bind, run_current]
  dsimp only
  cases hraft : db.raftGroups with
  | none => exact refl db
  | some =>
    have hcall := onGroup_respects (f := fun group => group.appendExistingLocalEntry entry)
      fun group => h hraft
    rw [run_bind]
    split <;> next heq => rwa [heq] at hcall

theorem observeRaftReplicationOutcome_respects
    (h : ∀ {db consensus group}, db.raftGroups = some consensus →
      consensus.groups[entry.shardId]? = some group → r db { db with
        raftGroups := some (consensus.setGroup entry.shardId
          (recordMatches db.instant (raftMatches entry outcome) group).2) }) :
    Respects r (observeRaftReplicationOutcome entry outcome) := by
  intro db
  rw [observeRaftReplicationOutcome, run_bind, run_current]
  dsimp only
  cases hraft : db.raftGroups with
  | none => exact refl db
  | some =>
    refine onGroup_respects fun group hgroup => ?_
    have hrecord := h hraft hgroup
    split
    · next heq => rwa [heq] at hrecord
    · next heq =>
      rw [heq] at hrecord
      split <;> exact hrecord

end Groups

/-- What an acknowledgement leaves alone in a group. -/
theorem recordMatches_same {β : Type} {f : RaftCore C → β}
    (h : ∀ (group : RaftCore C) server index now,
      f (group.recordReplicationMatch server index now).2 = f group)
    (now : Nat) (acks : List (Nat × Nat)) (group : RaftCore C) :
    f (recordMatches now acks group).2 = f group := by
  induction acks generalizing group with
  | nil => rfl
  | cons ack acks ih =>
    have hsame := h group ack.1 ack.2 now
    rw [recordMatches]
    split
    · next heq => rwa [heq] at hsame
    · next group' heq =>
      rw [heq] at hsame
      exact (ih group').trans hsame

/-! ## What concerns the cluster only -/

/-- The relation ignores the clock, the replicator, the table and the groups, as long as there
are groups or none. -/
def IgnoresCluster (r : Database C G R → Database C G R → Prop) : Prop :=
  ∀ db clock replicator configEpoch routingTable raftGroups stateStores,
    raftGroups.isSome = db.raftGroups.isSome →
      r db { db with clock, replicator, configEpoch, routingTable, raftGroups, stateStores }

namespace IgnoresCluster

variable (h : IgnoresCluster r)

include h

theorem onReplicator (x : Fallible DatabaseError R α) :
    Respects r (onReplicator x) := fun db => h db _ _ _ _ _ _ rfl

variable [IsPreorder (Database C G R) r]

theorem appendEntryToLocalRaft : Respects r (appendEntryToLocalRaft entry) :=
  appendEntryToLocalRaft_respects fun {db} _ _ hraft _ => h db _ _ _ _ _ _ (by rw [hraft]; rfl)

theorem observeRaftReplicationOutcome :
    Respects r (observeRaftReplicationOutcome entry outcome) :=
  observeRaftReplicationOutcome_respects fun {db} _ _ hraft _ =>
    h db _ _ _ _ _ _ (by rw [hraft]; rfl)

theorem rebuildRaftGroups : Respects r rebuildRaftGroups := by
  intro db
  rw [Database.rebuildRaftGroups, run_bind, run_current]
  dsimp only
  cases hraft : db.raftGroups with
  | none => exact refl db
  | some =>
    dsimp only [withRebuiltGroups]
    split <;> exact h db _ _ _ _ _ _ (by rw [hraft]; rfl)

theorem applyClusterConfigChange (cmd : C) :
    Respects r (applyClusterConfigChange engine replicator cmd) := by
  refine Respects.current.bind fun db => ?_
  split
  · exact Respects.pure ()
  · split
    · exact Respects.pure ()
    · refine (Respects.lookup _).bind fun _ => ?_
      split
      · exact Respects.pure ()
      · refine (h.onReplicator _).bind fun _ => Respects.bind (fun db => ?_) fun _ =>
          h.rebuildRaftGroups
        exact h db _ _ _ _ _ _ rfl

end IgnoresCluster

/-! ## Writes -/

variable [IsPreorder (Database C G R) r]

omit [IsPreorder (Database C G R) r] in
/-- An entry is added to the log of its shard, or nothing happens. -/
theorem appendToLog_ok {shardId : Nat} {entry : LogEntry C} {db db' : Database C G R}
    (h : (appendToLog shardId entry).run db = (.ok (), db')) :
    ∃ log, (db.logs shardId).appendWithSync entry = .ok log ∧
      db' = { db with logs := Function.update db.logs shardId log } := by
  obtain ⟨log, hread, hchange⟩ := Fallible.of_lookup_bind_ok h
  obtain ⟨log', hlog, happend⟩ := of_exceptBind_ok hread
  obtain ⟨-, rfl⟩ := of_ofShard_ok hlog
  cases hchange
  exact ⟨log, happend, rfl⟩

theorem appendToLog_cases (shardId : Nat) (entry : LogEntry C) (db : Database C G R) :
    ((appendToLog shardId entry).run db).2 = db ∨
      ∃ log, log.written = (db.logs shardId).written ++ [entry] ∧
        log.shardId = (db.logs shardId).shardId ∧
        ((appendToLog shardId entry).run db).2 =
          { db with logs := Function.update db.logs shardId log } := by
  rw [appendToLog, run_bind, run_lookup]
  cases happend : (log shardId db).bind fun log => log.appendWithSync entry with
  | error => exact .inl rfl
  | ok log' =>
    obtain ⟨log, hlog, happend⟩ := of_exceptBind_ok happend
    obtain ⟨-, rfl⟩ := of_ofShard_ok hlog
    exact .inr ⟨log', SegmentedShardLog.written_appendWithSync happend,
      SegmentedShardLog.shardId_appendWithSync happend, rfl⟩

/-- The entry is appended if the command passes its checks. -/
theorem appendLocalCommand_respects (htick : Respects r tickClock)
    (hlog : ∀ (db : Database C G R) entry, checkLocalCommand engine shardId cmd db = .ok () →
      entry.shardId = shardId → entry.command = cmd →
        Respects r (appendToLog shardId entry))
    (hraft : ∀ entry, Respects r (appendEntryToLocalRaft entry))
    (hposition : ∀ entry, Respects r (observeLogPosition entry)) :
    Respects r (appendLocalCommand engine shardId cmd) := by
  refine Respects.lookup_bind fun db _ hcheck => ?_
  refine (Respects.lookup _).bind (fun _ => (Respects.lookup _).bind fun _ => ?_) db
  refine htick.bind fun _ => Respects.current.bind fun _ => ?_
  refine (hlog db _ hcheck rfl rfl).bind fun _ => (hraft _).bind fun _ => ?_
  exact (hposition _).bind fun _ => Respects.pure _

section Apply

variable (hstore : ∀ x : Fallible DatabaseError G Unit, Respects r (onStore x : Op C G R Unit))

include hstore

/-- What follows the change of the configuration in `apply_entry`. -/
theorem applyCommand_respects (hobserve : Respects r (observeEntry entry))
    (hsave : Respects r (saveCheckpoint entry)) : Respects r (do
      onStore (engine.apply entry.shardId entry.command)
      onStore (engine.updateVectorIndexes entry.command)
      observeEntry entry
      onStore engine.refreshStatistics
      let db ← Fallible.current
      if db.shouldCheckpoint entry.index then saveCheckpoint entry else pure ()) := by
  refine (hstore _).bind fun _ => (hstore _).bind fun _ => hobserve.bind fun _ => ?_
  refine (hstore _).bind fun _ => Respects.current.bind fun db => ?_
  split
  · exact hsave
  · exact Respects.pure ()

theorem applyEntry_respects
    (hchange : Respects r
      (applyClusterConfigChange engine replicator entry.command))
    (hobserve : Respects r (observeEntry entry))
    (hsave : Respects r (saveCheckpoint entry)) :
    Respects r (applyEntry engine replicator entry) :=
  hchange.bind fun _ => applyCommand_respects hstore hobserve hsave

theorem applyEntriesBatch_respects
    (hchange : ∀ entry ∈ entries, Respects r
      (applyClusterConfigChange engine replicator entry.command))
    (hobserve : ∀ entry ∈ entries, Respects r (observeEntry entry))
    (hsave : ∀ entry, Respects r (saveCheckpoint entry)) :
    Respects r (applyEntriesBatch engine replicator entries) := by
  unfold applyEntriesBatch
  split
  · exact Respects.pure ()
  · refine (Respects.forEach hchange).bind fun _ => (hstore _).bind fun _ => ?_
    refine (Respects.forEach fun entry hmem => (hstore _).bind fun _ => hobserve entry hmem).bind
      fun _ => (hstore _).bind fun _ => Respects.current.bind fun db => ?_
    exact Respects.forEach fun entry _ => hsave entry

end Apply

end Database

end Neo4r.Db
