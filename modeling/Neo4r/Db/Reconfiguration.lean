/-
  `Db.Reconfiguration`: how a leader moves to a new routing table
  (`install_routing_table` in `neo4r-db/src/database/db_cluster.rs`).

  The call writes three entries, `enter_joint`, `install` and `finalize_joint`.  Between the
  first two the groups of the leader enter joint consensus.  Applying the second one opens
  all groups anew from the new table, and the third is written by these.  The call is a
  script here, so that the groups can be looked at wherever it passes.
-/
import Neo4r.Db.UniqueConstraint
import Neo4r.Foundation.Script

set_option autoImplicit false

namespace Neo4r.Db

open Foundation Raft Storage RaftShardConsensus Script RaftMembership List
open Fallible (Respects Preserves run_bind_of_ok of_bind_ok of_lookup_bind_ok run_bind run_lookup
  run_current)

/-! ## The groups -/

namespace RaftShardConsensus

variable {C : Type}

/-- The loop of `begin_joint_consensus_for_routing`. -/
def beginJointConsensusFor : List ShardPlacement → RaftShardConsensus C →
    Except DatabaseError Unit × RaftShardConsensus C
  | [], consensus => (.ok (), consensus)
  | placement :: placements, consensus => match consensus.groups[placement.shardId]? with
    | none => beginJointConsensusFor placements consensus
    | some group => match group.beginJointConsensus (votersOf placement) with
      | (.error err, group) => (.error err, consensus.setGroup placement.shardId group)
      | (.ok (), group) =>
        beginJointConsensusFor placements (consensus.setGroup placement.shardId group)

/-- The loop of `finalize_joint_consensus_for_routing`. -/
def finalizeJointConsensusFor (placements : List ShardPlacement)
    (consensus : RaftShardConsensus C) : RaftShardConsensus C :=
  placements.foldl (fun consensus placement => match consensus.groups[placement.shardId]? with
    | none => consensus
    | some group => consensus.setGroup placement.shardId group.finalizeJointConsensus) consensus

end RaftShardConsensus

namespace Database

variable {R : Type}

/-- `begin_joint_consensus_for_routing`. -/
def beginJointConsensusForRouting (table : ShardRoutingTable) : Op Command IndexedGraph R Unit :=
  ⟨fun db => match db.raftGroups with
    | none => (.ok (), db)
    | some consensus =>
      let (result, consensus) := consensus.beginJointConsensusFor table.placements
      (result, { db with raftGroups := some consensus })⟩

/-- `finalize_joint_consensus_for_routing`. -/
def finalizeJointConsensusForRouting (table : ShardRoutingTable) :
    Op Command IndexedGraph R Unit :=
  Fallible.change fun db => { db with
    raftGroups := db.raftGroups.map (·.finalizeJointConsensusFor table.placements) }

/-! ## The call -/

/-- The command of a phase. -/
def configChangePhase (phase description : String) (table : ShardRoutingTable) : Command :=
  .clusterConfigChange phase s!"{description}:version={table.version}"
    ((table.placements.flatMap fun placement =>
      placement.replicas.map (·.serverId)).dedup.insertionSort (· ≤ ·)) table

variable (replicator : ShardReplicator Command R)

/-- `append_replicated_config_change_phase`. -/
def appendReplicatedConfigChangePhase
    (phase description : String) (table : ShardRoutingTable) : Op Command IndexedGraph R Unit := do
  let db ← Fallible.current
  if db.raftGroups.isNone then pure ()
  else writeCommand graphEngine replicator 0 (configChangePhase phase description table)

/-- The checks at the start of `install_routing_table`; `authorityServerId` is in the cluster
metadata. -/
def checkNewTable (authorityServerId : Nat) (table : ShardRoutingTable)
    (db : Database Command IndexedGraph R) : Except DatabaseError Unit := do
  if authorityServerId ≠ db.config.serverId then
    let serverId := db.config.serverId
    .error (.invalidConfig (s!"server {serverId} is not metadata authority {authorityServerId}; " ++
      "forward cluster metadata changes to the authority"))
  validateRoutingTable table db.shardCount
  if table.version ≤ db.routingTable.version then
    let version := db.routingTable.version
    .error (.invalidConfig
      s!"routing table version must increase from {version} to a greater version")

/-- The fields that `install_routing_table` sets between the entries. -/
def setRoutingTable (table : ShardRoutingTable) : Op Command IndexedGraph R Unit :=
  Fallible.change fun db => { db with configEpoch := table.version, routingTable := table }

/-- `install_routing_table`, called on the metadata authority. -/
def installRoutingTableAsAuthority
    (authorityServerId : Nat) (table : ShardRoutingTable) : Op Command IndexedGraph R Unit := do
  Fallible.lookup (checkNewTable authorityServerId table)
  appendReplicatedConfigChangePhase replicator "enter_joint" "install_routing_table" table
  beginJointConsensusForRouting table
  appendReplicatedConfigChangePhase replicator "install" "install_routing_table" table
  onReplicator (replicator.installRoutingTable table)
  setRoutingTable table
  rebuildRaftGroups
  appendReplicatedConfigChangePhase replicator "finalize_joint" "install_routing_table" table
  finalizeJointConsensusForRouting table

/-- The part of a phase up to the quorum for its entry, and what comes then. -/
def replicateScript (phase : String)
    (table : ShardRoutingTable)
    (next : Option (LogEntry Command) → Script DatabaseError (Database Command IndexedGraph R)) :
    Script DatabaseError (Database Command IndexedGraph R) :=
  .step Fallible.current fun db =>
    if db.raftGroups.isNone then next none
    else .step (appendLocalCommand graphEngine 0
        (configChangePhase phase "install_routing_table" table)) fun entry =>
      .step (onReplicator (replicator.publish entry)) fun outcome =>
      .step (observeReplicationOutcome entry outcome) fun _ =>
      .step (observeRaftReplicationOutcome entry outcome) fun _ => next (some entry)

/-- The commit of the entry of a phase, and what comes then. -/
def commitScript
    (next : Script DatabaseError (Database Command IndexedGraph R)) :
    Option (LogEntry Command) → Script DatabaseError (Database Command IndexedGraph R)
  | none => next
  | some entry =>
    .step (commitEntry entry) fun _ =>
    .step (Fallible.lookup maybeInjectFailureAfterCommitBeforeApply) fun _ =>
    .step (applyEntry graphEngine replicator entry) fun _ => next

/-- The call step by step, up to the quorum for the `finalize_joint` entry. -/
def installScript (authorityServerId : Nat)
    (table : ShardRoutingTable)
    (finish : Option (LogEntry Command) → Script DatabaseError (Database Command IndexedGraph R)) :
    Script DatabaseError (Database Command IndexedGraph R) :=
  .step (Fallible.lookup (checkNewTable authorityServerId table)) fun _ =>
  replicateScript replicator "enter_joint" table <| commitScript replicator <|
  .step (beginJointConsensusForRouting table) fun _ =>
  replicateScript replicator "install" table <| commitScript replicator <|
  .step (onReplicator (replicator.installRoutingTable table)) fun _ =>
  .step (setRoutingTable table) fun _ =>
  .step rebuildRaftGroups fun _ =>
  replicateScript replicator "finalize_joint" table finish

/-- A phase is its script. -/
theorem run_phase (phase : String)
    (table : ShardRoutingTable) (next : Script DatabaseError (GraphCore R)) :
    (replicateScript replicator phase table (commitScript replicator next)).run =
      appendReplicatedConfigChangePhase replicator phase "install_routing_table" table >>=
        fun _ => next.run := by
  rw [replicateScript, run, appendReplicatedConfigChangePhase, bind_assoc]
  refine bind_congr fun db => ?_
  split
  · rfl
  · simp only [writeCommand, bind_assoc]
    rfl

/-- The call is its script. -/
theorem run_installScript (authorityServerId : Nat) (table : ShardRoutingTable) :
    (installScript replicator authorityServerId table (commitScript replicator
      (.step (finalizeJointConsensusForRouting table) fun _ => .done))).run =
        installRoutingTableAsAuthority replicator authorityServerId table := by
  simp only [installScript, installRoutingTableAsAuthority, run, run_phase]
  rfl

/-! ## Memberships -/

/-- The membership of the group of a shard. -/
def membershipOf (shardId : Nat) (db : Database Command IndexedGraph R) : Option RaftMembership :=
  db.raftGroups.bind fun consensus => consensus.groups[shardId]?.map (·.membership)

variable {shardId : Nat} {consensus : RaftShardConsensus Command}

/-- A group that keeps its membership. -/
theorem setGroup_membershipOf {db : GraphCore R} {target : Nat} {group group' : RaftCore Command}
    (hcons : db.raftGroups = some consensus) (hgroup : consensus.groups[target]? = some group)
    (hsame : group'.membership = group.membership) :
    membershipOf shardId { db with raftGroups := some (consensus.setGroup target group') } =
      membershipOf shardId db := by
  change Option.map _ _ = _
  rw [map_groups_setGroup _ hgroup hsame, membershipOf, hcons, Option.bind_some]

variable (entry : LogEntry Command) {table : ShardRoutingTable}

theorem appendEntryToLocalRaft_membershipOf : Preserves (membershipOf shardId)
      (appendEntryToLocalRaft entry : CoreOp R Unit) :=
  appendEntryToLocalRaft_respects
    (r := fun db db' => membershipOf shardId db' = membershipOf shardId db)
    fun hcons hgroup => setGroup_membershipOf hcons hgroup
      (RaftCore.appendExistingLocalEntry_sameVotes _ entry).membership

theorem observeRaftReplicationOutcome_membershipOf (outcome : ReplicationOutcome) :
    Preserves (membershipOf shardId)
      (observeRaftReplicationOutcome entry outcome : CoreOp R Unit) :=
  observeRaftReplicationOutcome_respects
    (r := fun db db' => membershipOf shardId db' = membershipOf shardId db)
    fun hcons hgroup => setGroup_membershipOf hcons hgroup
      (recordMatches_same (f := RaftCore.membership) (fun group server index now =>
        (group.recordReplicationMatch_sameVotes server index now).membership) _ _ _)

theorem appendLocalCommand_membershipOf (target : Nat) (cmd : Command) :
    Preserves (membershipOf shardId)
      (appendLocalCommand graphEngine target cmd : CoreOp R (LogEntry Command)) :=
  appendLocalCommand_respects
    (r := fun db db' => membershipOf shardId db' = membershipOf shardId db)
    (fun _ => rfl) (fun _ _ _ _ _ => (Preserves.lookup _).bind fun _ _ => rfl)
    appendEntryToLocalRaft_membershipOf fun _ _ => rfl

theorem observeReplicationOutcome_membershipOf (outcome : ReplicationOutcome) :
    Preserves (membershipOf shardId)
      (observeReplicationOutcome entry outcome : CoreOp R Unit) :=
  (Preserves.lookup _).bind fun _ _ => rfl

theorem commitEntry_membershipOf : Preserves (membershipOf shardId)
      (commitEntry entry : CoreOp R Unit) :=
  (Preserves.lookup _).bind fun _ => Preserves.bind (fun _ => rfl) fun _ _ => rfl

/-- Opening the groups anew gives a shard the voters of its placement, or fails and changes no
membership. -/
theorem rebuildRaftGroups_membershipOf (db : GraphCore R) :
    membershipOf shardId (rebuildRaftGroups.run db).2 =
        membershipOf shardId db ∨
      ∀ membership, membershipOf shardId
          ((rebuildRaftGroups : CoreOp R Unit).run db).2 = some membership →
        ∃ place, db.routingTable.placement shardId = some place ∧
          membership = .ofVoters (votersOf place) := by
  rw [rebuildRaftGroups, run_bind, run_current]
  dsimp only
  cases hgroups : db.raftGroups with
  | none => exact .inl rfl
  | some =>
    unfold withRebuiltGroups
    dsimp only
    split
    · next rebuilt stores heq =>
      refine .inr fun membership hmemb => ?_
      obtain ⟨group, hgroup, rfl⟩ := Option.map_eq_some_iff.mp hmemb
      obtain ⟨-, hopened⟩ := openAll_opened heq hgroup
      obtain ⟨place, -, hplace, -, hvoters, -⟩ := hopened.placed
      exact ⟨place, hplace, hvoters⟩
    · next err stores heq =>
      refine .inl ?_
      rw [membershipOf, membershipOf, hgroups]
      simp only [Option.bind_some, withStores, getElem?_mapIdx, Option.map_map]
      rfl

/-- A group enters joint consensus if it is not in it and there are voters. -/
theorem beginJointConsensus_cases (group : RaftCore Command) (voters : Finset Nat) :
    (∃ err, (group.beginJointConsensus voters).1 = .error err) ∧
        (group.beginJointConsensus voters).2.membership = group.membership ∨
      (group.beginJointConsensus voters).1 = .ok () ∧ group.membership.outgoingVoters = none ∧
        (group.beginJointConsensus voters).2.membership =
          ⟨voters, some group.membership.voters, group.membership.learners⟩ := by
  unfold RaftCore.beginJointConsensus
  split
  · exact .inl ⟨⟨_, rfl⟩, rfl⟩
  · next hjoint =>
    have hnone : group.membership.outgoingVoters = none := by
      rwa [isJoint, Bool.not_eq_true, Option.isSome_eq_false_iff,
        Option.isNone_iff_eq_none] at hjoint
    by_cases hempty : voters = ∅
    · rw [enterJoint, if_pos hempty]
      exact .inl ⟨⟨_, rfl⟩, rfl⟩
    · rw [enterJoint, if_neg hempty]
      exact .inr ⟨rfl, hnone, rfl⟩

/-- The joint membership keeps the voters it leaves. -/
def EntersJoint (before after : Option RaftMembership) : Prop :=
  after = before ∨ ∃ membership voters, before = some membership ∧
    membership.outgoingVoters = none ∧
      after = some ⟨voters, some membership.voters, membership.learners⟩

theorem EntersJoint.trans {a b c : Option RaftMembership} (h : EntersJoint a b)
    (h' : EntersJoint b c) : EntersJoint a c := by
  rcases h with rfl | ⟨membership, voters, ha, hnone, rfl⟩
  · exact h'
  · rcases h' with rfl | ⟨joint, voters', hjoint, hnone', -⟩
    · exact .inr ⟨membership, voters, ha, hnone, rfl⟩
    · cases hjoint
      cases hnone'

theorem setGroup_entersJoint {target : Nat} {group : RaftCore Command}
    (hgroup : consensus.groups[target]? = some group) (voters : Finset Nat) :
    EntersJoint (consensus.groups[shardId]?.map (·.membership))
      ((consensus.setGroup target (group.beginJointConsensus voters).2).groups[shardId]?.map
        (·.membership)) := by
  rcases beginJointConsensus_cases group voters with ⟨-, hsame⟩ | ⟨-, hnone, hjoint⟩
  · exact .inl (map_groups_setGroup _ hgroup hsame shardId)
  · by_cases heq : target = shardId
    · subst heq
      have hlt := (List.getElem?_eq_some_iff.mp hgroup).1
      refine .inr ⟨group.membership, voters, by rw [hgroup, Option.map_some], hnone, ?_⟩
      rw [setGroup, getElem?_set_self hlt, Option.map_some, hjoint]
    · refine .inl ?_
      rw [setGroup, getElem?_set_ne heq]

theorem beginJointConsensusFor_entersJoint (placements : List ShardPlacement)
    (consensus : RaftShardConsensus Command) :
    EntersJoint (consensus.groups[shardId]?.map (·.membership))
      ((consensus.beginJointConsensusFor placements).2.groups[shardId]?.map (·.membership)) := by
  induction placements generalizing consensus with
  | nil => exact .inl rfl
  | cons place placements ih =>
    rw [beginJointConsensusFor]
    cases hgroup : consensus.groups[place.shardId]? with
    | none => exact ih consensus
    | some group =>
      have hfirst := @setGroup_entersJoint shardId consensus _ group hgroup (votersOf place)
      dsimp only
      split
      · next err group' heq =>
        rw [heq] at hfirst
        exact hfirst
      · next group' heq =>
        rw [heq] at hfirst
        exact hfirst.trans (ih _)

/-- Where the loop succeeds no group that it has met was in joint consensus. -/
theorem beginJointConsensusFor_ok {placements : List ShardPlacement}
    {consensus' : RaftShardConsensus Command}
    (h : consensus.beginJointConsensusFor placements = (.ok (), consensus')) :
    ∀ place ∈ placements, ∀ membership,
      consensus.groups[place.shardId]?.map (·.membership) = some membership →
        membership.outgoingVoters = none := by
  induction placements generalizing consensus with
  | nil => exact forall_mem_nil _
  | cons first placements ih =>
    rw [beginJointConsensusFor] at h
    cases hgroup : consensus.groups[first.shardId]? with
    | none =>
      rw [hgroup] at h
      refine forall_mem_cons.mpr ⟨fun membership hnone => ?_, ih h⟩
      rw [hgroup] at hnone
      cases hnone
    | some group =>
      rw [hgroup] at h
      dsimp only at h
      have hcases := beginJointConsensus_cases group (votersOf first)
      split at h
      · cases h
      · next group' heq =>
        rw [heq] at hcases
        rcases hcases with ⟨⟨err, herr⟩, -⟩ | ⟨-, hnone, hjoint⟩
        · cases herr
        · refine forall_mem_cons.mpr ⟨fun membership hmemb => ?_,
            fun place hmem membership hmemb => ?_⟩
          · rw [hgroup] at hmemb
            cases hmemb
            exact hnone
          · by_cases hshard : place.shardId = first.shardId
            · rw [hshard, hgroup] at hmemb
              cases hmemb
              exact hnone
            · refine ih h place hmem membership ?_
              rw [setGroup, getElem?_set_ne (Ne.symm hshard)]
              exact hmemb

theorem beginJointConsensusForRouting_entersJoint (table : ShardRoutingTable) (db : GraphCore R) :
    EntersJoint (membershipOf shardId db)
      (membershipOf shardId ((beginJointConsensusForRouting table).run db).2) := by
  unfold beginJointConsensusForRouting
  dsimp only
  cases hgroups : db.raftGroups with
  | none => exact .inl rfl
  | some consensus =>
    rw [membershipOf, hgroups]
    exact beginJointConsensusFor_entersJoint table.placements consensus

/-- The membership is as before, or the table has given it. -/
def FollowsTable (table : ShardRoutingTable) (shardId : Nat)
    (db db' : Database Command IndexedGraph R) : Prop :=
  membershipOf shardId db' = membershipOf shardId db ∨
    ∀ membership, membershipOf shardId db' = some membership →
      ∃ placement, table.placement shardId = some placement ∧
        membership = .ofVoters (votersOf placement)

theorem applyClusterConfigChange_followsTable (replicator : ShardReplicator Command R)
    (phase : String) (table : ShardRoutingTable) :
    Respects (FollowsTable table shardId) (applyClusterConfigChange graphEngine replicator
      (configChangePhase phase "install_routing_table" table)) := by
  intro db
  change FollowsTable table shardId db ((if phase ≠ "install" ∨
    table.version < db.routingTable.version then pure () else _ :
      CoreOp R Unit).run db).2
  split
  · exact .inl rfl
  · rw [run_bind, run_lookup]
    cases validateRoutingTable table db.shardCount with
    | error => exact .inl rfl
    | ok =>
      dsimp only
      split
      · exact .inl rfl
      · rw [installRoutingTable, run_bind]
        rcases hinst : (onReplicator (replicator.installRoutingTable table) :
            CoreOp R Unit).run db with ⟨result, t⟩
        have ht : membershipOf shardId t = membershipOf shardId db := by
          rw [← (Prod.mk.inj hinst).2]
          rfl
        cases result with
        | error => exact .inl ht
        | ok =>
          rcases @rebuildRaftGroups_membershipOf R shardId
            { t with configEpoch := table.version, routingTable := table } with
            hsame | hopened
          · exact .inl (hsame.trans ht)
          · exact .inr hopened

theorem applyEntry_followsTable (replicator : ShardReplicator Command R) {phase : String}
    {entry : LogEntry Command}
    (hcmd : entry.command = configChangePhase phase "install_routing_table" table) :
    Respects (FollowsTable table shardId)
      (applyEntry graphEngine replicator entry : CoreOp R Unit) := by
  have hchange := @applyClusterConfigChange_followsTable R shardId replicator phase table
  rw [← hcmd] at hchange
  refine Respects.bind_of (S := fun t u => membershipOf shardId u = membershipOf shardId t)
    (fun _ _ h => h) (fun s t u h h' => ?_) hchange fun _ =>
      applyCommand_respects (fun _ _ => rfl) (fun _ => rfl) fun _ => rfl
  -- what follows the change of the table leaves the groups alone
  unfold FollowsTable at h ⊢
  rwa [h']

/-! ## Wherever the call passes -/

/-- The membership of the group, if there is one, has the property. -/
def Guarded (shardId : Nat) (Q : RaftMembership → Prop) (db : Database Command IndexedGraph R) :
    Prop :=
  ∀ membership, membershipOf shardId db = some membership → Q membership

variable {shard : Nat} {Q : RaftMembership → Prop} {repl : ShardReplicator Command R}
  {table : ShardRoutingTable}

theorem Guarded.of_preserves {α : Type} {x : CoreOp R α} (hx : Preserves (membershipOf shard) x)
    (db : GraphCore R) (h : Guarded shard Q db) : Guarded shard Q (x.run db).2 :=
  fun membership hmemb => h membership ((hx db).symm.trans hmemb)

variable {db db' : GraphCore R} {phase : String}
  {next : Option (LogEntry Command) → Script DatabaseError (GraphCore R)} {authorityServerId : Nat}

theorem Guarded.of_followsTable
    (htable : ∀ place, table.placement shard = some place → Q (.ofVoters (votersOf place)))
    (h : Guarded shard Q db) (hfollows : FollowsTable table shard db db') :
    Guarded shard Q db' := by
  intro membership hmemb
  rcases hfollows with hsame | hopened
  · exact h membership (hsame.symm.trans hmemb)
  · obtain ⟨place, hplace, rfl⟩ := hopened membership hmemb
    exact htable place hplace

theorem Guarded.of_entersJoint
    (hjoint : ∀ (membership : RaftMembership) voters, membership.outgoingVoters = none →
      Q membership → Q ⟨voters, some membership.voters, membership.learners⟩)
    (h : Guarded shard Q db)
    (henters : EntersJoint (membershipOf shard db) (membershipOf shard db')) :
    Guarded shard Q db' := by
  intro membership hmemb
  rcases henters with hsame | ⟨before, voters, hbefore, hnone, hafter⟩
  · exact h membership (hsame.symm.trans hmemb)
  · cases hafter.symm.trans hmemb
    exact hjoint before voters hnone (h before hbefore)

/-- The entry of a phase has its command. -/
def OfPhase (phase : String) (table : ShardRoutingTable) (entry : Option (LogEntry Command)) :
    Prop :=
  ∀ e, entry = some e → e.command = configChangePhase phase "install_routing_table" table

theorem replicateScript_keeps
    (hnext : ∀ entry, OfPhase phase table entry → Keeps (Guarded shard Q) (next entry)) :
    Keeps (Guarded shard Q) (replicateScript repl phase table next) := by
  refine keeps_step (fun db h => h) fun current => ?_
  split
  · exact hnext none fun _ heq => by cases heq
  · intro db h
    refine forall_visits_step h
      (h.of_preserves (appendLocalCommand_membershipOf _ _) db) fun entry t hrun => ?_
    have ht : Guarded shard Q t := by
      have ht := h.of_preserves (appendLocalCommand_membershipOf 0
        (configChangePhase phase "install_routing_table" table)) db
      rwa [hrun] at ht
    have hcmd := (appendLocalCommand_ok hrun).2.2.2.2.1
    refine keeps_step (Guarded.of_preserves fun _ => rfl) (fun outcome => ?_) t ht
    refine keeps_step
      (Guarded.of_preserves (observeReplicationOutcome_membershipOf _ _)) fun _ => ?_
    refine keeps_step
      (Guarded.of_preserves (observeRaftReplicationOutcome_membershipOf _ _)) fun _ => ?_
    exact hnext (some entry) fun e heq => Option.some.inj heq ▸ hcmd

theorem commitScript_keeps {next : Script DatabaseError (GraphCore R)}
    (htable : ∀ place, table.placement shard = some place → Q (.ofVoters (votersOf place)))
    (hnext : Keeps (Guarded shard Q) next) (entry : Option (LogEntry Command))
    (hentry : OfPhase phase table entry) :
    Keeps (Guarded shard Q) (commitScript repl next entry) := by
  cases entry with
  | none => exact hnext
  | some entry =>
    refine keeps_step (Guarded.of_preserves (commitEntry_membershipOf _)) fun _ => ?_
    refine keeps_step (fun db h => h) fun _ => ?_
    refine keeps_step (fun db h => ?_) fun _ => hnext
    exact h.of_followsTable htable (applyEntry_followsTable repl (hentry entry rfl) db)

/-- What joint consensus keeps and the table gives holds wherever the call passes. -/
theorem installScript_keeps
    (hjoint : ∀ (membership : RaftMembership) voters, membership.outgoingVoters = none →
      Q membership → Q ⟨voters, some membership.voters, membership.learners⟩)
    (htable : ∀ place, table.placement shard = some place → Q (.ofVoters (votersOf place))) :
    Keeps (Guarded shard Q) (installScript repl authorityServerId table fun _ => .done) := by
  refine keeps_step (fun db h => h) fun _ => ?_
  refine replicateScript_keeps (commitScript_keeps htable ?_)
  refine keeps_step (fun db h => ?_) fun _ => ?_
  · exact h.of_entersJoint hjoint (beginJointConsensusForRouting_entersJoint table db)
  refine replicateScript_keeps (commitScript_keeps htable ?_)
  refine keeps_step (Guarded.of_preserves fun _ => rfl) fun _ => ?_
  -- the groups are opened from the table that has just been set
  refine fun db h => forall_visits_step h (Guarded.of_preserves (fun _ => rfl) db h)
    fun _ t hset => ?_
  obtain rfl : { db with configEpoch := table.version, routingTable := table } = t :=
    (Prod.mk.inj hset).2
  have hset' : Guarded shard Q { db with configEpoch := table.version, routingTable := table } := h
  have hrebuilt := hset'.of_followsTable htable (rebuildRaftGroups_membershipOf _)
  refine forall_visits_step hset' hrebuilt fun _ t hrun => ?_
  refine replicateScript_keeps (fun _ _ => keeps_done) t ?_
  rwa [hrun] at hrebuilt

/-! ## Where the call ends -/

/-- The number of shards, and whether there are groups. -/
def grouped (db : Database Command IndexedGraph R) : Nat × Bool :=
  (db.shardCount, db.raftGroups.isSome)

variable (repl : ShardReplicator Command R)

theorem ignoresCluster_grouped :
    IgnoresCluster fun db db' : GraphCore R => grouped db' = grouped db :=
  fun _ _ _ _ _ _ _ hgroups => congrArg (Prod.mk _) hgroups

theorem beginJointConsensusForRouting_grouped (table : ShardRoutingTable) :
    Preserves grouped (beginJointConsensusForRouting table : CoreOp R Unit) := by
  intro db
  unfold beginJointConsensusForRouting
  dsimp only
  cases hgroups : db.raftGroups with
  | none => rfl
  | some =>
    change (db.shardCount, true) = (db.shardCount, db.raftGroups.isSome)
    rw [hgroups]
    rfl

/-- A phase respects what the parts of a write respect. -/
theorem appendReplicatedConfigChangePhase_respects {r : GraphCore R → GraphCore R → Prop}
    [IsPreorder (GraphCore R) r] {P : Nat × Command → Prop} {repl : ShardReplicator Command R}
    (h : WriteRules graphEngine repl r P) {phase description : String} {table : ShardRoutingTable}
    (hphase : P (0, configChangePhase phase description table)) :
    Respects r (appendReplicatedConfigChangePhase repl phase description table) := by
  refine Respects.current.bind fun _ => ?_
  split
  · exact Respects.pure ()
  · exact h.writeCommand hphase

theorem writeRules_grouped :
    WriteRules graphEngine repl (fun db db' => grouped db' = grouped db) fun _ => True where
  append _ _ := appendLocalCommand_respects (fun _ => rfl)
    (fun _ _ _ _ _ => (Preserves.lookup _).bind fun _ _ => rfl)
    (fun _ => ignoresCluster_grouped.appendEntryToLocalRaft) fun _ _ => rfl
  onReplicator _ _ := rfl
  observe _ _ := (Preserves.lookup _).bind fun _ _ => rfl
  observeRaft _ _ := ignoresCluster_grouped.observeRaftReplicationOutcome
  setCommitIndex _ _ _ := rfl
  saveCommit _ _ := rfl
  configChange _ _ := ignoresCluster_grouped.applyClusterConfigChange _
  onStore _ _ := rfl
  observeEntry _ _ := rfl
  saveCheckpoint _ _ := rfl

theorem appendReplicatedConfigChangePhase_grouped (phase description : String)
    (table : ShardRoutingTable) : Preserves grouped
      (appendReplicatedConfigChangePhase repl phase description table) :=
  appendReplicatedConfigChangePhase_respects (writeRules_grouped repl) trivial

/-- Groups that have been opened anew have the voters of the table. -/
theorem rebuildRaftGroups_ok (hshard : shard < db.shardCount) (hgroups : db.raftGroups.isSome)
    (h : (rebuildRaftGroups : CoreOp R Unit).run db = (.ok (), db')) :
    ∃ place, db.routingTable.placement shard = some place ∧
      membershipOf shard db' = some (.ofVoters (votersOf place)) := by
  obtain ⟨consensus, hcons⟩ := Option.isSome_iff_exists.mp hgroups
  rw [rebuildRaftGroups, run_bind, run_current] at h
  dsimp only at h
  rw [hcons] at h
  unfold withRebuiltGroups at h
  dsimp only at h
  split at h
  · next rebuilt stores heq =>
    cases h
    have hlen : rebuilt.groups.length = db.shardCount := by
      unfold openAll at heq
      split at heq
      · cases heq
      · next groups stores' hgroups' =>
        cases heq
        rw [openGroups_length hgroups', consensusFiles, length_map, length_range]
    have hgroup := getElem?_eq_getElem (hlen ▸ hshard)
    obtain ⟨-, hopened⟩ := openAll_opened heq hgroup
    obtain ⟨place, -, hplace, -, hvoters, -⟩ := hopened.placed
    refine ⟨place, hplace, ?_⟩
    change rebuilt.groups[shard]?.map _ = _
    rw [hgroup, Option.map_some, hvoters]
  · cases h

/-- A phase that succeeds has found its quorum. -/
theorem replicateScript_ok {repl : ShardReplicator Command R}
    (h : (replicateScript repl phase table next).run.run db = (.ok (), db')) :
    ∃ t, (replicateScript repl phase table fun _ => .done).run.run db = (.ok (), t) := by
  unfold replicateScript at h ⊢
  rw [run] at h ⊢
  obtain ⟨current, t₀, hcur, h₀⟩ := of_bind_ok h
  rw [run_bind_of_ok hcur]
  split at h₀
  · next hnone =>
    rw [if_pos hnone]
    exact ⟨t₀, rfl⟩
  · next hsome =>
    rw [if_neg hsome]
    rw [run] at h₀ ⊢
    obtain ⟨entry, t₁, happend, h₁⟩ := of_bind_ok h₀
    rw [run_bind_of_ok happend]
    rw [run] at h₁ ⊢
    obtain ⟨outcome, t₂, hpublish, h₂⟩ := of_bind_ok h₁
    rw [run_bind_of_ok hpublish]
    rw [run] at h₂ ⊢
    obtain ⟨_, t₃, hobserve, h₃⟩ := of_bind_ok h₂
    rw [run_bind_of_ok hobserve]
    rw [run] at h₃ ⊢
    obtain ⟨_, t₄, hraft, -⟩ := of_bind_ok h₃
    rw [run_bind_of_ok hraft]
    exact ⟨t₄, rfl⟩

/-- The write of a phase that installs nothing. -/
theorem writeRules_membershipOf (hphase : phase ≠ "install") :
    WriteRules graphEngine repl (fun db db' => membershipOf shard db' = membershipOf shard db)
      fun command => command.2 = configChangePhase phase "install_routing_table" table where
  append _ _ := appendLocalCommand_membershipOf _ _
  onReplicator _ _ := rfl
  observe := observeReplicationOutcome_membershipOf
  observeRaft := observeRaftReplicationOutcome_membershipOf
  setCommitIndex _ _ _ := rfl
  saveCommit _ _ := rfl
  configChange _ hcmd db := by
    rw [hcmd, applyClusterConfigChange, run_bind]
    change membershipOf shard ((if phase ≠ "install" ∨
      table.version < db.routingTable.version then pure () else _ :
        CoreOp R Unit).run db).2 = _
    rw [if_pos (.inl hphase)]
    rfl
  onStore _ _ := rfl
  observeEntry _ _ := rfl
  saveCheckpoint _ _ := rfl

theorem phase_membershipOf {repl : ShardReplicator Command R} (hphase : phase ≠ "install") :
    Preserves (membershipOf shard)
      (appendReplicatedConfigChangePhase repl phase "install_routing_table" table) :=
  appendReplicatedConfigChangePhase_respects (writeRules_membershipOf repl hphase) rfl

/-- The quorum of a phase leaves the groups alone. -/
theorem replicateScript_membershipOf (phase : String) (table : ShardRoutingTable) :
    Preserves (membershipOf shard) (replicateScript repl phase table fun _ => .done).run := by
  refine Preserves.current.bind fun db => ?_
  dsimp only
  split
  · exact Preserves.pure ()
  · refine (appendLocalCommand_membershipOf _ _).bind fun entry => ?_
    refine Preserves.bind (fun _ => rfl) fun outcome => ?_
    refine (observeReplicationOutcome_membershipOf _ _).bind fun _ => ?_
    refine (observeRaftReplicationOutcome_membershipOf _ _).bind fun _ => ?_
    exact Preserves.pure ()

/-! ## Safe reconfigurations -/

/-- A set that the group accepts as a quorum has a majority of the old voters and of the
new. -/
def Overlaps (old new : Finset Nat) (membership : RaftMembership) : Prop :=
  ∀ matched, membership.hasQuorum matched = true → HasMajority old matched ∧ HasMajority new matched

/-- The points of the call until the `finalize_joint` entry is committed. -/
def pointsOf (replicator : ShardReplicator Command R) (authorityServerId : Nat)
    (table : ShardRoutingTable) (db : Database Command IndexedGraph R) :
    List (Database Command IndexedGraph R) :=
  (installScript replicator authorityServerId table fun _ => .done).visits db

/-- The two ends of a call that succeeds: the group was not in joint consensus, and when the
`finalize_joint` entry has its quorum it has only the voters of the new table. -/
theorem installRoutingTable_ends {replicator : ShardReplicator Command R} {db db' : GraphCore R}
    {shardId : Nat} {membership : RaftMembership} {place : ShardPlacement}
    (hshard : shardId < db.shardCount) (hmemb : membershipOf shardId db = some membership)
    (hplace : table.placement shardId = some place)
    (hok :
      (installRoutingTableAsAuthority replicator authorityServerId table).run db = (.ok (), db')) :
    membership.outgoingVoters = none ∧ ∃ point ∈ pointsOf replicator authorityServerId table db,
      membershipOf shardId point = some (.ofVoters (votersOf place)) := by
  obtain ⟨_, t₀, hcheck, h₀⟩ := of_bind_ok hok
  obtain ⟨-, rfl⟩ := Fallible.of_lookup_ok hcheck
  obtain ⟨_, t₁, henter, h₁⟩ := of_bind_ok h₀
  obtain ⟨_, t₂, hbegin, h₂⟩ := of_bind_ok h₁
  obtain ⟨_, t₃, hinst, h₃⟩ := of_bind_ok h₂
  obtain ⟨_, t₄, hreplicator, h₄⟩ := of_bind_ok h₃
  obtain ⟨_, t₅, hset, h₅⟩ := of_bind_ok h₄
  obtain ⟨_, t₆, hrebuild, h₆⟩ := of_bind_ok h₅
  obtain ⟨_, t₇, hfinalize, -⟩ := of_bind_ok h₆
  constructor
  · -- the group was not in joint consensus when it was to enter it
    have hentered := ((phase_membershipOf (by decide)).of_run henter).trans hmemb
    obtain ⟨consensus, hcons, hgroup⟩ := Option.bind_eq_some_iff.mp hentered
    unfold beginJointConsensusForRouting at hbegin
    dsimp only at hbegin
    rw [hcons] at hbegin
    have hloop : consensus.beginJointConsensusFor table.placements =
        (.ok (), (consensus.beginJointConsensusFor table.placements).2) :=
      Prod.ext (Prod.mk.inj hbegin).1 rfl
    have hfound : place.shardId = shardId := by
      simpa using find?_some hplace
    refine beginJointConsensusFor_ok hloop place (mem_of_find?_eq_some hplace) membership ?_
    rw [hfound]
    exact hgroup
  · have hgrouped : grouped t₅ = grouped t₀ := by
      have hreplicator' : grouped t₄ = grouped t₃ := by
        rw [← (Prod.mk.inj hreplicator).2]
        rfl
      have hset' : grouped t₅ = grouped t₄ := by
        rw [← (Prod.mk.inj hset).2]
        rfl
      rw [hset', hreplicator', (appendReplicatedConfigChangePhase_grouped _ _ _ _).of_run hinst,
        (beginJointConsensusForRouting_grouped table).of_run hbegin,
        (appendReplicatedConfigChangePhase_grouped _ _ _ _).of_run henter]
    have htable : t₅.routingTable = table := by
      rw [← (Prod.mk.inj hset).2]
    have hgroups : t₀.raftGroups.isSome := by
      obtain ⟨consensus, hcons, -⟩ := Option.bind_eq_some_iff.mp hmemb
      rw [hcons]
      rfl
    obtain ⟨hcount, hsome⟩ := Prod.mk.inj hgrouped
    obtain ⟨found, hfound, hvoters⟩ :=
      rebuildRaftGroups_ok (hcount.symm ▸ hshard) (hsome.trans hgroups) hrebuild
    rw [htable, hplace] at hfound
    cases hfound
    have hphase : (replicateScript replicator "finalize_joint" table
        (commitScript replicator .done)).run.run t₆ = (.ok (), t₇) := by
      rw [run_phase, run_bind_of_ok hfinalize]
      rfl
    obtain ⟨t, ht⟩ := replicateScript_ok hphase
    refine ⟨t, ?_, ((replicateScript_membershipOf _ _ _).of_run ht).trans hvoters⟩
    have hrun : (installScript replicator authorityServerId table fun _ => .done).run.run t₀ =
        (.ok (), t) := by
      simp only [installScript, run, run_phase]
      rw [run_bind_of_ok hcheck, run_bind_of_ok henter,
        run_bind_of_ok hbegin, run_bind_of_ok hinst,
        run_bind_of_ok hreplicator, run_bind_of_ok hset,
        run_bind_of_ok hrebuild]
      exact ht
    have hend := mem_visits_end (installScript replicator authorityServerId table fun _ => .done) t₀
    rw [hrun] at hend
    exact hend

/-- In a call that succeeds, every quorum that the group of a shard accepts until the
`finalize_joint` entry is committed has a majority of the old voters and of the new exactly
if the voters do not change. -/
theorem reconfiguration_safe_iff {replicator : ShardReplicator Command R} {authorityServerId : Nat}
    {table : ShardRoutingTable} {db db' : Database Command IndexedGraph R} {shardId : Nat}
    {membership : RaftMembership} {placement : ShardPlacement} (hshard : shardId < db.shardCount)
    (hmembership : membershipOf shardId db = some membership)
    (hplacement : table.placement shardId = some placement)
    (hok : (installRoutingTableAsAuthority replicator authorityServerId table).run db =
      (.ok (), db')) :
    (∀ point ∈ pointsOf replicator authorityServerId table db, ∀ current,
        membershipOf shardId point = some current →
          Overlaps membership.voters (votersOf placement) current) ↔
      membership.voters = votersOf placement := by
  obtain ⟨hnone, point, hpoint, hlast⟩ := installRoutingTable_ends hshard hmembership hplacement hok
  have hfirst : ∀ matched, membership.hasQuorum matched = true ↔
      HasMajority membership.voters matched := by
    intro matched
    rw [hasQuorum_iff, hnone]
    exact ⟨And.left, fun h => ⟨h, fun _ heq => by cases heq⟩⟩
  constructor
  · intro hall
    refine eq_of_hasMajority_iff fun matched => ⟨fun hmatched => ?_, fun hmatched => ?_⟩
    · exact (hall db (mem_visits_start _ db) membership hmembership matched
        ((hfirst matched).mpr hmatched)).2
    · exact (hall point hpoint _ hlast matched ((hasQuorum_ofVoters _ matched).mpr hmatched)).1
  · intro hsame
    refine installScript_keeps (fun current voters hcurrent hoverlaps matched hquorum => ?_)
      (fun placement' hplacement' matched hquorum => ?_) db fun current hcurrent => ?_
    · -- a quorum of the joint membership is one of the membership it leaves
      refine hoverlaps matched ((hasQuorum_iff current matched).mpr ⟨?_, ?_⟩)
      · exact ((hasQuorum_iff _ matched).mp hquorum).2 _ rfl
      · rw [hcurrent]
        exact fun _ heq => by cases heq
    · cases hplacement.symm.trans hplacement'
      have hmajority := (hasQuorum_ofVoters _ matched).mp hquorum
      exact ⟨hsame ▸ hmajority, hmajority⟩
    · cases hmembership.symm.trans hcurrent
      intro matched hquorum
      have hmajority := (hfirst matched).mp hquorum
      exact ⟨hmajority, hsame ▸ hmajority⟩

/-! ## A leader of three -/

/-- A table with the servers of the only shard, of which server 1 is the primary. -/
def raftTable (version : Nat) (servers : List Nat) : ShardRoutingTable :=
  ⟨version, [⟨0, servers.map fun id => ⟨id, if id = 1 then .primary else .replica⟩⟩]⟩

/-- Server 1 with Raft, which leads the servers. -/
def raftServer (servers : List Nat) : Database Command IndexedGraph Unit :=
  let db := { graphServer with routingTable := raftTable 1 servers }
  match openAll 1 db.routingTable db.consensusFiles 0 db.stateStores with
  | (.ok consensus, stores) => { db with raftGroups := some consensus, stateStores := stores }
  | (.error _, _) => db

/-- A replicator whose entries are acknowledged by the servers. -/
def ackedBy (servers : List Nat) : ShardReplicator Command Unit where
  publish _ := pure ⟨servers, []⟩
  publishBatch entries := Fallible.collect (fun _ => pure ⟨servers, []⟩) entries
  installRoutingTable _ := pure ()

theorem raftServer_membershipOf :
    membershipOf 0 (raftServer [1, 2, 3]) = some (.ofVoters {1, 2, 3}) := by decide +kernel

theorem exists_of_isSome {σ : Type} {x : Except DatabaseError Unit × σ}
    (h : x.1.toOption.isSome = true) : ∃ s, x = (.ok (), s) := by
  rcases x with ⟨result, s⟩
  cases result with
  | error => cases h
  | ok => exact ⟨s, rfl⟩

/-- The same servers in a new version of the table. -/
theorem reconfiguration_safe_sameServers :
    membershipOf 0 (raftServer [1, 2, 3]) = some (.ofVoters {1, 2, 3}) ∧
      ∀ point ∈ pointsOf (ackedBy [1, 2]) 1 (raftTable 2 [1, 2, 3]) (raftServer [1, 2, 3]),
        ∀ current, membershipOf 0 point = some current → Overlaps {1, 2, 3} {1, 2, 3} current := by
  obtain ⟨db', hok⟩ : ∃ db', (installRoutingTableAsAuthority (ackedBy [1, 2]) 1
      (raftTable 2 [1, 2, 3])).run (raftServer [1, 2, 3]) = (.ok (), db') :=
    exists_of_isSome (by decide +kernel)
  have hshard : 0 < (raftServer [1, 2, 3]).shardCount := by decide +kernel
  have hplacement : (raftTable 2 [1, 2, 3]).placement 0 =
      some ⟨0, [⟨1, .primary⟩, ⟨2, .replica⟩, ⟨3, .replica⟩]⟩ := rfl
  have hsafe := reconfiguration_safe_iff hshard raftServer_membershipOf hplacement hok
  exact ⟨raftServer_membershipOf, hsafe.mpr rfl⟩

/-- Server 4 takes the place of server 3.  Before the `finalize_joint` entry is committed
servers 1 and 4 are a quorum, without a majority of the servers 1, 2 and 3. -/
theorem finalize_quorum_leaves_old_voters :
    (((installRoutingTableAsAuthority (ackedBy [1, 2]) 1 (raftTable 2 [1, 2, 4])).run
        (raftServer [1, 2, 3])).1.toOption.isSome = true ∧
      membershipOf 0 (raftServer [1, 2, 3]) = some (.ofVoters {1, 2, 3})) ∧
    ∃ point ∈ pointsOf (ackedBy [1, 2]) 1 (raftTable 2 [1, 2, 4]) (raftServer [1, 2, 3]),
      ∃ current, membershipOf 0 point = some current ∧ current.hasQuorum {1, 4} = true ∧
        ¬HasMajority ({1, 2, 3} : Finset Nat) {1, 4} := by
  have hsome : ((installRoutingTableAsAuthority (ackedBy [1, 2]) 1 (raftTable 2 [1, 2, 4])).run
      (raftServer [1, 2, 3])).1.toOption.isSome = true := by decide +kernel
  obtain ⟨db', hok⟩ := exists_of_isSome hsome
  have hshard : 0 < (raftServer [1, 2, 3]).shardCount := by decide +kernel
  obtain ⟨-, point, hpoint, hlast⟩ :=
    installRoutingTable_ends hshard raftServer_membershipOf rfl hok
  exact ⟨⟨hsome, raftServer_membershipOf⟩, point, hpoint, _, hlast, by decide, by decide⟩

end Database

end Neo4r.Db
