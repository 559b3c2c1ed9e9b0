/-
  `Db.RoutingInvariant`: what rebalancing keeps of a routing table.

  Every step edits one placement, and the edits keep its servers distinct and its primary
  unique.  On a server without Raft groups a table is installed in one piece, so a step that is
  rejected before changes nothing.  A step may fail after the table was changed, if what has
  become of it cannot be saved, and with Raft groups also because the third of the entries that
  are written for a change is written by the groups of the new table.
-/
import Neo4r.Db.Rebalance

set_option autoImplicit false

namespace Neo4r

open List

/-! ## Tables -/

/-- The servers of a placement are distinct, and exactly one of them is the primary. -/
structure ShardPlacement.WellPlaced (placement : ShardPlacement) : Prop where
  distinct : (placement.replicas.map (·.serverId)).Nodup
  primary : (placement.replicas.filter fun replica => replica.role = .primary).length = 1

/-- Every shard has one placement, and it is well placed. -/
structure ShardRoutingTable.WellFormed (table : ShardRoutingTable) (shardCount : Nat) : Prop where
  shards : (table.placements.map (·.shardId)).Perm (range shardCount)
  placed : ∀ placement ∈ table.placements, placement.WellPlaced

namespace ShardPlacement

variable {place : ShardPlacement} {serverId : Nat}

theorem hasServer_iff :
    place.hasServer serverId = true ↔ serverId ∈ place.replicas.map (·.serverId) := by
  simp only [hasServer, any_eq_true, decide_eq_true_eq, mem_map]

theorem WellPlaced.exists_primary (h : place.WellPlaced) :
    ∃ replica, (place.replicas.filter fun replica => replica.role = .primary) = [replica] :=
  length_eq_one_iff.mp h.primary

/-- The primary is the only replica that is marked so. -/
theorem WellPlaced.primaryServerId_iff (h : place.WellPlaced) :
    place.primaryServerId = some serverId ↔ ⟨serverId, .primary⟩ ∈ place.replicas := by
  obtain ⟨primary, hprim⟩ := h.exists_primary
  have hmem : ∀ replica : ShardReplica, replica ∈ place.replicas ∧ replica.role = .primary ↔
      replica = primary := by
    intro replica
    have hin : replica ∈ [primary] ↔ replica = primary := mem_singleton
    rw [← hin, ← hprim, mem_filter, decide_eq_true_eq]
  have hfind : place.primaryServerId = some primary.serverId := by
    rw [primaryServerId, ← head?_filter, hprim]
    rfl
  rw [hfind, Option.some_inj]
  constructor
  · rintro rfl
    obtain ⟨hin, hrole⟩ := (hmem primary).mpr rfl
    rwa [← hrole]
  · intro hin
    exact (congrArg ShardReplica.serverId ((hmem _).mp ⟨hin, rfl⟩)).symm

/-- Every placement has a primary. -/
theorem WellPlaced.primaryServerId_isSome (h : place.WellPlaced) :
    place.primaryServerId.isSome = true := by
  obtain ⟨primary, hprim⟩ := h.exists_primary
  rw [primaryServerId, ← head?_filter, hprim]
  rfl

end ShardPlacement

namespace Db

open Foundation Raft Database
open Fallible (run_bind_of_ok of_bind_ok run_bind run_lookup run_lookup_of_ok run_bind_of_error)

namespace ClusterDatabase

variable {placement place' : ShardPlacement}

/-! ## Edits -/

variable {serverId : Nat}

section

variable (h : placement.WellPlaced)

include h

theorem wellPlaced_add (hnew : placement.hasServer serverId = false) :
    ({ placement with replicas := placement.replicas ++ [⟨serverId, .replica⟩] } :
      ShardPlacement).WellPlaced where
  distinct := by
    rw [map_append, nodup_append]
    refine ⟨h.distinct, nodup_singleton _, fun other hother server hserver => ?_⟩
    rw [map_singleton, mem_singleton] at hserver
    rintro rfl
    rw [hserver, ← ShardPlacement.hasServer_iff, hnew] at hother
    cases hother
  primary := by
    simpa using h.primary

theorem wellPlaced_transfer {toServer : Nat} (hserves : placement.hasServer toServer = true) :
    ({ placement with replicas := placement.replicas.map fun replica =>
      ⟨replica.serverId, if replica.serverId = toServer then .primary else .replica⟩ } :
        ShardPlacement).WellPlaced where
  distinct := by
    rw [map_map]
    exact h.distinct
  primary := by
    have hcount : (placement.replicas.map (·.serverId)).count toServer = 1 :=
      count_eq_one_of_mem h.distinct (ShardPlacement.hasServer_iff.mp hserves)
    rw [← hcount, filter_map, length_map, count, countP_map, countP_eq_length_filter]
    refine congrArg length (filter_congr fun replica _ => ?_)
    by_cases hserver : replica.serverId = toServer <;> simp [hserver]

theorem wellPlaced_remove (hother : placement.primaryServerId ≠ some serverId) :
    ({ placement with replicas := placement.replicas.filter fun replica =>
      replica.serverId ≠ serverId } : ShardPlacement).WellPlaced where
  distinct := h.distinct.sublist (filter_sublist.map _)
  primary := by
    rw [← h.primary, filter_filter]
    refine congrArg length (filter_congr fun replica hmem => ?_)
    -- the primary is not the server that goes
    by_cases hrole : replica.role = .primary
    · have hne : replica.serverId ≠ serverId := by
        rintro rfl
        refine hother (h.primaryServerId_iff.mpr ?_)
        rwa [← hrole]
      simp [hrole, hne]
    · simp [hrole]

end

variable {step : RebalanceStep}

/-- What an edit comes to, if it is accepted. -/
theorem editOf_ok (h : editOf step placement = .ok place') : match step with
    | .addReplica _ serverId => place' = if placement.hasServer serverId then placement
        else { placement with replicas := placement.replicas ++ [⟨serverId, .replica⟩] }
    | .transferPrimary _ fromServer toServer => placement.primaryServerId = some fromServer ∧
        placement.hasServer toServer = true ∧
        place' = { placement with replicas := placement.replicas.map fun replica =>
          ⟨replica.serverId, if replica.serverId = toServer then .primary else .replica⟩ }
    | .removeReplica _ serverId => placement.hasServer serverId = true ∧
        placement.primaryServerId ≠ some serverId ∧ 1 < placement.replicas.length ∧
        place' = { placement with replicas := placement.replicas.filter fun replica =>
          replica.serverId ≠ serverId } := by
  cases step with
  | addReplica =>
    rw [editOf] at h
    split at h <;> cases h <;> simp_all
  | transferPrimary =>
    rw [editOf] at h
    split at h
    · cases h
    · split at h
      · cases h
      · cases h
        simp_all
  | removeReplica =>
    rw [editOf] at h
    split at h
    · cases h
    · split at h
      · cases h
      · split at h
        · cases h
        · cases h
          simp_all

theorem shardId_editOf (h : editOf step placement = .ok place') :
    place'.shardId = placement.shardId := by
  have hedit := editOf_ok h
  cases step with
  | addReplica =>
    dsimp only at hedit
    split at hedit <;> rw [hedit]
  | transferPrimary => rw [hedit.2.2]
  | removeReplica => rw [hedit.2.2.2]

/-- **An edit** keeps a placement well placed. -/
theorem wellPlaced_editOf (h : placement.WellPlaced) (hok : editOf step placement = .ok place') :
    place'.WellPlaced := by
  have hedit := editOf_ok hok
  cases step with
  | addReplica =>
    dsimp only at hedit
    split at hedit
    · rwa [hedit]
    · next hnew =>
      rw [hedit]
      exact wellPlaced_add h (Bool.not_eq_true _ ▸ hnew)
  | transferPrimary =>
    obtain ⟨-, hserves, rfl⟩ := hedit
    exact wellPlaced_transfer h hserves
  | removeReplica =>
    obtain ⟨-, hother, -, rfl⟩ := hedit
    exact wellPlaced_remove h hother

/-- One placement is edited, the first of the shard. -/
theorem editPlacement_ok {shardId : Nat}
    {edit : ShardPlacement → Except DatabaseError ShardPlacement}
    {placements placements' : List ShardPlacement}
    (h : editPlacement shardId edit placements = .ok placements') :
    ∃ before placement place' after, placements = before ++ placement :: after ∧
      placements' = before ++ place' :: after ∧ placement.shardId = shardId ∧
      edit placement = .ok place' ∧ ∀ other ∈ before, other.shardId ≠ shardId := by
  induction placements generalizing placements' with
  | nil => cases h
  | cons first placements ih =>
    rw [editPlacement] at h
    split at h
    · next hshard =>
      obtain ⟨edited, hedited, hpure⟩ := of_exceptBind_ok h
      cases hpure
      exact ⟨[], first, edited, placements, rfl, rfl, hshard, hedited, forall_mem_nil _⟩
    · next hshard =>
      obtain ⟨edited, hedited, hpure⟩ := of_exceptBind_ok h
      cases hpure
      obtain ⟨before, placement, place', after, rfl, rfl, hfound, hedit, hbefore⟩ := ih hedited
      exact ⟨first :: before, placement, place', after, rfl, rfl, hfound, hedit,
        forall_mem_cons.mpr ⟨hshard, hbefore⟩⟩

variable {R : Type} {table : ShardRoutingTable}

/-- The table that a step leads to. -/
theorem tableAfter_ok {db : ClusterDatabase R} (h : db.tableAfter step = .ok table) :
    db.ensureReady step = .ok () ∧
      table.version = saturatingAdd db.core.routingTable.version 1 ∧
      editPlacement (shardOf step) (editOf step) db.core.routingTable.placements =
        .ok table.placements := by
  obtain ⟨_, hready, hrest⟩ := of_exceptBind_ok h
  obtain ⟨placements, hplaces, hpure⟩ := of_exceptBind_ok hrest
  cases hpure
  exact ⟨hready, rfl, hplaces⟩

/-! ## Calls -/

open Fallible (Preserves Respects)

variable {replicator : ShardReplicator Command R} (step : RebalanceStep) {s t : ClusterDatabase R}

/-- No save is going to fail. -/
def Saving (s : ClusterDatabase R) : Prop := ∀ outcome ∈ s.saves, outcome = .ok ()

/-- If no save was going to fail, none is now. -/
abbrev KeepsSaving : ClusterDatabase R → ClusterDatabase R → Prop := Fallible.Stays Saving

theorem saveFile_ok (h : s.Saving) :
    saveFile.run s = (.ok (), { s with saves := s.saves.tail }) := by
  have hfirst : s.saves.head?.getD (.ok ()) = .ok () := by
    cases hsaves : s.saves with
    | nil => rfl
    | cons outcome => exact h outcome (hsaves ▸ mem_cons_self)
  rw [saveFile]
  dsimp only
  rw [hfirst]
  rfl

theorem saveFile_keepsSaving : Respects KeepsSaving (saveFile : Op R Unit) :=
  fun _ h outcome hmem => h outcome (mem_of_mem_tail hmem)

theorem saveMembership_ok (h : s.Saving) : ∃ t, saveMembership.run s = (.ok (), t) :=
  ⟨_, saveFile_ok (s := { s with membership := nextMembership s.membership }) h⟩

/-- What `apply_rebalance_step` does once the table is installed. -/
def finishStep : Op R Unit := do
  finishAppliedAssignments step
  finishDrainedNodes

/-- A relation that ignores the membership and the outcomes of saves is respected by what only
saves it. -/
structure IgnoresMembership (r : ClusterDatabase R → ClusterDatabase R → Prop) : Prop where
  save : Respects r saveFile
  set : ∀ s membership, r s { s with membership }

section

variable {r : ClusterDatabase R → ClusterDatabase R → Prop} [IsPreorder (ClusterDatabase R) r]

theorem checkCatchUp_respects
    (h : ∀ shardId serverId index, Respects r (markShardCaughtUp shardId serverId index))
    (shardId serverId : Nat) : Respects r (checkCatchUp shardId serverId) := by
  refine (Respects.lookup _).bind fun _ => Respects.current.bind fun db => ?_
  dsimp only
  split
  · exact (h _ _ _).bind fun _ => Respects.pure _
  · split <;> exact Respects.pure _

variable (h : IgnoresMembership r)

include h

theorem IgnoresMembership.saveMembership : Respects r saveMembership :=
  Respects.bind (fun s => h.set s _) fun _ => h.save

theorem IgnoresMembership.finishAppliedAssignments : Respects r (finishAppliedAssignments step) :=
  Respects.bind (fun s => h.set s _) fun _ => h.saveMembership

theorem IgnoresMembership.finishStep : Respects r (finishStep step) := by
  refine (h.finishAppliedAssignments step).bind fun _ => Respects.current.bind fun db => ?_
  dsimp only
  split
  · exact Respects.pure ()
  · exact Respects.bind (fun s => h.set s _) fun _ => h.saveMembership

theorem IgnoresMembership.prepareRebalanceStep : Respects r (prepareRebalanceStep step) := by
  refine (Respects.lookup _).bind fun _ => (Respects.lookup _).bind fun _ => ?_
  refine Respects.bind (fun s => h.set s _) fun _ => h.saveMembership.bind fun _ => ?_
  exact Respects.current.bind fun _ => Respects.pure _

theorem IgnoresMembership.markShardCaughtUp (shardId serverId index : Nat) :
    Respects r (markShardCaughtUp shardId serverId index) := by
  refine (Respects.lookup _).bind fun _ => (Respects.lookup _).bind fun _ => ?_
  refine Respects.bind (fun s => h.set s _) fun _ => h.saveMembership.bind fun _ => ?_
  exact Respects.current.bind fun _ => Respects.pure _

end

theorem ignoresMembership_core :
    IgnoresMembership fun s t : ClusterDatabase R => t.core = s.core :=
  ⟨fun _ => rfl, fun _ _ => rfl⟩

theorem ignoresMembership_keepsSaving :
    IgnoresMembership (KeepsSaving : ClusterDatabase R → _ → Prop) :=
  ⟨saveFile_keepsSaving, fun _ _ => id⟩

theorem finishStep_core : Preserves core (finishStep step : Op R Unit) :=
  ignoresMembership_core.finishStep step

theorem prepareRebalanceStep_core :
    Preserves core (prepareRebalanceStep step : Op R ClusterMembership) :=
  ignoresMembership_core.prepareRebalanceStep step

theorem checkCatchUp_core (shardId serverId : Nat) :
    Preserves core (checkCatchUp shardId serverId : Op R (String × RebalanceStepState)) :=
  checkCatchUp_respects ignoresMembership_core.markShardCaughtUp shardId serverId

/-- The end of a step fails only with a save. -/
theorem finishStep_ok (h : s.Saving) : ∃ t, (finishStep step).run s = (.ok (), t) := by
  obtain ⟨t, happlied⟩ : ∃ t, (finishAppliedAssignments step).run s = (.ok (), t) :=
    saveMembership_ok (s := { s with membership := _ }) h
  have ht : t.Saving := by
    have hkeeps := ignoresMembership_keepsSaving.finishAppliedAssignments step s h
    rwa [happlied] at hkeeps
  rw [finishStep, run_bind_of_ok happlied, finishDrainedNodes,
    run_bind_of_ok (Fallible.run_current t)]
  dsimp only
  split
  · exact ⟨t, rfl⟩
  · exact saveMembership_ok (s := { t with membership := _ }) ht

/-- A relation that ignores the plan, the execution and the outcomes of saves is respected by
what only saves these. -/
structure IgnoresPlans (r : ClusterDatabase R → ClusterDatabase R → Prop) : Prop where
  save : Respects r saveFile
  set : ∀ s savedPlan execution, r s { s with savedPlan, execution }

section

variable {r : ClusterDatabase R → ClusterDatabase R → Prop} [IsPreorder (ClusterDatabase R) r]
  (h : IgnoresPlans r)

include h

theorem IgnoresPlans.savePlan (plan : RebalancePlan) : Respects r (savePlan plan) :=
  h.save.bind fun _ s => h.set s _ _

theorem IgnoresPlans.saveExecution (execution : RebalanceExecution) :
    Respects r (saveExecution execution) :=
  h.save.bind fun _ s => h.set s _ _

theorem IgnoresPlans.saveProgress (execution : RebalanceExecution) :
    Respects r (saveProgress execution) :=
  (h.savePlan _).bind fun _ => h.saveExecution _

theorem IgnoresPlans.startRebalancePlan : Respects r startRebalancePlan := by
  refine (Respects.lookup _).bind fun _ => Respects.current.bind fun db => ?_
  split
  · exact Respects.pure _
  · refine Respects.bind ?_ fun plan => (h.savePlan _).bind fun _ =>
      (h.saveExecution _).bind fun _ => Respects.pure _
    refine (Respects.lookup _).bind fun _ => Respects.current.bind fun _ => ?_
    exact (h.savePlan _).bind fun _ => h.save.bind fun _ => Respects.pure _

theorem IgnoresPlans.currentExecution : Respects r currentExecution := by
  refine Respects.current.bind fun db => ?_
  split
  · exact h.startRebalancePlan.bind fun _ => Respects.lookup _
  · exact Respects.lookup _

end

/-! ## A step of a plan -/

theorem applyRebalanceStep_eq : applyRebalanceStep replicator step = (do
      Fallible.lookup ensureMetadataAuthority
      let table ← Fallible.lookup (tableAfter step)
      let db ← Fallible.current
      onCore (installRoutingTableAsAuthority replicator db.authorityServerId table)
      finishStep step
      pure table) := by
  simp only [applyRebalanceStep, finishStep, bind_assoc]

section

variable {r : ClusterDatabase R → ClusterDatabase R → Prop} [IsPreorder (ClusterDatabase R) r]
  (hprepare : ∀ step, Respects r (prepareRebalanceStep step))
  (hcheck : ∀ shardId serverId, Respects r (checkCatchUp shardId serverId))
  (happly : ∀ step, Respects r (applyRebalanceStep replicator step))

include hprepare hcheck happly

theorem advanceRebalanceStep_respects (state : RebalanceStepState) :
    Respects r (advanceRebalanceStep replicator step state) := by
  unfold advanceRebalanceStep
  split
  · exact (hprepare _).bind fun _ => Respects.pure _
  · exact (hprepare _).bind fun _ => Respects.pure _
  · exact (hprepare _).bind fun _ => Respects.pure _
  · exact hcheck _ _
  · exact Respects.pure _
  · exact Respects.pure _
  · exact Respects.pure _
  · exact Respects.pure _
  · exact (happly _).bind fun _ => Respects.pure _

theorem advanceRebalance_respects (hplans : IgnoresPlans r) :
    Respects r (advanceRebalance replicator) := by
  refine (Respects.lookup _).bind fun _ => hplans.currentExecution.bind fun execution => ?_
  split
  · exact Respects.pure _
  · split
    · exact (hplans.saveProgress _).bind fun _ => Respects.pure _
    · next step _ =>
      refine Respects.bind (advanceRebalanceStep_respects step.1.step hprepare hcheck happly
        step.1.state).attempt fun result => ?_
      exact (hplans.saveProgress _).bind fun _ => Respects.pure _

end

theorem ignoresPlans_core :
    IgnoresPlans fun s t : ClusterDatabase R => t.core = s.core :=
  ⟨fun _ => rfl, fun _ _ _ => rfl⟩

theorem ignoresPlans_keepsSaving : IgnoresPlans (KeepsSaving : ClusterDatabase R → _ → Prop) :=
  ⟨saveFile_keepsSaving, fun _ _ _ => id⟩

/-- Why a step is rejected. -/
def Rejected (replicator : ShardReplicator Command R) (step : RebalanceStep)
    (s : ClusterDatabase R) : Prop :=
  s.ensureMetadataAuthority ≠ .ok () ∨ (∀ table, s.tableAfter step ≠ .ok table) ∨
    ∃ table, s.tableAfter step = .ok table ∧
      (checkNewTable s.authorityServerId table s.core ≠ .ok () ∨
        ∃ err r, (replicator.installRoutingTable table).run s.core.replicator = (.error err, r))

/-- **A step without Raft groups** installs the table that it leads to, or changes nothing of
the server but its replicator.  After the table was installed a save may still fail. -/
theorem applyRebalanceStep_cases (h : s.core.raftGroups = none) (step : RebalanceStep) :
    (∃ err r, (applyRebalanceStep replicator step).run s =
        (.error err, { s with core := withReplicator s.core r }) ∧ s.Rejected replicator step) ∨
      ∃ table r, s.tableAfter step = .ok table ∧
        checkNewTable s.authorityServerId table s.core = .ok () ∧
        (applyRebalanceStep replicator step).run s =
          (finishStep step >>= fun _ => pure table).run
            { s with core := withTable s.core r table } := by
  rw [applyRebalanceStep]
  cases hauth : s.ensureMetadataAuthority with
  | error err =>
    rw [run_bind, run_lookup, hauth]
    refine .inl ⟨err, s.core.replicator, rfl, .inl fun hok => ?_⟩
    cases hauth.symm.trans hok
  | ok =>
    rw [run_lookup_of_ok hauth]
    cases htable : s.tableAfter step with
    | error err =>
      rw [run_bind, run_lookup, htable]
      refine .inl ⟨err, s.core.replicator, rfl, .inr (.inl fun table hok => ?_)⟩
      cases htable.symm.trans hok
    | ok table =>
      rw [run_lookup_of_ok htable, run_bind_of_ok (Fallible.run_current s)]
      rcases @installRoutingTable_cases R replicator table s.core h s.authorityServerId with
        ⟨err, r, hrun, hwhy⟩ | ⟨r, hrun, hcheck⟩
      · have hinst : (onCore (installRoutingTableAsAuthority replicator
            s.authorityServerId table)).run s =
            (.error err, { s with core := withReplicator s.core r }) := by
          rw [onCore, Fallible.run_zoom, hrun]
        rw [run_bind_of_error hinst]
        refine .inl ⟨err, r, rfl, .inr (.inr ⟨table, htable, ?_⟩)⟩
        refine hwhy.imp (fun herror hok => ?_) fun herror => ⟨err, r, herror⟩
        cases herror.symm.trans hok
      · have hinst : (onCore (installRoutingTableAsAuthority replicator
            s.authorityServerId table)).run s =
            (.ok (), { s with core := withTable s.core r table }) := by
          rw [onCore, Fallible.run_zoom, hrun]
        rw [run_bind_of_ok hinst]
        exact .inr ⟨table, r, rfl, hcheck, by rw [finishStep, bind_assoc]⟩

/-- A table follows another: its version is higher, its shards are the same, and it is well
placed if the other is. -/
structure Follows (before table : ShardRoutingTable) : Prop where
  version : before.version < table.version
  shards : table.placements.map (·.shardId) = before.placements.map (·.shardId)
  placed : (∀ placement ∈ before.placements, placement.WellPlaced) →
    ∀ placement ∈ table.placements, placement.WellPlaced

/-- What a call does to a server: if it is accepted it installs a table that follows, else it
changes nothing but the replicator. -/
def Outcome (accepted : Prop) (s t : ClusterDatabase R) : Prop :=
  (accepted ∧ ∃ table r, t.core = withTable s.core r table ∧ Follows s.core.routingTable table) ∨
    (¬accepted ∧ ∃ r, t.core = withReplicator s.core r)

theorem outcome_of_core {accepted : Prop} (hacc : ¬accepted) (hcore : t.core = s.core) :
    Outcome accepted s t :=
  .inr ⟨hacc, s.core.replicator, hcore⟩

theorem version_of_checkNewTable {authorityServerId : Nat} {core : GraphCore R}
    (h : checkNewTable authorityServerId table core = .ok ()) :
    core.routingTable.version < table.version := by
  rw [checkNewTable] at h
  split at h
  · cases h
  · obtain ⟨_, -, hver⟩ := of_exceptBind_ok h
    by_contra hle
    rw [if_pos (Nat.not_lt.mp hle)] at hver
    cases hver

/-- The table that a step leads to follows the one before. -/
theorem follows_tableAfter (htable : s.tableAfter step = .ok table)
    (hcheck : checkNewTable s.authorityServerId table s.core = .ok ()) :
    Follows s.core.routingTable table := by
  obtain ⟨-, -, hplaces⟩ := tableAfter_ok htable
  obtain ⟨before, placement, place', after, hbefore, hafter, -, hedit, -⟩ :=
    editPlacement_ok hplaces
  refine ⟨version_of_checkNewTable hcheck, ?_, ?_⟩
  · rw [hbefore, hafter, map_append, map_append, map_cons, map_cons, shardId_editOf hedit]
  · rw [hbefore, hafter]
    intro hplaced
    rw [forall_mem_append, forall_mem_cons] at hplaced ⊢
    exact ⟨hplaced.1, wellPlaced_editOf hplaced.2.1 hedit, hplaced.2.2⟩

theorem applyRebalanceStep_keepsSaving :
    Respects KeepsSaving (applyRebalanceStep replicator step) := by
  rw [applyRebalanceStep_eq]
  refine (Respects.lookup _).bind fun _ => (Respects.lookup _).bind fun _ => ?_
  refine Respects.current.bind fun _ => Respects.bind (fun _ => id) fun _ => ?_
  exact (ignoresMembership_keepsSaving.finishStep step).bind fun _ => Respects.pure _

theorem applyRebalanceStep_outcome (h : s.core.raftGroups = none) (hsaving : s.Saving)
    (step : RebalanceStep) :
    Outcome (∃ table, ((applyRebalanceStep replicator step).run s).1 = .ok table) s
      ((applyRebalanceStep replicator step).run s).2 := by
  rcases @applyRebalanceStep_cases R replicator s h step with
    ⟨err, r, hrun, -⟩ | ⟨table, r, htable, hcheck, hrun⟩
  · rw [hrun]
    refine .inr ⟨?_, r, rfl⟩
    rintro ⟨table, hok⟩
    cases hok
  · obtain ⟨t, hfinish⟩ :=
      finishStep_ok step (s := { s with core := withTable s.core r table }) hsaving
    rw [hrun, run_bind_of_ok hfinish]
    exact .inl ⟨⟨table, rfl⟩, table, r, (finishStep_core step).of_run hfinish,
      follows_tableAfter step htable hcheck⟩

/-- A part of a call that reports whether the table was changed. -/
def Reports (s : ClusterDatabase R) (x : Op R (String × RebalanceStepState)) : Prop :=
  Outcome (∃ left, (x.run s).1 = .ok ("applied", left)) s (x.run s).2

/-- A part of a call that only looks at the table. -/
theorem reports_of_preserves {x : Op R (String × RebalanceStepState)} (hcore : Preserves core x)
    (hother : ∀ action left t, x.run s = (.ok (action, left), t) → action ≠ "applied") :
    s.Reports x := by
  refine outcome_of_core ?_ (hcore s)
  rintro ⟨left, hok⟩
  exact hother "applied" left _ (Prod.ext hok rfl) rfl

theorem checkCatchUp_other {shard : Nat} {action : String} {left : RebalanceStepState}
    (h : (checkCatchUp shard serverId).run s = (.ok (action, left), t)) : action ≠ "applied" := by
  obtain ⟨committed, t₁, hcomm, h₁⟩ := of_bind_ok h
  obtain ⟨db, t₂, hcur, h₂⟩ := of_bind_ok h₁
  dsimp only at h₂
  split at h₂
  · obtain ⟨_, t₃, hmark, h₃⟩ := of_bind_ok h₂
    cases h₃
    decide
  · split at h₂
    all_goals
      obtain ⟨haction, -⟩ := Prod.mk.inj (Except.ok.inj (Prod.mk.inj h₂).1)
      rw [← haction]
      intro heq
      have hchars := congrArg String.toList heq
      rw [String.toList_append] at hchars
      cases hchars

/-- **A step of a plan** changes the table exactly if it reports that it is applied. -/
theorem advanceRebalanceStep_reports (h : s.core.raftGroups = none) (hsaving : s.Saving)
    (step : RebalanceStep) (state : RebalanceStepState) :
    s.Reports (advanceRebalanceStep replicator step state) := by
  have hprepare : ∀ step, s.Reports (do
      let _ ← prepareRebalanceStep step
      pure ("prepared", .catchingUp)) := by
    intro step
    refine reports_of_preserves ((prepareRebalanceStep_core step).bind fun _ => Preserves.pure _) ?_
    intro action left t hrun
    obtain ⟨_, t₁, -, hpure⟩ := of_bind_ok hrun
    cases hpure
    decide
  have happly : ∀ step, s.Reports (do
      let _ ← applyRebalanceStep replicator step
      pure ("applied", .applied)) := by
    intro step
    have houtcome := @applyRebalanceStep_outcome R replicator s h hsaving step
    rcases hrun : (applyRebalanceStep replicator step).run s with ⟨result, t⟩
    rw [hrun] at houtcome
    rw [Reports]
    cases result with
    | ok table =>
      rw [run_bind_of_ok hrun]
      rcases houtcome with ⟨-, hchanged⟩ | ⟨hrejected, -⟩
      · exact .inl ⟨⟨_, rfl⟩, hchanged⟩
      · exact absurd ⟨table, rfl⟩ hrejected
    | error =>
      rw [run_bind_of_error hrun]
      rcases houtcome with ⟨⟨table, hok⟩, -⟩ | ⟨-, hkept⟩
      · cases hok
      · refine .inr ⟨?_, hkept⟩
        rintro ⟨left, hok⟩
        cases hok
  have hpure : ∀ (action : String) (left : RebalanceStepState), action ≠ "applied" →
      s.Reports (pure (action, left)) := by
    intro action left hne
    refine reports_of_preserves (Preserves.pure _) fun action' left' t hrun => ?_
    cases hrun
    exact hne
  unfold advanceRebalanceStep
  split
  · exact hprepare _
  · exact hprepare _
  · exact hprepare _
  · exact reports_of_preserves (checkCatchUp_core _ _) fun _ _ _ => checkCatchUp_other
  · exact hpure _ _ (by decide)
  · exact hpure _ _ (by decide)
  · exact hpure _ _ (by decide)
  · exact hpure _ _ (by decide)
  · exact happly _

theorem advanceRebalanceStep_keepsSaving (state : RebalanceStepState) :
    Respects KeepsSaving (advanceRebalanceStep replicator step state) :=
  advanceRebalanceStep_respects step ignoresMembership_keepsSaving.prepareRebalanceStep
    (checkCatchUp_respects ignoresMembership_keepsSaving.markShardCaughtUp)
    applyRebalanceStep_keepsSaving state

/-- The end of a call fails only with a save. -/
theorem saveProgress_ok (h : s.Saving) (execution : RebalanceExecution) :
    ∃ t, (saveProgress execution).run s = (.ok (), t) ∧ t.core = s.core := by
  have hplan : (savePlan execution.plan).run s = (.ok (), { s with
      savedPlan := some execution.plan, saves := s.saves.tail }) := by
    rw [savePlan, run_bind_of_ok (saveFile_ok h)]
    rfl
  have hrest : Saving { s with savedPlan := some execution.plan, saves := s.saves.tail } :=
    fun outcome hmem => h outcome (mem_of_mem_tail hmem)
  rw [saveProgress, run_bind_of_ok hplan, saveExecution, run_bind_of_ok (saveFile_ok hrest)]
  exact ⟨_, rfl, rfl⟩

/-- The action that is recorded is the one of the step. -/
theorem recordResult_action (result : Except DatabaseError (String × RebalanceStepState))
    (stepIndex : Nat) (execution : RebalanceExecution) :
    (recordResult result stepIndex execution).2 = "applied" ↔
      ∃ left, result = .ok ("applied", left) := by
  rcases result with err | ⟨action, left⟩
  · have haction : (recordResult (.error err) stepIndex execution).2 = "failed" := by
      unfold recordResult
      dsimp only
      split <;> rfl
    rw [haction]
    exact iff_of_false (by decide) fun hok => by
      obtain ⟨left, hok⟩ := hok
      cases hok
  · have haction : (recordResult (.ok (action, left)) stepIndex execution).2 = action := by
      unfold recordResult
      dsimp only
      split <;> rfl
    rw [haction]
    constructor
    · rintro rfl
      exact ⟨left, rfl⟩
    · rintro ⟨left', hok⟩
      exact (Prod.mk.inj (Except.ok.inj hok)).1

/-- A step is recorded as it was reported, and saved. -/
theorem record_outcome (h : s.core.raftGroups = none) (hsaving : s.Saving)
    (step : RebalanceStep) (state : RebalanceStepState) (index : Nat)
    (execution : RebalanceExecution) :
    Outcome (∃ execution', ((do
      let result ← (advanceRebalanceStep replicator step state).attempt
      let recorded := recordResult result index execution
      saveProgress recorded.1
      pure recorded : Op R (RebalanceExecution × String)).run s).1 =
        .ok (execution', "applied")) s
      ((do
        let result ← (advanceRebalanceStep replicator step state).attempt
        let recorded := recordResult result index execution
        saveProgress recorded.1
        pure recorded : Op R (RebalanceExecution × String)).run s).2 := by
  have houtcome := @advanceRebalanceStep_reports R replicator s h hsaving step state
  have hkeeps := @advanceRebalanceStep_keepsSaving R replicator step state s hsaving
  rw [Reports] at houtcome
  rcases hrun : (advanceRebalanceStep replicator step state).run s with ⟨result, t⟩
  rw [hrun] at houtcome hkeeps
  have hattempt : (advanceRebalanceStep replicator step state).attempt.run s =
      (.ok result, t) := by
    rw [Fallible.attempt]
    dsimp only
    rw [hrun]
  obtain ⟨u, hsaved, hcore⟩ := saveProgress_ok hkeeps (recordResult result index execution).1
  rw [run_bind_of_ok hattempt, run_bind_of_ok hsaved]
  have hreported : (∃ execution', Except.ok (ε := DatabaseError)
      (recordResult result index execution) = .ok (execution', "applied")) ↔
        ∃ left, result = .ok ("applied", left) := by
    rw [← recordResult_action result index execution]
    constructor
    · rintro ⟨execution', hok⟩
      exact congrArg Prod.snd (Except.ok.inj hok)
    · intro haction
      exact ⟨_, congrArg Except.ok (Prod.ext rfl haction)⟩
  rw [Fallible.run_pure, hreported, Outcome, hcore]
  exact houtcome

/-- **Advancing a plan** changes the table exactly if it reports that a step is applied. -/
theorem advanceRebalance_outcome (h : s.core.raftGroups = none) (hsaving : s.Saving) :
    Outcome (∃ execution, ((advanceRebalance replicator).run s).1 = .ok (execution, "applied")) s
      ((advanceRebalance replicator).run s).2 := by
  rw [advanceRebalance]
  cases hauth : s.ensureMetadataAuthority with
  | error =>
    rw [run_bind, run_lookup, hauth]
    refine outcome_of_core ?_ rfl
    rintro ⟨execution, hok⟩
    cases hok
  | ok =>
    rw [run_lookup_of_ok hauth]
    have hcore := ignoresPlans_core.currentExecution s
    have ht := ignoresPlans_keepsSaving.currentExecution s hsaving
    rcases hcur : currentExecution.run s with ⟨result, t⟩
    rw [hcur] at hcore ht
    cases result with
    | error =>
      rw [run_bind_of_error hcur]
      refine outcome_of_core ?_ hcore
      rintro ⟨execution, hok⟩
      cases hok
    | ok execution =>
      rw [run_bind_of_ok hcur]
      split
      · refine outcome_of_core ?_ hcore
        rintro ⟨execution', hok⟩
        have haction : "idle" = "applied" := congrArg Prod.snd (Except.ok.inj hok)
        exact absurd haction (by decide)
      · split
        · dsimp only
          obtain ⟨u, hsaved, hsame⟩ := saveProgress_ok ht { execution with
            state := .completed, plan := { execution.plan with state := .completed } }
          rw [run_bind_of_ok hsaved]
          refine outcome_of_core ?_ (hsame.trans hcore)
          rintro ⟨execution', hok⟩
          have haction : "completed" = "applied" := congrArg Prod.snd (Except.ok.inj hok)
          exact absurd haction (by decide)
        · next step _ =>
          have houtcome := @record_outcome R replicator t (hcore ▸ h) ht step.1.step
            step.1.state step.2 execution
          rwa [Outcome, hcore] at houtcome

/-! ## Runs -/

/-- The calls that rebalance. -/
inductive RebalanceCall
  | prepare (step : RebalanceStep)
  | markCaughtUp (shardId serverId matchIndex : Nat)
  | apply (step : RebalanceStep)
  | advance
  deriving DecidableEq, Repr

variable (replicator : ShardReplicator Command R)

/-- The server after a call. -/
def afterCall (s : ClusterDatabase R) :
    RebalanceCall → ClusterDatabase R
  | .prepare step => ((prepareRebalanceStep step).run s).2
  | .markCaughtUp shardId serverId matchIndex =>
    ((markShardCaughtUp shardId serverId matchIndex).run s).2
  | .apply step => ((applyRebalanceStep replicator step).run s).2
  | .advance => ((advanceRebalance replicator).run s).2

/-- The call reports that the table was changed. -/
def Accepts (s : ClusterDatabase R) : RebalanceCall → Prop
  | .prepare _ | .markCaughtUp _ _ _ => False
  | .apply step => ∃ table, ((applyRebalanceStep replicator step).run s).1 = .ok table
  | .advance => ∃ execution, ((advanceRebalance replicator).run s).1 = .ok (execution, "applied")

/-- A call, with the outcomes of the saves that it makes. -/
structure RebalanceEvent where
  call : RebalanceCall
  saves : List (Except StorageError Unit)

/-- The server when the outcomes of its coming saves are these. -/
def withSaves (saves : List (Except StorageError Unit)) (s : ClusterDatabase R) :
    ClusterDatabase R :=
  { s with saves }

/-- A server starts with a table that is well formed, and any membership. -/
def machine : Machine (ClusterDatabase R) RebalanceEvent where
  init s := s.core.routingTable.WellFormed s.core.shardCount
  enabled _ _ := True
  next s e := afterCall replicator (s.withSaves e.saves) e.call

/-- The calls that may change the table. -/
def RebalanceCall.EditsTable : RebalanceCall → Prop
  | .prepare _ | .markCaughtUp _ _ _ => False
  | .apply _ | .advance => True

/-- A call that may change the table is made on a server without Raft groups, and none of its
saves fails. -/
def Undisturbed (s : ClusterDatabase R) (e : RebalanceEvent) : Prop :=
  e.call.EditsTable → s.core.raftGroups = none ∧ (s.withSaves e.saves).Saving

variable {replicator : ShardReplicator Command R} {s t : ClusterDatabase R}

theorem next_outcome {e : RebalanceEvent} (h : s.Undisturbed e) :
    Outcome ((s.withSaves e.saves).Accepts replicator e.call) s
      ((machine replicator).next s e) := by
  obtain ⟨call, saves⟩ := e
  cases call with
  | prepare step => exact outcome_of_core id (prepareRebalanceStep_core step (s.withSaves saves))
  | markCaughtUp shard serverId matchIndex =>
    exact outcome_of_core id
      (ignoresMembership_core.markShardCaughtUp shard serverId matchIndex (s.withSaves saves))
  | apply step =>
    exact applyRebalanceStep_outcome (s := s.withSaves saves) (h trivial).1 (h trivial).2 step
  | advance => exact advanceRebalance_outcome (s := s.withSaves saves) (h trivial).1 (h trivial).2

theorem Outcome.wellFormed {accepted : Prop} (h : Outcome accepted s t)
    (hs : s.core.routingTable.WellFormed s.core.shardCount) :
    t.core.routingTable.WellFormed t.core.shardCount := by
  rcases h with ⟨-, table, r, hcore, hfollows⟩ | ⟨-, r, hcore⟩
  · rw [hcore]
    exact ⟨hfollows.shards ▸ hs.shards, hfollows.placed hs.placed⟩
  · rw [hcore]
    exact hs

/-- **Rebalancing keeps the table well formed** if it is only changed without Raft groups, by
calls whose saves succeed.  Every call keeps its shards; an accepted change raises its version,
and any other call keeps it as it is. -/
theorem rebalancing_keeps_table (hs : ((machine replicator).restrict Undisturbed).Reachable s) :
    s.core.routingTable.WellFormed s.core.shardCount ∧
      ∀ e, s.Undisturbed e →
        ((machine replicator).next s e).core.routingTable.placements.map (·.shardId) =
            s.core.routingTable.placements.map (·.shardId) ∧
          ((s.withSaves e.saves).Accepts replicator e.call → s.core.routingTable.version <
            ((machine replicator).next s e).core.routingTable.version) ∧
          (¬(s.withSaves e.saves).Accepts replicator e.call →
            ((machine replicator).next s e).core.routingTable = s.core.routingTable) := by
  refine ⟨?_, fun e hcalm => ?_⟩
  · refine hs.invariant (P := fun s : ClusterDatabase R =>
      s.core.routingTable.WellFormed s.core.shardCount) ?_ ?_
    · exact fun s hinit => hinit
    · rintro s e - h ⟨-, hcalm⟩
      exact (next_outcome hcalm).wellFormed h
  · rcases @next_outcome R replicator s e hcalm with
      ⟨haccepted, table, r, hcore, hfollows⟩ | ⟨hrejected, r, hcore⟩
    · rw [hcore]
      exact ⟨hfollows.shards, fun _ => hfollows.version, fun hnot => absurd haccepted hnot⟩
    · rw [hcore]
      exact ⟨rfl, fun haccepted => absurd haccepted hrejected, fun _ => rfl⟩

/-- The authority of a cluster that server 4 joins. -/
def joining (core : Database Command IndexedGraph Unit) : ClusterDatabase Unit where
  core
  authorityServerId := 1
  policy := ⟨3, 100⟩
  membership := ⟨1, [⟨1, "a", .active⟩, ⟨2, "b", .active⟩, ⟨4, "d", .joining⟩], []⟩
  savedPlan := none
  execution := none
  saves := []

theorem wellFormed_raftTable {servers : List Nat} (hdist : servers.Nodup)
    (hprim : ((servers.map fun id => (⟨id, if id = 1 then .primary else .replica⟩ :
      ShardReplica)).filter fun replica => replica.role = .primary).length = 1) :
    (raftTable 1 servers).WellFormed 1 := by
  refine ⟨Perm.refl _, ?_⟩
  intro placement hplace
  rw [mem_singleton.mp hplace]
  refine ⟨?_, hprim⟩
  rw [map_map]
  exact (map_id servers).symm ▸ hdist

/-- An advance that reports an applied step, read off its evaluation. -/
theorem accepts_of_action
    (h : ((advanceRebalance replicator).run s).1.toOption.map (·.2) = some "applied") :
    s.Accepts replicator .advance := by
  cases hres : ((advanceRebalance replicator).run s).1 with
  | error =>
    rw [hres] at h
    cases h
  | ok result =>
    rw [hres] at h
    exact ⟨result.1, hres.trans (congrArg Except.ok (Prod.ext rfl (Option.some.inj h)))⟩

/-- The shard gets a replica on server 4.  The third call of the plan applies its step. -/
theorem rebalancing_keeps_table_addReplica :
    ∃ s : ClusterDatabase Unit,
      ((machine (noopShardReplicator Command)).restrict Undisturbed).Reachable s ∧
      s.core.routingTable.WellFormed s.core.shardCount ∧
      s.core.routingTable.version <
        ((machine (noopShardReplicator Command)).next s ⟨.advance, []⟩).core.routingTable.version
          := by
  have hstart : ((machine (noopShardReplicator Command)).restrict Undisturbed).Reachable
      (joining { graphServer with routingTable := raftTable 1 [1, 2] }) :=
    .start (wellFormed_raftTable (by decide) (by decide))
  have hcalls : ((machine (noopShardReplicator Command)).restrict Undisturbed).Admissible
      (joining { graphServer with routingTable := raftTable 1 [1, 2] })
      [⟨.advance, [.ok ()]⟩, ⟨.advance, []⟩] :=
    ⟨⟨trivial, fun _ => ⟨rfl, forall_mem_singleton.mpr rfl⟩⟩,
      ⟨trivial, fun _ => ⟨Option.isNone_iff_eq_none.mp (by decide +kernel), forall_mem_nil _⟩⟩,
      trivial⟩
  have hready := hstart.run hcalls
  have hkeeps := rebalancing_keeps_table hready
  refine ⟨_, hready, hkeeps.1, (hkeeps.2 ⟨.advance, []⟩ fun _ => ⟨?_, forall_mem_nil _⟩).2.1
    (accepts_of_action ?_)⟩
  · exact Option.isNone_iff_eq_none.mp (by decide +kernel)
  · decide +kernel

theorem rejects_of_isSome
    (h : ((applyRebalanceStep replicator step).run s).1.toOption.isSome = false) :
    ¬s.Accepts replicator (.apply step) := by
  rintro ⟨table, hok⟩
  rw [hok] at h
  cases h

/-- A server with Raft moves the primary of its shard.  The step fails with the table
changed: the last of its entries is refused by the group of the new table.  A server without Raft
fails with the table changed if the membership cannot be saved. -/
theorem failed_transfer_changes_table :
    ((machine (ackedBy [1, 2])).Reachable (joining (raftServer [1, 2, 3])) ∧
      ¬(joining (raftServer [1, 2, 3])).Accepts (ackedBy [1, 2]) (.apply (.transferPrimary 0 1 2)) ∧
      (joining (raftServer [1, 2, 3])).core.routingTable.version = 1 ∧
      ((machine (ackedBy [1, 2])).next (joining (raftServer [1, 2, 3]))
        ⟨.apply (.transferPrimary 0 1 2), []⟩).core.routingTable.version = 2) ∧
    ∃ s : ClusterDatabase Unit, (machine (noopShardReplicator Command)).Reachable s ∧
      s.core.raftGroups = none ∧ s.core.routingTable.version = 1 ∧
      ¬(s.withSaves [.error (.io "No space left on device")]).Accepts (noopShardReplicator Command)
        (.apply (.transferPrimary 0 1 2)) ∧
      ((machine (noopShardReplicator Command)).next s ⟨.apply (.transferPrimary 0 1 2),
        [.error (.io "No space left on device")]⟩).core.routingTable.version = 2 := by
  have hthree : (raftTable 1 [1, 2, 3]).WellFormed 1 :=
    wellFormed_raftTable (by decide) (by decide)
  have htwo : (raftTable 1 [1, 2]).WellFormed 1 := wellFormed_raftTable (by decide) (by decide)
  exact ⟨⟨.start hthree, rejects_of_isSome _ (by decide +kernel), by decide +kernel,
    by decide +kernel⟩, joining { graphServer with routingTable := raftTable 1 [1, 2] },
    .start htwo, rfl, rfl, rejects_of_isSome _ (by decide +kernel), by decide +kernel⟩

end ClusterDatabase

end Db

end Neo4r
