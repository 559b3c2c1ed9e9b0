/-
  `Db.PrimaryTransfer`: when a step is accepted.

  Without Raft groups a step is accepted if its table can be formed, as long as its saves
  succeed.  For a transfer this asks the assignment of the target, which has the position that
  was reported when the server was added.  A server of the first table has no assignment at all,
  and nothing is asked of it.
-/
import Neo4r.Db.RoutingInvariant

set_option autoImplicit false

namespace Neo4r

open List ShardRoutingTable

/-! ## Lookups in a table -/

namespace ShardRoutingTable

variable {table : ShardRoutingTable} {shardCount : Nat} {shardId : Nat} {placement : ShardPlacement}

theorem WellFormed.exists_placement (h : table.WellFormed shardCount)
    (hshard : shardId < shardCount) :
    ∃ placement, table.placement shardId = some placement ∧ placement.WellPlaced := by
  have hmem : shardId ∈ table.placements.map (·.shardId) :=
    h.shards.mem_iff.mpr (mem_range.mpr hshard)
  obtain ⟨placement, hplace, hid⟩ := mem_map.mp hmem
  have hsome : (table.placement shardId).isSome = true := by
    rw [ShardRoutingTable.placement, find?_isSome]
    exact ⟨placement, hplace, decide_eq_true hid⟩
  obtain ⟨found, hfound⟩ := Option.isSome_iff_exists.mp hsome
  exact ⟨found, hfound, h.placed found (mem_of_find?_eq_some hfound)⟩

theorem placement_shardId (h : table.placement shardId = some placement) :
    placement.shardId = shardId :=
  of_decide_eq_true (find?_some h :)

theorem placement_mem (h : table.placement shardId = some placement) :
    placement ∈ table.placements :=
  mem_of_find?_eq_some h

/-- In a well formed table a placement is the one of its shard. -/
theorem WellFormed.placement_of_mem (h : table.WellFormed shardCount)
    (hmem : placement ∈ table.placements) : table.placement placement.shardId = some placement := by
  have hsome : (table.placement placement.shardId).isSome = true := by
    rw [ShardRoutingTable.placement, find?_isSome]
    exact ⟨placement, hmem, decide_eq_true rfl⟩
  obtain ⟨found, hfound⟩ := Option.isSome_iff_exists.mp hsome
  have hdist : (table.placements.map (·.shardId)).Nodup := h.shards.nodup_iff.mpr nodup_range
  rw [hfound, inj_on_of_nodup_map hdist (placement_mem hfound) hmem (placement_shardId hfound)]

end ShardRoutingTable

theorem forM_ok {α ε : Type} {f : α → Except ε Unit} :
    ∀ {l : List α}, (∀ a ∈ l, f a = .ok ()) → l.forM f = .ok ()
  | [], _ => rfl
  | a :: l, h => by
      change (f a >>= fun _ => l.forM f) = .ok ()
      rw [h a mem_cons_self]
      exact forM_ok fun b hb => h b (.tail _ hb)

namespace Db

open Foundation Raft Fallible

/-- A well formed table passes the checks. -/
theorem validateRoutingTable_ok {table : ShardRoutingTable} {shardCount : Nat}
    (h : table.WellFormed shardCount) (hver : table.version ≠ 0) :
    Database.validateRoutingTable table shardCount = .ok () := by
  have hlen : table.placements.length = shardCount := by
    rw [← length_map (·.shardId), h.shards.length_eq, length_range]
  rw [Database.validateRoutingTable, if_neg hver, if_neg (not_not_intro hlen)]
  refine forM_ok fun shard hshard => ?_
  obtain ⟨place, hfound, hplaced⟩ := h.exists_placement (mem_range.mp hshard)
  have hprim : place.primaryServerId ≠ none :=
    Option.isSome_iff_ne_none.mp hplaced.primaryServerId_isSome
  rw [hfound]
  exact if_neg hprim

namespace ClusterDatabase

variable {R : Type} {replicator : ShardReplicator Command R} {s : ClusterDatabase R}
  {step : RebalanceStep}

/-! ## Acceptance -/

/-- The first placement of the shard is edited. -/
theorem editPlacement_iff {shard : Nat}
    {edit : ShardPlacement → Except DatabaseError ShardPlacement}
    {placements : List ShardPlacement} :
    (∃ placements', editPlacement shard edit placements = .ok placements') ↔
      ∃ place placement',
        placements.find? (fun place => place.shardId = shard) = some place ∧
        edit place = .ok placement' := by
  induction placements with
  | nil => simp [editPlacement]
  | cons first placements ih =>
    rw [editPlacement]
    by_cases hshard : first.shardId = shard
    · rw [if_pos hshard, find?_cons_of_pos (by simpa using hshard)]
      cases hedit : edit first with
      | error => simp [hedit, Bind.bind, Except.bind]
      | ok => simp [hedit, Bind.bind, Except.bind, pure, Except.pure]
    · rw [if_neg hshard, find?_cons_of_neg (by simpa using hshard), ← ih]
      cases editPlacement shard edit placements with
      | error => simp [Bind.bind, Except.bind]
      | ok => simp [Bind.bind, Except.bind, pure, Except.pure]

/-- The server changes the table on its own: it is the authority and has no Raft groups.  None of
its saves fails. -/
structure Standing (s : ClusterDatabase R) : Prop where
  authority : s.authorityServerId = s.core.config.serverId
  withoutRaft : s.core.raftGroups = none
  wellFormed : s.core.routingTable.WellFormed s.core.shardCount
  version : s.core.routingTable.version ≤ u64Max
  saving : s.Saving

/-- The replicator takes every table, as both replicators do. -/
def TakesTables (replicator : ShardReplicator Command R) : Prop :=
  ∀ table r, ∃ r', (replicator.installRoutingTable table).run r = (.ok (), r')

theorem Standing.ensureMetadataAuthority (h : s.Standing) :
    s.ensureMetadataAuthority = .ok () :=
  if_neg (not_not_intro h.authority)

variable {table : ShardRoutingTable} {serverId : Nat} {placement : ShardPlacement}

/-- The table of a step is well formed. -/
theorem Standing.tableAfter_wellFormed (h : s.Standing) (htable : s.tableAfter step = .ok table) :
    table.WellFormed s.core.shardCount := by
  obtain ⟨-, -, hplaces⟩ := tableAfter_ok htable
  obtain ⟨before, placement, placement', after, hbefore, hafter, -, hedit, -⟩ :=
    editPlacement_ok hplaces
  obtain ⟨hshards, hplaced⟩ := h.wellFormed
  rw [hbefore] at hshards hplaced
  rw [forall_mem_append, forall_mem_cons] at hplaced
  refine ⟨?_, ?_⟩
  · rwa [hafter, map_append, map_cons, shardId_editOf hedit, ← map_cons, ← map_append]
  · rw [hafter, forall_mem_append, forall_mem_cons]
    exact ⟨hplaced.1, wellPlaced_editOf hplaced.2.1 hedit, hplaced.2.2⟩

/-- The table of a step passes the checks, as long as the version can rise. -/
theorem Standing.checkNewTable (h : s.Standing) (htable : s.tableAfter step = .ok table) :
    Database.checkNewTable s.authorityServerId table s.core = .ok () ↔
      s.core.routingTable.version < u64Max := by
  obtain ⟨-, hver, -⟩ := tableAfter_ok htable
  constructor
  · intro hcheck
    have hrise := version_of_checkNewTable hcheck
    rw [hver, saturatingAdd] at hrise
    omega
  · intro hroom
    rw [saturatingAdd_one_of_lt hroom] at hver
    have hvalid : Database.validateRoutingTable table s.core.shardCount = .ok () :=
      validateRoutingTable_ok (h.tableAfter_wellFormed htable) (by omega)
    rw [Database.checkNewTable, if_neg (not_not_intro h.authority), hvalid]
    exact if_neg (by omega)

/-- **A step is accepted** if its table can be formed and the version can rise. -/
theorem Standing.accepts_iff (h : s.Standing) (htakes : TakesTables replicator) :
    s.Accepts replicator (.apply step) ↔
      (∃ table, s.tableAfter step = .ok table) ∧ s.core.routingTable.version < u64Max := by
  rcases @applyRebalanceStep_cases R replicator s h.withoutRaft step with
    ⟨err, r, hres, hrejected⟩ | ⟨table, r, htable, hcheck, hrun⟩
  · refine iff_of_false ?_ ?_
    · rintro ⟨table, hok⟩
      rw [hres] at hok
      cases hok
    · rintro ⟨⟨table, htable⟩, hroom⟩
      rcases hrejected with hauth | hnone | ⟨table', htable', hcheck | ⟨err', r', herror⟩⟩
      · exact hauth h.ensureMetadataAuthority
      · exact hnone table htable
      · exact hcheck ((h.checkNewTable htable').mpr hroom)
      · obtain ⟨r'', hok⟩ := htakes table' s.core.replicator
        cases hok.symm.trans herror
  · obtain ⟨t, hfinish⟩ :=
      finishStep_ok step (s := { s with core := withTable s.core r table }) h.saving
    rw [run_bind_of_ok hfinish] at hrun
    exact iff_of_true ⟨table, congrArg Prod.fst hrun⟩
      ⟨⟨table, htable⟩, (h.checkNewTable htable).mp hcheck⟩

/-- A step leads to a table if the assignments allow it and the placement can be edited. -/
theorem tableAfter_iff :
    (∃ table, s.tableAfter step = .ok table) ↔ s.ensureReady step = .ok () ∧
      ∃ placement placement', s.core.routingTable.placement (shardOf step) = some placement ∧
        editOf step placement = .ok placement' := by
  rw [placement, ← editPlacement_iff]
  constructor
  · rintro ⟨table, htable⟩
    obtain ⟨hready, -, hplaces⟩ := tableAfter_ok htable
    exact ⟨hready, _, hplaces⟩
  · rintro ⟨hready, placements, hplaces⟩
    refine ⟨⟨saturatingAdd s.core.routingTable.version 1, placements⟩, ?_⟩
    rw [tableAfter, hready]
    rw [hplaces]
    rfl

/-! ## Transfers -/

variable {shardId fromServer toServer : Nat}

/-- The step moves the primary from the server that has it to a server of the shard. -/
def Transfers (shardId fromServer toServer : Nat) (s : ClusterDatabase R) : Prop :=
  ∃ placement, s.core.routingTable.placement shardId = some placement ∧
    placement.primaryServerId = some fromServer ∧ placement.hasServer toServer = true

/-- The assignments from which a primary may be made. -/
def TransferReady (state : ShardAssignmentState) : Prop :=
  state = .caughtUp ∨ state = .servingReplica ∨ state = .servingPrimary

theorem ensurePrimaryTransferTargetReady_ok (hshard : shardId < s.core.shardCount) :
    s.ensurePrimaryTransferTargetReady shardId serverId = .ok () ↔
      ∀ assignment, s.assignment shardId serverId = some assignment →
        TransferReady assignment.state ∧ s.core.commitIndexes shardId ≤ assignment.matchIndex := by
  rw [ensurePrimaryTransferTargetReady]
  cases hassign : s.assignment shardId serverId with
  | none => simp
  | some assignment =>
    have hcomm : s.committedIndex shardId = .ok (s.core.commitIndexes shardId) := if_pos hshard
    have hmatch : s.ensureAssignmentMatchIndex shardId serverId assignment.matchIndex = .ok () ↔
        s.core.commitIndexes shardId ≤ assignment.matchIndex := by
      rw [ensureAssignmentMatchIndex, hcomm]
      change (if _ then _ else _) = _ ↔ _
      split <;> simp_all
    simp only [Option.some.injEq, forall_eq', TransferReady, ← hmatch]
    split
    · next hready => exact (and_iff_right hready).symm
    · next hready => exact iff_of_false (by simp) fun hboth => hready hboth.1

theorem editOf_transfer (hfrom : placement.primaryServerId = some fromServer)
    (hto : placement.hasServer toServer = true) :
    editOf (.transferPrimary shardId fromServer toServer) placement = .ok { placement with
      replicas := placement.replicas.map fun replica =>
        ⟨replica.serverId, if replica.serverId = toServer then .primary else .replica⟩ } := by
  rw [editOf, if_neg (not_not_intro hfrom), hto]
  rfl

theorem transfer_tableAfter_iff :
    (∃ table, s.tableAfter (.transferPrimary shardId fromServer toServer) = .ok table) ↔
      s.ensurePrimaryTransferTargetReady shardId toServer = .ok () ∧
        s.Transfers shardId fromServer toServer := by
  rw [tableAfter_iff]
  refine and_congr_right fun _ => exists_congr fun placement => ?_
  constructor
  · rintro ⟨placement', hfound, hedit⟩
    obtain ⟨hfrom, hto, -⟩ := editOf_ok hedit
    exact ⟨hfound, hfrom, hto⟩
  · rintro ⟨hfound, hfrom, hto⟩
    exact ⟨_, hfound, editOf_transfer hfrom hto⟩

theorem shard_lt (h : s.core.routingTable.WellFormed s.core.shardCount)
    (hfound : s.core.routingTable.placement shardId = some placement) :
    shardId < s.core.shardCount := by
  rw [← placement_shardId hfound, ← mem_range]
  exact h.shards.mem_iff.mp (mem_map_of_mem (placement_mem hfound))

theorem tableAfter_of_accepts (h : s.Accepts replicator (.apply step)) :
    ∃ table, s.tableAfter step = .ok table := by
  obtain ⟨table, hok⟩ := h
  obtain ⟨_, t, hauth, hrest⟩ :=
    Fallible.of_bind_ok (Prod.ext hok rfl)
  obtain ⟨-, rfl⟩ := Fallible.of_lookup_ok hauth
  obtain ⟨table', t', htable, -⟩ := Fallible.of_bind_ok hrest
  exact ⟨table', (Fallible.of_lookup_ok htable).1⟩

theorem accepts_of_isSome
    (h : ((applyRebalanceStep replicator step).run s).1.toOption.isSome = true) :
    s.Accepts replicator (.apply step) := by
  cases hres : ((applyRebalanceStep replicator step).run s).1 with
  | error =>
    rw [hres] at h
    cases h
  | ok table => exact ⟨table, hres⟩

end ClusterDatabase

end Db

end Neo4r
