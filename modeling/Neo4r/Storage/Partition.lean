/-
  `Storage.Partition`: a graph store split into local partitions
  (`neo4r-storage/src/partition.rs`).

  Every shard has a local partition, and a command is applied to the partition of the
  shard it comes with.  Reads ask all partitions in order: a record is taken from the
  first partition that has it, lists are put one after the other, and lists of
  identifiers are sorted and deduplicated.
-/
import Neo4r.Foundation.Consecutive
import Neo4r.Storage.GraphStore

set_option autoImplicit false

namespace Neo4r.Storage

open Foundation

/-- `LocalPartitionMap`. -/
structure LocalPartitionMap where
  partitionCount : Nat
  assignments : FiniteMap Nat Nat
  positive : 0 < partitionCount
  inRange : ∀ shardId partitionId, assignments.get shardId = some partitionId →
    partitionId < partitionCount

namespace LocalPartitionMap

/-- `LocalPartitionMap::new`: the map without assignments. -/
def unassigned (partitionCount : Nat) (h : 0 < partitionCount) : LocalPartitionMap :=
  ⟨partitionCount, .empty, h, fun _ _ hget => nomatch (FiniteMap.get_empty _).symm.trans hget⟩

/-- `local_partition_id_for_shard`. -/
def localPartitionIdForShard (map : LocalPartitionMap) (shardId : Nat) : Nat :=
  (map.assignments.get shardId).getD (shardId % map.partitionCount)

theorem localPartitionIdForShard_lt (map : LocalPartitionMap) (shard : Nat) :
    map.localPartitionIdForShard shard < map.partitionCount := by
  rw [localPartitionIdForShard]
  cases hget : map.assignments.get shard with
  | none => exact Nat.mod_lt _ map.positive
  | some partitionId => exact map.inRange shard partitionId hget

end LocalPartitionMap

/-- `PartitionedGraphStore`. -/
structure PartitionedGraphStore where
  partitions : List KvGraphStore
  placement : LocalPartitionMap
  length_eq : partitions.length = placement.partitionCount

namespace PartitionedGraphStore

/-- Partitions without keys. -/
def fresh (placement : LocalPartitionMap) : PartitionedGraphStore :=
  ⟨List.replicate placement.partitionCount .new, placement, List.length_replicate⟩

/-- `apply`. -/
def apply (store : PartitionedGraphStore) (shardId : Nat) (command : Command) :
    Except StorageError PartitionedGraphStore :=
  let index := store.placement.localPartitionIdForShard shardId
  match store.partitions[index]? with
  | none => .error (.corruptStore s!"missing local partition {index}")
  | some partition => do
      let partition ← partition.apply command
      pure ⟨store.partitions.set index partition, store.placement,
        (List.length_set ..).trans store.length_eq⟩

/-- `apply`, command by command. -/
def applyAll (store : PartitionedGraphStore) (commands : List (Nat × Command)) :
    Except StorageError PartitionedGraphStore :=
  commands.foldlM (fun store entry => store.apply entry.1 entry.2) store

/-- A partition is replaced. -/
def setPartition (store : PartitionedGraphStore) (index : Nat) (partition : KvGraphStore) :
    PartitionedGraphStore :=
  ⟨store.partitions.set index partition, store.placement,
    (List.length_set ..).trans store.length_eq⟩

/-- The body of the loop of `apply_batch`: the commands of one partition. -/
def applyToPartition (index : Nat) (commands : List Command) :
    Fallible StorageError PartitionedGraphStore Unit :=
  ⟨fun store => match store.partitions[index]? with
    | none => (.error (.corruptStore s!"missing local partition {index}"), store)
    | some partition => match partition.applyBatch commands with
      | .error err => (.error err, store)
      | .ok partition => (.ok (), store.setPartition index partition)⟩

/-- `apply_batch`: partition by partition, so a failure leaves the earlier partitions with
their commands. -/
def applyBatch (commands : List (Nat × Command)) :
    Fallible StorageError PartitionedGraphStore Unit := do
  let store ← Fallible.current
  let partitionOf := fun entry : Nat × Command => store.placement.localPartitionIdForShard entry.1
  Fallible.forEach (fun index => applyToPartition index
    ((commands.filter fun entry => partitionOf entry = index).map Prod.snd))
    (keysOf partitionOf commands)

/-! ## Reads -/

/-- The first partition with a record. -/
def firstOf {α : Type} (read : KvGraphStore → Except StorageError (Option α)) :
    List KvGraphStore → Except StorageError (Option α)
  | [] => pure none
  | partition :: partitions => do
      match ← read partition with
      | some record => pure (some record)
      | none => firstOf read partitions

/-- The lists of all partitions, one after the other. -/
def concat {α : Type} (read : KvGraphStore → Except StorageError (List α))
    (partitions : List KvGraphStore) : Except StorageError (List α) := do
  let lists ← partitions.mapM read
  pure lists.flatten

/-- `node`. -/
def node (store : PartitionedGraphStore) (id : Nat) : Except StorageError (Option Node) :=
  firstOf (fun partition => partition.node id) store.partitions

/-- `boundary_node`. -/
def boundaryNode (store : PartitionedGraphStore) (id : Nat) :
    Except StorageError (Option BoundaryNode) :=
  firstOf (fun partition => partition.boundaryNode id) store.partitions

/-- `relationship`. -/
def relationship (store : PartitionedGraphStore) (id : Nat) :
    Except StorageError (Option Relationship) :=
  firstOf (fun partition => partition.relationship id) store.partitions

/-- `nodes`. -/
def nodes (store : PartitionedGraphStore) : Except StorageError (List Node) :=
  concat KvGraphStore.nodes store.partitions

/-- `relationships`. -/
def relationships (store : PartitionedGraphStore) : Except StorageError (List Relationship) :=
  concat KvGraphStore.relationships store.partitions

/-- The identifiers of all partitions, sorted and deduplicated. -/
def mergedIds (read : KvGraphStore → List Nat) (store : PartitionedGraphStore) : List Nat :=
  sortedIds (store.partitions.flatMap read)

/-- `node_ids`. -/
def nodeIds (store : PartitionedGraphStore) : List Nat := mergedIds KvGraphStore.nodeIds store

/-- `node_ids_by_label`. -/
def nodeIdsByLabel (store : PartitionedGraphStore) (label : String) : List Nat :=
  mergedIds (fun partition => partition.nodeIdsByLabel label) store

/-- `node_ids_by_label_property`. -/
def nodeIdsByLabelProperty (store : PartitionedGraphStore) (label key : String) (value : Value) :
    List Nat :=
  mergedIds (fun partition => partition.nodeIdsByLabelProperty label key value) store

/-- `boundary_node_ids_by_label_property`. -/
def boundaryNodeIdsByLabelProperty (store : PartitionedGraphStore) (label key : String)
    (value : Value) : List Nat :=
  mergedIds (fun partition => partition.boundaryNodeIdsByLabelProperty label key value) store

/-- `outgoing`. -/
def outgoing (store : PartitionedGraphStore) (nodeId : Nat) :
    Except StorageError (List Relationship) :=
  concat (fun partition => partition.outgoing nodeId) store.partitions

/-- `outgoing_by_type`. -/
def outgoingByType (store : PartitionedGraphStore) (nodeId : Nat) (relType : String) :
    Except StorageError (List Relationship) :=
  concat (fun partition => partition.outgoingByType nodeId relType) store.partitions

/-- `incoming`. -/
def incoming (store : PartitionedGraphStore) (nodeId : Nat) :
    Except StorageError (List Relationship) :=
  concat (fun partition => partition.incoming nodeId) store.partitions

/-- `incoming_by_type`. -/
def incomingByType (store : PartitionedGraphStore) (nodeId : Nat) (relType : String) :
    Except StorageError (List Relationship) :=
  concat (fun partition => partition.incomingByType nodeId relType) store.partitions

end PartitionedGraphStore

end Neo4r.Storage
