/-
  `Storage.GraphStore`: the graph in a key-value store
  (`neo4r-storage/src/kv.rs`, `graph_store.rs`).

  Every key of the store is the bytes of a range followed by the eight bytes of an
  identifier, with the length of each component of the range in front of it.  A key is
  therefore a range and an identifier here, and a scan over the bytes of a range is the
  list of the identifiers under it, in increasing order, with the values.  Values are
  empty under index keys and encoded commands under the keys of records.

  A mutation reads the store, collects a batch and writes it at the end; so an operation
  is a function from the store to its batch, and one that fails changes nothing.  The
  early returns of the program write nothing, which is the empty batch.
-/
import Neo4r.Core.PropertyGraph
import Neo4r.Db.Error
import Neo4r.Foundation.Fallible
import Neo4r.Foundation.FiniteMap

set_option autoImplicit false

namespace Neo4r.Storage

open Foundation

/-! ## Keys and values -/

/-- A range of keys. -/
inductive KeyRange
  | node
  | boundaryNode
  | relationship
  | index (range : IndexRange)
  deriving DecidableEq, Repr

/-- A key: the identifier is its last eight bytes. -/
structure GraphKey where
  range : KeyRange
  id : Nat
  deriving DecidableEq, Repr

/-- `node_key`. -/
def nodeKey (id : Nat) : GraphKey := ⟨.node, id⟩

/-- `boundary_node_key`. -/
def boundaryNodeKey (id : Nat) : GraphKey := ⟨.boundaryNode, id⟩

/-- `relationship_key`. -/
def relationshipKey (id : Nat) : GraphKey := ⟨.relationship, id⟩

/-- `label_key`, `label_property_key`, `boundary_label_property_key`, `outgoing_key`,
`outgoing_type_key`, `incoming_key` and `incoming_type_key`. -/
def indexKey (range : IndexRange) (id : Nat) : GraphKey := ⟨.index range, id⟩

/-- A stored value: `EMPTY`, or a command as `encode_command` writes it. -/
inductive KvValue
  | empty
  | command (command : Command)
  deriving DecidableEq, Repr

/-- `KvWriteBatch`. -/
abbrev KvWriteBatch := List (FiniteMap.Write GraphKey KvValue)

/-- What `put_node_into_batch` stores. -/
def encodeNode (node : Node) : KvValue := .command (.createNode node.id node.labels node.properties)

/-- What `upsert_boundary_node` stores. -/
def encodeBoundaryNode (node : BoundaryNode) : KvValue :=
  .command (.upsertBoundaryNode node.id node.ownerShard node.labels node.properties node.version)

/-- What `create_relationship_value_into_batch` stores. -/
def encodeRelationship (relationship : Relationship) : KvValue :=
  .command (.createRelationship relationship.id relationship.fromId relationship.toId
    relationship.relType relationship.properties)

/-- `decode_node`. -/
def decodeNode : KvValue → Except StorageError Node
  | .command (.createNode id labels properties) => .ok ⟨id, labels, properties⟩
  | _ => .error (.corruptStore "expected node record")

/-- `decode_boundary_node`. -/
def decodeBoundaryNode : KvValue → Except StorageError BoundaryNode
  | .command (.upsertBoundaryNode id ownerShard labels properties version) =>
    .ok ⟨id, ownerShard, labels, properties, version⟩
  | _ => .error (.corruptStore "expected boundary node record")

/-- `decode_relationship`. -/
def decodeRelationship : KvValue → Except StorageError Relationship
  | .command (.createRelationship id fromId toId relType properties) =>
    .ok ⟨id, fromId, toId, relType, properties⟩
  | _ => .error (.corruptStore "expected relationship record")

/-! ## Reads -/

/-- `KvGraphStore`. -/
structure KvGraphStore where
  kv : FiniteMap GraphKey KvValue

namespace KvGraphStore

/-- `KvGraphStore::new` on a store without keys. -/
def new : KvGraphStore := ⟨.empty⟩

/-- The record under a key, decoded. -/
def record {α : Type} (store : KvGraphStore) (decode : KvValue → Except StorageError α)
    (key : GraphKey) : Except StorageError (Option α) :=
  match store.kv.get key with
  | none => .ok none
  | some value => (decode value).map some

variable (store : KvGraphStore) (id : Nat)

/-- `node`. -/
def node : Except StorageError (Option Node) := store.record decodeNode (nodeKey id)

/-- `boundary_node`. -/
def boundaryNode : Except StorageError (Option BoundaryNode) :=
  store.record decodeBoundaryNode (boundaryNodeKey id)

/-- `relationship`. -/
def relationship : Except StorageError (Option Relationship) :=
  store.record decodeRelationship (relationshipKey id)

/-- `ids_from_keys` of a scan over a range. -/
def scanIds (range : KeyRange) : List Nat :=
  (store.kv.keys.filterMap fun key =>
    if key.range = range then some key.id else none).insertionSort (· ≤ ·)

/-- `scan_prefix` over a range: identifiers and values, by identifier. -/
def scanPrefix (range : KeyRange) : List (Nat × KvValue) :=
  (store.scanIds range).filterMap fun id => (store.kv.get ⟨range, id⟩).map fun value => (id, value)

/-- `nodes`. -/
def nodes : Except StorageError (List Node) :=
  (store.scanPrefix .node).mapM fun entry => decodeNode entry.2

/-- `node_ids`. -/
def nodeIds : List Nat := store.scanIds .node

/-- `boundary_nodes`. -/
def boundaryNodes : Except StorageError (List BoundaryNode) :=
  (store.scanPrefix .boundaryNode).mapM fun entry => decodeBoundaryNode entry.2

/-- `relationships`. -/
def relationships : Except StorageError (List Relationship) :=
  (store.scanPrefix .relationship).mapM fun entry => decodeRelationship entry.2

/-- `node_ids_by_label`. -/
def nodeIdsByLabel (label : String) : List Nat := store.scanIds (.index (.label label))

/-- `node_ids_by_label_property`. -/
def nodeIdsByLabelProperty (label key : String) (value : Value) : List Nat :=
  store.scanIds (.index (.labelProperty label key value.toKey))

/-- `boundary_node_ids_by_label_property`. -/
def boundaryNodeIdsByLabelProperty (label key : String) (value : Value) :
    List Nat :=
  store.scanIds (.index (.boundaryLabelProperty label key value.toKey))

/-- One step of `relationships_from_index`. -/
def relationshipOfIndex : Except StorageError Relationship := do
  match ← store.relationship id with
  | some relationship => pure relationship
  | none => .error (.corruptStore s!"missing relationship {id}")

/-- `relationships_from_index`. -/
def relationshipsFromIndex (range : IndexRange) :
    Except StorageError (List Relationship) :=
  (store.scanIds (.index range)).mapM store.relationshipOfIndex

/-- `outgoing`. -/
def outgoing (store : KvGraphStore) (nodeId : Nat) : Except StorageError (List Relationship) :=
  store.relationshipsFromIndex (.outgoing nodeId)

/-- `outgoing_by_type`. -/
def outgoingByType (nodeId : Nat) (relType : String) :
    Except StorageError (List Relationship) :=
  store.relationshipsFromIndex (.outgoingType nodeId relType)

/-- `incoming`. -/
def incoming (store : KvGraphStore) (nodeId : Nat) : Except StorageError (List Relationship) :=
  store.relationshipsFromIndex (.incoming nodeId)

/-- `incoming_by_type`. -/
def incomingByType (nodeId : Nat) (relType : String) :
    Except StorageError (List Relationship) :=
  store.relationshipsFromIndex (.incomingType nodeId relType)

/-! ## Pieces of batches -/

/-- Puts an identifier under index ranges. -/
def putIndex (ranges : List IndexRange) (id : Nat) : KvWriteBatch :=
  (ranges.map fun range => indexKey range id).map fun key => .put key .empty

/-- Deletes an identifier under index ranges. -/
def deleteIndex (ranges : List IndexRange) (id : Nat) : KvWriteBatch :=
  (ranges.map fun range => indexKey range id).map .delete

/-- `put_node_into_batch` followed by `index_node_into_batch`. -/
def putNodeIntoBatch (node : Node) : KvWriteBatch :=
  .put (nodeKey node.id) (encodeNode node) :: putIndex node.ranges node.id

/-- `remove_node_indexes_into_batch`. -/
def removeNodeIndexesIntoBatch (node : Node) : KvWriteBatch := deleteIndex node.ranges node.id

/-- `remove_boundary_node_indexes_into_batch`. -/
def removeBoundaryNodeIndexesIntoBatch (node : BoundaryNode) : KvWriteBatch :=
  deleteIndex node.ranges node.id

/-- The batch of `upsert_boundary_node`, when `old` is stored. -/
def putBoundaryNodeIntoBatch (old : Option BoundaryNode) (node : BoundaryNode) : KvWriteBatch :=
  (old.map removeBoundaryNodeIndexesIntoBatch).getD [] ++
    .put (boundaryNodeKey node.id) (encodeBoundaryNode node) :: putIndex node.ranges node.id

variable (relationship : Relationship)

/-- `create_relationship_value_into_batch`. -/
def createRelationshipValueIntoBatch : KvWriteBatch :=
  .put (relationshipKey relationship.id) (encodeRelationship relationship) ::
    putIndex relationship.leavingRanges relationship.id

/-- The batch of `create_relationship`, by whether its target is a node. -/
def createRelationshipIntoBatch (target : Option Node) :
    KvWriteBatch :=
  createRelationshipValueIntoBatch relationship ++
    if target.isSome then putIndex relationship.enteringRanges relationship.id else []

/-- The batch of a change of a node. -/
def changeNodeIntoBatch (change : Node → Option Node) (node : Node) : KvWriteBatch :=
  match change node with
  | none => []
  | some changed => removeNodeIndexesIntoBatch node ++ putNodeIntoBatch changed

/-- The keys of a stored relationship, linked or not. -/
def relationshipKeys : List GraphKey :=
  relationshipKey id :: (relationship.leavingRanges ++ relationship.enteringRanges).map
    fun range => indexKey range id

/-- The deletes of `delete_relationship_into_batch` for a stored relationship. -/
def dropRelationshipIntoBatch : KvWriteBatch := (relationshipKeys id relationship).map .delete

/-- The end of the batch of `delete_node`. -/
def dropNodeIntoBatch (node : Node) : KvWriteBatch :=
  removeNodeIndexesIntoBatch node ++ [.delete (nodeKey id)]

/-! ## Mutations -/

/-- `kv.write_batch`. -/
def writeBatch (batch : KvWriteBatch) : KvGraphStore := ⟨store.kv.writeAll batch⟩

/-- `create_node`. -/
def createNode (node : Node) : Except StorageError KvWriteBatch := pure (putNodeIntoBatch node)

/-- `upsert_boundary_node`. -/
def upsertBoundaryNode (node : BoundaryNode) : Except StorageError KvWriteBatch := do
  let old ← store.boundaryNode node.id
  pure (putBoundaryNodeIntoBatch old node)

/-- `create_relationship`. -/
def createRelationship : Except StorageError KvWriteBatch := do
  let target ← store.node relationship.toId
  pure (createRelationshipIntoBatch relationship target)

/-- The operations that change a stored node. -/
def updateNode (change : Node → Option Node) : Except StorageError KvWriteBatch := do
  let stored ← store.node id
  pure ((stored.map (changeNodeIntoBatch change)).getD [])

/-- The operations that change a stored relationship. -/
def updateRelationship (change : Relationship → Relationship) :
    Except StorageError KvWriteBatch := do
  let stored ← store.relationship id
  pure ((stored.map fun relationship =>
    [.put (relationshipKey id) (encodeRelationship (change relationship))]).getD [])

/-- `delete_relationship_into_batch`. -/
def deleteRelationship : Except StorageError KvWriteBatch := do
  let stored ← store.relationship id
  pure ((stored.map (dropRelationshipIntoBatch id)).getD [])

/-- `delete_node`. -/
def deleteNode : Except StorageError KvWriteBatch := do
  match ← store.node id with
  | none => pure []
  | some node => do
      let relationshipIds := sortedIds (store.scanIds (.index (.outgoing id)) ++
        store.scanIds (.index (.incoming id)))
      let batches ← relationshipIds.mapM store.deleteRelationship
      pure (batches.flatten ++ dropNodeIntoBatch id node)

/-- The batch that a command writes. -/
def mutation : Command → Except StorageError KvWriteBatch
  | .createNode id labels properties => createNode ⟨id, labels, properties⟩
  | .createRelationship id fromId toId relType properties =>
    store.createRelationship ⟨id, fromId, toId, relType, properties⟩
  | .upsertBoundaryNode id ownerShard labels properties version =>
    store.upsertBoundaryNode ⟨id, ownerShard, labels, properties, version⟩
  | .setNodeProperty id key value =>
    store.updateNode id fun node => some (node.withProperty key value)
  | .removeNodeProperty id key => store.updateNode id fun node => some (node.withoutProperty key)
  | .addNodeLabel id label => store.updateNode id fun node => node.withLabel label
  | .removeNodeLabel id label => store.updateNode id fun node => node.withoutLabel label
  | .setRelationshipProperty id key value =>
    store.updateRelationship id fun relationship => relationship.withProperty key value
  | .removeRelationshipProperty id key =>
    store.updateRelationship id fun relationship => relationship.withoutProperty key
  | .deleteRelationship id => store.deleteRelationship id
  | .deleteNode id => store.deleteNode id
  | .clusterConfigChange _ _ _ _ => pure []

/-- `apply`. -/
def apply (command : Command) : Except StorageError KvGraphStore := do
  let batch ← store.mutation command
  pure (store.writeBatch batch)

/-- `apply`, command by command. -/
def applyAll (commands : List Command) :
    Except StorageError KvGraphStore :=
  commands.foldlM apply store

/-! ## Batches of commands -/

/-- `StagedBatchState`: the records that a batch has written so far, or deleted. -/
structure StagedBatchState where
  nodes : FiniteMap Nat (Option Node)
  boundaryNodes : FiniteMap Nat (Option BoundaryNode)
  relationships : FiniteMap Nat (Option Relationship)

/-- `StagedBatchState::default`. -/
def StagedBatchState.new : StagedBatchState := ⟨.empty, .empty, .empty⟩

variable (staged : StagedBatchState)

/-- `staged_node`. -/
def stagedNode (id : Nat) :
    Except StorageError (Option Node) :=
  match staged.nodes.get id with
  | some node => .ok node
  | none => store.node id

/-- `staged_boundary_node`. -/
def stagedBoundaryNode (id : Nat) :
    Except StorageError (Option BoundaryNode) :=
  match staged.boundaryNodes.get id with
  | some node => .ok node
  | none => store.boundaryNode id

/-- `staged_relationship`. -/
def stagedRelationship (id : Nat) :
    Except StorageError (Option Relationship) :=
  match staged.relationships.get id with
  | some relationship => .ok relationship
  | none => store.relationship id

/-- What a command adds to a batch, and the records it stages. -/
abbrev Staging := Except StorageError (KvWriteBatch × StagedBatchState)

/-- A change of a node, in a batch. -/
def updateNodeStaged (id : Nat)
    (change : Node → Option Node) : Staging := do
  match ← store.stagedNode staged id with
  | none => pure ([], staged)
  | some node =>
    match change node with
    | none => pure ([], staged)
    | some changed =>
      pure (changeNodeIntoBatch change node,
        { staged with nodes := staged.nodes.insert id (some changed) })

/-- A change of a relationship, in a batch. -/
def updateRelationshipStaged (id : Nat)
    (change : Relationship → Relationship) : Staging := do
  match ← store.stagedRelationship staged id with
  | none => pure ([], staged)
  | some relationship =>
    pure (createRelationshipValueIntoBatch (change relationship), { staged with
      relationships := staged.relationships.insert id (some (change relationship)) })

/-- `delete_relationship_staged_into_batch`. -/
def deleteRelationshipStaged (id : Nat) : Staging := do
  match ← store.stagedRelationship staged id with
  | none => pure ([], staged)
  | some relationship =>
    pure (dropRelationshipIntoBatch id relationship,
      { staged with relationships := staged.relationships.insert id none })

/-- `delete_relationship_staged_into_batch`, for every identifier. -/
def deleteRelationshipsStaged (store : KvGraphStore) :
    List Nat → StagedBatchState → Staging
  | [], staged => pure ([], staged)
  | id :: ids, staged => do
      let (batch, staged) ← store.deleteRelationshipStaged staged id
      let (batch', staged) ← store.deleteRelationshipsStaged ids staged
      pure (batch ++ batch', staged)

/-- The staged relationships at a node. -/
def stagedIncident (id : Nat) : List Nat :=
  staged.relationships.toList.filterMap fun entry =>
    match entry.2 with
    | some relationship =>
      if relationship.fromId = id ∨ relationship.toId = id then some entry.1 else none
    | none => none

/-- `delete_node_staged_into_batch`. -/
def deleteNodeStaged (id : Nat) : Staging := do
  match ← store.stagedNode staged id with
  | none => pure ([], staged)
  | some node => do
      let relationshipIds := sortedIds (store.scanIds (.index (.outgoing id)) ++
        store.scanIds (.index (.incoming id)) ++ stagedIncident staged id)
      let (batch, staged) ← store.deleteRelationshipsStaged relationshipIds staged
      pure (batch ++ dropNodeIntoBatch id node,
        { staged with nodes := staged.nodes.insert id none })

/-- `apply_into_batch`. -/
def applyIntoBatch : Command → Staging
  | .createNode id labels properties =>
    pure (putNodeIntoBatch ⟨id, labels, properties⟩,
      { staged with nodes := staged.nodes.insert id (some ⟨id, labels, properties⟩) })
  | .createRelationship id fromId toId relType properties => do
      let relationship : Relationship := ⟨id, fromId, toId, relType, properties⟩
      let target ← store.stagedNode staged toId
      pure (createRelationshipIntoBatch relationship target,
        { staged with relationships := staged.relationships.insert id (some relationship) })
  | .upsertBoundaryNode id ownerShard labels properties version => do
      let node : BoundaryNode := ⟨id, ownerShard, labels, properties, version⟩
      let old ← store.stagedBoundaryNode staged id
      pure (putBoundaryNodeIntoBatch old node,
        { staged with boundaryNodes := staged.boundaryNodes.insert id (some node) })
  | .setNodeProperty id key value =>
    store.updateNodeStaged staged id fun node => some (node.withProperty key value)
  | .removeNodeProperty id key =>
    store.updateNodeStaged staged id fun node => some (node.withoutProperty key)
  | .addNodeLabel id label => store.updateNodeStaged staged id fun node => node.withLabel label
  | .removeNodeLabel id label =>
    store.updateNodeStaged staged id fun node => node.withoutLabel label
  | .setRelationshipProperty id key value =>
    store.updateRelationshipStaged staged id fun relationship =>
      relationship.withProperty key value
  | .removeRelationshipProperty id key =>
    store.updateRelationshipStaged staged id fun relationship => relationship.withoutProperty key
  | .deleteRelationship id => store.deleteRelationshipStaged staged id
  | .deleteNode id => store.deleteNodeStaged staged id
  | .clusterConfigChange _ _ _ _ => pure ([], staged)

/-- One round of the loop of `apply_batch`. -/
def stage (progress : KvWriteBatch × StagedBatchState)
    (command : Command) : Staging := do
  let (batch, staged) ← store.applyIntoBatch progress.2 command
  pure (progress.1 ++ batch, staged)

/-- `apply_batch`. -/
def applyBatch (commands : List Command) : Except StorageError KvGraphStore := do
  let (batch, _) ← commands.foldlM store.stage ([], .new)
  pure (store.writeBatch batch)

/-! ## Invariants of the index -/

/-- `GraphInvariantReport`. -/
structure GraphInvariantReport where
  missingIndexKeys : Finset GraphKey
  unexpectedIndexKeys : Finset GraphKey
  deriving DecidableEq

/-- `is_clean`. -/
def GraphInvariantReport.isClean (report : GraphInvariantReport) : Bool :=
  report.missingIndexKeys = ∅ && report.unexpectedIndexKeys = ∅

/-- `expected_node_index_keys`. -/
def expectedNodeIndexKeys (node : Node) : List GraphKey :=
  node.ranges.map fun range => indexKey range node.id

/-- `expected_boundary_node_index_keys`. -/
def expectedBoundaryNodeIndexKeys (node : BoundaryNode) : List GraphKey :=
  node.ranges.map fun range => indexKey range node.id

/-- `expected_relationship_index_keys`. -/
def expectedRelationshipIndexKeys : Except StorageError (List GraphKey) := do
  let target ← store.node relationship.toId
  let ranges := relationship.leavingRanges ++
    if target.isSome then relationship.enteringRanges else []
  pure (ranges.map fun range => indexKey range relationship.id)

/-- `expected_index_keys`. -/
def expectedIndexKeys : Except StorageError (Finset GraphKey) := do
  let nodes ← store.nodes
  let boundaryNodes ← store.boundaryNodes
  let relationships ← store.relationships
  let keys ← relationships.mapM store.expectedRelationshipIndexKeys
  pure (nodes.flatMap expectedNodeIndexKeys ++
    boundaryNodes.flatMap expectedBoundaryNodeIndexKeys ++ keys.flatten).toFinset

/-- `actual_index_keys`. -/
def actualIndexKeys : Finset GraphKey :=
  (store.kv.keys.filter fun key => key.range matches .index _).toFinset

/-- `verify_invariants`. -/
def verifyInvariants : Except StorageError GraphInvariantReport := do
  let expected ← store.expectedIndexKeys
  pure ⟨expected \ store.actualIndexKeys, store.actualIndexKeys \ expected⟩

end KvGraphStore

end Neo4r.Storage
