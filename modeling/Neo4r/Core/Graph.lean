/-
  `Core.Graph`: the in-memory graph (`neo4r-core/src/graph.rs`).

  `GraphState` keeps every record in a map and, next to the records, adjacency lists and
  indexes.  The indexes of the program are a record of their own inside the state; here
  they are fields of the state.  The loops that index a record visit the ranges of
  `nodeRanges` and `boundaryNodeRanges` in order, one entry at a time: `listId` and
  `unlistId` are that one step, for every kind of index.

  An operation that fails leaves behind what it changed before, as in the program.
-/
import Neo4r.Core.PropertyGraph
import Neo4r.Foundation.Fallible
import Neo4r.Foundation.FiniteMap
import Neo4r.Foundation.Word

set_option autoImplicit false

namespace Neo4r

open Foundation Fallible

/-- `LabelPropertyKey`. -/
structure LabelPropertyKey where
  label : String
  propertyKey : String
  propertyValue : ValueKey
  deriving DecidableEq, Repr

/-- `RelationshipTypeKey`. -/
structure RelationshipTypeKey where
  nodeId : Nat
  relType : String
  deriving DecidableEq, Repr

/-- `GraphState`, with the fields of `GraphIndexes`. -/
structure GraphState where
  nodes : FiniteMap Nat Node
  boundaryNodes : FiniteMap Nat BoundaryNode
  relationships : FiniteMap Nat Relationship
  outgoing : FiniteMap Nat (List Nat)
  incoming : FiniteMap Nat (List Nat)
  labelNodes : FiniteMap String (Finset Nat)
  labelPropertyNodes : FiniteMap LabelPropertyKey (Finset Nat)
  boundaryLabelPropertyNodes : FiniteMap LabelPropertyKey (Finset Nat)
  outgoingByType : FiniteMap RelationshipTypeKey (List Nat)
  incomingByType : FiniteMap RelationshipTypeKey (List Nat)
  nextNodeId : Nat
  nextRelationshipId : Nat

namespace GraphState

/-- `GraphState::new`. -/
def new : GraphState where
  nodes := .empty
  boundaryNodes := .empty
  relationships := .empty
  outgoing := .empty
  incoming := .empty
  labelNodes := .empty
  labelPropertyNodes := .empty
  boundaryLabelPropertyNodes := .empty
  outgoingByType := .empty
  incomingByType := .empty
  nextNodeId := 0
  nextRelationshipId := 0

/-! ## Reads -/

variable (g : GraphState) (id : Nat)

/-- `node`. -/
def node : Option Node := g.nodes.get id

/-- `boundary_node`. -/
def boundaryNode : Option BoundaryNode := g.boundaryNodes.get id

/-- `relationship`. -/
def relationship : Option Relationship := g.relationships.get id

/-- The identifiers listed under a range, sets in the order of `sorted_ids`. -/
def ids : IndexRange → List Nat
  | .label label => (g.labelNodes.getOrDefault label).sort (· ≤ ·)
  | .labelProperty label key value =>
    (g.labelPropertyNodes.getOrDefault ⟨label, key, value⟩).sort (· ≤ ·)
  | .boundaryLabelProperty label key value =>
    (g.boundaryLabelPropertyNodes.getOrDefault ⟨label, key, value⟩).sort (· ≤ ·)
  | .outgoing nodeId => g.outgoing.getOrDefault nodeId
  | .outgoingType nodeId relType => g.outgoingByType.getOrDefault ⟨nodeId, relType⟩
  | .incoming nodeId => g.incoming.getOrDefault nodeId
  | .incomingType nodeId relType => g.incomingByType.getOrDefault ⟨nodeId, relType⟩

/-- `node_ids_by_label`. -/
def nodeIdsByLabel (label : String) : List Nat := g.ids (.label label)

/-- `node_ids_by_label_property`. -/
def nodeIdsByLabelProperty (label key : String) (value : Value) : List Nat :=
  g.ids (.labelProperty label key value.toKey)

/-- `boundary_node_ids_by_label_property`. -/
def boundaryNodeIdsByLabelProperty (label key : String) (value : Value) :
    List Nat :=
  g.ids (.boundaryLabelProperty label key value.toKey)

/-- `ensure_node_exists`. -/
def ensureNodeExists : Except GraphError Unit :=
  if (g.nodes.get id).isSome then .ok () else .error (.nodeNotFound id)

/-- The relationships of a list of a node, without those that are not stored. -/
def relationshipsAt (nodeId : Nat) (range : IndexRange) :
    Except GraphError (List Relationship) := do
  g.ensureNodeExists nodeId
  pure ((g.ids range).filterMap g.relationships.get)

/-- `outgoing`. -/
def outgoingRelationships (nodeId : Nat) :
    Except GraphError (List Relationship) :=
  g.relationshipsAt nodeId (.outgoing nodeId)

/-- `outgoing_by_type`. -/
def outgoingRelationshipsByType (nodeId : Nat) (relType : String) :
    Except GraphError (List Relationship) :=
  g.relationshipsAt nodeId (.outgoingType nodeId relType)

/-- `incoming`. -/
def incomingRelationships (nodeId : Nat) :
    Except GraphError (List Relationship) :=
  g.relationshipsAt nodeId (.incoming nodeId)

/-- `incoming_by_type`. -/
def incomingRelationshipsByType (nodeId : Nat) (relType : String) :
    Except GraphError (List Relationship) :=
  g.relationshipsAt nodeId (.incomingType nodeId relType)

/-! ## Index entries -/

/-- Lists an identifier under a range. -/
def listId (g : GraphState) : IndexRange → GraphState
  | .label label =>
    { g with labelNodes := g.labelNodes.modifyOrDefault label (insert id) }
  | .labelProperty label key value =>
    { g with labelPropertyNodes :=
        g.labelPropertyNodes.modifyOrDefault ⟨label, key, value⟩ (insert id) }
  | .boundaryLabelProperty label key value =>
    { g with boundaryLabelPropertyNodes :=
        g.boundaryLabelPropertyNodes.modifyOrDefault ⟨label, key, value⟩ (insert id) }
  | .outgoing nodeId =>
    { g with outgoing := g.outgoing.modifyOrDefault nodeId (· ++ [id]) }
  | .outgoingType nodeId relType =>
    { g with outgoingByType := g.outgoingByType.modifyOrDefault ⟨nodeId, relType⟩ (· ++ [id]) }
  | .incoming nodeId =>
    { g with incoming := g.incoming.modifyOrDefault nodeId (· ++ [id]) }
  | .incomingType nodeId relType =>
    { g with incomingByType := g.incomingByType.modifyOrDefault ⟨nodeId, relType⟩ (· ++ [id]) }

/-- `remove_node_id`. -/
def removeNodeId (ids : Finset Nat) : Finset Nat := ids.erase id

/-- `remove_relationship_id`. -/
def removeRelationshipId (ids : List Nat) : List Nat := ids.filter fun candidate => candidate ≠ id

/-- Takes an identifier out of a range. -/
def unlistId (g : GraphState) : IndexRange → GraphState
  | .label label =>
    { g with labelNodes := g.labelNodes.modify label (removeNodeId id) }
  | .labelProperty label key value =>
    { g with labelPropertyNodes :=
        g.labelPropertyNodes.modify ⟨label, key, value⟩ (removeNodeId id) }
  | .boundaryLabelProperty label key value =>
    { g with boundaryLabelPropertyNodes :=
        g.boundaryLabelPropertyNodes.modify ⟨label, key, value⟩ (removeNodeId id) }
  | .outgoing nodeId =>
    { g with outgoing := g.outgoing.modify nodeId (removeRelationshipId id) }
  | .outgoingType nodeId relType =>
    { g with outgoingByType := g.outgoingByType.modify ⟨nodeId, relType⟩ (removeRelationshipId id) }
  | .incoming nodeId =>
    { g with incoming := g.incoming.modify nodeId (removeRelationshipId id) }
  | .incomingType nodeId relType =>
    { g with incomingByType := g.incomingByType.modify ⟨nodeId, relType⟩ (removeRelationshipId id) }

/-- `index_node`. -/
def indexNode (node : Node) : GraphState := node.ranges.foldl (listId node.id) g

/-- `remove_node_index`. -/
def removeNodeIndex (node : Node) : GraphState := node.ranges.foldl (unlistId node.id) g

/-- `index_boundary_node`. -/
def indexBoundaryNode (node : BoundaryNode) : GraphState := node.ranges.foldl (listId node.id) g

/-- `remove_boundary_node_index`. -/
def removeBoundaryNodeIndex (node : BoundaryNode) : GraphState :=
  node.ranges.foldl (unlistId node.id) g

variable (relationship : Relationship)

/-- `index_relationship`. -/
def indexRelationship (hasLocalTo : Bool) :
    GraphState :=
  let g := g.listId relationship.id (.outgoingType relationship.fromId relationship.relType)
  if hasLocalTo then
    g.listId relationship.id (.incomingType relationship.toId relationship.relType)
  else g

/-- `remove_relationship_index`. -/
def removeRelationshipIndex (hasLocalTo : Bool) :
    GraphState :=
  let g := g.unlistId relationship.id (.outgoingType relationship.fromId relationship.relType)
  if hasLocalTo then
    g.unlistId relationship.id (.incomingType relationship.toId relationship.relType)
  else g

/-! ## Mutations -/

/-- An operation on a graph. -/
abbrev Op (α : Type) : Type := Fallible GraphError GraphState α

/-- The end of `create_node`. -/
def insertNode (node : Node) : GraphState :=
  let id := node.id
  let g := { g with nextNodeId := max g.nextNodeId (saturatingAdd id 1) }
  let g := g.indexNode node
  { g with
    nodes := g.nodes.insert id node
    outgoing := g.outgoing.modifyOrDefault id fun ids => ids
    incoming := g.incoming.modifyOrDefault id fun ids => ids }

/-- `create_node`. -/
def createNode (labels : List String) (properties : Properties) : Op Unit := do
  let g ← current
  if (g.nodes.get id).isSome then fail (.nodeAlreadyExists id)
  else change fun g => g.insertNode ⟨id, labels, properties⟩

/-- The end of `create_relationship`, for a target that is stored or not. -/
def insertRelationship (hasLocalTo : Bool) :
    GraphState :=
  let id := relationship.id
  let g := { g with nextRelationshipId := max g.nextRelationshipId (saturatingAdd id 1) }
  let g := g.indexRelationship relationship hasLocalTo
  let g := { g with relationships := g.relationships.insert id relationship }
  let g := g.listId id (.outgoing relationship.fromId)
  if hasLocalTo then g.listId id (.incoming relationship.toId) else g

/-- `create_relationship`. -/
def createRelationship (id fromId toId : Nat) (relType : String) (properties : Properties) :
    Op Unit := do
  let g ← current
  if (g.relationships.get id).isSome then fail (.relationshipAlreadyExists id)
  else if (g.nodes.get fromId).isNone then
    fail (.relationshipEndpointNotFound id fromId)
  else if (g.nodes.get toId).isNone then
    if (g.boundaryNodes.get toId).isSome then
      change fun g => g.insertRelationship ⟨id, fromId, toId, relType, properties⟩ false
    else fail (.relationshipEndpointNotFound id toId)
  else change fun g => g.insertRelationship ⟨id, fromId, toId, relType, properties⟩ true

/-- The body of `upsert_boundary_node`. -/
def putBoundaryNode (node : BoundaryNode) : GraphState :=
  let g := match g.boundaryNodes.get node.id with
    | some old => g.removeBoundaryNodeIndex old
    | none => g
  let g := g.indexBoundaryNode node
  { g with boundaryNodes := g.boundaryNodes.insert node.id node }

/-- `upsert_boundary_node`. -/
def upsertBoundaryNode (id ownerShard : Nat) (labels : List String) (properties : Properties)
    (version : Nat) : Op Unit :=
  change fun g => g.putBoundaryNode ⟨id, ownerShard, labels, properties, version⟩

/-- Puts a changed node in the place of a stored one. -/
def replaceNode (node changed : Node) : GraphState :=
  let g := (g.removeNodeIndex node).indexNode changed
  { g with nodes := g.nodes.insert id changed }

/-- The operations that change a stored node, unless there is nothing to change. -/
def updateNode (change : Node → Option Node) : Op Unit := do
  let g ← current
  match g.nodes.get id with
  | none => fail (.nodeNotFound id)
  | some node =>
    match change node with
    | none => pure ()
    | some changed => Fallible.change fun g => g.replaceNode id node changed

/-- `set_node_property`. -/
def setNodeProperty (key : String) (value : Value) : Op Unit :=
  updateNode id fun node => some (node.withProperty key value)

/-- `remove_node_property`. -/
def removeNodeProperty (key : String) : Op Unit :=
  updateNode id fun node => some (node.withoutProperty key)

/-- `add_node_label`. -/
def addNodeLabel (label : String) : Op Unit := updateNode id fun node => node.withLabel label

/-- `remove_node_label`. -/
def removeNodeLabel (label : String) : Op Unit := updateNode id fun node => node.withoutLabel label

/-- The operations that change a stored relationship. -/
def updateRelationship (change : Relationship → Relationship) : Op Unit := do
  let g ← current
  match g.relationships.get id with
  | none => Fallible.fail (.relationshipNotFound id)
  | some relationship => Fallible.change fun g =>
    { g with relationships := g.relationships.insert id (change relationship) }

/-- `set_relationship_property`. -/
def setRelationshipProperty (key : String) (value : Value) : Op Unit :=
  updateRelationship id fun relationship => relationship.withProperty key value

/-- `remove_relationship_property`. -/
def removeRelationshipProperty (key : String) : Op Unit :=
  updateRelationship id fun relationship => relationship.withoutProperty key

/-- The end of `delete_relationship`. -/
def dropRelationship : GraphState :=
  let g := { g with relationships := g.relationships.erase id }
  let g := g.removeRelationshipIndex relationship (g.nodes.get relationship.toId).isSome
  let g := g.unlistId id (.outgoing relationship.fromId)
  g.unlistId id (.incoming relationship.toId)

/-- `delete_relationship`. -/
def deleteRelationship : Op Unit := do
  let g ← current
  match g.relationships.get id with
  | none => fail (.relationshipNotFound id)
  | some relationship => change fun g => g.dropRelationship id relationship

/-- The end of `delete_node`. -/
def dropNode (g : GraphState) : GraphState :=
  let g := match g.nodes.get id with
    | some node => GraphState.removeNodeIndex { g with nodes := g.nodes.erase id } node
    | none => g
  { g with outgoing := g.outgoing.erase id, incoming := g.incoming.erase id }

/-- `delete_node`. -/
def deleteNode : Op Unit := do
  lookup fun g => g.ensureNodeExists id
  let g ← current
  forEach deleteRelationship (sortedIds (g.ids (.outgoing id) ++ g.ids (.incoming id)))
  change (dropNode id)

/-- `GraphState::apply`. -/
def apply : Command → Op Unit
  | .createNode id labels properties => createNode id labels properties
  | .createRelationship id fromId toId relType properties =>
    createRelationship id fromId toId relType properties
  | .upsertBoundaryNode id ownerShard labels properties version =>
    upsertBoundaryNode id ownerShard labels properties version
  | .setNodeProperty id key value => setNodeProperty id key value
  | .removeNodeProperty id key => removeNodeProperty id key
  | .addNodeLabel id label => addNodeLabel id label
  | .removeNodeLabel id label => removeNodeLabel id label
  | .setRelationshipProperty id key value => setRelationshipProperty id key value
  | .removeRelationshipProperty id key => removeRelationshipProperty id key
  | .deleteRelationship id => deleteRelationship id
  | .deleteNode id => deleteNode id
  | .clusterConfigChange _ _ _ _ => pure ()

/-- `GraphState::apply`, command by command, up to the first that is rejected. -/
def applyAll (commands : List Command) : Op Unit := forEach apply commands

/-- The state after a command, applied or rejected. -/
def after (command : Command) : GraphState := ((apply command).run g).2

/-- The state after a sequence of commands. -/
def afterAll (commands : List Command) : GraphState := commands.foldl after g

end GraphState

end Neo4r
