/-
  `Core.PropertyGraph`: what a graph is, apart from how it is stored.

  A property graph is its nodes, its boundary nodes and its relationships, together with
  the relationships that are linked at their target.  A relationship is linked when it is
  created towards a stored node; one created towards a boundary node is not, and stays so.
  Everything else that a store keeps is an index, and an index is a set of pairs of a
  range and an identifier: the node under each of its labels, the relationship under the
  node it leaves.  `Indexed` says which pairs these are.

  The in-memory graph and the key-value store both represent property graphs, with the
  same ranges, so what a change of a record does to the index is proved here once.
-/
import Neo4r.Core.Model

set_option autoImplicit false

namespace Neo4r

open Relationship List

/-! ## Ranges -/

/-- A place of the index, where identifiers are listed. -/
inductive IndexRange
  | label (label : String)
  | labelProperty (label propertyKey : String) (propertyValue : ValueKey)
  | boundaryLabelProperty (label propertyKey : String) (propertyValue : ValueKey)
  | outgoing (nodeId : Nat)
  | outgoingType (nodeId : Nat) (relType : String)
  | incoming (nodeId : Nat)
  | incomingType (nodeId : Nat) (relType : String)
  deriving DecidableEq, Repr

/-- The three kinds of records. -/
inductive RecordKind
  | node
  | boundaryNode
  | relationship
  deriving DecidableEq, Repr

/-- The kind of the records whose identifiers a range lists. -/
def IndexRange.kind : IndexRange → RecordKind
  | .label _ | .labelProperty _ _ _ => .node
  | .boundaryLabelProperty _ _ _ => .boundaryNode
  | .outgoing _ | .outgoingType _ _ | .incoming _ | .incomingType _ _ => .relationship

/-- Where a node with these labels and properties is listed, in the order of the loops
that index it. -/
def nodeRanges (labels : List String) (properties : Properties) : List IndexRange :=
  labels.flatMap fun label =>
    .label label :: properties.map fun entry => .labelProperty label entry.1 entry.2.toKey

/-- Where a boundary node with these labels and properties is listed. -/
def boundaryNodeRanges (labels : List String) (properties : Properties) : List IndexRange :=
  labels.flatMap fun label =>
    properties.map fun entry => .boundaryLabelProperty label entry.1 entry.2.toKey

namespace Relationship

/-- Where a relationship is listed as leaving its source. -/
def leavingRanges (relationship : Relationship) : List IndexRange :=
  [.outgoing relationship.fromId, .outgoingType relationship.fromId relationship.relType]

/-- Where a relationship is listed as entering its target. -/
def enteringRanges (relationship : Relationship) : List IndexRange :=
  [.incoming relationship.toId, .incomingType relationship.toId relationship.relType]

variable {relationship : Relationship} {range : IndexRange}

theorem kind_of_mem_leavingRanges (h : range ∈ relationship.leavingRanges) :
    range.kind = .relationship := by
  simp only [leavingRanges, mem_cons, not_mem_nil, or_false] at h
  rcases h with rfl | rfl <;> rfl

theorem kind_of_mem_enteringRanges (h : range ∈ relationship.enteringRanges) :
    range.kind = .relationship := by
  simp only [enteringRanges, mem_cons, not_mem_nil, or_false] at h
  rcases h with rfl | rfl <;> rfl

end Relationship

variable {labels : List String} {properties : Properties} {node : Node} {key : String}
  {value : ValueKey}

theorem kind_of_mem_nodeRanges {range : IndexRange} (h : range ∈ nodeRanges labels properties) :
    range.kind = .node := by
  obtain ⟨label, -, h⟩ := mem_flatMap.mp h
  rcases mem_cons.mp h with rfl | h
  · rfl
  · obtain ⟨entry, -, rfl⟩ := mem_map.mp h
    rfl

theorem kind_of_mem_boundaryNodeRanges {range : IndexRange}
    (h : range ∈ boundaryNodeRanges labels properties) : range.kind = .boundaryNode := by
  obtain ⟨label, -, h⟩ := mem_flatMap.mp h
  obtain ⟨entry, -, rfl⟩ := mem_map.mp h
  rfl

/-- Where a node is listed. -/
def Node.ranges (node : Node) : List IndexRange := nodeRanges node.labels node.properties

/-- Where a boundary node is listed. -/
def BoundaryNode.ranges (node : BoundaryNode) : List IndexRange :=
  boundaryNodeRanges node.labels node.properties

theorem kind_ne_of_mem_nodeRanges : ∀ range ∈ node.ranges, range.kind ≠ .relationship := by
  intro range hmem hkind
  rw [kind_of_mem_nodeRanges hmem] at hkind
  cases hkind

theorem kind_ne_of_mem_boundaryNodeRanges {node : BoundaryNode} :
    ∀ range ∈ node.ranges, range.kind ≠ .relationship := by
  intro range hmem hkind
  rw [kind_of_mem_boundaryNodeRanges hmem] at hkind
  cases hkind

variable {label : String}

theorem label_mem_ranges : .label label ∈ node.ranges ↔ label ∈ node.labels := by
  simp [Node.ranges, nodeRanges]

theorem labelProperty_mem_ranges : .labelProperty label key value ∈ node.ranges ↔
      label ∈ node.labels ∧ ∃ entry ∈ node.properties, entry.1 = key ∧ entry.2.toKey = value := by
  simp only [Node.ranges, nodeRanges, mem_flatMap, mem_cons, mem_map,
    reduceCtorEq, false_or, IndexRange.labelProperty.injEq]
  grind

theorem boundaryLabelProperty_mem_ranges {node : BoundaryNode} :
    .boundaryLabelProperty label key value ∈ node.ranges ↔
      label ∈ node.labels ∧ ∃ entry ∈ node.properties, entry.1 = key ∧ entry.2.toKey = value := by
  simp only [BoundaryNode.ranges, boundaryNodeRanges, mem_flatMap, mem_map,
    IndexRange.boundaryLabelProperty.injEq]
  grind

/-! ## Changes of one record -/

namespace Node

/-- What `SetNodeProperty` makes of a node. -/
def withProperty (node : Node) (key : String) (value : Value) : Node :=
  { node with properties := Properties.insert node.properties key value }

/-- What `RemoveNodeProperty` makes of a node. -/
def withoutProperty (node : Node) (key : String) : Node :=
  { node with properties := Properties.remove node.properties key }

/-- What `AddNodeLabel` makes of a node, unless it has the label already. -/
def withLabel (node : Node) (label : String) : Option Node :=
  if label ∈ node.labels then none else some { node with labels := node.labels ++ [label] }

/-- What `RemoveNodeLabel` makes of a node, if it has the label. -/
def withoutLabel (node : Node) (label : String) : Option Node :=
  if label ∈ node.labels then
    some { node with labels := node.labels.filter fun existing => existing ≠ label }
  else none

end Node

namespace Relationship

/-- What `SetRelationshipProperty` makes of a relationship. -/
def withProperty (relationship : Relationship) (key : String) (value : Value) : Relationship :=
  { relationship with properties := Properties.insert relationship.properties key value }

/-- What `RemoveRelationshipProperty` makes of a relationship. -/
def withoutProperty (relationship : Relationship) (key : String) : Relationship :=
  { relationship with properties := Properties.remove relationship.properties key }

end Relationship

/-! ## Graphs -/

/-- A property graph. -/
structure PropertyGraph where
  nodes : Nat → Option Node
  boundaryNodes : Nat → Option BoundaryNode
  relationships : Nat → Option Relationship
  linked : Set Nat

namespace PropertyGraph

open Function

/-- The graph without records. -/
def empty : PropertyGraph := ⟨fun _ => none, fun _ => none, fun _ => none, ∅⟩

/-- The node of this identifier is listed under the range. -/
def NodeListed (g : PropertyGraph) (range : IndexRange) (id : Nat) : Prop :=
  ∃ node, g.nodes id = some node ∧ range ∈ node.ranges

/-- The boundary node of this identifier is listed under the range. -/
def BoundaryNodeListed (g : PropertyGraph) (range : IndexRange) (id : Nat) : Prop :=
  ∃ node, g.boundaryNodes id = some node ∧ range ∈ node.ranges

/-- The relationship of this identifier is listed under the range. -/
def RelationshipListed (g : PropertyGraph) (range : IndexRange) (id : Nat) : Prop :=
  ∃ relationship, g.relationships id = some relationship ∧
    (range ∈ relationship.leavingRanges ∨ id ∈ g.linked ∧ range ∈ relationship.enteringRanges)

/-- The index of a graph. -/
def Indexed (g : PropertyGraph) (range : IndexRange) (id : Nat) : Prop :=
  g.NodeListed range id ∨ g.BoundaryNodeListed range id ∨ g.RelationshipListed range id

variable {g : PropertyGraph} {range : IndexRange} {id : Nat}

@[grind →] theorem NodeListed.kind (h : g.NodeListed range id) : range.kind = .node := by
  obtain ⟨node, -, h⟩ := h
  exact kind_of_mem_nodeRanges h

@[grind →] theorem BoundaryNodeListed.kind (h : g.BoundaryNodeListed range id) :
    range.kind = .boundaryNode := by
  obtain ⟨node, -, h⟩ := h
  exact kind_of_mem_boundaryNodeRanges h

@[grind →] theorem RelationshipListed.kind (h : g.RelationshipListed range id) :
    range.kind = .relationship := by
  obtain ⟨rel, -, h | ⟨-, h⟩⟩ := h
  · exact kind_of_mem_leavingRanges h
  · exact kind_of_mem_enteringRanges h

/-- Ranges of nodes list nodes only. -/
theorem indexed_iff_nodeListed (hkind : range.kind = .node) :
    g.Indexed range id ↔ g.NodeListed range id := by
  refine ⟨?_, Or.inl⟩
  rintro (h | h | h)
  · exact h
  · exact absurd (hkind.symm.trans h.kind) (by decide)
  · exact absurd (hkind.symm.trans h.kind) (by decide)

/-- Ranges of boundary nodes list boundary nodes only. -/
theorem indexed_iff_boundaryNodeListed (hkind : range.kind = .boundaryNode) :
    g.Indexed range id ↔ g.BoundaryNodeListed range id := by
  refine ⟨?_, fun h => .inr (.inl h)⟩
  rintro (h | h | h)
  · exact absurd (hkind.symm.trans h.kind) (by decide)
  · exact h
  · exact absurd (hkind.symm.trans h.kind) (by decide)

/-- Ranges of relationships list relationships only. -/
theorem indexed_iff_relationshipListed (hkind : range.kind = .relationship) :
    g.Indexed range id ↔ g.RelationshipListed range id := by
  refine ⟨?_, fun h => .inr (.inr h)⟩
  rintro (h | h | h)
  · exact absurd (hkind.symm.trans h.kind) (by decide)
  · exact absurd (hkind.symm.trans h.kind) (by decide)
  · exact h

/-! ## What each range lists -/

variable {nodeId : Nat}

theorem indexed_label :
    g.Indexed (.label label) id ↔ ∃ node, g.nodes id = some node ∧ label ∈ node.labels := by
  rw [indexed_iff_nodeListed rfl]
  simp only [NodeListed, label_mem_ranges]

variable {relType : String}

theorem indexed_labelProperty :
    g.Indexed (.labelProperty label key value) id ↔ ∃ node, g.nodes id = some node ∧
      label ∈ node.labels ∧ ∃ entry ∈ node.properties, entry.1 = key ∧ entry.2.toKey = value := by
  rw [indexed_iff_nodeListed rfl]
  simp only [NodeListed, labelProperty_mem_ranges]

theorem indexed_boundaryLabelProperty : g.Indexed (.boundaryLabelProperty label key value) id ↔
      ∃ node, g.boundaryNodes id = some node ∧ label ∈ node.labels ∧
        ∃ entry ∈ node.properties, entry.1 = key ∧ entry.2.toKey = value := by
  rw [indexed_iff_boundaryNodeListed rfl]
  simp only [BoundaryNodeListed, boundaryLabelProperty_mem_ranges]

theorem indexed_outgoing :
    g.Indexed (.outgoing nodeId) id ↔ ∃ rel, g.relationships id = some rel ∧
      rel.fromId = nodeId := by
  rw [indexed_iff_relationshipListed rfl]
  simp [RelationshipListed, leavingRanges, enteringRanges, eq_comm]

theorem indexed_outgoingType : g.Indexed (.outgoingType nodeId relType) id ↔
      ∃ rel, g.relationships id = some rel ∧ rel.fromId = nodeId ∧ rel.relType = relType := by
  rw [indexed_iff_relationshipListed rfl]
  simp [RelationshipListed, leavingRanges, enteringRanges, eq_comm]

theorem indexed_incoming :
    g.Indexed (.incoming nodeId) id ↔ ∃ rel, g.relationships id = some rel ∧
      id ∈ g.linked ∧ rel.toId = nodeId := by
  rw [indexed_iff_relationshipListed rfl]
  simp [RelationshipListed, leavingRanges, enteringRanges, eq_comm]

theorem indexed_incomingType : g.Indexed (.incomingType nodeId relType) id ↔
      ∃ rel, g.relationships id = some rel ∧ id ∈ g.linked ∧
        rel.toId = nodeId ∧ rel.relType = relType := by
  rw [indexed_iff_relationshipListed rfl]
  simp [RelationshipListed, leavingRanges, enteringRanges, eq_comm]

theorem not_indexed_empty (range : IndexRange) (id : Nat) : ¬empty.Indexed range id := by
  rintro (⟨_, h, -⟩ | ⟨_, h, -⟩ | ⟨_, h, -⟩) <;> cases h

/-! ## Operations -/

/-- The graph with a node put in. -/
def putNode (g : PropertyGraph) (node : Node) : PropertyGraph :=
  { g with nodes := update g.nodes node.id (some node) }

/-- The graph with a node taken out. -/
def eraseNode (g : PropertyGraph) (id : Nat) : PropertyGraph :=
  { g with nodes := update g.nodes id none }

/-- The graph with a boundary node put in. -/
def putBoundaryNode (g : PropertyGraph) (node : BoundaryNode) : PropertyGraph :=
  { g with boundaryNodes := update g.boundaryNodes node.id (some node) }

/-- The graph with a relationship put in; whether it is linked stays. -/
def putRelationship (g : PropertyGraph) (relationship : Relationship) : PropertyGraph :=
  { g with relationships := update g.relationships relationship.id (some relationship) }

/-- The graph with a relationship created, linked if its target is stored. -/
def addRelationship (g : PropertyGraph) (relationship : Relationship) : PropertyGraph :=
  { g.putRelationship relationship with
    linked := { id | (id = relationship.id ∧ (g.nodes relationship.toId).isSome) ∨
      (id ≠ relationship.id ∧ id ∈ g.linked) } }

open Classical in
/-- The graph without some relationships. -/
noncomputable def eraseRelationships (g : PropertyGraph) (ids : Set Nat) : PropertyGraph :=
  { g with
    relationships := fun id => if id ∈ ids then none else g.relationships id
    linked := g.linked \ ids }

variable (g : PropertyGraph) (id : Nat)

theorem nodes_putNode (node : Node) :
    (g.putNode node).nodes id = if id = node.id then some node else g.nodes id :=
  update_apply g.nodes node.id (some node) id

theorem nodes_eraseNode (nodeId : Nat) :
    (g.eraseNode nodeId).nodes id = if id = nodeId then none else g.nodes id :=
  update_apply g.nodes nodeId none id

theorem boundaryNodes_putBoundaryNode (node : BoundaryNode) :
    (g.putBoundaryNode node).boundaryNodes id =
      if id = node.id then some node else g.boundaryNodes id :=
  update_apply g.boundaryNodes node.id (some node) id

variable (relationship : Relationship)

theorem relationships_putRelationship : (g.putRelationship relationship).relationships id =
      if id = relationship.id then some relationship else g.relationships id :=
  update_apply g.relationships relationship.id (some relationship) id

theorem relationships_addRelationship : (g.addRelationship relationship).relationships id =
      if id = relationship.id then some relationship else g.relationships id :=
  relationships_putRelationship g id relationship

theorem relationships_eraseRelationships {ids : Set Nat} {relationship : Relationship} :
    (g.eraseRelationships ids).relationships id = some relationship ↔
      id ∉ ids ∧ g.relationships id = some relationship := by
  by_cases hid : id ∈ ids <;> simp [eraseRelationships, hid]

/-- Relationships can be taken out one after the other. -/
theorem eraseRelationships_eraseRelationships (g : PropertyGraph) (ids ids' : Set Nat) :
    (g.eraseRelationships ids).eraseRelationships ids' = g.eraseRelationships (ids ∪ ids') := by
  unfold eraseRelationships
  congr 1
  · funext id
    by_cases hid : id ∈ ids <;> by_cases hid' : id ∈ ids' <;> simp [hid, hid']
  · exact Set.sdiff_sdiff

theorem eraseRelationships_empty (g : PropertyGraph) : g.eraseRelationships ∅ = g := by
  simp [eraseRelationships]

/-- The index entries that a node put in, or taken out, leaves behind. -/
def nodeRangesAt (g : PropertyGraph) (id : Nat) : List IndexRange :=
  ((g.nodes id).map Node.ranges).getD []

/-- The index entries of a boundary node. -/
def boundaryNodeRangesAt (g : PropertyGraph) (id : Nat) : List IndexRange :=
  ((g.boundaryNodes id).map BoundaryNode.ranges).getD []

theorem nodeListed_iff_mem_nodeRangesAt :
    g.NodeListed range id ↔ range ∈ g.nodeRangesAt id := by
  cases h : g.nodes id <;> simp [NodeListed, nodeRangesAt, h]

theorem boundaryNodeListed_iff_mem_boundaryNodeRangesAt :
    g.BoundaryNodeListed range id ↔ range ∈ g.boundaryNodeRangesAt id := by
  cases h : g.boundaryNodes id <;> simp [BoundaryNodeListed, boundaryNodeRangesAt, h]

variable (g : PropertyGraph) (range : IndexRange) (id : Nat) (nodeId : Nat) {rel : Relationship}

/-- Changing a node takes its old entries out and puts the new ones in. -/
theorem indexed_updateNodes (node : Option Node) :
    ({ g with nodes := update g.nodes nodeId node } : PropertyGraph).Indexed range id ↔
      (g.Indexed range id ∧ ¬(id = nodeId ∧ range ∈ g.nodeRangesAt nodeId)) ∨
        (id = nodeId ∧ range ∈ (node.map Node.ranges).getD []) := by
  set g' : PropertyGraph := { g with nodes := update g.nodes nodeId node } with hg'
  have hb : g'.BoundaryNodeListed range id ↔ g.BoundaryNodeListed range id := Iff.rfl
  have hr : g'.RelationshipListed range id ↔ g.RelationshipListed range id := Iff.rfl
  by_cases hid : id = nodeId
  · subst hid
    have hn : g'.NodeListed range id ↔ range ∈ (node.map Node.ranges).getD [] := by
      rw [nodeListed_iff_mem_nodeRangesAt]
      simp [nodeRangesAt, hg']
    rw [Indexed, Indexed, ← nodeListed_iff_mem_nodeRangesAt]
    grind
  · have hn : g'.NodeListed range id ↔ g.NodeListed range id := by
      simp [NodeListed, hg', hid]
    rw [Indexed, Indexed, hn, hb, hr]
    simp [hid]

theorem indexed_putNode (node : Node) :
    (g.putNode node).Indexed range id ↔
      (g.Indexed range id ∧ ¬(id = node.id ∧ range ∈ g.nodeRangesAt node.id)) ∨
        (id = node.id ∧ range ∈ node.ranges) :=
  indexed_updateNodes g range id node.id (some node)

theorem indexed_eraseNode : (g.eraseNode nodeId).Indexed range id ↔
      g.Indexed range id ∧ ¬(id = nodeId ∧ range ∈ g.nodeRangesAt nodeId) := by
  refine (indexed_updateNodes g range id nodeId none).trans ?_
  simp

/-- Putting a boundary node in takes the old entries of its identifier out and puts its
own in. -/
theorem indexed_putBoundaryNode (node : BoundaryNode) :
    (g.putBoundaryNode node).Indexed range id ↔
      (g.Indexed range id ∧ ¬(id = node.id ∧ range ∈ g.boundaryNodeRangesAt node.id)) ∨
        (id = node.id ∧ range ∈ node.ranges) := by
  have hn : (g.putBoundaryNode node).NodeListed range id ↔ g.NodeListed range id := Iff.rfl
  have hr : (g.putBoundaryNode node).RelationshipListed range id ↔
    g.RelationshipListed range id := Iff.rfl
  by_cases hid : id = node.id
  · subst hid
    have hb : (g.putBoundaryNode node).BoundaryNodeListed range node.id ↔ range ∈ node.ranges := by
      simp [BoundaryNodeListed, putBoundaryNode]
    rw [Indexed, Indexed, ← boundaryNodeListed_iff_mem_boundaryNodeRangesAt]
    grind
  · have hb : (g.putBoundaryNode node).BoundaryNodeListed range id ↔
        g.BoundaryNodeListed range id := by
      simp [BoundaryNodeListed, putBoundaryNode, hid]
    rw [Indexed, Indexed, hn, hb, hr]
    simp [hid]

/-- A new relationship is listed where it leaves and, when its target is stored, where it
enters. -/
theorem indexed_addRelationship (hnew : g.relationships rel.id = none) :
    (g.addRelationship rel).Indexed range id ↔
      g.Indexed range id ∨ (id = rel.id ∧ (range ∈ rel.leavingRanges ∨
        (g.nodes rel.toId).isSome ∧ range ∈ rel.enteringRanges)) := by
  have hn : (g.addRelationship rel).NodeListed range id ↔ g.NodeListed range id := Iff.rfl
  have hb : (g.addRelationship rel).BoundaryNodeListed range id ↔
    g.BoundaryNodeListed range id := Iff.rfl
  rw [Indexed, Indexed, or_assoc, or_assoc]
  refine or_congr_right (or_congr_right ?_)
  by_cases hid : id = rel.id
  · subst hid
    simp [RelationshipListed, addRelationship, putRelationship, hnew]
  · simp [RelationshipListed, addRelationship, putRelationship, hid]

/-- A relationship that keeps its ends and its type keeps its entries. -/
theorem indexed_putRelationship {old : Relationship} (hold : g.relationships rel.id = some old)
    (hleaving : rel.leavingRanges = old.leavingRanges)
    (hentering : rel.enteringRanges = old.enteringRanges) :
    (g.putRelationship rel).Indexed range id ↔ g.Indexed range id := by
  refine or_congr_right (or_congr_right ?_)
  by_cases hid : id = rel.id
  · subst hid
    simp [RelationshipListed, putRelationship, hold, hleaving, hentering]
  · simp [RelationshipListed, putRelationship, hid]

/-- Taking relationships out takes their entries out. -/
theorem indexed_eraseRelationships (ids : Set Nat) :
    (g.eraseRelationships ids).Indexed range id ↔
      g.Indexed range id ∧ ¬(id ∈ ids ∧ range.kind = .relationship) := by
  have hn : (g.eraseRelationships ids).NodeListed range id ↔ g.NodeListed range id := Iff.rfl
  have hb : (g.eraseRelationships ids).BoundaryNodeListed range id ↔
    g.BoundaryNodeListed range id := Iff.rfl
  rw [Indexed, Indexed, hn, hb]
  by_cases hid : id ∈ ids
  · have hr : ¬(g.eraseRelationships ids).RelationshipListed range id := by
      simp [RelationshipListed, eraseRelationships, hid]
    grind
  · have hr : (g.eraseRelationships ids).RelationshipListed range id ↔
        g.RelationshipListed range id := by
      simp [RelationshipListed, eraseRelationships, hid]
    rw [hr]
    simp [hid]

end PropertyGraph

end Neo4r
