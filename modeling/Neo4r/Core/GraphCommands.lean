/-
  `Core.GraphCommands`: what commands do to a property graph.

  Two facts about graphs are kept by every command that a graph accepts: records carry
  their identifiers and only a relationship to a stored node is linked (`WellFormed`),
  and every relationship leaves a stored node and goes to a node or boundary node
  (`Anchored`).  A third is kept by all commands but one: that every relationship to a
  stored node is linked is lost when a node is created that a relationship already enters.
-/
import Neo4r.Core.PropertyGraph

set_option autoImplicit false

namespace Neo4r.PropertyGraph

/-! ## Commands -/

variable (g : PropertyGraph)

/-- The graph with a node changed, where it is stored and the change applies. -/
def changeNode (id : Nat) (change : Node → Option Node) : PropertyGraph :=
  match (g.nodes id).bind change with
  | some node => g.putNode node
  | none => g

/-- The graph with a relationship changed, where it is stored. -/
def changeRelationship (id : Nat) (change : Relationship → Relationship) :
    PropertyGraph :=
  match g.relationships id with
  | some relationship => g.putRelationship (change relationship)
  | none => g

/-- The relationships that the index lists at a node. -/
def Incident (nodeId id : Nat) : Prop :=
  ∃ relationship, g.relationships id = some relationship ∧
    (relationship.fromId = nodeId ∨ id ∈ g.linked ∧ relationship.toId = nodeId)

/-- The graph without a node and what the index lists at it, where the node is stored. -/
noncomputable def deleteNode (g : PropertyGraph) (id : Nat) : PropertyGraph :=
  if (g.nodes id).isSome then (g.eraseRelationships { r | g.Incident id r }).eraseNode id else g

/-- What a command makes of a graph. -/
noncomputable def apply (g : PropertyGraph) : Command → PropertyGraph
  | .createNode id labels properties => g.putNode ⟨id, labels, properties⟩
  | .createRelationship id fromId toId relType properties =>
    g.addRelationship ⟨id, fromId, toId, relType, properties⟩
  | .upsertBoundaryNode id ownerShard labels properties version =>
    g.putBoundaryNode ⟨id, ownerShard, labels, properties, version⟩
  | .setNodeProperty id key value => g.changeNode id fun node => some (node.withProperty key value)
  | .removeNodeProperty id key => g.changeNode id fun node => some (node.withoutProperty key)
  | .addNodeLabel id label => g.changeNode id fun node => node.withLabel label
  | .removeNodeLabel id label => g.changeNode id fun node => node.withoutLabel label
  | .setRelationshipProperty id key value =>
    g.changeRelationship id fun relationship => relationship.withProperty key value
  | .removeRelationshipProperty id key =>
    g.changeRelationship id fun relationship => relationship.withoutProperty key
  | .deleteRelationship id => g.eraseRelationships {id}
  | .deleteNode id => g.deleteNode id
  | .clusterConfigChange _ _ _ _ => g

/-- The commands that make sense on a graph. -/
def Accepts : Command → Prop
  | .createNode id _ _ => g.nodes id = none
  | .createRelationship id fromId toId _ _ =>
    g.relationships id = none ∧ (g.nodes fromId).isSome ∧
      ((g.nodes toId).isSome ∨ (g.boundaryNodes toId).isSome)
  | .setNodeProperty id _ _ | .removeNodeProperty id _ | .addNodeLabel id _
  | .removeNodeLabel id _ | .deleteNode id => (g.nodes id).isSome
  | .setRelationshipProperty id _ _ | .removeRelationshipProperty id _
  | .deleteRelationship id => (g.relationships id).isSome
  | .upsertBoundaryNode _ _ _ _ _ | .clusterConfigChange _ _ _ _ => True

/-- Commands that create a record use an identifier that is free. -/
def Fresh : Command → Prop
  | .createNode id _ _ => g.nodes id = none
  | .createRelationship id _ _ _ _ => g.relationships id = none
  | _ => True

theorem Accepts.fresh {g : PropertyGraph} {command : Command} (h : g.Accepts command) :
    g.Fresh command := by
  cases command with
  | createNode => exact h
  | createRelationship => exact h.1
  | _ => trivial

/-! ## Well-formed graphs -/

/-- Records carry their identifiers, and only a relationship to a stored node is linked. -/
structure WellFormed (g : PropertyGraph) : Prop where
  node_id : ∀ {id node}, g.nodes id = some node → node.id = id
  boundaryNode_id : ∀ {id node}, g.boundaryNodes id = some node → node.id = id
  relationship_id : ∀ {id relationship}, g.relationships id = some relationship →
    relationship.id = id
  linked : ∀ {id}, id ∈ g.linked → ∃ relationship, g.relationships id = some relationship ∧
    (g.nodes relationship.toId).isSome

theorem wellFormed_empty : empty.WellFormed where
  node_id h := nomatch h
  boundaryNode_id h := nomatch h
  relationship_id h := nomatch h
  linked h := h.elim

/-- Every relationship leaves a stored node, and has a boundary node to go to where it is
not linked. -/
structure Anchored (g : PropertyGraph) : Prop where
  source : ∀ {id relationship}, g.relationships id = some relationship →
    (g.nodes relationship.fromId).isSome
  target : ∀ {id relationship}, g.relationships id = some relationship → id ∉ g.linked →
    (g.boundaryNodes relationship.toId).isSome

theorem anchored_empty : empty.Anchored where
  source h := nomatch h
  target h := nomatch h

/-- Every relationship to a stored node is linked. -/
def FullyLinked : Prop :=
  ∀ id relationship, g.relationships id = some relationship →
    (g.nodes relationship.toId).isSome → id ∈ g.linked

theorem fullyLinked_empty : empty.FullyLinked := fun _ _ h => nomatch h

/-- A relationship of the graph ends at this node. -/
def Entered (nodeId : Nat) : Prop :=
  ∃ id relationship, g.relationships id = some relationship ∧ relationship.toId = nodeId

/-! ## Changes keep identifiers -/

variable {node node' : Node} {key label : String}

theorem withProperty_id {value : Value} (h : some (node.withProperty key value) = some node') :
    node'.id = node.id := by
  cases h
  rfl

theorem withoutProperty_id (h : some (node.withoutProperty key) = some node') :
    node'.id = node.id := by
  cases h
  rfl

theorem withLabel_id (h : node.withLabel label = some node') : node'.id = node.id := by
  unfold Node.withLabel at h
  split at h
  · cases h
  · cases h
    rfl

theorem withoutLabel_id (h : node.withoutLabel label = some node') : node'.id = node.id := by
  unfold Node.withoutLabel at h
  split at h
  · cases h
    rfl
  · cases h

variable {g : PropertyGraph} {id : Nat} {change : Relationship → Relationship} {cmd : Command}

theorem isSome_nodes_putNode (node : Node) (h : (g.nodes id).isSome) :
    ((g.putNode node).nodes id).isSome := by
  rw [nodes_putNode]
  split
  · rfl
  · exact h

theorem WellFormed.putNode (h : g.WellFormed) (node : Node) : (g.putNode node).WellFormed := by
  refine ⟨?_, h.boundaryNode_id, h.relationship_id, ?_⟩
  · intro id node' hid
    rw [nodes_putNode] at hid
    split at hid
    · next heq =>
      cases hid
      exact heq.symm
    · exact h.node_id hid
  · intro id hl
    obtain ⟨rel, hr, ht⟩ := h.linked hl
    exact ⟨rel, hr, isSome_nodes_putNode node ht⟩

theorem Anchored.putNode (h : g.Anchored) (node : Node) : (g.putNode node).Anchored where
  source hr := isSome_nodes_putNode node (h.source hr)
  target := h.target

theorem WellFormed.putBoundaryNode (h : g.WellFormed) (node : BoundaryNode) :
    (g.putBoundaryNode node).WellFormed := by
  refine ⟨h.node_id, ?_, h.relationship_id, h.linked⟩
  intro id node' hid
  rw [boundaryNodes_putBoundaryNode] at hid
  split at hid
  · next heq =>
    cases hid
    exact heq.symm
  · exact h.boundaryNode_id hid

theorem Anchored.putBoundaryNode (h : g.Anchored) (node : BoundaryNode) :
    (g.putBoundaryNode node).Anchored where
  source := h.source
  target hr hl := by
    rw [boundaryNodes_putBoundaryNode]
    split
    · rfl
    · exact h.target hr hl

variable {rel : Relationship} {nodeId : Nat}

theorem WellFormed.putRelationship (h : g.WellFormed)
    (hlinked : rel.id ∈ g.linked → (g.nodes rel.toId).isSome) :
    (g.putRelationship rel).WellFormed := by
  refine ⟨h.node_id, h.boundaryNode_id, ?_, ?_⟩
  · intro id relationship' hr
    rw [relationships_putRelationship] at hr
    split at hr
    · next heq =>
      cases hr
      exact heq.symm
    · exact h.relationship_id hr
  · intro id hl
    rw [relationships_putRelationship]
    split
    · next heq => exact ⟨rel, rfl, hlinked (heq ▸ hl)⟩
    · exact h.linked hl

theorem Anchored.putRelationship (h : g.Anchored) (hsource : (g.nodes rel.fromId).isSome)
    (htarget : rel.id ∉ g.linked → (g.boundaryNodes rel.toId).isSome) :
    (g.putRelationship rel).Anchored := by
  constructor
  · intro id relationship' hr
    rw [relationships_putRelationship] at hr
    split at hr
    · cases hr
      exact hsource
    · exact h.source hr
  · intro id relationship' hr hl
    rw [relationships_putRelationship] at hr
    split at hr
    · next heq =>
      cases hr
      exact htarget (heq ▸ hl)
    · exact h.target hr hl

theorem WellFormed.addRelationship (h : g.WellFormed) (hnew : g.relationships rel.id = none) :
    (g.addRelationship rel).WellFormed := by
  have hput : (g.putRelationship rel).WellFormed := by
    refine h.putRelationship fun hl => ?_
    obtain ⟨relationship', hr, -⟩ := h.linked hl
    rw [hnew] at hr
    cases hr
  refine ⟨hput.node_id, hput.boundaryNode_id, hput.relationship_id, ?_⟩
  rintro id (⟨heq, hlocal⟩ | ⟨-, hl⟩)
  · exact ⟨rel, by rw [relationships_addRelationship, if_pos heq], hlocal⟩
  · exact hput.linked hl

theorem Anchored.addRelationship (h : g.Anchored) (hsource : (g.nodes rel.fromId).isSome)
    (htarget : (g.nodes rel.toId).isSome ∨ (g.boundaryNodes rel.toId).isSome) :
    (g.addRelationship rel).Anchored := by
  constructor
  · intro id relationship' hr
    rw [relationships_addRelationship] at hr
    split at hr
    · cases hr
      exact hsource
    · exact h.source hr
  · intro id relationship' hr hl
    rw [relationships_addRelationship] at hr
    split at hr
    · next heq =>
      cases hr
      exact htarget.resolve_left fun hlocal => hl (.inl ⟨heq, hlocal⟩)
    · next hne => exact h.target hr fun hl' => hl (.inr ⟨hne, hl'⟩)

theorem WellFormed.eraseRelationships (h : g.WellFormed) (ids : Set Nat) :
    (g.eraseRelationships ids).WellFormed where
  node_id := h.node_id
  boundaryNode_id := h.boundaryNode_id
  relationship_id hr := h.relationship_id ((relationships_eraseRelationships _ _).mp hr).2
  linked hl := by
    obtain ⟨rel, hr, ht⟩ := h.linked hl.1
    exact ⟨rel, (relationships_eraseRelationships _ _).mpr ⟨hl.2, hr⟩, ht⟩

theorem Anchored.eraseRelationships (h : g.Anchored) (ids : Set Nat) :
    (g.eraseRelationships ids).Anchored where
  source hr := h.source ((relationships_eraseRelationships _ _).mp hr).2
  target hr hl := by
    obtain ⟨hid, hr⟩ := (relationships_eraseRelationships _ _).mp hr
    exact h.target hr fun hl' => hl ⟨hl', hid⟩

theorem WellFormed.eraseNode (h : g.WellFormed)
    (hentering : ∀ {id rel}, g.relationships id = some rel → rel.toId = nodeId → id ∉ g.linked) :
    (g.eraseNode nodeId).WellFormed := by
  refine ⟨?_, h.boundaryNode_id, h.relationship_id, ?_⟩
  · intro id node hid
    rw [nodes_eraseNode] at hid
    split at hid
    · cases hid
    · exact h.node_id hid
  · intro id hl
    obtain ⟨rel, hr, ht⟩ := h.linked hl
    refine ⟨rel, hr, ?_⟩
    rw [nodes_eraseNode, if_neg fun heq => hentering hr heq hl]
    exact ht

theorem Anchored.eraseNode (h : g.Anchored)
    (hleaving : ∀ {id rel}, g.relationships id = some rel → rel.fromId ≠ nodeId) :
    (g.eraseNode nodeId).Anchored where
  source hr := by
    rw [nodes_eraseNode, if_neg (hleaving hr)]
    exact h.source hr
  target := h.target

theorem WellFormed.changeNode (h : g.WellFormed) (id : Nat) (change : Node → Option Node) :
    (g.changeNode id change).WellFormed := by
  unfold PropertyGraph.changeNode
  split
  · exact h.putNode _
  · exact h

theorem Anchored.changeNode (h : g.Anchored) (id : Nat) (change : Node → Option Node) :
    (g.changeNode id change).Anchored := by
  unfold PropertyGraph.changeNode
  split
  · exact h.putNode _
  · exact h

theorem WellFormed.changeRelationship (h : g.WellFormed) (id : Nat)
    (hid : ∀ r, (change r).id = r.id) (hto : ∀ r, (change r).toId = r.toId) :
    (g.changeRelationship id change).WellFormed := by
  unfold PropertyGraph.changeRelationship
  split
  · next rel hr =>
    refine h.putRelationship fun hl => ?_
    obtain ⟨relationship', hr', ht⟩ := h.linked hl
    rw [hid, h.relationship_id hr, hr] at hr'
    cases hr'
    rwa [hto]
  · exact h

theorem Anchored.changeRelationship (h : g.Anchored) (hw : g.WellFormed) (id : Nat)
    (hid : ∀ r, (change r).id = r.id) (hfrom : ∀ r, (change r).fromId = r.fromId)
    (hto : ∀ r, (change r).toId = r.toId) : (g.changeRelationship id change).Anchored := by
  unfold PropertyGraph.changeRelationship
  split
  · next rel hr =>
    refine h.putRelationship ?_ fun hl => ?_
    · rw [hfrom]
      exact h.source hr
    · rw [hto]
      rw [hid, hw.relationship_id hr] at hl
      exact h.target hr hl
  · exact h

/-- After the relationships at a node are gone, none is linked at it. -/
theorem notMem_linked_eraseIncident
    (hr : (g.eraseRelationships { r | g.Incident nodeId r }).relationships id = some rel)
    (hto : rel.toId = nodeId) :
    id ∉ (g.eraseRelationships { r | g.Incident nodeId r }).linked := by
  obtain ⟨hid, hr⟩ := (relationships_eraseRelationships _ _).mp hr
  exact fun hl => hid ⟨rel, hr, .inr ⟨hl.1, hto⟩⟩

/-- A command keeps a graph well formed. -/
theorem WellFormed.apply (h : g.WellFormed) (hfresh : g.Fresh cmd) : (g.apply cmd).WellFormed := by
  cases cmd with
  | createNode => exact h.putNode _
  | createRelationship => exact h.addRelationship hfresh
  | upsertBoundaryNode => exact h.putBoundaryNode _
  | setNodeProperty id | removeNodeProperty id | addNodeLabel id | removeNodeLabel id =>
    exact h.changeNode id _
  | setRelationshipProperty id | removeRelationshipProperty id =>
    exact h.changeRelationship id (fun _ => rfl) fun _ => rfl
  | deleteRelationship => exact h.eraseRelationships _
  | deleteNode =>
    rw [PropertyGraph.apply, deleteNode]
    split
    · exact (h.eraseRelationships _).eraseNode notMem_linked_eraseIncident
    · exact h
  | clusterConfigChange => exact h

/-- A command keeps the relationships of a graph that accepts it anchored. -/
theorem Anchored.apply (h : g.Anchored) (hw : g.WellFormed) (ha : g.Accepts cmd) :
    (g.apply cmd).Anchored := by
  cases cmd with
  | createNode => exact h.putNode _
  | createRelationship =>
    exact h.addRelationship ha.2.1 ha.2.2
  | upsertBoundaryNode => exact h.putBoundaryNode _
  | setNodeProperty id | removeNodeProperty id | addNodeLabel id | removeNodeLabel id =>
    exact h.changeNode id _
  | setRelationshipProperty id | removeRelationshipProperty id =>
    exact h.changeRelationship hw id (fun _ => rfl) (fun _ => rfl) fun _ => rfl
  | deleteRelationship => exact h.eraseRelationships _
  | deleteNode id =>
    have hstored : (g.nodes id).isSome := ha
    rw [PropertyGraph.apply, deleteNode, if_pos hstored]
    refine (h.eraseRelationships _).eraseNode fun {id' rel} hr hfrom => ?_
    obtain ⟨hid, hr⟩ := (relationships_eraseRelationships _ _).mp hr
    exact hid ⟨rel, hr, .inl hfrom⟩
  | clusterConfigChange => exact h

/-! ## When every relationship is linked -/

section

variable (h : g.FullyLinked)

include h

theorem FullyLinked.changeNode {change : Node → Option Node} (hw : g.WellFormed)
    (hid : ∀ {node node'}, change node = some node' → node'.id = node.id) :
    (g.changeNode id change).FullyLinked := by
  unfold PropertyGraph.changeNode
  split
  · next node' hchange =>
    obtain ⟨node, hnode, hchange⟩ := Option.bind_eq_some_iff.mp hchange
    intro r rel hr ht
    refine h r rel hr ?_
    rw [nodes_putNode, hid hchange, hw.node_id hnode] at ht
    split at ht
    · next heq => rw [heq, hnode, Option.isSome_some]
    · exact ht
  · exact h

theorem FullyLinked.changeRelationship (hw : g.WellFormed) (hid : ∀ r, (change r).id = r.id)
    (hto : ∀ r, (change r).toId = r.toId) : (g.changeRelationship id change).FullyLinked := by
  unfold PropertyGraph.changeRelationship
  split
  · next rel hr =>
    intro r relationship' hr' ht
    rw [relationships_putRelationship, hid, hw.relationship_id hr] at hr'
    split at hr'
    · next heq =>
      cases hr'
      rw [hto] at ht
      exact heq ▸ h id rel hr ht
    · exact h r relationship' hr' ht
  · exact h

theorem FullyLinked.addRelationship (rel : Relationship) : (g.addRelationship rel).FullyLinked := by
  intro r relationship' hr ht
  rw [relationships_addRelationship] at hr
  split at hr
  · next heq =>
    cases hr
    exact .inl ⟨heq, ht⟩
  · next hne => exact .inr ⟨hne, h r relationship' hr ht⟩

theorem FullyLinked.eraseRelationships (ids : Set Nat) :
    (g.eraseRelationships ids).FullyLinked := by
  intro r rel hr ht
  obtain ⟨hid, hr⟩ := (relationships_eraseRelationships _ _).mp hr
  exact ⟨h r rel hr ht, hid⟩

theorem FullyLinked.eraseNode (nodeId : Nat) : (g.eraseNode nodeId).FullyLinked := by
  intro r rel hr ht
  refine h r rel hr ?_
  rw [nodes_eraseNode] at ht
  split at ht
  · cases ht
  · exact ht

/-- A new node keeps every relationship linked exactly if none enters it yet. -/
theorem fullyLinked_putNode_iff (hw : g.WellFormed) (node : Node)
    (hnew : g.nodes node.id = none) : (g.putNode node).FullyLinked ↔ ¬g.Entered node.id := by
  constructor
  · rintro hafter ⟨r, rel, hr, hto⟩
    -- it would be linked now, so it was before, and its target was stored
    have hlinked : r ∈ g.linked := hafter r rel hr (by
      rw [nodes_putNode, if_pos hto, Option.isSome_some])
    obtain ⟨relationship', hr', ht⟩ := hw.linked hlinked
    rw [hr] at hr'
    cases hr'
    rw [hto, hnew] at ht
    cases ht
  · intro hentered r rel hr ht
    have hne : rel.toId ≠ node.id := fun heq => hentered ⟨r, rel, hr, heq⟩
    rw [nodes_putNode, if_neg hne] at ht
    exact h r rel hr ht

end

/-- The node a command creates. -/
def createdNode : Command → Option Nat
  | .createNode id _ _ => some id
  | _ => none

/-- The one way to leave a relationship unlinked is to create the node it already enters. -/
theorem fullyLinked_apply_iff (h : g.FullyLinked) (hw : g.WellFormed) (hfresh : g.Fresh cmd) :
    (g.apply cmd).FullyLinked ↔ ∀ id, createdNode cmd = some id → ¬g.Entered id := by
  cases cmd with
  | createNode id labels props =>
    refine (fullyLinked_putNode_iff h hw ⟨id, labels, props⟩ hfresh).trans ?_
    exact ⟨fun hentered id' hid => by cases hid; exact hentered, fun hall => hall id rfl⟩
  | createRelationship =>
    exact iff_of_true (h.addRelationship _) nofun
  | upsertBoundaryNode | clusterConfigChange => exact iff_of_true h nofun
  | setNodeProperty => exact iff_of_true (h.changeNode hw withProperty_id) nofun
  | removeNodeProperty => exact iff_of_true (h.changeNode hw withoutProperty_id) nofun
  | addNodeLabel => exact iff_of_true (h.changeNode hw withLabel_id) nofun
  | removeNodeLabel => exact iff_of_true (h.changeNode hw withoutLabel_id) nofun
  | setRelationshipProperty | removeRelationshipProperty =>
    exact iff_of_true (h.changeRelationship hw (fun _ => rfl) fun _ => rfl) nofun
  | deleteRelationship => exact iff_of_true (h.eraseRelationships _) nofun
  | deleteNode =>
    refine iff_of_true ?_ nofun
    rw [apply, deleteNode]
    split
    · exact (h.eraseRelationships _).eraseNode _
    · exact h

end Neo4r.PropertyGraph
