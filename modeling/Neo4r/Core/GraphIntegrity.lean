/-
  `Core.GraphIntegrity`: the in-memory graph represents a property graph.

  `Represents` says that a `GraphState` holds the records of a property graph and that
  its lists and indexes are the index of it, each identifier once.  A command that the
  property graph accepts is applied and leads to a state that represents the graph after
  it; any other command is rejected and changes nothing.  What the lists and indexes of
  every reachable state hold is read off the graph it represents.
-/
import Neo4r.Core.Graph
import Neo4r.Core.GraphCommands
import Neo4r.Foundation.Machine

set_option autoImplicit false

namespace Neo4r

open Foundation FiniteMap PropertyGraph GraphState List Relationship Option
open Fallible (run_bind)

/-! ## Index entries, one by one -/

namespace GraphState

variable {K : Type} [DecidableEq K] (k k' : K) (id : Nat)

theorem getOrDefault_modify_removeNodeId (m : FiniteMap K (Finset Nat)) :
    (m.modify k (removeNodeId id)).getOrDefault k' =
      if k' = k then (m.getOrDefault k).erase id else m.getOrDefault k' :=
  getOrDefault_modify m k k' (Finset.erase_empty id)

theorem getOrDefault_modify_removeRelationshipId (m : FiniteMap K (List Nat)) :
    (m.modify k (removeRelationshipId id)).getOrDefault k' =
      if k' = k then removeRelationshipId id (m.getOrDefault k) else m.getOrDefault k' :=
  getOrDefault_modify m k k' rfl

variable {ids : List Nat}

theorem mem_removeRelationshipId {id id' : Nat} :
    id' ∈ removeRelationshipId id ids ↔ id' ∈ ids ∧ id' ≠ id := by
  simp [removeRelationshipId]

theorem nodup_removeRelationshipId (h : ids.Nodup) (id : Nat) :
    (removeRelationshipId id ids).Nodup := h.filter _

/-- Listing an identifier adds one entry to the index. -/
theorem mem_ids_listId (g : GraphState) (id : Nat) (range range' : IndexRange) (id' : Nat) :
    id' ∈ (g.listId id range).ids range' ↔ id' ∈ g.ids range' ∨ (range' = range ∧ id' = id) := by
  cases range <;> cases range' <;>
    simp [listId, ids, getOrDefault_modifyOrDefault] <;> split <;> simp_all [or_comm]

/-- Taking an identifier out removes one entry from the index. -/
theorem mem_ids_unlistId (g : GraphState) (id : Nat) (range range' : IndexRange) (id' : Nat) :
    id' ∈ (g.unlistId id range).ids range' ↔ id' ∈ g.ids range' ∧ ¬(range' = range ∧ id' = id) := by
  cases range <;> cases range' <;>
    simp [unlistId, ids, getOrDefault_modify_removeNodeId,
      getOrDefault_modify_removeRelationshipId] <;> split <;>
      simp_all [and_comm, mem_removeRelationshipId]

/-- Every identifier is listed at most once under a range. -/
def ListsOnce (g : GraphState) : Prop := ∀ range, (g.ids range).Nodup

theorem ListsOnce.listId {g : GraphState} (h : g.ListsOnce) {id : Nat} {range : IndexRange}
    (hnew : range.kind = .relationship → id ∉ g.ids range) : (g.listId id range).ListsOnce := by
  intro range'
  have hr' := h range'
  cases range <;> cases range' <;>
    simp_all [GraphState.listId, ids, getOrDefault_modifyOrDefault, IndexRange.kind]
      <;> split <;> simp_all [nodup_append] <;> exact fun a ha heq => hnew (heq ▸ ha)

theorem ListsOnce.unlistId {g : GraphState} (h : g.ListsOnce) (id : Nat) (range : IndexRange) :
    (g.unlistId id range).ListsOnce := by
  intro range'
  have hr' := h range'
  cases range <;> cases range' <;>
    simp_all [GraphState.unlistId, ids, getOrDefault_modify_removeNodeId,
      getOrDefault_modify_removeRelationshipId] <;> split <;>
      simp_all [nodup_removeRelationshipId]

/-- The records of two states are the same. -/
structure SameRecords (g g' : GraphState) : Prop where
  nodes : g'.nodes = g.nodes
  boundaryNodes : g'.boundaryNodes = g.boundaryNodes
  relationships : g'.relationships = g.relationships

theorem SameRecords.trans {g g' g'' : GraphState} (h : SameRecords g g')
    (h' : SameRecords g' g'') : SameRecords g g'' :=
  ⟨h'.nodes.trans h.nodes, h'.boundaryNodes.trans h.boundaryNodes,
    h'.relationships.trans h.relationships⟩

theorem listId_sameRecords (g : GraphState) (id : Nat) (range : IndexRange) :
    SameRecords g (g.listId id range) := by
  cases range <;> exact ⟨rfl, rfl, rfl⟩

theorem unlistId_sameRecords (g : GraphState) (id : Nat) (range : IndexRange) :
    SameRecords g (g.unlistId id range) := by
  cases range <;> exact ⟨rfl, rfl, rfl⟩

/-! ## Index entries of a record -/

variable (id : Nat) (ranges : List IndexRange) (g : GraphState)

theorem foldl_listId_sameRecords : SameRecords g (ranges.foldl (listId id) g) := by
  induction ranges generalizing g with
  | nil => exact ⟨rfl, rfl, rfl⟩
  | cons range ranges ih => exact (listId_sameRecords g id range).trans (ih _)

theorem foldl_unlistId_sameRecords : SameRecords g (ranges.foldl (unlistId id) g) := by
  induction ranges generalizing g with
  | nil => exact ⟨rfl, rfl, rfl⟩
  | cons range ranges ih => exact (unlistId_sameRecords g id range).trans (ih _)

variable (range : IndexRange)

theorem mem_ids_foldl_listId (id' : Nat) : id' ∈ (ranges.foldl (listId id) g).ids range ↔
      id' ∈ g.ids range ∨ (id' = id ∧ range ∈ ranges) := by
  induction ranges generalizing g with
  | nil => simp
  | cons first ranges ih =>
    rw [foldl_cons, ih, mem_ids_listId, mem_cons]
    tauto

theorem mem_ids_foldl_unlistId (id' : Nat) : id' ∈ (ranges.foldl (unlistId id) g).ids range ↔
      id' ∈ g.ids range ∧ ¬(id' = id ∧ range ∈ ranges) := by
  induction ranges generalizing g with
  | nil => simp
  | cons first ranges ih =>
    rw [foldl_cons, ih, mem_ids_unlistId, mem_cons]
    tauto

variable {ranges}

/-- Sets list an identifier once however often it is put in. -/
theorem ListsOnce.foldl_listId {g : GraphState} (h : g.ListsOnce)
    (hkind : ∀ range ∈ ranges, range.kind ≠ .relationship) :
    (ranges.foldl (GraphState.listId id) g).ListsOnce := by
  induction ranges generalizing g with
  | nil => exact h
  | cons range ranges ih =>
    refine ih (h.listId fun hr => absurd hr (hkind range (.head _))) ?_
    exact fun range' hmem => hkind range' (.tail _ hmem)

/-- Lists that do not have the identifier yet get it once, in different places. -/
theorem ListsOnce.foldl_listId_new {g : GraphState} (h : g.ListsOnce) (hnodup : ranges.Nodup)
    (hnew : ∀ range ∈ ranges, id ∉ g.ids range) :
    (ranges.foldl (GraphState.listId id) g).ListsOnce := by
  induction ranges generalizing g with
  | nil => exact h
  | cons range ranges ih =>
    obtain ⟨hnot, hnodup⟩ := nodup_cons.mp hnodup
    refine ih (h.listId fun _ => hnew range (.head _)) hnodup fun range' hmem hlisted => ?_
    rcases (mem_ids_listId g id range range' id).mp hlisted with hlisted | ⟨rfl, -⟩
    · exact hnew range' (.tail _ hmem) hlisted
    · exact hnot hmem

variable (ranges)

theorem ListsOnce.foldl_unlistId {g : GraphState} (h : g.ListsOnce) :
    (ranges.foldl (GraphState.unlistId id) g).ListsOnce := by
  induction ranges generalizing g with
  | nil => exact h
  | cons range ranges ih => exact ih (h.unlistId id range)

/-! ## Representation -/

/-- The state holds the records of the graph, and its lists and indexes are the index of
the graph. -/
structure Represents (g : GraphState) (graph : PropertyGraph) : Prop where
  nodes : ∀ id, g.nodes.get id = graph.nodes id
  boundaryNodes : ∀ id, g.boundaryNodes.get id = graph.boundaryNodes id
  relationships : ∀ id, g.relationships.get id = graph.relationships id
  mem_ids : ∀ range id, id ∈ g.ids range ↔ graph.Indexed range id
  listsOnce : g.ListsOnce

theorem new_represents : new.Represents .empty where
  nodes _ := get_empty _
  boundaryNodes _ := get_empty _
  relationships _ := get_empty _
  mem_ids range id := by
    refine iff_of_false ?_ (not_indexed_empty range id)
    cases range <;> simp [new, ids] <;> exact not_mem_nil
  listsOnce range := by
    cases range <;> simp [new, ids] <;> exact nodup_nil

variable {g : GraphState} {graph : PropertyGraph} {id : Nat} {node : Node}
  {relationship : Relationship} {range : IndexRange}

theorem Represents.nodeRangesAt (h : g.Represents graph) (hnode : g.nodes.get id = some node) :
    graph.nodeRangesAt id = node.ranges := by
  rw [PropertyGraph.nodeRangesAt, ← h.nodes, hnode]
  rfl

/-- Entries with an empty list read like no entries. -/
theorem getOrDefault_touch (m : FiniteMap Nat (List Nat)) (k k' : Nat) :
    (m.modifyOrDefault k fun ids => ids).getOrDefault k' = m.getOrDefault k' := by
  rw [getOrDefault_modifyOrDefault]
  split
  · next h => rw [h]
  · rfl

section

variable (h : g.Represents graph)

include h

theorem Represents.insertNode (node : Node)
    (hnew : graph.nodes node.id = none) : (g.insertNode node).Represents (graph.putNode node) := by
  set g₀ : GraphState := { g with nextNodeId := max g.nextNodeId (saturatingAdd node.id 1) }
  have hsame₀ : SameRecords g g₀ := ⟨rfl, rfl, rfl⟩
  have hsame : SameRecords g (g₀.indexNode node) := hsame₀.trans (foldl_listId_sameRecords _ _ g₀)
  have hids range :
    (g.insertNode node).ids range = (g₀.indexNode node).ids range := by
    cases range <;> simp [GraphState.insertNode, ids, getOrDefault_touch, g₀]
  refine ⟨?_, ?_, ?_, ?_, ?_⟩
  · intro id
    change ((g₀.indexNode node).nodes.insert node.id node).get id = _
    rw [hsame.nodes, get_insert, nodes_putNode, h.nodes]
  · intro id
    exact (congrArg (get · id) hsame.boundaryNodes).trans (h.boundaryNodes id)
  · intro id
    exact (congrArg (get · id) hsame.relationships).trans (h.relationships id)
  · intro range id
    have hnone : graph.nodeRangesAt node.id = [] := by rw [PropertyGraph.nodeRangesAt, hnew]; rfl
    rw [hids, indexNode, mem_ids_foldl_listId, indexed_putNode, hnone]
    change id ∈ g.ids range ∨ _ ↔ _
    rw [h.mem_ids]
    simp
  · intro range
    rw [hids]
    exact ListsOnce.foldl_listId _ (g := g₀) h.listsOnce kind_ne_of_mem_nodeRanges range

theorem Represents.replaceNode {changed : Node}
    (hnode : g.nodes.get id = some node) (hid : node.id = id) (hid' : changed.id = id) :
    (g.replaceNode id node changed).Represents (graph.putNode changed) := by
  have hsame : SameRecords g ((g.removeNodeIndex node).indexNode changed) :=
    (foldl_unlistId_sameRecords _ _ g).trans (foldl_listId_sameRecords _ _ _)
  have hids range : (g.replaceNode id node changed).ids range =
      ((g.removeNodeIndex node).indexNode changed).ids range := by
    cases range <;> rfl
  refine ⟨?_, ?_, ?_, ?_, ?_⟩
  · intro id'
    change (((g.removeNodeIndex node).indexNode changed).nodes.insert id changed).get id' = _
    rw [hsame.nodes, get_insert, nodes_putNode, h.nodes, hid']
  · intro id'
    exact (congrArg (get · id') hsame.boundaryNodes).trans (h.boundaryNodes id')
  · intro id'
    exact (congrArg (get · id') hsame.relationships).trans (h.relationships id')
  · intro range id'
    rw [hids, indexNode, mem_ids_foldl_listId, removeNodeIndex, mem_ids_foldl_unlistId, h.mem_ids,
      indexed_putNode, hid, hid', h.nodeRangesAt hnode]
  · intro range
    exact ListsOnce.foldl_listId _ (h.listsOnce.foldl_unlistId _ _) kind_ne_of_mem_nodeRanges range

theorem Represents.putBoundaryNode (hw : graph.WellFormed)
    (node : BoundaryNode) : (g.putBoundaryNode node).Represents (graph.putBoundaryNode node) := by
  -- the entries of the old boundary node are out of the index
  obtain ⟨g₁, hput, hsame₁, hmem₁, honce₁⟩ : ∃ g₁, g.putBoundaryNode node =
        { g₁.indexBoundaryNode node with
          boundaryNodes := (g₁.indexBoundaryNode node).boundaryNodes.insert node.id node } ∧
      SameRecords g g₁ ∧ (∀ range id, id ∈ g₁.ids range ↔
        graph.Indexed range id ∧ ¬(id = node.id ∧ range ∈ graph.boundaryNodeRangesAt node.id)) ∧
      g₁.ListsOnce := by
    have hold := h.boundaryNodes node.id
    cases hget : g.boundaryNodes.get node.id with
    | none =>
      refine ⟨g, by rw [GraphState.putBoundaryNode, hget], ⟨rfl, rfl, rfl⟩, fun range id => ?_,
        h.listsOnce⟩
      rw [hget] at hold
      simp [h.mem_ids, boundaryNodeRangesAt, ← hold]
    | some old =>
      rw [hget] at hold
      refine ⟨g.removeBoundaryNodeIndex old, by rw [GraphState.putBoundaryNode, hget],
        foldl_unlistId_sameRecords _ _ g, fun range id => ?_, h.listsOnce.foldl_unlistId _ _⟩
      rw [removeBoundaryNodeIndex, mem_ids_foldl_unlistId, h.mem_ids,
        hw.boundaryNode_id hold.symm, boundaryNodeRangesAt, ← hold]
      rfl
  have hsame : SameRecords g (g₁.indexBoundaryNode node) :=
    hsame₁.trans (foldl_listId_sameRecords _ _ g₁)
  have hids range :
      (g.putBoundaryNode node).ids range = (g₁.indexBoundaryNode node).ids range := by
    rw [hput]
    cases range <;> rfl
  refine ⟨?_, ?_, ?_, ?_, ?_⟩
  · intro id
    rw [hput]
    exact (congrArg (get · id) hsame.nodes).trans (h.nodes id)
  · intro id
    rw [hput]
    rw [hsame.boundaryNodes, get_insert, boundaryNodes_putBoundaryNode, h.boundaryNodes]
  · intro id
    rw [hput]
    exact (congrArg (get · id) hsame.relationships).trans (h.relationships id)
  · intro range id
    rw [hids, indexBoundaryNode, mem_ids_foldl_listId, hmem₁, indexed_putBoundaryNode]
  · intro range
    rw [hids]
    exact ListsOnce.foldl_listId _ honce₁ kind_ne_of_mem_boundaryNodeRanges range

theorem Represents.putRelationship {old : Relationship}
    (hold : graph.relationships relationship.id = some old)
    (hleaving : relationship.leavingRanges = old.leavingRanges)
    (hentering : relationship.enteringRanges = old.enteringRanges) :
    ({ g with relationships := g.relationships.insert relationship.id relationship }).Represents
      (graph.putRelationship relationship) := by
  refine ⟨h.nodes, h.boundaryNodes, ?_, ?_, h.listsOnce⟩
  · intro id
    rw [get_insert, relationships_putRelationship, h.relationships]
  · intro range id
    rw [indexed_putRelationship _ _ _ hold hleaving hentering]
    exact h.mem_ids range id

end

/-- The ranges in which `create_relationship` lists a relationship. -/
def createdRanges (relationship : Relationship) : Bool → List IndexRange
  | true => [.outgoingType relationship.fromId relationship.relType,
      .incomingType relationship.toId relationship.relType, .outgoing relationship.fromId,
      .incoming relationship.toId]
  | false => [.outgoingType relationship.fromId relationship.relType, .outgoing relationship.fromId]

theorem mem_createdRanges {hasLocalTo : Bool} : range ∈ createdRanges relationship hasLocalTo ↔
      range ∈ relationship.leavingRanges ∨
        (hasLocalTo = true ∧ range ∈ relationship.enteringRanges) := by
  cases hasLocalTo <;>
    simp [createdRanges, leavingRanges, enteringRanges] <;> tauto

theorem insertRelationship_eq (g : GraphState) (relationship : Relationship) (hasLocalTo : Bool) :
    g.insertRelationship relationship hasLocalTo =
      { (createdRanges relationship hasLocalTo).foldl (listId relationship.id) g with
        relationships := g.relationships.insert relationship.id relationship
        nextRelationshipId := max g.nextRelationshipId (saturatingAdd relationship.id 1) } := by
  cases hasLocalTo <;> rfl

theorem Represents.notMem_ids (h : g.Represents graph) (hnone : graph.relationships id = none)
    (hkind : range.kind = .relationship) : id ∉ g.ids range := by
  rw [h.mem_ids, indexed_iff_relationshipListed hkind]
  rintro ⟨relationship, hr, -⟩
  rw [hnone] at hr
  cases hr

theorem Represents.insertRelationship (h : g.Represents graph)
    (hnew : graph.relationships relationship.id = none) (hasLocalTo : Bool)
    (hlocal : hasLocalTo = (graph.nodes relationship.toId).isSome) :
    (g.insertRelationship relationship hasLocalTo).Represents
      (graph.addRelationship relationship) := by
  have hsame := foldl_listId_sameRecords relationship.id (createdRanges relationship hasLocalTo) g
  have hids range : (g.insertRelationship relationship hasLocalTo).ids range =
      ((createdRanges relationship hasLocalTo).foldl (listId relationship.id) g).ids range := by
    rw [insertRelationship_eq]
    cases range <;> rfl
  have hkind : ∀ range ∈ createdRanges relationship hasLocalTo, range.kind = .relationship := by
    intro range hmem
    rcases mem_createdRanges.mp hmem with hmem | ⟨-, hmem⟩
    · exact kind_of_mem_leavingRanges hmem
    · exact kind_of_mem_enteringRanges hmem
  refine ⟨?_, ?_, ?_, ?_, ?_⟩
  · intro id
    rw [insertRelationship_eq]
    exact (congrArg (get · id) hsame.nodes).trans (h.nodes id)
  · intro id
    rw [insertRelationship_eq]
    exact (congrArg (get · id) hsame.boundaryNodes).trans (h.boundaryNodes id)
  · intro id
    rw [insertRelationship_eq]
    rw [get_insert, relationships_addRelationship, h.relationships]
  · intro range id
    rw [hids, mem_ids_foldl_listId, h.mem_ids, mem_createdRanges,
      indexed_addRelationship _ _ _ hnew, hlocal]
  · intro range
    rw [hids]
    refine h.listsOnce.foldl_listId_new _ ?_
      (fun range hmem => h.notMem_ids hnew (hkind range hmem))
      range
    cases hasLocalTo <;> simp [createdRanges]

/-- The ranges from which `delete_relationship` takes a relationship. -/
def droppedRanges (relationship : Relationship) : Bool → List IndexRange
  | true => [.outgoingType relationship.fromId relationship.relType,
      .incomingType relationship.toId relationship.relType, .outgoing relationship.fromId,
      .incoming relationship.toId]
  | false => [.outgoingType relationship.fromId relationship.relType,
      .outgoing relationship.fromId, .incoming relationship.toId]

theorem dropRelationship_eq (g : GraphState) (hid : relationship.id = id) :
    g.dropRelationship id relationship =
      { (droppedRanges relationship (g.nodes.get relationship.toId).isSome).foldl
        (unlistId id) g with
        relationships := g.relationships.erase id } := by
  subst hid
  unfold dropRelationship removeRelationshipIndex
  dsimp only
  cases (g.nodes.get relationship.toId).isSome <;> rfl

/-- Where a stored relationship is listed, it is taken from. -/
theorem mem_droppedRanges (hw : graph.WellFormed) (hr : graph.relationships id = some relationship)
    (hlisted : graph.RelationshipListed range id) :
    range ∈ droppedRanges relationship (graph.nodes relationship.toId).isSome := by
  obtain ⟨relationship', hr', hmem⟩ := hlisted
  rw [hr] at hr'
  cases hr'
  rcases hmem with hmem | ⟨hlinked, hmem⟩
  · cases (graph.nodes relationship.toId).isSome <;>
      simp [droppedRanges, leavingRanges] at hmem ⊢ <;> tauto
  · -- a linked relationship has a stored target, so both its entries are taken out
    obtain ⟨relationship', hr', hstored⟩ := hw.linked hlinked
    rw [hr] at hr'
    cases hr'
    rw [hstored]
    simp [droppedRanges, enteringRanges] at hmem ⊢
    tauto

theorem Represents.dropRelationship (h : g.Represents graph) (hw : graph.WellFormed)
    (hr : graph.relationships id = some relationship) :
    (g.dropRelationship id relationship).Represents (graph.eraseRelationships {id}) := by
  set ranges := droppedRanges relationship (g.nodes.get relationship.toId).isSome with hranges
  have heq := dropRelationship_eq g (hw.relationship_id hr)
  have hsame := foldl_unlistId_sameRecords id ranges g
  have hids range :
      (g.dropRelationship id relationship).ids range =
        (ranges.foldl (unlistId id) g).ids range := by
    rw [heq]
    cases range <;> rfl
  have hkind : ∀ range ∈ ranges, range.kind = .relationship := by
    intro range hmem
    cases hlocal : (g.nodes.get relationship.toId).isSome <;>
      simp only [hranges, hlocal, droppedRanges, mem_cons, not_mem_nil, or_false] at hmem
        <;> grind [IndexRange.kind]
  refine ⟨?_, ?_, ?_, ?_, ?_⟩
  · intro id'
    rw [heq]
    exact (congrArg (get · id') hsame.nodes).trans (h.nodes id')
  · intro id'
    rw [heq]
    exact (congrArg (get · id') hsame.boundaryNodes).trans (h.boundaryNodes id')
  · intro id'
    rw [heq]
    by_cases hid : id' = id <;> simp [get_erase, eraseRelationships, h.relationships, hid]
  · intro range id'
    rw [hids, mem_ids_foldl_unlistId, h.mem_ids, indexed_eraseRelationships]
    refine and_congr_right fun hindexed => not_congr (and_congr_right fun hid => ?_)
    subst hid
    refine ⟨hkind range, fun hrange => ?_⟩
    rw [indexed_iff_relationshipListed hrange] at hindexed
    rw [hranges, h.nodes]
    exact mem_droppedRanges hw hr hindexed
  · intro range
    rw [hids]
    exact h.listsOnce.foldl_unlistId _ _ range

theorem deleteRelationship_run (hr : g.relationships.get id = some relationship) :
    (deleteRelationship id).run g = (.ok (), g.dropRelationship id relationship) := by
  simp [deleteRelationship, run_bind, hr]

variable {cmd : Command}

section

variable (h : g.Represents graph)

include h

/-- The loop of `delete_node` takes out the relationships of its list. -/
theorem Represents.forEach_deleteRelationship (hw : graph.WellFormed) (hnodup : ids.Nodup)
    (hstored : ∀ id ∈ ids, (graph.relationships id).isSome) :
    ∃ g', (Fallible.forEach deleteRelationship ids).run g = (.ok (), g') ∧
      g'.Represents (graph.eraseRelationships { id | id ∈ ids }) := by
  induction ids generalizing g graph with
  | nil =>
    refine ⟨g, rfl, ?_⟩
    have hempty : ({ id | id ∈ [] } : Set Nat) = ∅ := by simp
    rw [hempty, eraseRelationships_empty]
    exact h
  | cons id ids ih =>
    obtain ⟨hnot, hnodup⟩ := nodup_cons.mp hnodup
    obtain ⟨relationship, hr⟩ := isSome_iff_exists.mp (hstored id (.head _))
    have hdrop := h.dropRelationship hw hr
    obtain ⟨g', hrun, hrep⟩ := ih hdrop (hw.eraseRelationships {id}) hnodup fun id' hmem => by
      obtain ⟨relationship', hr'⟩ := isSome_iff_exists.mp (hstored id' (.tail _ hmem))
      refine isSome_iff_exists.mpr ⟨relationship', ?_⟩
      refine (relationships_eraseRelationships _ _).mpr ⟨?_, hr'⟩
      rintro rfl
      exact hnot hmem
    refine ⟨g', ?_, ?_⟩
    · rw [Fallible.forEach, Fallible.run_bind_of_ok (deleteRelationship_run
        ((h.relationships id).trans hr))]
      exact hrun
    · rw [eraseRelationships_eraseRelationships] at hrep
      have hcons : ({id} ∪ { id' | id' ∈ ids }) = { id' | id' ∈ id :: ids } := by
        ext id'
        simp
      rwa [← hcons]

theorem Represents.dropNode (hw : graph.WellFormed) (hnode : graph.nodes id = some node)
    (hfree : ∀ r, ¬graph.Incident id r) :
    (g.dropNode id).Represents (graph.eraseNode id) := by
  set g₁ : GraphState := { g with nodes := g.nodes.erase id } with hg₁
  have hget : g.nodes.get id = some node := (h.nodes id).trans hnode
  have heq : g.dropNode id = { g₁.removeNodeIndex node with
      outgoing := (g₁.removeNodeIndex node).outgoing.erase id
      incoming := (g₁.removeNodeIndex node).incoming.erase id } := by
    unfold GraphState.dropNode
    rw [hget]
  have hsame : SameRecords g₁ (g₁.removeNodeIndex node) := foldl_unlistId_sameRecords _ _ g₁
  have hout r : r ∉ g.ids (.outgoing id) := by
    rw [h.mem_ids, indexed_outgoing]
    rintro ⟨relationship, hr, hfrom⟩
    exact hfree r ⟨relationship, hr, .inl hfrom⟩
  have hin r : r ∉ g.ids (.incoming id) := by
    rw [h.mem_ids, indexed_incoming]
    rintro ⟨relationship, hr, hlinked, hto⟩
    exact hfree r ⟨relationship, hr, .inr ⟨hlinked, hto⟩⟩
  have hmem range (r : Nat) : r ∈ (g₁.removeNodeIndex node).ids range ↔
      r ∈ g.ids range ∧ ¬(r = id ∧ range ∈ node.ranges) := by
    rw [removeNodeIndex, mem_ids_foldl_unlistId, hw.node_id hnode]
    rfl
  have hids range : (g.dropNode id).ids range =
      if range = .outgoing id ∨ range = .incoming id then [] else
        (g₁.removeNodeIndex node).ids range := by
    rw [heq]
    cases range <;> simp [ids, getOrDefault_erase] <;> rfl
  refine ⟨?_, ?_, ?_, ?_, ?_⟩
  · intro id'
    rw [heq]
    rw [hsame.nodes, get_erase, h.nodes, nodes_eraseNode]
  · intro id'
    rw [heq]
    exact (congrArg (get · id') hsame.boundaryNodes).trans (h.boundaryNodes id')
  · intro id'
    rw [heq]
    exact (congrArg (get · id') hsame.relationships).trans (h.relationships id')
  · intro range r
    rw [indexed_eraseNode, h.nodeRangesAt hget, ← h.mem_ids, hids]
    split
    · next hrange =>
      -- the lists that are erased were empty
      rcases hrange with rfl | rfl
      · simp [hout r]
      · simp [hin r]
    · exact hmem range r
  · intro range
    rw [hids]
    split
    · exact nodup_nil
    · exact ListsOnce.foldl_unlistId _ _ (g := g₁) h.listsOnce range

/-! ## Commands -/

theorem updateNode_run (hw : graph.WellFormed) {change : Node → Option Node}
    (hid : ∀ {node node'}, change node = some node' → node'.id = node.id)
    (hstored : (graph.nodes id).isSome) : ∃ g', (updateNode id change).run g = (.ok (), g') ∧
      g'.Represents (graph.changeNode id change) := by
  obtain ⟨node, hnode⟩ := isSome_iff_exists.mp hstored
  have hget : g.nodes.get id = some node := (h.nodes id).trans hnode
  cases hchange : change node with
  | none =>
    refine ⟨g, by simp [updateNode, run_bind, hget, hchange], ?_⟩
    simpa [changeNode, hnode, hchange] using h
  | some changed =>
    refine ⟨g.replaceNode id node changed, ?_, ?_⟩
    · simp [updateNode, run_bind, hget, hchange]
    · have hkey := hw.node_id hnode
      have hrep := h.replaceNode hget hkey ((hid hchange).trans hkey)
      simpa [changeNode, hnode, hchange] using hrep

theorem updateRelationship_run (hw : graph.WellFormed) {change : Relationship → Relationship}
    (hid : ∀ r, (change r).id = r.id) (hleaving : ∀ r, (change r).leavingRanges = r.leavingRanges)
    (hentering : ∀ r, (change r).enteringRanges = r.enteringRanges)
    (hstored : (graph.relationships id).isSome) :
    ∃ g', (updateRelationship id change).run g = (.ok (), g') ∧
      g'.Represents (graph.changeRelationship id change) := by
  obtain ⟨relationship, hr⟩ := isSome_iff_exists.mp hstored
  have hget : g.relationships.get id = some relationship := (h.relationships id).trans hr
  have hkey : (change relationship).id = id := (hid relationship).trans (hw.relationship_id hr)
  have hrep := h.putRelationship (by rw [hkey]; exact hr) (hleaving relationship)
    (hentering relationship)
  rw [hkey] at hrep
  have hgraph :
    graph.changeRelationship id change = graph.putRelationship (change relationship) := by
    rw [changeRelationship, hr]
  rw [hgraph]
  refine ⟨_, ?_, hrep⟩
  simp [updateRelationship, run_bind, hget]

theorem createRelationship_run (relationship : Relationship)
    (ha : graph.Accepts (.createRelationship relationship.id relationship.fromId relationship.toId
      relationship.relType relationship.properties)) :
    ∃ g', (createRelationship relationship.id relationship.fromId relationship.toId
        relationship.relType relationship.properties).run g = (.ok (), g') ∧
      g'.Represents (graph.addRelationship relationship) := by
  obtain ⟨hnew, hsource, htarget⟩ := ha
  have hrep := h.insertRelationship hnew
  cases hto : graph.nodes relationship.toId with
  | some =>
    refine ⟨g.insertRelationship relationship true, ?_, hrep true (by rw [hto]; rfl)⟩
    simp [createRelationship, run_bind, h.nodes, h.relationships, hnew, hto,
      isSome_iff_ne_none.mp hsource]
  | none =>
    have hboundary : (graph.boundaryNodes relationship.toId).isSome :=
      htarget.resolve_left (by simp [hto])
    refine ⟨g.insertRelationship relationship false, ?_, hrep false (by rw [hto]; rfl)⟩
    simp [createRelationship, run_bind, h.nodes, h.relationships, h.boundaryNodes, hnew,
      hto, hboundary, isSome_iff_ne_none.mp hsource]

theorem deleteNode_run (hw : graph.WellFormed) (hstored : (graph.nodes id).isSome) :
    ∃ g', (deleteNode id).run g = (.ok (), g') ∧ g'.Represents (graph.deleteNode id) := by
  rw [PropertyGraph.deleteNode, if_pos hstored]
  obtain ⟨node, hnode⟩ := isSome_iff_exists.mp hstored
  set listed := sortedIds (g.ids (.outgoing id) ++ g.ids (.incoming id)) with hlisted
  have hincident r : r ∈ listed ↔ graph.Incident id r := by
    rw [mem_sortedIds, mem_append, h.mem_ids, h.mem_ids, indexed_outgoing, indexed_incoming,
      ← exists_or]
    exact exists_congr fun relationship => and_or_left.symm
  obtain ⟨g₁, hrun, hrep⟩ := h.forEach_deleteRelationship hw (nodup_sortedIds _) fun r hr => by
    obtain ⟨relationship, hr, -⟩ := (hincident r).mp hr
    rw [hr, isSome_some]
  have hset : ({ r | r ∈ listed }) = { r | graph.Incident id r } := Set.ext hincident
  rw [← hlisted] at hrun hrep
  rw [hset] at hrep
  refine ⟨g₁.dropNode id, ?_, ?_⟩
  · have hexists : g.ensureNodeExists id = .ok () := by
      rw [ensureNodeExists, h.nodes, if_pos hstored]
    simp [deleteNode, run_bind, hexists, ← hlisted, hrun]
  · refine hrep.dropNode (hw.eraseRelationships _) hnode ?_
    rintro r ⟨relationship, hr, hend⟩
    obtain ⟨hnot, hr⟩ := (relationships_eraseRelationships _ _).mp hr
    exact hnot ⟨relationship, hr, hend.imp_right (And.imp_left fun hl => hl.1)⟩

/-- A command that the graph accepts is applied, and the state follows the graph. -/
theorem apply_of_accepts (hw : graph.WellFormed) (ha : graph.Accepts cmd) :
    ∃ g', (apply cmd).run g = (.ok (), g') ∧ g'.Represents (graph.apply cmd) := by
  cases cmd with
  | createNode id labels props =>
    refine ⟨_, ?_, h.insertNode ⟨id, labels, props⟩ ha⟩
    have hnone : g.nodes.get id = none := (h.nodes id).trans ha
    simp [apply, createNode, run_bind, hnone]
  | createRelationship id fromId toId relType props =>
    exact createRelationship_run h ⟨id, fromId, toId, relType, props⟩ ha
  | upsertBoundaryNode id ownerShard labels props version =>
    exact ⟨_, rfl, h.putBoundaryNode hw ⟨id, ownerShard, labels, props, version⟩⟩
  | setNodeProperty => exact updateNode_run h hw withProperty_id ha
  | removeNodeProperty => exact updateNode_run h hw withoutProperty_id ha
  | addNodeLabel => exact updateNode_run h hw withLabel_id ha
  | removeNodeLabel => exact updateNode_run h hw withoutLabel_id ha
  | setRelationshipProperty | removeRelationshipProperty =>
    exact updateRelationship_run h hw (fun _ => rfl) (fun _ => rfl) (fun _ => rfl) ha
  | deleteRelationship id =>
    obtain ⟨relationship, hr⟩ := isSome_iff_exists.mp ha
    exact ⟨_, deleteRelationship_run ((h.relationships id).trans hr), h.dropRelationship hw hr⟩
  | deleteNode => exact deleteNode_run h hw ha
  | clusterConfigChange => exact ⟨g, rfl, h⟩

/-- Any other command is rejected and changes nothing. -/
theorem apply_of_not_accepts (ha : ¬graph.Accepts cmd) :
    ∃ e, (apply cmd).run g = (.error e, g) := by
  cases cmd <;>
    simp only [Accepts, ← h.nodes, ← h.relationships, ← h.boundaryNodes] at ha
  case createRelationship id fromId toId relType properties =>
    simp only [apply, createRelationship, run_bind, Fallible.run_current]
    split
    · exact ⟨_, rfl⟩
    · split
      · exact ⟨_, rfl⟩
      · split
        · split
          · simp_all
          · exact ⟨_, rfl⟩
        · simp_all
  case createNode id labels properties =>
    simp [apply, createNode, run_bind, isSome_iff_ne_none.mpr ha]
  case upsertBoundaryNode => exact absurd trivial ha
  case clusterConfigChange => exact absurd trivial ha
  all_goals
    simp_all [apply, setNodeProperty, removeNodeProperty, addNodeLabel,
      removeNodeLabel, setRelationshipProperty, removeRelationshipProperty, updateNode,
      updateRelationship, deleteRelationship, deleteNode, ensureNodeExists, run_bind]

end

/-! ## Integrity -/

/-- Under a range, a state lists the identifiers with a property, each once. -/
def ListsExactly (g : GraphState) (range : IndexRange) (p : Nat → Prop) : Prop :=
  (g.ids range).Nodup ∧ ∀ id, id ∈ g.ids range ↔ p id

/-- The lists and indexes of a state are those of its records. -/
structure Integrity (g : GraphState) : Prop where
  source : ∀ id relationship, g.relationship id = some relationship →
    (g.node relationship.fromId).isSome
  target : ∀ id relationship, g.relationship id = some relationship →
    (g.node relationship.toId).isSome ∨ (g.boundaryNode relationship.toId).isSome
  outgoing : ∀ nodeId, g.ListsExactly (.outgoing nodeId) fun id =>
    ∃ relationship, g.relationship id = some relationship ∧ relationship.fromId = nodeId
  outgoingByType : ∀ nodeId relType, g.ListsExactly (.outgoingType nodeId relType) fun id =>
    ∃ relationship, g.relationship id = some relationship ∧ relationship.fromId = nodeId ∧
      relationship.relType = relType
  incoming : ∀ nodeId, (g.node nodeId).isSome → g.ListsExactly (.incoming nodeId) fun id =>
    ∃ relationship, g.relationship id = some relationship ∧ relationship.toId = nodeId
  incomingByType : ∀ nodeId relType, (g.node nodeId).isSome →
    g.ListsExactly (.incomingType nodeId relType) fun id =>
      ∃ relationship, g.relationship id = some relationship ∧ relationship.toId = nodeId ∧
        relationship.relType = relType
  label : ∀ label, g.ListsExactly (.label label) fun id =>
    ∃ node, g.node id = some node ∧ label ∈ node.labels
  labelProperty : ∀ label key value, g.ListsExactly (.labelProperty label key value) fun id =>
    ∃ node, g.node id = some node ∧ label ∈ node.labels ∧
      ∃ entry ∈ node.properties, entry.1 = key ∧ entry.2.toKey = value
  boundaryLabelProperty : ∀ label key value,
    g.ListsExactly (.boundaryLabelProperty label key value) fun id =>
      ∃ node, g.boundaryNode id = some node ∧ label ∈ node.labels ∧
        ∃ entry ∈ node.properties, entry.1 = key ∧ entry.2.toKey = value

/-- In the graph of a state, a relationship that enters a stored node is linked exactly if
the incoming list of the node has it. -/
theorem Represents.integrity_iff (h : g.Represents graph) (hw : graph.WellFormed)
    (ha : graph.Anchored) : g.Integrity ↔ graph.FullyLinked := by
  constructor
  · intro hi id rel hr hstored
    have hlisted := (hi.incoming rel.toId (by rw [node, h.nodes]; exact hstored)).2 id
    rw [h.mem_ids, indexed_incoming] at hlisted
    obtain ⟨-, -, hlinked, -⟩ := hlisted.mpr ⟨rel, by rw [relationship, h.relationships, hr], rfl⟩
    exact hlinked
  · intro hf
    -- in the incoming ranges of a stored node, being linked says nothing
    have hlinked {nodeId id : Nat} {rel : Relationship} (hnode : (g.node nodeId).isSome)
        hr (hto : rel.toId = nodeId) :
        id ∈ graph.linked := hf id rel hr (by rw [hto, ← h.nodes]; exact hnode)
    refine ⟨?_, ?_, ?_, ?_, ?_, ?_, ?_, ?_, ?_⟩ <;>
      simp only [ListsExactly, relationship, node, boundaryNode, h.relationships,
        h.nodes, h.boundaryNodes, h.mem_ids]
    · exact fun id rel hr => ha.source hr
    · intro id rel hr
      by_cases hl : id ∈ graph.linked
      · obtain ⟨relationship', hr', hstored⟩ := hw.linked hl
        rw [hr] at hr'
        cases hr'
        exact .inl hstored
      · exact .inr (ha.target hr hl)
    · exact fun nodeId => ⟨h.listsOnce _, fun id => indexed_outgoing⟩
    · exact fun nodeId relType => ⟨h.listsOnce _, fun id => indexed_outgoingType⟩
    · intro nodeId hnode
      refine ⟨h.listsOnce _, fun id => indexed_incoming.trans ?_⟩
      refine exists_congr fun rel => and_congr_right fun hr => ?_
      exact and_iff_right_of_imp (hlinked (by rw [node, h.nodes]; exact hnode) hr)
    · intro nodeId relType hnode
      refine ⟨h.listsOnce _, fun id => indexed_incomingType.trans ?_⟩
      refine exists_congr fun rel => and_congr_right fun hr => ?_
      refine and_iff_right_of_imp fun hto => ?_
      exact hlinked (by rw [node, h.nodes]; exact hnode) hr hto.1
    · exact fun label => ⟨h.listsOnce _, fun id => indexed_label⟩
    · exact fun label key value => ⟨h.listsOnce _, fun id => indexed_labelProperty⟩
    · exact fun label key value =>
        ⟨h.listsOnce _, fun id => indexed_boundaryLabelProperty⟩

/-- Every state that commands lead to represents a graph. -/
theorem afterAll_represents (cmds : List Command) :
    ∃ graph : PropertyGraph, (new.afterAll cmds).Represents graph ∧ graph.WellFormed ∧
      graph.Anchored := by
  induction cmds using reverseRecOn with
  | nil => exact ⟨.empty, new_represents, wellFormed_empty, anchored_empty⟩
  | append_singleton cmds cmd ih =>
    obtain ⟨graph, hrep, hw, ha⟩ := ih
    rw [afterAll, foldl_concat, ← afterAll]
    by_cases haccepts : graph.Accepts cmd
    · obtain ⟨g', hrun, hrep'⟩ := apply_of_accepts hrep hw haccepts
      rw [after, hrun]
      exact ⟨_, hrep', hw.apply haccepts.fresh, ha.apply hw haccepts⟩
    · obtain ⟨e, hrun⟩ := apply_of_not_accepts hrep haccepts
      rw [after, hrun]
      exact ⟨graph, hrep, hw, ha⟩

/-- A command keeps the integrity of a state, unless it creates a node that a stored
relationship already enters. -/
theorem integrity_after_iff (h : g.Represents graph) (hw : graph.WellFormed) (ha : graph.Anchored)
    (hi : g.Integrity) :
    (g.after cmd).Integrity ↔ ∀ id labels props,
      cmd = .createNode id labels props → g.node id = none →
        ∀ r rel, g.relationship r = some rel → rel.toId ≠ id := by
  have hf := (h.integrity_iff hw ha).mp hi
  by_cases haccepts : graph.Accepts cmd
  · obtain ⟨g', hrun, hrep⟩ := apply_of_accepts h hw haccepts
    rw [after, hrun, hrep.integrity_iff (hw.apply haccepts.fresh) (ha.apply hw haccepts),
      fullyLinked_apply_iff hf hw haccepts.fresh]
    constructor
    · rintro hcreated id labels props rfl - r rel hr hto
      rw [relationship, h.relationships] at hr
      exact hcreated id rfl ⟨r, rel, hr, hto⟩
    · rintro hcond id hcreated ⟨r, rel, hr, hto⟩
      cases cmd with
      | createNode id' labels props =>
        cases hcreated
        refine hcond id labels props rfl ?_ r rel ?_ hto
        · rw [node, h.nodes]
          exact haccepts
        · rw [relationship, h.relationships, hr]
      | _ => cases hcreated
  · obtain ⟨e, hrun⟩ := apply_of_not_accepts h haccepts
    rw [after, hrun]
    refine iff_of_true hi ?_
    rintro id labels props rfl hnone
    rw [node, h.nodes] at hnone
    exact absurd hnone haccepts

/-- A rejected command leaves the state as it is. -/
def KeepsOnError (g : GraphState) : Prop :=
  ∀ command e, ((apply command).run g).1 = .error e → g.after command = g

theorem Represents.keepsOnError (h : g.Represents graph) (hw : graph.WellFormed) :
    g.KeepsOnError := by
  intro cmd e herror
  by_cases haccepts : graph.Accepts cmd
  · obtain ⟨g', hrun, -⟩ := apply_of_accepts h hw haccepts
    rw [hrun] at herror
    cases herror
  · obtain ⟨e', hrun⟩ := apply_of_not_accepts h haccepts
    rw [after, hrun]

/-- The lists and indexes of a graph stay those of its records along a sequence of
commands exactly if no accepted command creates a node that a stored relationship, made
towards a boundary node, already enters. -/
theorem integrity_along_iff (commands : List Command) :
    (∀ done, done <+: commands →
        (new.afterAll done).Integrity ∧ (new.afterAll done).KeepsOnError) ↔
      ∀ done command, done ++ [command] <+: commands → ∀ id labels properties,
        command = .createNode id labels properties → (new.afterAll done).node id = none →
          ∀ r relationship, (new.afterAll done).relationship r = some relationship →
            relationship.toId ≠ id := by
  refine forall_isPrefix_iff ?_ fun done command _ hearlier => ?_
  · refine ⟨?_, new_represents.keepsOnError wellFormed_empty⟩
    exact (new_represents.integrity_iff wellFormed_empty anchored_empty).mpr fullyLinked_empty
  · obtain ⟨graph, hrep, hw, ha⟩ := afterAll_represents done
    obtain ⟨graph', hrep', hw', -⟩ := afterAll_represents (done ++ [command])
    rw [and_iff_left (hrep'.keepsOnError hw'), afterAll, foldl_concat]
    exact integrity_after_iff hrep hw ha (hearlier done prefix_rfl).1

/-- A relationship towards a boundary node, which then becomes a node: the incoming list
of the node stays empty. -/
theorem created_node_misses_incoming :
    let g := new.afterAll [.upsertBoundaryNode 5 1 [] [] 1, .createNode 1 [] [],
      .createRelationship 0 1 5 "KNOWS" [], .createNode 5 [] []]
    (g.node 5).isSome ∧ g.relationship 0 = some ⟨0, 1, 5, "KNOWS", []⟩ ∧
      g.ids (.incoming 5) = [] ∧ ¬g.Integrity := by
  refine ⟨rfl, rfl, rfl, fun hi => ?_⟩
  have hlisted := ((hi.incoming 5 rfl).2 0).mpr ⟨_, rfl, rfl⟩
  exact not_mem_nil hlisted

end GraphState

end Neo4r
