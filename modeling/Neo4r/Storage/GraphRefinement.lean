/-
  `Storage.GraphRefinement`: the key-value store against the graph in memory.

  Both represent a property graph, and a command that the graph in memory applies leads
  both to the same one.  So all reads agree, with one difference that the two designs
  have: for an identifier without a node, the lists of relationships are an error in
  memory and empty in the store.
-/
import Neo4r.Core.GraphIntegrity
import Neo4r.Storage.GraphStoreSpec

set_option autoImplicit false

namespace Neo4r.Storage

open Foundation GraphState PropertyGraph KvGraphStore

/-! ## What both represent -/

/-- A state in memory and a store hold one graph. -/
structure SameGraph (g : GraphState) (store : KvGraphStore) (graph : PropertyGraph) : Prop where
  state : g.Represents graph
  store : store.Represents graph
  wellFormed : graph.WellFormed
  anchored : graph.Anchored

theorem sameGraph_new : SameGraph .new .new .empty :=
  ⟨new_represents, new_represents, wellFormed_empty, anchored_empty⟩

variable {g' : GraphState}

/-- A command that the state applies, the store applies as well. -/
theorem SameGraph.apply {g : GraphState} {store : KvGraphStore} {graph : PropertyGraph}
    (h : SameGraph g store graph) {command : Command}
    (hrun : (apply command).run g = (.ok (), g')) :
    ∃ store', store.apply command = .ok store' ∧ SameGraph g' store' (graph.apply command) := by
  have haccepts : graph.Accepts command := by
    by_contra hrejected
    obtain ⟨e, herror⟩ := apply_of_not_accepts h.state hrejected
    rw [hrun] at herror
    cases herror
  obtain ⟨g'', hrun', hstate⟩ := apply_of_accepts h.state h.wellFormed haccepts
  obtain ⟨store', hok, hstore⟩ := h.store.apply h.wellFormed haccepts.fresh
  rw [hrun] at hrun'
  cases hrun'
  exact ⟨store', hok, hstate, hstore, h.wellFormed.apply haccepts.fresh,
    h.anchored.apply h.wellFormed haccepts⟩

theorem SameGraph.applyAll {g : GraphState} {store : KvGraphStore} {graph : PropertyGraph}
    (h : SameGraph g store graph) {cmds : List Command}
    (hrun : (applyAll cmds).run g = (.ok (), g')) :
    ∃ store' graph', store.applyAll cmds = .ok store' ∧ SameGraph g' store' graph' := by
  induction cmds generalizing g store graph with
  | nil =>
    cases hrun
    exact ⟨store, graph, rfl, h⟩
  | cons cmd cmds ih =>
    obtain ⟨_, g₁, hhead, htail⟩ := Fallible.of_bind_ok hrun
    obtain ⟨store₁, hok, h₁⟩ := h.apply hhead
    obtain ⟨store', graph', hall, h'⟩ := ih h₁ htail
    refine ⟨store', graph', ?_, h'⟩
    rw [KvGraphStore.applyAll, List.foldlM_cons, hok]
    exact hall

/-! ## Reads -/

/-- Two reads of relationships that succeed with the same ones, in some order. -/
def SameRelationships (read : Except GraphError (List Relationship))
    (read' : Except StorageError (List Relationship)) : Prop :=
  ∃ relationships relationships', read = .ok relationships ∧ read' = .ok relationships' ∧
    relationships.Perm relationships'

/-- The reads of records and of identifiers agree. -/
structure RecordsAgree (g : GraphState) (store : KvGraphStore) : Prop where
  node : ∀ id, store.node id = .ok (g.node id)
  boundaryNode : ∀ id, store.boundaryNode id = .ok (g.boundaryNode id)
  relationship : ∀ id, store.relationship id = .ok (g.relationship id)
  nodeIdsByLabel : ∀ label, (g.nodeIdsByLabel label).Perm (store.nodeIdsByLabel label)
  nodeIdsByLabelProperty : ∀ label key value,
    (g.nodeIdsByLabelProperty label key value).Perm (store.nodeIdsByLabelProperty label key value)
  boundaryNodeIdsByLabelProperty : ∀ label key value,
    (g.boundaryNodeIdsByLabelProperty label key value).Perm
      (store.boundaryNodeIdsByLabelProperty label key value)

/-- The reads of the relationships of a node agree. -/
structure AdjacencyAgrees (g : GraphState) (store : KvGraphStore) (nodeId : Nat) : Prop where
  outgoing : SameRelationships (g.outgoingRelationships nodeId) (store.outgoing nodeId)
  outgoingByType : ∀ relType, SameRelationships (g.outgoingRelationshipsByType nodeId relType)
    (store.outgoingByType nodeId relType)
  incoming : SameRelationships (g.incomingRelationships nodeId) (store.incoming nodeId)
  incomingByType : ∀ relType, SameRelationships (g.incomingRelationshipsByType nodeId relType)
    (store.incomingByType nodeId relType)

/-- The reads of the relationships of a node that is not stored. -/
structure AdjacencyMissing (g : GraphState) (store : KvGraphStore) (nodeId : Nat) : Prop where
  outgoing : g.outgoingRelationships nodeId = .error (.nodeNotFound nodeId) ∧
    store.outgoing nodeId = .ok []
  outgoingByType : ∀ relType,
    g.outgoingRelationshipsByType nodeId relType = .error (.nodeNotFound nodeId) ∧
      store.outgoingByType nodeId relType = .ok []
  incoming : g.incomingRelationships nodeId = .error (.nodeNotFound nodeId) ∧
    store.incoming nodeId = .ok []
  incomingByType : ∀ relType,
    g.incomingRelationshipsByType nodeId relType = .error (.nodeNotFound nodeId) ∧
      store.incomingByType nodeId relType = .ok []

variable {g : GraphState} {store : KvGraphStore} {graph : PropertyGraph}

theorem SameGraph.perm_ids (h : SameGraph g store graph) (range : IndexRange) :
    (g.ids range).Perm (store.scanIds (.index range)) := by
  refine (List.perm_ext_iff_of_nodup (h.state.listsOnce range)
    (store.nodup_scanIds _)).mpr fun id => ?_
  rw [h.state.mem_ids, h.store.mem_scanIds_index]
  rfl

theorem SameGraph.recordsAgree (h : SameGraph g store graph) : RecordsAgree g store where
  node id := (h.store.node_eq id).trans (congrArg _ (h.state.nodes id).symm)
  boundaryNode id := (h.store.boundaryNode_eq id).trans (congrArg _ (h.state.boundaryNodes id).symm)
  relationship id := (h.store.relationship_eq id).trans (congrArg _ (h.state.relationships id).symm)
  nodeIdsByLabel _ := h.perm_ids _
  nodeIdsByLabelProperty _ _ _ := h.perm_ids _
  boundaryNodeIdsByLabelProperty _ _ _ := h.perm_ids _

variable {nodeId : Nat} {range : IndexRange}

section

variable (h : SameGraph g store graph)

include h

theorem SameGraph.sameRelationships (hnode : (g.node nodeId).isSome)
    (hkind : range.kind = .relationship) :
    SameRelationships (g.relationshipsAt nodeId range) (store.relationshipsFromIndex range) := by
  have hrels : g.relationships.get = graph.relationships := funext h.state.relationships
  have hstored : (g.nodes.get nodeId).isSome := hnode
  refine ⟨_, _, ?_, h.store.relationshipsFromIndex_eq hkind,
    (h.perm_ids range).filterMap graph.relationships⟩
  rw [relationshipsAt, ensureNodeExists, if_pos hstored, hrels]
  rfl

/-- Nothing is listed at a node that is not stored. -/
theorem SameGraph.missing (hnode : g.node nodeId = none) (hkind : range.kind = .relationship)
    (hempty : ∀ id, graph.Indexed range id → (graph.nodes nodeId).isSome) :
    g.relationshipsAt nodeId range = .error (.nodeNotFound nodeId) ∧
      store.relationshipsFromIndex range = .ok [] := by
  have hnone : g.nodes.get nodeId = none := hnode
  have hids : store.scanIds (.index range) = [] := by
    refine List.eq_nil_iff_forall_not_mem.mpr fun id hid => ?_
    have hsome := hempty id (h.store.mem_scanIds_index.mp hid)
    rw [← h.state.nodes, hnone] at hsome
    cases hsome
  constructor
  · rw [relationshipsAt, ensureNodeExists, hnone]
    rfl
  · rw [h.store.relationshipsFromIndex_eq hkind, hids]
    rfl

theorem SameGraph.adjacencyAgrees (hnode : (g.node nodeId).isSome) :
    AdjacencyAgrees g store nodeId where
  outgoing := h.sameRelationships hnode rfl
  outgoingByType _ := h.sameRelationships hnode rfl
  incoming := h.sameRelationships hnode rfl
  incomingByType _ := h.sameRelationships hnode rfl

theorem SameGraph.adjacencyMissing (hnode : g.node nodeId = none) :
    AdjacencyMissing g store nodeId := by
  -- a relationship leaves a stored node, and a linked one goes to a stored node
  have hsource {id : Nat} {rel : Relationship}
      (hr : graph.relationships id = some rel) (hfrom : rel.fromId = nodeId) :
      (graph.nodes nodeId).isSome := hfrom ▸ h.anchored.source hr
  have htarget {id : Nat} {rel : Relationship} (hlinked : id ∈ graph.linked)
      (hr : graph.relationships id = some rel) (hto : rel.toId = nodeId) :
      (graph.nodes nodeId).isSome := by
    obtain ⟨relationship', hr', hsome⟩ := h.wellFormed.linked hlinked
    rw [hr] at hr'
    cases hr'
    exact hto ▸ hsome
  refine ⟨h.missing hnode rfl fun id hid => ?_, fun relType => h.missing hnode rfl fun id hid => ?_,
    h.missing hnode rfl fun id hid => ?_, fun relType => h.missing hnode rfl fun id hid => ?_⟩
  · obtain ⟨rel, hr, hfrom⟩ := indexed_outgoing.mp hid
    exact hsource hr hfrom
  · obtain ⟨rel, hr, hfrom, -⟩ := indexed_outgoingType.mp hid
    exact hsource hr hfrom
  · obtain ⟨rel, hr, hlinked, hto⟩ := indexed_incoming.mp hid
    exact htarget hlinked hr hto
  · obtain ⟨rel, hr, hlinked, hto, -⟩ := indexed_incomingType.mp hid
    exact htarget hlinked hr hto

end

/-! ## Refinement -/

/-- A sequence of commands that the graph in memory applies, the store applies as well.
Afterwards all reads agree; the lists of relationships agree for every stored node, and
are an error in memory and empty in the store for any other identifier. -/
theorem kvGraphStore_refines_graphState (commands : List Command) (g : GraphState)
    (hrun : (applyAll commands).run .new = (.ok (), g)) :
    ∃ store, new.applyAll commands = .ok store ∧ RecordsAgree g store ∧
      ∀ nodeId, ((g.node nodeId).isSome → AdjacencyAgrees g store nodeId) ∧
        (g.node nodeId = none → AdjacencyMissing g store nodeId) := by
  obtain ⟨store, graph, hall, h⟩ := sameGraph_new.applyAll hrun
  exact ⟨store, hall, h.recordsAgree, fun nodeId => ⟨h.adjacencyAgrees, h.adjacencyMissing⟩⟩

/-- The refinement at two related nodes. -/
theorem kvGraphStore_refines_two_nodes :
    ∃ store, new.applyAll [.createNode 0 ["Person"] [], .createNode 1 [] [],
      .createRelationship 0 0 1 "KNOWS" []] = .ok store ∧ store.relationship 0 =
        .ok (some ⟨0, 0, 1, "KNOWS", []⟩) := by
  obtain ⟨store, hall, hrecords, -⟩ := kvGraphStore_refines_graphState
    [.createNode 0 ["Person"] [], .createNode 1 [] [], .createRelationship 0 0 1 "KNOWS" []] _ rfl
  exact ⟨store, hall, hrecords.relationship 0⟩

/-- No node is stored, and the two outgoing reads of node 0 differ. -/
theorem adjacency_of_missing_node_differs :
    (applyAll []).run .new = (.ok (), .new) ∧ new.applyAll [] = .ok .new ∧
      new.outgoingRelationships 0 = .error (.nodeNotFound 0) ∧
      new.outgoing 0 = .ok [] ∧ ¬AdjacencyAgrees .new .new 0 := by
  refine ⟨rfl, rfl, rfl, rfl, fun h => ?_⟩
  obtain ⟨relationships, -, hread, -, -⟩ := h.outgoing
  cases hread

end Neo4r.Storage
