/-
  `Db.ShardScopedRead`: the view of a graph that the queries of one shard read
  (`neo4r-core/src/read.rs`, `neo4r-db/src/database/staged_overlay.rs`).

  The views of all shards split a graph: a node or relationship that a read of the graph
  returns is returned by the view of the shard that owns it, and by no other.  Boundary
  nodes are not split, each view shows all of them.
-/
import Neo4r.Core.Shard
import Neo4r.Db.Error

set_option autoImplicit false

namespace Neo4r.Db

open List

/-- `GraphReadError`. -/
inductive GraphReadError
  | store (message : String)

/-- `GraphReadResult`. -/
abbrev GraphReadResult (α : Type) : Type := Except GraphReadError α

/-- `GraphRead`.  A relationship that is listed as leaving a node starts there. -/
structure GraphRead where
  node : Nat → GraphReadResult (Option Node)
  boundaryNode : Nat → GraphReadResult (Option BoundaryNode)
  nodes : GraphReadResult (List Node)
  nodeIds : GraphReadResult (List Nat)
  relationship : Nat → GraphReadResult (Option Relationship)
  nodeIdsByLabel : String → GraphReadResult (List Nat)
  nodeIdsByLabelProperty : String → String → Value → GraphReadResult (List Nat)
  boundaryNodeIdsByLabelProperty : String → String → Value → GraphReadResult (List Nat)
  outgoing : Nat → GraphReadResult (List Relationship)
  outgoingByType : Nat → String → GraphReadResult (List Relationship)
  incoming : Nat → GraphReadResult (List Relationship)
  incomingByType : Nat → String → GraphReadResult (List Relationship)
  outgoing_from : ∀ {id list}, outgoing id = .ok list → ∀ rel ∈ list, rel.fromId = id
  outgoingByType_from : ∀ {id relType list}, outgoingByType id relType = .ok list →
    ∀ rel ∈ list, rel.fromId = id

/-- `ShardScopedGraphRead`. -/
structure ShardScopedGraphRead where
  graph : GraphRead
  shardMap : ShardMap
  shardId : Nat
  valid : shardId < shardMap.shardCount

namespace ShardScopedGraphRead

/-- `ShardScopedGraphRead::new`. -/
def new (graph : GraphRead) (shardMap : ShardMap) (shardId : Nat) :
    Except DatabaseError ShardScopedGraphRead :=
  if h : shardId < shardMap.shardCount then .ok ⟨graph, shardMap, shardId, h⟩
  else .error (.missingShardLog shardId)

variable (v : ShardScopedGraphRead)

/-- `owns_node`. -/
def ownsNode (id : Nat) : Bool := v.shardMap.ownerOfNode id = v.shardId

/-- `owns_relationship`. -/
def ownsRelationship (rel : Relationship) : Bool :=
  v.shardMap.ownerOfRelationship rel.fromId rel.toId rel.relType = v.shardId

/-- The relationships that leave a node, empty for a node of another shard. -/
def leaving (id : Nat) (list : GraphReadResult (List Relationship)) :
    GraphReadResult (List Relationship) :=
  if v.ownsNode id then list.map (filter v.ownsRelationship) else .ok []

variable {v} in
theorem leaving_from {id : Nat} {read : GraphReadResult (List Relationship)}
    (hread : ∀ {all}, read = .ok all → ∀ rel ∈ all, rel.fromId = id) {list}
    (h : v.leaving id read = .ok list) : ∀ rel ∈ list, rel.fromId = id := by
  rw [leaving] at h
  split at h
  · cases read with
    | error => cases h
    | ok =>
      cases h
      exact fun rel hrel => hread rfl rel (mem_of_mem_filter hrel)
  · cases h
    simp

/-- `ShardScopedGraphRead` as a `GraphRead`. -/
def toGraphRead : GraphRead where
  node id := if v.ownsNode id then v.graph.node id else .ok none
  boundaryNode := v.graph.boundaryNode
  nodes := v.graph.nodes.map (filter fun node => v.ownsNode node.id)
  nodeIds := v.graph.nodeIds.map (filter v.ownsNode)
  relationship id := (v.graph.relationship id).map (Option.filter v.ownsRelationship)
  nodeIdsByLabel label := (v.graph.nodeIdsByLabel label).map (filter v.ownsNode)
  nodeIdsByLabelProperty label key value :=
    (v.graph.nodeIdsByLabelProperty label key value).map (filter v.ownsNode)
  boundaryNodeIdsByLabelProperty := v.graph.boundaryNodeIdsByLabelProperty
  outgoing id := v.leaving id (v.graph.outgoing id)
  outgoingByType id relType := v.leaving id (v.graph.outgoingByType id relType)
  incoming id := (v.graph.incoming id).map (filter v.ownsRelationship)
  incomingByType id relType := (v.graph.incomingByType id relType).map (filter v.ownsRelationship)
  outgoing_from := leaving_from v.graph.outgoing_from
  outgoingByType_from := leaving_from v.graph.outgoingByType_from

variable {v} in
theorem leaving_ok {id : Nat} {whole : List Relationship}
    (hfrom : ∀ rel ∈ whole, rel.fromId = id) :
    v.leaving id (.ok whole) = .ok (whole.filter v.ownsRelationship) := by
  rw [leaving]
  split
  · rfl
  · next howner =>
    refine congrArg _ (filter_eq_nil_iff.mpr fun rel hrel => ?_).symm
    rwa [ownsRelationship, ShardMap.ownerOfRelationship, hfrom rel hrel]

end ShardScopedGraphRead

open ShardScopedGraphRead

/-- Of what a read of the graph lists, each view lists records of its shard, and each
record is listed by exactly one view. -/
def SplitsByOwner {α : Type} {shards : Nat} (graph : GraphRead)
    (view : Fin shards → ShardScopedGraphRead) (owner : α → Nat)
    (read : GraphRead → GraphReadResult (List α)) : Prop :=
  ∀ whole, read graph = .ok whole → ∃ own : Fin shards → List α,
    (∀ shard, read (view shard).toGraphRead = .ok (own shard) ∧
      ∀ x ∈ own shard, x ∈ whole ∧ owner x = shard) ∧ ∀ x ∈ whole, ∃! shard, x ∈ own shard

theorem splitsByOwner_filter {α : Type} {shards : Nat} {graph : GraphRead}
    {view : Fin shards → ShardScopedGraphRead} {owner : α → Nat}
    {read : GraphRead → GraphReadResult (List α)} (hlt : ∀ x, owner x < shards)
    (hread : ∀ whole, read graph = .ok whole → ∀ shard,
      read (view shard).toGraphRead = .ok (whole.filter fun x => owner x = shard)) :
    SplitsByOwner graph view owner read := by
  intro whole hwhole
  refine ⟨_, fun shard => ⟨hread whole hwhole shard, by simp⟩, fun x hx => ?_⟩
  refine ⟨⟨owner x, hlt x⟩, by simp [hx], fun shard hshard => Fin.ext ?_⟩
  simp_all

/-- The views of all shards split the nodes and relationships of a graph, in lookups, scans
and what leaves a node. -/
theorem shardScopedGraphRead_splits {graph : GraphRead} {map : ShardMap}
    {view : Fin map.shardCount → ShardScopedGraphRead}
    (hnew : ∀ shard : Fin map.shardCount, new graph map shard = .ok (view shard)) :
    (∀ id, SplitsByOwner graph view (fun _ => map.ownerOfNode id) fun g =>
        (g.node id).map Option.toList) ∧
      SplitsByOwner graph view (fun node => map.ownerOfNode node.id) (·.nodes) ∧
      SplitsByOwner graph view map.ownerOfNode (·.nodeIds) ∧
      (∀ label, SplitsByOwner graph view map.ownerOfNode (·.nodeIdsByLabel label)) ∧
      (∀ label key value, SplitsByOwner graph view map.ownerOfNode
        (·.nodeIdsByLabelProperty label key value)) ∧
      (∀ id, SplitsByOwner graph view (fun rel => map.ownerOfNode rel.fromId) (·.outgoing id)) ∧
      ∀ id relType, SplitsByOwner graph view (fun rel => map.ownerOfNode rel.fromId)
        (·.outgoingByType id relType) := by
  have hview : view = fun shard => ⟨graph, map, shard, shard.isLt⟩ := by
    funext shard
    have h := hnew shard
    rw [new, dif_pos shard.isLt] at h
    exact (Except.ok.inj h).symm
  subst hview
  have hlt id : map.ownerOfNode id < map.shardCount := Nat.mod_lt _ map.positive
  refine ⟨fun id => ?_, ?_, ?_, fun label => ?_, fun label key value => ?_, fun id => ?_,
    fun id relType => ?_⟩ <;>
    refine splitsByOwner_filter (fun _ => hlt _) fun whole h shard => ?_
  · by_cases howner : map.ownerOfNode id = shard
    · simpa [toGraphRead, ownsNode, howner] using h
    · simp [toGraphRead, ownsNode, howner, Except.map]
  iterate 4 exact congrArg (Except.map (filter _)) h
  · exact (congrArg (leaving _ id) h).trans (leaving_ok (graph.outgoing_from h))
  · exact (congrArg (leaving _ id) h).trans (leaving_ok (graph.outgoingByType_from h))

/-- A node of shard 0 of two, with a relationship to a node of shard 1. -/
def boundaryGraph : GraphRead where
  node id := .ok (if id = 0 then some ⟨0, [], []⟩ else none)
  boundaryNode id := .ok (if id = 1 then some ⟨1, 1, ["A"], [("k", .null)], 0⟩ else none)
  nodes := .ok [⟨0, [], []⟩]
  nodeIds := .ok [0]
  relationship id := .ok (if id = 0 then some ⟨0, 0, 1, "R", []⟩ else none)
  nodeIdsByLabel _ := .ok []
  nodeIdsByLabelProperty _ _ _ := .ok []
  boundaryNodeIdsByLabelProperty label key value :=
    .ok (if label = "A" ∧ key = "k" ∧ value = .null then [1] else [])
  outgoing id := .ok (if id = 0 then [⟨0, 0, 1, "R", []⟩] else [])
  outgoingByType id relType := .ok (if id = 0 ∧ relType = "R" then [⟨0, 0, 1, "R", []⟩] else [])
  incoming _ := .ok []
  incomingByType _ _ := .ok []
  outgoing_from h := by
    cases h
    grind
  outgoingByType_from h := by
    cases h
    grind

theorem shardScopedGraphRead_splits_boundaryGraph :
    SplitsByOwner boundaryGraph
      (fun shard : Fin 2 => ⟨boundaryGraph, ⟨2, by decide⟩, shard, shard.isLt⟩)
      (fun rel => rel.fromId % 2) (·.outgoing 0) :=
  (@shardScopedGraphRead_splits boundaryGraph ⟨2, by decide⟩ _
    fun shard => dif_pos shard.isLt).2.2.2.2.2.1 0

/-- The view of shard 0 finds a boundary node, whose node shard 1 owns. -/
theorem boundary_lookup_not_owned :
    ∃ view, new boundaryGraph ⟨2, by decide⟩ 0 = .ok view ∧
      view.toGraphRead.boundaryNodeIdsByLabelProperty "A" "k" .null = .ok [1] ∧
      view.ownsNode 1 = false :=
  ⟨⟨boundaryGraph, ⟨2, by decide⟩, 0, by decide⟩, rfl, rfl, rfl⟩

end Neo4r.Db
