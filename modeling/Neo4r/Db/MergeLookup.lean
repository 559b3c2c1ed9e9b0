/-
  `Db.MergeLookup`: the node that a `MERGE` finds
  (`neo4r-db/src/database/db_index_validation.rs`, `database/helpers.rs`,
  `database/write_cypher_helpers.rs`).

  With an index on one of the labels and properties the candidates come in the order of
  their identifiers, without one partition by partition.  Both ways find a node if one
  matches, but if several do they need not find the same.
-/
import Neo4r.Db.GraphIndexes
import Neo4r.Storage.PartitionNodes

set_option autoImplicit false

namespace Neo4r.Db

open Foundation Storage List PartitionedGraphStore

/-- `matches_target_shard`. -/
def matchesTargetShard (targetShard : Option Nat) (shardId : Nat) : Bool :=
  targetShard.all fun target => target = shardId

/-- `node_matches_merge_pattern`. -/
def nodeMatchesMergePattern (node : Node) (labels : List String) (properties : Properties) : Bool :=
  labels.all (fun label => label ∈ node.labels) &&
    properties.all fun entry => sameProperty (node.properties.get entry.1) (some entry.2)

namespace IndexedGraph

variable (graph : IndexedGraph) (shardMap : ShardMap) (labels : List String)
  (properties : Properties) (targetShard : Option Nat)

/-- `merge_node_lookup_key_for_kind`. -/
def mergeNodeLookupKeyForKind (unique : Bool) : Option (String × String × Value) :=
  graph.indexes.findSome? fun index =>
    let kindMatches := match index.kind with
      | .uniqueNodeProperty => unique
      | .nodeProperty => !unique
      | .vector _ _ => false
    if !kindMatches || index.label ∉ labels then none
    else match properties.get index.property with
      | none | some .null => none
      | some value => some (index.label, index.property, value)

/-- `merge_node_lookup_key`. -/
def mergeNodeLookupKey : Option (String × String × Value) :=
  (graph.mergeNodeLookupKeyForKind labels properties true).or
    (graph.mergeNodeLookupKeyForKind labels properties false)

/-- The node is on the target shard and matches the pattern. -/
def isMergeMatch (node : Node) : Bool :=
  matchesTargetShard targetShard (shardMap.ownerOfNode node.id) &&
    nodeMatchesMergePattern node labels properties

/-- The body of the loop of `find_merge_node` over the index. -/
def mergeCandidate (id : Nat) : Except DatabaseError (Option Node) :=
  if !matchesTargetShard targetShard (shardMap.ownerOfNode id) then pure none
  else do
    let node ← graph.node id
    return node.filter fun node => nodeMatchesMergePattern node labels properties

/-- `find_merge_node`. -/
def findMergeNode : Except DatabaseError (Option Node) :=
  match graph.mergeNodeLookupKey labels properties with
  | some (label, property, value) =>
    (graph.store.nodeIdsByLabelProperty label property value).findSomeM?
      (graph.mergeCandidate shardMap labels properties targetShard)
  | none => do
    let nodes ← graph.store.nodes.mapError .storage
    return nodes.find? (isMergeMatch shardMap labels properties targetShard)

/-! ## The candidates -/

variable {graph labels properties}

theorem mergeNodeLookupKey_eq {label property : String} {value : Value}
    (h : graph.mergeNodeLookupKey labels properties = some (label, property, value)) :
    label ∈ labels ∧ properties.get property = some value ∧ value ≠ .null := by
  have hkind {unique : Bool} (h : graph.mergeNodeLookupKeyForKind labels properties unique =
      some (label, property, value)) :
      label ∈ labels ∧ properties.get property = some value ∧ value ≠ .null := by
    obtain ⟨index, -, hindex⟩ := exists_of_findSome?_eq_some h
    grind
  rcases Option.or_eq_some_iff.mp h with h | ⟨-, h⟩ <;> exact hkind h

/-- An index on a label and a property of the pattern that is not null is used. -/
theorem mergeNodeLookupKey_isSome (store : PartitionedGraphStore) {label property : String}
    {value : Value} (hlabel : label ∈ labels) (hvalue : properties.get property = some value)
    (hnull : value ≠ .null) :
    (mergeNodeLookupKey ⟨store, [⟨"", label, property, .nodeProperty⟩]⟩ labels
      properties).isSome := by
  simp [mergeNodeLookupKey, mergeNodeLookupKeyForKind, hlabel, hvalue]

variable {part : Nat → Nat} {nodes : Nat → Option Node}

variable (h : graph.store.KeepsNodes part nodes)
  (hpart : ∀ id, part id < graph.store.partitions.length)

include h hpart

/-- The loop over the index finds the first match. -/
theorem findSomeM?_ids (ids : List Nat) :
    ids.findSomeM? (graph.mergeCandidate shardMap labels properties targetShard) =
      .ok ((ids.filterMap nodes).find? (isMergeMatch shardMap labels properties targetShard)) := by
  induction ids with
  | nil => rfl
  | cons id ids ih =>
    rw [findSomeM?_cons, ih, filterMap_cons, mergeCandidate, node, h.node_eq (hpart id)]
    cases hnode : nodes id with
    | none => cases matchesTargetShard targetShard (shardMap.ownerOfNode id) <;> rfl
    | some node =>
      rw [find?_cons, isMergeMatch, h.node_id (hpart id) hnode]
      cases matchesTargetShard targetShard (shardMap.ownerOfNode id) with
      | false => rfl
      | true =>
        cases hmatch : nodeMatchesMergePattern node labels properties <;>
          simp [Except.mapError, Option.filter, hmatch, pure, Except.pure, bind, Except.bind]

/-- The order of a scan: by partition, then by identifier. -/
def ScanOrder (part : Nat → Nat) (a b : Node) : Prop :=
  part a.id < part b.id ∨ part a.id = part b.id ∧ a.id ≤ b.id

/-- The node found is the first match of a list that has every stored match.  With an index
the list is in the order of the identifiers, without one in the order of the scan. -/
theorem findMergeNode_eq (hfree : ∀ entry ∈ properties, entry.2.floatFree = true) :
    ∃ list : List Node, graph.findMergeNode shardMap labels properties targetShard =
        .ok (list.find? (isMergeMatch shardMap labels properties targetShard)) ∧
      (∀ node, isMergeMatch shardMap labels properties targetShard node = true →
        (node ∈ list ↔ nodes node.id = some node)) ∧
      if (graph.mergeNodeLookupKey labels properties).isSome then
        list.Pairwise fun a b => a.id ≤ b.id
      else list.Pairwise (ScanOrder part) := by
  cases hkey : graph.mergeNodeLookupKey labels properties with
  | none =>
    obtain ⟨list, hlist, hmem, hordered⟩ := h.nodes_eq hpart
    refine ⟨list, ?_, fun node _ => hmem node, hordered⟩
    rw [findMergeNode, hkey, hlist]
    rfl
  | some key =>
    obtain ⟨label, property, value⟩ := key
    obtain ⟨hlabel, hvalue, -⟩ := mergeNodeLookupKey_eq hkey
    have hid {id : Nat} {node : Node} (hnode : nodes id = some node) : node.id = id :=
      h.node_id (hpart id) hnode
    refine ⟨(graph.store.nodeIdsByLabelProperty label property value).filterMap nodes, ?_,
      fun node hmatch => ⟨fun hmem => ?_, fun hnode => ?_⟩, ?_⟩
    · rw [findMergeNode, hkey]
      exact findSomeM?_ids shardMap targetShard h hpart _
    · obtain ⟨id, -, hnode⟩ := mem_filterMap.mp hmem
      rw [hid hnode, hnode]
    · refine mem_filterMap.mpr ⟨node.id, ?_, hnode⟩
      simp only [isMergeMatch, nodeMatchesMergePattern, Bool.and_eq_true, all_eq_true]
        at hmatch
      have hentry := Properties.mem_of_get hvalue
      obtain ⟨value', hvalue', hkey'⟩ :=
        (sameProperty_iff (hfree _ hentry) _).mp (hmatch.2.2 _ hentry)
      exact h.mem_nodeIdsByLabelProperty (hpart _) hnode value
        (of_decide_eq_true (hmatch.2.1 label hlabel)) ⟨_, Properties.mem_of_get hvalue', rfl, hkey'⟩
    · refine Pairwise.filterMap nodes (fun a b hab x hx y hy => ?_)
        (sortedLE_sortedIds _).pairwise
      rwa [hid hx, hid hy]

omit h hpart

/-- The first match of an ordered list comes before the others. -/
theorem before_of_find? {before : Node → Node → Prop} {p : Node → Bool} {list : List Node}
    (hordered : list.Pairwise before) (hrefl : ∀ node, before node node) {first other : Node}
    (hfirst : list.find? p = some first) (hmem : other ∈ list) (hp : p other = true) :
    before first other := by
  obtain ⟨-, earlier, later, rfl, hearlier⟩ := find?_eq_some_iff_append.mp hfirst
  rcases mem_append.mp hmem with hmem | hmem
  · have := hearlier other hmem
    simp [hp] at this
  · rcases mem_cons.mp hmem with rfl | hmem
    · exact hrefl other
    · exact (pairwise_cons.mp (pairwise_append.mp hordered).2.1).1 other hmem

/-- The first matches of two lists with the same ones, the one by identifier and the other in
the order of the scan: they are the same if the least one is in the first partition. -/
theorem find?_eq_iff {p : Node → Bool} {list list' : List Node}
    (hlist : ∀ node, p node = true → (node ∈ list ↔ nodes node.id = some node))
    (hlist' : ∀ node, p node = true → (node ∈ list' ↔ nodes node.id = some node))
    (hordered : list.Pairwise fun a b => a.id ≤ b.id) (hscan : list'.Pairwise (ScanOrder part)) :
    list.find? p = list'.find? p ↔ ∀ least, nodes least.id = some least ∧ p least = true →
      (∀ node, nodes node.id = some node ∧ p node = true → least.id ≤ node.id) →
      ∀ node, nodes node.id = some node ∧ p node = true → part least.id ≤ part node.id := by
  have hleast {first : Node} (hfirst : list.find? p = some first) (node : Node)
      (hnode : nodes node.id = some node) (hp : p node = true) : first.id ≤ node.id :=
    before_of_find? hordered (fun _ => Nat.le_refl _) hfirst ((hlist node hp).mpr hnode) hp
  have hfirst' {first : Node} (hfirst : list'.find? p = some first) (node : Node)
      (hnode : nodes node.id = some node) (hp : p node = true) : ScanOrder part first node :=
    before_of_find? hscan (fun _ => .inr ⟨rfl, Nat.le_refl _⟩) hfirst
      ((hlist' node hp).mpr hnode) hp
  constructor
  · rintro heq least ⟨hstored, hp⟩ hle node ⟨hnode, hpnode⟩
    obtain ⟨first, hfirst⟩ := Option.isSome_iff_exists.mp
      (find?_isSome.mpr ⟨least, (hlist least hp).mpr hstored, hp⟩)
    have hpfirst := find?_some hfirst
    have hid : least.id = first.id := Nat.le_antisymm
      (hle first ⟨(hlist first hpfirst).mp (mem_of_find?_eq_some hfirst), hpfirst⟩)
      (hleast hfirst least hstored hp)
    rw [hid]
    rcases hfirst' (heq.symm.trans hfirst) node hnode hpnode with hlt | ⟨heq, -⟩
    · exact hlt.le
    · exact heq.le
  · intro hparts
    cases hscanned : list'.find? p with
    | none =>
      rw [find?_eq_none] at hscanned ⊢
      exact fun node hnode hp => hscanned node ((hlist' node hp).mpr ((hlist node hp).mp hnode)) hp
    | some node =>
      have hp := find?_some hscanned
      have hstored := (hlist' node hp).mp (mem_of_find?_eq_some hscanned)
      obtain ⟨first, hfirst⟩ := Option.isSome_iff_exists.mp
        (find?_isSome.mpr ⟨node, (hlist node hp).mpr hstored, hp⟩)
      have hpfirst := find?_some hfirst
      have hstored' := (hlist first hpfirst).mp (mem_of_find?_eq_some hfirst)
      have hle := hleast hfirst node hstored hp
      have hpart := hparts first ⟨hstored', hpfirst⟩ (fun other ho => hleast hfirst other ho.1 ho.2)
        node ⟨hstored, hp⟩
      have hid : first.id = node.id := by
        rcases hfirst' hscanned first hstored' hpfirst with hlt | ⟨-, hle'⟩
        · omega
        · exact Nat.le_antisymm hle hle'
      rw [hfirst, ← hstored', hid]
      exact hstored

end IndexedGraph

open IndexedGraph

/-- **A `MERGE` finds a node exactly if one matches**, whatever the indexes are.  It finds the
same one with all of them exactly if none can be used, or the match with the least identifier
lies in the first partition that has a match. -/
theorem findMergeNode_indexes_iff {store : PartitionedGraphStore} {part : Nat → Nat}
    {nodes : Nat → Option Node} (h : store.KeepsNodes part nodes)
    (hpart : ∀ id, part id < store.partitions.length) (shardMap : ShardMap) (labels : List String)
    (properties : Properties) (hfree : ∀ entry ∈ properties, entry.2.floatFree = true)
    (targetShard : Option Nat) :
    let find indexes := findMergeNode ⟨store, indexes⟩ shardMap labels properties targetShard
    let Matching node := nodes node.id = some node ∧
      isMergeMatch shardMap labels properties targetShard node = true
    (∀ indexes, ∃ found, find indexes = .ok found ∧ (∀ node, found = some node → Matching node) ∧
      (found = none → ∀ node, ¬Matching node)) ∧
    ((∀ indexes, find indexes = find []) ↔ ∀ label ∈ labels, ∀ property value,
      properties.get property = some value → value ≠ .null →
        ∀ least, Matching least → (∀ node, Matching node → least.id ≤ node.id) →
          ∀ node, Matching node → part least.id ≤ part node.id) := by
  intro find Matching
  have hlists indexes := @findMergeNode_eq ⟨store, indexes⟩ shardMap labels
    properties targetShard part nodes h hpart hfree
  obtain ⟨scanned, hscan, hscanned, hscanOrder⟩ := hlists []
  refine ⟨fun indexes => ?_, fun hsame label hlabel property value hvalue hnull => ?_,
    fun hleast indexes => ?_⟩
  · obtain ⟨list, hfind, hlist, -⟩ := hlists indexes
    refine ⟨_, hfind, fun node hnode => ?_, fun hnone node hnode => ?_⟩
    · have hp := find?_some hnode
      exact ⟨(hlist node hp).mp (mem_of_find?_eq_some hnode), hp⟩
    · exact find?_eq_none.mp hnone node ((hlist node hnode.2).mpr hnode.1) hnode.2
  · obtain ⟨list, hfind, hlist, hordered⟩ := hlists [⟨"", label, property, .nodeProperty⟩]
    rw [if_pos (mergeNodeLookupKey_isSome store hlabel hvalue hnull)] at hordered
    have heq := Except.ok.inj (hfind.symm.trans ((hsame _).trans hscan))
    exact (find?_eq_iff hlist hscanned hordered hscanOrder).mp heq
  · obtain ⟨list, hfind, hlist, hordered⟩ := hlists indexes
    cases hkey : mergeNodeLookupKey ⟨store, indexes⟩ labels properties with
    | none =>
      change findMergeNode _ _ _ _ _ = _
      rw [findMergeNode, hkey]
      rfl
    | some =>
      obtain ⟨hlabel, hvalue, hnull⟩ := mergeNodeLookupKey_eq hkey
      rw [if_pos (hkey ▸ rfl)] at hordered
      refine hfind.trans (Eq.trans (congrArg _ ?_) hscan.symm)
      exact (find?_eq_iff hlist hscanned hordered hscanOrder).mpr
        (hleast _ hlabel _ _ hvalue hnull)

/-- Two nodes that match, in the order of their partitions. -/
def twoMatches : List (Nat × Command) :=
  [(0, .createNode 1 ["A"] [("k", .int 1)]), (1, .createNode 2 ["A"] [("k", .int 1)])]

/-- Every list of indexes leads to the node with the least identifier. -/
theorem findMergeNode_indexes_twoMatches :
    ∃ store, (fresh (.unassigned 2 (by decide))).applyAll twoMatches = .ok store ∧
      (∀ indexes, findMergeNode ⟨store, indexes⟩ ⟨2, by decide⟩ ["A"] [("k", .int 1)] none =
        findMergeNode ⟨store, []⟩ ⟨2, by decide⟩ ["A"] [("k", .int 1)] none) ∧
      (findMergeNode ⟨store, []⟩ ⟨2, by decide⟩ ["A"] [("k", .int 1)] none).toOption.map
        (Option.map Node.id) = some (some 1) := by
  have hkeeps : (fresh (.unassigned 2 (by decide))).KeepsNodes (fun id => if id = 1 then 0 else 1)
    fun _ => none := fresh_keepsNodes _ _
  have hroute : ∀ entry ∈ twoMatches, ∀ id, nodeOf entry.2 = some id → (if id = 1 then 0 else 1) =
      (fresh (.unassigned 2 (by decide))).placement.localPartitionIdForShard entry.1 := by decide
  obtain ⟨store, hok, hplace, hnodes⟩ := hkeeps.applyAll hroute
  have hlength : store.partitions.length = 2 := store.length_eq.trans (congrArg _ hplace)
  refine ⟨store, hok, (findMergeNode_indexes_iff hnodes ?_ ⟨2, by decide⟩ ["A"] [("k", .int 1)]
    (by simp [Value.floatFree]) none).2.mpr ?_, ?_⟩
  · intro id
    rw [hlength]
    split <;> decide
  · rintro _ _ _ _ _ _ least ⟨hstored, -⟩ hleast node -
    have hone : least.id ≤ 1 := hleast ⟨1, ["A"], [("k", .int 1)]⟩ ⟨by rfl, by decide⟩
    have hpos : least.id ≠ 0 := by
      intro hzero
      rw [hzero] at hstored
      cases hstored
    rw [if_pos (by omega)]
    exact Nat.zero_le _
  · have hfound : (((fresh (.unassigned 2 (by decide))).applyAll twoMatches).mapError
        DatabaseError.storage >>= fun store => findMergeNode ⟨store, []⟩ ⟨2, by decide⟩ ["A"]
          [("k", .int 1)] none).toOption.map (Option.map Node.id) = some (some 1) := by
      decide +kernel
    rwa [hok] at hfound

/-- Two nodes that match, the one with the greater identifier in the first partition. -/
theorem findMergeNode_differs :
    let find (indexes : List IndexDefinition) := do
      let store ← ((fresh (.unassigned 2 (by decide))).applyAll
        [(0, .createNode 2 ["A"] [("k", .int 1)]),
          (1, .createNode 1 ["A"] [("k", .int 1)])]).mapError DatabaseError.storage
      findMergeNode ⟨store, indexes⟩ ⟨2, by decide⟩ ["A"] [("k", .int 1)] none
    (find []).toOption.map (Option.map Node.id) = some (some 2) ∧
      (find [⟨"a_k", "A", "k", .nodeProperty⟩]).toOption.map (Option.map Node.id) =
        some (some 1) := by
  decide +kernel

end Neo4r.Db
