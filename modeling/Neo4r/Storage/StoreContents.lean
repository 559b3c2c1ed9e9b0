/-
  `Storage.StoreContents`: what a graph store holds, without keys and batches.

  The contents of a store are its records and, for each index range, the set of the
  identifiers under it.  Commands are functions on contents, with no condition: a record
  created over another one replaces it and leaves the index entries of the other behind,
  as the program does.

  The contents of a property graph have its index.  There, a command that creates under a
  free identifier is the command on graphs.
-/
import Neo4r.Core.GraphCommands

set_option autoImplicit false

namespace Neo4r.Storage

open Function

/-- The contents of a graph store. -/
@[ext]
structure Contents where
  nodes : Nat → Option Node
  boundaryNodes : Nat → Option BoundaryNode
  relationships : Nat → Option Relationship
  index : IndexRange → Set Nat

namespace Contents

/-- Nothing is stored. -/
def empty : Contents := ⟨fun _ => none, fun _ => none, fun _ => none, fun _ => ∅⟩

/-! ## Operations -/

/-- The index with an identifier taken out of some ranges and put into others. -/
def reindex (index : IndexRange → Set Nat) (id : Nat) (old new : List IndexRange) :
    IndexRange → Set Nat :=
  fun range => { id' | (id' ∈ index range ∧ ¬(id' = id ∧ range ∈ old)) ∨ (id' = id ∧ range ∈ new) }

variable {range : IndexRange} {change : Node → Option Node} {index : IndexRange → Set Nat}

theorem mem_reindex {id id' : Nat} {old new : List IndexRange} :
    id' ∈ reindex index id old new range ↔
      (id' ∈ index range ∧ ¬(id' = id ∧ range ∈ old)) ∨ (id' = id ∧ range ∈ new) := Iff.rfl

/-- A node is put, and the entries `old` of its identifier are taken out. -/
def putNode (c : Contents) (old : List IndexRange) (node : Node) : Contents :=
  { c with
    nodes := update c.nodes node.id (some node)
    index := reindex c.index node.id old node.ranges }

/-- A node is taken out with its entries. -/
def eraseNode (c : Contents) (node : Node) : Contents :=
  { c with
    nodes := update c.nodes node.id none
    index := reindex c.index node.id node.ranges [] }

/-- A boundary node is put, and the entries `old` of its identifier are taken out. -/
def putBoundaryNode (c : Contents) (old : List IndexRange) (node : BoundaryNode) : Contents :=
  { c with
    boundaryNodes := update c.boundaryNodes node.id (some node)
    index := reindex c.index node.id old node.ranges }

/-- A relationship is put, and entries for it. -/
def putRelationship (c : Contents) (relationship : Relationship) (new : List IndexRange) :
    Contents :=
  { c with
    relationships := update c.relationships relationship.id (some relationship)
    index := reindex c.index relationship.id [] new }

variable (c : Contents) (id : Nat) (old : List IndexRange)

theorem nodes_putNode (node : Node) :
    (c.putNode old node).nodes id = if id = node.id then some node else c.nodes id :=
  update_apply c.nodes node.id (some node) id

theorem nodes_eraseNode (node : Node) :
    (c.eraseNode node).nodes id = if id = node.id then none else c.nodes id :=
  update_apply c.nodes node.id none id

theorem boundaryNodes_putBoundaryNode (node : BoundaryNode) :
    (c.putBoundaryNode old node).boundaryNodes id =
      if id = node.id then some node else c.boundaryNodes id :=
  update_apply c.boundaryNodes node.id (some node) id

theorem relationships_putRelationship (rel : Relationship) (new : List IndexRange) :
    (c.putRelationship rel new).relationships id =
      if id = rel.id then some rel else c.relationships id :=
  update_apply c.relationships rel.id (some rel) id

/-- The entries that belong to a stored relationship, whether they are there or not. -/
def EntryOf (c : Contents) (range : IndexRange) (id : Nat) : Prop :=
  ∃ relationship, c.relationships id = some relationship ∧
    (range ∈ relationship.leavingRanges ∨ range ∈ relationship.enteringRanges)

theorem EntryOf.kind {c : Contents} {id : Nat} (h : c.EntryOf range id) :
    range.kind = .relationship := by
  obtain ⟨rel, -, h | h⟩ := h
  · exact Relationship.kind_of_mem_leavingRanges h
  · exact Relationship.kind_of_mem_enteringRanges h

open Classical in
/-- Relationships are taken out, each with its entries. -/
noncomputable def dropRelationships (c : Contents) (ids : Set Nat) : Contents :=
  { c with
    relationships := fun id => if id ∈ ids then none else c.relationships id
    index := fun range => { id | id ∈ c.index range ∧ ¬(id ∈ ids ∧ c.EntryOf range id) } }

/-- The relationships that the index lists at a node. -/
def listedAt (c : Contents) (nodeId : Nat) : Set Nat :=
  c.index (.outgoing nodeId) ∪ c.index (.incoming nodeId)

/-! ## Commands -/

/-- A change of a stored node. -/
def changeNode (c : Contents) (id : Nat) (change : Node → Option Node) : Contents :=
  match c.nodes id with
  | none => c
  | some node =>
    match change node with
    | none => c
    | some changed => c.putNode node.ranges changed

theorem changeNode_of_none {c : Contents} {id : Nat} (h : c.nodes id = none) :
    c.changeNode id change = c := by
  rw [changeNode, h]

theorem changeNode_of_some {c : Contents} {id : Nat} {node : Node} (h : c.nodes id = some node) :
    c.changeNode id change = ((change node).map (c.putNode node.ranges)).getD c := by
  rw [changeNode, h]
  dsimp only
  cases change node <;> rfl

/-- A change of a stored relationship. -/
def changeRelationship (c : Contents) (id : Nat) (change : Relationship → Relationship) :
    Contents :=
  match c.relationships id with
  | none => c
  | some relationship => c.putRelationship (change relationship) []

/-- The entries of a relationship at its creation. -/
def createdRanges (c : Contents) (relationship : Relationship) : List IndexRange :=
  relationship.leavingRanges ++
    if (c.nodes relationship.toId).isSome then relationship.enteringRanges else []

theorem mem_createdRanges {c : Contents} {rel : Relationship} :
    range ∈ c.createdRanges rel ↔ range ∈ rel.leavingRanges ∨
      (c.nodes rel.toId).isSome ∧ range ∈ rel.enteringRanges := by
  rw [createdRanges, List.mem_append]
  cases (c.nodes rel.toId).isSome <;> simp

/-- The entries of the boundary node under an identifier. -/
def boundaryNodeRangesAt (c : Contents) (id : Nat) : List IndexRange :=
  ((c.boundaryNodes id).map BoundaryNode.ranges).getD []

/-- A stored node is taken out, after some relationships. -/
noncomputable def dropNode (c : Contents) (id : Nat) (ids : Set Nat) : Contents :=
  match c.nodes id with
  | none => c
  | some node => (c.dropRelationships ids).eraseNode node

/-- What a command makes of the contents. -/
noncomputable def apply (c : Contents) : Command → Contents
  | .createNode id labels properties => c.putNode [] ⟨id, labels, properties⟩
  | .createRelationship id fromId toId relType properties =>
    c.putRelationship ⟨id, fromId, toId, relType, properties⟩
      (c.createdRanges ⟨id, fromId, toId, relType, properties⟩)
  | .upsertBoundaryNode id ownerShard labels properties version =>
    c.putBoundaryNode (c.boundaryNodeRangesAt id) ⟨id, ownerShard, labels, properties, version⟩
  | .setNodeProperty id key value => c.changeNode id fun node => some (node.withProperty key value)
  | .removeNodeProperty id key => c.changeNode id fun node => some (node.withoutProperty key)
  | .addNodeLabel id label => c.changeNode id fun node => node.withLabel label
  | .removeNodeLabel id label => c.changeNode id fun node => node.withoutLabel label
  | .setRelationshipProperty id key value =>
    c.changeRelationship id fun relationship => relationship.withProperty key value
  | .removeRelationshipProperty id key =>
    c.changeRelationship id fun relationship => relationship.withoutProperty key
  | .deleteRelationship id => c.dropRelationships {id}
  | .deleteNode id => c.dropNode id (c.listedAt id)
  | .clusterConfigChange _ _ _ _ => c

/-! ## What a command can do -/

/-- Relationships that differ in their properties only. -/
structure SameEnds (new old : Relationship) : Prop where
  id : new.id = old.id
  fromId : new.fromId = old.fromId
  toId : new.toId = old.toId
  relType : new.relType = old.relType

/-- The relationships that a command takes out. -/
def Drops (c : Contents) (command : Command) (r : Nat) : Prop :=
  command = .deleteRelationship r ∨ ∃ nodeId, command = .deleteNode nodeId ∧ r ∈ c.listedAt nodeId

/-- A property is kept by what a command does to relationships. -/
structure KeptOnRelationships (P : Contents → Prop) (c : Contents) (command : Command) : Prop where
  create : ∀ r : Relationship,
    command = .createRelationship r.id r.fromId r.toId r.relType r.properties →
      P (c.putRelationship r (c.createdRanges r))
  change : ∀ id old new, c.relationships id = some old → SameEnds new old →
    P (c.putRelationship new [])
  drop : ∀ ids, (∀ r ∈ ids, c.Drops command r) → P (c.dropRelationships ids)

section Induction

variable {c : Contents} {P : Contents → Prop} (h : P c)

include h

variable {id : Nat} {cmd : Command}

theorem changeNode_induction (hput : ∀ node changed : Node, P (c.putNode node.ranges changed)) :
    P (c.changeNode id change) := by
  unfold changeNode
  split
  · exact h
  · split
    · exact h
    · exact hput _ _

theorem dropNode_induction {ids : Set Nat}
    (herase : ∀ node, P ((c.dropRelationships ids).eraseNode node)) : P (c.dropNode id ids) := by
  unfold dropNode
  split
  · exact h
  · exact herase _

theorem KeptOnRelationships.changeRelationship (hkept : KeptOnRelationships P c cmd) (id : Nat)
    {change : Relationship → Relationship} (hsame : ∀ rel, SameEnds (change rel) rel) :
    P (c.changeRelationship id change) := by
  unfold Contents.changeRelationship
  split
  · exact h
  · next hr => exact hkept.change id _ _ hr (hsame _)

/-- A command puts a record, or takes relationships out and perhaps a node. -/
theorem apply_induction
    (hnode : ∀ old node, (∀ range ∈ old, range.kind = .node) → P (c.putNode old node))
    (hboundary : ∀ node, P (c.putBoundaryNode (c.boundaryNodeRangesAt node.id) node))
    (hkept : KeptOnRelationships P c cmd)
    (herase : ∀ ids node, P (c.dropRelationships ids) →
      P ((c.dropRelationships ids).eraseNode node)) :
    P (c.apply cmd) := by
  have hchange (id : Nat) (change : Node → Option Node) : P (c.changeNode id change) :=
    changeNode_induction h fun _ _ => hnode _ _ fun _ => kind_of_mem_nodeRanges
  cases cmd with
  | createNode =>
    exact hnode [] _ fun _ hmem => absurd hmem List.not_mem_nil
  | createRelationship id fromId toId relType props =>
    exact hkept.create ⟨id, fromId, toId, relType, props⟩ rfl
  | upsertBoundaryNode id ownerShard labels props version =>
    exact hboundary ⟨id, ownerShard, labels, props, version⟩
  | setNodeProperty id | removeNodeProperty id | addNodeLabel id | removeNodeLabel id =>
    rw [apply]
    exact hchange id _
  | setRelationshipProperty id | removeRelationshipProperty id =>
    exact hkept.changeRelationship h id fun _ => ⟨rfl, rfl, rfl, rfl⟩
  | deleteRelationship => exact hkept.drop _ fun r hr => .inl (hr ▸ rfl)
  | deleteNode id =>
    exact dropNode_induction h fun node =>
      herase _ node (hkept.drop _ fun r hr => .inr ⟨id, rfl, hr⟩)
  | clusterConfigChange => exact h

end Induction

/-! ## Records carry their identifiers -/

/-- Records carry their identifiers. -/
structure IdsMatch (c : Contents) : Prop where
  node_id : ∀ {id node}, c.nodes id = some node → node.id = id
  boundaryNode_id : ∀ {id node}, c.boundaryNodes id = some node → node.id = id
  relationship_id : ∀ {id relationship}, c.relationships id = some relationship →
    relationship.id = id

theorem idsMatch_empty : empty.IdsMatch := ⟨nofun, nofun, nofun⟩

variable {c : Contents} {id : Nat}

/-- An update under the identifier that the record carries. -/
theorem id_of_update {α : Type} {records : Nat → Option α} {idOf : α → Nat} {new : α}
    (h : ∀ {id a}, records id = some a → idOf a = id) {a : α}
    (ha : update records (idOf new) (some new) id = some a) : idOf a = id := by
  rw [update_apply] at ha
  split at ha
  · next heq =>
    cases ha
    exact heq.symm
  · exact h ha

theorem IdsMatch.putNode (h : c.IdsMatch) (old : List IndexRange) (node : Node) :
    (c.putNode old node).IdsMatch :=
  ⟨fun hid => id_of_update h.node_id hid, h.boundaryNode_id, h.relationship_id⟩

theorem IdsMatch.putBoundaryNode (h : c.IdsMatch) (old : List IndexRange) (node : BoundaryNode) :
    (c.putBoundaryNode old node).IdsMatch :=
  ⟨h.node_id, fun hid => id_of_update h.boundaryNode_id hid, h.relationship_id⟩

theorem IdsMatch.putRelationship (h : c.IdsMatch) (rel : Relationship)
    (new : List IndexRange) : (c.putRelationship rel new).IdsMatch :=
  ⟨h.node_id, h.boundaryNode_id, fun hid => id_of_update h.relationship_id hid⟩

theorem relationships_dropRelationships {ids : Set Nat} {relationship : Relationship} :
    (c.dropRelationships ids).relationships id = some relationship ↔
      id ∉ ids ∧ c.relationships id = some relationship := by
  by_cases hid : id ∈ ids <;> simp [dropRelationships, hid]

section

variable (h : c.IdsMatch)

include h

theorem IdsMatch.dropRelationships (ids : Set Nat) :
    (c.dropRelationships ids).IdsMatch :=
  ⟨h.node_id, h.boundaryNode_id,
    fun hid => h.relationship_id (relationships_dropRelationships.mp hid).2⟩

theorem IdsMatch.eraseNode (node : Node) : (c.eraseNode node).IdsMatch := by
  refine ⟨fun {id node'} hid => ?_, h.boundaryNode_id, h.relationship_id⟩
  rw [nodes_eraseNode] at hid
  split at hid
  · cases hid
  · exact h.node_id hid

theorem IdsMatch.dropNode (id : Nat) (ids : Set Nat) :
    (c.dropNode id ids).IdsMatch :=
  dropNode_induction h (h.dropRelationships ids).eraseNode

theorem IdsMatch.changeNode (id : Nat) (change : Node → Option Node) :
    (c.changeNode id change).IdsMatch :=
  changeNode_induction h fun _ => h.putNode _

theorem IdsMatch.apply (cmd : Command) : (c.apply cmd).IdsMatch :=
  apply_induction h (fun old node _ => h.putNode old node) (fun node => h.putBoundaryNode _ node)
    ⟨fun r _ => h.putRelationship r _, fun _ _ new _ _ => h.putRelationship new [],
      fun ids _ => h.dropRelationships ids⟩
    fun _ node hdropped => hdropped.eraseNode node

theorem IdsMatch.applyAll (cmds : List Command) : (cmds.foldl Contents.apply c).IdsMatch := by
  induction cmds generalizing c with
  | nil => exact h
  | cons cmd cmds ih => exact ih (h.apply cmd)

end

/-! ## Relationships are listed where they leave -/

/-- Every stored relationship is listed at its source. -/
def LeavingListed (c : Contents) : Prop :=
  ∀ id relationship, c.relationships id = some relationship →
    ∀ range ∈ relationship.leavingRanges, id ∈ c.index range

theorem leavingListed_empty : empty.LeavingListed := fun _ _ h => nomatch h

variable {old new : List IndexRange}

/-- Entries of nodes and boundary nodes do not matter. -/
theorem mem_reindex_of_kind {id' : Nat} (hkind : range.kind = .relationship)
    (hold : ∀ range ∈ old, range.kind ≠ .relationship)
    (hnew : ∀ range ∈ new, range.kind ≠ .relationship) :
    id' ∈ reindex index id old new range ↔ id' ∈ index range := by
  rw [mem_reindex, or_iff_left fun h => hnew range h.2 hkind]
  exact and_iff_left fun h => hold range h.2 hkind

theorem kind_of_mem_boundaryNodeRangesAt :
    ∀ range ∈ c.boundaryNodeRangesAt id, range.kind = .boundaryNode := by
  intro range hrange
  rw [boundaryNodeRangesAt] at hrange
  cases hnode : c.boundaryNodes id with
  | none =>
    rw [hnode] at hrange
    cases hrange
  | some =>
    rw [hnode] at hrange
    exact kind_of_mem_boundaryNodeRanges hrange

/-- Contents with the same relationships and the same entries for them. -/
structure SameRelationshipsIn (c c' : Contents) : Prop where
  relationships : c'.relationships = c.relationships
  index : ∀ {range}, range.kind = .relationship → ∀ id, id ∈ c'.index range ↔ id ∈ c.index range

theorem sameRelationshipsIn_putNode (hold : ∀ range ∈ old, range.kind ≠ .relationship)
    (node : Node) :
    SameRelationshipsIn c (c.putNode old node) :=
  ⟨rfl, fun hkind _ => mem_reindex_of_kind hkind hold kind_ne_of_mem_nodeRanges⟩

theorem sameRelationshipsIn_eraseNode (node : Node) : SameRelationshipsIn c (c.eraseNode node) :=
  ⟨rfl, fun hkind _ => mem_reindex_of_kind hkind kind_ne_of_mem_nodeRanges nofun⟩

theorem sameRelationshipsIn_putBoundaryNode (node : BoundaryNode) :
    SameRelationshipsIn c (c.putBoundaryNode (c.boundaryNodeRangesAt node.id) node) := by
  refine ⟨rfl, fun hkind _ => mem_reindex_of_kind hkind (fun range hmem hrel => ?_)
    kind_ne_of_mem_boundaryNodeRanges⟩
  rw [kind_of_mem_boundaryNodeRangesAt range hmem] at hrel
  cases hrel

/-- For what depends on the relationships and their entries only. -/
theorem KeptOnRelationships.apply {P : Contents → Prop} {cmd : Command}
    (hkept : KeptOnRelationships P c cmd)
    (hcongr : ∀ {c₁ c₂}, P c₁ → SameRelationshipsIn c₁ c₂ → P c₂) (h : P c) :
    P (c.apply cmd) := by
  refine apply_induction h (fun old node hold => ?_) (fun node => ?_) hkept
    fun _ node hdropped => hcongr hdropped (sameRelationshipsIn_eraseNode node)
  · refine hcongr h (sameRelationshipsIn_putNode (fun range hmem => ?_) node)
    rw [hold range hmem]
    decide
  · exact hcongr h (sameRelationshipsIn_putBoundaryNode node)

theorem LeavingListed.congr {c' : Contents} (h : c.LeavingListed)
    (hsame : SameRelationshipsIn c c') :
    c'.LeavingListed := by
  intro id rel hr range hrange
  rw [hsame.index (Relationship.kind_of_mem_leavingRanges hrange)]
  exact h id rel (hsame.relationships ▸ hr) range hrange

theorem LeavingListed.putRelationship (h : c.LeavingListed) {rel : Relationship}
    (hnew : ∀ {range}, range ∈ rel.leavingRanges → range ∈ new ∨ rel.id ∈ c.index range) :
    (c.putRelationship rel new).LeavingListed := by
  intro id relationship' hr range hrange
  rw [relationships_putRelationship] at hr
  split at hr
  · next heq =>
    cases hr
    subst heq
    exact (hnew hrange).elim (fun hmem => .inr ⟨rfl, hmem⟩)
      fun hmem => .inl ⟨hmem, fun hold => List.not_mem_nil hold.2⟩
  · exact .inl ⟨h _ _ hr _ hrange, fun hold => List.not_mem_nil hold.2⟩

theorem LeavingListed.dropRelationships (h : c.LeavingListed) (ids : Set Nat) :
    (c.dropRelationships ids).LeavingListed := by
  intro id rel hr range hrange
  obtain ⟨hnot, hr⟩ := relationships_dropRelationships.mp hr
  exact ⟨h _ _ hr _ hrange, fun hdropped => hnot hdropped.1⟩

theorem LeavingListed.apply (h : c.LeavingListed) (hids : c.IdsMatch) (cmd : Command) :
    (c.apply cmd).LeavingListed := by
  refine KeptOnRelationships.apply ⟨fun rel _ => ?_, fun id old new hr hsame => ?_,
    fun ids _ => h.dropRelationships ids⟩ LeavingListed.congr h
  · exact h.putRelationship fun hrange => .inl (List.mem_append_left _ hrange)
  · refine h.putRelationship fun hrange => .inr ?_
    rw [Relationship.leavingRanges, hsame.fromId, hsame.relType] at hrange
    rw [hsame.id, hids.relationship_id hr]
    exact h _ _ hr _ hrange

theorem LeavingListed.applyAll (h : c.LeavingListed) (hids : c.IdsMatch)
    (cmds : List Command) : (cmds.foldl Contents.apply c).LeavingListed := by
  induction cmds generalizing c with
  | nil => exact h
  | cons cmd cmds ih => exact ih (h.apply hids cmd) (hids.apply cmd)

end Contents

end Neo4r.Storage

/-! ## The contents of a graph -/

namespace Neo4r.PropertyGraph

open Storage Contents

/-- The records of a graph with its index. -/
def contents (g : PropertyGraph) : Contents :=
  ⟨g.nodes, g.boundaryNodes, g.relationships, fun range => { id | g.Indexed range id }⟩

theorem contents_empty : empty.contents = .empty := by
  refine Contents.ext rfl rfl rfl (funext fun range => ?_)
  exact Set.eq_empty_of_forall_notMem (not_indexed_empty range)

theorem WellFormed.idsMatch {g : PropertyGraph} (h : g.WellFormed) : g.contents.IdsMatch :=
  ⟨h.node_id, h.boundaryNode_id, h.relationship_id⟩

theorem leavingListed_contents (g : PropertyGraph) : g.contents.LeavingListed :=
  fun _ rel hr _ hrange => .inr (.inr ⟨rel, hr, .inl hrange⟩)

variable (g : PropertyGraph)

theorem contents_putNode (node : Node) :
    g.contents.putNode (g.nodeRangesAt node.id) node = (g.putNode node).contents := by
  refine Contents.ext rfl rfl rfl (funext fun range => Set.ext fun id => ?_)
  exact (g.indexed_putNode range id node).symm

variable {node : Node} {rel : Relationship}

theorem contents_putNode_of_none (h : g.nodes node.id = none) :
    g.contents.putNode [] node = (g.putNode node).contents := by
  rw [← contents_putNode, nodeRangesAt, h]
  rfl

theorem contents_eraseNode (h : g.nodes node.id = some node) :
    g.contents.eraseNode node = (g.eraseNode node.id).contents := by
  refine Contents.ext rfl rfl rfl (funext fun range => Set.ext fun id => ?_)
  refine Iff.trans ?_ (g.indexed_eraseNode range id node.id).symm
  rw [nodeRangesAt, h]
  exact or_iff_left fun hnew => List.not_mem_nil hnew.2

theorem contents_putBoundaryNode (node : BoundaryNode) :
    g.contents.putBoundaryNode (g.contents.boundaryNodeRangesAt node.id) node =
      (g.putBoundaryNode node).contents := by
  refine Contents.ext rfl rfl rfl (funext fun range => Set.ext fun id => ?_)
  exact (g.indexed_putBoundaryNode range id node).symm

theorem contents_addRelationship (hnew : g.relationships rel.id = none) :
    g.contents.putRelationship rel (g.contents.createdRanges rel) =
      (g.addRelationship rel).contents := by
  refine Contents.ext rfl rfl rfl (funext fun range => Set.ext fun id => ?_)
  refine Iff.trans ?_ (g.indexed_addRelationship range id hnew).symm
  rw [Contents.putRelationship, Contents.mem_reindex, Contents.mem_createdRanges]
  simp only [List.not_mem_nil, and_false, not_false_eq_true, and_true]
  rfl

/-- A relationship is put again; entries that it already has may be put again with it. -/
theorem contents_putRelationship {old : Relationship} {new : List IndexRange}
    (hold : g.relationships rel.id = some old) (hleaving : rel.leavingRanges = old.leavingRanges)
    (hentering : rel.enteringRanges = old.enteringRanges)
    (hnew : ∀ range ∈ new, range ∈ rel.leavingRanges) :
    g.contents.putRelationship rel new = (g.putRelationship rel).contents := by
  refine Contents.ext rfl rfl rfl (funext fun range => Set.ext fun id => ?_)
  refine Iff.trans ?_ (g.indexed_putRelationship range id hold hleaving hentering).symm
  have hindexed : id = rel.id ∧ range ∈ new → g.Indexed range id := by
    rintro ⟨rfl, hmem⟩
    exact .inr (.inr ⟨old, hold, .inl (hleaving ▸ hnew range hmem)⟩)
  rw [Contents.putRelationship, Contents.mem_reindex]
  simp only [List.not_mem_nil, and_false, not_false_eq_true, and_true]
  exact or_iff_left_of_imp hindexed

theorem contents_dropRelationships (ids : Set Nat) :
    g.contents.dropRelationships ids = (g.eraseRelationships ids).contents := by
  refine Contents.ext rfl rfl rfl (funext fun range => Set.ext fun id => ?_)
  refine Iff.trans ?_ (g.indexed_eraseRelationships range id ids).symm
  -- what the index lists under a range of relationships is an entry of a stored one
  refine and_congr_right fun hindexed => not_congr (and_congr_right fun _ => ?_)
  refine ⟨Contents.EntryOf.kind, fun hkind => ?_⟩
  obtain ⟨rel, hr, hmem⟩ := (indexed_iff_relationshipListed hkind).mp hindexed
  exact ⟨rel, hr, hmem.imp_right And.right⟩

theorem listedAt_contents (nodeId : Nat) :
    g.contents.listedAt nodeId = { r | g.Incident nodeId r } := by
  refine Set.ext fun r => ?_
  refine (or_congr (indexed_outgoing (g := g)) (indexed_incoming (g := g))).trans ?_
  rw [← exists_or]
  exact exists_congr fun rel => and_or_left.symm

variable {g}

section

variable (hw : g.WellFormed)

include hw

theorem contents_changeNode (id : Nat) {change : Node → Option Node}
    (hchange : ∀ {node node'}, change node = some node' → node'.id = node.id) :
    g.contents.changeNode id change = (g.changeNode id change).contents := by
  rw [changeNode]
  cases hnode : g.nodes id with
  | none => exact changeNode_of_none hnode
  | some node =>
    rw [changeNode_of_some hnode, Option.bind_some]
    cases hchanged : change node with
    | none => rfl
    | some changed =>
      have hid : changed.id = id := (hchange hchanged).trans (hw.node_id hnode)
      have hranges : g.nodeRangesAt changed.id = node.ranges := by
        rw [nodeRangesAt, hid, hnode]
        rfl
      have hput := g.contents_putNode changed
      rw [hranges] at hput
      exact hput

theorem contents_changeRelationship (id : Nat) {change : Relationship → Relationship}
    (hid : ∀ rel, (change rel).id = rel.id)
    (hleaving : ∀ rel, (change rel).leavingRanges = rel.leavingRanges)
    (hentering : ∀ rel, (change rel).enteringRanges = rel.enteringRanges) :
    g.contents.changeRelationship id change = (g.changeRelationship id change).contents := by
  rw [Contents.changeRelationship, changeRelationship]
  change (match g.relationships id with | none => _ | some rel => _) = _
  cases hr : g.relationships id with
  | none => rfl
  | some rel =>
    have hsame : (change rel).id = id := (hid _).trans (hw.relationship_id hr)
    exact g.contents_putRelationship (hsame.symm ▸ hr) (hleaving _) (hentering _) nofun

theorem contents_dropNode {id : Nat} (hnode : (g.nodes id).isSome) (ids : Set Nat) :
    g.contents.dropNode id ids = ((g.eraseRelationships ids).eraseNode id).contents := by
  obtain ⟨node, hnode⟩ := Option.isSome_iff_exists.mp hnode
  have hid : node.id = id := hw.node_id hnode
  have herase := (g.eraseRelationships ids).contents_eraseNode (hid.symm ▸ hnode)
  change (match g.nodes id with | none => _ | some node => _) = _
  rw [hnode, contents_dropRelationships, ← hid]
  exact herase

/-- On the contents of a graph, a command that creates under a free identifier is the
command on the graph. -/
theorem contents_apply {cmd : Command} (hfresh : g.Fresh cmd) :
    g.contents.apply cmd = (g.apply cmd).contents := by
  cases cmd with
  | createNode => exact g.contents_putNode_of_none hfresh
  | createRelationship => exact g.contents_addRelationship hfresh
  | upsertBoundaryNode id ownerShard labels props version =>
    exact g.contents_putBoundaryNode ⟨id, ownerShard, labels, props, version⟩
  | setNodeProperty id => exact contents_changeNode hw id withProperty_id
  | removeNodeProperty id => exact contents_changeNode hw id withoutProperty_id
  | addNodeLabel id => exact contents_changeNode hw id withLabel_id
  | removeNodeLabel id => exact contents_changeNode hw id withoutLabel_id
  | setRelationshipProperty id | removeRelationshipProperty id =>
    exact contents_changeRelationship hw id (fun _ => rfl) (fun _ => rfl) fun _ => rfl
  | deleteRelationship id => exact g.contents_dropRelationships {id}
  | deleteNode id =>
    rw [Contents.apply, listedAt_contents, apply, deleteNode]
    by_cases hnode : (g.nodes id).isSome
    · rw [if_pos hnode]
      exact contents_dropNode hw hnode _
    · rw [if_neg hnode, dropNode]
      change (match g.nodes id with | none => _ | some node => _) = _
      rw [Option.not_isSome_iff_eq_none.mp hnode]
  | clusterConfigChange => rfl

end

end Neo4r.PropertyGraph
