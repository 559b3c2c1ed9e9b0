/-
  `Storage.PartitionView`: a partitioned store against a store with one partition.

  The contents of a partition are the part of the contents of the whole that is located in
  it: a node and its entries where the shard of the node is, a relationship and its entries
  where the shard of its source is.  A command changes the part that it is applied to as it
  changes the whole, and no other part, if everything it touches is located there.  The one
  command that can touch two partitions is the creation of a relationship, whose target may
  be elsewhere.
-/
import Neo4r.Foundation.Machine
import Neo4r.Storage.GraphStoreSpec
import Neo4r.Storage.Partition

set_option autoImplicit false

namespace Neo4r.Storage

open Foundation KvGraphStore Function Contents List PropertyGraph Option

namespace Contents

/-! ## Parts of contents -/

open Classical in
/-- The part of the contents that belongs to some identifiers of each kind. -/
noncomputable def restrict (c : Contents) (keep : RecordKind → Nat → Prop) : Contents where
  nodes id := if keep .node id then c.nodes id else none
  boundaryNodes id := if keep .boundaryNode id then c.boundaryNodes id else none
  relationships id := if keep .relationship id then c.relationships id else none
  index range := { id | id ∈ c.index range ∧ keep range.kind id }

variable {c : Contents} {keep : RecordKind → Nat → Prop} {id : Nat}

theorem nodes_restrict (h : keep .node id) : (c.restrict keep).nodes id = c.nodes id := if_pos h

theorem relationships_restrict (h : keep .relationship id) :
    (c.restrict keep).relationships id = c.relationships id := if_pos h

theorem relationships_restrict_of_none (h : c.relationships id = none) :
    (c.restrict keep).relationships id = none := by
  simp [restrict, h]

theorem mem_index_restrict {range : IndexRange} :
    id ∈ (c.restrict keep).index range ↔ id ∈ c.index range ∧ keep range.kind id := Iff.rfl

theorem IdsMatch.restrict (h : c.IdsMatch) (keep : RecordKind → Nat → Prop) :
    (c.restrict keep).IdsMatch := by
  refine ⟨fun hid => ?_, fun hid => ?_, fun hid => ?_⟩
  · exact h.node_id (ite_none_right_eq_some.mp hid).2
  · exact h.boundaryNode_id (ite_none_right_eq_some.mp hid).2
  · exact h.relationship_id (ite_none_right_eq_some.mp hid).2

variable {index : IndexRange → Set Nat} {kind : RecordKind} {old new : List IndexRange} {α : Type}
  {records : Nat → Option α} {p : Nat → Prop} {change : Node → Option Node} {ids : Set Nat}
  {cmd : Command}

/-- Reindexing an identifier under ranges of one kind, in a part that keeps it. -/
theorem reindex_restrict_of_keep (hnew : ∀ range ∈ new, range.kind = kind) (hkeep : keep kind id) :
    (fun range => { id' | id' ∈ reindex index id old new range ∧ keep range.kind id' }) =
      reindex (fun range => { id | id ∈ index range ∧ keep range.kind id }) id old new := by
  funext range
  ext id'
  simp only [mem_reindex, Set.mem_ofPred_eq]
  by_cases hid : id' = id
  · grind
  · simp [hid]

/-- In a part that does not keep it, nothing changes. -/
theorem reindex_restrict_of_not_keep (hold : ∀ range ∈ old, range.kind = kind)
    (hnew : ∀ range ∈ new, range.kind = kind) (hkeep : ¬keep kind id) :
    (fun range => { id' | id' ∈ reindex index id old new range ∧ keep range.kind id' }) =
      fun range => { id' | id' ∈ index range ∧ keep range.kind id' } := by
  funext range
  ext id'
  refine and_congr_left fun hid' => ?_
  rw [mem_reindex]
  by_cases hid : id' = id
  · subst hid
    have h₁ : range ∉ new := fun hmem => hkeep (hnew range hmem ▸ hid')
    have h₂ : range ∉ old := fun hmem => hkeep (hold range hmem ▸ hid')
    simp [h₁, h₂]
  · simp [hid]

/-- An update is one of the part, if the identifier is kept. -/
theorem update_restrict [DecidablePred p] (a : Option α) :
    (fun id' => if p id' then update records id a id' else none) =
      if p id then update (fun id' => if p id' then records id' else none) id a
      else fun id' => if p id' then records id' else none := by
  funext id'
  by_cases hid : id' = id
  · subst hid
    by_cases hkeep : p id' <;> simp [hkeep]
  · by_cases hkeep : p id <;> simp [hkeep, hid]

open Classical

/-- The record of a node and its entries are written anew. -/
theorem restrict_writeNode (hold : ∀ range ∈ old, range.kind = .node)
    (hnew : ∀ range ∈ new, range.kind = .node) (a : Option Node) :
    ({ c with
        nodes := update c.nodes id a
        index := reindex c.index id old new }).restrict keep =
      if keep .node id then
        { c.restrict keep with
          nodes := update (c.restrict keep).nodes id a
          index := reindex (c.restrict keep).index id old new }
      else c.restrict keep := by
  split
  · next h =>
    exact Contents.ext ((update_restrict _).trans (if_pos h)) rfl rfl
      (reindex_restrict_of_keep hnew h)
  · next h =>
    exact Contents.ext ((update_restrict _).trans (if_neg h)) rfl rfl
      (reindex_restrict_of_not_keep hold hnew h)

theorem restrict_putNode (hold : ∀ range ∈ old, range.kind = .node) (node : Node) :
    (c.putNode old node).restrict keep =
      if keep .node node.id then (c.restrict keep).putNode old node else c.restrict keep :=
  restrict_writeNode hold (fun _ => kind_of_mem_nodeRanges) (some node)

theorem restrict_eraseNode (node : Node) : (c.eraseNode node).restrict keep =
      if keep .node node.id then (c.restrict keep).eraseNode node else c.restrict keep :=
  restrict_writeNode (fun _ => kind_of_mem_nodeRanges) (by simp) none

theorem restrict_putBoundaryNode (hold : ∀ range ∈ old, range.kind = .boundaryNode)
    (node : BoundaryNode) : (c.putBoundaryNode old node).restrict keep =
      if keep .boundaryNode node.id then (c.restrict keep).putBoundaryNode old node
      else c.restrict keep := by
  have hnew : ∀ range ∈ node.ranges, range.kind = .boundaryNode :=
    fun _ => kind_of_mem_boundaryNodeRanges
  split
  · next h =>
    exact Contents.ext rfl ((update_restrict _).trans (if_pos h)) rfl
      (reindex_restrict_of_keep hnew h)
  · next h =>
    exact Contents.ext rfl ((update_restrict _).trans (if_neg h)) rfl
      (reindex_restrict_of_not_keep hold hnew h)

theorem restrict_putRelationship (hnew : ∀ range ∈ new, range.kind = .relationship)
    (rel : Relationship) :
    (c.putRelationship rel new).restrict keep =
      if keep .relationship rel.id then (c.restrict keep).putRelationship rel new
      else c.restrict keep := by
  split
  · next h =>
    exact Contents.ext rfl rfl ((update_restrict _).trans (if_pos h))
      (reindex_restrict_of_keep hnew h)
  · next h =>
    exact Contents.ext rfl rfl ((update_restrict _).trans (if_neg h))
      (reindex_restrict_of_not_keep (by simp) hnew h)

/-- Relationships are taken out of a part as out of the whole. -/
theorem restrict_dropRelationships (ids : Set Nat) :
    (c.dropRelationships ids).restrict keep = (c.restrict keep).dropRelationships ids := by
  refine Contents.ext rfl rfl (funext fun id => ?_) (funext fun range => Set.ext fun id => ?_)
  · by_cases hid : id ∈ ids <;> simp [dropRelationships, restrict, hid]
  · have hentry : (c.restrict keep).EntryOf range id ↔
        keep .relationship id ∧ c.EntryOf range id := by
      by_cases hkeep : keep .relationship id <;> simp [EntryOf, restrict, hkeep]
    simp only [dropRelationships, mem_index_restrict, Set.mem_ofPred_eq, hentry]
    have hkind : c.EntryOf range id → range.kind = .relationship := EntryOf.kind
    grind

/-- Nothing happens where none of them is stored. -/
theorem dropRelationships_of_forall_none (h : ∀ id ∈ ids, c.relationships id = none) :
    c.dropRelationships ids = c := by
  refine Contents.ext rfl rfl (funext fun id => ?_) (funext fun range => Set.ext fun id => ?_)
  · by_cases hid : id ∈ ids
    · simp [dropRelationships, hid, h id hid]
    · simp [dropRelationships, hid]
  · refine and_iff_left ?_
    rintro ⟨hid, rel, hr, -⟩
    rw [h id hid] at hr
    cases hr

/-! ## Commands on parts -/

/-- The records a command writes or deletes, with their entries. -/
def Touches (c : Contents) : Command → RecordKind → Nat → Prop
  | .createNode id _ _ | .setNodeProperty id _ _ | .removeNodeProperty id _ | .addNodeLabel id _
  | .removeNodeLabel id _ => fun kind id' => kind = .node ∧ id' = id
  | .upsertBoundaryNode id _ _ _ _ => fun kind id' => kind = .boundaryNode ∧ id' = id
  | .createRelationship id _ _ _ _ | .setRelationshipProperty id _ _
  | .removeRelationshipProperty id _ | .deleteRelationship id =>
    fun kind id' => kind = .relationship ∧ id' = id
  | .deleteNode id => fun kind id' =>
    (kind = .node ∧ id' = id) ∨ (kind = .relationship ∧ id' ∈ c.listedAt id)
  | .clusterConfigChange _ _ _ _ => fun _ _ => False

theorem kind_of_mem_createdRanges {rel : Relationship} :
    ∀ range ∈ c.createdRanges rel, range.kind = .relationship := by
  intro range hrange
  rcases mem_createdRanges.mp hrange with h | h
  · exact Relationship.kind_of_mem_leavingRanges h
  · exact Relationship.kind_of_mem_enteringRanges h.2

section

variable (hids : c.IdsMatch)

include hids

theorem restrict_changeNode
    (hchange : ∀ {node node'}, change node = some node' → node'.id = node.id) :
    (c.changeNode id change).restrict keep =
      if keep .node id then (c.restrict keep).changeNode id change else c.restrict keep := by
  cases hnode : c.nodes id with
  | none =>
    rw [changeNode_of_none hnode]
    refine (ite_eq_right_iff.mpr fun hkeep => ?_).symm
    exact changeNode_of_none ((nodes_restrict hkeep).trans hnode)
  | some node =>
    have hkept (hkeep : keep .node id) :=
      @changeNode_of_some change _ _ _ ((nodes_restrict hkeep).trans hnode)
    rw [changeNode_of_some hnode]
    cases hchanged : change node with
    | none =>
      refine (ite_eq_right_iff.mpr fun hkeep => ?_).symm
      rw [hkept hkeep, hchanged]
      rfl
    | some changed =>
      have hid : changed.id = id := (hchange hchanged).trans (hids.node_id hnode)
      refine (restrict_putNode (fun _ => kind_of_mem_nodeRanges) changed).trans ?_
      rw [hid]
      refine ite_congr rfl (fun hkeep => ?_) fun _ => rfl
      rw [hkept hkeep, hchanged]
      rfl

theorem restrict_changeRelationship {change : Relationship → Relationship}
    (hchange : ∀ rel, (change rel).id = rel.id) :
    (c.changeRelationship id change).restrict keep =
      if keep .relationship id then (c.restrict keep).changeRelationship id change
      else c.restrict keep := by
  rw [changeRelationship]
  cases hr : c.relationships id with
  | none =>
    refine (ite_eq_right_iff.mpr fun hkeep => ?_).symm
    rw [changeRelationship, relationships_restrict hkeep, hr]
  | some rel =>
    have hid : (change rel).id = id := (hchange _).trans (hids.relationship_id hr)
    refine (restrict_putRelationship (by simp) (change rel)).trans ?_
    rw [hid]
    refine ite_congr rfl (fun hkeep => ?_) fun _ => rfl
    rw [changeRelationship, relationships_restrict hkeep, hr]

theorem restrict_dropNode_of_keep (hkeep : keep .node id) :
    (c.dropNode id ids).restrict keep = (c.restrict keep).dropNode id ids := by
  rw [dropNode, dropNode, nodes_restrict hkeep]
  cases hnode : c.nodes id with
  | none => rfl
  | some node =>
    have hid : node.id = id := hids.node_id hnode
    rw [restrict_eraseNode, hid, if_pos hkeep, restrict_dropRelationships]

theorem restrict_dropNode_of_not_keep (hkeep : ¬keep .node id)
    (hrels : ∀ r ∈ ids, ¬keep .relationship r) :
    (c.dropNode id ids).restrict keep = c.restrict keep := by
  rw [dropNode]
  cases hnode : c.nodes id with
  | none => rfl
  | some node =>
    have hid : node.id = id := hids.node_id hnode
    rw [restrict_eraseNode, hid, if_neg hkeep, restrict_dropRelationships,
      dropRelationships_of_forall_none fun r hr => if_neg (hrels r hr)]

/-- A command changes a part that has all it touches, and the node that it looks up, as it
changes the whole, and does nothing to a part that has none of it. -/
theorem restrict_apply {p : Prop} [Decidable p]
    (h : ∀ kind id, c.Touches cmd kind id → (keep kind id ↔ p))
    (htarget : p → ∀ id fromId toId relType props,
      cmd = .createRelationship id fromId toId relType props → keep .node toId) :
    (c.apply cmd).restrict keep = if p then (c.restrict keep).apply cmd else c.restrict keep := by
  cases cmd with
  | createNode id =>
    exact (restrict_putNode (by simp) _).trans (if_congr (h .node id ⟨rfl, rfl⟩) rfl rfl)
  | createRelationship id =>
    refine (restrict_putRelationship kind_of_mem_createdRanges _).trans
      (ite_congr (propext (h .relationship id ⟨rfl, rfl⟩)) (fun hp => ?_) fun _ => rfl)
    rw [apply, createdRanges, createdRanges, nodes_restrict (htarget hp _ _ _ _ _ rfl)]
  | upsertBoundaryNode id =>
    have hkeep := h .boundaryNode id ⟨rfl, rfl⟩
    refine (restrict_putBoundaryNode kind_of_mem_boundaryNodeRangesAt _).trans
      (ite_congr (propext hkeep) (fun hp => ?_) fun _ => rfl)
    simp [apply, boundaryNodeRangesAt, restrict, hkeep.mpr hp]
  | setNodeProperty id =>
    exact (restrict_changeNode hids withProperty_id).trans
      (if_congr (h .node id ⟨rfl, rfl⟩) rfl rfl)
  | removeNodeProperty id =>
    exact (restrict_changeNode hids withoutProperty_id).trans
      (if_congr (h .node id ⟨rfl, rfl⟩) rfl rfl)
  | addNodeLabel id =>
    exact (restrict_changeNode hids withLabel_id).trans (if_congr (h .node id ⟨rfl, rfl⟩) rfl rfl)
  | removeNodeLabel id =>
    exact (restrict_changeNode hids withoutLabel_id).trans
      (if_congr (h .node id ⟨rfl, rfl⟩) rfl rfl)
  | setRelationshipProperty id | removeRelationshipProperty id =>
    refine (restrict_changeRelationship hids ?_).trans
      (if_congr (h .relationship id ⟨rfl, rfl⟩) rfl rfl)
    exact fun _ => rfl
  | deleteRelationship id =>
    refine (restrict_dropRelationships {id}).trans ?_
    split
    · rfl
    · next hp =>
      refine dropRelationships_of_forall_none fun r hr => ?_
      rw [Set.mem_singleton_iff.mp hr]
      exact if_neg (hp ∘ (h .relationship id ⟨rfl, rfl⟩).mp)
  | deleteNode id =>
    have hnode := h .node id (.inl ⟨rfl, rfl⟩)
    have hlisted r (hr : r ∈ c.listedAt id) := h .relationship r (.inr ⟨rfl, hr⟩)
    split
    · next hp =>
      have hsame : (c.restrict keep).listedAt id = c.listedAt id := by
        refine Set.ext fun r => ⟨Or.imp And.left And.left, fun hr => ?_⟩
        have hkeep := (hlisted r hr).mpr hp
        exact hr.imp (fun hout => ⟨hout, hkeep⟩) fun hin => ⟨hin, hkeep⟩
      rw [apply, apply, hsame]
      exact restrict_dropNode_of_keep hids (hnode.mpr hp)
    · next hp =>
      exact restrict_dropNode_of_not_keep hids (hp ∘ hnode.mp) fun r hr => hp ∘ (hlisted r hr).mp
  | clusterConfigChange => exact (ite_self _).symm

end

/-! ## Location -/

/-- The node at which a range lists relationships. -/
def endpointOf : IndexRange → Option Nat
  | .outgoing nodeId | .outgoingType nodeId _ | .incoming nodeId | .incomingType nodeId _ =>
    some nodeId
  | _ => none

/-- Where the record of a kind and an identifier is. -/
def location (part home : Nat → Nat) : RecordKind → Nat → Nat
  | .node, id | .boundaryNode, id => part id
  | .relationship, id => home id

/-- Every relationship is where its source is, and is listed at nodes that are there. -/
structure Located (c : Contents) (part home : Nat → Nat) : Prop where
  source : ∀ {r relationship}, c.relationships r = some relationship →
    home r = part relationship.fromId
  endpoint : ∀ {range r nodeId}, r ∈ c.index range → endpointOf range = some nodeId →
    home r = part nodeId

theorem located_empty (part home : Nat → Nat) : empty.Located part home where
  source h := nomatch h
  endpoint h := nomatch h

variable {part home : Nat → Nat}

theorem kind_of_endpointOf {range : IndexRange} {nodeId : Nat}
    (h : endpointOf range = some nodeId) :
    range.kind = .relationship := by
  cases range <;> first | rfl | cases h

variable {c' : Contents}

section

variable (h : c.Located part home)

include h

/-- Contents with fewer relationships and entries, or the same with other properties. -/
theorem Located.mono
    (hrels : ∀ {r rel}, c'.relationships r = some rel →
      ∃ old, c.relationships r = some old ∧ rel.fromId = old.fromId)
    (hidx : ∀ {range r}, range.kind = .relationship → r ∈ c'.index range → r ∈ c.index range) :
    c'.Located part home where
  source hr := by
    obtain ⟨old, hold, hfrom⟩ := hrels hr
    rw [hfrom]
    exact h.source hold
  endpoint hr hpoint := h.endpoint (hidx (kind_of_endpointOf hpoint) hr) hpoint

theorem Located.congr (hsame : SameRelationshipsIn c c') :
    c'.Located part home :=
  h.mono (fun hr => ⟨_, hsame.relationships ▸ hr, rfl⟩) fun hkind hr => (hsame.index hkind _).mp hr

theorem Located.dropRelationships (ids : Set Nat) :
    (c.dropRelationships ids).Located part home :=
  h.mono (fun hr => ⟨_, (relationships_dropRelationships.mp hr).2, rfl⟩) fun _ hr => hr.1

/-- Commands that create no relationship leave everything where it is. -/
theorem Located.apply (hids : c.IdsMatch)
    (hother :
      ∀ id fromId toId relType props, cmd ≠ .createRelationship id fromId toId relType props) :
    (c.apply cmd).Located part home := by
  refine KeptOnRelationships.apply (P := fun c => c.Located part home)
    ⟨fun r hr => absurd hr (hother _ _ _ _ _), fun id old new hr hsame => ?_,
      fun ids _ => h.dropRelationships ids⟩ Located.congr h
  refine h.mono (fun {r rel} hr' => ?_) fun {range r} _ hr' => ?_
  · rw [relationships_putRelationship, hsame.id, hids.relationship_id hr] at hr'
    split at hr'
    · next heq =>
      cases hr'
      exact ⟨old, heq ▸ hr, hsame.fromId⟩
    · exact ⟨rel, hr', rfl⟩
  · rcases mem_reindex.mp hr' with hold | hnew
    · exact hold.1
    · exact absurd hnew.2 not_mem_nil

end

/-- Something of the relationship is there: its record, or an entry. -/
def Mentions (c : Contents) (r : Nat) : Prop :=
  (c.relationships r).isSome ∨ ∃ range, range.kind = .relationship ∧ r ∈ c.index range

/-- A relationship of which nothing is there, or only where it goes, may be located anew. -/
theorem restrict_update_home {r k : Nat} (h : c.Mentions r → home r = k) (i : Nat) :
    c.restrict (fun kind id => location part home kind id = i) =
      c.restrict fun kind id => location part (update home r k) kind id = i := by
  have hhome id (hid : c.Mentions id) : home id = update home r k id := by
    rw [update_apply]
    split
    · next heq =>
      subst heq
      exact h hid
    · rfl
  refine Contents.ext rfl rfl (funext fun id => ?_) (funext fun range => Set.ext fun id => ?_)
  · cases hr : c.relationships id with
    | none => simp [restrict, hr]
    | some => simp [restrict, location, ← hhome id (.inl (hr ▸ rfl)), hr]
  · refine and_congr_right fun hid => ?_
    cases hkind : range.kind with
    | relationship =>
      change home id = i ↔ update home r k id = i
      rw [hhome id (.inr ⟨range, hkind, hid⟩)]
    | _ => rfl

/-- A new relationship is located where its source is, if its target is there as well. -/
theorem Located.createRelationship (h : c.Located part home) (rel : Relationship)
    (hends : part rel.toId = part rel.fromId)
    (hmentions : c.Mentions rel.id → home rel.id = part rel.fromId) :
    (c.putRelationship rel (c.createdRanges rel)).Located part
      (update home rel.id (part rel.fromId)) where
  source {r relationship'} hr := by
    rw [relationships_putRelationship] at hr
    rw [update_apply]
    split at hr
    · next heq =>
      cases hr
      rw [if_pos heq]
    · next hne =>
      rw [if_neg hne]
      exact h.source hr
  endpoint {range r nodeId} hr hpoint := by
    rw [update_apply]
    rcases mem_reindex.mp hr with ⟨hold, -⟩ | ⟨rfl, hnew⟩
    · split
      · next heq =>
        subst heq
        rw [← hmentions (.inr ⟨range, kind_of_endpointOf hpoint, hold⟩)]
        exact h.endpoint hold hpoint
      · exact h.endpoint hold hpoint
    · rw [if_pos rfl]
      rcases mem_createdRanges.mp hnew with hleaving | ⟨-, hentering⟩
      · rcases mem_pair.mp hleaving with rfl | rfl <;> cases hpoint <;> rfl
      · rcases mem_pair.mp hentering with rfl | rfl <;> cases hpoint <;> exact hends.symm

end Contents

namespace PartitionedGraphStore

/-! ## What the partitions hold -/

/-- Each partition holds its part of the contents. -/
def Splits (store : PartitionedGraphStore) (part home : Nat → Nat) (c : Contents) : Prop :=
  ∀ (i : Nat) (partition : KvGraphStore), store.partitions[i]? = some partition →
    partition.Holds (c.restrict fun kind id => location part home kind id = i)

theorem fresh_splits (place : LocalPartitionMap) (part home : Nat → Nat) :
    (fresh place).Splits part home .empty := by
  intro i partition hi
  have hnew : partition = .new := eq_of_mem_replicate (mem_of_getElem? hi)
  have hempty : Contents.restrict .empty (fun kind id => location part home kind id = i) =
      .empty := by
    refine Contents.ext ?_ ?_ ?_ (funext fun range => Set.ext fun id => ?_)
    · exact funext fun id => ite_self none
    · exact funext fun id => ite_self none
    · exact funext fun id => ite_self none
    · exact iff_of_false (fun h => h.1) fun h => h
  rw [hempty, hnew]
  exact new_holds

variable {store : PartitionedGraphStore} {part home : Nat → Nat} {c : Contents}

/-! ## Commands on one partition -/

theorem exists_partition (store : PartitionedGraphStore) (shard : Nat) :
    ∃ partition, store.partitions[store.placement.localPartitionIdForShard shard]? =
      some partition :=
  ⟨_, getElem?_eq_getElem (store.length_eq ▸ store.placement.localPartitionIdForShard_lt shard)⟩

theorem apply_eq {shard : Nat} {partition partition' : KvGraphStore} {cmd : Command}
    (hget : store.partitions[store.placement.localPartitionIdForShard shard]? = some partition)
    (hok : partition.apply cmd = .ok partition') : store.apply shard cmd =
      .ok (store.setPartition (store.placement.localPartitionIdForShard shard) partition') := by
  simp only [PartitionedGraphStore.apply, hget, hok]
  rfl

/-- The partition that is replaced, and the others. -/
theorem getElem?_setPartition {index i : Nat} {partition q : KvGraphStore}
    (h : (store.setPartition index partition).partitions[i]? = some q) :
    i = index ∧ q = partition ∨ i ≠ index ∧ store.partitions[i]? = some q := by
  rw [setPartition, getElem?_set] at h
  split at h
  · next heq =>
    split at h
    · exact .inl ⟨heq.symm, (Option.some.inj h).symm⟩
    · cases h
  · next hne => exact .inr ⟨Ne.symm hne, h⟩

section

variable (h : store.Splits part home c) (hids : c.IdsMatch) (shard : Nat)

include h hids shard

/-- A command that leads the part it is applied to, and the others, to what they are of the
contents after it. -/
theorem Splits.apply_of (cmd : Command) {c' : Contents}
    (hparts : ∀ i, (c'.restrict fun kind id => location part home kind id = i) =
      if i = store.placement.localPartitionIdForShard shard then
        (c.restrict fun kind id => location part home kind id = i).apply cmd
      else c.restrict fun kind id => location part home kind id = i) :
    ∃ store', store.apply shard cmd = .ok store' ∧ store'.placement = store.placement ∧
      store'.Splits part home c' := by
  obtain ⟨partition, hget⟩ := store.exists_partition shard
  obtain ⟨partition', hok, hholds⟩ := (h _ _ hget).apply (hids.restrict _) cmd
  have hwithin := hparts (store.placement.localPartitionIdForShard shard)
  rw [if_pos rfl] at hwithin
  rw [← hwithin] at hholds
  refine ⟨_, apply_eq hget hok, rfl, fun i q hi => ?_⟩
  rcases getElem?_setPartition hi with ⟨rfl, rfl⟩ | ⟨hne, hi⟩
  · exact hholds
  · rw [hparts i, if_neg hne]
    exact h i q hi

/-- A command applied where everything is that it touches. -/
theorem Splits.apply
    (cmd : Command) (htouches : ∀ kind id, c.Touches cmd kind id →
      location part home kind id = store.placement.localPartitionIdForShard shard)
    (htarget : ∀ id fromId toId relType props,
      cmd = .createRelationship id fromId toId relType props →
        part toId = store.placement.localPartitionIdForShard shard) :
    ∃ store', store.apply shard cmd = .ok store' ∧ store'.placement = store.placement ∧
      store'.Splits part home (c.apply cmd) := by
  refine h.apply_of hids shard cmd fun i => restrict_apply hids
    (fun kind id ht => ?_) fun hi id fromId toId relType props heq => ?_
  · rw [htouches kind id ht]
    exact eq_comm
  · exact (htarget id fromId toId relType props heq).trans hi.symm

/-- A relationship that is not stored is neither changed nor deleted, wherever the command
is applied. -/
theorem Splits.apply_missing {cmd : Command}
    (hmissing : ∀ c' : Contents, (∀ r, c.relationships r = none → c'.relationships r = none) →
      c'.apply cmd = c') :
    ∃ store', store.apply shard cmd = .ok store' ∧ store'.placement = store.placement ∧
      store'.Splits part home (c.apply cmd) := by
  rw [hmissing c fun _ hr => hr]
  refine h.apply_of hids shard cmd fun i => ?_
  rw [hmissing _ fun r hr => relationships_restrict_of_none hr, ite_self]

end

/-! ## Reads of all partitions -/

variable {α : Type} {partitions : List KvGraphStore}

/-- A record that is in one partition at most. -/
theorem firstOf_eq {read : KvGraphStore → Except StorageError (Option α)} {a : Option α}
    (hall : ∀ partition ∈ partitions, read partition = .ok none ∨ read partition = .ok a)
    (hsome : ∃ partition ∈ partitions, read partition = .ok a) :
    firstOf read partitions = .ok a := by
  induction partitions with
  | nil =>
    obtain ⟨partition, hmem, -⟩ := hsome
    cases hmem
  | cons partition partitions ih =>
    cases a with
    | none =>
      have hnone q (hq : q ∈ partition :: partitions) : read q = .ok none :=
        (hall q hq).elim id id
      rw [firstOf, hnone partition mem_cons_self]
      cases partitions with
      | nil => rfl
      | cons q =>
        exact ih (fun q' hq' => hall q' (.tail _ hq')) ⟨q, .head _, hnone q (.tail _ (.head _))⟩
    | some =>
      rw [firstOf]
      rcases hall partition (.head _) with hread | hread
      · rw [hread]
        refine ih (fun q hq => hall q (.tail _ hq)) ?_
        obtain ⟨q, hmem, hq⟩ := hsome
        rcases mem_cons.mp hmem with rfl | hmem
        · rw [hread] at hq
          cases hq
        · exact ⟨q, hmem, hq⟩
      · rw [hread]
        rfl

theorem concat_cons (read : KvGraphStore → Except StorageError (List α)) (partition : KvGraphStore)
    (partitions : List KvGraphStore) :
    concat read (partition :: partitions) = (do
      let list ← read partition
      let rest ← concat read partitions
      pure (list ++ rest)) := by
  rw [concat, concat, mapM_cons]
  cases read partition with
  | error => rfl
  | ok => cases partitions.mapM read <;> rfl

variable {read : KvGraphStore → Except StorageError (List α)} {partition : KvGraphStore}

/-- Lists that all partitions give. -/
theorem exists_concat {P : Nat → List α → Prop}
    (h : ∀ (i : Nat) (partition : KvGraphStore), partitions[i]? = some partition →
      ∃ list, read partition = .ok list ∧ P i list) :
    ∃ lists : Nat → List α,
      concat read partitions = .ok ((List.range partitions.length).flatMap lists) ∧
        ∀ i < partitions.length, P i (lists i) := by
  induction partitions generalizing P with
  | nil => exact ⟨fun _ => [], rfl, fun i hi => absurd hi (Nat.not_lt_zero i)⟩
  | cons partition partitions ih =>
    obtain ⟨list, hlist, hfirst⟩ := h 0 partition rfl
    obtain ⟨lists, hlists, hrest⟩ := @ih (fun i => P (i + 1)) fun i q hi => h (i + 1) q hi
    refine ⟨fun i => i.casesOn list lists, ?_, fun i hi => ?_⟩
    · rw [concat_cons, hlist, hlists, length_cons, range_succ_eq_map, flatMap_cons, flatMap_map]
      rfl
    · cases i with
      | zero => exact hfirst
      | succ i => exact hrest i (Nat.lt_of_succ_lt_succ hi)

/-- Lists that are empty but in one partition. -/
theorem concat_eq_of_others_nil {k : Nat} (hk : partitions[k]? = some partition)
    (hothers : ∀ (i : Nat) (q : KvGraphStore), partitions[i]? = some q → i ≠ k → read q = .ok []) :
    concat read partitions = read partition := by
  induction partitions generalizing k with
  | nil => cases hk
  | cons head rest ih =>
    rw [concat_cons]
    cases k with
    | zero =>
      cases hk
      obtain ⟨lists, hlists, hnil⟩ := exists_concat (P := fun _ list => list = []) fun i q hi =>
        ⟨[], hothers (i + 1) q hi (Nat.succ_ne_zero i), rfl⟩
      rw [hlists, flatMap_eq_nil_iff.mpr fun i hi => hnil i (mem_range.mp hi)]
      cases read partition with
      | error => rfl
      | ok list => exact congrArg Except.ok (append_nil list)
    | succ k =>
      rw [hothers 0 head rfl (Nat.succ_ne_zero k).symm,
        ih hk fun i q hi hne => hothers (i + 1) q hi fun heq => hne (Nat.succ_inj.mp heq)]
      cases read partition <;> rfl

/-- The two views agree: records and identifiers are the same, and lists are the same up to
their order. -/
structure ViewsAgree (store store' : PartitionedGraphStore) : Prop where
  node : ∀ id, store.node id = store'.node id
  boundaryNode : ∀ id, store.boundaryNode id = store'.boundaryNode id
  relationship : ∀ id, store.relationship id = store'.relationship id
  nodes : ∃ nodes nodes', store.nodes = .ok nodes ∧ store'.nodes = .ok nodes' ∧ nodes.Perm nodes'
  relationships : ∃ relationships relationships', store.relationships = .ok relationships ∧
    store'.relationships = .ok relationships' ∧ relationships.Perm relationships'
  nodeIds : store.nodeIds = store'.nodeIds
  nodeIdsByLabel : ∀ label, store.nodeIdsByLabel label = store'.nodeIdsByLabel label
  nodeIdsByLabelProperty : ∀ label key value,
    store.nodeIdsByLabelProperty label key value = store'.nodeIdsByLabelProperty label key value
  boundaryNodeIdsByLabelProperty : ∀ label key value,
    store.boundaryNodeIdsByLabelProperty label key value =
      store'.boundaryNodeIdsByLabelProperty label key value
  outgoing : ∀ nodeId, store.outgoing nodeId = store'.outgoing nodeId
  outgoingByType : ∀ nodeId relType,
    store.outgoingByType nodeId relType = store'.outgoingByType nodeId relType
  incoming : ∀ nodeId, store.incoming nodeId = store'.incoming nodeId
  incomingByType : ∀ nodeId relType,
    store.incomingByType nodeId relType = store'.incomingByType nodeId relType

/-- What is located in a partition that there is. -/
structure Placed (store : PartitionedGraphStore) (part home : Nat → Nat) (c : Contents) : Prop where
  splits : store.Splits part home c
  located : c.Located part home
  idsMatch : c.IdsMatch
  part_lt : ∀ id, part id < store.partitions.length

variable {range : IndexRange}

section

variable (h : store.Placed part home c)

include h

/-- A record that only the partition `k` has. -/
theorem Placed.firstOf_eq {read : KvGraphStore → Except StorageError (Option α)} {a : Option α}
    (k : Nat)
    (hread : ∀ i partition, store.partitions[i]? = some partition →
      read partition = .ok (if k = i then a else none))
    (hk : a.isSome → k < store.partitions.length) : firstOf read store.partitions = .ok a := by
  refine PartitionedGraphStore.firstOf_eq (fun partition hmem => ?_) ?_
  · obtain ⟨i, hi⟩ := mem_iff_getElem?.mp hmem
    rw [hread i partition hi]
    split
    · exact .inr rfl
    · exact .inl rfl
  · cases a with
    | some =>
      have hget := getElem?_eq_getElem (hk rfl)
      exact ⟨_, getElem_mem _, (hread _ _ hget).trans (congrArg _ (if_pos rfl))⟩
    | none =>
      -- any partition will do, and there is one
      have hget := getElem?_eq_getElem (h.part_lt 0)
      exact ⟨_, getElem_mem _, (hread _ _ hget).trans (congrArg _ (ite_self none))⟩

theorem Placed.node_eq (id : Nat) : store.node id = .ok (c.nodes id) := by
  refine h.firstOf_eq (part id) (fun i partition hi => ?_) fun _ => h.part_lt id
  rw [(h.splits i partition hi).node_eq]
  by_cases hpart : part id = i <;> simp [restrict, location, hpart]

theorem Placed.boundaryNode_eq (id : Nat) : store.boundaryNode id = .ok (c.boundaryNodes id) := by
  refine h.firstOf_eq (part id) (fun i partition hi => ?_) fun _ => h.part_lt id
  rw [(h.splits i partition hi).boundaryNode_eq]
  by_cases hpart : part id = i <;> simp [restrict, location, hpart]

theorem Placed.home_lt {id : Nat} {rel : Relationship}
    (hr : c.relationships id = some rel) : home id < store.partitions.length := by
  rw [h.located.source hr]
  exact h.part_lt _

theorem Placed.relationship_eq (id : Nat) : store.relationship id = .ok (c.relationships id) := by
  refine h.firstOf_eq (home id) (fun i partition hi => ?_) fun hsome => ?_
  · rw [(h.splits i partition hi).relationship_eq]
    by_cases hhome : home id = i <;> simp [restrict, location, hhome]
  · obtain ⟨rel, hr⟩ := isSome_iff_exists.mp hsome
    exact h.home_lt hr

/-- Lists of identifiers, merged. -/
theorem Placed.mem_mergedIds {read : KvGraphStore → List Nat} {p : Nat → Prop}
    (hread : ∀ i partition, store.partitions[i]? = some partition →
      ∀ id, id ∈ read partition ↔ p id ∧ part id = i) (id : Nat) :
    id ∈ mergedIds read store ↔ p id := by
  rw [mergedIds, mem_sortedIds, mem_flatMap]
  constructor
  · rintro ⟨partition, hmem, hid⟩
    obtain ⟨i, hi⟩ := mem_iff_getElem?.mp hmem
    exact ((hread i partition hi id).mp hid).1
  · intro hp
    have hget := getElem?_eq_getElem (h.part_lt id)
    exact ⟨_, getElem_mem _, (hread _ _ hget id).mpr ⟨hp, rfl⟩⟩

theorem Placed.mem_scanIds_index (hkind : range.kind ≠ .relationship) (i : Nat)
    (partition : KvGraphStore) (hi : store.partitions[i]? = some partition) (id : Nat) :
    id ∈ partition.scanIds (.index range) ↔ id ∈ c.index range ∧ part id = i := by
  rw [(h.splits i partition hi).mem_scanIds_index, mem_index_restrict]
  cases hrange : range.kind with
  | relationship => exact absurd hrange hkind
  | _ => rfl

theorem Placed.mem_nodeIds (i : Nat) (partition : KvGraphStore)
    (hi : store.partitions[i]? = some partition) (id : Nat) :
    id ∈ partition.nodeIds ↔ (c.nodes id).isSome ∧ part id = i := by
  rw [KvGraphStore.nodeIds, mem_scanIds]
  change (partition.kv.get (nodeKey id)).isSome ↔ _
  rw [(h.splits i partition hi).nodes]
  by_cases hpart : part id = i <;> simp [restrict, location, hpart]

end

variable {records : Nat → Option α} {idOf : α → Nat} {nodeId : Nat} {part' home' : Nat → Nat}

/-- The records of one kind, each in the partition where it is located. -/
theorem concat_scanned {range : KeyRange} (encode : α → KvValue)
    (decode : KvValue → Except StorageError α) (place : Nat → Nat)
    (hdecode : ∀ a, decode (encode a) = .ok a)
    (hread : ∀ partition,
      read partition = (partition.scanPrefix range).mapM fun entry => decode entry.2)
    (hids : ∀ {id a}, records id = some a → idOf a = id)
    (hplace : ∀ {id a}, records id = some a → place id < partitions.length)
    (hget : ∀ (i : Nat) (partition : KvGraphStore), partitions[i]? = some partition →
      ∀ id, partition.kv.get ⟨range, id⟩ = (if place id = i then records id else none).map encode) :
    ∃ list, concat read partitions = .ok list ∧ list.Nodup ∧
      ∀ a, a ∈ list ↔ ∃ id, records id = some a := by
  obtain ⟨lists, hlists, hscan⟩ := exists_concat (P := fun i list => list.Nodup ∧
      ∀ a, a ∈ list ↔ ∃ id, records id = some a ∧ place id = i) fun i partition hi => by
    refine ⟨_, (hread partition).trans (mapM_scanPrefix_eq (hget i partition hi) hdecode),
      ?_, fun a => ?_⟩
    · refine (partition.nodup_scanIds range).filterMap fun id id' a ha ha' => ?_
      exact (hids (ite_none_right_eq_some.mp ha).2).symm.trans
        (hids (ite_none_right_eq_some.mp ha').2)
    · rw [mem_filterMap_scanIds (hget i partition hi)]
      simp [and_comm]
  refine ⟨_, hlists, nodup_flatMap.mpr ⟨fun i hi => (hscan i (mem_range.mp hi)).1, ?_⟩,
    fun a => ?_⟩
  · refine pairwise_lt_range.imp_of_mem ?_
    intro i j hi hj hlt a ha ha'
    obtain ⟨id, hid, hplace⟩ := ((hscan i (mem_range.mp hi)).2 a).mp ha
    obtain ⟨id', hid', hplace'⟩ := ((hscan j (mem_range.mp hj)).2 a).mp ha'
    obtain rfl : id = id' := (hids hid).symm.trans (hids hid')
    exact hlt.ne (hplace.symm.trans hplace')
  · rw [mem_flatMap]
    constructor
    · rintro ⟨i, hi, ha⟩
      obtain ⟨id, hid, -⟩ := ((hscan i (mem_range.mp hi)).2 a).mp ha
      exact ⟨id, hid⟩
    · rintro ⟨id, hid⟩
      exact ⟨place id, mem_range.mpr (hplace hid), ((hscan _ (hplace hid)).2 a).mpr ⟨id, hid, rfl⟩⟩

section

variable (h : store.Placed part home c)

include h

theorem Placed.nodes_eq :
    ∃ nodes, store.nodes = .ok nodes ∧ nodes.Nodup ∧
      ∀ node, node ∈ nodes ↔ ∃ id, c.nodes id = some node := by
  refine concat_scanned encodeNode decodeNode part (fun _ => rfl) (fun _ => rfl)
    h.idsMatch.node_id
      (fun _ => h.part_lt _) fun i partition hi id => ((h.splits i partition hi).nodes id).trans ?_
  by_cases hpart : part id = i <;> simp [restrict, location, hpart]

theorem Placed.relationships_eq :
    ∃ rels, store.relationships = .ok rels ∧ rels.Nodup ∧
      ∀ relationship, relationship ∈ rels ↔ ∃ id, c.relationships id = some relationship := by
  refine concat_scanned encodeRelationship decodeRelationship home (fun _ => rfl) (fun _ => rfl)
    h.idsMatch.relationship_id (fun hr => h.home_lt hr)
    fun i partition hi id => ((h.splits i partition hi).relationships id).trans ?_
  by_cases hhome : home id = i <;> simp [restrict, location, hhome]

/-- The relationships at a node are all in its partition. -/
theorem Placed.concat_relationships (hpoint : endpointOf range = some nodeId) :
    ∃ partition : KvGraphStore, partition.Holds
        (c.restrict fun kind id => location part home kind id = part nodeId) ∧
      concat (fun partition => partition.relationshipsFromIndex range) store.partitions =
        partition.relationshipsFromIndex range := by
  have hempty {i : Nat} {partition : KvGraphStore} (hi : store.partitions[i]? = some partition)
      (hne : i ≠ part nodeId) : partition.relationshipsFromIndex range = .ok [] := by
    have hscan : partition.scanIds (.index range) = [] := by
      refine eq_nil_iff_forall_not_mem.mpr fun r hr => hne ?_
      obtain ⟨hr, hhome⟩ := (h.splits i partition hi).mem_scanIds_index.mp hr
      rw [kind_of_endpointOf hpoint] at hhome
      exact hhome.symm.trans (h.located.endpoint hr hpoint)
    rw [relationshipsFromIndex, hscan]
    rfl
  have hget := getElem?_eq_getElem (h.part_lt nodeId)
  exact ⟨_, h.splits _ _ hget, concat_eq_of_others_nil hget fun i q hi hne => hempty hi hne⟩

end

/-- Two parts that both have the relationships at a node give the same list. -/
theorem relationshipsFromIndex_eq_of_located {partition' : KvGraphStore}
    (hpoint : endpointOf range = some nodeId) (hlocated : c.Located part home)
    (hlocated' : c.Located part' home')
    (h : partition.Holds (c.restrict fun kind id => location part home kind id = part nodeId))
    (h' :
      partition'.Holds (c.restrict fun kind id => location part' home' kind id = part' nodeId)) :
    partition.relationshipsFromIndex range = partition'.relationshipsFromIndex range := by
  have hkind := kind_of_endpointOf hpoint
  have hmem {part home : Nat → Nat} (hlocated : c.Located part home) (r : Nat) :
      r ∈ (c.restrict fun kind id =>
        location part home kind id = part nodeId).index range ↔ r ∈ c.index range := by
    rw [mem_index_restrict, hkind]
    exact and_iff_left_of_imp fun hr => hlocated.endpoint hr hpoint
  have hscan : partition.scanIds (.index range) = partition'.scanIds (.index range) := by
    refine eq_of_sortedLE_of_mem_iff sortedLE_insertionSort sortedLE_insertionSort
      (partition.nodup_scanIds _) (partition'.nodup_scanIds _) fun r => ?_
    rw [h.mem_scanIds_index, h'.mem_scanIds_index, hmem hlocated, hmem hlocated']
  rw [relationshipsFromIndex, hscan]
  refine exceptMapM_congr fun r hr => ?_
  have hr' := (hmem hlocated' r).mp (h'.mem_scanIds_index.mp hr)
  rw [relationshipOfIndex, relationshipOfIndex, h.relationship_eq,
    h'.relationship_eq, relationships_restrict (hlocated.endpoint hr' hpoint),
    relationships_restrict (hlocated'.endpoint hr' hpoint)]

/-- Two stores that split the same contents have the same view. -/
theorem Placed.viewsAgree {store' : PartitionedGraphStore} (h : store.Placed part home c)
    (h' : store'.Placed part' home' c) : ViewsAgree store store' := by
  have hids {p : Nat → Prop} {read : KvGraphStore → List Nat}
      (hread : ∀ id, id ∈ mergedIds read store ↔ p id)
      (hread' : ∀ id, id ∈ mergedIds read store' ↔ p id) :
      mergedIds read store = mergedIds read store' :=
    eq_of_sortedLE_of_mem_iff (sortedLE_sortedIds _) (sortedLE_sortedIds _) (nodup_sortedIds _)
      (nodup_sortedIds _) fun id => (hread id).trans (hread' id).symm
  have hidx {range : IndexRange} (hkind : range.kind ≠ .relationship) :
      mergedIds (fun partition => partition.scanIds (.index range)) store =
        mergedIds (fun partition => partition.scanIds (.index range)) store' :=
    hids (h.mem_mergedIds (h.mem_scanIds_index hkind))
      (h'.mem_mergedIds (h'.mem_scanIds_index hkind))
  have hadjacent {range : IndexRange} {nodeId : Nat}
      (hpoint : endpointOf range = some nodeId) :
      concat (fun partition => partition.relationshipsFromIndex range) store.partitions =
        concat (fun partition => partition.relationshipsFromIndex range) store'.partitions := by
    obtain ⟨partition, hholds, heq⟩ := h.concat_relationships hpoint
    obtain ⟨partition', hholds', heq'⟩ := h'.concat_relationships hpoint
    rw [heq, heq']
    exact relationshipsFromIndex_eq_of_located hpoint h.located h'.located hholds hholds'
  obtain ⟨nodes, hnodes, hnodup, hmem⟩ := h.nodes_eq
  obtain ⟨nodes', hnodes', hnodup', hmem'⟩ := h'.nodes_eq
  obtain ⟨relationships, hrels, hrnodup, hrmem⟩ := h.relationships_eq
  obtain ⟨relationships', hrels', hrnodup', hrmem'⟩ := h'.relationships_eq
  exact {
    node := fun id => (h.node_eq id).trans (h'.node_eq id).symm
    boundaryNode := fun id => (h.boundaryNode_eq id).trans (h'.boundaryNode_eq id).symm
    relationship := fun id => (h.relationship_eq id).trans (h'.relationship_eq id).symm
    nodes := ⟨nodes, nodes', hnodes, hnodes', (perm_ext_iff_of_nodup hnodup hnodup').mpr
      fun node => (hmem node).trans (hmem' node).symm⟩
    relationships := ⟨relationships, relationships', hrels, hrels',
      (perm_ext_iff_of_nodup hrnodup hrnodup').mpr
        fun relationship => (hrmem relationship).trans (hrmem' relationship).symm⟩
    nodeIds := hids (h.mem_mergedIds h.mem_nodeIds) (h'.mem_mergedIds h'.mem_nodeIds)
    nodeIdsByLabel := fun _ => hidx nofun
    nodeIdsByLabelProperty := fun _ _ _ => hidx nofun
    boundaryNodeIdsByLabelProperty := fun _ _ _ => hidx nofun
    outgoing := fun _ => hadjacent rfl
    outgoingByType := fun _ _ => hadjacent rfl
    incoming := fun _ => hadjacent rfl
    incomingByType := fun _ _ => hadjacent rfl }

/-! ## Commands with the shard that owns them -/

/-- The command comes with the shard that owns its node or its relationship, and a
relationship is created between stored nodes. -/
def Owned (map : ShardMap) (store : PartitionedGraphStore) (shardId : Nat) : Command → Prop
  | .createNode id _ _ | .upsertBoundaryNode id _ _ _ _ | .setNodeProperty id _ _
  | .removeNodeProperty id _ | .addNodeLabel id _ | .removeNodeLabel id _ | .deleteNode id =>
    shardId = map.ownerOfNode id
  | .createRelationship _ fromId toId relType _ =>
    shardId = map.ownerOfRelationship fromId toId relType ∧
      (∃ node, store.node fromId = .ok (some node)) ∧ ∃ node, store.node toId = .ok (some node)
  | .setRelationshipProperty id _ _ | .removeRelationshipProperty id _ | .deleteRelationship id =>
    ∀ relationship, store.relationship id = .ok (some relationship) → shardId =
      map.ownerOfRelationship relationship.fromId relationship.toId relationship.relType
  | .clusterConfigChange _ _ _ _ => True

/-- The partition of a node. -/
def partitionOf (map : ShardMap) (placement : LocalPartitionMap) (nodeId : Nat) : Nat :=
  placement.localPartitionIdForShard (map.ownerOfNode nodeId)

/-- A partition has the record of a relationship, or lists it. -/
def MentionsRelationship (partition : KvGraphStore) (r : Nat) : Prop :=
  (∃ relationship, partition.relationship r = .ok (some relationship)) ∨
    ∃ range, range.kind = .relationship ∧ r ∈ partition.scanIds (.index range)

/-- A new relationship has both ends in one partition, and no other partition mentions it. -/
def Colocated (map : ShardMap) (store : PartitionedGraphStore) : Command → Prop
  | .createRelationship id fromId toId _ _ =>
    partitionOf map store.placement toId = partitionOf map store.placement fromId ∧
      ∀ (i : Nat) (partition : KvGraphStore), store.partitions[i]? = some partition →
        i ≠ partitionOf map store.placement fromId → ¬MentionsRelationship partition id
  | _ => True

variable {map : ShardMap} {reference : PartitionedGraphStore}

theorem endpointOf_isSome (h : range.kind = .relationship) :
    (endpointOf range).isSome := by
  cases range <;> first | rfl | cases h

/-- What another partition does not mention is located here, if it is there at all. -/
theorem Placed.home_eq {part : Nat → Nat} (h : store.Placed part home c) {r k : Nat}
    (hothers : ∀ (i : Nat) (partition : KvGraphStore), store.partitions[i]? = some partition →
      i ≠ k → ¬MentionsRelationship partition r) (hmentions : c.Mentions r) : home r = k := by
  by_contra hne
  rcases hmentions with hrecord | ⟨range, hkind, hr⟩
  · obtain ⟨rel, hr⟩ := isSome_iff_exists.mp hrecord
    have hget := getElem?_eq_getElem (h.home_lt hr)
    refine hothers _ _ hget hne (.inl ⟨rel, ?_⟩)
    rw [(h.splits _ _ hget).relationship_eq, relationships_restrict rfl, hr]
  · obtain ⟨nodeId, hpoint⟩ := isSome_iff_exists.mp (endpointOf_isSome hkind)
    have hlt : home r < store.partitions.length := by
      rw [h.located.endpoint hr hpoint]
      exact h.part_lt nodeId
    have hget := getElem?_eq_getElem hlt
    refine hothers _ _ hget hne (.inr ⟨range, hkind, ?_⟩)
    rw [(h.splits _ _ hget).mem_scanIds_index, mem_index_restrict, hkind]
    exact ⟨hr, rfl⟩

theorem Placed.of_splits (hids : c.IdsMatch)
    (hsplits : store.Splits (partitionOf map store.placement) home c)
    (hlocated : c.Located (partitionOf map store.placement) home) :
    store.Placed (partitionOf map store.placement) home c :=
  ⟨hsplits, hlocated, hids,
    fun _ => store.length_eq ▸ store.placement.localPartitionIdForShard_lt _⟩

variable {shardId : Nat} {command : Command}

/-- A command succeeds, and leads the partitions to the parts of the contents after it. -/
def Leads (map : ShardMap) (store : PartitionedGraphStore) (c : Contents) (shardId : Nat)
    (command : Command) : Prop :=
  ∃ store' home, store.apply shardId command = .ok store' ∧ store'.placement = store.placement ∧
    store'.Placed (partitionOf map store'.placement) home (c.apply command)

theorem Leads.of_splits (hids : c.IdsMatch)
    (hlocated : (c.apply command).Located (partitionOf map store.placement) home)
    (hsplits : ∃ store', store.apply shardId command = .ok store' ∧
      store'.placement = store.placement ∧
      store'.Splits (partitionOf map store.placement) home (c.apply command)) :
    Leads map store c shardId command := by
  obtain ⟨store', hok, hplace, hsplits⟩ := hsplits
  rw [← hplace] at hsplits hlocated
  exact ⟨store', home, hok, hplace, .of_splits (hids.apply command) hsplits hlocated⟩

variable {id : Nat}

section

variable (h : store.Placed (partitionOf map store.placement) home c)

include h

/-- A command that touches only what is in the partition it is applied to. -/
theorem Placed.apply_local
    (htouches : ∀ kind id, c.Touches command kind id →
      location (partitionOf map store.placement) home kind id =
      store.placement.localPartitionIdForShard shardId)
    (hother : ∀ id fromId toId relType props,
      command ≠ .createRelationship id fromId toId relType props) :
    Leads map store c shardId command := by
  refine .of_splits h.idsMatch (h.located.apply h.idsMatch hother) ?_
  exact h.splits.apply h.idsMatch shardId command htouches
    fun id fromId toId relType props heq =>
      absurd heq (hother id fromId toId relType props)

/-- A change of a relationship, or its deletion. -/
theorem Placed.apply_relationship
    (htouches : ∀ kind id', c.Touches command kind id' → kind = .relationship ∧ id' = id)
    (hmissing : ∀ c' : Contents, c'.relationships id = none → c'.apply command = c')
    (hother : ∀ id fromId toId relType props,
      command ≠ .createRelationship id fromId toId relType props)
    (howned : ∀ rel, c.relationships id = some rel →
      shardId = map.ownerOfRelationship rel.fromId rel.toId rel.relType) :
    Leads map store c shardId command := by
  cases hr : c.relationships id with
  | some rel =>
    refine h.apply_local (fun kind id' ht => ?_) hother
    obtain ⟨rfl, rfl⟩ := htouches kind id' ht
    rw [howned rel hr]
    exact h.located.source hr
  | none =>
    -- not stored: nothing happens, wherever the command is applied
    refine .of_splits h.idsMatch (h.located.apply h.idsMatch hother) ?_
    exact h.splits.apply_missing h.idsMatch shardId fun c' hnone => hmissing c' (hnone id hr)

/-- A new relationship with both ends in one partition. -/
theorem Placed.apply_createRelationship {fromId toId : Nat} {relType : String} {props : Properties}
    (hcolocated : Colocated map store (.createRelationship id fromId toId relType props)) :
    Leads map store c (map.ownerOfRelationship fromId toId relType)
      (.createRelationship id fromId toId relType props) := by
  obtain ⟨hends, hothers⟩ := hcolocated
  have hmentions : c.Mentions id → home id = partitionOf map store.placement fromId :=
    h.home_eq hothers
  have hsplits : store.Splits (partitionOf map store.placement)
      (update home id (partitionOf map store.placement fromId)) c := by
    intro i partition hi
    rw [← restrict_update_home hmentions i]
    exact h.splits i partition hi
  have htouches kind (id' : Nat)
      (ht : c.Touches (.createRelationship id fromId toId relType props) kind id') :
      location (partitionOf map store.placement)
        (update home id (partitionOf map store.placement fromId)) kind id' =
          partitionOf map store.placement fromId := by
    obtain ⟨rfl, rfl⟩ := ht
    exact update_self ..
  refine .of_splits h.idsMatch (h.located.createRelationship
    ⟨id, fromId, toId, relType, props⟩ hends hmentions) ?_
  refine hsplits.apply h.idsMatch _ _ htouches fun _ _ _ _ _ heq => ?_
  cases heq
  exact hends

/-- A command leads the partitions to the parts of the contents after it. -/
theorem Placed.apply (href : reference.Placed part' home' c)
    (howned : Owned map reference shardId command) (hcolocated : Colocated map store command) :
    Leads map store c shardId command := by
  have hnode {id : Nat} (hshard : shardId = map.ownerOfNode id)
      (htouches : ∀ kind id', c.Touches command kind id' → kind ≠ .relationship ∧ id' = id)
      (hother : ∀ id fromId toId relType props,
        command ≠ .createRelationship id fromId toId relType props) :
      Leads map store c shardId command := by
    refine h.apply_local (fun kind id' ht => ?_) hother
    obtain ⟨hkind, rfl⟩ := htouches kind id' ht
    cases kind with
    | relationship => exact absurd rfl hkind
    | _ =>
      rw [hshard]
      rfl
  cases command with
  | createRelationship =>
    obtain ⟨rfl, -, -⟩ := howned
    exact h.apply_createRelationship hcolocated
  | setRelationshipProperty id | removeRelationshipProperty id =>
    refine h.apply_relationship (fun _ _ ht => ht) (fun c' hr => ?_)
      (fun _ _ _ _ _ heq => by cases heq) fun rel hr => howned rel
        (by rw [href.relationship_eq, hr])
    rw [Contents.apply, Contents.changeRelationship, hr]
  | deleteRelationship =>
    refine h.apply_relationship (fun _ _ ht => ht) (fun c' hr => ?_)
      (fun _ _ _ _ _ heq => by cases heq) fun rel hr => howned rel
        (by rw [href.relationship_eq, hr])
    refine dropRelationships_of_forall_none fun r hmem => ?_
    rw [Set.mem_singleton_iff.mp hmem]
    exact hr
  | deleteNode id =>
    have hshard : shardId = map.ownerOfNode id := howned
    refine h.apply_local (fun kind id' ht => ?_) fun _ _ _ _ _ heq => by cases heq
    rw [hshard]
    rcases ht with ⟨rfl, rfl⟩ | ⟨rfl, hlisted⟩
    · rfl
    · rcases hlisted with hr | hr <;> exact h.located.endpoint hr rfl
  | clusterConfigChange =>
    exact h.apply_local (fun _ _ ht => ht.elim) fun _ _ _ _ _ heq => by cases heq
  | _ =>
    exact hnode howned (fun _ _ ht => ⟨fun heq => (by cases ht.1.symm.trans heq), ht.2⟩)
      fun _ _ _ _ _ heq => by cases heq

end

theorem colocated_of_single (hcount : store.placement.partitionCount = 1) (command : Command) :
    Colocated map store command := by
  have hzero nodeId : partitionOf map store.placement nodeId = 0 := by
    have hlt := store.placement.localPartitionIdForShard_lt (map.ownerOfNode nodeId)
    rw [hcount] at hlt
    exact Nat.lt_one_iff.mp hlt
  cases command with
  | createRelationship id fromId =>
    refine ⟨(hzero _).trans (hzero _).symm, fun i partition hi hne => ?_⟩
    have hlt : i < store.partitions.length := (List.getElem?_eq_some_iff.mp hi).1
    rw [store.length_eq, hcount] at hlt
    exact absurd (Nat.lt_one_iff.mp hlt) (hzero fromId ▸ hne)
  | _ => trivial

/-! ## Runs -/

/-- Every command of the run, on one partition, comes with the shard that owns it. -/
def OwnedRun (map : ShardMap) (single : LocalPartitionMap) (run : List (Nat × Command)) : Prop :=
  ∀ done entry, done ++ [entry] <+: run → ∀ reference,
    (fresh single).applyAll done = .ok reference → Owned map reference entry.1 entry.2

/-- Every relationship of the run is created in the partition of both its ends. -/
def ColocatedRun (map : ShardMap) (placement : LocalPartitionMap) (run : List (Nat × Command)) :
    Prop :=
  ∀ done entry, done ++ [entry] <+: run → ∀ store,
    (fresh placement).applyAll done = .ok store → Colocated map store entry.2

theorem fresh_placed (map : ShardMap) (place : LocalPartitionMap) :
    (fresh place).Placed (partitionOf map (fresh place).placement) (fun _ => 0) .empty :=
  .of_splits idsMatch_empty (fresh_splits place _ _) (located_empty _ _)

/-- Both stores split the same contents, all along a run. -/
theorem placed_of_run {place single : LocalPartitionMap} (hsingle : single.partitionCount = 1)
    {run : List (Nat × Command)} (howned : OwnedRun map single run)
    (hcolocated : ColocatedRun map place run) {done : List (Nat × Command)} (hpre : done <+: run) :
    ∃ store reference home home' c, (fresh place).applyAll done = .ok store ∧
      (fresh single).applyAll done = .ok reference ∧ reference.placement = single ∧
      store.Placed (partitionOf map store.placement) home c ∧
      reference.Placed (partitionOf map reference.placement) home' c := by
  induction done using reverseRecOn with
  | nil => exact ⟨_, _, _, _, _, rfl, rfl, rfl, fresh_placed map place, fresh_placed map single⟩
  | append_singleton done entry ih =>
    obtain ⟨store, reference, home, home', c, hrun, hrun', hplace', h, h'⟩ :=
      ih ((prefix_append _ _).trans hpre)
    have hown := howned done entry hpre reference hrun'
    obtain ⟨store₁, home₁, hok, -, h₁⟩ := h.apply h' hown (hcolocated done entry hpre store hrun)
    obtain ⟨reference₁, home₁', hok', hsame, h₁'⟩ :=
      h'.apply h' hown (colocated_of_single (hplace' ▸ hsingle) entry.2)
    exact ⟨store₁, reference₁, home₁, home₁', _, exceptFoldlM_concat hrun hok,
      exceptFoldlM_concat hrun' hok', hsame.trans hplace', h₁, h₁'⟩

/-- A run in which every relationship is created in the partition of both its ends leaves
the view that it leaves on a store with one partition. -/
theorem partitioned_view_eq_single_view (map : ShardMap) (placement single : LocalPartitionMap)
    (hsingle : single.partitionCount = 1) (run : List (Nat × Command))
    (howned : OwnedRun map single run) (hcolocated : ColocatedRun map placement run) :
    ∃ store reference, (fresh placement).applyAll run = .ok store ∧
      (fresh single).applyAll run = .ok reference ∧ ViewsAgree store reference := by
  obtain ⟨store, reference, home, home', c, hrun, hrun', -, h, h'⟩ :=
    placed_of_run hsingle howned hcolocated prefix_rfl
  exact ⟨store, reference, hrun, hrun', h.viewsAgree h'⟩

/-- Two related nodes of one shard, on two partitions and on one. -/
theorem view_of_colocated_relationship :
    ∃ store reference, (fresh (.unassigned 2 (by decide))).applyAll
        [(0, .createNode 0 [] []), (0, .createNode 2 [] []),
          (0, .createRelationship 0 0 2 "KNOWS" [])] = .ok store ∧
      (fresh (.unassigned 1 (by decide))).applyAll
        [(0, .createNode 0 [] []), (0, .createNode 2 [] []),
          (0, .createRelationship 0 0 2 "KNOWS" [])] = .ok reference ∧
      ViewsAgree store reference := by
  refine partitioned_view_eq_single_view ⟨2, by decide⟩ (.unassigned 2 (by decide))
    (.unassigned 1 (by decide)) rfl _ ?_ ?_
  · refine forall_concat_isPrefix_cons.mpr ⟨fun _ _ => rfl, forall_concat_isPrefix_cons.mpr
      ⟨fun _ _ => rfl, forall_concat_isPrefix_cons.mpr
        ⟨fun reference hrun => ?_, forall_concat_isPrefix_nil⟩⟩⟩
    cases hrun
    exact ⟨rfl, ⟨_, rfl⟩, ⟨_, rfl⟩⟩
  · refine forall_concat_isPrefix_cons.mpr ⟨fun _ _ => trivial, forall_concat_isPrefix_cons.mpr
      ⟨fun _ _ => trivial, forall_concat_isPrefix_cons.mpr
        ⟨fun store hrun => ?_, forall_concat_isPrefix_nil⟩⟩⟩
    cases hrun
    refine ⟨rfl, fun i partition hi hne => ?_⟩
    -- the other partition is empty
    match i with
    | 0 => exact absurd rfl hne
    | 1 =>
      cases hi
      rintro (⟨relationship, hr⟩ | ⟨range, -, hr⟩)
      · cases hr
      · exact absurd hr not_mem_nil
    | i + 2 => cases hi

/-- Two related nodes in two partitions: the incoming list of the target is empty. -/
theorem incoming_lost_across_partitions :
    OwnedRun ⟨2, by decide⟩ (.unassigned 1 (by decide)) [(0, .createNode 0 [] []),
      (1, .createNode 1 [] []), (0, .createRelationship 0 0 1 "KNOWS" [])] ∧
    ∃ store reference, (fresh (.unassigned 2 (by decide))).applyAll
        [(0, .createNode 0 [] []), (1, .createNode 1 [] []),
          (0, .createRelationship 0 0 1 "KNOWS" [])] = .ok store ∧
      (fresh (.unassigned 1 (by decide))).applyAll
        [(0, .createNode 0 [] []), (1, .createNode 1 [] []),
          (0, .createRelationship 0 0 1 "KNOWS" [])] = .ok reference ∧
      store.incoming 1 = .ok [] ∧ reference.incoming 1 = .ok [⟨0, 0, 1, "KNOWS", []⟩] ∧
      ¬ViewsAgree store reference := by
  refine ⟨?_, _, _, rfl, rfl, rfl, rfl, fun hviews => ?_⟩
  · refine forall_concat_isPrefix_cons.mpr ⟨fun _ _ => rfl, forall_concat_isPrefix_cons.mpr
      ⟨fun _ _ => rfl, forall_concat_isPrefix_cons.mpr
        ⟨fun reference hrun => ?_, forall_concat_isPrefix_nil⟩⟩⟩
    cases hrun
    exact ⟨rfl, ⟨_, rfl⟩, ⟨_, rfl⟩⟩
  · have hincoming := hviews.incoming 1
    cases hincoming

end PartitionedGraphStore

end Neo4r.Storage
