/-
  `Storage.GraphStoreSpec`: what the key-value store reads and writes.

  `Holds` relates a store to its contents: the records are stored under their keys, and
  an index key is present for each entry.  The pieces of a batch are blocks of puts and
  deletes, and what a block does to a key is one equation; so every batch that the program
  writes leads to the contents after an operation.

  On a store that holds contents whose records carry their identifiers every read
  succeeds, and every command leads to a store that holds the contents after it.
-/
import Neo4r.Storage.GraphStore
import Neo4r.Storage.StoreContents

set_option autoImplicit false

namespace Neo4r.Storage

open Foundation FiniteMap PropertyGraph Function KvGraphStore Contents Option

namespace KvGraphStore

/-! ## Scans -/

theorem mem_scanIds {store : KvGraphStore} {range : KeyRange} {id : Nat} :
    id ∈ store.scanIds range ↔ (store.kv.get ⟨range, id⟩).isSome := by
  rw [scanIds, List.mem_insertionSort, List.mem_filterMap, ← mem_keys]
  constructor
  · rintro ⟨⟨range', id'⟩, hmem, hkey⟩
    split at hkey
    · next heq =>
      cases heq
      cases hkey
      exact hmem
    · cases hkey
  · exact fun hmem => ⟨_, hmem, if_pos rfl⟩

theorem nodup_scanIds (store : KvGraphStore) (range : KeyRange) : (store.scanIds range).Nodup := by
  refine (List.perm_insertionSort _ _).nodup_iff.mpr (store.kv.nodup_keys.filterMap ?_)
  rintro ⟨range₁, id₁⟩ ⟨range₂, id₂⟩ id h₁ h₂
  split at h₁
  · split at h₂
    · next heq₁ heq₂ =>
      cases heq₁
      cases heq₂
      cases h₁
      cases h₂
      rfl
    · cases h₂
  · cases h₁

variable {store : KvGraphStore} {α : Type} {range : KeyRange} {records : Nat → Option α}
  {encode : α → KvValue}

section

variable (hget : ∀ id, store.kv.get ⟨range, id⟩ = (records id).map encode)

include hget

/-- A scan over records decodes them all. -/
theorem mapM_scanPrefix_eq {decode : KvValue → Except StorageError α}
    (hdecode : ∀ a, decode (encode a) = .ok a) :
    (store.scanPrefix range).mapM (fun entry => decode entry.2) =
      .ok ((store.scanIds range).filterMap records) := by
  rw [scanPrefix]
  induction store.scanIds range with
  | nil => rfl
  | cons id ids ih =>
    cases hid : records id with
    | none =>
      rw [List.filterMap_cons_none (by rw [hget, hid]; rfl), List.filterMap_cons_none hid, ih]
    | some =>
      rw [List.filterMap_cons_some (by rw [hget, hid]; rfl), List.filterMap_cons_some hid,
        List.mapM_cons, ih, hdecode]
      rfl

/-- A record is found by the scan over its kind. -/
theorem mem_filterMap_scanIds
    {a : α} : a ∈ (store.scanIds range).filterMap records ↔ ∃ id, records id = some a := by
  rw [List.mem_filterMap]
  refine exists_congr fun id => and_iff_right_of_imp fun ha => ?_
  rw [mem_scanIds, hget, ha]
  rfl

end

/-! ## Blocks of a batch -/

variable {range : IndexRange} {graph : PropertyGraph}

theorem indexKey_mem_map {id id' : Nat} {ranges : List IndexRange} :
    indexKey range id ∈ (ranges.map fun range => indexKey range id') ↔
      id = id' ∧ range ∈ ranges := by
  simp only [List.mem_map, indexKey, GraphKey.mk.injEq, KeyRange.index.injEq]
  grind

/-- Index keys are not the keys of records. -/
def IsRecordKey (key : GraphKey) : Prop := ∀ range id, key ≠ indexKey range id

theorem isRecordKey_node (id : Nat) : IsRecordKey (nodeKey id) := fun _ _ h => nomatch h

theorem isRecordKey_boundaryNode (id : Nat) : IsRecordKey (boundaryNodeKey id) :=
  fun _ _ h => nomatch h

theorem isRecordKey_relationship (id : Nat) : IsRecordKey (relationshipKey id) :=
  fun _ _ h => nomatch h

section Blocks

variable (m : FiniteMap GraphKey KvValue) (ranges : List IndexRange) (id : Nat) (range : IndexRange)
  {key : GraphKey}

theorem get_putIndex (id' : Nat) : (m.writeAll (putIndex ranges id)).get (indexKey range id') =
      if id' = id ∧ range ∈ ranges then some .empty else m.get (indexKey range id') := by
  rw [putIndex, get_writeAll_puts]
  simp only [indexKey_mem_map]

theorem get_deleteIndex (id' : Nat) :
    (m.writeAll (deleteIndex ranges id)).get (indexKey range id') =
      if id' = id ∧ range ∈ ranges then none else m.get (indexKey range id') := by
  rw [deleteIndex, get_writeAll_deletes]
  simp only [indexKey_mem_map]

theorem notMem_map_indexKey (hkey : IsRecordKey key) :
    key ∉ ranges.map fun range => indexKey range id := by
  intro hmem
  obtain ⟨range, -, rfl⟩ := List.mem_map.mp hmem
  exact hkey _ _ rfl

/-- The batch of one record: the index keys it had are deleted, the record is written, and
its index keys are put. -/
def recordBatch (old : List IndexRange) (w : FiniteMap.Write GraphKey KvValue)
    (new : List IndexRange) (id : Nat) : KvWriteBatch :=
  deleteIndex old id ++ w :: putIndex new id

variable {w : FiniteMap.Write GraphKey KvValue} (old new : List IndexRange)

theorem get_recordBatch_index (hw : IsRecordKey w.key) (range : IndexRange) (id' : Nat) :
    (m.writeAll (recordBatch old w new id)).get (indexKey range id') =
      if id' = id ∧ range ∈ new then some .empty
      else if id' = id ∧ range ∈ old then none else m.get (indexKey range id') := by
  rw [recordBatch, writeAll_append, writeAll_cons, get_putIndex,
    get_write_ne _ (hw range id').symm, get_deleteIndex]

theorem get_recordBatch_record (hkey : IsRecordKey key) :
    (m.writeAll (recordBatch old w new id)).get key = (m.write w).get key := by
  rw [recordBatch, writeAll_append, writeAll_cons, putIndex,
    get_writeAll_puts, if_neg (notMem_map_indexKey _ _ hkey)]
  have hdelete : (m.writeAll (deleteIndex old id)).get key = m.get key := by
    rw [deleteIndex, get_writeAll_deletes, if_neg (notMem_map_indexKey _ _ hkey)]
  exact get_writeAll_congr [w] hdelete

end Blocks

/-! ## Contents -/

open Classical in
/-- The store holds the records and the index entries. -/
structure Holds (store : KvGraphStore) (c : Contents) : Prop where
  nodes : ∀ id, store.kv.get (nodeKey id) = (c.nodes id).map encodeNode
  boundaryNodes : ∀ id,
    store.kv.get (boundaryNodeKey id) = (c.boundaryNodes id).map encodeBoundaryNode
  relationships : ∀ id,
    store.kv.get (relationshipKey id) = (c.relationships id).map encodeRelationship
  index : ∀ range id,
    store.kv.get (indexKey range id) = if id ∈ c.index range then some .empty else none

theorem new_holds : new.Holds .empty where
  nodes _ := get_empty _
  boundaryNodes _ := get_empty _
  relationships _ := get_empty _
  index _ _ := (get_empty _).trans (if_neg (Set.notMem_empty _)).symm

/-- Two stores hold the same values under the same keys. -/
def SameContents (store store' : KvGraphStore) : Prop := ∀ key, store.kv.get key = store'.kv.get key

theorem encodeNode_injective : Injective encodeNode := by
  rintro ⟨⟩ ⟨⟩ h
  cases h
  rfl

theorem encodeBoundaryNode_injective : Injective encodeBoundaryNode := by
  rintro ⟨⟩ ⟨⟩ h
  cases h
  rfl

theorem encodeRelationship_injective : Injective encodeRelationship := by
  rintro ⟨⟩ ⟨⟩ h
  cases h
  rfl

/-- Every key of a store is a record's or an index entry's, so the contents say what the
store holds. -/
theorem Holds.sameContents_iff {store' : KvGraphStore} {c c' : Contents} (h : store.Holds c)
    (h' : store'.Holds c') : SameContents store store' ↔ c = c' := by
  constructor
  · intro hsame
    refine Contents.ext (funext fun id => ?_) (funext fun id => ?_) (funext fun id => ?_)
      (funext fun range => Set.ext fun id => ?_)
    · have hkey := hsame (nodeKey id)
      rw [h.nodes, h'.nodes] at hkey
      exact map_injective encodeNode_injective hkey
    · have hkey := hsame (boundaryNodeKey id)
      rw [h.boundaryNodes, h'.boundaryNodes] at hkey
      exact map_injective encodeBoundaryNode_injective hkey
    · have hkey := hsame (relationshipKey id)
      rw [h.relationships, h'.relationships] at hkey
      exact map_injective encodeRelationship_injective hkey
    · have hkey := hsame (indexKey range id)
      rw [h.index, h'.index] at hkey
      grind
  · rintro rfl ⟨range, id⟩
    cases range with
    | node => exact (h.nodes id).trans (h'.nodes id).symm
    | boundaryNode => exact (h.boundaryNodes id).trans (h'.boundaryNodes id).symm
    | relationship => exact (h.relationships id).trans (h'.relationships id).symm
    | index range => exact (h.index range id).trans (h'.index range id).symm

section Reads

variable {c : Contents}

theorem Holds.node_eq (h : store.Holds c) (id : Nat) : store.node id = .ok (c.nodes id) := by
  rw [node, record, h.nodes]
  cases c.nodes id <;> rfl

theorem Holds.boundaryNode_eq (h : store.Holds c) (id : Nat) :
    store.boundaryNode id = .ok (c.boundaryNodes id) := by
  rw [boundaryNode, record, h.boundaryNodes]
  cases c.boundaryNodes id <;> rfl

theorem Holds.relationship_eq (h : store.Holds c) (id : Nat) :
    store.relationship id = .ok (c.relationships id) := by
  rw [relationship, record, h.relationships]
  cases c.relationships id <;> rfl

theorem Holds.mem_scanIds_index (h : store.Holds c) {id : Nat} :
    id ∈ store.scanIds (.index range) ↔ id ∈ c.index range := by
  rw [mem_scanIds]
  change (store.kv.get (indexKey range id)).isSome ↔ _
  rw [h.index]
  split <;> simp_all

/-- A scan of the index finds the record of each identifier, if each has one. -/
theorem Holds.relationshipsFromIndex_eq (h : store.Holds c)
    (hstored : ∀ id ∈ c.index range, (c.relationships id).isSome) :
    store.relationshipsFromIndex range =
      .ok ((store.scanIds (.index range)).filterMap c.relationships) := by
  have hfound : ∀ id ∈ store.scanIds (.index range), (c.relationships id).isSome :=
    fun id hid => hstored id (h.mem_scanIds_index.mp hid)
  rw [relationshipsFromIndex]
  generalize store.scanIds (.index range) = ids at hfound ⊢
  induction ids with
  | nil => rfl
  | cons id ids ih =>
    obtain ⟨relationship, hr⟩ := isSome_iff_exists.mp (hfound id (.head _))
    have hid : store.relationshipOfIndex id = .ok relationship := by
      rw [relationshipOfIndex, h.relationship_eq, hr]
      rfl
    rw [List.mapM_cons, hid, ih fun id' hid' => hfound id' (List.mem_cons_of_mem _ hid'),
      List.filterMap_cons_some hr]
    rfl

end Reads

/-! ## What a batch leads to -/

theorem writeBatch_append (store : KvGraphStore) (batch batch' : KvWriteBatch) :
    store.writeBatch (batch ++ batch') = (store.writeBatch batch).writeBatch batch' :=
  congrArg mk (writeAll_append store.kv batch batch')

variable {c : Contents} {id : Nat} {ids : List Nat} {node : Node}

/-- The batch of one record leads to contents in which the record is written and its
identifier reindexed. -/
theorem Holds.recordBatch (h : store.Holds c) {c' : Contents} {old new : List IndexRange}
    {w : FiniteMap.Write GraphKey KvValue} (hw : IsRecordKey w.key)
    (hnodes : ∀ id, (store.kv.write w).get (nodeKey id) = (c'.nodes id).map encodeNode)
    (hbnodes : ∀ id,
      (store.kv.write w).get (boundaryNodeKey id) = (c'.boundaryNodes id).map encodeBoundaryNode)
    (hrels : ∀ id,
      (store.kv.write w).get (relationshipKey id) = (c'.relationships id).map encodeRelationship)
    (hidx : c'.index = reindex c.index id old new) :
    (store.writeBatch (recordBatch old w new id)).Holds c' := by
  refine ⟨?_, ?_, ?_, ?_⟩
  · exact fun id' => (get_recordBatch_record _ _ _ _ (isRecordKey_node id')).trans (hnodes id')
  · exact fun id' => (get_recordBatch_record _ _ _ _ (isRecordKey_boundaryNode id')).trans
      (hbnodes id')
  · exact fun id' => (get_recordBatch_record _ _ _ _ (isRecordKey_relationship id')).trans
      (hrels id')
  · intro range id'
    refine (get_recordBatch_index store.kv id old new hw range id').trans ?_
    rw [h.index, hidx]
    classical
    simp only [mem_reindex]
    grind

variable {w : FiniteMap.Write GraphKey KvValue}

theorem get_write_of_range_ne (m : FiniteMap GraphKey KvValue) {key : GraphKey}
    (h : w.key.range ≠ key.range) : (m.write w).get key = m.get key :=
  get_write_ne m fun heq => h (heq ▸ rfl)

theorem Holds.nodes_write (h : store.Holds c) (hw : w.key.range ≠ .node) (id : Nat) :
    (store.kv.write w).get (nodeKey id) = (c.nodes id).map encodeNode :=
  (get_write_of_range_ne _ hw).trans (h.nodes id)

theorem Holds.boundaryNodes_write (h : store.Holds c) (hw : w.key.range ≠ .boundaryNode)
    (id : Nat) : (store.kv.write w).get (boundaryNodeKey id) =
      (c.boundaryNodes id).map encodeBoundaryNode :=
  (get_write_of_range_ne _ hw).trans (h.boundaryNodes id)

theorem Holds.relationships_write (h : store.Holds c) (hw : w.key.range ≠ .relationship)
    (id : Nat) : (store.kv.write w).get (relationshipKey id) =
      (c.relationships id).map encodeRelationship :=
  (get_write_of_range_ne _ hw).trans (h.relationships id)

section

variable (h : store.Holds c)

include h

theorem Holds.putNode (old : List IndexRange) (node : Node) :
    (store.writeBatch (KvGraphStore.recordBatch old (.put (nodeKey node.id) (encodeNode node))
      node.ranges node.id)).Holds (c.putNode old node) := by
  refine h.recordBatch (isRecordKey_node _) ?_ (h.boundaryNodes_write nofun)
    (h.relationships_write nofun) rfl
  intro id
  rw [write, get_insert, h.nodes, Contents.nodes_putNode]
  simp only [nodeKey, GraphKey.mk.injEq, true_and]
  split <;> rfl

theorem Holds.eraseNode (node : Node) :
    (store.writeBatch (KvGraphStore.recordBatch node.ranges (.delete (nodeKey node.id)) []
      node.id)).Holds (c.eraseNode node) := by
  refine h.recordBatch (isRecordKey_node _) ?_ (h.boundaryNodes_write nofun)
    (h.relationships_write nofun) rfl
  intro id
  rw [write, get_erase, h.nodes, Contents.nodes_eraseNode]
  simp only [nodeKey, GraphKey.mk.injEq, true_and]
  split <;> rfl

theorem Holds.putBoundaryNode (old : List IndexRange) (node : BoundaryNode) :
    (store.writeBatch (KvGraphStore.recordBatch old
      (.put (boundaryNodeKey node.id) (encodeBoundaryNode node)) node.ranges node.id)).Holds
      (c.putBoundaryNode old node) := by
  refine h.recordBatch (isRecordKey_boundaryNode _) (h.nodes_write nofun) ?_
    (h.relationships_write nofun) rfl
  intro id
  rw [write, get_insert, h.boundaryNodes, Contents.boundaryNodes_putBoundaryNode]
  simp only [boundaryNodeKey, GraphKey.mk.injEq, true_and]
  split <;> rfl

theorem Holds.putRelationship (rel : Relationship) (new : List IndexRange) :
    (store.writeBatch (KvGraphStore.recordBatch []
      (.put (relationshipKey rel.id) (encodeRelationship rel)) new
      rel.id)).Holds (c.putRelationship rel new) := by
  refine h.recordBatch (isRecordKey_relationship _) (h.nodes_write nofun)
    (h.boundaryNodes_write nofun) ?_ rfl
  intro id
  rw [write, get_insert, h.relationships, Contents.relationships_putRelationship]
  simp only [relationshipKey, GraphKey.mk.injEq, true_and]
  split <;> rfl

/-- The batch of a relationship with its entries. -/
theorem Holds.createRelationship (rel : Relationship) :
    (store.writeBatch (createRelationshipIntoBatch rel
      (c.nodes rel.toId))).Holds
      (c.putRelationship rel (c.createdRanges rel)) := by
  have hbatch : createRelationshipIntoBatch rel (c.nodes rel.toId) =
      KvGraphStore.recordBatch []
        (.put (relationshipKey rel.id) (encodeRelationship rel))
        (c.createdRanges rel) rel.id := by
    unfold createRelationshipIntoBatch createRelationshipValueIntoBatch KvGraphStore.recordBatch
      createdRanges
    split <;> simp [putIndex, deleteIndex]
  rw [hbatch]
  exact h.putRelationship rel _

end

/-- The keys of a stored relationship, none if it is not stored. -/
def keysOfRelationship (c : Contents) (id : Nat) : List GraphKey :=
  ((c.relationships id).map (relationshipKeys id)).getD []

variable {key : GraphKey} {change : Node → Option Node}

theorem mem_keysOfRelationship : key ∈ keysOfRelationship c id ↔
      ∃ relationship, c.relationships id = some relationship ∧
        key ∈ relationshipKeys id relationship := by
  cases h : c.relationships id <;> simp [keysOfRelationship, h]

theorem relationshipKey_mem : relationshipKey id ∈ ids.flatMap (keysOfRelationship c) ↔
      id ∈ ids ∧ (c.relationships id).isSome := by
  simp only [List.mem_flatMap, mem_keysOfRelationship, relationshipKeys, List.mem_cons,
    relationshipKey, GraphKey.mk.injEq, true_and, List.mem_map, indexKey, reduceCtorEq, false_and,
    and_false, exists_false, or_false, isSome_iff_exists]
  grind

theorem indexKey_mem :
    indexKey range id ∈ ids.flatMap (keysOfRelationship c) ↔ id ∈ ids ∧ c.EntryOf range id := by
  have hne : ∀ id', indexKey range id ≠ relationshipKey id' := fun _ h => nomatch h
  simp only [List.mem_flatMap, mem_keysOfRelationship, relationshipKeys, List.mem_cons, hne,
    false_or, indexKey_mem_map, List.mem_append, EntryOf]
  grind

theorem range_of_mem_keysOfRelationship (h : key ∈ ids.flatMap (keysOfRelationship c)) :
    key.range ≠ .node ∧ key.range ≠ .boundaryNode := by
  obtain ⟨id, -, h⟩ := List.mem_flatMap.mp h
  obtain ⟨rel, -, h⟩ := mem_keysOfRelationship.mp h
  rcases List.mem_cons.mp h with rfl | h
  · exact ⟨nofun, nofun⟩
  · obtain ⟨range, -, rfl⟩ := List.mem_map.mp h
    exact ⟨nofun, nofun⟩

/-- The deletes of relationships. -/
def dropBatch (c : Contents) (ids : List Nat) : KvWriteBatch :=
  (ids.flatMap (keysOfRelationship c)).map .delete

section

variable (h : store.Holds c)

include h

/-- Deleting the keys of relationships takes them out. -/
theorem Holds.dropRelationships (ids : List Nat) :
    (store.writeBatch (dropBatch c ids)).Holds (c.dropRelationships { id | id ∈ ids }) := by
  have hget (key : GraphKey) := get_writeAll_deletes store.kv
    (ids.flatMap (keysOfRelationship c)) key
  refine ⟨?_, ?_, ?_, ?_⟩
  · intro id
    refine (hget _).trans (Eq.trans (if_neg ?_) (h.nodes id))
    exact fun hmem => (range_of_mem_keysOfRelationship hmem).1 rfl
  · intro id
    refine (hget _).trans (Eq.trans (if_neg ?_) (h.boundaryNodes id))
    exact fun hmem => (range_of_mem_keysOfRelationship hmem).2 rfl
  · intro id
    refine (hget _).trans ?_
    simp only [relationshipKey_mem, h.relationships, Contents.dropRelationships, Set.mem_ofPred_eq]
    cases c.relationships id <;> by_cases hid : id ∈ ids <;> simp [hid]
  · intro range id
    refine (hget _).trans ?_
    classical
    simp only [indexKey_mem, h.index, Contents.dropRelationships, Set.mem_ofPred_eq]
    by_cases hdropped : id ∈ ids ∧ c.EntryOf range id <;> simp [hdropped]

theorem Holds.deleteRelationship_eq (id : Nat) :
    store.deleteRelationship id = .ok (dropBatch c [id]) := by
  rw [deleteRelationship, h.relationship_eq, dropBatch, List.flatMap_singleton, keysOfRelationship]
  cases c.relationships id <;> rfl

/-- The batch of a node taken out after relationships. -/
theorem Holds.dropNode (hids : c.IdsMatch) (hnode : c.nodes id = some node) (ids : List Nat) :
    (store.writeBatch (dropBatch c ids ++ dropNodeIntoBatch id node)).Holds
      (c.dropNode id { id | id ∈ ids }) := by
  have herased := (h.dropRelationships ids).eraseNode node
  have hid : node.id = id := hids.node_id hnode
  rw [Contents.dropNode, hnode, writeBatch_append, dropNodeIntoBatch, ← hid]
  exact herased

theorem Holds.deleteNode_eq (hnode : c.nodes id = some node) :
    store.deleteNode id = .ok
      (dropBatch c (sortedIds (store.scanIds (.index (.outgoing id)) ++
        store.scanIds (.index (.incoming id)))) ++ dropNodeIntoBatch id node) := by
  rw [deleteNode, h.node_eq, hnode]
  change Except.bind (List.mapM _ _) _ = _
  rw [exceptMapM_ok fun r _ => h.deleteRelationship_eq r, dropBatch, List.map_flatMap]
  simp only [dropBatch, List.flatMap_singleton]
  rfl

/-- The relationships that the scans of `delete_node` find. -/
theorem Holds.mem_listedAt (id : Nat) :
    { r | r ∈ sortedIds (store.scanIds (.index (.outgoing id)) ++
      store.scanIds (.index (.incoming id))) } = c.listedAt id := by
  refine Set.ext fun r => ?_
  rw [Set.mem_ofPred_eq, mem_sortedIds, List.mem_append, h.mem_scanIds_index, h.mem_scanIds_index]
  rfl

/-! ## Commands -/

theorem Holds.changeNodeIntoBatch
    (hchange : ∀ {node node'}, change node = some node' → node'.id = node.id)
    (hnode : c.nodes id = some node) :
    (store.writeBatch (changeNodeIntoBatch change node)).Holds (c.changeNode id change) := by
  rw [changeNode_of_some hnode, KvGraphStore.changeNodeIntoBatch]
  cases hchanged : change node with
  | none => exact h
  | some changed =>
    have hid : node.id = changed.id := (hchange hchanged).symm
    rw [removeNodeIndexesIntoBatch, hid]
    exact h.putNode node.ranges changed

theorem Holds.updateNode (id : Nat)
    (hchange : ∀ {node node'}, change node = some node' → node'.id = node.id) :
    ∃ batch, store.updateNode id change = .ok batch ∧
      (store.writeBatch batch).Holds (c.changeNode id change) := by
  rw [KvGraphStore.updateNode, h.node_eq]
  cases hnode : c.nodes id with
  | none =>
    rw [changeNode_of_none hnode]
    exact ⟨_, rfl, h⟩
  | some => exact ⟨_, rfl, h.changeNodeIntoBatch hchange hnode⟩

section

variable (hids : c.IdsMatch)

include hids

theorem Holds.updateRelationship (id : Nat) {change : Relationship → Relationship}
    (hchange : ∀ rel, (change rel).id = rel.id) :
    ∃ batch, store.updateRelationship id change = .ok batch ∧
      (store.writeBatch batch).Holds (c.changeRelationship id change) := by
  rw [KvGraphStore.updateRelationship, h.relationship_eq, Contents.changeRelationship]
  cases hr : c.relationships id with
  | none => exact ⟨_, rfl, h⟩
  | some rel =>
    have hid : (change rel).id = id := (hchange _).trans (hids.relationship_id hr)
    have hput := h.putRelationship (change rel) []
    rw [hid] at hput
    exact ⟨_, rfl, hput⟩

theorem Holds.putBoundaryNodeIntoBatch (node : BoundaryNode) :
    (store.writeBatch (putBoundaryNodeIntoBatch (c.boundaryNodes node.id)
      node)).Holds (c.putBoundaryNode (c.boundaryNodeRangesAt node.id) node) := by
  have hput := h.putBoundaryNode (c.boundaryNodeRangesAt node.id) node
  rw [Contents.boundaryNodeRangesAt] at hput ⊢
  cases hold : c.boundaryNodes node.id with
  | none =>
    rw [hold] at hput
    exact hput
  | some =>
    rw [hold] at hput
    rw [KvGraphStore.putBoundaryNodeIntoBatch, map_some, removeBoundaryNodeIndexesIntoBatch,
      hids.boundaryNode_id hold]
    exact hput

theorem Holds.deleteNode (id : Nat) :
    ∃ batch, store.deleteNode id = .ok batch ∧
      (store.writeBatch batch).Holds (c.dropNode id (c.listedAt id)) := by
  cases hnode : c.nodes id with
  | none =>
    refine ⟨[], ?_, ?_⟩
    · rw [KvGraphStore.deleteNode, h.node_eq, hnode]
      rfl
    · rw [Contents.dropNode, hnode]
      exact h
  | some =>
    refine ⟨_, h.deleteNode_eq hnode, ?_⟩
    rw [← h.mem_listedAt]
    exact h.dropNode hids hnode _

/-- Every command writes a batch that leads to the contents after it. -/
theorem Holds.mutation (cmd : Command) :
    ∃ batch, store.mutation cmd = .ok batch ∧ (store.writeBatch batch).Holds (c.apply cmd) := by
  cases cmd with
  | createNode id labels props => exact ⟨_, rfl, h.putNode [] ⟨id, labels, props⟩⟩
  | createRelationship id fromId toId relType props =>
    refine ⟨_, ?_, h.createRelationship ⟨id, fromId, toId, relType, props⟩⟩
    rw [KvGraphStore.mutation, KvGraphStore.createRelationship, h.node_eq]
    rfl
  | upsertBoundaryNode id ownerShard labels props version =>
    refine ⟨_, ?_, h.putBoundaryNodeIntoBatch hids ⟨id, ownerShard, labels, props, version⟩⟩
    rw [KvGraphStore.mutation, upsertBoundaryNode, h.boundaryNode_eq]
    rfl
  | setNodeProperty id => exact h.updateNode id withProperty_id
  | removeNodeProperty id => exact h.updateNode id withoutProperty_id
  | addNodeLabel id => exact h.updateNode id withLabel_id
  | removeNodeLabel id => exact h.updateNode id withoutLabel_id
  | setRelationshipProperty id | removeRelationshipProperty id =>
    exact h.updateRelationship hids id fun _ => rfl
  | deleteRelationship id =>
    have hdrop := h.dropRelationships [id]
    simp only [List.mem_singleton] at hdrop
    exact ⟨_, h.deleteRelationship_eq id, hdrop⟩
  | deleteNode id => exact h.deleteNode hids id
  | clusterConfigChange => exact ⟨_, rfl, h⟩

theorem Holds.apply (cmd : Command) :
    ∃ store', store.apply cmd = .ok store' ∧ store'.Holds (c.apply cmd) := by
  obtain ⟨batch, hbatch, hholds⟩ := h.mutation hids cmd
  refine ⟨_, ?_, hholds⟩
  rw [KvGraphStore.apply, hbatch]
  rfl

/-- A sequence of commands leads to the contents after them. -/
theorem Holds.applyAll (cmds : List Command) :
    ∃ store', store.applyAll cmds = .ok store' ∧ store'.Holds (cmds.foldl Contents.apply c) := by
  induction cmds generalizing store c with
  | nil => exact ⟨store, rfl, h⟩
  | cons cmd cmds ih =>
    obtain ⟨store₁, hok, h₁⟩ := h.apply hids cmd
    obtain ⟨store', hall, h'⟩ := ih h₁ (hids.apply cmd)
    refine ⟨store', ?_, h'⟩
    rw [applyAll, List.foldlM_cons, hok]
    exact hall

end

end

/-! ## Graphs in a store -/

/-- The store holds a graph. -/
def Represents (store : KvGraphStore) (graph : PropertyGraph) : Prop := store.Holds graph.contents

theorem new_represents : new.Represents .empty := by
  rw [Represents, contents_empty]
  exact new_holds

/-- In a graph, the index of relationships lists stored ones. -/
theorem Represents.relationshipsFromIndex_eq (h : store.Represents graph)
    (hkind : range.kind = .relationship) : store.relationshipsFromIndex range =
      .ok ((store.scanIds (.index range)).filterMap graph.relationships) := by
  refine Holds.relationshipsFromIndex_eq h fun id hid => ?_
  obtain ⟨rel, hr, -⟩ := (indexed_iff_relationshipListed hkind).mp hid
  exact isSome_iff_exists.mpr ⟨rel, hr⟩

/-- Every command that creates under a free identifier leads to the graph after it. -/
theorem Represents.apply (h : store.Represents graph) (hw : graph.WellFormed) {cmd : Command}
    (hfresh : graph.Fresh cmd) :
    ∃ store', store.apply cmd = .ok store' ∧ store'.Represents (graph.apply cmd) := by
  have happly := Holds.apply h hw.idsMatch cmd
  rw [contents_apply hw hfresh] at happly
  exact happly

end KvGraphStore

end Neo4r.Storage
