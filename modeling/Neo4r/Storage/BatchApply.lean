/-
  `Storage.BatchApply`: batches of commands against the same commands one by one.

  A batch reads records through what it has staged and scans the index of the store as it
  was before the batch.  `Staged` says what the staged records and the collected writes
  stand for at each point: a view of the store with the commands so far applied.  The view
  moves as the store itself does, except where a node is deleted.  There the batch takes
  the relationships that the committed index lists at the node, and the staged ones that
  leave or enter it.
-/
import Neo4r.Foundation.Machine
import Neo4r.Storage.GraphStoreSpec

set_option autoImplicit false

namespace Neo4r.Storage

open Foundation FiniteMap Contents List

namespace Contents

variable {c : Contents}

/-- A node is taken out with the same relationships exactly if the two sets have the same
stored ones. -/
theorem dropNode_eq_iff {id : Nat} {node : Node} (hnode : c.nodes id = some node)
    {ids ids' : Set Nat} : c.dropNode id ids = c.dropNode id ids' ↔
      ∀ r rel, c.relationships r = some rel → (r ∈ ids ↔ r ∈ ids') := by
  simp only [dropNode, hnode]
  constructor
  · intro heq r rel hr
    have hrecord : (c.dropRelationships ids).relationships r =
        (c.dropRelationships ids').relationships r :=
      congrFun (congrArg Contents.relationships heq :) r
    by_cases hid : r ∈ ids <;> by_cases hid' : r ∈ ids' <;> simp_all [dropRelationships]
  · intro hiff
    have hdrop : c.dropRelationships ids = c.dropRelationships ids' := by
      refine Contents.ext rfl rfl (funext fun r => ?_) (funext fun range => Set.ext fun r => ?_)
      · cases hr : c.relationships r with
        | none => simp [dropRelationships, hr]
        | some rel =>
          classical
          exact if_congr (hiff r rel hr) rfl rfl
      · refine and_congr_right fun _ => not_congr (and_congr_left ?_)
        rintro ⟨rel, hr, -⟩
        exact hiff r rel hr
    rw [hdrop]

/-- A relationship that keeps its entries may have those where it leaves put again. -/
theorem putRelationship_leaving (hleaving : c.LeavingListed) {old rel : Relationship}
    (hold : c.relationships rel.id = some old) (hsame : rel.leavingRanges = old.leavingRanges) :
    c.putRelationship rel rel.leavingRanges = c.putRelationship rel [] := by
  refine Contents.ext rfl rfl rfl (funext fun range => Set.ext fun id => ?_)
  rw [putRelationship, putRelationship, mem_reindex, mem_reindex]
  simp only [not_mem_nil, and_false, not_false_eq_true, and_true, or_false]
  refine or_iff_left_of_imp ?_
  rintro ⟨rfl, hmem⟩
  exact hleaving _ _ hold _ (hsame ▸ hmem)

end Contents

namespace KvGraphStore

/-! ## What is staged -/

/-- The command creates the relationship or changes its properties. -/
def touchesRelationship (r : Nat) : Command → Bool
  | .createRelationship id _ _ _ _ | .setRelationshipProperty id _ _
  | .removeRelationshipProperty id _ => id = r
  | _ => false

/-- What the staged records and the collected writes stand for, after some commands on a
store with contents `c`. -/
structure Staged (store : KvGraphStore) (c : Contents) (done : List Command)
    (progress : KvWriteBatch × StagedBatchState) (view : Contents) : Prop where
  holds : (store.writeBatch progress.1).Holds view
  idsMatch : view.IdsMatch
  leaving : view.LeavingListed
  nodes : ∀ id, (progress.2.nodes.get id).getD (c.nodes id) = view.nodes id
  boundaryNodes : ∀ id,
    (progress.2.boundaryNodes.get id).getD (c.boundaryNodes id) = view.boundaryNodes id
  relationships : ∀ id,
    (progress.2.relationships.get id).getD (c.relationships id) = view.relationships id
  /-- The entries of a relationship that is not staged are those of the store. -/
  unstaged : ∀ r, progress.2.relationships.get r = none → ∀ range, range.kind = .relationship →
    (r ∈ view.index range ↔ r ∈ c.index range)
  /-- A stored relationship is staged if the commands touched it. -/
  touched : ∀ r relationship, view.relationships r = some relationship →
    ((progress.2.relationships.get r).isSome ↔ ∃ command ∈ done, touchesRelationship r command)

variable {store : KvGraphStore} {c : Contents} {staged : StagedBatchState}

theorem Holds.stagedNode_eq (h : store.Holds c) (id : Nat) :
    store.stagedNode staged id = .ok ((staged.nodes.get id).getD (c.nodes id)) := by
  rw [stagedNode]
  cases staged.nodes.get id with
  | none => exact h.node_eq id
  | some => rfl

theorem Holds.stagedBoundaryNode_eq (h : store.Holds c) (id : Nat) :
    store.stagedBoundaryNode staged id =
      .ok ((staged.boundaryNodes.get id).getD (c.boundaryNodes id)) := by
  rw [stagedBoundaryNode]
  cases staged.boundaryNodes.get id with
  | none => exact h.boundaryNode_eq id
  | some => rfl

theorem Holds.stagedRelationship_eq (h : store.Holds c) (id : Nat) :
    store.stagedRelationship staged id =
      .ok ((staged.relationships.get id).getD (c.relationships id)) := by
  rw [stagedRelationship]
  cases staged.relationships.get id with
  | none => exact h.relationship_eq id
  | some => rfl

/-- An insert at an identifier, read over the store. -/
theorem getD_insert {α : Type} (staged : FiniteMap Nat (Option α)) (records : Nat → Option α)
    (id id' : Nat) (a : Option α) :
    ((staged.insert id a).get id').getD (records id') =
      if id' = id then a else (staged.get id').getD (records id') := by
  rw [get_insert]
  split <;> rfl

/-- The view after a command of a batch. -/
noncomputable def nextView (c : Contents) (staged : StagedBatchState) (view : Contents) :
    Command → Contents
  | .deleteNode id => view.dropNode id (c.listedAt id ∪ { r | r ∈ stagedIncident staged id })
  | command => view.apply command

/-- `stage`, when the command succeeds. -/
theorem stage_of_ok {progress : KvWriteBatch × StagedBatchState} {cmd : Command}
    {batch : KvWriteBatch} (h : store.applyIntoBatch progress.2 cmd = .ok (batch, staged)) :
    store.stage progress cmd = .ok (progress.1 ++ batch, staged) := by
  rw [stage, h]
  rfl

variable {view : Contents} {done : List Command} {progress : KvWriteBatch × StagedBatchState}

theorem staged_new (h : store.Holds c) (hids : c.IdsMatch) (hleaving : c.LeavingListed) :
    Staged store c [] ([], .new) c where
  holds := h
  idsMatch := hids
  leaving := hleaving
  nodes id := by rw [StagedBatchState.new, get_empty, Option.getD_none]
  boundaryNodes id := by rw [StagedBatchState.new, get_empty, Option.getD_none]
  relationships id := by rw [StagedBatchState.new, get_empty, Option.getD_none]
  unstaged _ _ _ _ := Iff.rfl
  touched r relationship _ := by
    simp [StagedBatchState.new, get_empty]

variable {cmd : Command} {id : Nat} {ids : List Nat} {r : Nat} {batch : KvWriteBatch}

theorem exists_touches_append (h : touchesRelationship r cmd = false) :
    (∃ command' ∈ done ++ [cmd], touchesRelationship r command') ↔
      ∃ command' ∈ done, touchesRelationship r command' := by
  simp [or_and_right, exists_or, h]

section

variable (hs : Staged store c done progress view)

include hs

/-- Relationships are left alone. -/
theorem Staged.frame {done' : List Command}
    (hdone : ∀ r, (∃ cmd ∈ done', touchesRelationship r cmd) ↔
      ∃ cmd ∈ done, touchesRelationship r cmd)
    {view' : Contents} (hholds : ((store.writeBatch progress.1).writeBatch batch).Holds view')
    (hids : view'.IdsMatch) (hsame : SameRelationshipsIn view view')
    (hnodes : ∀ id, (staged.nodes.get id).getD (c.nodes id) = view'.nodes id)
    (hbnodes : ∀ id,
      (staged.boundaryNodes.get id).getD (c.boundaryNodes id) = view'.boundaryNodes id)
    (hrels : staged.relationships = progress.2.relationships) :
    Staged store c done' (progress.1 ++ batch, staged) view' where
  holds := by
    rw [writeBatch_append]
    exact hholds
  idsMatch := hids
  leaving := hs.leaving.congr hsame
  nodes := hnodes
  boundaryNodes := hbnodes
  relationships id := by
    rw [hsame.relationships, ← hs.relationships, hrels]
  unstaged r hr range hkind := by
    rw [hrels] at hr
    rw [hsame.index hkind, hs.unstaged r hr range hkind]
  touched r rel hr := by
    rw [hsame.relationships] at hr
    rw [hrels, hs.touched r rel hr, hdone]

/-- A command that changes nothing. -/
theorem Staged.skip
    (htouches : ∀ r rel, view.relationships r = some rel → touchesRelationship r cmd = false) :
    Staged store c (done ++ [cmd]) (progress.1 ++ [], progress.2) view := by
  rw [append_nil]
  refine ⟨hs.holds, hs.idsMatch, hs.leaving, hs.nodes, hs.boundaryNodes, hs.relationships,
    hs.unstaged, fun r rel hr => ?_⟩
  rw [hs.touched r rel hr, exists_touches_append (htouches r rel hr)]

/-- A relationship is put and staged. -/
theorem Staged.putRelationship (cmd : Command) {rel : Relationship} {new : List IndexRange}
    (htouches : ∀ r, touchesRelationship r cmd = decide (rel.id = r))
    (hholds : ((store.writeBatch progress.1).writeBatch batch).Holds (view.putRelationship rel new))
    (hnew : ∀ {range}, range ∈ rel.leavingRanges → range ∈ new ∨ rel.id ∈ view.index range) :
    Staged store c (done ++ [cmd]) (progress.1 ++ batch, { progress.2 with
      relationships := progress.2.relationships.insert rel.id (some rel) })
      (view.putRelationship rel new) where
  holds := by
    rw [writeBatch_append]
    exact hholds
  idsMatch := hs.idsMatch.putRelationship rel new
  leaving := hs.leaving.putRelationship hnew
  nodes := hs.nodes
  boundaryNodes := hs.boundaryNodes
  relationships id := by
    rw [getD_insert, relationships_putRelationship, hs.relationships]
  unstaged r hr range hkind := by
    rw [get_insert] at hr
    split at hr
    · cases hr
    · next hne =>
      rw [← hs.unstaged r hr range hkind, Contents.putRelationship, Contents.mem_reindex]
      simp [hne]
  touched r relationship' hr := by
    rw [relationships_putRelationship] at hr
    rw [get_insert]
    by_cases hid : r = rel.id
    · subst hid
      simp [htouches]
    · rw [if_neg hid] at hr
      rw [if_neg hid, hs.touched r relationship' hr, exists_touches_append]
      rw [htouches]
      exact decide_eq_false fun heq => hid heq.symm

end

/-- What is staged once some relationships of a view are deleted. -/
structure StagedDrop (view : Contents) (ids : List Nat) (staged staged' : StagedBatchState) :
    Prop where
  nodes : staged'.nodes = staged.nodes
  boundaryNodes : staged'.boundaryNodes = staged.boundaryNodes
  relationships : ∀ r, staged'.relationships.get r =
    if r ∈ ids ∧ (view.relationships r).isSome then some none else staged.relationships.get r

theorem deleteRelationshipStaged_eq (h : store.Holds c)
    (hread : (staged.relationships.get id).getD (c.relationships id) = view.relationships id) :
    ∃ staged', store.deleteRelationshipStaged staged id = .ok (dropBatch view [id], staged') ∧
      StagedDrop view [id] staged staged' := by
  rw [deleteRelationshipStaged, h.stagedRelationship_eq, hread, dropBatch, flatMap_singleton,
    keysOfRelationship]
  cases hr : view.relationships id with
  | none =>
    refine ⟨staged, rfl, rfl, rfl, fun r => (if_neg ?_).symm⟩
    rintro ⟨hmem, hsome⟩
    rw [mem_singleton.mp hmem, hr] at hsome
    cases hsome
  | some =>
    refine ⟨_, rfl, rfl, rfl, fun r => ?_⟩
    rw [get_insert]
    refine if_congr ⟨fun heq => ?_, fun hmem => mem_singleton.mp hmem.1⟩ rfl rfl
    rw [heq, hr]
    exact ⟨mem_singleton_self id, rfl⟩

/-- The loop over the relationships of a node: each is read as it was before the loop,
since none comes twice. -/
theorem deleteRelationshipsStaged_eq (h : store.Holds c) (hnodup : ids.Nodup)
    (hread : ∀ id ∈ ids,
      (staged.relationships.get id).getD (c.relationships id) = view.relationships id) :
    ∃ staged', store.deleteRelationshipsStaged ids staged = .ok (dropBatch view ids, staged') ∧
      StagedDrop view ids staged staged' := by
  induction ids generalizing staged with
  | nil =>
    refine ⟨staged, rfl, rfl, rfl, fun r => (if_neg fun hmem => ?_).symm⟩
    exact absurd hmem.1 not_mem_nil
  | cons id ids ih =>
    obtain ⟨hid, hnodup⟩ := nodup_cons.mp hnodup
    obtain ⟨staged₁, hone, hdrop⟩ := deleteRelationshipStaged_eq h (hread id (.head _))
    have hread₁ : ∀ id' ∈ ids, (staged₁.relationships.get id').getD (c.relationships id') =
        view.relationships id' := by
      intro id' hid'
      have hne : ¬(id' ∈ [id] ∧ (view.relationships id').isSome) := by
        rintro ⟨hmem, -⟩
        exact hid (mem_singleton.mp hmem ▸ hid')
      rw [hdrop.relationships, if_neg hne]
      exact hread id' (.tail _ hid')
    obtain ⟨staged', hrest, hdrop'⟩ := ih hnodup hread₁
    refine ⟨staged', ?_, hdrop'.nodes.trans hdrop.nodes,
      hdrop'.boundaryNodes.trans hdrop.boundaryNodes, fun r => ?_⟩
    · have hbatch : dropBatch view (id :: ids) = dropBatch view [id] ++ dropBatch view ids := by
        simp only [dropBatch, flatMap_cons, flatMap_nil, append_nil, map_append]
      rw [hbatch]
      exact exceptBind_ok_iff.mpr ⟨_, hone, exceptBind_ok_iff.mpr ⟨_, hrest, rfl⟩⟩
    · rw [hdrop'.relationships, hdrop.relationships]
      grind

/-- Relationships are deleted. -/
theorem Staged.dropRelationships (hs : Staged store c done progress view) (cmd : Command)
    (htouches : ∀ r, touchesRelationship r cmd = false)
    (hdrop : StagedDrop view ids progress.2 staged) :
    Staged store c (done ++ [cmd]) (progress.1 ++ dropBatch view ids, staged)
      (view.dropRelationships { r | r ∈ ids }) where
  holds := by
    rw [writeBatch_append]
    exact hs.holds.dropRelationships ids
  idsMatch := hs.idsMatch.dropRelationships _
  leaving := hs.leaving.dropRelationships _
  nodes := hdrop.nodes ▸ hs.nodes
  boundaryNodes := hdrop.boundaryNodes ▸ hs.boundaryNodes
  relationships r := by
    have hread := hs.relationships r
    rw [hdrop.relationships]
    cases hr : view.relationships r <;> by_cases hmem : r ∈ ids <;>
      simp_all [Contents.dropRelationships]
  unstaged r hr range hkind := by
    rw [hdrop.relationships] at hr
    split at hr
    · cases hr
    · next hnot =>
      rw [← hs.unstaged r hr range hkind]
      refine and_iff_left ?_
      rintro ⟨hmem, rel, hrecord, -⟩
      exact hnot ⟨hmem, Option.isSome_iff_exists.mpr ⟨rel, hrecord⟩⟩
  touched r rel hr := by
    obtain ⟨hnot, hr⟩ := Contents.relationships_dropRelationships.mp hr
    rw [hdrop.relationships, if_neg fun hmem => hnot hmem.1, hs.touched r rel hr,
      exists_touches_append (htouches r)]

/-- A node is deleted after some relationships. -/
theorem Staged.dropNode (hs : Staged store c done progress view) {node : Node}
    (hnode : view.nodes id = some node) (hdrop : StagedDrop view ids progress.2 staged) :
    Staged store c (done ++ [.deleteNode id])
      (progress.1 ++ (dropBatch view ids ++ dropNodeIntoBatch id node),
        { staged with nodes := staged.nodes.insert id none })
      (view.dropNode id { r | r ∈ ids }) := by
  have hid : node.id = id := hs.idsMatch.node_id hnode
  have hdropped := hs.dropRelationships (.deleteNode id) (fun _ => rfl) hdrop
  have hholds := hs.holds.dropNode hs.idsMatch hnode ids
  rw [writeBatch_append, ← writeBatch_append store] at hholds
  rw [← append_assoc]
  refine hdropped.frame (fun _ => Iff.rfl) hholds (hs.idsMatch.dropNode _ _) ?_ ?_ ?_ rfl
  · rw [Contents.dropNode, hnode]
    exact sameRelationshipsIn_eraseNode node
  · intro id'
    rw [getD_insert, hdropped.nodes, Contents.dropNode, hnode]
    exact (hid ▸ nodes_eraseNode _ id' node).symm
  · intro id'
    rw [hdropped.boundaryNodes, Contents.dropNode, hnode]
    rfl

theorem Staged.updateNode (h : store.Holds c) (hs : Staged store c done progress view)
    (htouches : ∀ r, touchesRelationship r cmd = false) (id : Nat) {change : Node → Option Node}
    (hchange : ∀ {node node'}, change node = some node' → node'.id = node.id) :
    ∃ batch staged, store.updateNodeStaged progress.2 id change = .ok (batch, staged) ∧
      Staged store c (done ++ [cmd]) (progress.1 ++ batch, staged) (view.changeNode id change) := by
  rw [updateNodeStaged, h.stagedNode_eq, hs.nodes]
  cases hnode : view.nodes id with
  | none =>
    rw [changeNode_of_none hnode]
    exact ⟨_, _, rfl, hs.skip fun r _ _ => htouches r⟩
  | some node =>
    have hbatch := hs.holds.changeNodeIntoBatch hchange hnode
    simp only [bind, Except.bind]
    cases hchanged : change node with
    | none =>
      rw [changeNode_of_some hnode, hchanged]
      exact ⟨_, _, rfl, hs.skip fun r _ _ => htouches r⟩
    | some changed =>
      refine ⟨_, _, rfl, hs.frame (fun r => exists_touches_append (htouches r)) hbatch
        (hs.idsMatch.changeNode id change) (changeNode_induction ⟨rfl, fun _ _ => Iff.rfl⟩ fun _ =>
          sameRelationshipsIn_putNode kind_ne_of_mem_nodeRanges)
        (fun id' => ?_) (fun id' => ?_) rfl⟩
      · have hid : changed.id = id := (hchange hchanged).trans (hs.idsMatch.node_id hnode)
        rw [getD_insert, hs.nodes, changeNode_of_some hnode, hchanged]
        exact (hid ▸ nodes_putNode view id' node.ranges changed).symm
      · rw [hs.boundaryNodes, changeNode_of_some hnode, hchanged]
        rfl

theorem Staged.updateRelationship (h : store.Holds c) (hs : Staged store c done progress view)
    (id : Nat) {change : Relationship → Relationship}
    (htouches : ∀ r, touchesRelationship r cmd = decide (id = r))
    (hid : ∀ rel, (change rel).id = rel.id)
    (hleaving : ∀ rel, (change rel).leavingRanges = rel.leavingRanges) :
    ∃ batch staged, store.updateRelationshipStaged progress.2 id change = .ok (batch, staged) ∧
      Staged store c (done ++ [cmd]) (progress.1 ++ batch, staged)
        (view.changeRelationship id change) := by
  rw [updateRelationshipStaged, h.stagedRelationship_eq, hs.relationships, changeRelationship]
  cases hr : view.relationships id with
  | none =>
    refine ⟨_, _, rfl, hs.skip fun r rel hrecord => ?_⟩
    rw [htouches]
    refine decide_eq_false fun heq => ?_
    rw [← heq, hr] at hrecord
    cases hrecord
  | some rel =>
    have hsame : (change rel).id = id := (hid _).trans (hs.idsMatch.relationship_id hr)
    subst hsame
    have hput := hs.holds.putRelationship (change rel) (change rel).leavingRanges
    have hstaged := hs.putRelationship cmd htouches hput fun hrange => .inl hrange
    rw [putRelationship_leaving hs.leaving hr (hleaving rel)] at hstaged
    exact ⟨_, _, rfl, hstaged⟩

theorem mem_stagedIncident : r ∈ stagedIncident staged id ↔
      ∃ rel, staged.relationships.get r = some (some rel) ∧ (rel.fromId = id ∨ rel.toId = id) := by
  rw [stagedIncident, mem_filterMap]
  constructor
  · rintro ⟨⟨r', entry⟩, hmem, hfound⟩
    cases entry with
    | none => cases hfound
    | some rel =>
      dsimp only at hfound
      split at hfound
      · next hend =>
        cases hfound
        exact ⟨rel, mem_toList.mp hmem, hend⟩
      · cases hfound
  · rintro ⟨rel, hget, hend⟩
    exact ⟨(r, some rel), mem_toList.mpr hget, if_pos hend⟩

/-- The relationships that a batch deletes with a node. -/
theorem Holds.mem_listedAt_staged (h : store.Holds c) (staged : StagedBatchState) (id : Nat) :
    { r | r ∈ sortedIds (store.scanIds (.index (.outgoing id)) ++
      store.scanIds (.index (.incoming id)) ++ stagedIncident staged id) } =
      c.listedAt id ∪ { r | r ∈ stagedIncident staged id } := by
  refine Set.ext fun r => ?_
  rw [Set.mem_ofPred_eq, mem_sortedIds, mem_append, mem_append, h.mem_scanIds_index,
    h.mem_scanIds_index]
  rfl

theorem Staged.deleteNode (h : store.Holds c) (hs : Staged store c done progress view) (id : Nat) :
    ∃ batch staged, store.deleteNodeStaged progress.2 id = .ok (batch, staged) ∧
      Staged store c (done ++ [.deleteNode id]) (progress.1 ++ batch, staged)
        (nextView c progress.2 view (.deleteNode id)) := by
  rw [deleteNodeStaged, h.stagedNode_eq, hs.nodes]
  cases hnode : view.nodes id with
  | none =>
    rw [nextView, Contents.dropNode, hnode]
    exact ⟨_, _, rfl, hs.skip fun _ _ _ => rfl⟩
  | some node =>
    obtain ⟨staged, hloop, hdrop⟩ := deleteRelationshipsStaged_eq h
      (nodup_sortedIds (store.scanIds (.index (.outgoing id)) ++
        store.scanIds (.index (.incoming id)) ++ stagedIncident progress.2 id))
      fun r _ => hs.relationships r
    have hdropped := hs.dropNode hnode hdrop
    rw [h.mem_listedAt_staged] at hdropped
    refine ⟨_, _, ?_, hdropped⟩
    exact exceptBind_ok_iff.mpr ⟨some node, rfl, exceptBind_ok_iff.mpr ⟨_, hloop, rfl⟩⟩

/-- One command of a batch. -/
theorem Staged.step (h : store.Holds c) (hs : Staged store c done progress view) (cmd : Command) :
    ∃ batch staged, store.applyIntoBatch progress.2 cmd = .ok (batch, staged) ∧
      Staged store c (done ++ [cmd]) (progress.1 ++ batch, staged)
        (nextView c progress.2 view cmd) := by
  cases cmd with
  | createNode id labels props =>
    refine ⟨_, _, rfl, hs.frame (fun r => exists_touches_append rfl)
      (hs.holds.putNode [] ⟨id, labels, props⟩) (hs.idsMatch.putNode _ _)
      (sameRelationshipsIn_putNode (forall_mem_nil _) _)
      (fun id' => ?_) hs.boundaryNodes rfl⟩
    rw [getD_insert, hs.nodes]
    exact (nodes_putNode view id' [] ⟨id, labels, props⟩).symm
  | createRelationship id fromId toId relType props =>
    refine ⟨_, _, ?_, hs.putRelationship _ (fun r => rfl)
      (hs.holds.createRelationship ⟨id, fromId, toId, relType, props⟩)
      fun hrange => .inl (mem_append_left _ hrange)⟩
    rw [applyIntoBatch, h.stagedNode_eq, hs.nodes]
    rfl
  | upsertBoundaryNode id ownerShard labels props version =>
    have hbatch : store.applyIntoBatch progress.2
        (.upsertBoundaryNode id ownerShard labels props version) =
          .ok (putBoundaryNodeIntoBatch (view.boundaryNodes id)
            ⟨id, ownerShard, labels, props, version⟩, { progress.2 with
              boundaryNodes := progress.2.boundaryNodes.insert id
                (some ⟨id, ownerShard, labels, props, version⟩) }) := by
      rw [applyIntoBatch, h.stagedBoundaryNode_eq, hs.boundaryNodes]
      rfl
    refine ⟨_, _, hbatch, hs.frame (fun r => exists_touches_append rfl)
      (hs.holds.putBoundaryNodeIntoBatch hs.idsMatch
        ⟨id, ownerShard, labels, props, version⟩) (hs.idsMatch.putBoundaryNode _ _)
      (sameRelationshipsIn_putBoundaryNode _) hs.nodes (fun id' => ?_) rfl⟩
    rw [getD_insert, hs.boundaryNodes]
    exact (boundaryNodes_putBoundaryNode view id' (view.boundaryNodeRangesAt id)
      ⟨id, ownerShard, labels, props, version⟩).symm
  | setNodeProperty id =>
    exact hs.updateNode h (fun _ => rfl) id PropertyGraph.withProperty_id
  | removeNodeProperty id =>
    exact hs.updateNode h (fun _ => rfl) id PropertyGraph.withoutProperty_id
  | addNodeLabel id => exact hs.updateNode h (fun _ => rfl) id PropertyGraph.withLabel_id
  | removeNodeLabel id =>
    exact hs.updateNode h (fun _ => rfl) id PropertyGraph.withoutLabel_id
  | setRelationshipProperty id | removeRelationshipProperty id =>
    exact hs.updateRelationship h id (fun _ => rfl) (fun _ => rfl) fun _ => rfl
  | deleteRelationship id =>
    obtain ⟨staged, hone, hdrop⟩ := deleteRelationshipStaged_eq h (hs.relationships id)
    have hdropped := hs.dropRelationships (.deleteRelationship id) (fun _ => rfl) hdrop
    simp only [mem_singleton] at hdropped
    exact ⟨_, _, hone, hdropped⟩
  | deleteNode id => exact hs.deleteNode h id
  | clusterConfigChange =>
    exact ⟨_, _, rfl, hs.skip fun _ _ _ => rfl⟩

/-! ## A batch and the same commands one by one -/

theorem staged_run (h : store.Holds c) (hids : c.IdsMatch) (hleaving : c.LeavingListed)
    (cmds : List Command) :
    ∃ progress view, cmds.foldlM store.stage ([], .new) = .ok progress ∧
      Staged store c cmds progress view := by
  induction cmds using reverseRecOn with
  | nil => exact ⟨_, c, rfl, staged_new h hids hleaving⟩
  | append_singleton cmds cmd ih =>
    obtain ⟨progress, view, hrun, hs⟩ := ih
    obtain ⟨batch, staged, hok, hs'⟩ := hs.step h cmd
    exact ⟨_, _, exceptFoldlM_concat hrun (stage_of_ok hok), hs'⟩

variable {commands : List Command}

theorem applyBatch_eq (hrun : commands.foldlM store.stage ([], .new) = .ok progress) :
    store.applyBatch commands = .ok (store.writeBatch progress.1) := by
  rw [applyBatch, hrun]
  rfl

/-- The batch and the sequence both succeed, with the same contents. -/
def BatchMatches (store : KvGraphStore) (commands : List Command) : Prop :=
  ∃ s s', store.applyAll commands = .ok s ∧ store.applyBatch commands = .ok s' ∧ SameContents s s'

theorem batchMatches_iff (h : store.Holds c) (hids : c.IdsMatch)
    (hrun : commands.foldlM store.stage ([], .new) = .ok progress)
    (hs : Staged store c commands progress view) :
    store.BatchMatches commands ↔ commands.foldl Contents.apply c = view := by
  obtain ⟨s, hall, hsequence⟩ := h.applyAll hids commands
  rw [← hsequence.sameContents_iff hs.holds]
  constructor
  · rintro ⟨s₁, s₂, h₁, h₂, hsame⟩
    rw [hall] at h₁
    rw [applyBatch_eq hrun] at h₂
    cases h₁
    cases h₂
    exact hsame
  · exact fun hsame => ⟨s, _, hall, applyBatch_eq hrun, hsame⟩

/-- The store lists the relationship at the node. -/
def ListsAt (store : KvGraphStore) (nodeId r : Nat) : Prop :=
  r ∈ store.scanIds (.index (.outgoing nodeId)) ∨ r ∈ store.scanIds (.index (.incoming nodeId))

theorem Holds.listsAt_iff (h : store.Holds c) {nodeId : Nat} :
    store.ListsAt nodeId r ↔ r ∈ c.listedAt nodeId :=
  or_congr h.mem_scanIds_index h.mem_scanIds_index

/-- Before the deletion of a node that `s` stores: a stored relationship that the commands
so far created or changed is listed at the node exactly if the store before the commands
lists it there, or it leaves or enters the node. -/
def DeletionAgrees (store s : KvGraphStore) (done : List Command) (id : Nat) : Prop :=
  ∀ node, s.node id = .ok (some node) →
    ∀ r relationship, s.relationship r = .ok (some relationship) →
    (∃ command ∈ done, touchesRelationship r command) →
      (s.ListsAt id r ↔ store.ListsAt id r ∨ relationship.fromId = id ∨ relationship.toId = id)

/-- A stored relationship is deleted with the node by the batch and by the sequence. -/
theorem Staged.mem_iff (hs : Staged store c done progress view) {rel : Relationship}
    (hr : view.relationships r = some rel) :
    (r ∈ view.listedAt id ↔ r ∈ c.listedAt id ∪ { r | r ∈ stagedIncident progress.2 id }) ↔
      ((∃ cmd ∈ done, touchesRelationship r cmd) →
        (r ∈ view.listedAt id ↔ r ∈ c.listedAt id ∨ rel.fromId = id ∨ rel.toId = id)) := by
  have htouched := hs.touched r rel hr
  rw [Set.mem_union, Set.mem_ofPred_eq, mem_stagedIncident, ← htouched]
  have hread := hs.relationships r
  cases hstaged : progress.2.relationships.get r with
  | none =>
    -- not staged: the entries are those of the store
    have hidx := hs.unstaged r hstaged
    have hlisted : r ∈ view.listedAt id ↔ r ∈ c.listedAt id := or_congr (hidx _ rfl) (hidx _ rfl)
    simp [hlisted]
  | some =>
    rw [hstaged, hr, Option.getD_some] at hread
    simp [hread]

/-- A command leads the view of a batch and the store to the same contents, unless it
deletes a node. -/
theorem Staged.apply_eq_nextView_iff {s : KvGraphStore} (h : store.Holds c)
    (hs : Staged store c done progress view) (hview : s.Holds view) (cmd : Command) :
    view.apply cmd = nextView c progress.2 view cmd ↔
      ∀ id, cmd = .deleteNode id → DeletionAgrees store s done id := by
  cases cmd with
  | deleteNode id =>
    rw [nextView, Contents.apply]
    have hcond : (∀ id', Command.deleteNode id = .deleteNode id' →
        DeletionAgrees store s done id') ↔ DeletionAgrees store s done id :=
      ⟨fun hall => hall id rfl, fun hagrees id' heq => by cases heq; exact hagrees⟩
    rw [hcond, DeletionAgrees]
    simp only [hview.node_eq, hview.relationship_eq, hview.listsAt_iff, h.listsAt_iff,
      Except.ok.injEq]
    cases hnode : view.nodes id with
    | none => simp [Contents.dropNode, hnode]
    | some node =>
      rw [dropNode_eq_iff hnode]
      constructor
      · intro hmem node' _ r rel hr
        exact (hs.mem_iff hr).mp (hmem r rel hr)
      · intro hmem r rel hr
        exact (hs.mem_iff hr).mpr (hmem node rfl r rel hr)
  | _ => exact iff_of_true rfl fun _ heq => by cases heq

/-- A batch leaves the same contents as its commands one by one, for every prefix of the
commands, exactly if at each deletion of a stored node the relationships that the
commands before it touched are listed at the node where the batch looks for them. -/
theorem applyBatch_eq_applyAll_iff (history commands : List Command) :
    ∃ store, new.applyAll history = .ok store ∧
      ((∀ done, done <+: commands → store.BatchMatches done) ↔
        ∀ done command, done ++ [command] <+: commands → ∀ id, command = .deleteNode id →
          ∀ s, store.applyAll done = .ok s → DeletionAgrees store s done id) := by
  obtain ⟨store, hhistory, h⟩ := new_holds.applyAll idsMatch_empty history
  have hids := idsMatch_empty.applyAll history
  have hleaving := Contents.leavingListed_empty.applyAll Contents.idsMatch_empty history
  refine ⟨store, hhistory, forall_isPrefix_iff ?_ fun done command _ hearlier => ?_⟩
  · exact ⟨store, store, rfl, rfl, fun _ => rfl⟩
  · obtain ⟨progress, view, hrun, hs⟩ := staged_run h hids hleaving done
    obtain ⟨batch, staged, hok, hs'⟩ := hs.step h command
    have hrun' := exceptFoldlM_concat hrun (stage_of_ok hok)
    have hview := (batchMatches_iff h hids hrun hs).mp (hearlier done prefix_rfl)
    obtain ⟨s, hall, hsequence⟩ := h.applyAll hids done
    rw [hview] at hsequence
    rw [batchMatches_iff h hids hrun' hs', foldl_concat, hview,
      hs.apply_eq_nextView_iff h hsequence]
    constructor
    · intro hagrees id heq s' hs'
      rw [hall] at hs'
      cases hs'
      exact hagrees id heq
    · exact fun hagrees id heq => hagrees id heq s hall

/-- A node is created that a staged relationship enters, and deleted again: the sequence
keeps the relationship and the batch deletes it. -/
theorem batch_deletes_unlisted_relationship :
    ∃ s s', new.applyAll [.upsertBoundaryNode 5 1 [] [] 1, .createNode 1 [] [],
        .createRelationship 0 1 5 "KNOWS" [], .createNode 5 [] [], .deleteNode 5] = .ok s ∧
      new.applyBatch [.upsertBoundaryNode 5 1 [] [] 1, .createNode 1 [] [],
        .createRelationship 0 1 5 "KNOWS" [], .createNode 5 [] [], .deleteNode 5] = .ok s' ∧
      s.relationship 0 = .ok (some ⟨0, 1, 5, "KNOWS", []⟩) ∧ s'.relationship 0 = .ok none ∧
      ¬SameContents s s' := by
  refine ⟨_, _, rfl, rfl, rfl, rfl, fun hsame => ?_⟩
  have hkey := hsame (relationshipKey 0)
  cases hkey

end KvGraphStore

end Neo4r.Storage
