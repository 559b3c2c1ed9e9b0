/-
  `Storage.NodeView`: what commands do to the nodes of a store.

  A node is written by the commands on its identifier and by no others, so what a list of
  commands leaves of it is a fold over the list.  That is the same for a batch as for its
  commands one by one, and the same in a partition as in the whole store.  The index lists
  every node under all its ranges, whatever the commands are.
-/
import Neo4r.Storage.BatchApply

set_option autoImplicit false

namespace Neo4r.Storage

open Foundation Contents PropertyGraph

/-! ## One node -/

/-- The node that a command writes or deletes. -/
def nodeOf : Command → Option Nat
  | .createNode id _ _ | .setNodeProperty id _ _ | .removeNodeProperty id _ | .addNodeLabel id _
  | .removeNodeLabel id _ | .deleteNode id => some id
  | _ => none

/-- What a command makes of its node. -/
def rewriteNode (node : Option Node) : Command → Option Node
  | .createNode id labels properties => some ⟨id, labels, properties⟩
  | .setNodeProperty _ key value => node.map fun node => node.withProperty key value
  | .removeNodeProperty _ key => node.map fun node => node.withoutProperty key
  | .addNodeLabel _ label => node.map fun node => (node.withLabel label).getD node
  | .removeNodeLabel _ label => node.map fun node => (node.withoutLabel label).getD node
  | .deleteNode _ => none
  | _ => node

/-- What a command makes of the node under an identifier. -/
def nodeAfter (id : Nat) (node : Option Node) (command : Command) : Option Node :=
  if nodeOf command = some id then rewriteNode node command else node

/-- What commands make of the node under an identifier. -/
def nodeAfterAll (id : Nat) (node : Option Node) (commands : List Command) : Option Node :=
  commands.foldl (nodeAfter id) node

theorem nodeAfterAll_concat (id : Nat) (node : Option Node) (cmds : List Command)
    (command : Command) : nodeAfterAll id node (cmds ++ [command]) =
      nodeAfter id (nodeAfterAll id node cmds) command := by
  rw [nodeAfterAll, List.foldl_concat, nodeAfterAll]

variable {id : Nat}

theorem nodeAfterAll_cons_of_ne {cmd : Command} (h : nodeOf cmd ≠ some id)
    (node : Option Node) (commands : List Command) :
    nodeAfterAll id node (cmd :: commands) = nodeAfterAll id node commands := by
  rw [nodeAfterAll, List.foldl_cons, nodeAfter, if_neg h, nodeAfterAll]

/-- Commands on other nodes do nothing. -/
theorem nodeAfterAll_of_forall_ne {cmds : List Command}
    (h : ∀ cmd ∈ cmds, nodeOf cmd ≠ some id) (node : Option Node) :
    nodeAfterAll id node cmds = node := by
  induction cmds with
  | nil => rfl
  | cons cmd cmds ih =>
    rw [nodeAfterAll_cons_of_ne (h cmd List.mem_cons_self)]
    exact ih fun command' hmem => h command' (.tail _ hmem)

/-- Commands on other nodes may be left out. -/
theorem nodeAfterAll_filter {α : Type} {commandOf : α → Command} {keep : α → Bool}
    {entries : List α}
    (h : ∀ entry ∈ entries, nodeOf (commandOf entry) = some id → keep entry = true)
    (node : Option Node) : nodeAfterAll id node ((entries.filter keep).map commandOf) =
      nodeAfterAll id node (entries.map commandOf) := by
  induction entries generalizing node with
  | nil => rfl
  | cons entry entries ih =>
    have hrest := ih fun entry' hmem => h entry' (.tail _ hmem)
    rw [List.filter_cons, List.map_cons]
    split
    · exact hrest _
    · next hkeep =>
      rw [nodeAfterAll_cons_of_ne fun heq => hkeep (h entry List.mem_cons_self heq)]
      exact hrest node

/-! ## The nodes of contents -/

namespace Contents

variable {c : Contents}

theorem nodes_changeNode (hids : c.IdsMatch) (id id' : Nat) {change : Node → Option Node}
    (hchange : ∀ {node node'}, change node = some node' → node'.id = node.id) :
    (c.changeNode id change).nodes id' =
      if id' = id then (c.nodes id).map fun node => (change node).getD node else c.nodes id' := by
  cases hnode : c.nodes id with
  | none =>
    rw [changeNode_of_none hnode]
    split
    · next heq => rw [heq, hnode, Option.map_none]
    · rfl
  | some node =>
    rw [changeNode_of_some hnode, Option.map_some]
    cases hchanged : change node with
    | none =>
      change c.nodes id' = _
      split
      · next heq => rw [heq, hnode, Option.getD_none]
      · rfl
    | some changed =>
      have hid : changed.id = id := (hchange hchanged).trans (hids.node_id hnode)
      exact hid ▸ nodes_putNode c id' node.ranges changed

theorem nodes_dropNode (hids : c.IdsMatch) (id id' : Nat) (ids : Set Nat) :
    (c.dropNode id ids).nodes id' = if id' = id then none else c.nodes id' := by
  rw [dropNode]
  cases hnode : c.nodes id with
  | none =>
    change c.nodes id' = _
    split
    · next heq => rw [heq, hnode]
    · rfl
  | some node => exact hids.node_id hnode ▸ nodes_eraseNode (c.dropRelationships ids) id' node

theorem nodes_changeRelationship (id : Nat) (change : Relationship → Relationship) :
    (c.changeRelationship id change).nodes = c.nodes := by
  rw [changeRelationship]
  split <;> rfl

/-- A command writes its own node. -/
theorem nodes_apply (hids : c.IdsMatch) (command : Command) (id : Nat) :
    (c.apply command).nodes id = nodeAfter id (c.nodes id) command := by
  have hif (id' : Nat) (f : Option Node → Option Node) :
      (if id = id' then f (c.nodes id') else c.nodes id) =
        if some id' = some id then f (c.nodes id) else c.nodes id := by
    by_cases h : id = id'
    · rw [if_pos h, if_pos (h ▸ rfl), h]
    · rw [if_neg h, if_neg fun heq => h (Option.some.inj heq).symm]
  cases command with
  | createNode id' labels props =>
    exact (nodes_putNode c id [] ⟨id', labels, props⟩).trans
      (hif id' fun _ => some ⟨id', labels, props⟩)
  | setNodeProperty id' =>
    exact (nodes_changeNode hids id' id withProperty_id).trans (hif id' _)
  | removeNodeProperty id' =>
    exact (nodes_changeNode hids id' id withoutProperty_id).trans (hif id' _)
  | addNodeLabel id' =>
    exact (nodes_changeNode hids id' id withLabel_id).trans (hif id' _)
  | removeNodeLabel id' =>
    exact (nodes_changeNode hids id' id withoutLabel_id).trans (hif id' _)
  | setRelationshipProperty id' key value =>
    exact congrFun (nodes_changeRelationship id' fun r => r.withProperty key value) id
  | removeRelationshipProperty id' key =>
    exact congrFun (nodes_changeRelationship id' fun r => r.withoutProperty key) id
  | deleteNode id' =>
    exact (nodes_dropNode hids id' id _).trans (hif id' fun _ => none)
  | _ => rfl

/-! ## Nodes are listed -/

/-- Every node is listed under all its ranges. -/
def NodesListed (c : Contents) : Prop :=
  ∀ id node, c.nodes id = some node → ∀ range ∈ node.ranges, id ∈ c.index range

theorem nodesListed_empty : empty.NodesListed := fun _ _ h => nomatch h

section

variable (h : c.NodesListed)

include h

/-- The nodes stay, and so do the entries of their kind. -/
theorem NodesListed.congr {c' : Contents} (hnodes : c'.nodes = c.nodes)
    (hidx : ∀ {range}, range.kind = .node → ∀ id, id ∈ c.index range → id ∈ c'.index range) :
    c'.NodesListed := by
  intro id node hnode range hrange
  rw [hnodes] at hnode
  exact hidx (kind_of_mem_nodeRanges hrange) id (h id node hnode range hrange)

theorem NodesListed.putNode (old : List IndexRange) (node : Node) :
    (c.putNode old node).NodesListed := by
  intro id node' hnode range hrange
  rw [nodes_putNode] at hnode
  refine mem_reindex.mpr ?_
  split at hnode
  · next heq =>
    cases hnode
    exact .inr ⟨heq, hrange⟩
  · next hne => exact .inl ⟨h id node' hnode range hrange, fun heq => hne heq.1⟩

theorem NodesListed.eraseNode (node : Node) : (c.eraseNode node).NodesListed := by
  intro id node' hnode range hrange
  rw [nodes_eraseNode] at hnode
  split at hnode
  · cases hnode
  · next hne => exact mem_reindex.mpr (.inl ⟨h id node' hnode range hrange, fun heq => hne heq.1⟩)

theorem NodesListed.dropRelationships (ids : Set Nat) : (c.dropRelationships ids).NodesListed := by
  refine h.congr rfl fun {range} hkind id hid => ⟨hid, fun hentry => ?_⟩
  exact absurd (hkind.symm.trans hentry.2.kind) (by decide)

theorem NodesListed.dropNode (id : Nat) (ids : Set Nat) :
    (c.dropNode id ids).NodesListed :=
  dropNode_induction h (h.dropRelationships ids).eraseNode

theorem NodesListed.putRelationship (rel : Relationship)
    (new : List IndexRange) : (c.putRelationship rel new).NodesListed :=
  h.congr rfl fun _ _ hid => mem_reindex.mpr (.inl ⟨hid, fun hold => nomatch hold.2⟩)

theorem NodesListed.putBoundaryNode {old : List IndexRange}
    (hold : ∀ range ∈ old, range.kind ≠ .node) (node : BoundaryNode) :
    (c.putBoundaryNode old node).NodesListed :=
  h.congr rfl fun {range} hkind _ hid =>
    mem_reindex.mpr (.inl ⟨hid, fun hmem => hold range hmem.2 hkind⟩)

theorem NodesListed.apply (cmd : Command) : (c.apply cmd).NodesListed := by
  refine apply_induction h (fun old node _ => h.putNode old node) (fun node => ?_)
    ⟨fun r _ => h.putRelationship r _, fun _ _ new _ _ => h.putRelationship new [],
      fun ids _ => h.dropRelationships ids⟩ fun _ node hdropped => hdropped.eraseNode node
  refine h.putBoundaryNode (fun range hrange => ?_) node
  rw [boundaryNodeRangesAt] at hrange
  obtain ⟨node', -, hmem⟩ :
    ∃ node', c.boundaryNodes node.id = some node' ∧ range ∈ node'.ranges := by
    cases hnode : c.boundaryNodes node.id with
    | none => rw [hnode] at hrange; cases hrange
    | some node' => rw [hnode] at hrange; exact ⟨node', rfl, hrange⟩
  rw [kind_of_mem_boundaryNodeRanges hmem]
  decide

end

end Contents

/-! ## The nodes of a store -/

namespace KvGraphStore

/-- The store holds contents that commands can have led to. -/
structure Sound (store : KvGraphStore) (c : Contents) : Prop where
  holds : store.Holds c
  idsMatch : c.IdsMatch
  leaving : c.LeavingListed
  listed : c.NodesListed

theorem new_sound : new.Sound .empty where
  holds := new_holds
  idsMatch := idsMatch_empty
  leaving := leavingListed_empty
  listed := nodesListed_empty

variable {store : KvGraphStore} {c : Contents}

theorem Sound.apply (h : store.Sound c) (cmd : Command) :
    ∃ store', store.apply cmd = .ok store' ∧ store'.Sound (c.apply cmd) := by
  obtain ⟨store', hok, hholds⟩ := h.holds.apply h.idsMatch cmd
  exact ⟨store', hok, hholds, h.idsMatch.apply cmd, h.leaving.apply h.idsMatch cmd,
    h.listed.apply cmd⟩

/-- A command moves the view of a batch as it moves contents, or takes a node out. -/
theorem nextView_cases (staged : StagedBatchState) (view : Contents) (cmd : Command) :
    nextView c staged view cmd = view.apply cmd ∨
      ∃ id ids, cmd = .deleteNode id ∧ nextView c staged view cmd = view.dropNode id ids := by
  cases cmd with
  | deleteNode id => exact .inr ⟨id, _, rfl, rfl⟩
  | _ => exact .inl rfl

variable {staged : StagedBatchState} {view : Contents}

theorem nodes_nextView (hids : view.IdsMatch) (command : Command) (id : Nat) :
    (nextView c staged view command).nodes id = nodeAfter id (view.nodes id) command := by
  rw [← nodes_apply hids]
  rcases nextView_cases staged view command with heq | ⟨id', ids, rfl, heq⟩
  · rw [heq]
  · rw [heq, Contents.apply, Contents.nodes_dropNode hids, Contents.nodes_dropNode hids]

theorem nodesListed_nextView (h : view.NodesListed) (cmd : Command) :
    (nextView c staged view cmd).NodesListed := by
  rcases nextView_cases staged view cmd with heq | ⟨id, ids, -, heq⟩
  · exact heq ▸ h.apply cmd
  · exact heq ▸ h.dropNode id ids

/-- What a batch has come to is an invariant of its commands. -/
theorem Sound.applyBatch_of (h : store.Sound c) {P : List Command → Contents → Prop} (hc : P [] c)
    {commands : List Command}
    (hstep : ∀ {done cmd view staged}, done ++ [cmd] <+: commands → view.IdsMatch → P done view →
      P (done ++ [cmd]) (nextView c staged view cmd)) :
    ∃ store' c', store.applyBatch commands = .ok store' ∧ store'.Sound c' ∧ P commands c' := by
  have hrun : ∀ done, done <+: commands → ∃ progress view,
      done.foldlM store.stage ([], .new) = .ok progress ∧ Staged store c done progress view ∧
        view.NodesListed ∧ P done view := by
    intro done
    induction done using List.reverseRecOn with
    | nil => exact fun _ => ⟨_, c, rfl, staged_new h.holds h.idsMatch h.leaving, h.listed, hc⟩
    | append_singleton done cmd ih =>
      intro hdone
      obtain ⟨progress, view, hrun, hs, hlisted, hview⟩ := ih ((List.prefix_append _ _).trans hdone)
      obtain ⟨batch, staged, hok, hs'⟩ := hs.step h.holds cmd
      exact ⟨_, _, exceptFoldlM_concat hrun (stage_of_ok hok), hs', nodesListed_nextView hlisted _,
        hstep hdone hs.idsMatch hview⟩
  obtain ⟨progress, view, hrun, hs, hlisted, hview⟩ := hrun commands List.prefix_rfl
  exact ⟨_, view, applyBatch_eq hrun, ⟨hs.holds, hs.idsMatch, hs.leaving, hlisted⟩, hview⟩

end KvGraphStore

end Neo4r.Storage
