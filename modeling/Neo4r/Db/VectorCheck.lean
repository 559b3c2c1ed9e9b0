/-
  `Db.VectorCheck`: which commands of a batch pass the vector check of a replica
  (`validate_replicated_vector_indexes_for_command`).

  The check of a command reads the nodes as the commands before it in the batch leave them,
  from an overlay over the store.  The overlay is `nodeAfterAll` of these commands, so a
  command passes exactly if the node it writes, after them, fits the vector indexes.
-/
import Neo4r.Db.GraphIndexes
import Neo4r.Storage.NodeView

set_option autoImplicit false

namespace Neo4r.Db

open Foundation Storage

/-- Every property of the node that a vector index is on is a vector of its dimensions. -/
def Fits (indexes : List IndexDefinition) (node : Node) : Prop :=
  ∀ index ∈ indexes, ∀ dimensions metric, vectorDefinitionParts index = some (dimensions, metric) →
    index.label ∈ node.labels →
      ∀ value, Properties.get node.properties index.property = some value →
      ∃ vector, value = .vector vector ∧ vector.length = dimensions

namespace IndexedGraph

theorem validateVectorIndexedPropertyValue_ok_iff {index : IndexDefinition}
    {props : Properties} {dimensions : Nat} :
    validateVectorIndexedPropertyValue index props dimensions = .ok () ↔
      ∀ value, props.get index.property = some value →
        ∃ vector, value = .vector vector ∧ vector.length = dimensions := by
  unfold validateVectorIndexedPropertyValue
  cases hget : props.get index.property with
  | none => exact iff_of_true rfl nofun
  | some value =>
    have hforall (P : Value → Prop) : (∀ value', some value = some value' → P value') ↔ P value :=
      ⟨fun h => h value rfl, fun h value' heq => Option.some.inj heq ▸ h⟩
    rw [hforall]
    cases value with
    | vector vector =>
      dsimp only
      split
      · next hne =>
        refine iff_of_false nofun ?_
        rintro ⟨vector', heq, hlen⟩
        cases heq
        exact hne hlen
      · next heq => exact iff_of_true rfl ⟨vector, rfl, not_not.mp heq⟩
    | _ => exact iff_of_false nofun (by rintro ⟨vector, heq, -⟩; cases heq)

theorem validateVectorIndexedProperties_ok_iff {indexes : List IndexDefinition} {node : Node} :
    validateVectorIndexedProperties indexes node.labels node.properties = .ok () ↔
      Fits indexes node := by
  unfold validateVectorIndexedProperties
  rw [exceptForM_ok_iff]
  refine forall₂_congr fun index _ => ?_
  cases hparts : vectorDefinitionParts index with
  | none => exact iff_of_true rfl nofun
  | some parts =>
    have hforall (P : Nat → Prop) : (∀ dimensions metric, some parts = some (dimensions, metric) →
        P dimensions) ↔ P parts.1 :=
      ⟨fun h => h parts.1 parts.2 rfl, fun h dimensions metric heq => by cases heq; exact h⟩
    rw [hforall]
    dsimp only
    split
    · next hlabel =>
      rw [validateVectorIndexedPropertyValue_ok_iff]
      exact ⟨fun h _ => h, fun h => h hlabel⟩
    · next hlabel => exact iff_of_true rfl fun h => absurd h hlabel

/-! ## Overlays -/

/-- The commands that a replica checks. -/
def checksVectors : Command → Bool
  | .createNode _ _ _ | .setNodeProperty _ _ _ | .addNodeLabel _ _ => true
  | _ => false

/-- The node that the command writes fits the indexes, after the commands before it. -/
def CommandFits (indexes : List IndexDefinition) (nodes : Nat → Option Node)
    (done : List Command) (command : Command) : Prop :=
  checksVectors command = true → ∀ id node, nodeOf command = some id →
    nodeAfterAll id (nodes id) (done ++ [command]) = some node → Fits indexes node

/-- The overlay has what the commands have made of the nodes. -/
def Overlays (nodes : Nat → Option Node) (overlay : NodeOverlay) (done : List Command) : Prop :=
  ∀ id, (overlay.get id).getD (nodes id) = nodeAfterAll id (nodes id) done

variable {graph : IndexedGraph} {nodes : Nat → Option Node} {overlay : NodeOverlay}
  {done : List Command}

theorem overlays_empty (nodes : Nat → Option Node) : Overlays nodes .empty [] := by
  intro id
  rfl

theorem Overlays.overlayNode_eq (h : Overlays nodes overlay done)
    (hread : ∀ id, graph.node id = .ok (nodes id)) (id : Nat) :
    graph.overlayNode overlay id = .ok (nodeAfterAll id (nodes id) done) := by
  rw [overlayNode, ← h id]
  cases overlay.get id with
  | none => exact hread id
  | some => rfl

/-- The overlay takes what a command makes of its node. -/
theorem Overlays.insert (h : Overlays nodes overlay done) {cmd : Command} {id : Nat}
    (hid : nodeOf cmd = some id) {node : Option Node}
    (hnode : rewriteNode (nodeAfterAll id (nodes id) done) cmd = node) :
    Overlays nodes (overlay.insert id node) (done ++ [cmd]) := by
  intro id'
  rw [FiniteMap.get_insert, nodeAfterAll_concat, nodeAfter]
  by_cases heq : id' = id
  · subst heq
    rw [if_pos rfl, if_pos hid, hnode]
    rfl
  · rw [if_neg heq, if_neg fun hid' => heq (Option.some.inj (hid'.symm.trans hid))]
    exact h id'

variable {command : Command} {indexes : List IndexDefinition}

/-- Nothing is made of a node that is not there, or by a command on no node. -/
theorem Overlays.skip (h : Overlays nodes overlay done)
    (hskip : ∀ id, nodeOf command = some id →
      rewriteNode (nodeAfterAll id (nodes id) done) command = nodeAfterAll id (nodes id) done) :
    Overlays nodes overlay (done ++ [command]) := by
  intro id
  rw [h id, nodeAfterAll_concat, nodeAfter]
  split
  · next hid => exact (hskip id hid).symm
  · rfl

/-- The check of a command after others says what it should: it passes exactly if the node
that the command writes fits, and then the overlay goes along. -/
structure StepsTo (indexes : List IndexDefinition) (nodes : Nat → Option Node)
    (done : List Command) (command : Command) (result : Except DatabaseError NodeOverlay) :
    Prop where
  passes : CommandFits indexes nodes done command → ∃ overlay', result = .ok overlay'
  fits : ∀ overlay', result = .ok overlay' → CommandFits indexes nodes done command
  overlays : ∀ overlay', result = .ok overlay' → Overlays nodes overlay' (done ++ [command])

/-- A command that has nothing to check. -/
theorem stepsTo_ok {overlay' : NodeOverlay} (hfits : CommandFits indexes nodes done command)
    (h : Overlays nodes overlay' (done ++ [command])) :
    StepsTo indexes nodes done command (.ok overlay') where
  passes _ := ⟨overlay', rfl⟩
  fits _ _ := hfits
  overlays _ heq := by cases heq; exact h

theorem commandFits_of_unchecked (hchecks : checksVectors command = false) :
    CommandFits indexes nodes done command :=
  fun hchecks' => absurd (hchecks.symm.trans hchecks') Bool.false_ne_true

variable {id : Nat}

section

variable (h : Overlays nodes overlay done)

include h

/-- A command on a node that is not there, and that does not make it. -/
theorem Overlays.stepsTo_missing (hid : nodeOf command = some id)
    (hnode : nodeAfterAll id (nodes id) done = none) (hrewrite : rewriteNode none command = none) :
    StepsTo indexes nodes done command (.ok overlay) := by
  refine stepsTo_ok (fun _ id' node hid' hafter => ?_) (h.skip fun id' hid' => ?_)
  · cases hid.symm.trans hid'
    rw [nodeAfterAll_concat, nodeAfter, if_pos hid, hnode, hrewrite] at hafter
    cases hafter
  · cases hid.symm.trans hid'
    rw [hnode, hrewrite]

/-- A command that is checked, on the node it writes. -/
theorem Overlays.stepsTo_check (hid : nodeOf command = some id)
    (hchecks : checksVectors command = true) {node : Node}
    (hnode : rewriteNode (nodeAfterAll id (nodes id) done) command = some node) :
    StepsTo indexes nodes done command (do
      validateVectorIndexedProperties indexes node.labels node.properties
      pure (overlay.insert id (some node))) := by
  have hafter : nodeAfterAll id (nodes id) (done ++ [command]) = some node := by
    rw [nodeAfterAll_concat, nodeAfter, if_pos hid, hnode]
  have hfits : CommandFits indexes nodes done command ↔ Fits indexes node := by
    constructor
    · exact fun hall => hall hchecks id node hid hafter
    · intro hnode' _ id' node' hid' hafter'
      cases hid.symm.trans hid'
      cases hafter.symm.trans hafter'
      exact hnode'
  rw [← validateVectorIndexedProperties_ok_iff] at hfits
  refine ⟨fun hcmd => ?_, fun overlay' hok => ?_, fun overlay' hok => ?_⟩
  · exact ⟨_, exceptBind_ok_iff.mpr ⟨(), hfits.mp hcmd, rfl⟩⟩
  · obtain ⟨_, hvalid, -⟩ := of_exceptBind_ok hok
    exact hfits.mpr hvalid
  · obtain ⟨_, -, heq⟩ := of_exceptBind_ok hok
    cases heq
    exact h.insert hid hnode

/-- The check of one command, a case for each kind of command. -/
theorem Overlays.step (hread : ∀ id, graph.node id = .ok (nodes id)) (command : Command) :
    StepsTo graph.indexes nodes done command
      (graph.validateReplicatedVectorIndexesForCommand overlay command) := by
  cases command with
  | createNode id labels props =>
    have hnode : rewriteNode (nodeAfterAll id (nodes id) done)
        (.createNode id labels props) = some ⟨id, labels, props⟩ := rfl
    exact h.stepsTo_check rfl rfl hnode
  | setNodeProperty id =>
    rw [validateReplicatedVectorIndexesForCommand, h.overlayNode_eq hread]
    cases hnode : nodeAfterAll id (nodes id) done with
    | none => exact h.stepsTo_missing rfl hnode rfl
    | some => exact h.stepsTo_check rfl rfl (by rw [hnode]; rfl)
  | addNodeLabel id =>
    rw [validateReplicatedVectorIndexesForCommand, h.overlayNode_eq hread]
    cases hnode : nodeAfterAll id (nodes id) done with
    | none => exact h.stepsTo_missing rfl hnode rfl
    | some =>
      refine h.stepsTo_check rfl rfl ?_
      rw [hnode, rewriteNode, Option.map_some, Node.withLabel, labelsWith]
      split <;> rfl
  | removeNodeProperty id =>
    rw [validateReplicatedVectorIndexesForCommand, h.overlayNode_eq hread]
    cases hnode : nodeAfterAll id (nodes id) done with
    | none => exact h.stepsTo_missing rfl hnode rfl
    | some =>
      exact stepsTo_ok (commandFits_of_unchecked rfl) (h.insert rfl (by rw [hnode]; rfl))
  | removeNodeLabel id label =>
    rw [validateReplicatedVectorIndexesForCommand, h.overlayNode_eq hread]
    cases hnode : nodeAfterAll id (nodes id) done with
    | none => exact h.stepsTo_missing rfl hnode rfl
    | some node =>
      refine stepsTo_ok (commandFits_of_unchecked rfl) (h.insert rfl ?_)
      rw [hnode, rewriteNode, Option.map_some, Node.withoutLabel]
      split
      · rfl
      · next hlabel =>
        -- the overlay filters the labels also where there is nothing to remove
        have hsame : (node.labels.filter fun old => old ≠ label) = node.labels :=
          List.filter_eq_self.mpr fun old hmem =>
            decide_eq_true fun heq => hlabel (heq ▸ hmem)
        rw [hsame, Option.getD_none]
  | deleteNode => exact stepsTo_ok (commandFits_of_unchecked rfl) (h.insert rfl rfl)
  | _ => exact stepsTo_ok (commandFits_of_unchecked rfl) (h.skip fun _ hid => by cases hid)

end

/-- Commands that all fit lead to an overlay. -/
theorem exists_overlay (hread : ∀ id, graph.node id = .ok (nodes id)) {commands : List Command}
    (hfits : ∀ done command, done ++ [command] <+: commands →
      CommandFits graph.indexes nodes done command) :
    ∃ overlay, commands.foldlM graph.validateReplicatedVectorIndexesForCommand .empty =
      .ok overlay ∧ Overlays nodes overlay commands := by
  induction commands using List.reverseRecOn with
  | nil => exact ⟨.empty, rfl, overlays_empty nodes⟩
  | append_singleton commands command ih =>
    obtain ⟨hlast, hearlier⟩ := forall_concat_isPrefix_concat.mp hfits
    obtain ⟨overlay, hok, hoverlays⟩ := ih hearlier
    have hstep := hoverlays.step hread command
    obtain ⟨overlay', hok'⟩ := hstep.passes hlast
    exact ⟨overlay', exceptFoldlM_concat hok hok', hstep.overlays overlay' hok'⟩

/-- The check of a command after others that have passed. -/
theorem validateReplicatedVectorIndexes_ok_iff (hread : ∀ id, graph.node id = .ok (nodes id))
    {accepted : List Command} (hfits : ∀ done command, done ++ [command] <+: accepted →
      CommandFits graph.indexes nodes done command) (command : Command) :
    graph.validateReplicatedVectorIndexes accepted command = .ok () ↔
      CommandFits graph.indexes nodes accepted command := by
  obtain ⟨overlay, hok, hoverlays⟩ := exists_overlay hread hfits
  have hstep := hoverlays.step hread command
  constructor
  · intro hvalid
    obtain ⟨_, hfold, hrest⟩ := of_exceptBind_ok hvalid
    cases hok.symm.trans hfold
    obtain ⟨overlay', hok', -⟩ := of_exceptBind_ok hrest
    exact hstep.fits overlay' hok'
  · intro hcmd
    obtain ⟨overlay', hok'⟩ := hstep.passes hcmd
    exact exceptBind_ok_iff.mpr ⟨overlay, hok, exceptBind_ok_iff.mpr ⟨overlay', hok', rfl⟩⟩

end IndexedGraph

end Neo4r.Db
