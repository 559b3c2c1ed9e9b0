/-
  `Db.DeltaCommands`: the commands that turn a stored node into the one that statements left
  (`neo4r-db/src/database/write_cypher_helpers/mutation.rs`).

  Every command takes one key or one label to where it is to be, and each that is not there
  has its command.  So their order does not matter: none undoes another.
-/
import Neo4r.Db.GraphIndexes
import Neo4r.Storage.IndexInvariant
import Neo4r.Storage.NodeView

set_option autoImplicit false

namespace Neo4r.Db

open Storage PropertyGraph List

/-- The keys of two maps, in order. -/
def deltaKeys (before after : Properties) : List String :=
  ((before ++ after).map Prod.fst).toFinset.sort (· ≤ ·)

/-- `append_property_delta_commands`. -/
def appendPropertyDeltaCommands (commands : List Command) (before after : Properties)
    (setCommand : String → Value → Command) (removeCommand : String → Command) : List Command :=
  let keys := deltaKeys before after
  let removes := keys.filterMap fun key =>
    match before.get key, after.get key with
    | some _, none => some (removeCommand key)
    | _, _ => none
  let sets := keys.filterMap fun key =>
    match after.get key with
    | some value =>
      if sameProperty (before.get key) (some value) then none else some (setCommand key value)
    | none => none
  commands ++ removes ++ sets

/-- `append_label_delta_commands`. -/
def appendLabelDeltaCommands (commands : List Command) (before after : List String)
    (addCommand removeCommand : String → Command) : List Command :=
  commands ++ ((after.toFinset \ before.toFinset).sort (· ≤ ·)).map addCommand ++
    ((before.toFinset \ after.toFinset).sort (· ≤ ·)).map removeCommand

/-- The commands for a stored node, from the node that it is to become. -/
def nodeDeltaCommands (id : Nat) (base node : Node) : List Command :=
  appendLabelDeltaCommands
    (appendPropertyDeltaCommands [] base.properties node.properties (.setNodeProperty id)
      (.removeNodeProperty id))
    base.labels node.labels (.addNodeLabel id) (.removeNodeLabel id)

variable {id : Nat} {base node : Node} {cmd : Command}

theorem mem_deltaKeys {before after : Properties} {key : String}
    (h : (before.get key).isSome ∨ (after.get key).isSome) : key ∈ deltaKeys before after := by
  simp only [Option.isSome_iff_exists] at h
  rw [deltaKeys, Finset.mem_sort, mem_toFinset, map_append, mem_append]
  refine h.imp ?_ ?_ <;>
  · rintro ⟨value, hvalue⟩
    exact mem_map_of_mem (Properties.mem_of_get hvalue)

theorem mem_nodeDeltaCommands : cmd ∈ nodeDeltaCommands id base node ↔
    (∃ key, (base.properties.get key).isSome ∧ node.properties.get key = none ∧
      .removeNodeProperty id key = cmd) ∨
    (∃ key value, node.properties.get key = some value ∧
      sameProperty (base.properties.get key) (some value) = false ∧
      .setNodeProperty id key value = cmd) ∨
    (∃ label, label ∈ node.labels ∧ label ∉ base.labels ∧ .addNodeLabel id label = cmd) ∨
    ∃ label, label ∈ base.labels ∧ label ∉ node.labels ∧ .removeNodeLabel id label = cmd := by
  simp only [nodeDeltaCommands, appendLabelDeltaCommands, appendPropertyDeltaCommands,
    mem_append, mem_filterMap, mem_map, Finset.mem_sort, Finset.mem_sdiff,
    mem_toFinset, not_mem_nil, false_or, or_assoc, and_assoc]
  refine or_congr (exists_congr fun key => ?_) (or_congr (exists_congr fun key => ?_) Iff.rfl)
  · cases hb : base.properties.get key <;> cases node.properties.get key <;> simp
    exact fun _ => mem_deltaKeys (.inl (hb ▸ rfl))
  · cases hn : node.properties.get key <;> simp
    exact fun _ _ => mem_deltaKeys (.inr (hn ▸ rfl))

/-! ## What the commands do to the node -/

/-- What a node can have: a property or a label. -/
inductive Trait
  | property (key : String)
  | label (name : String)

/-- Two nodes have the same property under a key, or both the label or neither. -/
def Trait.Same (a b : Node) : Trait → Prop
  | .property key => sameProperty (a.properties.get key) (b.properties.get key) = true
  | .label name => name ∈ a.labels ↔ name ∈ b.labels

/-- What a command sets, adds or removes. -/
def traitOf : Command → Option Trait
  | .setNodeProperty _ key _ | .removeNodeProperty _ key => some (.property key)
  | .addNodeLabel _ label | .removeNodeLabel _ label => some (.label label)
  | _ => none

/-- There is a command exactly for what is not the same. -/
theorem exists_traitOf_iff {trait : Trait} :
    (∃ cmd ∈ nodeDeltaCommands id base node, traitOf cmd = some trait) ↔ ¬trait.Same base node := by
  simp only [mem_nodeDeltaCommands, or_and_right, exists_or]
  cases trait with
  | property key =>
    simp [traitOf, Trait.Same]
    cases base.properties.get key <;> cases node.properties.get key <;> simp [sameProperty]
  | label =>
    simp [traitOf, Trait.Same]
    grind

section

variable (hfree : ∀ entry ∈ node.properties, entry.2.floatFree = true)

include hfree

theorem sameProperty_self (key : String) :
    sameProperty (node.properties.get key) (node.properties.get key) = true := by
  cases hvalue : node.properties.get key with
  | none => rfl
  | some value =>
    exact (sameProperty_iff (hfree _ (Properties.mem_of_get hvalue)) _).mpr ⟨value, rfl, rfl⟩

/-- A command takes its trait to where it is to be, and no other away from there. -/
theorem nodeAfter_of_mem (h : cmd ∈ nodeDeltaCommands id base node) (n : Node) :
    ∃ n', nodeAfter id (some n) cmd = some n' ∧ ∀ trait : Trait,
      trait.Same n node ∨ traitOf cmd = some trait → trait.Same n' node := by
  rcases mem_nodeDeltaCommands.mp h with ⟨key, -, hn, rfl⟩ | ⟨key, value, hn, -, rfl⟩ |
    ⟨label, hn, -, rfl⟩ | ⟨label, -, hn, rfl⟩
  · refine ⟨n.withoutProperty key, if_pos rfl, fun trait => ?_⟩
    cases trait with
    | property =>
      simp only [Trait.Same, traitOf, Node.withoutProperty, Properties.get_remove]
      split
      · next heq => simp [heq, hn, sameProperty]
      · next hne => simp [Ne.symm hne]
    | label => simp [Trait.Same, traitOf, Node.withoutProperty]
  · refine ⟨n.withProperty key value, if_pos rfl, fun trait => ?_⟩
    cases trait with
    | property =>
      simp only [Trait.Same, traitOf, Node.withProperty, Properties.get_insert]
      split
      · next heq => simp [heq, ← hn, sameProperty_self hfree]
      · next hne => simp [Ne.symm hne]
    | label => simp [Trait.Same, traitOf, Node.withProperty]
  · refine ⟨(n.withLabel label).getD n, if_pos rfl, fun trait => ?_⟩
    rw [Node.withLabel]
    cases trait with
    | property => split <;> simp [Trait.Same, traitOf]
    | label =>
      split <;> simp [Trait.Same, traitOf] <;> grind
  · refine ⟨(n.withoutLabel label).getD n, if_pos rfl, fun trait => ?_⟩
    rw [Node.withoutLabel]
    cases trait with
    | property => split <;> simp [Trait.Same, traitOf]
    | label =>
      split <;> simp [Trait.Same, traitOf] <;> grind

/-- Commands that bring each trait which is not yet there leave the node as it is to be. -/
theorem nodeAfterAll_of_mem {cmds : List Command}
    (hall : ∀ cmd ∈ cmds, cmd ∈ nodeDeltaCommands id base node) {n : Node}
    (hn : ∀ trait : Trait, trait.Same n node ∨ ∃ cmd ∈ cmds, traitOf cmd = some trait) :
    ∃ n', nodeAfterAll id (some n) cmds = some n' ∧ ∀ trait : Trait, trait.Same n' node := by
  induction cmds generalizing n with
  | nil => exact ⟨n, rfl, by simpa using hn⟩
  | cons cmd cmds ih =>
    obtain ⟨hcmd, hall⟩ := forall_mem_cons.mp hall
    obtain ⟨n', hn', hsame⟩ := nodeAfter_of_mem hfree hcmd n
    rw [nodeAfterAll, foldl_cons, hn']
    refine ih hall fun trait => ?_
    rcases hn trait with h | ⟨bringing, hmem, hb⟩
    · exact .inl (hsame trait (.inl h))
    · rcases mem_cons.mp hmem with rfl | hmem
      · exact .inl (hsame trait (.inr hb))
      · exact .inr ⟨bringing, hmem, hb⟩

end

/-! ## In a store -/

/-- Commands that create nothing succeed, and leave a clean index clean. -/
theorem applyAll_sound {store : KvGraphStore} {graph : PropertyGraph} {cmds : List Command}
    (hstore : store.Represents graph) (hw : graph.WellFormed)
    (hcmds : ∀ cmd ∈ cmds, (∀ graph : PropertyGraph, graph.Fresh cmd) ∧ createdNode cmd = none) :
    ∃ store', store.applyAll cmds = .ok store' ∧ (store.IndexSound → store'.IndexSound) ∧
      ∀ id, store'.node id = .ok (nodeAfterAll id (graph.nodes id) cmds) := by
  induction cmds generalizing store graph with
  | nil => exact ⟨store, rfl, fun hclean => hclean, hstore.node_eq⟩
  | cons cmd cmds ih =>
    obtain ⟨⟨hfresh, hcreated⟩, hcmds⟩ := forall_mem_cons.mp hcmds
    obtain ⟨store₁, hok, hstore₁⟩ := hstore.apply hw (hfresh graph)
    have hw₁ := hw.apply (hfresh graph)
    obtain ⟨store', hall, hclean, hnodes⟩ := ih hstore₁ hw₁ hcmds
    refine ⟨store', ?_, fun h => hclean ?_, fun id => ?_⟩
    · rw [KvGraphStore.applyAll, foldlM_cons, hok]
      exact hall
    · rw [hstore₁.indexSound_iff hw₁, fullyLinked_apply_iff
        ((hstore.indexSound_iff hw).mp h) hw (hfresh graph), hcreated]
      simp
    · have hnode := Contents.nodes_apply hw.idsMatch cmd id
      rw [contents_apply hw (hfresh graph)] at hnode
      rw [hnodes, nodeAfterAll, nodeAfterAll, foldl_cons]
      exact congrArg (fun node => Except.ok (foldl _ node _)) hnode

/-- **The commands are exact**: they succeed, leave a clean index clean, give the node its
properties and labels, and none is for a key or a label that stays as it is. -/
theorem nodeDeltaCommands_exact {store : KvGraphStore} {graph : PropertyGraph}
    (hstore : store.Represents graph) (hw : graph.WellFormed)
    (hbase : store.node id = .ok (some base)) (node : Node)
    (hfree : ∀ entry ∈ node.properties, entry.2.floatFree = true) :
    (∃ store' after, store.applyAll (nodeDeltaCommands id base node) = .ok store' ∧
      (store.IndexSound → store'.IndexSound) ∧ store'.node id = .ok (some after) ∧
      ∀ trait : Trait, trait.Same after node) ∧
    ∀ cmd ∈ nodeDeltaCommands id base node, ∃ trait,
      traitOf cmd = some trait ∧ ¬trait.Same base node := by
  have hkind : ∀ cmd ∈ nodeDeltaCommands id base node, (∃ trait, traitOf cmd = some trait) ∧
      (∀ graph : PropertyGraph, graph.Fresh cmd) ∧ createdNode cmd = none := by
    intro cmd hmem
    rcases mem_nodeDeltaCommands.mp hmem with ⟨_, _, _, rfl⟩ | ⟨_, _, _, _, rfl⟩ |
      ⟨_, _, _, rfl⟩ | ⟨_, _, _, rfl⟩ <;> exact ⟨⟨_, rfl⟩, fun _ => trivial, rfl⟩
  constructor
  · obtain ⟨store', hok, hclean, hnodes⟩ := applyAll_sound hstore hw fun cmd hmem =>
      (hkind cmd hmem).2
    obtain ⟨after, hafter, hsame⟩ := nodeAfterAll_of_mem hfree (fun _ hmem => hmem)
      fun trait => or_iff_not_imp_left.mpr exists_traitOf_iff.mpr
    have hgraph : graph.nodes id = some base := Except.ok.inj ((hstore.node_eq id).symm.trans hbase)
    exact ⟨store', after, hok, hclean, by rw [hnodes, hgraph, hafter], hsame⟩
  · intro cmd hmem
    obtain ⟨trait, htrait⟩ := (hkind cmd hmem).1
    exact ⟨trait, htrait, exists_traitOf_iff.mp ⟨cmd, hmem, htrait⟩⟩

/-- A node changes its property and its label. -/
theorem nodeDeltaCommands_changed :
    let base : Node := ⟨1, ["A"], [("k", .int 1)]⟩
    let node : Node := ⟨1, ["B"], [("k", .int 2)]⟩
    let creating : Command := .createNode 1 base.labels base.properties
    ∃ store store' after, KvGraphStore.new.apply creating = .ok store ∧
      store.applyAll (nodeDeltaCommands 1 base node) = .ok store' ∧ store'.IndexSound ∧
      store'.node 1 = .ok (some after) ∧ ∀ trait : Trait, trait.Same after node := by
  intro base node creating
  have hw := wellFormed_empty
  have hfresh : empty.Fresh creating := rfl
  obtain ⟨store, hok, hstore⟩ := KvGraphStore.new_represents.apply hw hfresh
  obtain ⟨⟨store', after, hall, hclean, hafter⟩, -⟩ := nodeDeltaCommands_exact hstore
    (hw.apply hfresh) (hstore.node_eq 1) node (by simp [node, Value.floatFree])
  have hfull : (empty.apply creating).FullyLinked :=
    (fullyLinked_apply_iff fullyLinked_empty hw hfresh).mpr (by
      simp [Entered, empty])
  exact ⟨store, store', after, hok, hall, hclean
    ((hstore.indexSound_iff (hw.apply hfresh)).mpr hfull), hafter⟩

end Neo4r.Db
