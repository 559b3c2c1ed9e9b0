/-
  `Db.UniqueConstraint`: no two nodes with a label have the same value of a property that
  is unique for it.

  The check of a command reads the index of the store, which has every node, so a command
  that passes keeps the values apart.  A batch is checked before any of it is applied: each
  command is held against the store without the commands before it.  What the batch leaves
  is as good as the checks would have been in order, each after the commands before it.
-/
import Neo4r.Db.GraphIndexes
import Neo4r.Db.StoreMoves
import Neo4r.Storage.PartitionNodes

set_option autoImplicit false

namespace Neo4r.Db

open Foundation Storage IndexedGraph Database List Fallible

/-! ## Values that are apart -/

/-- Equal content: the same key, of a value that equals itself.  A value that has a number
which is not one does not. -/
def SameContent (value value' : Value) : Prop :=
  value.toKey = value'.toKey ∧ value.partialEq value = true

variable {value value' : Value}

theorem SameContent.partialEq (h : SameContent value value') : value.partialEq value' = true := by
  rw [Value.partialEq, ← h.1]
  exact h.2

theorem SameContent.symm (h : SameContent value value') : SameContent value' value := by
  refine ⟨h.1.symm, ?_⟩
  rw [Value.partialEq, ← h.1]
  exact h.2

/-- The node has the label and a value of the property. -/
def Carries (index : IndexDefinition) (node : Node) (value : Value) : Prop :=
  index.label ∈ node.labels ∧ Properties.get node.properties index.property = some value ∧
    value ≠ .null

/-- No two nodes have the same value. -/
def UniqueIn (index : IndexDefinition) (nodes : Nat → Option Node) : Prop :=
  ∀ id id' node node' value value', id ≠ id' → nodes id = some node → nodes id' = some node' →
    Carries index node value → Carries index node' value' → ¬SameContent value value'

/-- One node changes, to a value that it had or that no other node has. -/
theorem UniqueIn.change {index : IndexDefinition} {nodes nodes' : Nat → Option Node}
    (h : UniqueIn index nodes) (target : Nat) (hothers : ∀ id, id ≠ target → nodes' id = nodes id)
    (hnew : ∀ node value, nodes' target = some node → Carries index node value →
      (∃ old, nodes target = some old ∧ Carries index old value) ∨
        ∀ id other value', id ≠ target → nodes id = some other → Carries index other value' →
          ¬SameContent value value') :
    UniqueIn index nodes' := by
  have happart : ∀ id node other value value', id ≠ target → nodes' target = some node →
      nodes' id = some other → Carries index node value → Carries index other value' →
        ¬SameContent value value' := by
    intro id node other value value' hne hnode hother hvalue hvalue' hsame
    rw [hothers id hne] at hother
    rcases hnew node value hnode hvalue with ⟨old, hold, hcarries⟩ | hfree
    · exact h target id old other value value' hne.symm hold hother hcarries hvalue' hsame
    · exact hfree id other value' hne hother hvalue' hsame
  intro id id' node node' value value' hne hnode hnode' hvalue hvalue' hsame
  by_cases hid : id = target
  · subst hid
    exact happart id' node node' value value' hne.symm hnode hnode' hvalue hvalue' hsame
  · by_cases hid' : id' = target
    · subst hid'
      exact happart id node' node value' value hne hnode' hnode hvalue' hvalue hsame.symm
    · rw [hothers id hid] at hnode
      rw [hothers id' hid'] at hnode'
      exact h id id' node node' value value' hne hnode hnode' hvalue hvalue' hsame

/-! ## The check of one command -/

variable {graph : IndexedGraph} {part : Nat → Nat} {nodes : Nat → Option Node}
  {index : IndexDefinition} {target : Nat}

/-- A value that passes is no other node's. -/
theorem ensureUniqueNodePropertyValue_ok (hkeeps : graph.store.KeepsNodes part nodes)
    (hpart : ∀ id, part id < graph.store.partitions.length)
    (hok :
      graph.ensureUniqueNodePropertyValue index.label index.property value (some target) = .ok ())
    (hvalue : value ≠ .null) {id : Nat} {node : Node} (hne : id ≠ target)
    (hnode : nodes id = some node) (hcarries : Carries index node value') :
    ¬SameContent value value' := by
  intro hsame
  rw [ensureUniqueNodePropertyValue, if_neg hvalue, exceptForM_ok_iff] at hok
  have hmem := hkeeps.mem_nodeIdsByLabelProperty (hpart id) hnode value hcarries.1
    ⟨_, Properties.mem_of_get hcarries.2.1, rfl, hsame.1.symm⟩
  have hfound := hok id hmem
  rw [if_pos fun heq => hne (Option.some.inj heq)] at hfound
  cases hfound

theorem ensureUniqueProperties_ok {labels : List String} {props : Properties}
    (hidx : index ∈ graph.indexes) (hkind : index.kind = .uniqueNodeProperty)
    (hok : graph.ensureUniqueProperties target labels props = .ok ())
    (hcarries : Carries index ⟨target, labels, props⟩ value) :
    graph.ensureUniqueNodePropertyValue index.label index.property value (some target) =
      .ok () := by
  rw [ensureUniqueProperties, exceptForM_ok_iff] at hok
  have hmem : index ∈ graph.uniqueNodePropertyConstraintsFor labels none := by
    refine mem_filter.mpr ⟨hidx, ?_⟩
    simp [hkind, hcarries.1]
  have hfound := hok index hmem
  rw [hcarries.2.1] at hfound
  exact hfound

/-- A command that passes keeps the values apart. -/
theorem UniqueIn.command (graph : IndexedGraph) (h : UniqueIn index nodes)
    (hkeeps : graph.store.KeepsNodes part nodes)
    (hpart : ∀ id, part id < graph.store.partitions.length) (hidx : index ∈ graph.indexes)
    (hkind : index.kind = .uniqueNodeProperty) {command : Command}
    (hok : graph.validateUniqueConstraintsForCommand command = .ok ()) :
    UniqueIn index fun id => nodeAfter id (nodes id) command := by
  have hread (id : Nat) : graph.node id = .ok (nodes id) := by
    rw [node, hkeeps.node_eq (hpart id)]
    rfl
  have hchange : ∀ target, nodeOf command = some target →
      (∀ node value, rewriteNode (nodes target) command = some node → Carries index node value →
        (∃ old, nodes target = some old ∧ Carries index old value) ∨
          graph.ensureUniqueNodePropertyValue index.label index.property value (some target) =
            .ok ()) →
      UniqueIn index fun id => nodeAfter id (nodes id) command := by
    intro target htarget hnew
    refine h.change target (fun id hne => if_neg ?_) fun node value hnode hcarries => ?_
    · exact fun heq => hne (Option.some.inj (heq.symm.trans htarget))
    · rw [nodeAfter, if_pos htarget] at hnode
      refine (hnew node value hnode hcarries).imp_right fun hfree id other value' hne hother => ?_
      exact ensureUniqueNodePropertyValue_ok hkeeps hpart hfree hcarries.2.2 hne hother
  cases command with
  | createNode id =>
    refine hchange id rfl fun node value hnode hcarries => .inr ?_
    cases hnode
    exact ensureUniqueProperties_ok hidx hkind hok hcarries
  | setNodeProperty id =>
    refine hchange id rfl fun node value' hnode hcarries => ?_
    obtain ⟨old, hold, rfl⟩ := Option.map_eq_some_iff.mp hnode
    obtain ⟨hlabel, hget, hnull⟩ := hcarries
    rw [Node.withProperty, Properties.get_insert] at hget
    split at hget
    · next hkey =>
      cases hget
      rw [validateUniqueConstraintsForCommand, hread, hold] at hok
      refine .inr (exceptForM_ok_iff.mp hok index (mem_filter.mpr ⟨hidx, ?_⟩))
      have hlabel' : index.label ∈ old.labels := hlabel
      simp [hkind, hlabel', hkey]
    · exact .inl ⟨old, hold, hlabel, hget, hnull⟩
  | removeNodeProperty id =>
    refine hchange id rfl fun node value hnode hcarries => .inl ?_
    obtain ⟨old, hold, rfl⟩ := Option.map_eq_some_iff.mp hnode
    obtain ⟨hlabel, hget, hnull⟩ := hcarries
    rw [Node.withoutProperty, Properties.get_remove] at hget
    split at hget
    · cases hget
    · exact ⟨old, hold, hlabel, hget, hnull⟩
  | addNodeLabel id label =>
    refine hchange id rfl fun node value hnode hcarries => ?_
    obtain ⟨old, hold, rfl⟩ := Option.map_eq_some_iff.mp hnode
    rw [validateUniqueConstraintsForCommand, hread, hold] at hok
    by_cases hlabel : label ∈ old.labels
    · rw [Node.withLabel, if_pos hlabel] at hcarries
      exact .inl ⟨old, hold, hcarries⟩
    · rw [Node.withLabel, if_neg hlabel] at hcarries
      refine .inr (ensureUniqueProperties_ok hidx hkind ?_ hcarries)
      exact (if_neg hlabel).symm.trans hok
  | removeNodeLabel id =>
    refine hchange id rfl fun node value hnode hcarries => .inl ?_
    obtain ⟨old, hold, rfl⟩ := Option.map_eq_some_iff.mp hnode
    rw [Node.withoutLabel] at hcarries
    split at hcarries
    · exact ⟨old, hold, (mem_filter.mp hcarries.1).1, hcarries.2⟩
    · exact ⟨old, hold, hcarries⟩
  | deleteNode id => exact hchange id rfl fun _ _ hnode => by cases hnode
  | _ => exact h

/-! ## The check of a new constraint -/

/-- Nodes that pass are apart from each other and from those before them. -/
theorem checkUniqueValues_ok {list : List Node} {seen : List (Value × Nat)}
    (h : checkUniqueValues index list seen = .ok ()) :
    (∀ entry ∈ seen, ∀ node ∈ list, ∀ value, Carries index node value →
      entry.1.partialEq value = false) ∧
    list.Pairwise fun node node' => ∀ value value', Carries index node value →
      Carries index node' value' → ¬SameContent value value' := by
  induction list generalizing seen with
  | nil => exact ⟨fun _ _ _ hmem => absurd hmem not_mem_nil, .nil⟩
  | cons node list ih =>
    rw [checkUniqueValues] at h
    -- a node that has no value does not matter
    have hskip : checkUniqueValues index list seen = .ok () →
        (∀ value, ¬Carries index node value) →
        (∀ entry ∈ seen, ∀ node' ∈ node :: list, ∀ value, Carries index node' value →
          entry.1.partialEq value = false) ∧
        (node :: list).Pairwise fun node node' => ∀ value value', Carries index node value →
          Carries index node' value' → ¬SameContent value value' := by
      intro hrest hnone
      refine ⟨fun entry hentry node' hmem value hcarries => ?_, .cons ?_ (ih hrest).2⟩
      · rcases mem_cons.mp hmem with rfl | hmem
        · exact absurd hcarries (hnone value)
        · exact (ih hrest).1 entry hentry node' hmem value hcarries
      · exact fun node' _ value value' hcarries => absurd hcarries (hnone value)
    split at h
    · next hlabel => exact hskip h fun value hcarries => hlabel hcarries.1
    · split at h
      · next hget =>
        exact hskip h fun value hcarries => nomatch hget.symm.trans hcarries.2.1
      · next value hget =>
        have hvalue : ∀ value', Carries index node value' → value' = value :=
          fun value' hcarries => Option.some.inj (hcarries.2.1.symm.trans hget)
        split at h
        · next hnull =>
          exact hskip h fun value' hcarries =>
            hcarries.2.2 ((hvalue value' hcarries).trans hnull)
        · split at h
          · cases h
          · next hfind =>
            obtain ⟨hseen, hpairwise⟩ := ih h
            refine ⟨fun entry hentry node' hmem value' hcarries => ?_, .cons ?_ hpairwise⟩
            · rcases mem_cons.mp hmem with rfl | hmem
              · rw [hvalue value' hcarries]
                exact Bool.eq_false_iff.mpr (find?_eq_none.mp hfind entry hentry)
              · exact hseen entry (mem_append_left _ hentry) node' hmem value' hcarries
            · intro node' hmem value₁ value₂ hcarries hcarries' hsame
              have hapart := hseen (value, node.id)
                (mem_append_right _ (.head _)) node' hmem value₂ hcarries'
              rw [← hvalue value₁ hcarries, hsame.partialEq] at hapart
              cases hapart

theorem uniqueIn_of_validateExisting (hkeeps : graph.store.KeepsNodes part nodes)
    (hpart : ∀ id, part id < graph.store.partitions.length)
    (hok : graph.validateExistingUniqueNodePropertyConstraint index = .ok ()) :
    UniqueIn index nodes := by
  obtain ⟨list, hlist, hmem, -⟩ := hkeeps.nodes_eq hpart
  rw [validateExistingUniqueNodePropertyConstraint, hlist] at hok
  obtain ⟨-, hpairwise⟩ := checkUniqueValues_ok hok
  intro id id' node node' value value' hne hnode hnode' hcarries hcarries' hsame
  have hid := hkeeps.node_id (hpart id) hnode
  have hid' := hkeeps.node_id (hpart id') hnode'
  have hdist : node ≠ node' := by
    rintro rfl
    exact hne (hid.symm.trans hid')
  have : Std.Symm fun node node' => ∀ value value', Carries index node value →
      Carries index node' value' → ¬SameContent value value' :=
    ⟨fun _ _ hapart value value' hcarries hcarries' hsame =>
      hapart value' value hcarries' hcarries hsame.symm⟩
  exact hpairwise.forall ((hmem node).mpr (hid.symm ▸ hnode))
    ((hmem node').mpr (hid'.symm ▸ hnode')) hdist value value' hcarries hcarries' hsame

/-! ## Calls -/

/-- A command with the shard that the program sends it to: a command on a node goes to the
owner of the node. -/
structure RoutedCommand (shardMap : ShardMap) where
  shardId : Nat
  command : Command
  routed : ∀ id, nodeOf command = some id → shardId = shardMap.ownerOfNode id

namespace RoutedCommand

variable {shardMap : ShardMap}

/-- The shard and the command. -/
def toPair (write : RoutedCommand shardMap) : Nat × Command := (write.shardId, write.command)

end RoutedCommand

/-- A call on the database of a server: a single write, a batch (a staged transaction and a
batch of Cypher writes are batches), a group of requests, or a change of the catalog. -/
inductive GraphCall (shardMap : ShardMap)
  | single (write : RoutedCommand shardMap)
  | batch (operations : List (Except DatabaseError (RoutedCommand shardMap)))
  | group (requests : List (Except DatabaseError (RoutedCommand shardMap)))
  | addIndex (index : IndexDefinition)
  | dropIndex (name : String)

namespace GraphCall

variable {shardMap : ShardMap} {R : Type}

/-- The call as the method of the database it is. -/
def run (replicator : ShardReplicator Command R) :
    GraphCall shardMap → Database.Op Command IndexedGraph R Unit
  | .single write => writeCommand graphEngine replicator write.shardId write.command
  | .batch operations => executeBatchWrite graphEngine replicator
      (operations.map fun operation => operation.map RoutedCommand.toPair)
  | .group requests => executeWriteBatch graphEngine replicator
      (requests.map fun request => request.map RoutedCommand.toPair)
  | .addIndex index => onStore (addIndexDefinition index)
  | .dropIndex name => onStore (IndexedGraph.dropIndex name)

/-- The database after calls, whether they succeed or not. -/
def afterAll (replicator : ShardReplicator Command R) (calls : List (GraphCall shardMap))
    (db : Database Command IndexedGraph R) : Database Command IndexedGraph R :=
  calls.foldl (fun db call => ((call.run replicator).run db).2) db

/-- The writes that the call may come to. -/
def Takes : GraphCall shardMap → List (RoutedCommand shardMap) → Prop
  | .single write, taken => taken = [write]
  | .batch operations, taken => operations = taken.map .ok
  | .group requests, taken => (taken.map Except.ok).Sublist requests
  | _, _ => False

/-- The call may write the command to the shard. -/
def Writes : GraphCall shardMap → Nat × Command → Prop
  | .single write, command => write.toPair = command
  | .batch operations, command | .group operations, command =>
    .ok command ∈ operations.map fun operation => operation.map RoutedCommand.toPair
  | _, _ => False

variable {replicator : ShardReplicator Command R} {r : GraphCore R → GraphCore R → Prop}

/-- A call respects what the parts of its writes respect. -/
theorem respects [IsPreorder (GraphCore R) r] {P : Nat × Command → Prop}
    (h : WriteRules graphEngine replicator r P) (call : GraphCall shardMap)
    (hcall : ∀ command, call.Writes command → P command) : Respects r (call.run replicator) := by
  cases call with
  | single write => exact h.writeCommand (hcall (write.shardId, write.command) rfl)
  | batch => exact h.executeBatchWrite hcall
  | group => exact h.executeWriteBatch hcall
  | addIndex | dropIndex => exact h.onStore _

end GraphCall

/-- Each command passes the check of the unique constraints on the graph that the commands
before it lead to. -/
def ChecksInOrder (graph : IndexedGraph) (commands : List (Nat × Command)) : Prop :=
  ∀ before command, before ++ [command] <+: commands →
    ∀ store, graph.store.applyAll before = .ok store →
      validateUniqueConstraintsForCommand { graph with store } command.2 = .ok ()

/-- If the commands of the call pass the check on the graph as it is, they pass it in
order. -/
def GraphCall.InOrder {shardMap : ShardMap} (graph : IndexedGraph) (call : GraphCall shardMap) :
    Prop :=
  ∀ taken, call.Takes taken →
    (∀ write ∈ taken, graph.validateUniqueConstraintsForCommand write.command = .ok ()) →
      ChecksInOrder graph (taken.map RoutedCommand.toPair)

/-! ## What a call keeps -/

/-- The graph has the nodes, and every unique constraint of its catalog holds. -/
structure Consistent (shardMap : ShardMap) (graph : IndexedGraph) (nodes : Nat → Option Node) :
    Prop where
  keeps : graph.store.KeepsNodes
    (PartitionedGraphStore.partitionOfNode graph.store.placement shardMap) nodes
  unique : ∀ index ∈ graph.indexes, index.kind = .uniqueNodeProperty → UniqueIn index nodes

variable {shardMap : ShardMap}

theorem partitionOfNode_lt (shardMap : ShardMap) (store : PartitionedGraphStore) (id : Nat) :
    PartitionedGraphStore.partitionOfNode store.placement shardMap id < store.partitions.length :=
  store.length_eq ▸ store.placement.localPartitionIdForShard_lt _

theorem routed_partition (taken : List (RoutedCommand shardMap)) (place : LocalPartitionMap) :
    ∀ entry ∈ taken.map RoutedCommand.toPair, ∀ id, nodeOf entry.2 = some id →
      PartitionedGraphStore.partitionOfNode place shardMap id =
        place.localPartitionIdForShard entry.1 := by
  intro entry hmem id hid
  obtain ⟨write, -, rfl⟩ := mem_map.mp hmem
  exact congrArg place.localPartitionIdForShard (write.routed id hid).symm

variable {taken : List (RoutedCommand shardMap)}

/-- Commands that pass in order keep the values apart. -/
theorem UniqueIn.commands (h : UniqueIn index nodes)
    (hkeeps : graph.store.KeepsNodes
      (PartitionedGraphStore.partitionOfNode graph.store.placement shardMap) nodes)
    (hidx : index ∈ graph.indexes) (hkind : index.kind = .uniqueNodeProperty)
    (hchecks : ChecksInOrder graph (taken.map RoutedCommand.toPair)) : UniqueIn index fun id =>
      nodeAfterAll id (nodes id) ((taken.map RoutedCommand.toPair).map Prod.snd) := by
  induction taken using reverseRecOn with
  | nil => exact h
  | append_singleton taken write ih =>
    rw [map_append] at hchecks
    obtain ⟨store, hok, hplace, hnodes⟩ :=
      hkeeps.applyAll (routed_partition taken graph.store.placement)
    have hcheck := hchecks _ write.toPair prefix_rfl store hok
    have hbefore := ih fun before cmd hpre =>
      hchecks before cmd (hpre.trans (prefix_append _ _))
    simp only [map_append, map_cons, map_nil, nodeAfterAll_concat]
    exact hbefore.command { graph with store } hnodes
      (fun id => hplace ▸ partitionOfNode_lt shardMap store id) hidx hkind hcheck

theorem forEach_pure_run {α : Type} (l : List α) (graph : IndexedGraph) :
    (forEach (fun _ => pure ()) l : Fallible DatabaseError IndexedGraph Unit).run graph =
      (.ok (), graph) := by
  induction l with
  | nil => rfl
  | cons a l ih => exact ih

variable {store : PartitionedGraphStore} {cmds : List (Nat × Command)}

/-- A command that the store applies. -/
theorem run_engineApply {shard : Nat} {cmd : Command}
    (h : graph.store.apply shard cmd = .ok store) :
    (graphEngine.apply shard cmd).run graph = (.ok (), { graph with store }) := by
  change (applyCommand shard cmd).run graph = _
  simp only [applyCommand, h]

theorem run_applyWork {shard : Nat} {cmd : Command} (h : graph.store.apply shard cmd = .ok store) :
    (applyWork graphEngine shard cmd).run graph = (.ok (), { graph with store }) :=
  run_bind_of_ok (run_engineApply h)

theorem run_applyBatchWork
    (h : (PartitionedGraphStore.applyBatch cmds).run graph.store = (.ok (), store)) :
    (applyBatchWork graphEngine cmds).run graph = (.ok (), { graph with store }) := by
  have happly : (applyCommands cmds).run graph = (.ok (), { graph with store }) := by
    simp only [applyCommands, h]
    rfl
  refine (run_bind_of_ok happly).trans ?_
  exact run_bind_of_ok (forEach_pure_run _ _)

/-- A batch of commands succeeds, and leaves the nodes as the commands make them. -/
theorem applyBatchWork_keepsNodes
    (hkeeps : graph.store.KeepsNodes
      (PartitionedGraphStore.partitionOfNode graph.store.placement shardMap) nodes)
    (taken : List (RoutedCommand shardMap)) :
    ∃ store, (applyBatchWork graphEngine (taken.map RoutedCommand.toPair)).run graph =
        (.ok (), { graph with store }) ∧
      store.KeepsNodes (PartitionedGraphStore.partitionOfNode store.placement shardMap) fun id =>
        nodeAfterAll id (nodes id) ((taken.map RoutedCommand.toPair).map Prod.snd) := by
  obtain ⟨store, hrun, hplace, hnodes⟩ :=
    hkeeps.applyBatch (routed_partition taken graph.store.placement)
  exact ⟨store, run_applyBatchWork hrun, hplace.symm ▸ hnodes⟩

section

variable (h : Consistent shardMap graph nodes)

include h

/-- A batch of commands that pass in order keeps the graph consistent. -/
theorem Consistent.batch (hchecks : ChecksInOrder graph (taken.map RoutedCommand.toPair)) :
    ∃ nodes', Consistent shardMap ((applyBatchWork graphEngine
      (taken.map RoutedCommand.toPair)).run graph).2 nodes' := by
  obtain ⟨store, hwork, hnodes⟩ := applyBatchWork_keepsNodes h.keeps taken
  rw [hwork]
  refine ⟨_, hnodes, fun index hidx hkind => ?_⟩
  exact (h.unique index hidx hkind).commands h.keeps hidx hkind hchecks

/-- A command that passes keeps the graph consistent. -/
theorem Consistent.single {write : RoutedCommand shardMap}
    (hcheck : graph.validateUniqueConstraintsForCommand write.command = .ok ()) :
    ∃ nodes', Consistent shardMap ((applyWork graphEngine write.shardId
      write.command).run graph).2 nodes' := by
  obtain ⟨store, hok, hplace, hnodes⟩ := h.keeps.apply write.shardId write.command
    fun id hid => congrArg graph.store.placement.localPartitionIdForShard (write.routed id hid).symm
  rw [run_applyWork hok]
  refine ⟨_, hplace.symm ▸ hnodes, fun index hidx hkind => ?_⟩
  exact (h.unique index hidx hkind).command graph h.keeps
    (partitionOfNode_lt shardMap graph.store) hidx hkind hcheck

/-- A constraint that is added holds. -/
theorem Consistent.addIndex (index : IndexDefinition) :
    Consistent shardMap ((addIndexDefinition index).run graph).2 nodes := by
  rw [addIndexDefinition, run_bind, run_lookup]
  cases hvalid : graph.validateNewIndex index with
  | error => exact h
  | ok =>
    refine ⟨h.keeps, fun index' hidx hkind => ?_⟩
    rcases mem_append.mp hidx with hidx | hidx
    · exact h.unique index' hidx hkind
    · obtain rfl := mem_singleton.mp hidx
      obtain ⟨_, -, hrest⟩ := of_exceptBind_ok hvalid
      split at hrest
      · cases hrest
      · rw [hkind] at hrest
        dsimp only at hrest
        split at hrest
        · cases hrest
        · exact uniqueIn_of_validateExisting h.keeps (partitionOfNode_lt shardMap graph.store) hrest

theorem Consistent.dropIndex (name : String) :
    Consistent shardMap ((IndexedGraph.dropIndex name).run graph).2 nodes := by
  rw [IndexedGraph.dropIndex, run_bind, run_current]
  dsimp only
  split
  · exact h
  · exact ⟨h.keeps, fun index hidx => h.unique index (mem_filter.mp hidx).1⟩

end

/-- Operations that are all prepared. -/
theorem exists_taken {ops : List (Except DatabaseError (RoutedCommand shardMap))}
    (h : cmds.map Except.ok = ops.map fun op => op.map RoutedCommand.toPair) :
    ∃ taken : List (RoutedCommand shardMap), ops = taken.map .ok ∧
      cmds = taken.map RoutedCommand.toPair := by
  induction ops generalizing cmds with
  | nil => exact ⟨[], rfl, map_eq_nil_iff.mp h⟩
  | cons op ops ih =>
    cases cmds with
    | nil => cases h
    | cons =>
      obtain ⟨hfirst, hrest⟩ := cons.inj h
      obtain ⟨taken, rfl, rfl⟩ := ih hrest
      cases op with
      | error => cases hfirst
      | ok write =>
        refine ⟨write :: taken, rfl, ?_⟩
        rw [Except.ok.inj hfirst]
        rfl

/-- A call whose commands pass in order keeps the graph consistent. -/
theorem Consistent.call {R : Type} {db : Database Command IndexedGraph R}
    (h : Consistent shardMap db.store nodes) (repl : ShardReplicator Command R)
    {call : GraphCall shardMap} (hcall : call.InOrder db.store) :
    ∃ nodes', Consistent shardMap ((call.run repl).run db).2.store nodes' := by
  -- the commands of a batch or a group that is flushed
  have hbatch : ∀ (cmds : List (Nat × Command)) (taken : List (RoutedCommand shardMap)),
      cmds = taken.map RoutedCommand.toPair → call.Takes taken →
      (∀ cmd ∈ cmds, Database.Validated graphEngine db.store cmd.2) →
      ∃ nodes', Consistent shardMap ((applyBatchWork graphEngine cmds).run db.store).2 nodes' := by
    rintro cmds taken rfl htakes hvalid
    refine h.batch (hcall taken htakes fun write hmem => ?_)
    exact (hvalid write.toPair (mem_map_of_mem hmem)).2.2
  cases call with
  | single write =>
    rcases hrun : (writeCommand graphEngine repl write.shardId write.command).run db with ⟨_, db'⟩
    rw [GraphCall.run, hrun]
    rcases writeCommand_store hrun with ⟨hstore, -⟩ | ⟨hvalid, hwork⟩
    · exact ⟨nodes, hstore.symm ▸ h⟩
    · have hsingle := h.single hvalid.2.2
      rwa [hwork] at hsingle
  | batch =>
    rcases executeBatchWrite_store repl _ db with
      hstore | ⟨cmds, hops, hvalid, hstore⟩
    · exact ⟨nodes, hstore.symm ▸ h⟩
    · obtain ⟨taken, htaken, hcmds⟩ := exists_taken hops.symm
      obtain ⟨nodes', hnodes⟩ := hbatch cmds taken hcmds htaken hvalid
      exact ⟨nodes', hstore.symm ▸ hnodes⟩
  | group =>
    rcases executeWriteBatch_store repl _ db with
      hstore | ⟨cmds, hsublist, hvalid, hstore⟩
    · exact ⟨nodes, hstore.symm ▸ h⟩
    · obtain ⟨chosen, hchosen, hmap⟩ := sublist_map_iff.mp hsublist
      obtain ⟨taken, rfl, hcmds⟩ := exists_taken hmap
      obtain ⟨nodes', hnodes⟩ := hbatch cmds taken hcmds hchosen hvalid
      exact ⟨nodes', hstore.symm ▸ hnodes⟩
  | addIndex index => exact ⟨nodes, h.addIndex index⟩
  | dropIndex name => exact ⟨nodes, h.dropIndex name⟩

/-! ## Runs -/

/-- No two distinct nodes of the graph have the label with the same value of the property. -/
def Satisfies (graph : IndexedGraph) (index : IndexDefinition) : Prop :=
  ∃ nodes, graph.store.nodes = .ok nodes ∧ ∀ node ∈ nodes, ∀ node' ∈ nodes, node.id ≠ node'.id →
    ∀ value value', Carries index node value → Carries index node' value' →
      ¬SameContent value value'

theorem Consistent.satisfies (h : Consistent shardMap graph nodes) (hidx : index ∈ graph.indexes)
    (hkind : index.kind = .uniqueNodeProperty) :
    Satisfies graph index := by
  obtain ⟨list, hlist, hmem, -⟩ := h.keeps.nodes_eq (partitionOfNode_lt shardMap graph.store)
  refine ⟨list, hlist, fun node hnode node' hnode' hne value value' => ?_⟩
  exact h.unique index hidx hkind node.id node'.id node node' value value' hne
    ((hmem node).mp hnode) ((hmem node').mp hnode')

/-- From an empty database on, in every run of writes, batches, groups and changes of the
catalog in which the commands of each call pass the check in order, every unique constraint
of the catalog holds in every state. -/
theorem unique_constraints_hold {R : Type} (replicator : ShardReplicator Command R)
    {shardMap : ShardMap} {placement : LocalPartitionMap} {db : Database Command IndexedGraph R}
    (hempty : db.store = ⟨.fresh placement, []⟩) {calls : List (GraphCall shardMap)}
    (hcalls : ∀ done call, done ++ [call] <+: calls →
      call.InOrder (GraphCall.afterAll replicator done db).store) :
    ∀ done, done <+: calls → ∀ index ∈ (GraphCall.afterAll replicator done db).store.indexes,
      index.kind = .uniqueNodeProperty →
        Satisfies (GraphCall.afterAll replicator done db).store index := by
  have hrun : ∀ done, done <+: calls →
      ∃ nodes, Consistent shardMap (GraphCall.afterAll replicator done db).store nodes := by
    intro done
    induction done using reverseRecOn with
    | nil =>
      refine fun _ => ⟨fun _ => none, ?_⟩
      change Consistent shardMap db.store _
      rw [hempty]
      exact ⟨PartitionedGraphStore.fresh_keepsNodes _ _, forall_mem_nil _⟩
    | append_singleton done call ih =>
      intro hpre
      obtain ⟨nodes, hnodes⟩ := ih ((prefix_append _ _).trans hpre)
      rw [GraphCall.afterAll, foldl_concat]
      exact hnodes.call replicator (hcalls done call hpre)
  intro done hpre index hindex hkind
  obtain ⟨nodes, hnodes⟩ := hrun done hpre
  exact hnodes.satisfies hindex hkind

/-! ## A server with one shard -/

/-- Server 1, the primary of the only shard, without Raft and with an empty graph. -/
def graphServer : Database Command IndexedGraph Unit where
  config := ⟨1, 1024, false⟩
  shardCount := 1
  store := ⟨.fresh (.unassigned 1 Nat.one_pos), []⟩
  logs := fun shardId => .empty Command shardId 1024 SegmentedShardLog.defaultSegment_pos
  checkpoints := fun _ => none
  commits := fun _ => none
  snapshots := fun _ => none
  stateStores := fun _ => ⟨"raft_state", none, "raft_state.tmp", .missing, []⟩
  routingTable := ⟨1, [⟨0, [⟨1, .primary⟩]⟩]⟩
  configEpoch := 1
  nextLogIndexes := fun _ => 1
  commitIndexes := fun _ => 0
  matchIndexes := fun _ _ => none
  clock := ⟨.zero⟩
  raftGroups := none
  replicator := ()
  physicalMs := 0
  instant := 0

/-- The map of the only shard. -/
def oneShard : ShardMap := ⟨1, Nat.one_pos⟩

/-- A command on the only shard. -/
def onOnlyShard (command : Command) : RoutedCommand oneShard where
  shardId := 0
  command := command
  routed id _ := (Nat.mod_one id).symm

/-- Persons have addresses of their own. -/
def uniqueEmail : IndexDefinition := ⟨"person_email", "Person", "email", .uniqueNodeProperty⟩

/-- The constraint, and two persons in one batch. -/
def twoPersons (email email' : String) : List (GraphCall oneShard) :=
  [.addIndex uniqueEmail,
    .batch [.ok (onOnlyShard (.createNode 0 ["Person"] [("email", .string email)])),
      .ok (onOnlyShard (.createNode 1 ["Person"] [("email", .string email')]))]]

/-- Two addresses in one batch. -/
theorem unique_constraints_hold_twoPersons :
    Satisfies (GraphCall.afterAll (noopShardReplicator Command) (twoPersons "a" "b")
      graphServer).store uniqueEmail := by
  refine @unique_constraints_hold Unit (noopShardReplicator Command) oneShard _ graphServer rfl
    (twoPersons "a" "b") ?_ _ prefix_rfl uniqueEmail (.head _) rfl
  refine forall_concat_isPrefix_cons.mpr ⟨fun _ htakes => absurd htakes id,
    forall_concat_isPrefix_cons.mpr ⟨fun taken htakes _ => ?_, forall_concat_isPrefix_nil⟩⟩
  cases taken with
  | nil => cases htakes
  | cons first taken =>
    cases taken with
    | nil => cases htakes
    | cons second taken =>
      cases taken with
      | cons => cases htakes
      | nil =>
        cases htakes
        refine forall_concat_isPrefix_cons.mpr ⟨?_, forall_concat_isPrefix_cons.mpr
          ⟨?_, forall_concat_isPrefix_nil⟩⟩
        · intro store hstore
          cases hstore
          rfl
        · intro store hstore
          cases hstore
          rfl

/-- Both persons of a batch have the same address: each passes the check on the empty
graph, and the batch is accepted. -/
theorem batch_duplicates_unique_value :
    (((GraphCall.batch [.ok (onOnlyShard (.createNode 0 ["Person"] [("email", .string "a")])),
        .ok (onOnlyShard (.createNode 1 ["Person"] [("email", .string "a")]))]).run
          (noopShardReplicator Command)).run (GraphCall.afterAll (noopShardReplicator Command)
            [(GraphCall.addIndex uniqueEmail : GraphCall oneShard)] graphServer)).1 = .ok () ∧
      uniqueEmail ∈ (GraphCall.afterAll (noopShardReplicator Command) (twoPersons "a" "a")
        graphServer).store.indexes ∧
      ¬Satisfies (GraphCall.afterAll (noopShardReplicator Command) (twoPersons "a" "a")
        graphServer).store uniqueEmail := by
  refine ⟨rfl, .head _, ?_⟩
  rintro ⟨nodes, hnodes, hunique⟩
  have hread : Except.ok nodes = .ok [⟨0, ["Person"], [("email", .string "a")]⟩,
    ⟨1, ["Person"], [("email", .string "a")]⟩] := hnodes.symm.trans rfl
  cases hread
  have hcarries : ∀ id, Carries uniqueEmail ⟨id, ["Person"], [("email", .string "a")]⟩
      (.string "a") := fun id => ⟨.head _, rfl, nofun⟩
  exact hunique _ (.head _) _ (.tail _ (.head _)) Nat.zero_ne_one
    _ _ (hcarries 0) (hcarries 1) ⟨rfl, rfl⟩

end Neo4r.Db
