/-
  `Storage.PartitionNodes`: the nodes of a partitioned store.

  Commands on a node go to the shard that owns it, so each node is in one partition.  Then
  every read of a node finds it, whatever partition it is in, and single commands and
  batches do to the nodes of the store what they do to each node by itself.
-/
import Neo4r.Storage.NodeView
import Neo4r.Storage.PartitionView

set_option autoImplicit false

namespace Neo4r.Storage

open Foundation Function KvGraphStore List

namespace PartitionedGraphStore

variable {store : PartitionedGraphStore} {part : Nat → Nat} {nodes : Nat → Option Node} {id : Nat}
  {node : Node} {index : Nat} {partition : KvGraphStore} {parts : Nat → Contents}
  {cmds : List (Nat × Command)}

/-! ## The contents of each partition

A command changes the contents of one partition, the one of the shard that it is applied for,
and it never fails.  So what a sequence of commands leads to is a fold over the contents of the
partitions. -/

/-- The partitions hold these contents. -/
def Parts (store : PartitionedGraphStore) (parts : Nat → Contents) : Prop :=
  ∀ (i : Nat) (partition : KvGraphStore), store.partitions[i]? = some partition →
    partition.Sound (parts i)

/-- The contents after a command for a shard. -/
noncomputable def applyAt (placement : LocalPartitionMap) (parts : Nat → Contents) (shardId : Nat)
    (command : Command) : Nat → Contents :=
  update parts (placement.localPartitionIdForShard shardId)
    ((parts (placement.localPartitionIdForShard shardId)).apply command)

theorem fresh_parts (place : LocalPartitionMap) : (fresh place).Parts fun _ => .empty := by
  intro i partition hget
  rw [eq_of_mem_replicate (mem_of_getElem? hget)]
  exact new_sound

theorem Parts.setPartition (h : store.Parts parts) {c : Contents} (hsound : partition.Sound c) :
    (store.setPartition index partition).Parts (update parts index c) := by
  intro i q hi
  rcases getElem?_setPartition hi with ⟨rfl, rfl⟩ | ⟨hne, hi⟩
  · rwa [update_self]
  · rw [update_of_ne hne]
    exact h i q hi

/-- What holds of a partition, and after the command of the one that it is for. -/
theorem applyAt_keeps {P : Contents → Prop} {place : LocalPartitionMap} {shard : Nat}
    {cmd : Command} {i : Nat} (h : P (parts i))
    (happly : i = place.localPartitionIdForShard shard → P ((parts i).apply cmd)) :
    P (applyAt place parts shard cmd i) := by
  by_cases hi : i = place.localPartitionIdForShard shard
  · have hnew := happly hi
    subst hi
    rwa [applyAt, update_self]
  · rwa [applyAt, update_of_ne hi]

theorem Parts.apply (h : store.Parts parts) (shard : Nat) (cmd : Command) :
    ∃ store', store.apply shard cmd = .ok store' ∧ store'.placement = store.placement ∧
      store'.Parts (applyAt store.placement parts shard cmd) := by
  obtain ⟨partition, hget⟩ := store.exists_partition shard
  obtain ⟨partition', hok, hsound⟩ := (h _ _ hget).apply cmd
  exact ⟨_, apply_eq hget hok, rfl, h.setPartition hsound⟩

theorem length_partitions_eq {store' : PartitionedGraphStore}
    (h : store'.placement = store.placement) :
    store'.partitions.length = store.partitions.length := by
  rw [store'.length_eq, store.length_eq, h]

/-- The commands of one partition of a batch. -/
def commandsIn (partitionOf : Nat × Command → Nat) (commands : List (Nat × Command))
    (index : Nat) : List Command :=
  (commands.filter fun entry => partitionOf entry = index).map Prod.snd

/-- The loop of a batch over the partitions; none comes twice. -/
theorem Parts.applyPartitions {partitionOf : Nat × Command → Nat}
    {P : Nat → List Command → Contents → Prop}
    (hstep : ∀ {i c done cmd view staged}, done ++ [cmd] <+: commandsIn partitionOf cmds i →
      view.IdsMatch → P i done view → P i (done ++ [cmd]) (nextView c staged view cmd))
    {indexes : List Nat} (hnodup : indexes.Nodup) (h : store.Parts parts)
    (hidxs : ∀ index ∈ indexes, index < store.placement.partitionCount)
    (hstart : ∀ i ∈ indexes, P i [] (parts i)) :
    ∃ store' parts', (Fallible.forEach (fun index => applyToPartition index
        (commandsIn partitionOf cmds index)) indexes).run store = (.ok (), store') ∧
      store'.placement = store.placement ∧ store'.Parts parts' ∧
      ∀ i, (i ∈ indexes → P i (commandsIn partitionOf cmds i) (parts' i)) ∧
        (i ∉ indexes → parts' i = parts i) := by
  induction indexes generalizing store parts with
  | nil =>
    exact ⟨store, parts, rfl, rfl, h, fun i => ⟨fun hi => absurd hi not_mem_nil, fun _ => rfl⟩⟩
  | cons index indexes ih =>
    obtain ⟨hnot, hnodup⟩ := nodup_cons.mp hnodup
    have hget := getElem?_eq_getElem (store.length_eq ▸ hidxs index (.head _))
    obtain ⟨partition', c', hok, hsound, hdone⟩ :=
      (h index _ hget).applyBatch_of (hstart index (.head _)) hstep
    have hrun : (applyToPartition index (commandsIn partitionOf cmds index)).run store =
        (.ok (), store.setPartition index partition') := by
      simp only [applyToPartition, hget, hok]
    obtain ⟨store', parts', hrest, hplace, hparts, hall⟩ := ih hnodup (h.setPartition hsound)
      (fun i hi => hidxs i (.tail _ hi)) fun i hi => by
        rw [update_of_ne (ne_of_mem_of_not_mem hi hnot)]
        exact hstart i (.tail _ hi)
    refine ⟨store', parts', ?_, hplace, hparts, fun i => ⟨fun hi => ?_, fun hi => ?_⟩⟩
    · rw [Fallible.forEach, Fallible.run_bind_of_ok hrun]
      exact hrest
    · rcases mem_cons.mp hi with rfl | hi
      · rw [(hall i).2 hnot, update_self]
        exact hdone
      · exact (hall i).1 hi
    · rw [mem_cons, not_or] at hi
      rw [(hall i).2 hi.2, update_of_ne hi.1]

/-- What each partition comes to is an invariant of its commands. -/
theorem Parts.applyBatch_of (h : store.Parts parts) {P : Nat → List Command → Contents → Prop}
    (hstart : ∀ i, P i [] (parts i))
    (hstep : ∀ {i c done cmd view staged}, done ++ [cmd] <+: commandsIn
        (fun entry => store.placement.localPartitionIdForShard entry.1) cmds i →
      view.IdsMatch → P i done view → P i (done ++ [cmd]) (nextView c staged view cmd)) :
    ∃ store' parts', (PartitionedGraphStore.applyBatch cmds).run store = (.ok (), store') ∧
      store'.placement = store.placement ∧ store'.Parts parts' ∧
      ∀ i, P i (commandsIn (fun entry => store.placement.localPartitionIdForShard entry.1) cmds i)
        (parts' i) := by
  obtain ⟨store', parts', hrun, hplace, hparts, hall⟩ :=
    h.applyPartitions hstep (nodup_keysOf _ cmds) (fun index hmem => by
      obtain ⟨entry, -, rfl⟩ := mem_keysOf.mp hmem
      exact store.placement.localPartitionIdForShard_lt entry.1) fun i _ => hstart i
  refine ⟨store', parts', hrun, hplace, hparts, fun i => ?_⟩
  by_cases hi : i ∈ keysOf (fun entry => store.placement.localPartitionIdForShard entry.1) cmds
  · exact (hall i).1 hi
  · have hnil : commandsIn (fun entry => store.placement.localPartitionIdForShard entry.1) cmds i =
        [] := by
      rw [commandsIn, map_eq_nil_iff, filter_eq_nil_iff]
      exact fun entry hmem heq => hi (mem_keysOf.mpr ⟨entry, hmem, of_decide_eq_true heq⟩)
    rw [hnil, (hall i).2 hi]
    exact hstart i

/-- The records of one kind, partition by partition and by identifier. -/
theorem Parts.records_eq (h : store.Parts parts) {α : Type} {range : KeyRange}
    {records : Contents → Nat → Option α} {key : α → Nat} {encode : α → KvValue}
    {decode : KvValue → Except StorageError α} (hdecode : ∀ a, decode (encode a) = .ok a)
    (hget : ∀ {partition : KvGraphStore} {c}, partition.Sound c → ∀ id,
      partition.kv.get ⟨range, id⟩ = (records c id).map encode)
    (hkey : ∀ {partition : KvGraphStore} {c}, partition.Sound c → ∀ {id a},
      records c id = some a → key a = id) :
    ∃ lists : Nat → List α, concat (fun partition =>
        (partition.scanPrefix range).mapM fun entry => decode entry.2) store.partitions =
          .ok ((List.range store.partitions.length).flatMap lists) ∧
      ∀ i < store.partitions.length, (∀ a, a ∈ lists i ↔ records (parts i) (key a) = some a) ∧
        (lists i).Pairwise fun a b => key a ≤ key b := by
  refine exists_concat (P := fun i list => (∀ a, a ∈ list ↔ records (parts i) (key a) = some a) ∧
    list.Pairwise fun a b => key a ≤ key b) fun i partition hi => ?_
  have hsound := h i partition hi
  refine ⟨_, mapM_scanPrefix_eq (hget hsound) hdecode, fun a => ?_, ?_⟩
  · rw [mem_filterMap_scanIds (hget hsound)]
    constructor
    · rintro ⟨id, hid⟩
      rwa [hkey hsound hid]
    · exact fun ha => ⟨key a, ha⟩
  · refine Pairwise.filterMap _ (fun a b hab x hx y hy => ?_) sortedLE_insertionSort.pairwise
    rwa [hkey hsound hx, hkey hsound hy]

theorem Parts.nodes_eq (h : store.Parts parts) : ∃ lists : Nat → List Node,
    store.nodes = .ok ((List.range store.partitions.length).flatMap lists) ∧
      ∀ i < store.partitions.length,
        (∀ node, node ∈ lists i ↔ (parts i).nodes node.id = some node) ∧
        (lists i).Pairwise fun a b => a.id ≤ b.id :=
  h.records_eq (fun _ => rfl) (fun hsound => hsound.holds.nodes) fun hsound =>
    hsound.idsMatch.node_id

theorem Parts.relationships_eq (h : store.Parts parts) : ∃ lists : Nat → List Relationship,
    store.relationships = .ok ((List.range store.partitions.length).flatMap lists) ∧
      ∀ i < store.partitions.length,
        (∀ rel, rel ∈ lists i ↔ (parts i).relationships rel.id = some rel) ∧
        (lists i).Pairwise fun a b => a.id ≤ b.id :=
  h.records_eq (fun _ => rfl) (fun hsound => hsound.holds.relationships) fun hsound =>
    hsound.idsMatch.relationship_id

/-! ## Nodes in the partitions of their owners -/

/-- The nodes in the store are `nodes`, each in the partition that `part` gives. -/
def KeepsNodes (store : PartitionedGraphStore) (part : Nat → Nat) (nodes : Nat → Option Node) :
    Prop :=
  ∃ parts, store.Parts parts ∧ ∀ i < store.partitions.length, ∀ id,
    (parts i).nodes id = if part id = i then nodes id else none

/-- The partition of a node: the one of the shard that owns it. -/
def partitionOfNode (placement : LocalPartitionMap) (shardMap : ShardMap) (id : Nat) : Nat :=
  placement.localPartitionIdForShard (shardMap.ownerOfNode id)

theorem fresh_keepsNodes (place : LocalPartitionMap) (part : Nat → Nat) :
    (fresh place).KeepsNodes part fun _ => none :=
  ⟨_, fresh_parts place, fun _ _ _ => (ite_self none).symm⟩

section

variable (h : store.KeepsNodes part nodes)

include h

section

variable (hpart : part id < store.partitions.length)

include hpart

/-- The partition of a node, and what it holds. -/
theorem KeepsNodes.partition_of :
    ∃ partition ∈ store.partitions, ∃ c, partition.Sound c ∧ c.nodes id = nodes id := by
  obtain ⟨parts, hparts, hnodes⟩ := h
  exact ⟨_, getElem_mem hpart, _, hparts _ _ (getElem?_eq_getElem hpart),
    (hnodes _ hpart id).trans (if_pos rfl)⟩

theorem KeepsNodes.node_id (hnode : nodes id = some node) : node.id = id := by
  obtain ⟨partition, -, c, hsound, hnodes⟩ := h.partition_of hpart
  exact hsound.idsMatch.node_id (hnodes.trans hnode)

theorem KeepsNodes.node_eq : store.node id = .ok (nodes id) := by
  refine firstOf_eq (fun partition hmem => ?_) ?_
  · obtain ⟨parts, hparts, hnodes⟩ := h
    obtain ⟨i, hi⟩ := mem_iff_getElem?.mp hmem
    rw [(hparts i partition hi).holds.node_eq, hnodes i (List.getElem?_eq_some_iff.mp hi).1]
    split
    · exact .inr rfl
    · exact .inl rfl
  · obtain ⟨partition, hmem, c, hsound, hnode⟩ := h.partition_of hpart
    exact ⟨partition, hmem, hnode ▸ hsound.holds.node_eq id⟩

end

/-- The list of all nodes has every node, partition by partition and by identifier. -/
theorem KeepsNodes.nodes_eq (hpart : ∀ id, part id < store.partitions.length) :
    ∃ list, store.nodes = .ok list ∧ (∀ node, node ∈ list ↔ nodes node.id = some node) ∧
      list.Pairwise fun a b => part a.id < part b.id ∨ part a.id = part b.id ∧ a.id ≤ b.id := by
  obtain ⟨parts, hparts, hnodes⟩ := h
  obtain ⟨lists, hlists, hlisted⟩ := hparts.nodes_eq
  have hmem : ∀ i ∈ List.range store.partitions.length, ∀ node,
      node ∈ lists i ↔ part node.id = i ∧ nodes node.id = some node := by
    intro i hi node
    rw [(hlisted i (mem_range.mp hi)).1, hnodes i (mem_range.mp hi), Option.ite_none_right_eq_some]
  refine ⟨_, hlists, fun node => ?_, pairwise_flatMap.mpr ⟨fun i hi => ?_, ?_⟩⟩
  · rw [mem_flatMap]
    constructor
    · rintro ⟨i, hi, hnode⟩
      exact ((hmem i hi node).mp hnode).2
    · exact fun hnode => ⟨_, mem_range.mpr (hpart node.id),
        (hmem _ (mem_range.mpr (hpart _)) node).mpr ⟨rfl, hnode⟩⟩
  · refine (hlisted i (mem_range.mp hi)).2.imp_of_mem fun ha hb hle => .inr ⟨?_, hle⟩
    rw [((hmem i hi _).mp ha).1, ((hmem i hi _).mp hb).1]
  · refine pairwise_lt_range.imp_of_mem fun hi hj hij a ha b hb => .inl ?_
    rwa [((hmem _ hi a).mp ha).1, ((hmem _ hj b).mp hb).1]

/-- The index finds every node with a label and a property. -/
theorem KeepsNodes.mem_nodeIdsByLabelProperty
    (hpart : part id < store.partitions.length) (hnode : nodes id = some node) {label key : String}
    (value : Value) (hlabel : label ∈ node.labels)
    (hproperty : ∃ entry ∈ node.properties, entry.1 = key ∧ entry.2.toKey = value.toKey) :
    id ∈ store.nodeIdsByLabelProperty label key value := by
  obtain ⟨partition, hmem, c, hsound, hnodes⟩ := h.partition_of hpart
  refine mem_sortedIds.mpr (mem_flatMap.mpr ⟨partition, hmem, ?_⟩)
  refine hsound.holds.mem_scanIds_index.mpr ?_
  exact hsound.listed id node (hnodes.trans hnode) _
    (labelProperty_mem_ranges.mpr ⟨hlabel, hproperty⟩)

theorem KeepsNodes.apply (shard : Nat) (command : Command)
    (hroute : ∀ id, nodeOf command = some id →
      part id = store.placement.localPartitionIdForShard shard) :
    ∃ store', store.apply shard command = .ok store' ∧ store'.placement = store.placement ∧
      store'.KeepsNodes part fun id => nodeAfter id (nodes id) command := by
  obtain ⟨parts, hparts, hnodes⟩ := h
  obtain ⟨partition, hget⟩ := store.exists_partition shard
  obtain ⟨store', hok, hplace, hparts'⟩ := hparts.apply shard command
  refine ⟨store', hok, hplace, _, hparts', fun i hi id => ?_⟩
  rw [length_partitions_eq hplace] at hi
  by_cases hat : i = store.placement.localPartitionIdForShard shard
  · subst hat
    rw [applyAt, update_self, Contents.nodes_apply (hparts _ _ hget).idsMatch, hnodes _ hi]
    split
    · rfl
    · next hne => exact if_neg fun heq => hne (hroute id heq)
  · rw [applyAt, update_of_ne hat, hnodes i hi]
    split
    · next heq => exact (if_neg fun hid => hat (heq.symm.trans (hroute id hid))).symm
    · rfl

end

/-! ## Sequences and batches -/

theorem KeepsNodes.applyAll (h : store.KeepsNodes part nodes)
    (hroute : ∀ entry ∈ cmds, ∀ id, nodeOf entry.2 = some id →
      part id = store.placement.localPartitionIdForShard entry.1) :
    ∃ store', store.applyAll cmds = .ok store' ∧ store'.placement = store.placement ∧
      store'.KeepsNodes part fun id => nodeAfterAll id (nodes id) (cmds.map Prod.snd) := by
  induction cmds using reverseRecOn with
  | nil => exact ⟨store, rfl, rfl, h⟩
  | append_singleton cmds entry ih =>
    obtain ⟨store₁, hok, hplace, hnodes⟩ := ih fun entry' hmem =>
      hroute entry' (mem_append_left _ hmem)
    obtain ⟨store', hok', hplace', hnodes'⟩ :=
      hnodes.apply entry.1 entry.2 fun id hid =>
        hplace.symm ▸ hroute entry (mem_append_right _ (.head _)) id hid
    refine ⟨store', exceptFoldlM_concat hok hok', hplace'.trans hplace, ?_⟩
    simp only [map_append, map_cons, map_nil, nodeAfterAll_concat]
    exact hnodes'

/-- The commands of a partition do to its nodes what the batch does. -/
theorem nodeAfterAll_commandsIn {partitionOf : Nat × Command → Nat}
    (hroute : ∀ entry ∈ cmds, ∀ id, nodeOf entry.2 = some id → part id = partitionOf entry)
    (index id : Nat) (node : Option Node) :
    nodeAfterAll id node (commandsIn partitionOf cmds index) =
      if part id = index then nodeAfterAll id node (cmds.map Prod.snd) else node := by
  split
  · next heq =>
    refine nodeAfterAll_filter (fun entry hmem hid => decide_eq_true ?_) node
    exact (hroute entry hmem id hid).symm.trans heq
  · next hne =>
    refine nodeAfterAll_of_forall_ne (fun cmd hmem hid => hne ?_) node
    obtain ⟨entry, hentry, rfl⟩ := mem_map.mp hmem
    obtain ⟨hentry, hidx⟩ := mem_filter.mp hentry
    exact (hroute entry hentry id hid).trans (of_decide_eq_true hidx)

/-- A batch does to the nodes what its commands do to each. -/
theorem KeepsNodes.applyBatch (h : store.KeepsNodes part nodes)
    (hroute : ∀ entry ∈ cmds, ∀ id, nodeOf entry.2 = some id →
      part id = store.placement.localPartitionIdForShard entry.1) :
    ∃ store', (PartitionedGraphStore.applyBatch cmds).run store = (.ok (), store') ∧
      store'.placement = store.placement ∧
      store'.KeepsNodes part fun id => nodeAfterAll id (nodes id) (cmds.map Prod.snd) := by
  obtain ⟨parts, hparts, hnodes⟩ := h
  obtain ⟨store', parts', hrun, hplace, hparts', hdone⟩ := hparts.applyBatch_of
    (P := fun i done view => ∀ id, view.nodes id = nodeAfterAll id ((parts i).nodes id) done)
    (fun _ _ => rfl) fun _ hids hview id => by rw [nodes_nextView hids, hview, nodeAfterAll_concat]
  refine ⟨store', hrun, hplace, parts', hparts', fun i hi id => ?_⟩
  rw [hdone, hnodes i (length_partitions_eq hplace ▸ hi), nodeAfterAll_commandsIn hroute]
  split <;> rfl

end PartitionedGraphStore

end Neo4r.Storage
