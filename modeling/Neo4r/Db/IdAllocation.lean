/-
  `Db.IdAllocation`: the ids that a server gives to nodes and relationships, over its
  restarts.

  While a server runs, its counters are above all the ids that it has handed out.  When it
  is opened they are read back from the store, after the logs have been replayed.  So an id
  comes back exactly if nothing at or above it is left, and the question is what replaying
  can take out of the store.  A node goes with a deletion of it.  A relationship goes with a
  deletion of it, or with a node that the index lists it at; every such entry stems from a
  creation in the log, so the log says which nodes those are.
-/
import Neo4r.Db.FollowerSpec
import Neo4r.Db.GraphDatabase
import Neo4r.Db.UniqueConstraint
import Neo4r.Storage.PartitionNodes

set_option autoImplicit false

namespace Neo4r.Storage

open Foundation List

namespace Contents

variable {c : Contents}

/-- The index lists a relationship only at end points that it was created with. -/
def OriginatesIn (c : Contents) (created : Nat → Nat → Nat → Prop) : Prop :=
  ∀ r nodeId, r ∈ c.listedAt nodeId → ∃ fromId toId, created r fromId toId ∧
    (nodeId = fromId ∨ nodeId = toId)

variable {created : Nat → Nat → Nat → Prop}

theorem originatesIn_empty : empty.OriginatesIn created := by
  rintro r nodeId (h | h) <;> exact absurd h (Set.notMem_empty r)

variable {c' : Contents}

section

variable (h : c.OriginatesIn created)

include h

theorem OriginatesIn.mono
    (hidx : ∀ {range}, range.kind = .relationship → ∀ id ∈ c'.index range, id ∈ c.index range) :
    c'.OriginatesIn created := by
  rintro r nodeId (hr | hr)
  · exact h r nodeId (.inl (hidx rfl r hr))
  · exact h r nodeId (.inr (hidx rfl r hr))

theorem OriginatesIn.congr (hsame : SameRelationshipsIn c c') :
    c'.OriginatesIn created :=
  h.mono fun hkind id => (hsame.index hkind id).mp

theorem OriginatesIn.putRelationship (rel : Relationship) {new : List IndexRange}
    (hnew : ∀ {range}, range ∈ new → range ∈ rel.leavingRanges ∨ range ∈ rel.enteringRanges)
    (hcreated : new ≠ [] → created rel.id rel.fromId rel.toId) :
    (c.putRelationship rel new).OriginatesIn created := by
  have hend : ∀ {range}, range ∈ new → ∀ {nodeId}, (range = .outgoing nodeId ∨
      range = .incoming nodeId) → nodeId = rel.fromId ∨ nodeId = rel.toId := by
    intro range hrange nodeId heq
    have hmem := hnew hrange
    simp only [Relationship.leavingRanges, Relationship.enteringRanges, mem_cons,
      not_mem_nil, or_false] at hmem
    rcases heq with rfl | rfl
    · exact .inl (by simpa using hmem)
    · exact .inr (by simpa using hmem)
  rintro r nodeId (hr | hr)
  · rcases hr with ⟨hold, -⟩ | ⟨rfl, hrange⟩
    · exact h r nodeId (.inl hold)
    · exact ⟨_, _, hcreated (ne_nil_of_mem hrange), hend hrange (.inl rfl)⟩
  · rcases hr with ⟨hold, -⟩ | ⟨rfl, hrange⟩
    · exact h r nodeId (.inr hold)
    · exact ⟨_, _, hcreated (ne_nil_of_mem hrange), hend hrange (.inr rfl)⟩

theorem OriginatesIn.dropRelationships (ids : Set Nat) :
    (c.dropRelationships ids).OriginatesIn created :=
  h.mono fun _ _ hmem => hmem.1

theorem OriginatesIn.apply {cmd : Command}
    (hcreated : ∀ id fromId toId relType props,
      cmd = .createRelationship id fromId toId relType props → created id fromId toId) :
    (c.apply cmd).OriginatesIn created := by
  refine KeptOnRelationships.apply (P := fun c => c.OriginatesIn created)
    ⟨fun r hr => ?_, fun id old new _ _ => ?_,
      fun ids _ => h.dropRelationships ids⟩ OriginatesIn.congr h
  · refine h.putRelationship r (fun hrange => ?_) fun _ => hcreated _ _ _ _ _ hr
    exact (mem_createdRanges.mp hrange).imp_right And.right
  · exact h.putRelationship new (fun hmem => absurd hmem not_mem_nil) fun hne => absurd rfl hne

end

/-! ## What stays -/

variable {cmd : Command}

theorem isSome_nodes_apply (hids : c.IdsMatch) {id : Nat} (h : (c.nodes id).isSome)
    (hdelete : cmd ≠ .deleteNode id) : ((c.apply cmd).nodes id).isSome := by
  rw [nodes_apply hids, nodeAfter]
  split
  · rename_i hnode
    cases cmd with
    | deleteNode => exact absurd (by cases hnode; rfl) hdelete
    | createNode => rfl
    | setNodeProperty | removeNodeProperty | addNodeLabel | removeNodeLabel =>
      rwa [rewriteNode, Option.isSome_map]
    | _ => cases hnode
  · exact h

variable {r : Nat}

section

variable (h : (c.relationships r).isSome)

include h

theorem isSome_relationships_putRelationship (rel : Relationship) (new : List IndexRange) :
    ((c.putRelationship rel new).relationships r).isSome := by
  rw [relationships_putRelationship]
  split
  · rfl
  · exact h

theorem isSome_relationships_dropRelationships {ids : Set Nat}
    (hids : r ∉ ids) : ((c.dropRelationships ids).relationships r).isSome := by
  obtain ⟨rel, hr⟩ := Option.isSome_iff_exists.mp h
  exact Option.isSome_iff_exists.mpr ⟨rel, relationships_dropRelationships.mpr ⟨hids, hr⟩⟩

theorem isSome_relationships_apply (hdelete : cmd ≠ .deleteRelationship r)
    (hnode : ∀ nodeId, cmd = .deleteNode nodeId → r ∉ c.listedAt nodeId) :
    ((c.apply cmd).relationships r).isSome := by
  refine KeptOnRelationships.apply (P := fun c => (c.relationships r).isSome)
    ⟨fun r' _ => isSome_relationships_putRelationship h r' _,
      fun _ _ new _ _ => isSome_relationships_putRelationship h new [], fun ids hids => ?_⟩
    (fun h hsame => by rwa [hsame.relationships]) h
  refine isSome_relationships_dropRelationships h fun hmem => ?_
  obtain rfl | ⟨nodeId, rfl, hlisted⟩ := hids r hmem
  · exact hdelete rfl
  · exact hnode nodeId rfl hlisted

end

end Contents

/-! ## What the log says about a store -/

/-- A relationship is created with these end points. -/
def Creates (logged : Command → Prop) (r fromId toId : Nat) : Prop :=
  ∃ relType properties, logged (.createRelationship r fromId toId relType properties)

/-- A relationship is deleted, or a node that it was created at. -/
def Removes (logged : Command → Prop) (r : Nat) : Prop :=
  logged (.deleteRelationship r) ∨ ∃ fromId toId, Creates logged r fromId toId ∧
    (logged (.deleteNode fromId) ∨ logged (.deleteNode toId))

theorem Removes.mono {logged logged' : Command → Prop} (h : ∀ cmd, logged cmd → logged' cmd)
    {r : Nat} (hremoves : Removes logged r) : Removes logged' r := by
  refine hremoves.imp (h _) ?_
  rintro ⟨fromId, toId, ⟨relType, props, hcreated⟩, hdeleted⟩
  exact ⟨fromId, toId, ⟨relType, props, h _ hcreated⟩, hdeleted.imp (h _) (h _)⟩

/-- The node ids that a command makes. -/
def newNodes : Command → List Nat
  | .createNode id _ _ => [id]
  | _ => []

/-- The relationship ids that a command makes. -/
def newRelationships : Command → List Nat
  | .createRelationship id _ _ _ _ => [id]
  | _ => []

/-- Each of some nodes and relationships is in the store or removed by a logged command. -/
def PartitionedGraphStore.Tracks (store : PartitionedGraphStore) (logged : Command → Prop)
    (nodes relationships : List Nat) : Prop :=
  ∃ parts, store.Parts parts ∧ (∀ i, (parts i).OriginatesIn (Creates logged)) ∧
    (∀ id ∈ nodes, logged (.deleteNode id) ∨
      ∃ i < store.partitions.length, ((parts i).nodes id).isSome) ∧
    ∀ r ∈ relationships, Removes logged r ∨
      ∃ i < store.partitions.length, ((parts i).relationships r).isSome

namespace PartitionedGraphStore

variable {store : PartitionedGraphStore} {logged : Command → Prop} {nodes relationships : List Nat}

theorem fresh_tracks (place : LocalPartitionMap) : (fresh place).Tracks logged [] [] :=
  ⟨_, fresh_parts place, fun _ => Contents.originatesIn_empty, forall_mem_nil _, forall_mem_nil _⟩

section

variable (h : store.Tracks logged nodes relationships)

include h

theorem Tracks.mono {logged' : Command → Prop} (hlogged : ∀ cmd, logged cmd → logged' cmd) :
    store.Tracks logged' nodes relationships := by
  obtain ⟨parts, hparts, horigin, hnodes, hrels⟩ := h
  refine ⟨parts, hparts, fun i r nodeId hr => ?_,
    fun id hid => (hnodes id hid).imp_left (hlogged _),
    fun r hr => (hrels r hr).imp_left (Removes.mono hlogged)⟩
  obtain ⟨fromId, toId, ⟨relType, props, hcreated⟩, hend⟩ := horigin i r nodeId hr
  exact ⟨fromId, toId, ⟨relType, props, hlogged _ hcreated⟩, hend⟩

theorem Tracks.subset {nodes' relationships' : List Nat} (hnodes : nodes' ⊆ nodes)
    (hrels : relationships' ⊆ relationships) :
    store.Tracks logged nodes' relationships' := by
  obtain ⟨parts, hparts, horigin, hnodes', hrels'⟩ := h
  exact ⟨parts, hparts, horigin, fun id hid => hnodes' id (hnodes hid),
    fun r hr => hrels' r (hrels hr)⟩

/-- A logged command is applied. -/
theorem Tracks.apply (shard : Nat) {command : Command} (hcmd : logged command) :
    ∃ store', store.apply shard command = .ok store' ∧
      store'.Tracks logged (nodes ++ newNodes command)
        (relationships ++ newRelationships command) := by
  obtain ⟨parts, hparts, horigin, hnodes, hrels⟩ := h
  obtain ⟨store', hok, hplace, hparts'⟩ := hparts.apply shard command
  have hlen := length_partitions_eq hplace
  obtain ⟨partition, hget⟩ := store.exists_partition shard
  have hlt := (List.getElem?_eq_some_iff.mp hget).1
  have hself : applyAt store.placement parts shard command
      (store.placement.localPartitionIdForShard shard) =
        (parts (store.placement.localPartitionIdForShard shard)).apply command :=
    Function.update_self _ _ _
  refine ⟨store', hok, _, hparts', fun i =>
    applyAt_keeps (P := fun c => c.OriginatesIn (Creates logged)) (horigin i) fun _ => ?_, ?_, ?_⟩
  · refine (horigin i).apply fun id fromId toId relType props heq => ?_
    exact ⟨relType, props, heq ▸ hcmd⟩
  · rw [hlen]
    intro id hid
    rcases List.mem_append.mp hid with hold | hnew
    · rcases hnodes id hold with hdeleted | ⟨i, hi, hstored⟩
      · exact .inl hdeleted
      · by_cases hdelete : command = .deleteNode id
        · exact .inl (hdelete ▸ hcmd)
        · have hsound := hparts i _ (getElem?_eq_getElem hi)
          exact .inr ⟨i, hi, applyAt_keeps (P := fun c => (c.nodes id).isSome) hstored fun _ =>
            Contents.isSome_nodes_apply hsound.idsMatch hstored hdelete⟩
    · refine .inr ⟨_, hlt, ?_⟩
      rw [hself]
      cases command with
      | createNode =>
        rw [mem_singleton.mp hnew, Contents.apply, Contents.nodes_putNode, if_pos rfl]
        rfl
      | _ => exact absurd hnew not_mem_nil
  · rw [hlen]
    intro r hr
    rcases mem_append.mp hr with hold | hnew
    · rcases hrels r hold with hremoved | ⟨i, hi, hstored⟩
      · exact .inl hremoved
      · by_cases hdelete : command = .deleteRelationship r
        · exact .inl (.inl (hdelete ▸ hcmd))
        · by_cases hnode : ∃ nodeId, command = .deleteNode nodeId ∧ r ∈ (parts i).listedAt nodeId
          · -- the node is an end point that the relationship was created with
            obtain ⟨nodeId, rfl, hlisted⟩ := hnode
            obtain ⟨fromId, toId, hcreated, rfl | rfl⟩ := horigin i r nodeId hlisted
            · exact .inl (.inr ⟨_, _, hcreated, .inl hcmd⟩)
            · exact .inl (.inr ⟨_, _, hcreated, .inr hcmd⟩)
          · refine .inr ⟨i, hi, applyAt_keeps (P := fun c => (c.relationships r).isSome) hstored
              fun _ => ?_⟩
            refine Contents.isSome_relationships_apply hstored hdelete fun nodeId heq hlisted => ?_
            exact hnode ⟨nodeId, heq, hlisted⟩
    · refine .inr ⟨_, hlt, ?_⟩
      rw [hself]
      cases command with
      | createRelationship =>
        rw [mem_singleton.mp hnew, Contents.apply, Contents.relationships_putRelationship,
          if_pos rfl]
        rfl
      | _ => exact absurd hnew not_mem_nil

/-- What is not removed is listed by the store. -/
theorem Tracks.mem_nodes {id : Nat} (hid : id ∈ nodes) (hkept : ¬logged (.deleteNode id))
    {list : List Node} (hlist : store.nodes = .ok list) :
    id ∈ list.map Node.id := by
  obtain ⟨parts, hparts, -, hnodes, -⟩ := h
  obtain ⟨lists, hok, hlisted⟩ := hparts.nodes_eq
  cases hok.symm.trans hlist
  obtain ⟨i, hi, hstored⟩ := (hnodes id hid).resolve_left hkept
  obtain ⟨node, hnode⟩ := Option.isSome_iff_exists.mp hstored
  have hnodeId := (hparts i _ (getElem?_eq_getElem hi)).idsMatch.node_id hnode
  exact mem_map.mpr ⟨node, mem_flatMap.mpr ⟨i, mem_range.mpr hi,
    ((hlisted i hi).1 node).mpr (hnodeId.symm ▸ hnode)⟩, hnodeId⟩

theorem Tracks.mem_relationships {r : Nat} (hr : r ∈ relationships) (hkept : ¬Removes logged r)
    {list : List Relationship} (hlist : store.relationships = .ok list) :
    r ∈ list.map Relationship.id := by
  obtain ⟨parts, hparts, -, -, hrels⟩ := h
  obtain ⟨lists, hok, hlisted⟩ := hparts.relationships_eq
  cases hok.symm.trans hlist
  obtain ⟨i, hi, hstored⟩ := (hrels r hr).resolve_left hkept
  obtain ⟨rel, hrel⟩ := Option.isSome_iff_exists.mp hstored
  have hid := (hparts i _ (getElem?_eq_getElem hi)).idsMatch.relationship_id hrel
  exact mem_map.mpr ⟨rel, mem_flatMap.mpr ⟨i, mem_range.mpr hi,
    ((hlisted i hi).1 rel).mpr (hid.symm ▸ hrel)⟩, hid⟩

end

end PartitionedGraphStore

end Neo4r.Storage

namespace Neo4r.Db

open Foundation Storage List Database PartitionedGraphStore.Tracks Fallible

namespace Database

variable {R : Type} {repl : ShardReplicator Command R}
  {db db' : GraphCore R} {nodes relationships : List Nat}

/-- A command is in a log of the server. -/
def Logged (db : Database Command IndexedGraph R) (command : Command) : Prop :=
  ∃ shardId, ∃ entry ∈ (db.logs shardId).written, entry.command = command

/-- Each of some nodes and relationships is in the store or removed by a logged command. -/
def Tracks (db : Database Command IndexedGraph R) (nodes relationships : List Nat) : Prop :=
  db.store.store.Tracks db.Logged nodes relationships

theorem Tracks.of_eq (h : db.Tracks nodes relationships) (hlogs : db'.logs = db.logs)
    (hstore : db'.store = db.store) : db'.Tracks nodes relationships := by
  unfold Tracks Logged at h ⊢
  rw [hlogs, hstore]
  exact h

variable {command : Command} {shard : Nat} {entry : LogEntry Command}

/-- The work of a logged command. -/
theorem applyWork_tracks {graph : IndexedGraph} {logged : Command → Prop}
    (h : graph.store.Tracks logged nodes relationships) (shard : Nat) (hcmd : logged command) :
    ((applyWork graphEngine shard command).run graph).2.store.Tracks logged
      (nodes ++ newNodes command) (relationships ++ newRelationships command) := by
  obtain ⟨store, hok, htracks⟩ := h.apply shard hcmd
  rw [run_applyWork hok]
  exact htracks

/-! ## Writes -/

/-- Logs only grow. -/
def LogsGrow (db db' : Database Command IndexedGraph R) : Prop :=
  ∀ command, db.Logged command → db'.Logged command

instance : IsPreorder (Database Command IndexedGraph R) LogsGrow where
  refl _ _ h := h
  trans _ _ _ h h' command hlogged := h' command (h command hlogged)

theorem logsGrow_of_eq (h : db'.logs = db.logs) : LogsGrow db db' := by
  rintro command ⟨shard, entry, hentry, rfl⟩
  exact ⟨shard, entry, h ▸ hentry, rfl⟩

theorem logged_update {log : SegmentedShardLog Command}
    (hlog : log.written = (db.logs shard).written ++ [entry]) (command : Command) :
    Logged { db with logs := Function.update db.logs shard log } command ↔
      db.Logged command ∨ entry.command = command := by
  have hupdate := fun log => Function.exists_update_iff db.logs (a := shard) (b := log)
    (p := fun _ log => ∃ entry ∈ log.written, entry.command = command)
  have hold := hupdate (db.logs shard)
  rw [Function.update_eq_self] at hold
  rw [Logged, Logged, hold, hupdate, hlog]
  simp only [mem_append, mem_singleton, or_and_right, exists_or, exists_eq_left]
  exact or_right_comm

theorem appendToLog_grows (shard : Nat) (entry : LogEntry Command) :
    Respects LogsGrow (appendToLog shard entry : CoreOp R Unit) := by
  intro db
  rcases appendToLog_cases shard entry db with heq | ⟨log, hlog, -, heq⟩
  · rw [heq]
    exact logsGrow_of_eq rfl
  · rw [heq]
    exact fun command hlogged => (logged_update hlog command).mpr (.inl hlogged)

theorem appendLocalCommand_grows (shard : Nat) (command : Command) :
    Respects LogsGrow
      (appendLocalCommand graphEngine shard command : CoreOp R _) :=
  appendLocalCommand_respects (fun _ => logsGrow_of_eq rfl)
    (fun _ entry _ _ _ => appendToLog_grows shard entry)
    (fun entry db => logsGrow_of_eq
      (congrArg (fun part => part.2.2.1) (appendEntryToLocalRaft_preserves entry db)))
    fun _ _ => logsGrow_of_eq rfl

theorem logged_of_appendLocalCommand
    (h : (appendLocalCommand graphEngine shard command).run db = (.ok entry, db')) :
    db'.Logged command := by
  obtain ⟨-, -, -, -, hcmd, hmem⟩ := appendLocalCommand_ok h
  exact ⟨shard, entry, hmem, hcmd⟩

theorem publish_logs (entry : LogEntry Command) : Preserves logs (do
    publishCommitted repl entry
    applyEntry graphEngine repl entry : CoreOp R Unit) :=
  ((publishCommitted_preserves entry).map fun part => part.2.2.1).bind fun _ =>
    applyEntry_logs entry

/-- A write, of which the command is in the log before it is applied. -/
theorem writeCommand_tracks (h : db.Tracks nodes relationships) {result : Except DatabaseError Unit}
    (hrun : (writeCommand graphEngine repl shard command).run db = (result, db')) :
    db'.Tracks nodes relationships ∧ (result = .ok () →
      db'.Tracks (nodes ++ newNodes command) (relationships ++ newRelationships command)) := by
  rcases happend : (appendLocalCommand graphEngine shard command).run db with ⟨appended, t⟩
  have hstore := (appendLocalCommand_preserves shard command).of_run happend
  have hgrow : LogsGrow db t := by
    have hgrow := appendLocalCommand_grows shard command db
    rwa [happend] at hgrow
  have htracks : t.Tracks nodes relationships := by
    rw [Tracks, hstore]
    exact mono h hgrow
  cases appended with
  | error =>
    rw [writeCommand_eq, run_bind_of_error happend] at hrun
    cases hrun
    exact ⟨htracks, fun hok => by cases hok⟩
  | ok entry =>
    have hlogged := logged_of_appendLocalCommand happend
    obtain ⟨-, rfl, -, -, rfl, -⟩ := appendLocalCommand_ok happend
    rw [writeCommand_eq, run_bind_of_ok happend] at hrun
    have hlogs : db'.logs = t.logs := (publish_logs entry).of_run hrun
    rcases publish_does graphEngine repl entry t result db' hrun with ⟨hsame, hidle⟩ | hdone
    · exact ⟨htracks.of_eq hlogs hsame, fun hok => (hidle hok).elim⟩
    · have hwork := applyWork_tracks htracks entry.shardId hlogged
      rw [hdone] at hwork
      have happlied := mono hwork (logsGrow_of_eq hlogs)
      exact ⟨subset happlied (subset_append_left _ _) (subset_append_left _ _), fun _ => happlied⟩

end Database

namespace GraphDatabase

variable {R : Type} {repl : ShardReplicator Command R} {db db' : GraphDatabase R}
  {nodes relationships : List Nat} {α : Type} (shard : Nat) {labels : List String}
  {fromId toId : Nat} {relType : String}

variable {x : CoreOp R α} {result : Except DatabaseError α} {core : GraphCore R}

theorem run_onCore (h : x.run db.core = (result, core)) :
    (onCore x).run db = (result, { db with core }) := by
  rw [onCore, run_zoom, h]

/-- An operation that does not look at the allocators leaves them alone. -/
theorem of_onCore (h : (onCore x).run db = (result, db')) :
    ∃ core, x.run db.core = (result, core) ∧ db' = { db with core } := by
  rcases hrun : x.run db.core with ⟨result', core⟩
  cases (run_onCore hrun).symm.trans h
  exact ⟨core, rfl, rfl⟩

/-! ## Counters -/

variable (command : Command) {ids : List Nat} {next next' : Nat} {props : Properties}
  {result : Except DatabaseError Nat}

theorem nextNodeId_le_observeIds (db : GraphDatabase R) :
    db.nextNodeId ≤ (observeIds command db).nextNodeId := by
  cases command with
  | createNode | upsertBoundaryNode => exact Nat.le_max_left _ _
  | _ => exact Nat.le_refl _

theorem nextRelationshipId_le_observeIds (db : GraphDatabase R) :
    db.nextRelationshipId ≤ (observeIds command db).nextRelationshipId := by
  cases command with
  | createRelationship => exact Nat.le_max_left _ _
  | _ => exact Nat.le_refl _

theorem core_observeIds (db : GraphDatabase R) : (observeIds command db).core = db.core := by
  cases command <;> rfl

/-- A counter read back from a store is above the ids in it. -/
theorem lt_idAfter {id : Nat} (hid : id ∈ ids) (hmax : id < u64Max) (next : Nat) :
    id < idAfter ids next := by
  have hmem : id + 1 ∈ ids.map fun id => saturatingAdd id 1 :=
    mem_map.mpr ⟨id, hid, saturatingAdd_one_of_lt hmax⟩
  rw [idAfter]
  cases hhighest : (ids.map fun id => saturatingAdd id 1).max? with
  | none =>
    rw [max?_eq_none_iff.mp hhighest] at hmem
    exact absurd hmem not_mem_nil
  | some => exact (max?_eq_some_iff.mp hhighest).2 _ hmem

/-- Different ids, all of them below a counter. -/
structure Below (ids : List Nat) (next : Nat) : Prop where
  lt : ∀ id ∈ ids, id < next
  max : ∀ id ∈ ids, id < u64Max
  nodup : ids.Nodup

theorem Below.raise (h : Below ids next) (hle : next ≤ next') : Below ids next' :=
  { h with lt := fun id hid => (h.lt id hid).trans_le hle }

/-- The counter itself is handed out. -/
theorem Below.concat (h : Below ids next) (hroom : next + 1 < 2 ^ 64) (hlt : next < next') :
    Below (ids ++ [next]) next' := by
  refine ⟨forall_mem_append.mpr ⟨fun id hid => (h.lt id hid).trans hlt, ?_⟩,
    forall_mem_append.mpr ⟨h.max, ?_⟩, ?_⟩
  · exact forall_mem_singleton.mpr hlt
  · exact forall_mem_singleton.mpr (Nat.lt_sub_of_add_lt hroom)
  · refine nodup_append.mpr ⟨h.nodup, nodup_singleton _, ?_⟩
    intro id hid id' hid' heq
    rw [heq, mem_singleton.mp hid'] at hid
    exact Nat.lt_irrefl _ (h.lt _ hid)

/-- The counter is read back from a store that has the highest of the ids. -/
theorem Below.idAfter {stored : List Nat} (h : Below ids next)
    (hstored : ids ≠ [] → ∃ highest ∈ ids, highest ∈ stored ∧ ∀ id ∈ ids, id ≤ highest) :
    Below ids (idAfter stored next') := by
  refine { h with lt := fun id hid => ?_ }
  obtain ⟨highest, hhighest, hmem, hle⟩ := hstored (ne_nil_of_mem hid)
  exact (hle id hid).trans_lt (lt_idAfter hmem (h.max highest hhighest) next')

/-! ## What a server has handed out -/

/-- What holds of the ids that a running server has handed out. -/
structure Issued (db : GraphDatabase R) (nodes relationships : List Nat) : Prop where
  nodesBelow : Below nodes db.nextNodeId
  relationshipsBelow : Below relationships db.nextRelationshipId
  tracks : db.core.Tracks nodes relationships

theorem Issued.raise (h : db.Issued nodes relationships) (hnode : db.nextNodeId ≤ db'.nextNodeId)
    (hrel : db.nextRelationshipId ≤ db'.nextRelationshipId)
    (htracks : db'.core.Tracks nodes relationships) : db'.Issued nodes relationships :=
  ⟨h.nodesBelow.raise hnode, h.relationshipsBelow.raise hrel, htracks⟩

/-- A write, successful or not, raises the counters. -/
theorem writeCommand_run {shard : Nat} {command : Command} {result : Except DatabaseError Unit}
    (h : (writeCommand repl shard command).run db = (result, db')) :
    ∃ core, (Database.writeCommand graphEngine repl shard command).run db.core = (result, core) ∧
      db'.core = core ∧ db.nextNodeId ≤ db'.nextNodeId ∧
      db.nextRelationshipId ≤ db'.nextRelationshipId := by
  rcases hrun : (Database.writeCommand graphEngine repl shard command).run db.core
    with ⟨written, core⟩
  have hcore := run_onCore hrun
  cases written with
  | error =>
    cases (run_bind_of_error hcore).symm.trans h
    exact ⟨core, rfl, rfl, Nat.le_refl _, Nat.le_refl _⟩
  | ok =>
    cases (run_bind_of_ok hcore).symm.trans h
    exact ⟨core, rfl, core_observeIds command _, nextNodeId_le_observeIds command { db with core },
      nextRelationshipId_le_observeIds command { db with core }⟩

theorem writeCommand_issued (h : db.Issued nodes relationships) {shard : Nat} {command : Command}
    {result : Except DatabaseError Unit}
    (hrun : (writeCommand repl shard command).run db = (result, db')) :
    db'.Issued nodes relationships ∧ db.nextNodeId ≤ db'.nextNodeId ∧
      db.nextRelationshipId ≤ db'.nextRelationshipId ∧
      (result = .ok () → db'.core.Tracks (nodes ++ newNodes command)
        (relationships ++ newRelationships command)) := by
  obtain ⟨core, hwrite, rfl, hnode, hrel⟩ := writeCommand_run hrun
  obtain ⟨htracks, hnew⟩ := writeCommand_tracks h.tracks hwrite
  exact ⟨h.raise hnode hrel htracks, hnode, hrel, hnew⟩

/-- The ids of a server stay as they are. -/
def KeepsIssued (db db' : GraphDatabase R) : Prop :=
  ∀ nodes relationships, db.Issued nodes relationships → db'.Issued nodes relationships

instance : IsPreorder (GraphDatabase R) KeepsIssued where
  refl _ _ _ h := h
  trans _ _ _ h h' _ _ hissued := h' _ _ (h _ _ hissued)

theorem writeToNode_keepsIssued (id : Nat) (command : Command) :
    Respects KeepsIssued (writeToNode repl id command) := by
  refine Respects.bind (Respects.lookup _) fun _ => ?_
  refine Respects.bind Respects.current fun _ => ?_
  exact fun _ _ _ h => (writeCommand_issued h rfl).1

theorem writeToRelationship_keepsIssued (id : Nat) (command : Command) :
    Respects KeepsIssued (writeToRelationship repl id command) := by
  refine Respects.bind (Respects.lookup _) fun _ => ?_
  exact fun _ _ _ h => (writeCommand_issued h rfl).1

/-- The id that a call returns. -/
def issued : Except DatabaseError Nat → List Nat
  | .ok id => [id]
  | .error _ => []

/-- A node is written with the id of the counter. -/
theorem createNode_run (hroom : db.nextNodeId + 1 < 2 ^ 64)
    (hrun : (createNode repl labels props).run db = (result, db')) :
    ∃ shard written, (writeCommand repl shard
        (.createNode db.nextNodeId labels props)).run
          { db with nextNodeId := db.nextNodeId + 1 } = (written, db') ∧
      result = written.map fun _ => db.nextNodeId := by
  have hallocate : (allocateNodeId : Op R Nat).run db =
      (.ok db.nextNodeId, { db with nextNodeId := db.nextNodeId + 1 }) :=
    congrArg (fun n => (Except.ok db.nextNodeId, { db with nextNodeId := n }))
      (Nat.mod_eq_of_lt hroom)
  rw [createNode, run_bind_of_ok hallocate, run_bind_of_ok (run_current _)] at hrun
  exact ⟨_, of_bind_pure hrun⟩

theorem createNode_issued (h : db.Issued nodes relationships) (hroom : db.nextNodeId + 1 < 2 ^ 64)
    (hrun : (createNode repl labels props).run db = (result, db')) :
    db'.Issued (nodes ++ issued result) relationships := by
  obtain ⟨shard, written, hwrite, rfl⟩ := createNode_run hroom hrun
  have hallocated : ({ db with nextNodeId := db.nextNodeId + 1 } : GraphDatabase R).Issued nodes
      relationships := h.raise (Nat.le_succ _) (Nat.le_refl _) h.tracks
  obtain ⟨hissued, hnode, -, htracks⟩ := writeCommand_issued hallocated hwrite
  cases written with
  | error => exact (append_nil nodes).symm ▸ hissued
  | ok =>
    refine ⟨h.nodesBelow.concat hroom hnode, hissued.relationshipsBelow, ?_⟩
    exact append_nil relationships ▸ htracks rfl

/-- A relationship is written with the id of the counter, or an end point is missing. -/
theorem createRelationship_run (hroom : db.nextRelationshipId + 1 < 2 ^ 64)
    (hrun : (createRelationship repl fromId toId relType props).run db = (result, db')) :
    (db' = db ∧ ∃ err, result = .error err) ∨
      ∃ shard written, (writeCommand repl shard
          (.createRelationship db.nextRelationshipId fromId toId relType props)).run
            { db with nextRelationshipId := db.nextRelationshipId + 1 } = (written, db') ∧
        result = written.map fun _ => db.nextRelationshipId := by
  rw [createRelationship, run_bind, run_lookup] at hrun
  cases hfrom : ensureLocalNodeExists fromId db with
  | error err =>
    rw [hfrom] at hrun
    cases hrun
    exact .inl ⟨rfl, err, rfl⟩
  | ok =>
    rw [hfrom] at hrun
    dsimp only at hrun
    rw [run_bind, run_lookup] at hrun
    cases hto : ensureNodeOrBoundaryExists toId db with
    | error err =>
      rw [hto] at hrun
      cases hrun
      exact .inl ⟨rfl, err, rfl⟩
    | ok =>
      rw [hto] at hrun
      dsimp only at hrun
      have hallocate : (allocateRelationshipId : Op R Nat).run db =
          (.ok db.nextRelationshipId,
            { db with nextRelationshipId := db.nextRelationshipId + 1 }) :=
        congrArg (fun n => (Except.ok db.nextRelationshipId, { db with nextRelationshipId := n }))
          (Nat.mod_eq_of_lt hroom)
      rw [run_bind_of_ok hallocate, run_bind_of_ok (run_current _)] at hrun
      exact .inr ⟨_, of_bind_pure hrun⟩

theorem createRelationship_issued (h : db.Issued nodes relationships)
    (hroom : db.nextRelationshipId + 1 < 2 ^ 64)
    (hrun : (createRelationship repl fromId toId relType props).run db = (result, db')) :
    db'.Issued nodes (relationships ++ issued result) := by
  rcases createRelationship_run hroom hrun with ⟨rfl, err, rfl⟩ | ⟨shard, written, hwrite, rfl⟩
  · exact (append_nil relationships).symm ▸ h
  · have hallocated : ({ db with nextRelationshipId := db.nextRelationshipId + 1 } :
        GraphDatabase R).Issued nodes relationships :=
      h.raise (Nat.le_refl _) (Nat.le_succ _) h.tracks
    obtain ⟨hissued, -, hrel, htracks⟩ := writeCommand_issued hallocated hwrite
    cases written with
    | error => exact (append_nil relationships).symm ▸ hissued
    | ok =>
      refine ⟨hissued.nodesBelow, h.relationshipsBelow.concat hroom hrel, ?_⟩
      exact append_nil nodes ▸ htracks rfl

/-! ## Opening -/

/-- On logs that stay as they are, what the server tracks is kept. -/
def ReplayKeeps (logs : Nat → SegmentedShardLog Command) (db db' : GraphDatabase R) : Prop :=
  db.core.logs = logs → db'.core.logs = logs ∧
    ∀ nodes relationships, db.core.Tracks nodes relationships → db'.core.Tracks nodes relationships

section Replay

variable {logs : Nat → SegmentedShardLog Command}

instance : IsPreorder (GraphDatabase R) (ReplayKeeps logs) where
  refl _ h := ⟨h, fun _ _ htracks => htracks⟩
  trans _ _ _ h h' hlogs := by
    obtain ⟨hlogs', htracks⟩ := h hlogs
    obtain ⟨hlogs'', htracks'⟩ := h' hlogs'
    exact ⟨hlogs'', fun _ _ hdb => htracks' _ _ (htracks _ _ hdb)⟩

theorem replayKeeps_of_eq (hlogs : db'.core.logs = db.core.logs)
    (hstore : db'.core.store = db.core.store) : ReplayKeeps logs db db' :=
  fun h => ⟨hlogs.trans h, fun _ _ htracks => htracks.of_eq hlogs hstore⟩

variable {entry : LogEntry Command} {shard : Nat}

/-- An entry of the logs is applied. -/
theorem applyEntry_replayKeeps (hentry : entry ∈ (logs shard).written) :
    Respects (ReplayKeeps logs) (applyEntry repl entry) := by
  refine Respects.bind ?_ fun _ => ?_
  · intro db hlogs
    have hlogs' :
      ((Database.applyEntry graphEngine repl entry).run db.core).2.logs = db.core.logs :=
      applyEntry_logs entry db.core
    refine ⟨hlogs'.trans hlogs, fun nodes relationships htracks => ?_⟩
    rcases applyEntry_does graphEngine repl entry db.core _ _ Prod.mk.eta.symm
      with ⟨hsame, -⟩ | hdone
    · exact htracks.of_eq hlogs' hsame
    · have hlogged : db.core.Logged entry.command := ⟨shard, entry, hlogs ▸ hentry, rfl⟩
      have hwork := applyWork_tracks htracks entry.shardId hlogged
      rw [hdone] at hwork
      exact mono
        (hwork.subset (subset_append_left _ _) (subset_append_left _ _))
        (logsGrow_of_eq hlogs')
  · intro db
    refine replayKeeps_of_eq ?_ ?_
    · exact congrArg Database.logs (core_observeIds _ db)
    · exact congrArg store (core_observeIds _ db)

theorem replayEntry_replayKeeps (hentry : entry ∈ (logs shard).written) :
    Respects (ReplayKeeps logs) (replayEntry repl entry) := by
  refine Respects.bind (fun _ => replayKeeps_of_eq rfl rfl) fun _ => ?_
  refine Respects.bind (fun _ => replayKeeps_of_eq rfl rfl) fun _ => ?_
  split
  · exact applyEntry_replayKeeps hentry
  · exact Respects.pure ()

theorem replayShard_replayKeeps (shard : Nat) :
    Respects (ReplayKeeps logs) (replayShard repl shard) := by
  refine Respects.bind (fun _ => replayKeeps_of_eq rfl rfl) fun start => ?_
  intro db hlogs
  revert hlogs
  rw [run_bind, onCore, run_zoom, run_lookup]
  cases hlog : log shard db.core with
  | error => exact refl (r := ReplayKeeps logs) db
  | ok =>
    obtain ⟨-, rfl⟩ := of_ofShard_ok hlog
    intro hlogs
    refine Respects.forEach (R := ReplayKeeps logs) (fun entry hentry => ?_) db hlogs
    have hmem := (SegmentedShardLog.mem_replayFrom.mp hentry).1
    rw [hlogs] at hmem
    exact replayEntry_replayKeeps hmem

theorem replayLogs_replayKeeps : Respects (ReplayKeeps logs) (replayLogs repl) := by
  refine Respects.bind Respects.current fun db => ?_
  exact Respects.forEach fun shard _ =>
    replayShard_replayKeeps shard

end Replay

theorem recoverLogPosition_preserves : Preserves (fun db => (db.store, db.logs))
      (recoverLogPosition shard : CoreOp R Unit) := by
  intro db
  rw [recoverLogPosition, run_change]
  split <;> rfl

theorem of_mapError_ok {ε ε' : Type} {f : ε → ε'} {x : Except ε α} {a : α}
    (h : x.mapError f = .ok a) : x = .ok a := by
  cases x with
  | error => cases h
  | ok =>
    cases h
    rfl

theorem recoverAllocatorsFromStore_ok
    (h : (recoverAllocatorsFromStore : Op R Unit).run db = (.ok (), db')) :
    ∃ nodes relationships, db.core.store.store.nodes = .ok nodes ∧
      db.core.store.store.relationships = .ok relationships ∧
      db'.nextNodeId = idAfter (nodes.map Node.id) db.nextNodeId ∧
      db'.nextRelationshipId = idAfter (relationships.map Relationship.id) db.nextRelationshipId ∧
      db'.core.store = db.core.store ∧ db'.core.logs = db.core.logs := by
  obtain ⟨nodes, hnodes, h₁⟩ := of_lookup_bind_ok h
  obtain ⟨_, t₂, hchange, h₂⟩ := of_bind_ok h₁
  cases hchange
  obtain ⟨relationships, hrels, h₃⟩ := of_lookup_bind_ok h₂
  obtain ⟨_, t₄, hchange', h₄⟩ := of_bind_ok h₃
  cases hchange'
  obtain ⟨_, t₅, hcur, h₅⟩ := of_bind_ok h₄
  cases hcur
  obtain ⟨core, hrecover, rfl⟩ := of_onCore h₅
  have hcore := (Preserves.forEach fun shard _ =>
    recoverLogPosition_preserves shard).of_run hrecover
  exact ⟨nodes, relationships, of_mapError_ok hnodes, of_mapError_ok hrels, rfl, rfl,
    congrArg Prod.fst hcore, congrArg Prod.snd hcore⟩

/-- The highest of some ids is not among those removed. -/
def HighestKept (ids : List Nat) (removed : Nat → Prop) : Prop :=
  ∀ highest ∈ ids, (∀ id ∈ ids, id ≤ highest) → ¬removed highest

theorem HighestKept.exists {removed : Nat → Prop} (h : HighestKept ids removed) (hne : ids ≠ []) :
    ∃ highest ∈ ids, ¬removed highest ∧ ∀ id ∈ ids, id ≤ highest := by
  obtain ⟨highest, hmax⟩ := Option.ne_none_iff_exists'.mp fun hnone =>
    hne (max?_eq_none_iff.mp hnone)
  obtain ⟨hmem, hle⟩ := max?_eq_some_iff.mp hmax
  exact ⟨highest, hmem, h highest hmem hle, hle⟩

/-- A server is opened on files that still have the highest ids. -/
theorem restart_issued (h : db.Issued nodes relationships)
    (hnodes : HighestKept nodes fun id => db.core.Logged (.deleteNode id))
    (hrels : HighestKept relationships (Removes db.core.Logged)) {fresh : R}
    (hrun : restart repl fresh db = (.ok (), db')) : db'.Issued nodes relationships := by
  obtain ⟨_, t₁, hgroups, h₁⟩ := of_bind_ok hrun
  obtain ⟨_, t₂, hreplay, h₂⟩ := of_bind_ok h₁
  obtain ⟨stored, stored', hstored, hstored', hnext, hnext', hstore, hlogs⟩ :=
    recoverAllocatorsFromStore_ok h₂
  have hkept : t₁.core.logs = db.core.logs ∧ t₁.core.store = db.core.store := by
    obtain ⟨core, hrebuild, rfl⟩ := of_onCore hgroups
    have hpreserves := Preserves.of_run ignoresCluster_stored.rebuildRaftGroups hrebuild
    exact ⟨congrArg (fun part => part.2.2.1) hpreserves, congrArg Prod.fst hpreserves⟩
  have hreplayed := @replayLogs_replayKeeps _ repl db.core.logs t₁
  rw [hreplay] at hreplayed
  obtain ⟨hlogs₂, htracks⟩ := hreplayed hkept.1
  have htracks₂ := htracks nodes relationships (h.tracks.of_eq hkept.1 hkept.2)
  have hlogged : ∀ command, t₂.core.Logged command → db.core.Logged command :=
    logsGrow_of_eq hlogs₂.symm
  refine ⟨?_, ?_, htracks₂.of_eq hlogs hstore⟩
  · rw [hnext]
    refine h.nodesBelow.idAfter fun hne => ?_
    obtain ⟨highest, hmem, hremoved, hle⟩ := hnodes.exists hne
    exact ⟨highest, hmem,
      htracks₂.mem_nodes hmem (fun hdeleted => hremoved (hlogged _ hdeleted)) hstored,
      hle⟩
  · rw [hnext']
    refine h.relationshipsBelow.idAfter fun hne => ?_
    obtain ⟨highest, hmem, hremoved, hle⟩ := hrels.exists hne
    exact ⟨highest, hmem,
      htracks₂.mem_relationships hmem (fun hremoves => hremoved (hremoves.mono hlogged)) hstored',
        hle⟩

end GraphDatabase

/-! ## Runs -/

/-- A server with the ids that it has returned. -/
structure IdHistory where
  db : GraphDatabase Unit
  nodes : List Nat
  relationships : List Nat

/-- The calls that write single records, and a restart. -/
inductive IdEvent where
  | createNode (labels : List String) (properties : Properties)
  | createRelationship (fromId toId : Nat) (relType : String) (properties : Properties)
  | setNodeProperty (id : Nat) (key : String) (value : Value)
  | removeNodeProperty (id : Nat) (key : String)
  | addNodeLabel (id : Nat) (label : String)
  | removeNodeLabel (id : Nat) (label : String)
  | setRelationshipProperty (id : Nat) (key : String) (value : Value)
  | removeRelationshipProperty (id : Nat) (key : String)
  | deleteRelationship (id : Nat)
  | deleteNode (id : Nat)
  | restart

namespace IdHistory

open GraphDatabase

/-- The server after a call that returns no id. -/
def after (s : IdHistory) (call : GraphDatabase.Op Unit Unit) : IdHistory :=
  { s with db := (call.run s.db).2 }

/-- What an event does on a single server. -/
def next (s : IdHistory) : IdEvent → IdHistory
  | .createNode labels properties =>
    let created := (createNode (noopShardReplicator Command) labels properties).run s.db
    { s with db := created.2, nodes := s.nodes ++ issued created.1 }
  | .createRelationship fromId toId relType properties =>
    let created := (createRelationship (noopShardReplicator Command) fromId toId relType
      properties).run s.db
    { s with db := created.2, relationships := s.relationships ++ issued created.1 }
  | .setNodeProperty id key value =>
    s.after (setNodeProperty (noopShardReplicator Command) id key value)
  | .removeNodeProperty id key => s.after (removeNodeProperty (noopShardReplicator Command) id key)
  | .addNodeLabel id label => s.after (addNodeLabel (noopShardReplicator Command) id label)
  | .removeNodeLabel id label => s.after (removeNodeLabel (noopShardReplicator Command) id label)
  | .setRelationshipProperty id key value =>
    s.after (setRelationshipProperty (noopShardReplicator Command) id key value)
  | .removeRelationshipProperty id key =>
    s.after (removeRelationshipProperty (noopShardReplicator Command) id key)
  | .deleteRelationship id => s.after (deleteRelationship (noopShardReplicator Command) id)
  | .deleteNode id => s.after (deleteNode (noopShardReplicator Command) id)
  | .restart => { s with db := (restart (noopShardReplicator Command) () s.db).2 }

/-- A server starts on a new data directory, and a restart is one that succeeds. -/
def machine : Machine IdHistory IdEvent where
  init s := (∃ placement, s.db.core.store.store = .fresh placement) ∧
    (∀ shardId, (s.db.core.logs shardId).written = [] ∧ s.db.core.checkpoints shardId = none ∧
      s.db.core.commits shardId = none) ∧
    s.db.nextNodeId = 0 ∧ s.db.nextRelationshipId = 0 ∧ s.nodes = [] ∧ s.relationships = []
  enabled s event := event = .restart → (restart (noopShardReplicator Command) () s.db).1 = .ok ()
  next := next

/-- No counter is at its end, and a restart finds the highest ids in the store. -/
def KeepsIds (s : IdHistory) : IdEvent → Prop
  | .createNode _ _ => s.db.nextNodeId + 1 < 2 ^ 64
  | .createRelationship _ _ _ _ => s.db.nextRelationshipId + 1 < 2 ^ 64
  | .restart => HighestKept s.nodes (fun id => s.db.core.Logged (.deleteNode id)) ∧
      HighestKept s.relationships (Removes s.db.core.Logged)
  | _ => True

theorem next_issued {s : IdHistory} {event : IdEvent} (h : s.db.Issued s.nodes s.relationships)
    (henabled : machine.enabled s event) (hkeeps : s.KeepsIds event) :
    (s.next event).db.Issued (s.next event).nodes (s.next event).relationships := by
  cases event with
  | createNode => exact createNode_issued h hkeeps rfl
  | createRelationship => exact createRelationship_issued h hkeeps rfl
  | setNodeProperty | removeNodeProperty | addNodeLabel | removeNodeLabel =>
    exact writeToNode_keepsIssued _ _ _ _ _ h
  | setRelationshipProperty | removeRelationshipProperty | deleteRelationship =>
    exact writeToRelationship_keepsIssued _ _ _ _ _ h
  | deleteNode => exact writeToNode_keepsIssued _ _ _ _ _ h
  | restart => exact restart_issued h hkeeps.1 hkeeps.2 (Prod.ext (henabled rfl) rfl)

/-- **No id is handed out twice** in a run in which every restart finds the highest ids still in
the store. -/
theorem ids_never_reused {s : IdHistory} (hs : (machine.restrict KeepsIds).Reachable s) :
    s.nodes.Nodup ∧ s.relationships.Nodup := by
  have hissued : s.db.Issued s.nodes s.relationships := by
    refine hs.invariant (P := fun s => s.db.Issued s.nodes s.relationships) ?_ ?_
    · rintro s ⟨⟨placement, hstore⟩, -, hnode, hrelationship, hnodes, hrelationships⟩
      have hbelow : ∀ next, Below [] next := fun next =>
        ⟨forall_mem_nil _, forall_mem_nil _, nodup_nil⟩
      rw [hnodes, hrelationships]
      refine ⟨hbelow _, hbelow _, ?_⟩
      rw [Tracks, hstore]
      exact PartitionedGraphStore.fresh_tracks placement
    · rintro s event - h ⟨henabled, hkeeps⟩
      exact next_issued h henabled hkeeps
  exact ⟨hissued.nodesBelow.nodup, hissued.relationshipsBelow.nodup⟩

/-- A new server with one shard. -/
def newServer : IdHistory := ⟨⟨graphServer, 0, 0⟩, [], []⟩

theorem newServer_init : machine.init newServer :=
  ⟨⟨_, rfl⟩, fun _ => ⟨rfl, rfl, rfl⟩, rfl, rfl, rfl, rfl⟩

/-- Two nodes and a relationship, a restart, and a third node. -/
def createdAndRestarted : List IdEvent :=
  [.createNode [] [], .createNode [] [], .createRelationship 0 1 "KNOWS" [], .restart,
    .createNode [] []]

/-- Nothing is removed before the restart. -/
theorem ids_never_reused_createdAndRestarted :
    (machine.run newServer createdAndRestarted).nodes = [0, 1, 2] ∧
      (machine.run newServer createdAndRestarted).nodes.Nodup ∧
      (machine.run newServer createdAndRestarted).relationships.Nodup := by
  have hcommands : ∀ command,
      (machine.run newServer (createdAndRestarted.take 3)).db.core.Logged command →
      command ∈ [Command.createNode 0 [] [], .createNode 1 [] [],
        .createRelationship 0 0 1 "KNOWS" []] := by
    rintro command ⟨shardId, entry, hentry, rfl⟩
    cases shardId with
    | zero => exact mem_map_of_mem hentry
    | succ => exact absurd hentry not_mem_nil
  have hnodes : ∀ id, ¬(machine.run newServer (createdAndRestarted.take 3)).db.core.Logged
      (.deleteNode id) := fun id hdeleted => by simpa using hcommands _ hdeleted
  refine ⟨rfl, ids_never_reused (Machine.Reachable.run (m := machine.restrict KeepsIds)
    (.start newServer_init) ?_)⟩
  refine ⟨⟨fun h => (by cases h), (by decide : 0 + 1 < 2 ^ 64)⟩,
    ⟨fun h => (by cases h), (by decide : 1 + 1 < 2 ^ 64)⟩,
    ⟨fun h => (by cases h), (by decide : 0 + 1 < 2 ^ 64)⟩, ⟨fun _ => rfl, ?_, ?_⟩,
    ⟨fun h => (by cases h), (by decide : 2 + 1 < 2 ^ 64)⟩, trivial⟩
  · exact fun highest _ _ => hnodes highest
  · rintro highest _ _ (hdeleted | ⟨fromId, toId, -, hdeleted | hdeleted⟩)
    · simpa using hcommands _ hdeleted
    · exact hnodes _ hdeleted
    · exact hnodes _ hdeleted

/-- The second of two nodes is deleted before a restart, and a third is created. -/
def deletedAndRestarted : List IdEvent :=
  [.createNode [] [], .createNode [] [], .deleteNode 1, .restart, .createNode [] []]

/-- The third node gets the id of the second one. -/
theorem deleted_id_reused :
    machine.Reachable (machine.run newServer deletedAndRestarted) ∧
      (machine.run newServer deletedAndRestarted).nodes = [0, 1, 1] := by
  refine ⟨(Machine.Reachable.start newServer_init).run ?_, rfl⟩
  exact ⟨fun h => (by cases h), fun h => (by cases h), fun h => (by cases h), fun _ => rfl,
    fun h => (by cases h), trivial⟩

end IdHistory

end Neo4r.Db
