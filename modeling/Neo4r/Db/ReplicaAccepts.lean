/-
  `Db.ReplicaAccepts`: which entries of a primary its replicas accept.

  A primary checks a command against its store and its own table, when it writes it.  A
  replica checks the entry when it arrives (`append_replicated_entries`): the version of the
  table in the entry against its own table, and the vector indexes against its store with
  the entries before it in the batch.  The two need not agree, and what is between them is
  `Admits`, a condition on the state of the replica before a delivery.
-/
import Neo4r.Db.FollowerSpec
import Neo4r.Db.UniqueConstraint
import Neo4r.Db.VectorCheck

set_option autoImplicit false

namespace Neo4r.Db

open Foundation Storage IndexedGraph Function List SegmentedShardLog Fallible Respects

/-! ## Acceptance -/

/-- The node that a read finds. -/
def IndexedGraph.nodeNow (graph : IndexedGraph) (id : Nat) : Option Node :=
  match graph.node id with
  | .ok node => node
  | .error _ => none

namespace Database

variable {R : Type}

/-- What the replica has to find when an entry arrives after others of its batch: the table
of the entry is the one the replica has, the replica has a copy of the shard, and the node
that the command writes fits the vector indexes. -/
structure Admits (db : Database Command IndexedGraph R) (before : List Command)
    (entry : LogEntry Command) : Prop where
  version : entry.configVersion = 0 ∨ entry.configVersion = db.routingTable.version
  copy : db.routingTable.hasLocalCopy entry.shardId db.config.serverId = true
  fits : CommandFits db.store.indexes db.store.nodeNow before entry.command

variable {db : GraphCore R} {entries : List (LogEntry Command)} {shardMap : ShardMap} {shard : Nat}
  {entry : LogEntry Command} {next : Nat}

theorem validateReplicatedEntryMetadata_ok_iff :
    validateReplicatedEntryMetadata entry db = .ok () ↔
      entry.configVersion = 0 ∨ entry.configVersion = db.routingTable.version := by
  unfold validateReplicatedEntryMetadata
  split
  · next h => exact iff_of_false nofun fun h' => h'.elim h.1 h.2
  · next h => exact iff_of_true rfl (by tauto)

theorem ensureLocalCopy_ok_iff :
    ensureLocalCopy shard db = .ok () ↔
      db.routingTable.hasLocalCopy shard db.config.serverId = true := by
  unfold ensureLocalCopy
  split
  · next h => exact iff_of_true rfl h
  · next h => exact iff_of_false nofun h

/-- A command on a node is in the log of the shard that owns the node. -/
def Routed (shardMap : ShardMap) (entry : LogEntry Command) : Prop :=
  ∀ id, nodeOf entry.command = some id → entry.shardId = shardMap.ownerOfNode id

/-- The entry is in the right log and its properties can be stored. -/
def Sendable (shardMap : ShardMap) (entry : LogEntry Command) : Prop :=
  Routed shardMap entry ∧ validateStorablePropertiesForCommand entry.command = .ok ()

/-- Entries of one shard that follow each other from an index on, as a primary sends them. -/
structure Follows (shardMap : ShardMap) (shardId next : Nat) (entries : List (LogEntry Command)) :
    Prop where
  shard : ∀ entry ∈ entries, entry.shardId = shardId
  index : ∀ (i : Nat) (entry : LogEntry Command), entries[i]? = some entry → entry.index = next + i
  word : ∀ entry ∈ entries, entry.index ≤ u64Max
  sendable : ∀ entry ∈ entries, Sendable shardMap entry

theorem Follows.append {entries' : List (LogEntry Command)}
    (h : Follows shardMap shard next (entries ++ entries')) :
    Follows shardMap shard next entries ∧
      Follows shardMap shard (next + entries.length) entries' := by
  have hleft := fun entry (hmem : entry ∈ entries) => mem_append_left entries' hmem
  have hright := fun entry (hmem : entry ∈ entries') => mem_append_right entries hmem
  constructor
  · refine ⟨fun e he => h.shard e (hleft e he), fun i e he => h.index i e ?_,
      fun e he => h.word e (hleft e he), fun e he => h.sendable e (hleft e he)⟩
    rwa [List.getElem?_append_left (List.getElem?_eq_some_iff.mp he).1]
  · refine ⟨fun e he => h.shard e (hright e he), fun i e he => ?_,
      fun e he => h.word e (hright e he), fun e he => h.sendable e (hright e he)⟩
    rw [Nat.add_assoc]
    refine h.index (entries.length + i) e ?_
    rwa [getElem?_append_right (Nat.le_add_right _ _), Nat.add_sub_cancel_left]

theorem Follows.tail (h : Follows shardMap shard next (entry :: entries)) :
    Follows shardMap shard (next + 1) entries :=
  (show Follows shardMap shard next ([entry] ++ entries) from h).append.2

section Acceptance

variable [BEq Command]

/-- Entries that follow each other from the next index on are accepted exactly if each is
admitted after those before it, and then all of them are new. -/
theorem acceptEntries_ok_iff (hread : ∀ id, db.store.node id = .ok (db.store.nodeNow id))
    {accepted : List (LogEntry Command)} {nextIndexes : Nat → Option Nat}
    (hfollows : Follows shardMap shard next entries)
    (hnext : entries ≠ [] → expectedIndex nextIndexes shard db = .ok next)
    (hfits : ∀ done command, done ++ [command] <+: accepted.map (·.command) →
      CommandFits db.store.indexes db.store.nodeNow done command) :
    ((∃ accepted', acceptEntries graphEngine db entries nextIndexes accepted = .ok accepted') ↔
      ∀ earlier entry, earlier ++ [entry] <+: entries →
        db.Admits (accepted.map (·.command) ++ earlier.map (·.command)) entry) ∧
      ∀ accepted', acceptEntries graphEngine db entries nextIndexes accepted = .ok accepted' →
        accepted' = accepted ++ entries := by
  induction entries generalizing accepted nextIndexes next with
  | nil =>
    refine ⟨iff_of_true ⟨accepted, rfl⟩ forall_concat_isPrefix_nil, fun accepted' hok => ?_⟩
    cases hok
    exact (append_nil _).symm
  | cons entry entries ih =>
    obtain rfl := hfollows.shard entry (.head _)
    have hentry : entry.index = next := hfollows.index 0 entry rfl
    have hexp := hnext (cons_ne_nil _ _)
    have hcheck := validateReplicatedVectorIndexes_ok_iff hread hfits entry.command
    -- the rest of the loop, once the entry has passed its checks
    have hunfold : acceptEntries graphEngine db (entry :: entries) nextIndexes accepted = (do
        validateReplicatedEntryMetadata entry db
        ensureLocalCopy entry.shardId db
        db.store.validateReplicatedVectorIndexes (accepted.map (·.command)) entry.command
        acceptEntries graphEngine db entries
          (update nextIndexes entry.shardId (some (next + 1)))
          (accepted ++ [entry])) := by
      rw [acceptEntries, hexp]
      refine bind_congr fun _ => bind_congr fun _ => ?_
      change (if entry.index < next then _ else if entry.index ≠ next then _ else _) = _
      rw [if_neg (by omega), if_neg (by omega)]
      change (validateStorablePropertiesForCommand entry.command >>= _) = _
      rw [(hfollows.sendable entry mem_cons_self).2]
      rfl
    have hupdated : expectedIndex (update nextIndexes entry.shardId (some (next + 1)))
        entry.shardId db = .ok (next + 1) := by
      rw [expectedIndex, update_self]
    have hacc (hcmd : CommandFits db.store.indexes db.store.nodeNow
        (accepted.map (·.command)) entry.command) : ∀ done command,
        done ++ [command] <+: (accepted ++ [entry]).map (·.command) →
          CommandFits db.store.indexes db.store.nodeNow done command := by
      rw [map_append]
      exact forall_concat_isPrefix_concat.mpr ⟨hcmd, hfits⟩
    have hrest := fun hcmd => ih hfollows.tail (fun _ => hupdated) (hacc hcmd)
    rw [hunfold, forall_concat_isPrefix_cons]
    simp only [map_nil, append_nil, map_cons]
    constructor
    · constructor
      · rintro ⟨accepted', hok⟩
        obtain ⟨_, hver, h₁⟩ := of_exceptBind_ok hok
        obtain ⟨_, hcopy, h₂⟩ := of_exceptBind_ok h₁
        obtain ⟨_, hvector, h₃⟩ := of_exceptBind_ok h₂
        have hcmd := hcheck.mp hvector
        refine ⟨⟨validateReplicatedEntryMetadata_ok_iff.mp hver,
          ensureLocalCopy_ok_iff.mp hcopy, hcmd⟩, ?_⟩
        simpa using (hrest hcmd).1.mp ⟨accepted', h₃⟩
      · rintro ⟨hadmits, hlater⟩
        obtain ⟨accepted', hok⟩ := (hrest hadmits.fits).1.mpr (by simpa using hlater)
        exact ⟨accepted', exceptBind_ok_iff.mpr ⟨(),
          validateReplicatedEntryMetadata_ok_iff.mpr hadmits.version, exceptBind_ok_iff.mpr ⟨(),
            ensureLocalCopy_ok_iff.mpr hadmits.copy, exceptBind_ok_iff.mpr ⟨(),
              hcheck.mpr hadmits.fits, hok⟩⟩⟩⟩
    · intro accepted' hok
      obtain ⟨_, -, h₁⟩ := of_exceptBind_ok hok
      obtain ⟨_, -, h₂⟩ := of_exceptBind_ok h₁
      obtain ⟨_, hvector, h₃⟩ := of_exceptBind_ok h₂
      rw [(hrest (hcheck.mp hvector)).2 accepted' h₃, append_assoc, singleton_append]

end Acceptance

/-! ## What a delivery leaves -/

/-- The replica waits for the entry with an index, and its store has nodes.  The indexes are
64-bit numbers, so the last one has no successor to wait for. -/
structure Prepared (shardMap : ShardMap) (shardId next : Nat)
    (db : Database Command IndexedGraph R) : Prop where
  known : shardId < db.shardCount
  own : (db.logs shardId).shardId = shardId
  waits : db.nextLogIndexes shardId = min next u64Max
  below : ∀ entry ∈ (db.logs shardId).written, saturatingAdd entry.index 1 ≤ min next u64Max
  sendable : ∀ entry ∈ (db.logs shardId).written, Sendable shardMap entry
  keeps : ∃ nodes, db.store.store.KeepsNodes
    (PartitionedGraphStore.partitionOfNode db.store.store.placement shardMap) nodes

variable {shardMap : ShardMap} {shardId next : Nat} {entry : LogEntry Command} {through : Nat}
  {entries : List (LogEntry Command)}

section

variable (h : Prepared shardMap shardId next db)

include h

/-- Reads of nodes succeed. -/
theorem Prepared.node_eq (id : Nat) : db.store.node id = .ok (db.store.nodeNow id) := by
  obtain ⟨nodes, hnodes⟩ := h.keeps
  have hnode : db.store.node id = .ok (nodes id) := by
    rw [IndexedGraph.node, hnodes.node_eq (partitionOfNode_lt shardMap db.store.store id)]
    rfl
  rw [nodeNow, hnode]

/-- Appending the entry that the replica waits for. -/
theorem Prepared.append (hshard : entry.shardId = shardId) (hidx : entry.index = next)
    (hword : next ≤ u64Max) (hsendable : Sendable shardMap entry) :
    ∃ db', (do
        appendToLog entry.shardId entry
        observeLogPosition entry).run db = (.ok (), db') ∧
      Prepared shardMap shardId (next + 1) db' := by
  subst hshard hidx
  have hlog : log entry.shardId db = .ok (db.logs entry.shardId) := if_pos h.known
  have hnext : max (min entry.index u64Max) (saturatingAdd entry.index 1) =
      min (entry.index + 1) u64Max := by
    unfold saturatingAdd
    omega
  obtain ⟨log', hlog', hwritten⟩ : ∃ log', (db.logs entry.shardId).appendWithSync entry = .ok log' ∧
      log'.written = (db.logs entry.shardId).written ++ [entry] :=
    ⟨_, dif_pos h.own.symm, rfl⟩
  have happend : (appendToLog entry.shardId entry).run db =
      (.ok (), { db with logs := update db.logs entry.shardId log' }) :=
    run_lookup_of_ok (by rw [hlog]; exact hlog')
  refine ⟨_, run_bind_of_ok happend, h.known, ?_, ?_, ?_, ?_, h.keeps⟩
  · dsimp only
    rw [update_self, shardId_appendWithSync hlog', h.own]
  · dsimp only
    rw [update_self, h.waits, hnext]
  · dsimp only
    rw [update_self, hwritten, forall_mem_append, forall_mem_singleton]
    exact ⟨fun e he => (h.below e he).trans (by omega), Nat.le_refl _⟩
  · dsimp only
    rw [update_self, hwritten, forall_mem_append, forall_mem_singleton]
    exact ⟨h.sendable, hsendable⟩

/-- The loop that appends entries which follow each other. -/
theorem Prepared.appendLoop (hfollows : Follows shardMap shardId next entries) :
    ∃ db', (forEach (fun entry => do
        appendToLog entry.shardId entry
        observeLogPosition entry) entries).run db =
          (.ok (), db') ∧ Prepared shardMap shardId (next + entries.length) db' := by
  induction entries generalizing next db with
  | nil => exact ⟨db, rfl, h⟩
  | cons entry entries ih =>
    have hentry : entry.index = next := hfollows.index 0 entry rfl
    obtain ⟨t, hfirst, ht⟩ := h.append (hfollows.shard entry (.head _)) hentry
      (hentry ▸ hfollows.word entry (.head _))
      (hfollows.sendable entry (.head _))
    obtain ⟨db', hrest, hdb'⟩ := ih ht hfollows.tail
    refine ⟨db', (run_bind_of_ok hfirst).trans hrest, ?_⟩
    rw [length_cons, Nat.add_comm entries.length 1, ← Nat.add_assoc]
    exact hdb'

/-- Only the store and the logs matter. -/
theorem Prepared.of_stored {db' : GraphCore R} (heq : db'.stored = db.stored) :
    Prepared shardMap shardId next db' := by
  obtain ⟨hstore, hrest⟩ := Prod.mk.inj heq
  obtain ⟨hcount, hrest⟩ := Prod.mk.inj hrest
  obtain ⟨hlogs, hnext⟩ := Prod.mk.inj hrest
  refine ⟨hcount ▸ h.known, hlogs ▸ h.own, hnext ▸ h.waits, hlogs ▸ h.below, hlogs ▸ h.sendable, ?_⟩
  rw [hstore]
  exact h.keeps

end

/-- The logs are as before, and so is an index that the replica waits for. -/
def KeepsPosition (shardId position : Nat) (db db' : Database Command IndexedGraph R) : Prop :=
  db'.shardCount = db.shardCount ∧ db'.logs = db.logs ∧
    (db.nextLogIndexes shardId = position → db'.nextLogIndexes shardId = position)

instance {position : Nat} :
    IsPreorder (Database Command IndexedGraph R) (KeepsPosition shardId position) where
  refl _ := ⟨rfl, rfl, id⟩
  trans _ _ _ h h' := ⟨h'.1.trans h.1, h'.2.1.trans h.2.1, fun hdb => h'.2.2 (h.2.2 hdb)⟩

/-- Applying entries that are in the log moves no position. -/
theorem applyEntriesBatch_keepsPosition {position : Nat} (repl : ShardReplicator Command R)
    (hentries :
      ∀ entry ∈ entries, entry.shardId = shardId ∧ saturatingAdd entry.index 1 ≤ position) :
    Respects (KeepsPosition shardId position)
      (applyEntriesBatch graphEngine repl entries : CoreOp R Unit) := by
  refine applyEntriesBatch_respects (fun _ _ => ⟨rfl, rfl, id⟩) (fun entry _ => ?_)
    (fun entry hmem db => ⟨rfl, rfl, fun hdb => ?_⟩) fun _ _ => ⟨rfl, rfl, id⟩
  · exact IgnoresCluster.applyClusterConfigChange (fun _ _ _ _ _ _ _ _ => ⟨rfl, rfl, id⟩) _
  · -- the entry is below the position, so observing it changes nothing
    obtain ⟨hshard, hle⟩ := hentries entry hmem
    change update db.nextLogIndexes entry.shardId _ shardId = position
    rw [hshard, update_self, hdb]
    exact Nat.max_eq_left hle

theorem exists_routedCommands (h : ∀ entry ∈ entries, Routed shardMap entry) :
    ∃ taken : List (RoutedCommand shardMap),
      taken.map RoutedCommand.toPair = entries.map commandOf := by
  induction entries with
  | nil => exact ⟨[], rfl⟩
  | cons entry entries ih =>
    obtain ⟨taken, htaken⟩ := ih fun e he => h e (.tail _ he)
    refine ⟨⟨entry.shardId, entry.command, h entry (.head _)⟩ :: taken, ?_⟩
    rw [map_cons, htaken]
    rfl

/-- Applying entries of the log, whether it succeeds or not. -/
theorem Prepared.applyEntriesBatch (h : Prepared shardMap shardId next db)
    (repl : ShardReplicator Command R)
    (hentries : ∀ entry ∈ entries, entry ∈ (db.logs shardId).written) :
    Prepared shardMap shardId next ((applyEntriesBatch graphEngine repl entries).run db).2 := by
  obtain ⟨hcount, hlogs, hnext⟩ := applyEntriesBatch_keepsPosition repl
    (fun entry hmem => ⟨((db.logs shardId).own entry (hentries entry hmem)).trans h.own,
      h.below entry (hentries entry hmem)⟩) db
  refine ⟨hcount ▸ h.known, hlogs ▸ h.own, hnext h.waits, hlogs ▸ h.below, hlogs ▸ h.sendable, ?_⟩
  obtain ⟨nodes, hnodes⟩ := h.keeps
  obtain ⟨taken, htaken⟩ := exists_routedCommands fun entry hmem =>
    (h.sendable entry (hentries entry hmem)).1
  rcases applyEntriesBatch_does graphEngine repl entries db _ _ Prod.mk.eta.symm
    with ⟨hstore, -⟩ | hdone
  · exact ⟨nodes, hstore.symm ▸ hnodes⟩
  · obtain ⟨store, hwork, hkeeps⟩ := applyBatchWork_keepsNodes hnodes taken
    rw [htaken, hdone] at hwork
    rw [(Prod.mk.inj hwork).2]
    exact ⟨_, hkeeps⟩

theorem mem_written_of_mem_entriesFrom {log : SegmentedShardLog Command} {start count : Nat}
    (h : entry ∈ entriesFrom log start count) : entry ∈ log.written := by
  obtain ⟨i, hi⟩ := mem_iff_getElem?.mp h
  have hentry := (index_of_mem_entriesFrom hi).1
  rw [entry_eq_find?] at hentry
  exact mem_of_find?_eq_some hentry

/-- What is committed and applied is in the log. -/
theorem mem_written_of_committableEntries
    (h : committableEntries shardId through db = .ok entries) :
    ∀ entry ∈ entries, entry ∈ (db.logs shardId).written := by
  unfold committableEntries at h
  split at h
  · cases h
    exact forall_mem_nil _
  · obtain ⟨committed, -, h₁⟩ := of_exceptBind_ok h
    dsimp only at h₁
    split at h₁
    · obtain ⟨log, hlog, h₂⟩ := of_exceptBind_ok h₁
      obtain ⟨-, rfl⟩ := of_ofShard_ok hlog
      cases h₂
      exact fun entry hmem => mem_written_of_mem_entriesFrom hmem
    · cases h₁
      exact forall_mem_nil _

theorem mem_written_of_committable
    (h : committableEntriesThrough db [(shardId, through)] = .ok entries) :
    ∀ entry ∈ entries, entry ∈ (db.logs shardId).written := by
  obtain ⟨found, hfound, hrest⟩ := of_exceptBind_ok h
  cases hrest
  rw [append_nil]
  exact mem_written_of_committableEntries hfound

/-- Committing and applying, whether it succeeds or not. -/
theorem Prepared.commitAndApply (h : Prepared shardMap shardId next db)
    (repl : ShardReplicator Command R) (through : Nat) :
    Prepared shardMap shardId next
      ((commitAndApplyShardsThrough graphEngine repl [(shardId, through)]).run db).2 := by
  unfold commitAndApplyShardsThrough
  cases hfound : committableEntriesThrough db [(shardId, through)] with
  | error =>
    rw [run_bind_of_error (congrArg (·, db) hfound)]
    exact h
  | ok entries =>
    rw [run_bind_of_ok (congrArg (·, db) hfound)]
    dsimp only
    split
    · exact h
    · have hmem : ∀ entry ∈ entries.insertionSort beforeInBatch,
          entry ∈ (db.logs shardId).written := fun entry hentry =>
        mem_written_of_committable hfound entry ((mem_insertionSort _).mp hentry)
      rcases hcommit : (commitEntries (entries.insertionSort beforeInBatch)).run db with ⟨result, t⟩
      have hstored := (commitEntries_preserves _).of_run hcommit
      have ht := h.of_stored hstored
      cases result with
      | error =>
        rw [run_bind_of_error hcommit]
        exact ht
      | ok =>
        rw [run_bind_of_ok hcommit]
        refine ht.applyEntriesBatch repl fun entry hentry => ?_
        have hlogs : t.logs = db.logs := congrArg (fun stored => stored.2.2.1) hstored
        rw [hlogs]
        exact hmem entry hentry

/-! ## What a primary appends -/

/-- The logs have grown by entries that can be sent. -/
def Extends (shardMap : ShardMap) (db db' : Database Command IndexedGraph R) : Prop :=
  ∀ shardId, (db'.logs shardId).shardId = (db.logs shardId).shardId ∧
    ∃ added, (db'.logs shardId).written = (db.logs shardId).written ++ added ∧
      ∀ entry ∈ added, Sendable shardMap entry

theorem extends_of_logs_eq {db' : GraphCore R} (h : db'.logs = db.logs) :
    Extends shardMap db db' := fun shard => ⟨by rw [h], [], by rw [h, append_nil], nofun⟩

instance : IsPreorder (Database Command IndexedGraph R) (Extends shardMap) where
  refl _ := extends_of_logs_eq rfl
  trans _ _ _ h h' shardId := by
    obtain ⟨hown, added, hwritten, hadded⟩ := h shardId
    obtain ⟨hown', added', hwritten', hadded'⟩ := h' shardId
    refine ⟨hown'.trans hown, added ++ added', by rw [hwritten', hwritten, append_assoc],
      fun entry hmem => ?_⟩
    exact (mem_append.mp hmem).elim (hadded entry) (hadded' entry)

variable {α : Type} {x : CoreOp R α} (write : RoutedCommand shardMap)

theorem extends_of_logs (h : Preserves logs x) : Respects (Extends shardMap) x :=
  fun db => extends_of_logs_eq (h db)

theorem extends_of_stored (h : Preserves stored x) : Respects (Extends shardMap) x :=
  extends_of_logs (h.map fun stored => stored.2.2.1)

theorem appendToLog_extends {owner : Nat} (hsendable : Sendable shardMap entry) :
    Respects (Extends shardMap) (appendToLog owner entry : CoreOp R Unit) := by
  intro db
  rcases appendToLog_cases owner entry db with heq | ⟨log, hwritten, hown, heq⟩
  · rw [heq]
    exact refl db
  · rw [heq]
    refine (forall_update_iff db.logs fun shard log =>
      log.shardId = (db.logs shard).shardId ∧ ∃ added, log.written =
        (db.logs shard).written ++ added ∧ ∀ entry ∈ added, Sendable shardMap entry).mpr
      ⟨⟨hown, [entry], hwritten, forall_mem_singleton.mpr hsendable⟩, fun shard _ => ?_⟩
    exact ⟨rfl, [], (append_nil _).symm, forall_mem_nil _⟩

/-- A command is appended only if its properties can be stored. -/
theorem appendLocalCommand_extends : Respects (Extends shardMap)
      (appendLocalCommand graphEngine write.shardId write.command :
        CoreOp R (LogEntry Command)) := by
  refine appendLocalCommand_respects (extends_of_stored tickClock_preserves)
    (fun db entry hcheck hshard hcmd => appendToLog_extends ⟨?_, ?_⟩)
    (fun entry => extends_of_stored (appendEntryToLocalRaft_preserves entry))
    fun _ => extends_of_logs fun _ => rfl
  · rw [Routed, hshard, hcmd]
    exact write.routed
  · rw [hcmd]
    exact (checkLocalCommand_validated hcheck).1

variable (repl : ShardReplicator Command R)

/-- A call appends entries that can be sent, and nothing else. -/
theorem graphCall_extends (call : GraphCall shardMap) :
    Respects (Extends shardMap) (call.run repl) := by
  refine call.respects (writeRules_of_logs (r := Extends shardMap)
    (P := fun cmd => ∃ write : RoutedCommand shardMap, write.toPair = cmd)
    (fun _ _ => extends_of_logs_eq) ?_) fun cmd hwrites => ?_
  · rintro _ ⟨write, rfl⟩
    exact appendLocalCommand_extends write
  cases call with
  | single write => exact ⟨write, hwrites⟩
  | batch | group =>
    obtain ⟨op, -, hop⟩ := mem_map.mp hwrites
    cases op with
    | error => cases hop
    | ok write => exact ⟨write, Except.ok.inj hop⟩
  | addIndex | dropIndex => cases hwrites

theorem afterAll_extends (calls : List (GraphCall shardMap)) (db : GraphCore R) :
    Extends shardMap db (GraphCall.afterAll repl calls db) := by
  induction calls generalizing db with
  | nil => exact refl db
  | cons call calls ih => exact IsTrans.trans _ _ _ (graphCall_extends repl call db) (ih _)

/-! ## Deliveries -/

/-- A batch of entries, and the index through which the sender has them committed. -/
structure Delivery where
  entries : List (LogEntry Command)
  commitThrough : Nat

/-- Each entry of the batch is admitted after those before it. -/
def AdmitsAll (db : Database Command IndexedGraph R) (entries : List (LogEntry Command)) : Prop :=
  ∀ earlier entry, earlier ++ [entry] <+: entries → db.Admits (earlier.map (·.command)) entry

section Replica

variable [BEq Command] (replicator : ShardReplicator Command R)

/-- What a replica does with a batch: `append_replicated_entries`, then
`commit_and_apply_shards_through`. -/
def Delivery.run (shardId : Nat) (delivery : Delivery) : Op Command IndexedGraph R Unit := do
  appendReplicatedEntries graphEngine delivery.entries
  commitAndApplyShardsThrough graphEngine replicator [(shardId, delivery.commitThrough)]

/-- The replica after deliveries. -/
def afterDeliveries (shardId : Nat)
    (deliveries : List Delivery) (db : Database Command IndexedGraph R) :
    Database Command IndexedGraph R :=
  deliveries.foldl (fun db delivery => ((delivery.run replicator shardId).run db).2) db

/-- The replica accepts the batch. -/
def Accepts (db : Database Command IndexedGraph R) (entries : List (LogEntry Command)) : Prop :=
  ((appendReplicatedEntries graphEngine entries).run db).1 = .ok ()

/-- The replica accepts every batch, each in the state after those before it. -/
def AcceptsAll (shardId : Nat)
    (deliveries : List Delivery) (db : Database Command IndexedGraph R) : Prop :=
  ∀ done delivery, done ++ [delivery] <+: deliveries →
    (afterDeliveries replicator shardId done db).Accepts delivery.entries

variable {shard : Nat}

section

variable (h : Prepared shardMap shard next db)

include h

/-- A batch is appended as a whole, or refused. -/
theorem Prepared.takes (hfollows : Follows shardMap shard next entries) :
    (db.Accepts entries ↔ db.AdmitsAll entries) ∧ (db.Accepts entries →
      ∃ db', (appendReplicatedEntries graphEngine entries).run db = (.ok (), db') ∧
        Prepared shardMap shard (next + entries.length) db') := by
  cases hentries : entries with
  | nil =>
    refine ⟨iff_of_true rfl forall_concat_isPrefix_nil, fun _ => ⟨db, rfl, ?_⟩⟩
    exact h
  | cons first =>
    rw [← hentries]
    have hnext : next ≤ u64Max := by
      have hfirst : entries[0]? = some first := by rw [hentries]; rfl
      have hidx : first.index = next := hfollows.index 0 first hfirst
      exact hidx ▸ hfollows.word first (mem_of_getElem? hfirst)
    have hexp : expectedIndex (fun _ => none) shard db = .ok next := by
      change nextLogIndex shard db = .ok next
      rw [nextLogIndex, ofShard, if_pos h.known, h.waits, Nat.min_eq_left hnext]
    have hnone : ∀ done command, done ++ [command] <+: ([] : List (LogEntry Command)).map
        (·.command) → CommandFits db.store.indexes db.store.nodeNow done command :=
      forall_concat_isPrefix_nil
    obtain ⟨haccept, htaken⟩ := acceptEntries_ok_iff h.node_eq hfollows (fun _ => hexp) hnone
    obtain ⟨t, happend, ht⟩ := h.appendLoop hfollows
    -- once the entries are accepted the two loops succeed
    have hrun : ∀ accepted, acceptEntries graphEngine db entries (fun _ => none) [] =
        .ok accepted → (appendReplicatedEntries graphEngine entries).run db = (.ok (), t) := by
      intro accepted hok
      obtain rfl : accepted = entries := htaken accepted hok
      unfold appendReplicatedEntries
      rw [if_neg (by rw [hentries]; exact Bool.false_ne_true),
        run_bind_of_ok (congrArg (·, db) hok), run_bind_of_ok happend]
      exact forEach_log_run fun entry hmem => hfollows.shard entry hmem ▸ ht.known
    have hiff : db.Accepts entries ↔ ∃ accepted,
        acceptEntries graphEngine db entries (fun _ => none) [] = .ok accepted := by
      constructor
      · intro hok
        unfold Accepts appendReplicatedEntries at hok
        rw [if_neg (by rw [hentries]; exact Bool.false_ne_true)] at hok
        cases hlookup : acceptEntries graphEngine db entries (fun _ => none) [] with
        | ok accepted => exact ⟨accepted, rfl⟩
        | error =>
          rw [run_bind_of_error (congrArg (·, db) hlookup)] at hok
          cases hok
      · rintro ⟨accepted, hok⟩
        rw [Accepts, hrun accepted hok]
    refine ⟨hiff.trans haccept, fun hok => ?_⟩
    obtain ⟨accepted, hacc⟩ := hiff.mp hok
    exact ⟨t, hrun accepted hacc, ht⟩

/-- After a batch that is accepted the replica waits for the entry after it. -/
theorem Prepared.deliver (replicator : ShardReplicator Command R) {delivery : Delivery}
    (hfollows : Follows shardMap shard next delivery.entries)
    (haccepts : db.Accepts delivery.entries) :
    Prepared shardMap shard (next + delivery.entries.length)
      ((delivery.run replicator shard).run db).2 := by
  obtain ⟨t, happend, ht⟩ := (h.takes hfollows).2 haccepts
  rw [Delivery.run, run_bind_of_ok happend]
  exact ht.commitAndApply replicator delivery.commitThrough

/-- Deliveries in a row: as long as all are accepted the replica stays prepared, and all are
accepted exactly if all are admitted. -/
theorem Prepared.deliveries (replicator : ShardReplicator Command R) {deliveries : List Delivery}
    (hfollows : Follows shardMap shard next (deliveries.flatMap Delivery.entries)) :
    (AcceptsAll replicator shard deliveries db ↔
      ∀ done delivery, done ++ [delivery] <+: deliveries →
        (afterDeliveries replicator shard done db).AdmitsAll delivery.entries) ∧
      (AcceptsAll replicator shard deliveries db →
        Prepared shardMap shard (next + (deliveries.flatMap Delivery.entries).length)
          (afterDeliveries replicator shard deliveries db)) := by
  induction deliveries using reverseRecOn with
  | nil =>
    exact ⟨iff_of_true forall_concat_isPrefix_nil forall_concat_isPrefix_nil, fun _ => h⟩
  | append_singleton deliveries delivery ih =>
    rw [flatMap_append, flatMap_singleton] at hfollows ⊢
    obtain ⟨hearlier, hlast⟩ := hfollows.append
    obtain ⟨hiff, hprep⟩ := ih hearlier
    simp only [AcceptsAll, forall_concat_isPrefix_concat]
    refine ⟨?_, fun ⟨haccepts, hall⟩ => ?_⟩
    · constructor
      · rintro ⟨haccepts, hall⟩
        exact ⟨((hprep hall).takes hlast).1.mp haccepts, hiff.mp hall⟩
      · rintro ⟨hadmits, hall⟩
        have hall' := hiff.mpr hall
        exact ⟨((hprep hall').takes hlast).1.mpr hadmits, hall'⟩
    · rw [length_append, ← Nat.add_assoc, afterDeliveries, foldl_concat]
      exact (hprep hall).deliver replicator hlast haccepts

end

/-! ## A primary and its replica -/

/-- The replica has the log, the position, the graph and the table of the primary. -/
structure SameShard {R' : Type} (shardId : Nat) (primary : Database Command IndexedGraph R)
    (replica : Database Command IndexedGraph R') : Prop where
  shardCount : replica.shardCount = primary.shardCount
  log : replica.logs shardId = primary.logs shardId
  next : replica.nextLogIndexes shardId = primary.nextLogIndexes shardId
  store : replica.store = primary.store
  routingTable : replica.routingTable = primary.routingTable

/-- The entries from an index on that a primary has in its log and has committed. -/
structure CommittedNext (shardId next : Nat) (primary : Database Command IndexedGraph R)
    (entries : List (LogEntry Command)) : Prop where
  index : ∀ (i : Nat) (entry : LogEntry Command), entries[i]? = some entry → entry.index = next + i
  word : ∀ entry ∈ entries, entry.index ≤ u64Max
  logged : ∀ entry ∈ entries, (primary.logs shardId).entry entry.index = some entry
  committed : ∀ entry ∈ entries, entry.index ≤ primary.commitIndexes shardId

section Primary

variable {R' : Type} {shardMap : ShardMap} {shardId next : Nat}
  {primary : Database Command IndexedGraph R} {replica : Database Command IndexedGraph R'}

omit [BEq Command] in
theorem Prepared.of_sameShard (h : Prepared shardMap shardId next primary)
    (hsame : SameShard shardId primary replica) : Prepared shardMap shardId next replica := by
  refine ⟨hsame.shardCount ▸ h.known, ?_, hsame.next.trans h.waits, ?_, ?_, ?_⟩
  · rw [hsame.log]
    exact h.own
  · rw [hsame.log]
    exact h.below
  · rw [hsame.log]
    exact h.sendable
  · rw [hsame.store]
    exact h.keeps

omit [BEq Command] in
/-- What a primary has committed after any calls can be sent. -/
theorem CommittedNext.follows (h : Prepared shardMap shardId next primary)
    (replicator : ShardReplicator Command R) {calls : List (GraphCall shardMap)}
    {entries : List (LogEntry Command)}
    (hcomm : CommittedNext shardId next (GraphCall.afterAll replicator calls primary) entries) :
    Follows shardMap shardId next entries := by
  obtain ⟨hown, added, hwritten, hadded⟩ := afterAll_extends replicator calls primary shardId
  refine ⟨fun entry hmem => ?_, hcomm.index, hcomm.word, fun entry hmem => ?_⟩
  · exact (shardId_of_entry (hcomm.logged entry hmem)).trans (hown.trans h.own)
  · have hfind := hcomm.logged entry hmem
    rw [entry_eq_find?] at hfind
    have hin := mem_of_find?_eq_some hfind
    rw [hwritten] at hin
    exact (mem_append.mp hin).elim (h.sendable entry) (hadded entry)

/-- A primary makes any calls, and what it commits is delivered to a replica that was level
with it, in any batches.  The replica accepts them all exactly if, before each batch, it
admits every entry of the batch after those before it. -/
theorem deliveries_accepted_iff (replicator : ShardReplicator Command R)
    (replicator' : ShardReplicator Command R') (hprimary : Prepared shardMap shardId next primary)
    (hsame : SameShard shardId primary replica) (calls : List (GraphCall shardMap))
    (deliveries : List Delivery)
    (hcommitted : CommittedNext shardId next (GraphCall.afterAll replicator calls primary)
      (deliveries.flatMap Delivery.entries)) :
    AcceptsAll replicator' shardId deliveries replica ↔
      ∀ done delivery, done ++ [delivery] <+: deliveries →
        (afterDeliveries replicator' shardId done replica).AdmitsAll delivery.entries :=
  ((hprimary.of_sameShard hsame).deliveries replicator' (hcommitted.follows hprimary replicator)).1

end Primary

end Replica

/-! ## Two servers -/

/-- A table in which server 1 is the primary of the only shard and server 2 its replica. -/
def pairTable (version : Nat) : ShardRoutingTable :=
  ⟨version, [⟨0, [⟨1, .primary⟩, ⟨2, .replica⟩]⟩]⟩

/-- A server of the pair, with the indexes of its catalog and an empty graph. -/
def pairServer (serverId : Nat) (indexes : List IndexDefinition) :
    Database Command IndexedGraph Unit :=
  { graphServer with
    config := ⟨serverId, 1024, false⟩
    store := ⟨.fresh (.unassigned 1 Nat.one_pos), indexes⟩
    routingTable := pairTable 1 }

theorem pairServer_prepared (server : Nat) (indexes : List IndexDefinition) :
    Prepared oneShard 0 1 (pairServer server indexes) where
  known := Nat.one_pos
  own := rfl
  waits := rfl
  below := nofun
  sendable := nofun
  keeps := ⟨_, PartitionedGraphStore.fresh_keepsNodes _ _⟩

/-- The servers of the pair start level with each other. -/
theorem pairServer_same (indexes : List IndexDefinition) :
    SameShard 0 (pairServer 1 indexes) (pairServer 2 indexes) := ⟨rfl, rfl, rfl, rfl, rfl⟩

/-- The second version of the table. -/
def installSecond : RoutedCommand oneShard :=
  onOnlyShard (.clusterConfigChange "install" "" [] (pairTable 2))

/-- The table is installed, and a node is written under it. -/
def installThenWrite : List (GraphCall oneShard) :=
  [.single installSecond, .single (onOnlyShard (.createNode 0 [] []))]

/-- The table is installed, and a node is written, in one batch. -/
def installWithWrite : List (GraphCall oneShard) :=
  [.batch [.ok installSecond, .ok (onOnlyShard (.createNode 0 [] []))]]

/-- Documents have vectors of two dimensions. -/
def embeddings : IndexDefinition := ⟨"doc_embedding", "Doc", "embedding", .vector 2 "cosine"⟩

/-- A node, which becomes a document and gets a text in one batch. -/
def textAsEmbedding : List (GraphCall oneShard) :=
  [.single (onOnlyShard (.createNode 0 [] [])),
    .batch [.ok (onOnlyShard (.addNodeLabel 0 "Doc")),
      .ok (onOnlyShard (.setNodeProperty 0 "embedding" (.string "text")))]]

/-- The primary of the pair after calls. -/
def primaryAfter (indexes : List IndexDefinition) (calls : List (GraphCall oneShard)) :
    Database Command IndexedGraph Unit :=
  GraphCall.afterAll (noopShardReplicator Command) calls (pairServer 1 indexes)

/-- The log of the primary in batches of the given lengths, each committed through its end. -/
def inBatches (log : List (LogEntry Command)) : List Nat → Nat → List Delivery
  | [], _ => []
  | length :: lengths, start =>
    ⟨(log.drop start).take length, start + length⟩ :: inBatches log lengths (start + length)

/-- What the primary of the pair sends after calls. -/
def sent (indexes : List IndexDefinition) (calls : List (GraphCall oneShard))
    (lengths : List Nat) : List Delivery :=
  inBatches ((primaryAfter indexes calls).logs 0).written lengths 0

theorem committedNext_of_consecutive {db : Database Command IndexedGraph Unit}
    (hidx : Consecutive LogEntry.index 0 entries) (hword : ∀ entry ∈ entries, entry.index ≤ u64Max)
    (hlogged : ∀ entry ∈ entries, (db.logs 0).entry entry.index = some entry)
    (hcomm : ∀ entry ∈ entries, entry.index ≤ db.commitIndexes 0) :
    CommittedNext 0 1 db entries where
  index i entry hi := by
    have hkey := hidx.key_getElem? hi
    omega
  word := hword
  logged := hlogged
  committed := hcomm

/-- The table and the node in two batches. -/
theorem deliveries_accepted_installThenWrite :
    AcceptsAll (noopShardReplicator Command) 0 (sent [] installThenWrite [1, 1])
      (pairServer 2 []) := by
  have hcommitted : CommittedNext 0 1 (primaryAfter [] installThenWrite)
      ((sent [] installThenWrite [1, 1]).flatMap Delivery.entries) :=
    committedNext_of_consecutive (by decide) (by decide) (by decide) (by decide)
  refine (deliveries_accepted_iff (noopShardReplicator Command) (noopShardReplicator Command)
    (pairServer_prepared 1 []) (pairServer_same []) installThenWrite _ hcommitted).mpr ?_
  refine forall_concat_isPrefix_cons.mpr ⟨?_, forall_concat_isPrefix_cons.mpr
    ⟨?_, forall_concat_isPrefix_nil⟩⟩
  · refine forall_concat_isPrefix_cons.mpr ⟨⟨.inr rfl, rfl, ?_⟩, forall_concat_isPrefix_nil⟩
    exact commandFits_of_unchecked rfl
  · refine forall_concat_isPrefix_cons.mpr ⟨⟨.inr rfl, rfl, ?_⟩, forall_concat_isPrefix_nil⟩
    exact fun _ _ _ _ _ _ hindex => absurd hindex not_mem_nil

/-- Three runs of entries that a primary committed and its replica, level with it before,
refuses: a table with an entry under it in one batch; an entry under the first table after
the batch with the second; and a node that gets its label and a property in one batch. -/
theorem committed_entries_refused :
    (∀ indexes, Prepared oneShard 0 1 (pairServer 1 indexes) ∧
      SameShard 0 (pairServer 1 indexes) (pairServer 2 indexes)) ∧
    (CommittedNext 0 1 (primaryAfter [] installThenWrite)
        ((sent [] installThenWrite [2]).flatMap Delivery.entries) ∧
      ¬AcceptsAll (noopShardReplicator Command) 0 (sent [] installThenWrite [2])
        (pairServer 2 [])) ∧
    (CommittedNext 0 1 (primaryAfter [] installWithWrite)
        ((sent [] installWithWrite [1, 1]).flatMap Delivery.entries) ∧
      ¬AcceptsAll (noopShardReplicator Command) 0 (sent [] installWithWrite [1, 1])
        (pairServer 2 [])) ∧
    CommittedNext 0 1 (primaryAfter [embeddings] textAsEmbedding)
        ((sent [embeddings] textAsEmbedding [1, 2]).flatMap Delivery.entries) ∧
      ¬AcceptsAll (noopShardReplicator Command) 0 (sent [embeddings] textAsEmbedding [1, 2])
        (pairServer 2 [embeddings]) := by
  refine ⟨fun indexes => ⟨pairServer_prepared 1 indexes, pairServer_same indexes⟩,
    ⟨committedNext_of_consecutive (by decide) (by decide) (by decide) (by decide), ?_⟩,
    ⟨committedNext_of_consecutive (by decide) (by decide) (by decide) (by decide), ?_⟩,
    committedNext_of_consecutive (by decide) (by decide) (by decide) (by decide), ?_⟩
  · intro hall
    cases hall [] _ prefix_rfl
  · intro hall
    cases hall [_] _ prefix_rfl
  · intro hall
    cases hall [_] _ prefix_rfl

end Database

end Neo4r.Db
