/-
  `Db.StoreMoves`: what the write calls do to the graph store.

  Whatever the engine and the replicator are, and whether a call succeeds or not, the store
  is as it was or has had the work of the call's commands done to it.  The commands were
  checked against the store as it was before the call.

  `WriteRules` are the rules for a relation that every part of a call respects.
-/
import Neo4r.Db.ShardView

set_option autoImplicit false

namespace Neo4r.Db.Database

open Foundation Raft Storage Fallible

variable {C G R : Type} {engine : GraphEngine C G} {replicator : ShardReplicator C R}

/-! ## What leaves the store alone -/

/-- The store, the logs and the positions in them. -/
def stored (db : Database C G R) : G × Nat × (Nat → SegmentedShardLog C) × (Nat → Nat) :=
  (db.store, db.shardCount, db.logs, db.nextLogIndexes)

/-- What leaves the logs alone as well leaves the store alone. -/
theorem preserves_store {α : Type} {x : Op C G R α} (h : Preserves stored x) : Preserves store x :=
  h.map Prod.fst

theorem ignoresCluster_stored :
    IgnoresCluster fun db db' : Database C G R => stored db' = stored db :=
  fun _ _ _ _ _ _ _ _ => rfl

variable (entry : LogEntry C) {db db' : Database C G R}

theorem appendEntryToLocalRaft_preserves :
    Preserves stored (appendEntryToLocalRaft entry : Op C G R Unit) :=
  ignoresCluster_stored.appendEntryToLocalRaft

theorem tickClock_preserves : Preserves stored (tickClock : Op C G R HybridTimestamp) :=
  fun _ => rfl

theorem commitEntry_preserves : Preserves stored (commitEntry entry : Op C G R Unit) :=
  (Preserves.lookup _).bind fun _ => Preserves.bind (fun _ => rfl) fun _ _ => rfl

theorem commitEntries_preserves (entries : List (LogEntry C)) :
    Preserves stored (commitEntries entries : Op C G R Unit) := by
  refine Preserves.bind (Preserves.forEach fun entry _ => ?_) fun _ => ?_
  · exact (Preserves.lookup _).bind fun _ _ => rfl
  · exact Preserves.forEach fun _ _ _ => rfl

theorem applyClusterConfigChange_preserves (cmd : C) :
    Preserves stored (applyClusterConfigChange engine replicator cmd : Op C G R Unit) :=
  ignoresCluster_stored.applyClusterConfigChange cmd

theorem applyEntry_logs : Preserves logs (applyEntry engine replicator entry : Op C G R Unit) :=
  applyEntry_respects (r := fun db db' => db'.logs = db.logs) (fun _ _ => rfl)
    ((applyClusterConfigChange_preserves _).map fun part => part.2.2.1) (fun _ => rfl) fun _ => rfl

/-- What `write_command` does between the append and the application. -/
abbrev publishCommitted (replicator : ShardReplicator C R) (entry : LogEntry C) : Op C G R Unit :=
    do
  let outcome ← onReplicator (replicator.publish entry)
  observeReplicationOutcome entry outcome
  observeRaftReplicationOutcome entry outcome
  commitEntry entry
  lookup maybeInjectFailureAfterCommitBeforeApply

theorem writeCommand_eq (shard : Nat) (cmd : C) :
    (writeCommand engine replicator shard cmd : Op C G R Unit) = (do
      let entry ← appendLocalCommand engine shard cmd
      publishCommitted replicator entry
      applyEntry engine replicator entry) := by
  simp only [writeCommand, publishCommitted, bind_assoc]

theorem publishCommitted_preserves :
    Preserves stored (publishCommitted replicator entry : Op C G R Unit) := by
  refine Preserves.bind (fun _ => rfl) fun _ => ?_
  refine Preserves.bind ((Preserves.lookup _).bind fun _ _ => rfl) fun _ => ?_
  refine Preserves.bind ignoresCluster_stored.observeRaftReplicationOutcome fun _ => ?_
  exact (commitEntry_preserves entry).bind fun _ => Preserves.lookup _

/-- What `flush_group_commit` does before the application. -/
abbrev publishBatchCommitted (replicator : ShardReplicator C R) (entries : List (LogEntry C)) :
    Op C G R Unit := do
  let outcomes ← onReplicator (replicator.publishBatch entries)
  forEach (fun (entry, outcome) => do
    observeReplicationOutcome entry outcome
    observeRaftReplicationOutcome entry outcome) (entries.zip outcomes)
  forEach (fun entry => do
    let _ ← lookup (log entry.shardId)
    pure ()) entries
  commitEntries entries

theorem flushGroupCommit_eq (entries : List (LogEntry C)) :
    (flushGroupCommit engine replicator entries : Op C G R Unit) = (do
      publishBatchCommitted replicator entries
      applyEntriesBatch engine replicator entries) := by
  simp only [flushGroupCommit, flushEntries, publishBatchCommitted, bind_assoc]

theorem publishBatchCommitted_preserves (entries : List (LogEntry C)) :
    Preserves stored (publishBatchCommitted replicator entries : Op C G R Unit) := by
  refine Preserves.bind (fun _ => rfl) fun _ => Preserves.bind ?_ fun _ => ?_
  · refine Preserves.forEach fun _ _ => ?_
    exact Preserves.bind ((Preserves.lookup _).bind fun _ _ => rfl) fun _ =>
      ignoresCluster_stored.observeRaftReplicationOutcome
  · refine Preserves.bind ?_ fun _ => commitEntries_preserves entries
    exact Preserves.forEach fun _ _ => (Preserves.lookup _).bind fun _ => Preserves.pure ()

variable (shardId : Nat) {command : C}

theorem appendLocalCommand_preserves (command : C) :
    Preserves store (appendLocalCommand engine shardId command : Op C G R (LogEntry C)) :=
  appendLocalCommand_respects (r := fun db db' => db'.store = db.store)
    (preserves_store tickClock_preserves)
      (fun _ _ _ _ _ => (Preserves.lookup _).bind fun _ _ => rfl)
    (fun entry => preserves_store (appendEntryToLocalRaft_preserves entry)) fun _ _ => rfl

/-! ## What is appended -/

/-- An entry that is appended has the command, which passed its checks, and is in the log. -/
theorem appendLocalCommand_ok {shardId : Nat} {entry : LogEntry C}
    (h : (appendLocalCommand engine shardId command).run db = (.ok entry, db')) :
    checkLocalCommand engine shardId command db = .ok () ∧ entry.shardId = shardId ∧
      entry.index = db.nextLogIndexes shardId ∧
      entry.configVersion = db.routingTable.version ∧ entry.command = command ∧
      entry ∈ (db'.logs shardId).written := by
  obtain ⟨_, hcheck, h₁⟩ := of_lookup_bind_ok h
  obtain ⟨index, hidx, h₂⟩ := of_lookup_bind_ok h₁
  obtain ⟨term, -, h₃⟩ := of_lookup_bind_ok h₂
  obtain ⟨timestamp, t₄, htick, h₄⟩ := of_bind_ok h₃
  obtain ⟨current, t₅, hcur, h₅⟩ := of_bind_ok h₄
  obtain ⟨_, t₆, happend, h₆⟩ := of_bind_ok h₅
  obtain ⟨_, t₇, hraft, h₇⟩ := of_bind_ok h₆
  obtain ⟨_, t₈, hobserve, h₈⟩ := of_bind_ok h₇
  cases h₈
  cases hcur
  cases htick
  refine ⟨hcheck, rfl, (of_ofShard_ok hidx).2, rfl, rfl, ?_⟩
  have hlogs : t₇.logs = t₆.logs :=
    ((appendEntryToLocalRaft_preserves _).map fun part => part.2.2.1).of_run hraft
  obtain ⟨log, hlog, rfl⟩ := appendToLog_ok happend
  cases hobserve
  change _ ∈ (t₇.logs shardId).written
  rw [hlogs]
  dsimp only
  rw [Function.update_self, SegmentedShardLog.written_appendWithSync hlog]
  exact List.mem_append_right _ (.head _)

theorem checkLocalCommand_validated {shardId : Nat}
    (h : checkLocalCommand engine shardId command db = .ok ()) :
    Validated engine db.store command := by
  obtain ⟨_, -, h⟩ := of_exceptBind_ok h
  obtain ⟨_, -, h⟩ := of_exceptBind_ok h
  obtain ⟨_, hstorable, h⟩ := of_exceptBind_ok h
  obtain ⟨_, hvector, hunique⟩ := of_exceptBind_ok h
  exact ⟨hstorable, hvector, hunique⟩

/-- One operation of a batch. -/
abbrev appendOperation (engine : GraphEngine C G)
    (operation : Request C) : Op C G R (LogEntry C) := do
  let (shardId, command) ← lookup fun _ => operation
  appendLocalCommand engine shardId command

theorem appendOperation_preserves (op : Request C) :
    Preserves store (appendOperation engine op : Op C G R (LogEntry C)) :=
  (Preserves.lookup _).bind fun _ => appendLocalCommand_preserves _ _

theorem appendOperation_ok {op : Request C} {entry : LogEntry C}
    (h : (appendOperation engine op).run db = (.ok entry, db')) :
    op = .ok (entry.shardId, entry.command) ∧ Validated engine db.store entry.command := by
  obtain ⟨⟨shardId, command⟩, hop, hrest⟩ := of_lookup_bind_ok h
  obtain ⟨hcheck, hshard, -, -, hcmd, -⟩ := appendLocalCommand_ok hrest
  rw [hop, hshard, hcmd]
  exact ⟨rfl, checkLocalCommand_validated hcheck⟩

/-- The shard and the command of an entry. -/
def commandOf (entry : LogEntry C) : Nat × C := (entry.shardId, entry.command)

theorem collect_appendOperation_ok {ops : List (Request C)}
    {entries : List (LogEntry C)}
    (h : (collect (appendOperation engine) ops).run db = (.ok entries, db')) :
    ops = entries.map (fun entry => .ok (commandOf entry)) ∧
      ∀ entry ∈ entries, Validated engine db.store entry.command := by
  induction ops generalizing db entries with
  | nil =>
    cases h
    exact ⟨rfl, List.forall_mem_nil _⟩
  | cons op ops ih =>
    obtain ⟨entry, t, hfirst, h⟩ := of_bind_ok h
    obtain ⟨rest, t', hrest, h⟩ := of_bind_ok h
    cases h
    have hstore := (appendOperation_preserves op).of_run hfirst
    obtain ⟨hop, hvalid⟩ := appendOperation_ok hfirst
    obtain ⟨hops, hvalids⟩ := ih hrest
    rw [hstore] at hvalids
    refine ⟨?_, List.forall_mem_cons.mpr ⟨hvalid, hvalids⟩⟩
    rw [hop, hops]
    rfl

/-- The operations that fail are left out. -/
theorem collectOk_appendOperation (engine : GraphEngine C G)
    (ops : List (Request C)) (db : Database C G R) :
    ∃ entries db', (collectOk (appendOperation engine) ops).run db =
        (.ok entries, db') ∧ db'.store = db.store ∧
      (entries.map fun entry => Except.ok (commandOf entry)).Sublist ops ∧
      ∀ entry ∈ entries, Validated engine db.store entry.command := by
  induction ops generalizing db with
  | nil => exact ⟨[], db, rfl, rfl, .slnil, List.forall_mem_nil _⟩
  | cons op ops ih =>
    rcases hfirst : (appendOperation engine op).run db with ⟨result, t⟩
    have hstore := (appendOperation_preserves op).of_run hfirst
    obtain ⟨entries, db', hrest, hstore', hsublist, hvalids⟩ := ih t
    rw [hstore] at hvalids hstore'
    cases result with
    | error =>
      refine ⟨entries, db', ?_, hstore', hsublist.cons _, hvalids⟩
      simp only [collectOk, hfirst]
      exact hrest
    | ok entry =>
      obtain ⟨hop, hvalid⟩ := appendOperation_ok hfirst
      refine ⟨entry :: entries, db', ?_, hstore', ?_, List.forall_mem_cons.mpr ⟨hvalid, hvalids⟩⟩
      · simp only [collectOk, hfirst]
        rw [run_bind_of_ok hrest]
        rfl
      · rw [hop]
        exact hsublist.cons_cons _

/-! ## The calls -/

/-- The store is as it was, and the call fails if it is not idle, or the work is done to
the store and has the result of the call. -/
def Does (idle : Prop) (work : Fallible DatabaseError G Unit) (x : Op C G R Unit) : Prop :=
  ∀ db result db', x.run db = (result, db') →
    db'.store = db.store ∧ (result = .ok () → idle) ∨ work.run db.store = (result, db'.store)

variable {idle : Prop} {work : Fallible DatabaseError G Unit} {α : Type} {x : Op C G R α}

/-- A part that leaves the store alone comes first. -/
theorem does_bind {f : α → Op C G R Unit} (hx : Preserves store x)
    (hf : ∀ a, Does idle work (f a)) : Does idle work (x >>= f) := by
  intro db result db' hrun
  rcases hfirst : x.run db with ⟨first, t⟩
  have hstore := hx.of_run hfirst
  cases first with
  | error =>
    cases (run_bind_of_error hfirst).symm.trans hrun
    exact .inl ⟨hstore, fun hok => by cases hok⟩
  | ok a =>
    rw [run_bind_of_ok hfirst] at hrun
    rw [← hstore]
    exact hf a t result db' hrun

theorem does_of_shows {x : Op C G R Unit} (h : Shows store x work) : Does idle work x := by
  intro db result db' hrun
  obtain ⟨hresult, hstore⟩ := h db
  rw [hrun] at hresult hstore
  exact .inr (Prod.ext hresult.symm hstore.symm)

section

variable (engine : GraphEngine C G) (replicator : ShardReplicator C R)

theorem applyEntry_does (entry : LogEntry C) :
    Does False (applyWork engine entry.shardId entry.command)
      (applyEntry engine replicator entry) :=
  does_bind (preserves_store (applyClusterConfigChange_preserves _)) fun _ =>
    does_of_shows (applyWork_shows entry)

theorem applyEntriesBatch_does (entries : List (LogEntry C)) :
    Does (entries = []) (applyBatchWork engine (entries.map commandOf))
      (applyEntriesBatch engine replicator entries) := by
  unfold applyEntriesBatch
  split
  · next hempty =>
    intro db result db' hrun
    cases hrun
    exact .inl ⟨rfl, fun _ => List.isEmpty_iff.mp hempty⟩
  · refine does_bind (preserves_store
      (Preserves.forEach fun _ _ => applyClusterConfigChange_preserves _)) fun _ => ?_
    exact does_of_shows (applyBatchWork_shows entries)

theorem flushGroupCommit_does (entries : List (LogEntry C)) :
    Does (entries = []) (applyBatchWork engine (entries.map commandOf))
      (flushGroupCommit engine replicator entries) := by
  rw [flushGroupCommit_eq]
  exact does_bind (preserves_store (publishBatchCommitted_preserves entries)) fun _ =>
    applyEntriesBatch_does engine replicator entries

theorem publish_does (entry : LogEntry C) :
    Does False (applyWork engine entry.shardId entry.command) (do
      publishCommitted replicator entry
      applyEntry engine replicator entry) :=
  does_bind (preserves_store (publishCommitted_preserves entry)) fun _ =>
    applyEntry_does engine replicator entry

end

/-- A single write: its command passed its checks and is applied, or nothing is. -/
theorem writeCommand_store {shardId : Nat} {result : Except DatabaseError Unit}
    (hrun : (writeCommand engine replicator shardId command).run db = (result, db')) :
    db'.store = db.store ∧ result ≠ .ok () ∨ Validated engine db.store command ∧
      (applyWork engine shardId command).run db.store = (result, db'.store) := by
  rw [writeCommand_eq] at hrun
  rcases happend : (appendLocalCommand engine shardId command).run db with ⟨appended, t⟩
  have hstore := (appendLocalCommand_preserves shardId command).of_run happend
  cases appended with
  | error =>
    cases (run_bind_of_error happend).symm.trans hrun
    exact .inl ⟨hstore, fun hok => by cases hok⟩
  | ok entry =>
    obtain ⟨hcheck, rfl, -, -, rfl, -⟩ := appendLocalCommand_ok happend
    rw [run_bind_of_ok happend] at hrun
    rw [← hstore]
    exact (publish_does engine replicator entry t result db' hrun).imp_right fun h =>
      ⟨hstore ▸ checkLocalCommand_validated hcheck, h⟩

/-- The entries of a batch, which passed their checks, are applied, or nothing is. -/
theorem flushed_store (replicator : ShardReplicator C R) {entries : List (LogEntry C)}
    (hstore : db'.store = db.store)
    (hvalid : ∀ entry ∈ entries, Validated engine db.store entry.command) :
    ((if entries.isEmpty then pure () else
        flushGroupCommit engine replicator entries).run db').2.store = db.store ∨
      (∀ command ∈ entries.map commandOf, Validated engine db.store command.2) ∧
        ((if entries.isEmpty then pure () else
            flushGroupCommit engine replicator entries).run db').2.store =
          ((applyBatchWork engine (entries.map commandOf)).run db.store).2 := by
  split
  · exact .inl hstore
  · refine (flushGroupCommit_does engine replicator entries db' _ _ Prod.mk.eta.symm).imp
      (fun h => h.1.trans hstore) fun h => ⟨fun command hmem => ?_, ?_⟩
    · obtain ⟨entry, hentry, rfl⟩ := List.mem_map.mp hmem
      exact hvalid entry hentry
    · rw [← hstore, h]

/-- A batch: all its commands passed their checks and are applied, or nothing is. -/
theorem executeBatchWrite_store (replicator : ShardReplicator C R)
    (ops : List (Request C)) (db : Database C G R) :
    ((executeBatchWrite engine replicator ops).run db).2.store = db.store ∨
      ∃ cmds : List (Nat × C), ops = cmds.map .ok ∧
        (∀ command ∈ cmds, Validated engine db.store command.2) ∧
        ((executeBatchWrite engine replicator ops).run db).2.store =
          ((applyBatchWork engine cmds).run db.store).2 := by
  have hcollect : Preserves store (collect (appendOperation engine) ops : Op C G R _) :=
    Respects.collect (R := fun db db' : Database C G R => db'.store = db.store) fun op _ =>
      appendOperation_preserves op
  unfold executeBatchWrite
  rcases happend : (collect (appendOperation engine) ops).run db with ⟨result, t⟩
  have hstore := hcollect.of_run happend
  cases result with
  | error =>
    rw [run_bind_of_error happend]
    exact .inl hstore
  | ok entries =>
    obtain ⟨hops, hvalid⟩ := collect_appendOperation_ok happend
    rw [run_bind_of_ok happend]
    refine (flushed_store replicator hstore hvalid).imp_right fun h => ⟨_, ?_, h⟩
    rw [hops, List.map_map]
    rfl

/-- A group of requests: some of them passed their checks and are applied, or nothing is. -/
theorem executeWriteBatch_store (replicator : ShardReplicator C R)
    (requests : List (Request C)) (db : Database C G R) :
    ((executeWriteBatch engine replicator requests).run db).2.store = db.store ∨
      ∃ cmds : List (Nat × C), (cmds.map Except.ok).Sublist requests ∧
        (∀ command ∈ cmds, Validated engine db.store command.2) ∧
        ((executeWriteBatch engine replicator requests).run db).2.store =
          ((applyBatchWork engine cmds).run db.store).2 := by
  unfold executeWriteBatch
  obtain ⟨entries, t, happend, hstore, hsublist, hvalid⟩ :=
    collectOk_appendOperation engine requests db
  rw [run_bind_of_ok happend]
  refine (flushed_store replicator hstore hvalid).imp_right fun h => ⟨_, ?_, h⟩
  rw [List.map_map]
  exact hsublist

/-! ## Rules for the calls -/

/-- A relation between databases that the parts of write calls respect, for entries with the
property. -/
structure WriteRules (engine : GraphEngine C G) (replicator : ShardReplicator C R)
    (r : Database C G R → Database C G R → Prop) (P : Nat × C → Prop) : Prop where
  append : ∀ command, P command → Respects r (appendLocalCommand engine command.1 command.2)
  onReplicator : ∀ {α : Type} (x : Fallible DatabaseError R α), Respects r (onReplicator x)
  observe : ∀ entry outcome, Respects r (observeReplicationOutcome entry outcome)
  observeRaft : ∀ entry outcome, Respects r (observeRaftReplicationOutcome entry outcome)
  setCommitIndex : ∀ entry, P (commandOf entry) → Respects r (setCommitIndex entry)
  saveCommit : ∀ entry, Respects r (saveCommit entry)
  configChange : ∀ command, P command →
    Respects r (applyClusterConfigChange engine replicator command.2)
  onStore : ∀ x : Fallible DatabaseError G Unit, Respects r (onStore x)
  observeEntry : ∀ entry, Respects r (observeEntry entry)
  saveCheckpoint : ∀ entry, Respects r (saveCheckpoint entry)

namespace WriteRules

variable {r : Database C G R → Database C G R → Prop} [IsPreorder (Database C G R) r]
  {P : Nat × C → Prop} (h : WriteRules engine replicator r P)

include h

theorem writeCommand {shardId : Nat} {command : C} (hcmd : P (shardId, command)) :
    Respects r (writeCommand engine replicator shardId command) := by
  refine (h.append _ hcmd).bind_ok (Q := fun entry => P (commandOf entry)) ?_ ?_
  · intro db entry db' hrun
    obtain ⟨-, hshard, -, -, hcommand, -⟩ := appendLocalCommand_ok hrun
    rwa [commandOf, hshard, hcommand]
  intro entry hentry
  refine (h.onReplicator _).bind fun outcome => (h.observe entry outcome).bind fun _ => ?_
  refine (h.observeRaft entry outcome).bind fun _ => Respects.bind ?_ fun _ => ?_
  · exact (Respects.lookup _).bind fun _ => (h.saveCommit entry).bind fun _ =>
      h.setCommitIndex entry hentry
  · refine (Respects.lookup _).bind fun _ => ?_
    exact applyEntry_respects h.onStore (h.configChange (commandOf entry) hentry)
      (h.observeEntry entry) (h.saveCheckpoint entry)

theorem flushGroupCommit {entries : List (LogEntry C)}
    (hentries : ∀ entry ∈ entries, P (commandOf entry)) :
    Respects r (if entries.isEmpty then pure () else
      flushGroupCommit engine replicator entries) := by
  split
  · exact Respects.pure ()
  refine (h.onReplicator _).bind fun outcomes => Respects.bind ?_ fun _ => ?_
  · exact Respects.forEach fun pair _ =>
      (h.observe pair.1 pair.2).bind fun _ => h.observeRaft pair.1 pair.2
  refine Respects.bind ?_ fun _ => Respects.bind (Respects.bind ?_ fun _ => ?_) fun _ => ?_
  · exact Respects.forEach fun _ _ => (Respects.lookup _).bind fun _ => Respects.pure ()
  · exact Respects.forEach fun entry hmem => (Respects.lookup _).bind fun _ =>
      h.setCommitIndex entry (hentries entry hmem)
  · exact Respects.forEach fun entry _ => h.saveCommit entry
  · exact applyEntriesBatch_respects h.onStore
      (fun entry hmem => h.configChange (commandOf entry) (hentries entry hmem))
      (fun entry _ => h.observeEntry entry) h.saveCheckpoint

theorem appendOperation {operation : Request C}
    (hop : ∀ command, operation = .ok command → P command) :
    Respects r (appendOperation engine operation) := by
  cases operation with
  | error => exact Respects.lookup _
  | ok command => exact fun db => h.append command (hop command rfl) db

variable {operations : List (Request C)}
  (hops : ∀ command, .ok command ∈ operations → P command)

include hops

theorem executeBatchWrite : Respects r (executeBatchWrite engine replicator operations) := by
  refine Respects.bind_ok (Q := fun entries => ∀ entry ∈ entries, P (commandOf entry))
    (Respects.collect fun operation hmem => ?_) ?_ fun entries hentries =>
      h.flushGroupCommit hentries
  · exact h.appendOperation fun command heq => hops command (heq ▸ hmem)
  · intro db entries db' hrun entry hmem
    obtain ⟨heq, -⟩ := collect_appendOperation_ok hrun
    rw [heq] at hops
    exact hops _ (List.mem_map_of_mem hmem)

theorem executeWriteBatch : Respects r (executeWriteBatch engine replicator operations) := by
  refine Respects.bind_ok (Q := fun entries => ∀ entry ∈ entries, P (commandOf entry))
    (Respects.collectOk fun operation hmem => ?_) ?_ fun entries hentries =>
      h.flushGroupCommit hentries
  · exact h.appendOperation fun command heq => hops command (heq ▸ hmem)
  · intro db entries db' hrun entry hmem
    obtain ⟨entries', db'', hrun', -, hsublist, -⟩ :=
      collectOk_appendOperation engine operations db
    cases hrun.symm.trans hrun'
    exact hops _ (hsublist.subset (List.mem_map_of_mem hmem))

end WriteRules

/-- The rules for a relation between the logs. -/
theorem writeRules_of_logs {r : Database C G R → Database C G R → Prop}
    [IsPreorder (Database C G R) r] {P : Nat × C → Prop}
    (h : ∀ db db', db'.logs = db.logs → r db db')
    (happend : ∀ command, P command → Respects r (appendLocalCommand engine command.1 command.2)) :
    WriteRules engine replicator r P where
  append := happend
  onReplicator _ _ := h _ _ rfl
  observe _ _ := (Respects.lookup _).bind fun _ _ => h _ _ rfl
  observeRaft _ _ := observeRaftReplicationOutcome_respects fun _ _ => h _ _ rfl
  setCommitIndex _ _ _ := h _ _ rfl
  saveCommit _ _ := h _ _ rfl
  configChange _ _ db :=
    h _ _ (congrArg (fun part => part.2.2.1) (applyClusterConfigChange_preserves _ db))
  onStore _ _ := h _ _ rfl
  observeEntry _ _ := h _ _ rfl
  saveCheckpoint _ _ := h _ _ rfl

end Neo4r.Db.Database
