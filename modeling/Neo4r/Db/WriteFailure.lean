/-
  `Db.WriteFailure`: what a write that fails leaves behind.

  A write call stages its commands one by one, publishes their entries, commits them
  and applies them.  Its commands may be for several shards.  Nothing takes a staged entry
  back: if the call fails before its entries are committed, the next index of a shard has
  passed its commit index, and from then on no write to that shard can be committed.

  The main result says that this is the only way a failed call gets in the way of later
  ones, over all runs of write calls: as long as no call leaves such an entry behind, later
  writes succeed and a failed call shows nothing or has all of its entries committed; and
  once one has, some shard is lost.
-/
import Neo4r.Db.StoreMoves

set_option autoImplicit false

namespace Neo4r.Db

open Foundation Raft Storage Database Fallible List ShardView

variable {C G R : Type} {entries : List (LogEntry C)}

/-! ## Write calls and their phases -/

/-- A call that writes: a single command, a batch of operations that stand and fall
together, as a staged transaction is one too, or a group of requests that the writer thread
flushes together.  An operation is prepared to a shard and a command, or to an error. -/
inductive WriteCall (C : Type)
  | single (shardId : Nat) (command : C)
  | batch (operations : List (Request C))
  | group (requests : List (Request C))

namespace WriteCall

/-- What the call asks for, operation by operation. -/
def requests : WriteCall C → List (Request C)
  | .single shardId command => [.ok (shardId, command)]
  | .batch operations => operations
  | .group requests => requests

variable (engine : GraphEngine C G) (replicator : ShardReplicator C R)

/-- The call as the method of the database it is. -/
def run : WriteCall C → Op C G R Unit
  | .single shardId command => writeCommand engine replicator shardId command
  | .batch operations => executeBatchWrite engine replicator operations
  | .group requests => executeWriteBatch engine replicator requests

/-- The operation is a command for a shard of the server, and passes its checks. -/
def passes (db : Database C G R) : Request C → Bool
  | .ok (shardId, command) =>
    decide (shardId < db.shardCount) && (checkLocalCommand engine shardId command db).isOk
  | .error _ => false

/-- The operations that the call goes on with.  A request of a group that does not pass is
answered by itself. -/
def taken (db : Database C G R) : WriteCall C → List (Request C)
  | .group requests => requests.filter (passes engine db)
  | call => call.requests

/-- The commands are appended. -/
def stage (operations : List (Request C)) : Op C G R (List (LogEntry C)) :=
  collect (appendOperation engine) operations

/-- The entries of a batch or a group are published, and the acknowledgements counted. -/
def publishAll (entries : List (LogEntry C)) : Op C G R Unit := do
  let outcomes ← onReplicator (replicator.publishBatch entries)
  forEach (fun (entry, outcome) => do
    observeReplicationOutcome entry outcome
    observeRaftReplicationOutcome entry outcome) (entries.zip outcomes)

/-- The entries are published, and the acknowledgements counted. -/
def publish : WriteCall C → List (LogEntry C) → Op C G R Unit
  | .single _ _, entries => forEach (fun entry => do
      let outcome ← onReplicator (replicator.publish entry)
      observeReplicationOutcome entry outcome
      observeRaftReplicationOutcome entry outcome) entries
  | .batch _, entries => publishAll replicator entries
  | .group _, entries => publishAll replicator entries

/-- The entries are committed and applied. -/
def finish : WriteCall C → List (LogEntry C) → Op C G R Unit
  | .single _ _, entries => forEach (fun entry => do
      commitEntry entry
      lookup maybeInjectFailureAfterCommitBeforeApply
      applyEntry engine replicator entry) entries
  | .batch _, entries => flushEntries engine replicator entries
  | .group _, entries => flushEntries engine replicator entries

/-- What applying the call's commands does to the graph store. -/
def work (db : Database C G R) (call : WriteCall C) : Fallible DatabaseError G Unit :=
  match call with
  | .single shardId command => applyWork engine shardId command
  | call => applyBatchWork engine ((call.taken engine db).filterMap Except.toOption)

/-! ## Conditions on a call -/

variable (call : WriteCall C)

/-- The first operation of the call does not pass its checks. -/
def Refused (db : Database C G R) : Prop :=
  ∃ operation ∈ (call.taken engine db).head?, passes engine db operation = false

/-- Every operation of the call passes its checks. -/
def Ready (db : Database C G R) : Prop :=
  ∀ operation ∈ call.taken engine db, passes engine db operation = true

instance (db : Database C G R) : Decidable (call.Ready engine db) :=
  inferInstanceAs (Decidable (∀ operation ∈ call.taken engine db, _))

/-- The replicator takes the call's entries, and with Raft a quorum acknowledges them. -/
def Acknowledged (db : Database C G R) : Prop :=
  ∀ entries staged, (stage engine (call.taken engine db)).run db = (.ok entries, staged) →
    ((call.publish replicator entries).run staged).1 = .ok ()

/-- The operations are for these shards. -/
def Within (shards : Set Nat) (operations : List (Request C)) : Prop :=
  ∀ operation ∈ operations, ∀ command ∈ operation.toOption, command.1 ∈ shards

instance (shards : Set Nat) [DecidablePred (· ∈ shards)]
    (operations : List (Request C)) : Decidable (Within shards operations) :=
  inferInstanceAs (Decidable (∀ operation ∈ operations, ∀ command ∈ operation.toOption, _))

/-- A call in which the commands are on the graph. -/
def OnGraph : Prop :=
  ∀ shardId command, .ok (shardId, command) ∈ call.requests → engine.configChange command = none

theorem taken_sublist (db : Database C G R) : (call.taken engine db).Sublist call.requests := by
  cases call with
  | single => exact .refl _
  | batch => exact .refl _
  | group => exact filter_sublist

/-! ## Staging -/

/-- What staging a list of commands does, shard by shard. -/
structure StagedAll (shards : Set Nat) (operations : List (Request C))
    (db db' : Database C G R) (entries : List (LogEntry C)) : Prop where
  commands : operations = entries.map fun entry => .ok (commandOf entry)
  store : db'.store = db.store
  commits : db'.commitIndexes = db.commitIndexes
  indexes : ∀ shardId ∈ shards, (onShard shardId entries).map (·.index) =
    range' (db.nextLogIndexes shardId) (onShard shardId entries).length
  written : ∀ shardId ∈ shards,
    (db'.logs shardId).written = (db.logs shardId).written ++ onShard shardId entries
  view : ∀ shardId ∈ shards,
    db'.view shardId = (db.view shardId).advance (onShard shardId entries).length

/-- The shard exists, its log and its Raft group continue at the next index, and the
commit index is below it. -/
structure Sound (shardId : Nat) (v : ShardView) : Prop where
  aligned : v.Aligned shardId
  behind : v.committed < v.next

theorem Sound.advance {shardId : Nat} {v : ShardView} (h : Sound shardId v) (count : Nat) :
    Sound shardId (v.advance count) :=
  ⟨h.aligned.advance count, Nat.lt_add_right count h.behind⟩

/-- The operations are for these shards, which are sound and have room for them. -/
structure Room (shards : Set Nat) (operations : List (Request C))
    (db : Database C G R) : Prop where
  sound : ∀ shardId ∈ shards, Sound shardId (db.view shardId)
  bound : ∀ shardId ∈ shards, db.nextLogIndexes shardId + operations.length ≤ u64Max
  within : Within shards operations

variable {engine replicator call}
variable {shards : Set Nat} {operations operations' : List (Request C)}
  {operation : Request C} {db db' db'' : Database C G R}

theorem passes_ok_iff {shardId : Nat} {command : C} :
    passes engine db (.ok (shardId, command)) = true ↔
      shardId < db.shardCount ∧ checkLocalCommand engine shardId command db = .ok () := by
  unfold passes
  cases hcheck : checkLocalCommand engine shardId command db <;>
    simp [hcheck, Except.isOk, Except.toBool]

theorem Room.mono (h : Room shards operations db) (hsublist : operations'.Sublist operations) :
    Room shards operations' db where
  sound := h.sound
  bound shardId hmem := (Nat.add_le_add_left hsublist.length_le _).trans (h.bound shardId hmem)
  within operation hmem := h.within operation (hsublist.subset hmem)

theorem StagedAll.nil (h : Room shards [] db) : StagedAll shards [] db db [] := by
  refine ⟨rfl, rfl, rfl, fun _ _ => rfl, fun shardId _ => ?_, fun shardId hmem => ?_⟩
  · exact (append_nil _).symm
  · exact (h.sound shardId hmem).aligned.advance_zero.symm

theorem StagedAll.next (h : StagedAll shards operations db db' entries) {shardId : Nat}
    (hmem : shardId ∈ shards) : db'.nextLogIndexes shardId =
      db.nextLogIndexes shardId + (onShard shardId entries).length :=
  congrArg ShardView.next (h.view shardId hmem)

theorem StagedAll.trans {entries' : List (LogEntry C)}
    (h : StagedAll shards operations db db' entries)
    (h' : StagedAll shards operations' db' db'' entries') :
    StagedAll shards (operations ++ operations') db db'' (entries ++ entries') := by
  have happend : ∀ shardId, onShard shardId (entries ++ entries') =
      onShard shardId entries ++ onShard shardId entries' := fun _ => filter_append ..
  refine ⟨?_, h'.store.trans h.store, h'.commits.trans h.commits, ?_, ?_, ?_⟩
  · rw [h.commands, h'.commands, map_append]
  · intro shardId hmem
    rw [happend, map_append, h.indexes shardId hmem, h'.indexes shardId hmem, h.next hmem,
      range'_append_1, length_append]
  · intro shardId hmem
    rw [happend, h'.written shardId hmem, h.written shardId hmem, append_assoc]
  · intro shardId hmem
    rw [happend, h'.view shardId hmem, h.view shardId hmem, advance_advance, length_append]

section

variable (h : StagedAll shards operations db db' entries)

include h

theorem StagedAll.sound (hsound : ∀ shardId ∈ shards, Sound shardId (db.view shardId)) :
    ∀ shardId ∈ shards, Sound shardId (db'.view shardId) := by
  intro shardId hmem
  rw [h.view shardId hmem]
  exact (hsound shardId hmem).advance _

theorem StagedAll.length_eq : entries.length = operations.length := by
  rw [h.commands, length_map]

theorem StagedAll.next_le {shardId : Nat} (hmem : shardId ∈ shards) :
    db'.nextLogIndexes shardId ≤ db.nextLogIndexes shardId + operations.length := by
  have hle : (onShard shardId entries).length ≤ entries.length := length_filter_le ..
  have hnext := h.next hmem
  have hlength := h.length_eq
  omega

/-- What comes after has room. -/
theorem StagedAll.room (hroom : Room shards (operations ++ operations') db) :
    Room shards operations' db' where
  sound := h.sound hroom.sound
  bound shardId hmem := by
    have hle := h.next_le hmem
    have hbound := hroom.bound shardId hmem
    rw [length_append] at hbound
    omega
  within operation hmem := hroom.within operation (mem_append_right _ hmem)

/-- Staging does not change which operations pass their checks. -/
theorem StagedAll.passes_congr (hroom : Room shards operations' db)
    (hmem : operation ∈ operations') :
    passes engine db' operation = passes engine db operation := by
  cases operation with
  | error => rfl
  | ok command =>
    obtain ⟨shardId, command⟩ := command
    have hshards : shardId ∈ shards := hroom.within _ hmem _ rfl
    have hsound := hroom.sound shardId hshards
    have hview := h.view shardId hshards
    have hshard : shardId < db.shardCount := hsound.aligned.shard
    have hcount : db'.shardCount = db.shardCount := congrArg ShardView.shardCount hview
    have hshard' : shardId < db'.shardCount := hcount.symm ▸ hshard
    rw [Bool.eq_iff_iff, passes_ok_iff, passes_ok_iff, checkLocalCommand_ok_iff hshard,
      checkLocalCommand_ok_iff hshard', hview, h.store, leads_advance_iff hsound.behind, hcount]
    rfl

variable {entry : LogEntry C}

theorem StagedAll.mem (he : entry ∈ entries) :
    .ok (entry.shardId, entry.command) ∈ operations := by
  rw [h.commands]
  exact mem_map_of_mem he

theorem StagedAll.mem_shards (hwithin : Within shards operations) (he : entry ∈ entries) :
    entry.shardId ∈ shards :=
  hwithin _ (h.mem he) _ rfl

/-- The entries of a shard come after what it had, and before what it has next. -/
theorem StagedAll.index_bounds {shardId : Nat} (hmem : shardId ∈ shards)
    (he : entry ∈ onShard shardId entries) :
    db.nextLogIndexes shardId ≤ entry.index ∧ entry.index < db'.nextLogIndexes shardId := by
  have hidx := mem_map_of_mem (f := fun entry : LogEntry C => entry.index) he
  rw [h.indexes shardId hmem, mem_range'_1] at hidx
  rwa [h.next hmem]

end

/-- An operation that does not pass its checks changes nothing. -/
theorem appendOperation_refused (hrefused : passes engine db operation = false) :
    ∃ err, (appendOperation engine operation).run db = (.error err, db) := by
  cases operation with
  | error err => exact ⟨err, rfl⟩
  | ok command =>
    obtain ⟨shardId, command⟩ := command
    have hstart : (appendOperation engine (.ok (shardId, command))).run db =
      (appendLocalCommand engine shardId command).run db := rfl
    rw [hstart, appendLocalCommand, run_bind, run_lookup]
    cases hcheck : checkLocalCommand engine shardId command db with
    | error err => exact ⟨err, rfl⟩
    | ok =>
      have hshard : ¬ shardId < db.shardCount := fun hshard => by
        rw [passes_ok_iff.mpr ⟨hshard, hcheck⟩] at hrefused
        cases hrefused
      have hnext : nextLogIndex shardId db = .error (.missingShardLog shardId) := if_neg hshard
      dsimp only
      rw [run_bind, run_lookup, hnext]
      exact ⟨_, rfl⟩

/-- An operation that passes its checks is staged. -/
theorem appendOperation_passes (hroom : Room shards [operation] db)
    (hpass : passes engine db operation = true) :
    ∃ entry db', (appendOperation engine operation).run db = (.ok entry, db') ∧
      StagedAll shards [operation] db db' [entry] := by
  cases operation with
  | error => cases hpass
  | ok command =>
    obtain ⟨owner, command⟩ := command
    have howner : owner ∈ shards := hroom.within _ (mem_singleton.mpr rfl) _ rfl
    obtain ⟨entry, db', hrun, hstaged⟩ := appendLocalCommand_accepted
      (hroom.sound owner howner).aligned (hroom.bound owner howner) (passes_ok_iff.mp hpass).2
    obtain rfl := hstaged.shard
    have hown : onShard entry.shardId [entry] = [entry] := filter_cons_of_pos (by simp)
    have hother : ∀ shardId ≠ entry.shardId, onShard shardId [entry] = [] := fun shardId hne =>
      filter_cons_of_neg (by simpa using hne.symm)
    refine ⟨entry, db', hrun, ?_, hstaged.store, hstaged.commits, ?_, ?_, ?_⟩
    · rw [map_singleton, commandOf, hstaged.command_eq]
    all_goals
      intro shardId hmem
      by_cases hshard : shardId = entry.shardId
    · subst hshard
      rw [hown, map_singleton, hstaged.index]
      rfl
    · rw [hother shardId hshard]
      rfl
    · subst hshard
      rw [hown, hstaged.written]
    · rw [hother shardId hshard, (hstaged.elsewhere shardId hshard).2, append_nil]
    · subst hshard
      rw [hown, hstaged.view]
      rfl
    · rw [hother shardId hshard, (hstaged.elsewhere shardId hshard).1]
      exact (hroom.sound shardId hmem).aligned.advance_zero.symm

theorem stage_cons : (stage engine (operation :: operations) : Op C G R (List (LogEntry C))) = (do
    let entry ← appendOperation engine operation
    let entries ← stage engine operations
    pure (entry :: entries)) := rfl

/-- Operations that all pass their checks are all staged. -/
theorem stage_ready (hroom : Room shards operations db)
    (hpass : ∀ operation ∈ operations, passes engine db operation = true) :
    ∃ entries db', (stage engine operations).run db = (.ok entries, db') ∧
      StagedAll shards operations db db' entries := by
  induction operations generalizing db with
  | nil => exact ⟨[], db, rfl, .nil hroom⟩
  | cons operation operations ih =>
    obtain ⟨hhead, htail⟩ := forall_mem_cons.mp hpass
    obtain ⟨entry, db', hrun, hstaged⟩ := appendOperation_passes
      (hroom.mono (singleton_sublist.mpr mem_cons_self)) hhead
    have hpass' : ∀ operation ∈ operations, passes engine db' operation = true := by
      intro operation hmem
      rw [hstaged.passes_congr hroom (.tail _ hmem)]
      exact htail operation hmem
    obtain ⟨entries, db'', hrun', hall⟩ := ih (hstaged.room hroom) hpass'
    refine ⟨entry :: entries, db'', ?_, hstaged.trans hall⟩
    rw [stage_cons, run_bind_of_ok hrun, run_bind_of_ok hrun']
    rfl

/-- The requests of a group that do not pass their checks leave no trace. -/
theorem collectOk_run (hroom : Room shards operations db) :
    (collectOk (appendOperation engine) operations).run db =
      (stage engine (operations.filter (passes engine db))).run db := by
  induction operations generalizing db with
  | nil => rfl
  | cons operation operations ih =>
    cases hpass : passes engine db operation with
    | false =>
      obtain ⟨err, hrun⟩ := appendOperation_refused hpass
      rw [filter_cons_of_neg (by simp [hpass])]
      simp only [collectOk, hrun]
      exact ih (hroom.mono (sublist_cons_self _ _))
    | true =>
      obtain ⟨entry, db', hrun, hstaged⟩ := appendOperation_passes
        (hroom.mono (singleton_sublist.mpr mem_cons_self)) hpass
      have hsame : operations.filter (passes engine db') =
          operations.filter (passes engine db) :=
        filter_congr fun operation hmem => hstaged.passes_congr hroom (.tail _ hmem)
      rw [filter_cons_of_pos hpass, stage_cons, run_bind_of_ok hrun, ← hsame]
      simp only [collectOk, hrun]
      rw [run_bind, run_bind, ih (hstaged.room hroom)]

/-- What comes before the first operation that does not pass has been staged. -/
theorem stage_refused {after : List (Request C)}
    (hroom : Room shards (operations ++ operation :: after) db)
    (hpass : ∀ operation ∈ operations, passes engine db operation = true)
    (hrefused : passes engine db operation = false) : ∃ err entries db',
      (stage engine (operations ++ operation :: after)).run db = (.error err, db') ∧
        StagedAll shards operations db db' entries := by
  obtain ⟨entries, db', hrun, hall⟩ := stage_ready (hroom.mono (sublist_append_left _ _)) hpass
  rw [← hall.passes_congr hroom (mem_append_right _ mem_cons_self)] at hrefused
  obtain ⟨err, herror⟩ := appendOperation_refused hrefused
  refine ⟨err, entries, db', ?_, hall⟩
  unfold stage at hrun ⊢
  rw [collect_append, run_bind_of_ok hrun, collect, bind_assoc, run_bind_of_error herror]

/-! ## Publishing, committing and applying -/

theorem publishAll_keeps (replicator : ShardReplicator C R) (shardId : Nat)
    (entries : List (LogEntry C)) :
    Respects (KeepsShard shardId) (publishAll replicator entries : Op C G R Unit) := by
  refine Respects.bind (fun _ => ⟨rfl, rfl, rfl⟩) fun outcomes => ?_
  refine Respects.forEach fun pair _ => ?_
  refine ((Respects.lookup _).bind fun _ _ => ⟨rfl, rfl, rfl⟩).bind fun _ => ?_
  exact observeRaftReplicationOutcome_keeps shardId pair.1 pair.2

theorem publish_keeps (replicator : ShardReplicator C R) (shardId : Nat) (call : WriteCall C)
    (entries : List (LogEntry C)) :
    Respects (KeepsShard shardId) (call.publish replicator entries : Op C G R Unit) := by
  cases call with
  | single =>
    refine Respects.forEach fun entry _ => ?_
    refine Respects.bind (fun _ => ⟨rfl, rfl, rfl⟩) fun outcome => ?_
    refine ((Respects.lookup _).bind fun _ _ => ⟨rfl, rfl, rfl⟩).bind fun _ => ?_
    exact observeRaftReplicationOutcome_keeps shardId entry outcome
  | batch => exact publishAll_keeps replicator shardId entries
  | group => exact publishAll_keeps replicator shardId entries

/-- What has been staged is as it was after publishing. -/
theorem StagedAll.published (h : StagedAll shards operations db db' entries)
    (hkeeps : ∀ shardId, KeepsShard shardId db' db'') :
    StagedAll shards operations db db'' entries := by
  refine ⟨h.commands, (hkeeps 0).2.1.trans h.store, ?_, h.indexes, ?_, ?_⟩
  · rw [← h.commits]
    exact funext fun shardId => congrArg ShardView.committed (hkeeps shardId).1
  · intro shardId hmem
    rw [(hkeeps 0).2.2, h.written shardId hmem]
  · intro shardId hmem
    rw [(hkeeps shardId).1, h.view shardId hmem]

variable {published : Database C G R}

/-- The commit indexes have reached the last entries, and the logs are as before. -/
def Reached (entries : List (LogEntry C)) (db db' : Database C G R) : Prop :=
  (∀ shardId, db'.view shardId = { db.view shardId with
    committed := db.commitIndexes shardId + (onShard shardId entries).length }) ∧
  db'.logs = db.logs

/-- Commits and then applies: the result is the one of the work on the graph store. -/
theorem commit_then_apply {commit apply : Op C G R Unit} {work : Fallible DatabaseError G Unit}
    (hcommit : ∃ db', commit.run published = (.ok (), db') ∧ CommitsAll entries published db')
    (hkeeps : ∀ shardId, Respects (KeepsBelow shardId (published.nextLogIndexes shardId)) apply)
    (hshows : Shows Database.store apply work) :
    ∃ db', (do commit; apply : Op C G R Unit).run published =
        ((work.run published.store).1, db') ∧ Reached entries published db' := by
  obtain ⟨committed, hrun, hview, hstore, hlogs⟩ := hcommit
  obtain ⟨hres, -⟩ := hshows committed
  have happlied : ∀ shardId, (apply.run committed).2.view shardId = committed.view shardId ∧
      (apply.run committed).2.logs = committed.logs := fun shardId =>
    hkeeps shardId committed (congrArg ShardView.next (hview shardId)).ge
  refine ⟨(apply.run committed).2, ?_, fun shardId => (happlied shardId).1.trans (hview shardId),
    (happlied 0).2.trans hlogs⟩
  rw [run_bind_of_ok hrun, ← hstore, ← hres]

/-- What a call has staged and published before it commits. -/
structure Published (engine : GraphEngine C G) (shards : Set Nat) (call : WriteCall C)
    (db published : Database C G R) (entries : List (LogEntry C)) : Prop where
  nonempty : entries ≠ []
  room : Room shards (call.taken engine db) db
  graph : call.OnGraph engine
  staged : StagedAll shards (call.taken engine db) db published entries

namespace Published

variable (h : Published engine shards call db published entries)

include h

variable {entry : LogEntry C}

theorem mem_shards (he : entry ∈ entries) : entry.shardId ∈ shards :=
  h.staged.mem_shards h.room.within he

theorem configChange_eq (he : entry ∈ entries) : engine.configChange entry.command = none :=
  h.graph _ _ ((call.taken_sublist engine db).subset (h.staged.mem he))

theorem shard_lt (he : entry ∈ entries) : entry.shardId < published.shardCount := by
  exact (h.staged.sound h.room.sound _ (h.mem_shards he)).aligned.shard

theorem index_lt {shardId : Nat} (he : entry ∈ onShard shardId entries) :
    entry.index < published.nextLogIndexes shardId := by
  obtain ⟨hentry, rfl⟩ := mem_onShard.mp he
  exact (h.staged.index_bounds (h.mem_shards hentry) he).2

theorem next_le_u64Max {shardId : Nat} (hmem : shardId ∈ shards) :
    published.nextLogIndexes shardId ≤ u64Max :=
  (h.staged.next_le hmem).trans (h.room.bound shardId hmem)

/-- A shard without entries. -/
theorem onShard_eq_nil {shardId : Nat} (hmem : shardId ∉ shards) :
    onShard shardId entries = [] := by
  rw [eq_nil_iff_forall_not_mem]
  intro entry he
  obtain ⟨hentry, rfl⟩ := mem_onShard.mp he
  exact hmem (h.mem_shards hentry)

/-- Where everything in the logs is committed, the entries follow the commit indexes. -/
theorem contiguous (hnext : ∀ shardId ∈ shards,
    db.nextLogIndexes shardId = db.commitIndexes shardId + 1) : Contiguous published entries := by
  refine ⟨fun entry he => h.shard_lt he, fun shardId => ?_, fun entry he => ?_⟩
  · by_cases hmem : shardId ∈ shards
    · rw [h.staged.indexes shardId hmem, hnext shardId hmem, h.staged.commits]
    · rw [h.onShard_eq_nil hmem]
      rfl
  · have hlt := h.index_lt (mem_onShard.mpr ⟨he, rfl⟩)
    have hle := h.next_le_u64Max (h.mem_shards he)
    omega

theorem applyEntry_keepsBelow (he : entry ∈ entries) (shardId : Nat) :
    Respects (KeepsBelow shardId (published.nextLogIndexes shardId))
      (applyEntry engine replicator entry : Op C G R Unit) :=
  applyEntry_keeps (h.configChange_eq he) fun hown => h.index_lt (mem_onShard.mpr ⟨he, hown⟩)

theorem applyEntriesBatch_keepsBelow (shardId : Nat) :
    Respects (KeepsBelow shardId (published.nextLogIndexes shardId))
      (applyEntriesBatch engine replicator entries : Op C G R Unit) :=
  applyEntriesBatch_keeps (fun _ he => h.configChange_eq he) fun _ he => h.index_lt he

/-- The shards and commands of the entries are what the call went on with. -/
theorem filterMap_taken : (call.taken engine db).filterMap Except.toOption =
    entries.map fun entry => (entry.shardId, entry.command) := by
  rw [h.staged.commands, filterMap_map, ← filterMap_eq_map]
  rfl

/-- The entries of a batch or a group, which follow the commit indexes, are committed. -/
theorem flushEntries_run (hcontiguous : Contiguous published entries) :
    ∃ db', (flushEntries engine replicator entries).run published =
        (((applyBatchWork engine ((call.taken engine db).filterMap Except.toOption)).run
          published.store).1, db') ∧ Reached entries published db' := by
  rw [flushEntries, h.filterMap_taken, run_bind_of_ok (forEach_log_run fun _ he => h.shard_lt he)]
  exact commit_then_apply (commitEntries_run hcontiguous) h.applyEntriesBatch_keepsBelow
    (applyEntriesBatch_shows h.nonempty fun _ he => h.configChange_eq he)

variable (replicator) in
/-- The entries of a call follow the commit indexes, so they are committed. -/
theorem finish_run (hinject : db.config.failAfterCommitBeforeApply = false)
    (hcontiguous : Contiguous published entries) :
    ∃ db', (call.finish engine replicator entries).run published =
        (((call.work engine db).run db.store).1, db') ∧ Reached entries published db' := by
  have hconfig : published.config = db.config := by
    obtain ⟨first, hfirst⟩ := exists_mem_of_ne_nil _ h.nonempty
    exact congrArg ShardView.config (h.staged.view _ (h.mem_shards hfirst))
  rw [← h.staged.store]
  cases call with
  | batch => exact h.flushEntries_run hcontiguous
  | group => exact h.flushEntries_run hcontiguous
  | single shardId command =>
    have hcommands := h.staged.commands
    obtain ⟨entry, rfl⟩ : ∃ entry, entries = [entry] := length_eq_one_iff.mp h.staged.length_eq
    have hentry : (shardId, command) = (entry.shardId, entry.command) := by
      simpa [taken, requests, commandOf] using hcommands
    cases hentry
    have hcommit : ∃ db', (do
        commitEntry entry
        lookup maybeInjectFailureAfterCommitBeforeApply : Op C G R Unit).run published =
          (.ok (), db') ∧ CommitsAll [entry] published db' := by
      obtain ⟨db', hrun, hcommits⟩ := commitEntry_run hcontiguous
      refine ⟨db', ?_, hcommits⟩
      have hsame : db'.config = published.config := congrArg ShardView.config (hcommits.1 0)
      rw [run_bind_of_ok hrun, run_lookup, maybeInjectFailureAfterCommitBeforeApply, hsame,
        hconfig, hinject]
      rfl
    rw [finish, forEach, forEach, bind_pure_unit, ← bind_assoc]
    exact commit_then_apply hcommit (h.applyEntry_keepsBelow mem_cons_self)
      (applyEntry_shows (h.configChange_eq mem_cons_self))

end Published

/-! ## How a call ends -/

theorem flushGroupCommit_phases (entries : List (LogEntry C)) :
    (flushGroupCommit engine replicator entries : Op C G R Unit) = (do
      publishAll replicator entries
      flushEntries engine replicator entries) := by
  simp only [flushGroupCommit, publishAll, bind_assoc]

variable (engine replicator shards) in
/-- The ways a call ends: it has nothing to do, its first operation is refused, it fails
with entries staged, or it has published its entries and goes on to commit them. -/
inductive Ends (call : WriteCall C) (db : Database C G R) :
    Except DatabaseError Unit × Database C G R → Prop
  | idle : call.taken engine db = [] → Ends call db (.ok (), db)
  | refused (err : DatabaseError) : call.Refused engine db → Ends call db (.error err, db)
  | staged {err : DatabaseError} {db' : Database C G R} {entries : List (LogEntry C)}
      {operations : List (Request C)} : ¬ call.Refused engine db →
      ¬ (call.Ready engine db ∧ call.Acknowledged engine replicator db) →
      entries ≠ [] → Room shards operations db → operations.length ≤ call.requests.length →
      StagedAll shards operations db db' entries → Ends call db (.error err, db')
  | published {published : Database C G R} {entries : List (LogEntry C)} :
      call.Ready engine db → call.Acknowledged engine replicator db →
      Published engine shards call db published entries →
      Ends call db ((call.finish engine replicator entries).run published)

section

variable (hroom : Room shards call.requests db)

include hroom

/-- A call is its phases. -/
theorem run_eq : (call.run engine replicator).run db = (do
    let entries ← stage engine (call.taken engine db)
    if entries.isEmpty then pure ()
    else do
      call.publish replicator entries
      call.finish engine replicator entries : Op C G R Unit).run db := by
  cases call with
  | single =>
    have hok : ∀ command : Nat × C,
        (lookup fun _ => .ok command : Op C G R (Nat × C)) = pure command := fun _ => rfl
    simp [run, taken, requests, stage, writeCommand, publish, finish, collect, forEach, hok]
  | batch operations =>
    simp only [run, executeBatchWrite, flushGroupCommit_phases]
    rfl
  | group requests =>
    have hstage : (collectOk (appendOperation engine) requests).run db =
        (stage engine ((group requests).taken engine db)).run db :=
      collectOk_run hroom
    rw [run_bind, ← hstage, ← run_bind]
    simp only [run, executeWriteBatch, flushGroupCommit_phases]
    rfl

/-- A call whose operations all pass goes on to publish. -/
theorem ends_of_ready (hgraph : call.OnGraph engine) (hready : call.Ready engine db)
    (hne : call.taken engine db ≠ []) :
    Ends engine replicator shards call db ((call.run engine replicator).run db) := by
  have htaken := hroom.mono (call.taken_sublist engine db)
  obtain ⟨entries, staged, hstage, hall⟩ := stage_ready htaken hready
  have hentries : entries ≠ [] := by
    rintro rfl
    exact hne hall.commands
  rw [run_eq hroom, run_bind_of_ok hstage, if_neg (by simpa using hentries)]
  rcases hpublish : (call.publish replicator entries).run staged with ⟨result, published⟩
  have hpublished : StagedAll shards (call.taken engine db) db published entries := by
    refine hall.published fun shardId => ?_
    have hkeeps := publish_keeps replicator shardId call entries staged
    rwa [hpublish] at hkeeps
  cases result with
  | error err =>
    rw [run_bind_of_error hpublish]
    refine .staged ?_ (fun h => ?_) hentries htaken (call.taken_sublist engine db).length_le
      hpublished
    · rintro ⟨operation, hhead, hrefused⟩
      rw [hready operation (mem_of_mem_head? hhead)] at hrefused
      cases hrefused
    · have hok := h.2 entries staged hstage
      rw [hpublish] at hok
      cases hok
  | ok =>
    rw [run_bind_of_ok hpublish]
    refine .published hready ?_ ⟨hentries, htaken, hgraph, hpublished⟩
    intro entries' staged' hstage'
    rw [hstage] at hstage'
    cases hstage'
    rw [hpublish]

theorem run_ends (replicator : ShardReplicator C R) (hgraph : call.OnGraph engine) :
    Ends engine replicator shards call db ((call.run engine replicator).run db) := by
  by_cases hready : call.Ready engine db
  · by_cases hnil : call.taken engine db = []
    · rw [run_eq hroom, hnil]
      exact .idle hnil
    · exact ends_of_ready hroom hgraph hready hnil
  · obtain ⟨operation, hfound⟩ : ∃ operation, (call.taken engine db).find?
        (fun operation => !passes engine db operation) = some operation := by
      rw [← Option.isSome_iff_exists]
      unfold Ready at hready
      push Not at hready
      simpa using hready
    obtain ⟨hbad, before, after, hsplit, hpass⟩ := find?_eq_some_iff_append.mp hfound
    simp only [Bool.not_eq_true', Bool.not_not] at hbad hpass
    have hsublist := call.taken_sublist engine db
    rw [hsplit] at hsublist
    obtain ⟨err, entries, staged, hstage, hall⟩ := stage_refused (hroom.mono hsublist) hpass hbad
    have hbefore := (sublist_append_left before _).trans hsublist
    rw [run_eq hroom, hsplit, run_bind_of_error hstage]
    by_cases hnone : before = []
    · -- nothing comes before the operation
      subst hnone
      have hentries : entries = [] := length_eq_zero_iff.mp hall.length_eq
      subst hentries
      have hsame : staged = db := by
        obtain ⟨err', hrun⟩ := appendOperation_refused hbad
        rw [nil_append, stage_cons, run_bind_of_error hrun] at hstage
        exact (congrArg Prod.snd hstage).symm
      rw [hsame]
      exact .refused err ⟨operation, by rw [hsplit]; rfl, hbad⟩
    · refine .staged (fun h => ?_) (fun h => hready h.1) ?_ (hroom.mono hbefore) hbefore.length_le
        hall
      · obtain ⟨first, hhead, hrefused⟩ := h
        obtain ⟨head, tail, rfl⟩ := exists_cons_of_ne_nil hnone
        rw [hsplit, cons_append, head?_cons, Option.mem_some_iff] at hhead
        rw [← hhead, hpass head (.head _)] at hrefused
        cases hrefused
      · rintro rfl
        exact hnone hall.commands

end

namespace Published

variable (h : Published engine shards call db published entries)

include h

variable (replicator) in
theorem finish_settles (shardId : Nat) : Respects (Settles shardId entries)
    (call.finish engine replicator entries : Op C G R Unit) := by
  have hflush : Respects (Settles shardId entries)
      (flushEntries engine replicator entries : Op C G R Unit) := by
    refine (Respects.forEach fun _ _ => (Respects.lookup _).bind fun _ => Respects.pure ()).bind
      fun _ => commitEntries_settles.bind fun _ => ?_
    exact settles_of_keepsBelow fun _ hidx =>
      applyEntriesBatch_keeps (fun _ he => h.configChange_eq he) hidx
  cases call with
  | batch => exact hflush
  | group => exact hflush
  | single =>
    refine Respects.forEach fun entry he => (commitEntry_settles he).bind fun _ =>
      (Respects.lookup _).bind fun _ => ?_
    exact settles_of_keepsBelow fun _ hidx =>
      applyEntry_keeps (h.configChange_eq he) fun hown => hidx entry (mem_onShard.mpr ⟨he, hown⟩)

/-- A call does not get past an entry that is out of reach. -/
theorem finish_stuck {shardId : Nat} (hreach : OutOfReach shardId entries published)
    (hsome : onShard shardId entries ≠ []) :
    ((call.finish engine replicator entries).run published).1 ≠ .ok () := by
  have hflush : ((flushEntries engine replicator entries).run published).1 ≠ .ok () := by
    obtain ⟨err, hloop⟩ := commitLoop_stuck hreach hsome
    have hcommit : (commitEntries entries).run published =
        (.error err, ((commitEntries entries).run published).2) := by
      rw [commitEntries, run_bind_of_error (Prod.ext hloop rfl)]
    rw [flushEntries, run_bind_of_ok (forEach_log_run fun _ he => h.shard_lt he),
      run_bind_of_error hcommit]
    exact fun hok => by cases hok
  cases call with
  | batch => exact hflush
  | group => exact hflush
  | single =>
    obtain ⟨entry, rfl⟩ : ∃ entry, entries = [entry] := length_eq_one_iff.mp h.staged.length_eq
    obtain ⟨first, hon⟩ := exists_mem_of_ne_nil _ hsome
    obtain ⟨hentry, rfl⟩ := mem_onShard.mp hon
    obtain rfl := mem_singleton.mp hentry
    rw [finish, forEach, bind_assoc, run_bind, commitEntry, run_bind, run_lookup]
    cases hcheck : ensureContiguous first published with
    | error => exact fun hok => by cases hok
    | ok => exact absurd (index_of_ensureContiguous hcheck) (hreach first hon)

end Published

end WriteCall

/-! ## Runs of write calls -/

variable (engine : GraphEngine C G) (replicator : ShardReplicator C R)

/-- The state after a list of calls. -/
def afterCalls : List (WriteCall C) → Database C G R → Database C G R
  | [], db => db
  | call :: calls, db => afterCalls calls ((call.run engine replicator).run db).2

/-- A call that leaves no staged entry without a commit: its first operation does not
pass the checks, or all of them do and the replicator takes the entries. -/
def LeavesNoOrphan (call : WriteCall C) (db : Database C G R) : Prop :=
  call.Refused engine db ∨ call.Ready engine db ∧ call.Acknowledged engine replicator db

/-- Every call of the list that fails leaves no staged entry behind. -/
def FailuresLeaveNoOrphan : List (WriteCall C) → Database C G R → Prop
  | [], _ => True
  | call :: calls, db =>
    (((call.run engine replicator).run db).1 ≠ .ok () →
      LeavesNoOrphan engine replicator call db) ∧
    FailuresLeaveNoOrphan calls ((call.run engine replicator).run db).2

/-- All the entries of a call are in the logs of their shards, at or below the commit
indexes. -/
def AllCommitted (call : WriteCall C) (db db' : Database C G R) : Prop :=
  ∃ entries : List (LogEntry C),
    call.taken engine db = entries.map (fun entry => .ok (commandOf entry)) ∧
    ∀ entry ∈ entries, entry ∈ (db'.logs entry.shardId).written ∧
      entry.index ≤ db'.commitIndexes entry.shardId

/-- A call of the list that fails has changed nothing at all, or all of it is committed. -/
def FailuresHidden : List (WriteCall C) → Database C G R → Prop
  | [], _ => True
  | call :: calls, db =>
    (((call.run engine replicator).run db).1 ≠ .ok () →
      ((call.run engine replicator).run db).2 = db ∨
        AllCommitted engine call db ((call.run engine replicator).run db).2) ∧
    FailuresHidden calls ((call.run engine replicator).run db).2

/-- A later write to these shards that is valid and is published. -/
structure ValidWrite (shards : Set Nat) (call : WriteCall C) (db : Database C G R) : Prop where
  nonempty : call.requests ≠ []
  within : WriteCall.Within shards call.requests
  graph : call.OnGraph engine
  fits : ∀ shardId ∈ shards, db.nextLogIndexes shardId + call.requests.length ≤ u64Max
  ready : ∀ operation ∈ call.requests, WriteCall.passes engine db operation = true
  acknowledged : call.Acknowledged engine replicator db
  applies : ((call.work engine db).run db.store).1 = .ok ()

/-- The call has a command for the shard. -/
def WriteCall.WritesTo (shardId : Nat) (call : WriteCall C) : Prop :=
  ∃ command, .ok (shardId, command) ∈ call.requests

/-- A shard whose log and Raft group are in step, on a server that does not inject
failures. -/
structure InStep (shardId : Nat) (db : Database C G R) : Prop where
  sound : WriteCall.Sound shardId (db.view shardId)
  noInjection : db.config.failAfterCommitBeforeApply = false

/-- Everything in the shard's log is committed. -/
def NoOrphan (shardId : Nat) (db : Database C G R) : Prop :=
  db.nextLogIndexes shardId = db.commitIndexes shardId + 1

/-- All shards are in step. -/
def AllInStep (shards : Set Nat) (db : Database C G R) : Prop :=
  ∀ shardId ∈ shards, InStep shardId db

/-- Everything in the logs of the shards is committed. -/
def NoOrphans (shards : Set Nat) (db : Database C G R) : Prop :=
  ∀ shardId ∈ shards, NoOrphan shardId db

/-- The shards are in step, and everything in their logs is committed. -/
def Writable (shards : Set Nat) (db : Database C G R) : Prop :=
  AllInStep shards db ∧ NoOrphans shards db

variable {engine : GraphEngine C G} {replicator : ShardReplicator C R} {shards : Set Nat}

/-- What one call does to the shards. -/
structure CallSpec (engine : GraphEngine C G) (replicator : ShardReplicator C R)
    (shards : Set Nat) (call : WriteCall C) (db : Database C G R)
    (result : Except DatabaseError Unit × Database C G R) : Prop where
  inStep : AllInStep shards result.2
  next_le : ∀ shardId ∈ shards,
    result.2.nextLogIndexes shardId ≤ db.nextLogIndexes shardId + call.requests.length
  orphan : ∀ shardId ∈ shards, ¬ NoOrphan shardId db → ¬ NoOrphan shardId result.2
  noOrphan : NoOrphans shards db → (NoOrphans shards result.2 ↔
    (result.1 ≠ .ok () → LeavesNoOrphan engine replicator call db))
  hidden : NoOrphans shards db →
    LeavesNoOrphan engine replicator call db → result.1 ≠ .ok () →
      result.2 = db ∨ AllCommitted engine call db result.2

variable {db db' : Database C G R} {count shardId : Nat} {call : WriteCall C}

theorem InStep.moved {committed : Nat} (h : InStep shardId db)
    (hview : db'.view shardId = { (db.view shardId).advance count with committed })
    (hbehind : committed < db.nextLogIndexes shardId + count) : InStep shardId db' := by
  have haligned := h.sound.aligned.advance count
  refine ⟨?_, ?_⟩
  · rw [hview]
    exact ⟨⟨haligned.shard, haligned.log, haligned.raft⟩, hbehind⟩
  · have hconfig : db'.config = db.config := congrArg ShardView.config hview
    rw [hconfig]
    exact h.noInjection

/-- The case of a call that leaves staged entries behind. -/
theorem callSpec_staged {err : DatabaseError} {operations : List (Request C)}
    (hstep : AllInStep shards db) (hlost : ¬ LeavesNoOrphan engine replicator call db)
    (hne : entries ≠ []) (hroom : WriteCall.Room shards operations db)
    (hle : operations.length ≤ call.requests.length)
    (hstaged : WriteCall.StagedAll shards operations db db' entries) :
    CallSpec engine replicator shards call db (.error err, db') := by
  have hbehind : ∀ shardId ∈ shards, db.commitIndexes shardId < db.nextLogIndexes shardId :=
    fun shardId hmem => (hstep shardId hmem).sound.behind
  -- the first entry is in the log of its shard, and is not committed
  obtain ⟨first, hfirst⟩ := exists_mem_of_ne_nil _ hne
  have hshard := hstaged.mem_shards hroom.within hfirst
  have horphan : ¬ NoOrphan first.shardId db' := by
    have hbounds := hstaged.index_bounds hshard (mem_onShard.mpr ⟨hfirst, rfl⟩)
    have := hbehind _ hshard
    unfold NoOrphan
    rw [hstaged.commits]
    omega
  refine ⟨fun shardId hmem => ?_, fun shardId hmem => ?_, fun shardId hmem => ?_,
    fun _ => ⟨fun h => absurd (h _ hshard) horphan, fun h => ?_⟩, fun _ h => absurd h hlost⟩
  · exact (hstep shardId hmem).moved (hstaged.view shardId hmem)
      (Nat.lt_add_right _ (hbehind shardId hmem))
  · exact (hstaged.next_le hmem).trans (Nat.add_le_add_left hle _)
  · have hnext := hstaged.next hmem
    have := hbehind shardId hmem
    unfold NoOrphan
    dsimp only
    rw [hstaged.commits]
    omega
  · exact absurd (h fun hok => by cases hok) hlost

/-- The entries of a shard that has an orphan are out of reach. -/
theorem outOfReach_of_orphan {published : Database C G R}
    (h : WriteCall.Published engine shards call db published entries)
    (hmem : shardId ∈ shards) (horphan : ¬ NoOrphan shardId db) :
    OutOfReach shardId entries published := by
  intro entry he
  have hbehind : db.commitIndexes shardId < db.nextLogIndexes shardId :=
    (h.room.sound shardId hmem).behind
  have hbounds := h.staged.index_bounds hmem he
  have hle := h.next_le_u64Max hmem
  unfold NoOrphan at horphan
  rw [h.staged.commits, saturatingAdd_one_of_lt (by omega)]
  omega

/-- What is published and committed. -/
theorem Published.committed (replicator : ShardReplicator C R) {published : Database C G R}
    (hwritable : Writable shards db)
    (h : WriteCall.Published engine shards call db published entries) :
    ∃ db', (call.finish engine replicator entries).run published =
        (((call.work engine db).run db.store).1, db') ∧
      NoOrphans shards db' ∧ AllCommitted engine call db db' := by
  obtain ⟨hstep, hnext⟩ := hwritable
  obtain ⟨first, hfirst⟩ := exists_mem_of_ne_nil _ h.nonempty
  obtain ⟨db', hrun, hview, hlogs⟩ := h.finish_run replicator
    (hstep _ (h.mem_shards hfirst)).noInjection (h.contiguous hnext)
  have hcommit : ∀ shardId ∈ shards,
      db'.commitIndexes shardId + 1 = published.nextLogIndexes shardId := by
    intro shardId hmem
    have hcommitted : db'.commitIndexes shardId =
        published.commitIndexes shardId + (onShard shardId entries).length :=
      congrArg ShardView.committed (hview shardId)
    rw [hcommitted, h.staged.next hmem, h.staged.commits, hnext shardId hmem]
    omega
  refine ⟨db', hrun, fun shardId hmem => ?_, entries, h.staged.commands, fun entry he => ?_⟩
  · have hsame : db'.nextLogIndexes shardId = published.nextLogIndexes shardId :=
      congrArg ShardView.next (hview shardId)
    unfold NoOrphan
    rw [hsame, hcommit shardId hmem]
  · have hmem := h.mem_shards he
    have hon : entry ∈ onShard entry.shardId entries := mem_onShard.mpr ⟨he, rfl⟩
    have hlt := h.index_lt hon
    have hcommitted := hcommit _ hmem
    refine ⟨?_, by omega⟩
    rw [hlogs, h.staged.written _ hmem]
    exact mem_append_right _ hon

/-- The case of a call that goes on to commit its entries. -/
theorem callSpec_published {published : Database C G R} (hstep : AllInStep shards db)
    (hleaves : LeavesNoOrphan engine replicator call db)
    (h : WriteCall.Published engine shards call db published entries) :
    CallSpec engine replicator shards call db
      ((call.finish engine replicator entries).run published) := by
  have hsettles : ∀ shardId ∈ shards, _ := fun shardId _ =>
    h.finish_settles replicator shardId published fun _ he => h.index_lt he
  refine ⟨fun shardId hmem => ?_, fun shardId hmem => ?_, fun shardId hmem horphan => ?_,
    fun hclean => ⟨fun _ _ => hleaves, fun _ => ?_⟩, fun hclean _ _ => .inr ?_⟩
  · obtain ⟨committed, hview, hmoved, -⟩ := hsettles shardId hmem
    rw [h.staged.view shardId hmem] at hview
    refine (hstep shardId hmem).moved hview ?_
    have hbehind : db.commitIndexes shardId < db.nextLogIndexes shardId :=
      (h.room.sound shardId hmem).behind
    rw [← h.staged.next hmem]
    rcases hmoved with hsame | ⟨entry, he, rfl⟩
    · have := h.staged.next hmem
      rw [hsame, h.staged.commits]
      omega
    · exact h.index_lt he
  · obtain ⟨committed, hview, -⟩ := hsettles shardId hmem
    have hnext := congrArg ShardView.next hview
    have hlength := (call.taken_sublist engine db).length_le
    exact hnext.le.trans ((h.staged.next_le hmem).trans (Nat.add_le_add_left hlength _))
  · obtain ⟨committed, hview, -, hstays⟩ := hsettles shardId hmem
    have hnext := congrArg ShardView.next hview
    have hcommitted := congrArg ShardView.committed hview
    change _ = committed at hcommitted
    rw [hstays (outOfReach_of_orphan h hmem horphan), h.staged.commits] at hcommitted
    have hbehind : db.commitIndexes shardId < db.nextLogIndexes shardId :=
      (h.room.sound shardId hmem).behind
    have hgrown := h.staged.next hmem
    unfold NoOrphan at horphan ⊢
    change _ = published.nextLogIndexes shardId at hnext
    change Database.commitIndexes _ shardId = _ at hcommitted
    change Database.nextLogIndexes _ shardId = _ at hnext
    omega
  · obtain ⟨db', hrun, hnone, -⟩ := Published.committed replicator ⟨hstep, hclean⟩ h
    rw [hrun]
    exact hnone
  · obtain ⟨db', hrun, -, hall⟩ := Published.committed replicator ⟨hstep, hclean⟩ h
    rw [hrun]
    exact hall

theorem callSpec (replicator : ShardReplicator C R) (hstep : AllInStep shards db)
    (hroom : WriteCall.Room shards call.requests db) (hgraph : call.OnGraph engine) :
    CallSpec engine replicator shards call db ((call.run engine replicator).run db) := by
  have hends := WriteCall.run_ends hroom replicator hgraph
  generalize (call.run engine replicator).run db = result at hends ⊢
  cases hends with
  | idle => exact ⟨hstep, fun _ _ => Nat.le_add_right _ _, fun _ _ => id,
      fun h => ⟨fun _ hne => absurd rfl hne, fun _ => h⟩, fun _ _ hne => absurd rfl hne⟩
  | refused err hrefused => exact ⟨hstep, fun _ _ => Nat.le_add_right _ _, fun _ _ => id,
      fun h => ⟨fun _ _ => .inl hrefused, fun _ => h⟩, fun _ _ _ => .inl rfl⟩
  | staged hrefused hlost hne hops hle hstaged =>
    refine callSpec_staged hstep (fun h => ?_) hne hops hle hstaged
    rcases h with h | h
    · exact hrefused h
    · exact hlost h
  | published hready hack hpublished =>
    exact callSpec_published hstep (.inr ⟨hready, hack⟩) hpublished

/-- The number of commands a list of calls can stage. -/
def commandCount (calls : List (WriteCall C)) : Nat :=
  (calls.map fun call => call.requests.length).sum

/-- What a run of calls does to the shards. -/
theorem afterCalls_spec (replicator : ShardReplicator C R) {calls : List (WriteCall C)}
    (hstep : AllInStep shards db)
    (hbound : ∀ shardId ∈ shards, db.nextLogIndexes shardId + commandCount calls ≤ u64Max)
    (hwithin : ∀ call ∈ calls, WriteCall.Within shards call.requests)
    (hgraph : ∀ call ∈ calls, call.OnGraph engine) :
    AllInStep shards (afterCalls engine replicator calls db) ∧
      (∀ shardId ∈ shards, ¬ NoOrphan shardId db →
        ¬ NoOrphan shardId (afterCalls engine replicator calls db)) ∧
      (NoOrphans shards db →
        (NoOrphans shards (afterCalls engine replicator calls db) ↔
          FailuresLeaveNoOrphan engine replicator calls db) ∧
        (FailuresLeaveNoOrphan engine replicator calls db →
          FailuresHidden engine replicator calls db)) := by
  induction calls generalizing db with
  | nil => exact ⟨hstep, fun _ _ => id, fun h => ⟨⟨fun _ => trivial, fun _ => h⟩, id⟩⟩
  | cons call calls ih =>
    have hcount : commandCount (call :: calls) = call.requests.length + commandCount calls := by
      simp [commandCount]
    rw [hcount] at hbound
    have hroom : WriteCall.Room shards call.requests db :=
      ⟨fun shardId hmem => (hstep shardId hmem).sound,
        fun shardId hmem => by have := hbound shardId hmem; omega, hwithin call (.head _)⟩
    have hspec := callSpec replicator hstep hroom (hgraph call (.head _))
    obtain ⟨hstep', horphan, hclean⟩ := ih hspec.inStep
      (fun shardId hmem => by
        have hle := hspec.next_le shardId hmem
        have := hbound shardId hmem
        omega)
      (fun c hc => hwithin c (.tail _ hc)) fun c hc => hgraph c (.tail _ hc)
    refine ⟨hstep', fun shardId hmem h => horphan shardId hmem (hspec.orphan shardId hmem h),
      fun h => ?_⟩
    by_cases hafter : NoOrphans shards ((call.run engine replicator).run db).2
    · obtain ⟨hiff, hhidden⟩ := hclean hafter
      refine ⟨hiff.trans ⟨fun hrest => ⟨(hspec.noOrphan h).mp hafter, hrest⟩, And.right⟩,
        fun hleaves => ⟨fun hfailed => ?_, hhidden hleaves.2⟩⟩
      exact hspec.hidden h (hleaves.1 hfailed) hfailed
    · have hlost : ¬ FailuresLeaveNoOrphan engine replicator (call :: calls) db :=
        fun hleaves => hafter ((hspec.noOrphan h).mpr hleaves.1)
      refine ⟨⟨fun hnone => ?_, fun hleaves => absurd hleaves hlost⟩,
        fun hleaves => absurd hleaves hlost⟩
      unfold NoOrphans at hafter
      push Not at hafter
      obtain ⟨shardId, hmem, hstuck⟩ := hafter
      exact absurd (hnone shardId hmem) (horphan shardId hmem hstuck)

/-- A valid write goes on to commit its entries, which are those of its operations. -/
theorem ValidWrite.published (hstep : AllInStep shards db)
    (h : ValidWrite engine replicator shards call db) : ∃ published entries,
      WriteCall.Published engine shards call db published entries ∧
      (call.run engine replicator).run db =
        (call.finish engine replicator entries).run published ∧
      call.requests = entries.map fun entry => .ok (commandOf entry) := by
  have htaken : call.taken engine db = call.requests := by
    cases call with
    | single => rfl
    | batch => rfl
    | group => exact filter_eq_self.mpr h.ready
  have hready : call.Ready engine db := fun operation hmem => h.ready operation (htaken ▸ hmem)
  have hroom : WriteCall.Room shards call.requests db :=
    ⟨fun shardId hmem => (hstep shardId hmem).sound, h.fits, h.within⟩
  have hends := WriteCall.run_ends hroom replicator h.graph
  generalize hrun : (call.run engine replicator).run db = result at hends
  cases hends with
  | idle hnil => exact absurd (htaken.symm.trans hnil) h.nonempty
  | refused err hrefused =>
    obtain ⟨operation, hhead, hrefused⟩ := hrefused
    rw [hready operation (mem_of_mem_head? hhead)] at hrefused
    cases hrefused
  | staged _ hlost => exact absurd ⟨hready, h.acknowledged⟩ hlost
  | published _ _ hpublished =>
    exact ⟨_, _, hpublished, rfl, htaken.symm.trans hpublished.staged.commands⟩

/-- A valid write to shards in which everything is committed succeeds. -/
theorem ValidWrite.ok (hwritable : Writable shards db)
    (h : ValidWrite engine replicator shards call db) :
    ((call.run engine replicator).run db).1 = .ok () := by
  obtain ⟨published, entries, hpublished, hrun, -⟩ := h.published hwritable.1
  obtain ⟨db', hfinish, -⟩ := Published.committed replicator hwritable hpublished
  rw [hrun, hfinish]
  exact h.applies

/-- A valid write to a shard that has an orphan fails. -/
theorem ValidWrite.fails (hstep : AllInStep shards db)
    (h : ValidWrite engine replicator shards call db) (hmem : shardId ∈ shards)
    (horphan : ¬ NoOrphan shardId db) (hwrites : call.WritesTo shardId) :
    ((call.run engine replicator).run db).1 ≠ .ok () := by
  obtain ⟨published, entries, hpublished, hrun, hcommands⟩ := h.published hstep
  obtain ⟨command, hcommand⟩ := hwrites
  rw [hcommands] at hcommand
  obtain ⟨entry, he, heq⟩ := mem_map.mp hcommand
  have hown : entry.shardId = shardId := congrArg Prod.fst (Except.ok.inj heq)
  rw [hrun]
  exact hpublished.finish_stuck (outOfReach_of_orphan hpublished hmem horphan)
    (ne_nil_of_mem (mem_onShard.mpr ⟨he, hown⟩))

/-- Over any run of write calls on writable shards: as long as every call that failed left
no staged entry behind, a failed call has changed nothing or is all committed, and every valid
write that is published succeeds afterwards; and otherwise some shard takes no write
any more. -/
theorem later_write_ok_iff {calls : List (WriteCall C)} {db : Database C G R}
    (hwritable : Writable shards db)
    (hbound : ∀ shardId ∈ shards, db.nextLogIndexes shardId + commandCount calls ≤ u64Max)
    (hwithin : ∀ call ∈ calls, WriteCall.Within shards call.requests)
    (hgraph : ∀ call ∈ calls, call.OnGraph engine) :
    (FailuresLeaveNoOrphan engine replicator calls db →
      FailuresHidden engine replicator calls db ∧
      ∀ later, ValidWrite engine replicator shards later (afterCalls engine replicator calls db) →
        ((later.run engine replicator).run (afterCalls engine replicator calls db)).1 = .ok ()) ∧
    (¬ FailuresLeaveNoOrphan engine replicator calls db → ∃ shardId ∈ shards,
      ∀ later, ValidWrite engine replicator shards later (afterCalls engine replicator calls db) →
        later.WritesTo shardId → ((later.run engine replicator).run
          (afterCalls engine replicator calls db)).1 ≠ .ok ()) := by
  obtain ⟨hstep, -, hclean⟩ := afterCalls_spec replicator hwritable.1 hbound hwithin hgraph
  obtain ⟨hiff, hhidden⟩ := hclean hwritable.2
  refine ⟨fun hleaves => ⟨hhidden hleaves, fun later hvalid => ?_⟩, fun hlost => ?_⟩
  · exact hvalid.ok ⟨hstep, hiff.mpr hleaves⟩
  · rw [← hiff, NoOrphans] at hlost
    push Not at hlost
    obtain ⟨shardId, hmem, horphan⟩ := hlost
    exact ⟨shardId, hmem, fun later hvalid hwrites => hvalid.fails hstep hmem horphan hwrites⟩

/-! ### A server on scripted answers of its replicator -/

/-- A graph that is the list of its commands.  It does not store the command zero, and
cannot apply the command seven. -/
def listEngine : GraphEngine Nat (List Nat) where
  configChange _ := none
  validateStorableProperties command :=
    if command = 0 then .error (.invalidConfig "property is not storable") else .ok ()
  validateVectorIndexes _ _ := .ok ()
  validateUniqueConstraints _ _ := .ok ()
  validateReplicatedVectorIndexes _ _ _ := .ok ()
  apply _ command :=
    if command = 7 then fail (.graph (.nodeNotFound 7)) else change fun store => store ++ [command]
  applyBatch commands :=
    if 7 ∈ commands.map (·.2) then fail (.graph (.nodeNotFound 7))
    else change fun store => store ++ commands.map (·.2)
  updateVectorIndexes _ := pure ()
  refreshStatistics := pure ()

/-- A replicator that takes what it is given as its script says. -/
def scriptedReplicator : ShardReplicator Nat (List Bool) where
  publish entry := ⟨fun script => match script with
    | true :: script => (.ok (.local entry.originServerId), script)
    | _ => (.error (.replication "replication ack policy not satisfied"), script.tail)⟩
  publishBatch entries := ⟨fun script => match script with
    | true :: script =>
      (.ok (entries.map fun entry => .local entry.originServerId), script)
    | _ => (.error (.replication "replication ack policy not satisfied"), script.tail)⟩
  installRoutingTable _ := pure ()

/-- Server 1, the primary of all shards, without Raft. -/
def scriptedServer (shardCount : Nat) (script : List Bool) :
    Database Nat (List Nat) (List Bool) where
  config := ⟨1, 1024, false⟩
  shardCount := shardCount
  store := []
  logs := fun shardId => .empty Nat shardId 1024 (by decide)
  checkpoints := fun _ => none
  commits := fun _ => none
  snapshots := fun _ => none
  stateStores := fun _ => ⟨"raft_state", none, "raft_state.tmp", .missing, []⟩
  routingTable := ⟨1, (range shardCount).map fun shardId => ⟨shardId, [⟨1, .primary⟩]⟩⟩
  configEpoch := 1
  nextLogIndexes := fun _ => 1
  commitIndexes := fun _ => 0
  matchIndexes := fun _ _ => none
  clock := ⟨.zero⟩
  raftGroups := none
  replicator := script
  physicalMs := 0
  instant := 0

theorem scriptedServer_writable (shardCount : Nat) (script : List Bool) :
    Writable {shardId | shardId < shardCount} (scriptedServer shardCount script) :=
  ⟨fun _ hmem => ⟨⟨⟨hmem, rfl, nofun⟩, Nat.zero_lt_one⟩, rfl⟩, fun _ _ => rfl⟩

/-- The state of the server after some calls. -/
abbrev scriptedRun (shardCount : Nat) (script : List Bool) (calls : List (WriteCall Nat)) :
    Database Nat (List Nat) (List Bool) :=
  afterCalls listEngine scriptedReplicator calls (scriptedServer shardCount script)

/-- Of two calls that fail, one is refused at once, and the other is committed on both of its
shards before its commands cannot be applied.  A batch for both shards succeeds after them. -/
theorem later_write_ok_iff_twoShards :
    let calls : List (WriteCall Nat) := [.single 0 0, .batch [.ok (0, 1), .ok (1, 7)]]
    let after := scriptedRun 2 [true, true] calls
    (∀ call ∈ calls, ((call.run listEngine scriptedReplicator).run
      (scriptedServer 2 [true, true])).1 ≠ .ok ()) ∧
    FailuresHidden listEngine scriptedReplicator calls (scriptedServer 2 [true, true]) ∧
    (((WriteCall.batch [.ok (1, 2), .ok (0, 3)]).run listEngine scriptedReplicator).run
      after).1 = .ok () := by
  intro calls after
  have hfails : ∀ call ∈ calls, ((call.run listEngine scriptedReplicator).run
      (scriptedServer 2 [true, true])).1 ≠ .ok () := by decide
  have hleaves : FailuresLeaveNoOrphan listEngine scriptedReplicator calls
      (scriptedServer 2 [true, true]) := by
    refine ⟨fun _ => .inl ⟨.ok (0, 0), rfl, rfl⟩, fun _ => .inr ⟨by decide, fun _ _ h => ?_⟩,
      trivial⟩
    cases h
    rfl
  obtain ⟨hhidden, hlater⟩ := (later_write_ok_iff (scriptedServer_writable 2 [true, true])
    (fun _ _ => (by decide : 1 + commandCount calls ≤ u64Max)) (by decide)
    fun _ _ _ _ _ => rfl).1 hleaves
  refine ⟨hfails, hhidden, hlater _ ⟨by decide, by decide, fun _ _ _ => rfl, ?_, by decide,
    fun _ _ h => ?_, rfl⟩⟩
  · intro shardId hmem
    change shardId < 2 at hmem
    obtain rfl | rfl : shardId = 0 ∨ shardId = 1 := by omega
    all_goals decide
  · cases h
    rfl

/-- A write to the only shard that passes its checks and is published. -/
theorem validWrite_two {server : Database Nat (List Nat) (List Bool)}
    (hready : WriteCall.passes listEngine server (.ok (0, 2)) = true)
    (hfits : server.nextLogIndexes 0 + 1 ≤ u64Max)
    (hack : (WriteCall.single 0 2).Acknowledged listEngine scriptedReplicator server) :
    ValidWrite listEngine scriptedReplicator {shardId | shardId < 1} (.single 0 2) server := by
  refine ⟨by decide, by decide, fun _ _ _ => rfl, fun shardId hmem => ?_, ?_, hack, rfl⟩
  · obtain rfl : shardId = 0 := Nat.lt_one_iff.mp hmem
    exact hfits
  · intro operation hop
    obtain rfl := mem_singleton.mp hop
    exact hready

/-- A batch for both shards of a server, of which the second has an orphan. -/
abbrev twoShardBatch : WriteCall Nat := .batch [.ok (0, 2), .ok (1, 3)]

/-- The server before the batch. -/
abbrev wedged : Database Nat (List Nat) (List Bool) := scriptedRun 2 [false, true] [.single 1 1]

/-- The server after the batch. -/
abbrev halfCommitted : Database Nat (List Nat) (List Bool) :=
  scriptedRun 2 [false, true] [.single 1 1, twoShardBatch]

/-- A write that cannot be published leaves its entry behind, and the next write, which
is valid and is published, fails.  So it is after a batch whose second command is refused.
After the first, a batch for two shards is committed on the one and not on the other. -/
theorem failed_write_wedges_shard :
    ((((WriteCall.single 0 1).run listEngine scriptedReplicator).run
        (scriptedServer 1 [false, true])).1 ≠ .ok () ∧
      ValidWrite listEngine scriptedReplicator {shardId | shardId < 1} (.single 0 2)
        (scriptedRun 1 [false, true] [.single 0 1]) ∧
      (((WriteCall.single 0 2).run listEngine scriptedReplicator).run
        (scriptedRun 1 [false, true] [.single 0 1])).1 =
        .error (.replication
          "cannot commit non-contiguous shard 0 entry 2 while commit index is 0")) ∧
    ((((WriteCall.batch [.ok (0, 1), .ok (0, 0)]).run listEngine scriptedReplicator).run
        (scriptedServer 1 [true])).1 ≠ .ok () ∧
      ValidWrite listEngine scriptedReplicator {shardId | shardId < 1} (.single 0 2)
        (scriptedRun 1 [true] [.batch [.ok (0, 1), .ok (0, 0)]]) ∧
      (((WriteCall.single 0 2).run listEngine scriptedReplicator).run
        (scriptedRun 1 [true] [.batch [.ok (0, 1), .ok (0, 0)]])).1 =
        .error (.replication
          "cannot commit non-contiguous shard 0 entry 2 while commit index is 0")) ∧
    ((twoShardBatch.run listEngine scriptedReplicator).run wedged).1 = .error (.replication
        "cannot commit non-contiguous shard 1 entry 2 while commit index is 0") ∧
      (halfCommitted.logs 0).written.map (fun entry => (entry.index, entry.command)) = [(1, 2)] ∧
      halfCommitted.commitIndexes 0 = 1 ∧ halfCommitted.store = [] ∧
      ¬ AllCommitted listEngine twoShardBatch wedged halfCommitted := by
  refine ⟨⟨by decide, validWrite_two rfl (by decide) fun _ _ h => ?_, rfl⟩,
    ⟨by decide, validWrite_two rfl (by decide) fun _ _ h => ?_, rfl⟩, rfl, rfl, rfl, rfl, ?_⟩
  · cases h
    rfl
  · cases h
    rfl
  · rintro ⟨entries, hcommands, hall⟩
    have hsecond : Except.ok (1, 3) ∈ twoShardBatch.taken listEngine wedged := by decide
    rw [hcommands] at hsecond
    obtain ⟨entry, he, heq⟩ := mem_map.mp hsecond
    have hshard : entry.shardId = 1 := congrArg Prod.fst (Except.ok.inj heq)
    obtain ⟨hwritten, hle⟩ := hall entry he
    rw [hshard] at hwritten hle
    have hpos : ∀ entry ∈ (halfCommitted.logs 1).written, 0 < entry.index := by decide
    exact absurd hle (Nat.not_le.mpr (hpos entry hwritten))

end Neo4r.Db
