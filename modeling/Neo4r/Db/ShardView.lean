/-
  `Db.ShardView`: what the fate of a write to a shard depends on, and what each step of
  a write does to it.

  A view has the settings, the routing table, the next log index, the commit index and
  a summary of the Raft group of one shard.  Staging a command advances the next index,
  publishing leaves the view alone, committing moves the commit index, and applying
  leaves it alone again.  The proofs about writes use only these facts.
-/
import Neo4r.Db.OperationRules

set_option autoImplicit false

namespace Neo4r.Db

open Foundation Raft Storage Function Fallible RaftCore

variable {C G R : Type}

/-- What a write reads of a Raft group. -/
structure GroupView where
  shardId : Nat
  role : RaftRole
  term : Nat
  nextIndex : Nat

/-- The summary of a group. -/
def groupView (group : RaftCore C) : GroupView :=
  ⟨group.shardId, group.role, group.currentTerm, saturatingAdd group.lastLogIndex 1⟩

/-- What a write to a shard reads of the database, apart from the graph store. -/
structure ShardView where
  config : DatabaseConfig
  shardCount : Nat
  table : ShardRoutingTable
  epoch : Nat
  logShard : Nat
  next : Nat
  committed : Nat
  raft : Option (Option GroupView)

namespace ShardView

/-- The shard exists, and its log and its Raft group continue at the next index. -/
structure Aligned (v : ShardView) (shardId : Nat) : Prop where
  shard : shardId < v.shardCount
  log : v.logShard = shardId
  raft : ∀ group, v.raft = some (some group) → group.shardId = shardId ∧ group.nextIndex = v.next

/-- The server may write to the shard: it is the primary of the routing table, or with
Raft the leader of the shard's group with everything committed in its log. -/
def Leads (v : ShardView) (shardId : Nat) : Prop :=
  match v.raft with
  | none => v.table.primaryServerId shardId = some v.config.serverId
  | some none => False
  | some (some group) =>
    v.table.hasLocalCopy shardId v.config.serverId = true ∧
      v.committed ≤ v.next - 1 ∧ group.role = .leader

/-- The view after `count` more commands have been staged. -/
def advance (v : ShardView) (count : Nat) : ShardView :=
  { v with
    next := v.next + count
    raft := v.raft.map fun group => group.map fun group =>
      { group with nextIndex := v.next + count } }

variable {v : ShardView} {shardId : Nat}

theorem Aligned.advance (h : v.Aligned shardId) (count : Nat) :
    (v.advance count).Aligned shardId := by
  refine ⟨h.shard, h.log, fun group hgroup => ?_⟩
  obtain ⟨old, hold, hnew⟩ := Option.map_eq_some_iff.mp hgroup
  obtain ⟨group', hgroup', rfl⟩ := Option.map_eq_some_iff.mp hnew
  exact ⟨(h.raft group' (hold.trans (congrArg some hgroup'))).1, rfl⟩

theorem Aligned.advance_zero (h : v.Aligned shardId) : v.advance 0 = v := by
  have hraft : v.raft.map (fun group => group.map fun group : GroupView =>
      { group with nextIndex := v.next + 0 }) = v.raft := by
    cases hv : v.raft with
    | none => rfl
    | some group =>
      cases group with
      | none => rfl
      | some group => simp [← (h.raft group hv).2]
  unfold ShardView.advance
  rw [hraft, Nat.add_zero]

theorem leads_advance_iff (h : v.committed < v.next) (count : Nat) :
    (v.advance count).Leads shardId ↔ v.Leads shardId := by
  have hbehind : v.committed ≤ v.next + count - 1 := by omega
  have hbehind' : v.committed ≤ v.next - 1 := by omega
  unfold Leads ShardView.advance
  rcases v.raft with _ | _ | group <;> simp [hbehind, hbehind']

theorem advance_advance (v : ShardView) (m n : Nat) :
    (v.advance m).advance n = v.advance (m + n) := by
  unfold ShardView.advance
  simp [Nat.add_assoc, comp_def]

end ShardView

namespace Database

/-- The view of a shard. -/
def view (db : Database C G R) (shardId : Nat) : ShardView where
  config := db.config
  shardCount := db.shardCount
  table := db.routingTable
  epoch := db.configEpoch
  logShard := (db.logs shardId).shardId
  next := db.nextLogIndexes shardId
  committed := db.commitIndexes shardId
  raft := db.raftGroups.map fun consensus => (consensus.groups[shardId]?).map groupView

variable {α : Type} {shardId bound : Nat} {db : Database C G R} {consensus : RaftShardConsensus C}
  {command : C} {entry : LogEntry C} {entries : List (LogEntry C)}

theorem ofShard_of_lt {vector : Database C G R → Nat → α} (h : shardId < db.shardCount) :
    ofShard vector shardId db = .ok (vector db shardId) := if_pos h

/-- Syncing the logs of shards that exist succeeds. -/
theorem forEach_log_run (h : ∀ entry ∈ entries, entry.shardId < db.shardCount) :
    (forEach (fun entry => do
      let _ ← lookup (log entry.shardId)
      pure ()) entries : Op C G R Unit).run db = (.ok (), db) := by
  induction entries with
  | nil => rfl
  | cons entry entries ih =>
    have hlog : log entry.shardId db = .ok (db.logs entry.shardId) :=
      ofShard_of_lt (h entry (.head _))
    unfold forEach
    rw [bind_assoc, run_bind, run_lookup, hlog]
    exact ih fun e he => h e (.tail _ he)

variable {group : RaftCore C} {engine : GraphEngine C G}

theorem view_raft (hraft : db.raftGroups = some consensus)
    (hgroup : consensus.groups[shardId]? = some group) :
    (db.view shardId).raft = some (some (groupView group)) := by
  simp [view, hraft, hgroup]

/-! ## Staging -/

/-- What the engine has against a command. -/
def Validated (engine : GraphEngine C G) (store : G) (command : C) : Prop :=
  engine.validateStorableProperties command = .ok () ∧
    engine.validateVectorIndexes store command = .ok () ∧
    engine.validateUniqueConstraints store command = .ok ()

theorem ensureWriteEpoch_ok_iff (db : Database C G R) (shardId : Nat) :
    ensureWriteEpoch db = .ok () ↔ (db.view shardId).epoch = (db.view shardId).table.version := by
  unfold ensureWriteEpoch
  split
  · rename_i hstale
    exact ⟨nofun, fun h => absurd h hstale⟩
  · rename_i hfresh
    exact ⟨fun _ => not_not.mp hfresh, fun _ => rfl⟩

section

variable (hshard : shardId < db.shardCount)

include hshard

theorem ensureRaftLeader_ok_iff :
    ensureRaftLeader consensus shardId db = .ok () ↔
      db.routingTable.hasLocalCopy shardId db.config.serverId = true ∧
        db.commitIndexes shardId ≤ db.nextLogIndexes shardId - 1 ∧
        ∃ group, consensus.groups[shardId]? = some group ∧ group.role = .leader := by
  unfold ensureRaftLeader appliedIndex nextLogIndex commitIndex RaftShardConsensus.group
  rw [ofShard_of_lt hshard, ofShard_of_lt hshard]
  simp only [Except.map, bind, Except.bind]
  split
  · rename_i hcopy
    simp [hcopy]
  · rename_i hcopy
    split
    · rename_i hreplaying
      refine ⟨nofun, fun h => absurd hreplaying (Nat.not_lt.mpr h.2.1)⟩
    · rename_i happlied
      cases consensus.groups[shardId]? with
      | none => simp
      | some group =>
        have hcopy' := Bool.eq_true_of_not_eq_false hcopy
        have happlied' := Nat.not_lt.mp happlied
        by_cases hrole : group.role = .leader <;> simp [hrole, hcopy', happlied']

theorem ensureLocalPrimary_ok_iff :
    ensureLocalPrimary shardId db = .ok () ↔ (db.view shardId).Leads shardId := by
  unfold ensureLocalPrimary ShardView.Leads view
  cases hraft : db.raftGroups with
  | none => simp
  | some consensus =>
    dsimp only [Option.map_some]
    rw [ensureRaftLeader_ok_iff hshard]
    cases consensus.groups[shardId]? with
    | none => simp
    | some => simp [groupView]

/-- A command passes its checks if the server may write to the shard, on the routing
table its writes are fenced with, and the engine has nothing against the command. -/
theorem checkLocalCommand_ok_iff :
    checkLocalCommand engine shardId command db = .ok () ↔
      (db.view shardId).epoch = (db.view shardId).table.version ∧
        (db.view shardId).Leads shardId ∧ Validated engine db.store command := by
  unfold checkLocalCommand Validated
  rw [← ensureWriteEpoch_ok_iff, ← ensureLocalPrimary_ok_iff hshard]
  simp only [exceptBind_ok_iff]
  exact ⟨fun ⟨_, h₁, _, h₂, _, h₃, _, h₄, h₅⟩ => ⟨h₁, h₂, h₃, h₄, h₅⟩,
    fun ⟨h₁, h₂, h₃, h₄, h₅⟩ => ⟨_, h₁, _, h₂, _, h₃, _, h₄, h₅⟩⟩

end

/-- What staging a command does: its entry is at the end of the log and of the Raft
log, and the graph store and the replicator have not been touched. -/
structure Staged (shardId : Nat) (command : C) (db db' : Database C G R)
    (entry : LogEntry C) : Prop where
  shard : entry.shardId = shardId
  index : entry.index = db.nextLogIndexes shardId
  command_eq : entry.command = command
  store : db'.store = db.store
  replicator : db'.replicator = db.replicator
  commits : db'.commitIndexes = db.commitIndexes
  written : (db'.logs shardId).written = (db.logs shardId).written ++ [entry]
  view : db'.view shardId = (db.view shardId).advance 1
  elsewhere : ∀ other ≠ shardId, db'.view other = db.view other ∧ db'.logs other = db.logs other

theorem pushLocalEntry_view (group : RaftCore C) (hidx : entry.index < u64Max) :
    groupView (group.pushLocalEntry entry) =
      { groupView group with nextIndex := entry.index + 1 } := by
  obtain ⟨commitIndex, heq⟩ := exists_advanceLeaderCommitIndex_eq
    ((group.pushEntry entry).setMatchIndex group.serverId entry.index)
  have hpush : group.pushLocalEntry entry = _ := heq
  rw [hpush]
  simp [groupView, currentTerm, lastLogIndex, setMatchIndex,
    pushEntry, saturatingAdd_one_of_lt hidx]

/-- An entry of the shard goes to the end of its log. -/
theorem appendToLog_run (db : Database C G R) (entry : LogEntry C)
    (hshard : shardId < db.shardCount) (hlog : entry.shardId = (db.logs shardId).shardId) :
    ∃ log, (appendToLog shardId entry).run db =
        (.ok (), { db with logs := update db.logs shardId log }) ∧
      log.written = (db.logs shardId).written ++ [entry] ∧
      log.shardId = (db.logs shardId).shardId := by
  unfold appendToLog Database.log
  rw [run_bind, run_lookup, ofShard_of_lt hshard]
  dsimp only [Except.bind]
  rw [SegmentedShardLog.appendWithSync, dif_pos hlog]
  exact ⟨_, rfl, rfl, rfl⟩

/-- The leader of an aligned group takes the entry. -/
theorem appendExistingLocalEntry_run (hrole : group.role = .leader)
    (hshard : entry.shardId = group.shardId)
    (hidx : entry.index = saturatingAdd group.lastLogIndex 1)
    (hterm : entry.term = group.currentTerm) :
    group.appendExistingLocalEntry entry = (.ok entry, group.pushLocalEntry entry) := by
  unfold appendExistingLocalEntry
  rw [if_neg (not_not.mpr hrole), if_neg (not_not.mpr hshard)]
  rw [if_neg (not_not.mpr hidx)]
  exact if_neg (not_not.mpr hterm)

/-- The group takes the entry of the server as its next one. -/
structure Takes (group : RaftCore C) (entry : LogEntry C) : Prop where
  role : group.role = .leader
  shard : entry.shardId = group.shardId
  index : entry.index = saturatingAdd group.lastLogIndex 1
  term : entry.term = group.currentTerm

/-- A server that leads a shard has a term to stage the next entry with, and a group
that takes it. -/
theorem exists_term_of_leads (hleads : (db.view shardId).Leads shardId)
    (halign : (db.view shardId).Aligned shardId) :
    ∃ term, localRaftTermForAppend shardId db = .ok term ∧
      ∀ consensus, db.raftGroups = some consensus → ∃ group,
        consensus.groups[shardId]? = some group ∧ group.role = .leader ∧
          group.shardId = shardId ∧ group.currentTerm = term ∧
          saturatingAdd group.lastLogIndex 1 = db.nextLogIndexes shardId := by
  unfold localRaftTermForAppend
  cases hraft : db.raftGroups with
  | none => exact ⟨0, rfl, nofun⟩
  | some consensus =>
    cases hgroup : consensus.groups[shardId]? with
    | none => simp [ShardView.Leads, view, hraft, hgroup] at hleads
    | some group =>
      have hview := view_raft hraft hgroup
      have hrole : group.role = .leader := by
        unfold ShardView.Leads at hleads
        rw [hview] at hleads
        exact hleads.2.2
      obtain ⟨hshard, hnext⟩ := halign.raft _ hview
      refine ⟨group.currentTerm, ?_, ?_⟩
      · simp [RaftShardConsensus.group, hgroup, hrole, bind, Except.bind]
      · rintro _ ⟨rfl⟩
        exact ⟨group, hgroup, hrole, hshard, rfl, hnext⟩

/-- The leader's group takes the next entry of the server. -/
theorem appendEntryToLocalRaft_run (db : Database C G R) (entry : LogEntry C)
    (hbound : entry.index < u64Max)
    (htakes : ∀ consensus, db.raftGroups = some consensus → ∃ group,
      consensus.groups[entry.shardId]? = some group ∧ Takes group entry) :
    ∃ groups, (appendEntryToLocalRaft entry).run db =
        (.ok (), { db with raftGroups := groups }) ∧
      groups.map (fun consensus => (consensus.groups[entry.shardId]?).map groupView) =
        (db.view entry.shardId).raft.map (fun group => group.map fun group =>
          { group with nextIndex := entry.index + 1 }) ∧
      ∀ other ≠ entry.shardId,
        groups.map (fun consensus => (consensus.groups[other]?).map groupView) =
          (db.view other).raft := by
  unfold appendEntryToLocalRaft
  rw [run_bind, run_current]
  cases hraft : db.raftGroups with
  | none =>
    refine ⟨none, ?_, ?_, ?_⟩
    · simp only [hraft, run_pure, Prod.mk.injEq, true_and]
      rw [← hraft]
    · simp [view, hraft]
    · simp [view, hraft]
  | some consensus =>
    obtain ⟨group, hgroup, htakes⟩ := htakes consensus hraft
    have hcall := appendExistingLocalEntry_run htakes.role htakes.shard htakes.index htakes.term
    refine ⟨some (consensus.setGroup entry.shardId (group.pushLocalEntry entry)), ?_, ?_, ?_⟩
    · simp only [hraft, onGroup, RaftShardConsensus.group, hgroup, run_bind,
        run_lookup, hcall, run_pure]
    · have hset : (consensus.setGroup entry.shardId (group.pushLocalEntry entry)).groups[
          entry.shardId]? = some (group.pushLocalEntry entry) := by
        obtain ⟨hlt, -⟩ := List.getElem?_eq_some_iff.mp hgroup
        simp [RaftShardConsensus.setGroup, hlt]
      rw [view_raft hraft hgroup]
      simp only [Option.map_some, hset, pushLocalEntry_view group hbound]
    · intro other hother
      simp [view, hraft, RaftShardConsensus.setGroup, hother.symm]

/-- An admitted command is staged. -/
theorem appendLocalCommand_accepted (halign : (db.view shardId).Aligned shardId)
    (hbound : db.nextLogIndexes shardId < u64Max)
    (h : checkLocalCommand engine shardId command db = .ok ()) :
    ∃ entry db', (appendLocalCommand engine shardId command).run db = (.ok entry, db') ∧
      Staged shardId command db db' entry := by
  have hshard : shardId < db.shardCount := halign.shard
  obtain ⟨-, hleads, -⟩ := (checkLocalCommand_ok_iff hshard).mp h
  obtain ⟨term, hterm, hgroups⟩ := exists_term_of_leads hleads halign
  let ticked := { db with clock := db.clock.tick db.physicalMs }
  let entry := LogEntry.newWithMetadata shardId term (db.nextLogIndexes shardId)
    db.config.serverId db.routingTable.version (db.clock.tick db.physicalMs).last command
  have hstart : (appendLocalCommand engine shardId command).run db =
      (do
        appendToLog shardId entry
        appendEntryToLocalRaft entry
        observeLogPosition entry
        pure entry).run ticked := by
    unfold appendLocalCommand
    rw [run_bind, run_lookup, h]
    dsimp only
    rw [run_bind, run_lookup, nextLogIndex, ofShard_of_lt hshard]
    dsimp only
    rw [run_bind, run_lookup, hterm]
    rfl
  obtain ⟨log, hlog, hwritten, hlogShard⟩ := appendToLog_run ticked entry hshard
    (show entry.shardId = (db.logs shardId).shardId from halign.log.symm)
  obtain ⟨groups, hraft, hview, hothers⟩ := appendEntryToLocalRaft_run
    { ticked with logs := update db.logs shardId log } entry hbound (by
      intro consensus hcons
      obtain ⟨group, hgroup, hrole, hown, hcur, hlast⟩ := hgroups consensus hcons
      exact ⟨group, hgroup, hrole, hown.symm, hlast.symm, hcur.symm⟩)
  rw [hstart, run_bind_of_ok hlog, run_bind_of_ok hraft]
  refine ⟨entry, _, rfl, rfl, rfl, rfl, rfl, rfl, rfl, ?_, ?_, ?_⟩
  · simp only [update_self]
    exact hwritten
  · have hnext : max (db.nextLogIndexes shardId) (saturatingAdd (db.nextLogIndexes shardId) 1) =
        db.nextLogIndexes shardId + 1 := by
      rw [saturatingAdd_one_of_lt hbound]
      omega
    have hraftView : groups.map (fun consensus => (consensus.groups[shardId]?).map groupView) =
        ((db.view shardId).advance 1).raft := hview
    unfold view
    dsimp only [entry, LogEntry.newWithMetadata, ticked]
    rw [update_self, update_self, hnext, hraftView, hlogShard]
    rfl
  · intro other hother
    have hraftView : groups.map (fun consensus => (consensus.groups[other]?).map groupView) =
        (db.view other).raft := by
      rw [hothers other hother]
      rfl
    refine ⟨?_, update_of_ne hother _ _⟩
    unfold view
    dsimp only [entry, LogEntry.newWithMetadata, ticked]
    rw [update_of_ne hother, update_of_ne hother, hraftView]
    rfl

/-! ## Publishing -/

/-- The view of the shard, the graph store and the logs are as before. -/
def KeepsShard (shardId : Nat) (db db' : Database C G R) : Prop :=
  db'.view shardId = db.view shardId ∧ db'.store = db.store ∧ db'.logs = db.logs

instance : IsPreorder (Database C G R) (KeepsShard shardId) where
  refl _ := ⟨rfl, rfl, rfl⟩
  trans _ _ _ h h' := ⟨h'.1.trans h.1, h'.2.1.trans h.2.1, h'.2.2.trans h.2.2⟩

theorem recordMatches_view (now : Nat) (acks : List (Nat × Nat)) (group : RaftCore C) :
    groupView (recordMatches now acks group).2 = groupView group := by
  refine recordMatches_same (fun group server index now => ?_) now acks group
  obtain ⟨_, _, _, heq⟩ := group.exists_recordReplicationMatch_eq server index now
  rw [heq]
  rfl

/-- A group that keeps its summary keeps the shard. -/
theorem setGroup_keeps {owner : Nat} {group' : RaftCore C} (shardId : Nat)
    (hraft : db.raftGroups = some consensus) (hgroup : consensus.groups[owner]? = some group)
    (hsame : groupView group' = groupView group) :
    KeepsShard shardId db { db with raftGroups := some (consensus.setGroup owner group') } := by
  refine ⟨?_, rfl, rfl⟩
  rw [view, view, hraft, Option.map_some, Option.map_some,
    RaftShardConsensus.map_groups_setGroup groupView hgroup hsame]

theorem observeRaftReplicationOutcome_keeps (shardId : Nat) (entry : LogEntry C)
    (outcome : ReplicationOutcome) :
    Respects (KeepsShard shardId) (observeRaftReplicationOutcome entry outcome : Op C G R Unit) :=
  observeRaftReplicationOutcome_respects fun hraft hgroup =>
    setGroup_keeps shardId hraft hgroup (recordMatches_view _ _ _)

/-! ## Committing -/

/-- The entries of one shard. -/
def onShard (shardId : Nat) (entries : List (LogEntry C)) : List (LogEntry C) :=
  entries.filter fun entry => entry.shardId = shardId

theorem mem_onShard :
    entry ∈ onShard shardId entries ↔ entry ∈ entries ∧ entry.shardId = shardId := by
  simp [onShard]

/-- The entries of every shard follow its commit index. -/
structure Contiguous (db : Database C G R) (entries : List (LogEntry C)) : Prop where
  shard : ∀ entry ∈ entries, entry.shardId < db.shardCount
  indexes : ∀ shardId, (onShard shardId entries).map (·.index) =
    List.range' (db.commitIndexes shardId + 1) (onShard shardId entries).length
  bound : ∀ entry ∈ entries, entry.index ≤ u64Max

/-- The commit index of every shard has passed its entries, and nothing else that the
views, the graph store and the logs show has changed. -/
def CommitsAll (entries : List (LogEntry C)) (db db' : Database C G R) : Prop :=
  (∀ shardId, db'.view shardId = { db.view shardId with
    committed := db.commitIndexes shardId + (onShard shardId entries).length }) ∧
  db'.store = db.store ∧ db'.logs = db.logs

/-- The first entry is the one after its shard's commit index, and once it is committed
the others follow. -/
theorem Contiguous.cons (h : Contiguous db (entry :: entries)) :
    ensureContiguous entry db = .ok () ∧ entry.index = db.commitIndexes entry.shardId + 1 ∧
      Contiguous { db with
        commitIndexes := update db.commitIndexes entry.shardId entry.index } entries := by
  have hown := h.indexes entry.shardId
  rw [onShard, List.filter_cons_of_pos (by simp), List.map_cons, List.length_cons,
    List.range'_succ, List.cons.injEq] at hown
  obtain ⟨hidx, hrest⟩ := hown
  have hbound := h.bound entry (.head _)
  refine ⟨?_, hidx, fun e he => h.shard e (.tail _ he), fun shardId => ?_,
    fun e he => h.bound e (.tail _ he)⟩
  · unfold ensureContiguous commitIndex
    rw [ofShard_of_lt (h.shard entry (.head _))]
    refine if_neg (not_not.mpr ?_)
    rw [saturatingAdd_one_of_lt (by omega), hidx]
  · dsimp only
    by_cases hshard : shardId = entry.shardId
    · subst hshard
      rw [update_self, hidx]
      exact hrest
    · have hothers := h.indexes shardId
      rw [onShard, List.filter_cons_of_neg (by simpa using fun heq => hshard heq.symm)] at hothers
      rw [update_of_ne hshard]
      exact hothers

/-- Committing an entry and then others. -/
theorem CommitsAll.cons {db' : Database C G R}
    (hidx : entry.index = db.commitIndexes entry.shardId + 1)
    (h : CommitsAll entries { db with
      commitIndexes := update db.commitIndexes entry.shardId entry.index } db') :
    CommitsAll (entry :: entries) db db' := by
  obtain ⟨hview, hstore, hlogs⟩ := h
  refine ⟨fun shardId => ?_, hstore, hlogs⟩
  rw [hview shardId]
  by_cases hshard : entry.shardId = shardId
  · subst hshard
    have hcount : (onShard entry.shardId (entry :: entries)).length =
        (onShard entry.shardId entries).length + 1 := by
      rw [onShard, List.filter_cons_of_pos (by simp), List.length_cons]
      rfl
    dsimp only
    rw [update_self, hcount, hidx, Nat.add_right_comm, Nat.add_assoc]
    rfl
  · have hcount : onShard shardId (entry :: entries) = onShard shardId entries :=
      List.filter_cons_of_neg (by simpa using hshard)
    dsimp only
    rw [update_of_ne (Ne.symm hshard), hcount]
    rfl

/-- The loop of `commit_entries` over entries that follow the commit indexes. -/
theorem commitLoop_run (h : Contiguous db entries) :
    ∃ db', (forEach (fun entry => do
        lookup (ensureContiguous entry)
        setCommitIndex entry) entries).run db = (.ok (), db') ∧ CommitsAll entries db db' := by
  induction entries generalizing db with
  | nil => exact ⟨db, rfl, fun _ => rfl, rfl, rfl⟩
  | cons entry entries ih =>
    obtain ⟨hcheck, hidx, hrest⟩ := h.cons
    obtain ⟨db', hrun, hcommits⟩ := ih hrest
    refine ⟨db', ?_, hcommits.cons hidx⟩
    unfold forEach
    rw [bind_assoc, run_bind, run_lookup, hcheck]
    exact hrun

theorem commitEntry_run (h : Contiguous db [entry]) :
    ∃ db', (commitEntry entry).run db = (.ok (), db') ∧ CommitsAll [entry] db db' := by
  obtain ⟨hcheck, hidx, -⟩ := h.cons
  unfold commitEntry
  rw [run_bind, run_lookup, hcheck]
  exact ⟨_, rfl, CommitsAll.cons hidx ⟨fun _ => rfl, rfl, rfl⟩⟩

theorem forEach_saveCommit_run (entries : List (LogEntry C)) (db : Database C G R) :
    ((forEach saveCommit entries).run db).1 = .ok () := by
  induction entries generalizing db with
  | nil => rfl
  | cons entry entries ih => exact ih _

/-- Entries that follow the commit indexes are committed. -/
theorem commitEntries_run (h : Contiguous db entries) :
    ∃ db', (commitEntries entries).run db = (.ok (), db') ∧ CommitsAll entries db db' := by
  obtain ⟨raised, hrun, hview, hstore, hlogs⟩ := commitLoop_run h
  have hkeeps : ∀ shardId, KeepsShard shardId raised
      ((forEach saveCommit (lastByShard entries)).run raised).2 := fun shardId =>
    Respects.forEach (fun _ _ _ => ⟨rfl, rfl, rfl⟩) raised
  refine ⟨((forEach saveCommit (lastByShard entries)).run raised).2, ?_,
    fun shardId => (hkeeps shardId).1.trans (hview shardId), (hkeeps 0).2.1.trans hstore,
    (hkeeps 0).2.2.trans hlogs⟩
  unfold commitEntries
  rw [run_bind_of_ok hrun]
  exact Prod.ext (forEach_saveCommit_run _ raised) rfl

/-- None of the entries is the one after the shard's commit index. -/
def OutOfReach (shardId : Nat) (entries : List (LogEntry C)) (db : Database C G R) : Prop :=
  ∀ entry ∈ onShard shardId entries, entry.index ≠ saturatingAdd (db.commitIndexes shardId) 1

/-- What committing and applying the entries does to the view of a shard, whether it
succeeds or not: the commit index may be that of one of its entries, unless all of them are
out of reach. -/
def Settles (shardId : Nat) (entries : List (LogEntry C)) (db db' : Database C G R) : Prop :=
  (∀ entry ∈ onShard shardId entries, entry.index < db.nextLogIndexes shardId) →
    ∃ committed, db'.view shardId = { db.view shardId with committed } ∧
      (committed = db.commitIndexes shardId ∨
        ∃ entry ∈ onShard shardId entries, committed = entry.index) ∧
      (OutOfReach shardId entries db → committed = db.commitIndexes shardId)

theorem settles_of_view {db' : Database C G R} (h : db'.view shardId = db.view shardId) :
    Settles shardId entries db db' :=
  fun _ => ⟨db.commitIndexes shardId, h, .inl rfl, fun _ => rfl⟩

instance : IsPreorder (Database C G R) (Settles shardId entries) where
  refl _ := settles_of_view rfl
  trans db db' db'' h h' hbelow := by
    obtain ⟨committed, hview, hmoved, hstays⟩ := h hbelow
    have hnext : db'.nextLogIndexes shardId = db.nextLogIndexes shardId :=
      congrArg ShardView.next hview
    have hcomm : db'.commitIndexes shardId = committed := congrArg ShardView.committed hview
    obtain ⟨committed', hview', hmoved', hstays'⟩ := h' (hnext ▸ hbelow)
    refine ⟨committed', ?_, ?_, fun hreach => ?_⟩
    · rw [hview', hview]
    · rcases hmoved' with hsame | hentry
      · rwa [hsame, hcomm]
      · exact .inr hentry
    · have hsame := hstays hreach
      rw [hstays' ?_, hcomm, hsame]
      unfold OutOfReach
      rwa [hcomm, hsame]

theorem index_of_ensureContiguous (h : ensureContiguous entry db = .ok ()) :
    entry.index = saturatingAdd (db.commitIndexes entry.shardId) 1 := by
  obtain ⟨committed, hcommitted, hrest⟩ := of_exceptBind_ok h
  obtain ⟨-, rfl⟩ := of_ofShard_ok hcommitted
  by_contra hne
  rw [if_pos hne] at hrest
  cases hrest

/-- Raising the commit index to an entry that follows it. -/
theorem settles_setCommitIndex (hmem : entry ∈ entries) (h : ensureContiguous entry db = .ok ()) :
    Settles shardId entries db { db with
      commitIndexes := update db.commitIndexes entry.shardId entry.index } := by
  intro _
  by_cases hown : entry.shardId = shardId
  · subst hown
    have hon : entry ∈ onShard entry.shardId entries := mem_onShard.mpr ⟨hmem, rfl⟩
    refine ⟨entry.index, ?_, .inr ⟨entry, hon, rfl⟩,
      fun hreach => absurd (index_of_ensureContiguous h) (hreach entry hon)⟩
    unfold view
    simp only [update_self]
  · refine settles_of_view ?_ ‹_›
    unfold view
    simp only [update_of_ne (Ne.symm hown)]

theorem commitEntry_settles (hmem : entry ∈ entries) :
    Respects (Settles shardId entries) (commitEntry entry : Op C G R Unit) :=
  Respects.lookup_bind fun _ _ hcheck => settles_setCommitIndex hmem hcheck

theorem commitEntries_settles :
    Respects (Settles shardId entries) (commitEntries entries : Op C G R Unit) :=
  (Respects.forEach fun _ hmem => Respects.lookup_bind fun _ _ hcheck =>
    settles_setCommitIndex hmem hcheck).bind fun _ =>
      Respects.forEach fun _ _ _ => settles_of_view rfl

/-- The loop of `commit_entries` ends at an entry out of reach, if it comes that far. -/
theorem commitLoop_stuck (hreach : OutOfReach shardId entries db)
    (hsome : onShard shardId entries ≠ []) :
    ∃ err, ((forEach (fun entry => do
        lookup (ensureContiguous entry)
        setCommitIndex entry) entries).run db).1 = .error err := by
  induction entries generalizing db with
  | nil => exact absurd rfl hsome
  | cons entry entries ih =>
    unfold forEach
    rw [bind_assoc, run_bind, run_lookup]
    cases hcheck : ensureContiguous entry db with
    | error err => exact ⟨err, rfl⟩
    | ok =>
      have hown : entry.shardId ≠ shardId := by
        rintro rfl
        exact hreach entry (mem_onShard.mpr ⟨.head _, rfl⟩) (index_of_ensureContiguous hcheck)
      have hskip : onShard shardId (entry :: entries) = onShard shardId entries :=
        List.filter_cons_of_neg (by simpa using hown)
      refine ih (fun e he => ?_) (hskip ▸ hsome)
      change e.index ≠ saturatingAdd (update db.commitIndexes entry.shardId entry.index shardId) 1
      rw [update_of_ne (Ne.symm hown)]
      exact hreach e (hskip ▸ he)

/-! ## Applying -/

/-- The view and the logs are as before if the next index has reached `bound`. -/
def KeepsBelow (shardId bound : Nat) (db db' : Database C G R) : Prop :=
  bound ≤ db.nextLogIndexes shardId → db'.view shardId = db.view shardId ∧ db'.logs = db.logs

instance : IsPreorder (Database C G R) (KeepsBelow shardId bound) where
  refl _ _ := ⟨rfl, rfl⟩
  trans _ _ _ h h' hbound := by
    obtain ⟨hview, hlogs⟩ := h hbound
    obtain ⟨hview', hlogs'⟩ := h' (hbound.trans_eq (congrArg ShardView.next hview).symm)
    exact ⟨hview'.trans hview, hlogs'.trans hlogs⟩

/-- What keeps the view as long as the entries are below the next index settles. -/
theorem settles_of_keepsBelow {x : Op C G R α}
    (h : ∀ bound, (∀ entry ∈ onShard shardId entries, entry.index < bound) →
      Respects (KeepsBelow shardId bound) x) : Respects (Settles shardId entries) x :=
  fun db hbelow => settles_of_view (h _ hbelow db le_rfl).1 hbelow

theorem onStore_shows (x : Fallible DatabaseError G α) :
    Shows store (onStore x : Op C G R α) x := fun _ => ⟨rfl, rfl⟩

theorem observeEntry_keeps (hidx : entry.shardId = shardId → entry.index < bound) :
    Respects (KeepsBelow shardId bound) (observeEntry entry : Op C G R Unit) := by
  intro db hbound
  have hnext : update db.nextLogIndexes entry.shardId
      (max (db.nextLogIndexes entry.shardId) (saturatingAdd entry.index 1)) shardId =
        db.nextLogIndexes shardId := by
    by_cases hown : entry.shardId = shardId
    · subst hown
      have hle := saturatingAdd_one_le entry.index
      have hlt := hidx rfl
      rw [update_self]
      omega
    · exact update_of_ne (Ne.symm hown) _ _
  refine ⟨?_, rfl⟩
  change view { db with
    nextLogIndexes := _, clock := db.clock.observe db.physicalMs entry.timestamp } _ = _
  unfold view
  dsimp only
  rw [hnext]

theorem forEach_saveCheckpoint_run (entries : List (LogEntry C)) (db : Database C G R) :
    ((forEach saveCheckpoint entries).run db).1 = .ok () ∧
      ((forEach saveCheckpoint entries).run db).2.store = db.store := by
  induction entries generalizing db with
  | nil => exact ⟨rfl, rfl⟩
  | cons entry entries ih => exact ih _

variable {engine : GraphEngine C G} {repl : ShardReplicator C R}

/-- A command on the graph changes nothing of the cluster's configuration. -/
theorem applyClusterConfigChange_graph (h : engine.configChange command = none)
    (db : Database C G R) :
    (applyClusterConfigChange engine repl command).run db = (.ok (), db) := by
  unfold applyClusterConfigChange
  rw [run_bind, h]
  rfl

/-- What applying one command does to the graph store. -/
def applyWork (engine : GraphEngine C G) (shardId : Nat) (command : C) :
    Fallible DatabaseError G Unit := do
  engine.apply shardId command
  engine.updateVectorIndexes command
  engine.refreshStatistics

/-- What applying a batch of commands does to the graph store. -/
def applyBatchWork (engine : GraphEngine C G) (commands : List (Nat × C)) :
    Fallible DatabaseError G Unit := do
  engine.applyBatch commands
  forEach (fun command => engine.updateVectorIndexes command.2) commands
  engine.refreshStatistics

theorem applyClusterConfigChange_keepsBelow (hgraph : engine.configChange command = none) :
    Respects (KeepsBelow shardId bound)
      (applyClusterConfigChange engine repl command : Op C G R Unit) := by
  intro db
  rw [applyClusterConfigChange_graph hgraph]
  exact refl db

theorem applyEntry_keeps (hgraph : engine.configChange entry.command = none)
    (hidx : entry.shardId = shardId → entry.index < bound) :
    Respects (KeepsBelow shardId bound) (applyEntry engine repl entry : Op C G R Unit) :=
  applyEntry_respects (fun _ _ _ => ⟨rfl, rfl⟩) (applyClusterConfigChange_keepsBelow hgraph)
    (observeEntry_keeps hidx) fun _ _ => ⟨rfl, rfl⟩

theorem applyClusterConfigChange_shows (hgraph : engine.configChange command = none) :
    Shows store (applyClusterConfigChange engine repl command) (pure ()) :=
  shows_pure fun db => by
    rw [applyClusterConfigChange_graph hgraph]
    exact ⟨rfl, rfl⟩

/-- What follows the change of the configuration is the work on the graph store. -/
theorem applyWork_shows (entry : LogEntry C) : Shows store (do
      onStore (engine.apply entry.shardId entry.command)
      onStore (engine.updateVectorIndexes entry.command)
      observeEntry entry
      onStore engine.refreshStatistics
      let db ← current
      if db.shouldCheckpoint entry.index then saveCheckpoint entry else pure () : Op C G R Unit)
    (applyWork engine entry.shardId entry.command) := by
  refine (onStore_shows _).bind fun _ => (onStore_shows _).bind fun _ => ?_
  refine (shows_pure fun _ => ⟨rfl, rfl⟩).after_quiet ((onStore_shows _).then_quiet ?_)
  refine shows_pure fun db => ?_
  rw [run_bind, run_current]
  dsimp only
  split <;> exact ⟨rfl, rfl⟩

/-- Applying an entry succeeds if the work on the graph store does. -/
theorem applyEntry_shows (hgraph : engine.configChange entry.command = none) :
    Shows store (applyEntry engine repl entry : Op C G R Unit)
      (applyWork engine entry.shardId entry.command) :=
  (applyClusterConfigChange_shows hgraph).after_quiet (applyWork_shows entry)

theorem applyEntriesBatch_keeps
    (hgraph : ∀ entry ∈ entries, engine.configChange entry.command = none)
    (hidx : ∀ entry ∈ onShard shardId entries, entry.index < bound) :
    Respects (KeepsBelow shardId bound)
      (applyEntriesBatch engine repl entries : Op C G R Unit) :=
  applyEntriesBatch_respects (fun _ _ _ => ⟨rfl, rfl⟩)
    (fun entry he => applyClusterConfigChange_keepsBelow (hgraph entry he))
    (fun entry he => observeEntry_keeps fun hown => hidx entry (mem_onShard.mpr ⟨he, hown⟩))
    fun _ _ _ => ⟨rfl, rfl⟩

/-- What follows the changes of the configuration is the work on the graph store. -/
theorem applyBatchWork_shows (entries : List (LogEntry C)) : Shows store (do
      onStore (engine.applyBatch (entries.map fun entry => (entry.shardId, entry.command)))
      forEach (fun entry => do
        onStore (engine.updateVectorIndexes entry.command)
        observeEntry entry) entries
      onStore engine.refreshStatistics
      let db ← current
      forEach saveCheckpoint
        (lastByShard (entries.filter fun entry => db.shouldCheckpoint entry.index)) : Op C G R Unit)
    (applyBatchWork engine (entries.map fun entry => (entry.shardId, entry.command))) := by
  rw [applyBatchWork, forEach_map]
  refine (onStore_shows _).bind fun _ => ?_
  refine (Shows.forEach fun entry _ =>
    (onStore_shows _).then_quiet (shows_pure fun _ => ⟨rfl, rfl⟩)).bind fun _ => ?_
  refine (onStore_shows _).then_quiet (shows_pure fun db => ?_)
  exact forEach_saveCheckpoint_run _ db

/-- Applying a batch succeeds if the work on the graph store does. -/
theorem applyEntriesBatch_shows (hne : entries ≠ [])
    (hgraph : ∀ entry ∈ entries, engine.configChange entry.command = none) :
    Shows store (applyEntriesBatch engine repl entries : Op C G R Unit)
      (applyBatchWork engine (entries.map fun entry => (entry.shardId, entry.command))) := by
  unfold applyEntriesBatch
  rw [if_neg (by simpa using hne)]
  exact (shows_forEach_pure fun entry he =>
    applyClusterConfigChange_shows (hgraph entry he)).after_quiet (applyBatchWork_shows entries)

end Database

end Neo4r.Db
