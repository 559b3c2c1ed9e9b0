/-
  `Db.FollowerSpec`: what taking entries from another server does to the logs and the
  commit indexes.

  Each step of the two ways in has one lemma: truncating cuts the log at the first entry
  that differs, appending adds the entries that are new after the rest has been compared,
  and committing goes as far as the entries of the log follow each other.
-/
import Neo4r.Db.Follower
import Neo4r.Db.OperationRules

set_option autoImplicit false

namespace Neo4r.Db

open Foundation Raft Storage Function List SegmentedShardLog Fallible

variable {C G R : Type}

/-- Two entries are the same: they are equal, or the program takes them for equal. -/
def SameEntry [BEq C] (a b : LogEntry C) : Prop := a = b ∨ a.partialEq b = true

namespace Database

variable {shardId : Nat} {db db' : Database C G R} {entry : LogEntry C}
  {entries : List (LogEntry C)} {engine : GraphEngine C G}

/-! ## Truncating -/

/-- Where the log has an entry for an index of the list, it is the same. -/
def NoConflict [BEq C] (entries : List (LogEntry C)) (log : SegmentedShardLog C) : Prop :=
  ∀ entry ∈ entries, ∀ existing, log.entry entry.index = some existing →
    existing.partialEq entry = true

/-- The state after the log of a shard has been cut at an index. -/
def truncated (db : Database C G R) (shardId index : Nat) : Database C G R :=
  { db with
    logs := update db.logs shardId ((db.logs shardId).truncateFrom index)
    nextLogIndexes := update db.nextLogIndexes shardId index }

theorem noConflict_cons [BEq C] {log : SegmentedShardLog C}
    (h : ∀ old, log.entry entry.index = some old → old.partialEq entry = true)
    (hrest : NoConflict entries log) : NoConflict (entry :: entries) log := by
  intro e he
  rcases mem_cons.mp he with rfl | he
  · exact h
  · exact hrest e he

/-- Truncating does nothing if no entry differs, and else cuts the log at the first entry
that does, which is not committed. -/
theorem truncateReplicatedLogForAppend_ok [BEq C]
    (hown : ∀ entry ∈ entries, entry.shardId = shardId)
    (h : (truncateReplicatedLogForAppend shardId entries).run db = (.ok (), db')) :
    (NoConflict entries (db.logs shardId) ∧ db' = db) ∨
      ∃ before entry after old, entries = before ++ entry :: after ∧
        NoConflict before (db.logs shardId) ∧
        (db.logs shardId).entry entry.index = some old ∧
        old.partialEq entry = false ∧ db' = db.truncated shardId entry.index := by
  induction entries with
  | nil =>
    cases h
    exact .inl ⟨nofun, rfl⟩
  | cons entry entries ih =>
    have hrest := ih fun e he => hown e (.tail _ he)
    unfold truncateReplicatedLogForAppend at h
    rw [if_neg (not_not.mpr (hown entry mem_cons_self))] at h
    obtain ⟨log, hlog, h⟩ := of_lookup_bind_ok h
    obtain ⟨-, rfl⟩ := of_ofShard_ok hlog
    have hskip : (truncateReplicatedLogForAppend shardId entries).run db = (.ok (), db') →
        (∀ old, (db.logs shardId).entry entry.index = some old →
          old.partialEq entry = true) →
        (NoConflict (entry :: entries) (db.logs shardId) ∧ db' = db) ∨
          ∃ before entry' after old, entry :: entries = before ++ entry' :: after ∧
            NoConflict before (db.logs shardId) ∧
            (db.logs shardId).entry entry'.index = some old ∧
            old.partialEq entry' = false ∧ db' = db.truncated shardId entry'.index := by
      intro hrun hsame
      rcases hrest hrun with ⟨hno, heq⟩ | ⟨before, entry', after, old, hsplit, hno, hcut⟩
      · exact .inl ⟨noConflict_cons hsame hno, heq⟩
      · refine .inr ⟨entry :: before, entry', after, old, ?_, noConflict_cons hsame hno, hcut⟩
        rw [hsplit, cons_append]
    cases hentry : (db.logs shardId).entry entry.index with
    | none =>
      rw [hentry] at h
      exact hskip h fun old hexist => nomatch hentry.symm.trans hexist
    | some old =>
      rw [hentry] at h
      dsimp only at h
      split at h
      · rename_i hsame
        refine hskip h fun existing' hexist => ?_
        obtain rfl : old = existing' := Option.some.inj (hentry.symm.trans hexist)
        exact hsame
      · rename_i hdiffers
        obtain ⟨committed, -, h⟩ := of_lookup_bind_ok h
        split at h
        · cases h
        · cases h
          exact .inr ⟨[], entry, entries, old, rfl, nofun, hentry,
            Bool.eq_false_of_not_eq_true hdiffers, rfl⟩

/-! ## Appending -/

/-- Every entry is accepted, or the log has the same one already. -/
theorem acceptEntries_ok [BEq C] {accepted accepted' : List (LogEntry C)}
    {nextIndexes : Nat → Option Nat}
    (h : acceptEntries engine db entries nextIndexes accepted = .ok accepted') :
    ∃ taken, accepted' = accepted ++ taken ∧ taken.Sublist entries ∧
      ∀ entry ∈ entries, entry ∈ taken ∨ ∃ old,
        (db.logs entry.shardId).entry entry.index = some old ∧
          old.partialEq entry = true := by
  induction entries generalizing nextIndexes accepted with
  | nil =>
    cases h
    exact ⟨[], (append_nil _).symm, Sublist.refl _, forall_mem_nil _⟩
  | cons entry entries ih =>
    obtain ⟨_, -, h⟩ := of_exceptBind_ok h
    obtain ⟨_, -, h⟩ := of_exceptBind_ok h
    obtain ⟨expected, -, h⟩ := of_exceptBind_ok h
    split at h
    · obtain ⟨_, hdup, h⟩ := of_exceptBind_ok h
      obtain ⟨taken, htaken, hsub, hall⟩ := ih h
      refine ⟨taken, htaken, hsub.cons entry, forall_mem_cons.mpr ⟨.inr ?_, hall⟩⟩
      obtain ⟨log, hlog, hdup⟩ := of_exceptBind_ok hdup
      obtain ⟨-, rfl⟩ := of_ofShard_ok hlog
      split at hdup
      · cases hdup
      · rename_i old hexist
        split at hdup
        · rename_i hsame
          exact ⟨old, hexist, hsame⟩
        · cases hdup
    · split at h
      · cases h
      · obtain ⟨_, -, h⟩ := of_exceptBind_ok h
        obtain ⟨_, -, h⟩ := of_exceptBind_ok h
        obtain ⟨taken, htaken, hsub, hall⟩ := ih h
        refine ⟨entry :: taken, ?_, hsub.cons_cons entry, ?_⟩
        · rw [htaken, append_assoc, singleton_append]
        · refine forall_mem_cons.mpr ⟨.inl (.head _), fun e he => ?_⟩
          exact (hall e he).imp_left (mem_cons_of_mem entry)

/-- What appending a list of entries does to the logs. -/
structure AppendsAll (entries : List (LogEntry C)) (db db' : Database C G R) : Prop where
  entry : ∀ shardId index, (db'.logs shardId).entry index =
    ((db.logs shardId).entry index).or
      (entries.find? fun e => e.shardId = shardId ∧ e.index = index)
  shardId : ∀ shardId, (db'.logs shardId).shardId = (db.logs shardId).shardId
  commitIndexes : db'.commitIndexes = db.commitIndexes
  shardCount : db'.shardCount = db.shardCount

theorem appendLoop_ok {entries : List (LogEntry C)} {db db' : Database C G R}
    (h : (forEach (fun entry => do
      appendToLog entry.shardId entry
      observeLogPosition entry) entries).run db = (.ok (), db')) :
    AppendsAll entries db db' := by
  induction entries generalizing db with
  | nil =>
    cases h
    exact ⟨fun _ _ => by simp, fun _ => rfl, rfl, rfl⟩
  | cons entry entries ih =>
    obtain ⟨_, t, hentry, hrest⟩ := of_bind_ok h
    obtain ⟨_, t', happend, hobserve⟩ := of_bind_ok hentry
    obtain ⟨log, hlog, rfl⟩ := appendToLog_ok happend
    cases hobserve
    have hall := ih hrest
    refine ⟨fun shardId index => ?_, fun shardId => ?_, hall.commitIndexes, hall.shardCount⟩
    · rw [hall.entry]
      dsimp only
      by_cases hshard : shardId = entry.shardId
      · subst hshard
        rw [update_self, entry_appendWithSync hlog, Option.or_assoc]
        congr 1
        by_cases hidx : entry.index = index
        · rw [if_pos hidx, find?_cons_of_pos (by simpa using hidx), Option.some_or]
        · rw [if_neg hidx, find?_cons_of_neg (by simpa using hidx), Option.none_or]
      · rw [update_of_ne hshard, find?_cons_of_neg (by
          simpa using fun h => absurd h.symm hshard)]
    · rw [hall.shardId]
      dsimp only
      by_cases hshard : shardId = entry.shardId
      · subst hshard
        rw [update_self, shardId_appendWithSync hlog]
      · rw [update_of_ne hshard]

/-- Looking logs up changes nothing. -/
theorem syncLoop_run (entries : List (LogEntry C)) (db : Database C G R) :
    ((forEach (fun entry => do
      let _ ← lookup (log entry.shardId)
      pure ()) entries).run db).2 = db := by
  refine (Preserves.forEach fun entry _ s => ?_ : Preserves id _) db
  rw [run_bind, run_lookup]
  cases log entry.shardId s <;> rfl

theorem appendReplicatedEntries_ok [BEq C]
    (h : (appendReplicatedEntries engine entries).run db = (.ok (), db')) :
    ∃ taken, taken.Sublist entries ∧ AppendsAll taken db db' ∧
      ∀ entry ∈ entries, entry ∈ taken ∨ ∃ old,
        (db.logs entry.shardId).entry entry.index = some old ∧
          old.partialEq entry = true := by
  unfold appendReplicatedEntries at h
  split at h
  · rename_i hempty
    cases h
    obtain rfl := isEmpty_iff.mp hempty
    exact ⟨[], Sublist.refl _, ⟨fun _ _ => by simp, fun _ => rfl, rfl, rfl⟩, forall_mem_nil _⟩
  · obtain ⟨accepted, haccept, happend⟩ := of_lookup_bind_ok h
    obtain ⟨taken, htaken, hsub, hall⟩ := acceptEntries_ok haccept
    obtain rfl : accepted = taken := htaken
    obtain ⟨_, t', hloop, hsync⟩ := of_bind_ok happend
    obtain rfl : db' = t' := by
      rw [← syncLoop_run accepted t', hsync]
    exact ⟨accepted, hsub, appendLoop_ok hloop, hall⟩

/-! ## The groups -/

section Groups

variable {r : Database C G R → Database C G R → Prop} [IsPreorder (Database C G R) r]
  (h : IgnoresCluster r)

include h

theorem IgnoresCluster.observeGroup (shardId : Nat) (entries : List (LogEntry C))
    (leaderCommit : Nat) : Respects r
      (observeGroup shardId entries leaderCommit) := by
  intro db
  rw [Database.observeGroup, run_bind, run_current]
  dsimp only
  cases hraft : db.raftGroups with
  | none => exact refl db
  | some =>
    rw [run_bind, run_lookup]
    cases prevLogTermFor shardId _ _ db with
    | error => exact refl db
    | ok => exact onGroup_respects fun _ _ => h db _ _ _ _ _ _ (by rw [hraft]; rfl)

theorem IgnoresCluster.recordLeaderContact (shardId : Nat) :
    Respects r (recordLeaderContact shardId) := by
  intro db
  rw [Database.recordLeaderContact, run_bind, run_current]
  dsimp only
  cases hraft : db.raftGroups with
  | none => exact refl db
  | some => exact h db _ _ _ _ _ _ (by rw [hraft]; rfl)

theorem IgnoresCluster.observeGroups (leaderCommit : Nat)
    (entriesByShard : List (Nat × List (LogEntry C))) (last : AppendEntriesResponse) :
    Respects r (observeGroups leaderCommit entriesByShard last) := by
  induction entriesByShard generalizing last with
  | nil => exact Respects.pure last
  | cons first rest ih =>
    refine (h.observeGroup _ _ _).bind fun resp => ?_
    split
    · exact (h.recordLeaderContact _).bind fun _ => ih resp
    · exact Respects.pure resp

theorem IgnoresCluster.observeRaftAppendEntries (shardId : Nat) (entries : List (LogEntry C))
    (leaderCommit : Nat) :
    Respects r (observeRaftAppendEntries shardId entries leaderCommit) := by
  refine Respects.current.bind fun db => ?_
  split
  · exact Respects.pure _
  · exact h.observeGroups _ _ _

end Groups

/-! ## Committing -/

/-- The logs and the commit indexes are as before. -/
def KeepsProgress (db db' : Database C G R) : Prop :=
  db'.logs = db.logs ∧ db'.commitIndexes = db.commitIndexes

instance : IsPreorder (Database C G R) KeepsProgress where
  refl _ := ⟨rfl, rfl⟩
  trans _ _ _ h h' := ⟨h'.1.trans h.1, h'.2.trans h.2⟩

theorem ignoresCluster_keepsProgress : IgnoresCluster (KeepsProgress (C := C) (G := G) (R := R)) :=
  fun _ _ _ _ _ _ _ _ => ⟨rfl, rfl⟩

theorem applyEntriesBatch_keepsProgress (engine : GraphEngine C G)
    (repl : ShardReplicator C R) (entries : List (LogEntry C)) :
    Respects KeepsProgress (applyEntriesBatch engine repl entries) :=
  applyEntriesBatch_respects (fun _ _ => ⟨rfl, rfl⟩)
    (fun _ _ => ignoresCluster_keepsProgress.applyClusterConfigChange _)
    (fun _ _ _ => ⟨rfl, rfl⟩) fun _ _ => ⟨rfl, rfl⟩

/-- The loop of `commit_entries` moves the commit index of a shard to its last entry. -/
theorem commitLoop_ok {entries : List (LogEntry C)} {shardId : Nat} {db db' : Database C G R}
    (hown : ∀ entry ∈ entries, entry.shardId = shardId)
    (h : (forEach (fun entry => do
      lookup (ensureContiguous entry)
      setCommitIndex entry) entries).run db = (.ok (), db')) :
    db'.logs = db.logs ∧ db'.commitIndexes shardId =
      (entries.getLast?.map (·.index)).getD (db.commitIndexes shardId) := by
  induction entries generalizing db with
  | nil =>
    cases h
    exact ⟨rfl, rfl⟩
  | cons entry entries ih =>
    obtain ⟨_, t, hentry, hrest⟩ := of_bind_ok h
    obtain ⟨_, -, hset⟩ := of_lookup_bind_ok hentry
    cases hset
    obtain ⟨hlogs, hcomm⟩ := ih (fun e he => hown e (.tail _ he)) hrest
    refine ⟨hlogs, ?_⟩
    rw [hcomm, getLast?_cons]
    obtain rfl := hown entry (.head _)
    cases entries.getLast? <;> simp

theorem commitEntries_ok (hown : ∀ entry ∈ entries, entry.shardId = shardId)
    (h : (commitEntries entries).run db = (.ok (), db')) :
    db'.logs = db.logs ∧ db'.commitIndexes shardId =
      (entries.getLast?.map (·.index)).getD (db.commitIndexes shardId) := by
  obtain ⟨_, raised, hraised, hsaved⟩ := of_bind_ok h
  obtain ⟨hlogs, hidx⟩ := commitLoop_ok hown hraised
  have hkeeps := Respects.forEach (R := KeepsProgress) (f := saveCommit)
    (fun _ (_ : _ ∈ lastByShard entries) _ => ⟨rfl, rfl⟩) raised
  rw [hsaved] at hkeeps
  exact ⟨hkeeps.1.trans hlogs, (congrFun hkeeps.2 shardId).trans hidx⟩

/-- The entries that can be committed follow each other in the log from the index on, as
far as the log goes. -/
theorem entriesFrom_spec (log : SegmentedShardLog C) (next count : Nat) :
    (entriesFrom log next count).length ≤ count ∧
      (∀ i < (entriesFrom log next count).length,
        log.entry (next + i) = (entriesFrom log next count)[i]?) ∧
      ((entriesFrom log next count).length < count →
        log.entry (next + (entriesFrom log next count).length) = none) := by
  induction count generalizing next with
  | zero => exact ⟨Nat.le_refl 0, nofun, nofun⟩
  | succ count ih =>
    unfold entriesFrom
    cases hentry : log.entry next with
    | none => exact ⟨Nat.zero_le _, nofun, fun _ => hentry⟩
    | some =>
      obtain ⟨hle, hat, hend⟩ := ih (next + 1)
      rw [length_cons]
      refine ⟨by omega, fun i hi => ?_, fun hlt => ?_⟩
      · cases i with
        | zero => simpa using hentry
        | succ i =>
          rw [getElem?_cons_succ, ← hat i (by omega)]
          congr 1
          omega
      · rw [← hend (by omega)]
        congr 1
        omega

variable {i leaderCommit : Nat}

theorem index_of_mem_entriesFrom {log : SegmentedShardLog C} {next count : Nat}
    (h : (entriesFrom log next count)[i]? = some entry) :
    log.entry (next + i) = some entry ∧ entry.index = next + i := by
  have hlt := (List.getElem?_eq_some_iff.mp h).1
  have hentry := ((entriesFrom_spec log next count).2.1 i hlt).trans h
  exact ⟨hentry, index_of_entry hentry⟩

/-- The entries that can be committed are in the order in which they are. -/
theorem insertionSort_entriesFrom (log : SegmentedShardLog C) (next count : Nat) :
    (entriesFrom log next count).insertionSort beforeInBatch = entriesFrom log next count := by
  refine Pairwise.insertionSort_eq (pairwise_iff_getElem.mpr ?_)
  intro i j hi hj hij
  have hleft := (index_of_mem_entriesFrom (getElem?_eq_getElem hi)).2
  have hright := (index_of_mem_entriesFrom (getElem?_eq_getElem hj)).2
  exact .inl (by omega)

/-- The index that committing up to a bound reaches. -/
def reach (log : SegmentedShardLog C) (committed bound : Nat) : Nat :=
  committed + (entriesFrom log (committed + 1) (bound - committed)).length

theorem le_reach_iff {log : SegmentedShardLog C} {committed bound : Nat} (h : committed < i) :
    i ≤ reach log committed bound ↔
      i ≤ bound ∧ ∀ j, committed < j → j ≤ i → (log.entry j).isSome := by
  obtain ⟨hle, hat, hend⟩ := entriesFrom_spec log (committed + 1) (bound - committed)
  unfold reach
  constructor
  · intro hi
    refine ⟨by omega, fun j hj hji => ?_⟩
    have hlt : j - committed - 1 <
      (entriesFrom log (committed + 1) (bound - committed)).length := by
      omega
    have hentry := hat _ hlt
    rw [getElem?_eq_getElem hlt] at hentry
    have hj' : committed + 1 + (j - committed - 1) = j := by omega
    rw [hj'] at hentry
    rw [hentry]
    rfl
  · rintro ⟨hbound, hchain⟩
    by_contra hi
    have hnone := hend (by omega)
    have hsome := hchain (committed + 1 +
      (entriesFrom log (committed + 1) (bound - committed)).length) (by omega) (by omega)
    rw [hnone] at hsome
    cases hsome

/-- `committable_entries_through` for one shard, below the end of the indexes. -/
theorem committableEntries_ok (hbound : leaderCommit < u64Max)
    (h : committableEntries shardId leaderCommit db = .ok entries) :
    entries = entriesFrom (db.logs shardId) (db.commitIndexes shardId + 1)
      (leaderCommit - db.commitIndexes shardId) := by
  unfold committableEntries at h
  split at h
  · rename_i hzero
    cases h
    rw [hzero, Nat.zero_sub]
    rfl
  · obtain ⟨committed, hcomm, h⟩ := of_exceptBind_ok h
    obtain ⟨-, rfl⟩ := of_ofShard_ok hcomm
    have hnext : saturatingAdd (db.commitIndexes shardId) 1 ≤ leaderCommit ↔
        db.commitIndexes shardId + 1 ≤ leaderCommit := by
      unfold saturatingAdd
      omega
    dsimp only at h
    split at h
    · rename_i hle
      obtain ⟨log, hlog, h⟩ := of_exceptBind_ok h
      obtain ⟨-, rfl⟩ := of_ofShard_ok hlog
      have hstart : saturatingAdd (db.commitIndexes shardId) 1 =
          db.commitIndexes shardId + 1 := saturatingAdd_one_of_lt (by omega)
      cases h
      congr 1
      omega
    · rename_i hgt
      have hzero : leaderCommit - db.commitIndexes shardId = 0 := by omega
      cases h
      rw [hzero]
      rfl

/-- Committing one shard reaches as far as the entries of its log follow each other. -/
theorem commitAndApplyShardsThrough_ok {repl : ShardReplicator C R}
    (hlog : (db.logs shardId).shardId = shardId) (hbound : leaderCommit < u64Max)
    (h : (commitAndApplyShardsThrough engine repl [(shardId, leaderCommit)]).run db =
      (.ok (), db')) :
    db'.logs = db.logs ∧
      db'.commitIndexes shardId =
        reach (db.logs shardId) (db.commitIndexes shardId) leaderCommit := by
  obtain ⟨entries, hentries, hcommit⟩ := of_lookup_bind_ok h
  obtain ⟨found, hfound, hentries⟩ := of_exceptBind_ok hentries
  obtain ⟨_, ⟨rfl⟩, ⟨rfl⟩⟩ := of_exceptBind_ok hentries
  have hlist := committableEntries_ok hbound hfound
  have hsorted : (found ++ []).insertionSort beforeInBatch = found := by
    rw [append_nil, hlist, insertionSort_entriesFrom]
  rw [hsorted] at hcommit
  unfold reach
  rw [← hlist]
  dsimp only at hcommit
  split at hcommit
  · rename_i hempty
    cases hcommit
    rw [isEmpty_iff.mp hempty]
    exact ⟨rfl, rfl⟩
  · rename_i hempty
    obtain ⟨_, committed, hcomm, happly⟩ := of_bind_ok hcommit
    have hat : ∀ i entry, found[i]? = some entry →
        (db.logs shardId).entry (db.commitIndexes shardId + 1 + i) = some entry ∧
          entry.index = db.commitIndexes shardId + 1 + i := by
      intro i entry hi
      rw [hlist] at hi
      exact index_of_mem_entriesFrom hi
    have hown : ∀ entry ∈ found, entry.shardId = shardId := by
      intro entry hentry
      obtain ⟨i, hi⟩ := mem_iff_getElem?.mp hentry
      rw [shardId_of_entry (hat i entry hi).1, hlog]
    obtain ⟨hlogs, hidx⟩ := commitEntries_ok hown hcomm
    have hkeeps := applyEntriesBatch_keepsProgress engine repl found committed
    rw [happly] at hkeeps
    refine ⟨hkeeps.1.trans hlogs, ?_⟩
    rw [hkeeps.2, hidx]
    -- the last entry is that many places after the commit index
    have hpos : 0 < found.length := by
      rw [length_pos_iff]
      simpa using hempty
    have hlast : found.getLast? = some found[found.length - 1] := by
      rw [getLast?_eq_getElem?, getElem?_eq_getElem]
    rw [hlast, Option.map_some, Option.getD_some, (hat _ _ (getElem?_eq_getElem _)).2]
    omega

end Database

end Neo4r.Db
