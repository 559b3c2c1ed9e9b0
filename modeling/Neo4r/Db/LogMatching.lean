/-
  `Db.LogMatching`: when an append from a leader leaves the server with the leader's log.

  The request on the wire carries no term of the entry before the run, so the server
  checks its own log against itself there.  What it gets is in its log afterwards, and
  what it has below the run or beyond it stays as it is, right or wrong.  The main result
  says exactly what has to be right before.
-/
import Neo4r.Db.FollowerSpec
import Neo4r.Db.WriteFailure
import Neo4r.Raft.AppendSpec

set_option autoImplicit false

namespace Neo4r.Raft.RaftCore

variable {C : Type}

/-! ## The match index of a group -/

variable {r r' : RaftCore C} {req : AppendEntriesRequest C} {resp : AppendEntriesResponse}

theorem le_lastLogIndex_sortLog {entry : LogEntry C} (h : entry ∈ r.log) :
    entry.index ≤ r.sortLog.lastLogIndex := by
  obtain ⟨last, hlast, hle⟩ := Foundation.exists_getLast?_insertionSort LogEntry.index h
  have hidx : r.sortLog.lastLogIndex = last.index := by
    unfold lastLogIndex sortLog
    rw [hlast]
    rfl
  rw [hidx]
  exact hle

variable {entries : List (LogEntry C)}

/-- A run that the snapshot covers is skipped. -/
theorem appendLoop_covered (hcovered : ∀ entry ∈ entries, entry.index ≤ r.snapshotIndex)
    (h : r.appendLoop entries = (.ok none, r')) : r' = r := by
  induction entries with
  | nil =>
    cases h
    rfl
  | cons entry entries ih =>
    unfold appendLoop at h
    split at h
    · cases h
    · rw [if_pos (hcovered entry (.head _))] at h
      exact ih (fun e he => hcovered e (.tail _ he)) h

/-- The last entry of a run is in the log afterwards, if the snapshot does not cover it. -/
theorem appendLoop_last {last : LogEntry C} (hlast : entries.getLast? = some last)
    (hsnap : r.snapshotIndex < last.index) (h : r.appendLoop entries = (.ok none, r')) :
    ∃ entry ∈ r'.log, entry.index = last.index := by
  induction entries generalizing r with
  | nil => cases hlast
  | cons entry entries ih =>
    -- what is left of the run either has the last entry or is empty
    have hrest : ∀ s : RaftCore C, s.snapshot = r.snapshot →
        (entry = last → ∃ x ∈ s.log, x.index = last.index) →
        s.appendLoop entries = (.ok none, r') → ∃ x ∈ r'.log, x.index = last.index := by
      intro s hs hheld hloop
      cases entries with
      | nil =>
        cases hloop
        exact hheld (Option.some.inj hlast)
      | cons =>
        refine ih hlast ?_ hloop
        unfold snapshotIndex at hsnap ⊢
        rwa [hs]
    unfold appendLoop at h
    split at h
    · cases h
    · split at h
      · rename_i hcovered
        refine hrest r rfl ?_ h
        rintro rfl
        omega
      · split at h
        · rename_i old hexist
          have hmem := List.mem_of_find?_eq_some hexist
          have hidx : old.index = entry.index := by
            simpa using List.find?_some hexist
          split at h
          · exact hrest r rfl (fun heq => ⟨old, hmem, heq ▸ hidx⟩) h
          · split at h
            · cases h
            · refine hrest ((r.truncateFrom entry.index).pushEntry entry) rfl
                (fun heq => ⟨entry, ?_, by rw [heq]⟩) h
              exact List.mem_append_right _ (.head _)
        · refine hrest (r.pushEntry entry) rfl (fun heq => ⟨entry, ?_, by rw [heq]⟩) h
          exact List.mem_append_right _ (.head _)

theorem appendAndCommit_success (h : r.appendAndCommit req = (.ok resp, r'))
    (hsucc : resp.success = true) : ∃ s, r.appendLoop req.entries = (.ok none, s) ∧
      resp.matchIndex = s.sortLog.lastLogIndex := by
  unfold appendAndCommit at h
  split at h
  · cases h
  · rename_i refusal s hloop
    cases h
    have hrefused := appendLoop_refusal (congrArg Prod.fst hloop)
    rw [hsucc] at hrefused
    cases hrefused
  · rename_i s hloop
    refine ⟨s, hloop, ?_⟩
    cases h
    split <;> rfl

theorem checkPrevious_success (h : r.checkPrevious req = (.ok resp, r'))
    (hsucc : resp.success = true) : r.appendAndCommit req = (.ok resp, r') := by
  unfold checkPrevious at h
  split at h
  · split at h
    · split at h
      · exact h
      · cases h
        cases hsucc
    · split at h
      · split at h
        · cases h
          cases hsucc
        · cases h
          cases hsucc
      · exact h
  · exact h

/-- A run goes through the loop, and the match index is the last index of the log after it. -/
def Answers (r : RaftCore C) (entries : List (LogEntry C)) (matchIndex : Nat) : Prop :=
  ∃ s s' : RaftCore C, SameLog r s ∧ s.appendLoop entries = (.ok none, s') ∧
    matchIndex = s'.sortLog.lastLogIndex

theorem appendEntries_success (h : r.appendEntries req = (.ok resp, r'))
    (hsucc : resp.success = true) : r.Answers req.entries resp.matchIndex := by
  unfold appendEntries at h
  split at h
  · cases h
    cases hsucc
  · obtain ⟨-, hsame, -⟩ := r.followLeader_spec req.term req.leaderId
    split at h
    · cases h
    · rename_i s hfollow
      rw [hfollow] at hsame
      obtain ⟨s', hloop, hmatch⟩ := appendAndCommit_success (checkPrevious_success h hsucc) hsucc
      exact ⟨s, s', hsame, hloop, hmatch⟩

end Neo4r.Raft.RaftCore

namespace Neo4r.Db

open Foundation Raft Storage Database List RaftCore
open Fallible (Respects of_bind_ok of_lookup_bind_ok)

variable {C G R : Type}

namespace Database

/-! ## Observing the entries -/

variable {leaderCommit : Nat} {response : AppendEntriesResponse}

/-- The match index with which a run of entries is answered: the one of the group, or the
leader's commit index without Raft. -/
def AnswersWith (db : Database C G R) (shardId : Nat) (entries : List (LogEntry C))
    (leaderCommit matchIndex : Nat) : Prop :=
  db.raftGroups = none ∧ matchIndex = leaderCommit ∨
    ∃ consensus group, db.raftGroups = some consensus ∧
      consensus.groups[shardId]? = some group ∧ group.Answers entries matchIndex

variable {entries : List (LogEntry C)}

variable {db db' : Database C G R} {shard : Nat}

theorem observeGroup_success
    (h : (observeGroup shard entries leaderCommit).run db = (.ok response, db'))
    (hsucc : response.success = true) :
    db.AnswersWith shard entries leaderCommit response.matchIndex := by
  obtain ⟨read, t, hread, hmatch⟩ := of_bind_ok h
  cases hread
  cases hraft : db.raftGroups with
  | none =>
    rw [hraft] at hmatch
    cases hmatch
  | some consensus =>
    rw [hraft] at hmatch
    obtain ⟨term, t, -, honGroup⟩ := of_bind_ok hmatch
    obtain ⟨group, hgroup, hcall⟩ := of_lookup_bind_ok honGroup
    have hfound : consensus.groups[shard]? = some group := by
      unfold RaftShardConsensus.group at hgroup
      split at hgroup
      · rename_i hfound
        cases hgroup
        exact hfound
      · cases hgroup
    obtain ⟨hres, -⟩ := Prod.mk.inj hcall
    refine .inr ⟨consensus, group, hraft, hfound, ?_⟩
    exact appendEntries_success (Prod.ext hres rfl) hsucc

/-- The answer to entries of one shard. -/
theorem observeRaftAppendEntries_success (hown : ∀ entry ∈ entries, entry.shardId = shard)
    (h : (observeRaftAppendEntries shard entries leaderCommit).run db = (.ok response, db'))
    (hsucc : response.success = true) : KeepsProgress db db' ∧
      db.AnswersWith shard entries leaderCommit response.matchIndex := by
  obtain ⟨read, t, hread, hobserve⟩ := of_bind_ok h
  cases hread
  split at hobserve
  · rename_i hnone
    cases hobserve
    exact ⟨refl db, .inl ⟨Option.isNone_iff_eq_none.mp hnone, rfl⟩⟩
  · have hshards : (if ((keysOf LogEntry.shardId entries).map fun shard =>
        (shard, entries.filter fun entry => entry.shardId = shard)).isEmpty then
          [(shard, [])]
        else (keysOf LogEntry.shardId entries).map fun shard =>
          (shard, entries.filter fun entry => entry.shardId = shard)) =
        [(shard, entries)] := by
      by_cases hempty : entries = []
      · subst hempty
        rfl
      · have hfilter : entries.filter (fun entry => entry.shardId = shard) = entries := by
          simpa using hown
        rw [keysOf_of_forall_eq hempty hown, map_singleton, hfilter]
        rfl
    dsimp only at hobserve
    rw [hshards] at hobserve
    obtain ⟨answer, t, hgroup, hrest⟩ := of_bind_ok hobserve
    have hkeeps := ignoresCluster_keepsProgress.observeGroup shard entries leaderCommit db
    rw [hgroup] at hkeeps
    split at hrest
    · rename_i hanswer
      obtain ⟨_, t', hcontact, hlast⟩ := of_bind_ok hrest
      have hkeeps' := ignoresCluster_keepsProgress.recordLeaderContact shard t
      rw [hcontact] at hkeeps'
      cases hlast
      exact ⟨IsTrans.trans _ _ _ hkeeps hkeeps', observeGroup_success hgroup hanswer⟩
    · rename_i hanswer
      cases hrest
      exact absurd hsucc hanswer

/-! ## The change of the log -/

/-- What truncating for a run of entries and appending it does to the log of a shard. -/
structure TakesRun [BEq C] (start stop : Nat) (entries : List (LogEntry C))
    (log log' : SegmentedShardLog C) : Prop where
  run : ∀ entry ∈ entries, ∃ held, log'.entry entry.index = some held ∧ SameEntry held entry
  below : ∀ index ≤ start, log'.entry index = log.entry index
  beyond : ∀ index, stop < index → NoConflict entries log → log'.entry index = log.entry index
  cut : ∀ index, stop < index → ¬ NoConflict entries log → log'.entry index = none

theorem TakesRun.outside [BEq C] {start stop index : Nat} {log log' : SegmentedShardLog C}
    (h : TakesRun start stop entries log log')
    (hout : index ≤ start ∨ stop < index ∧ NoConflict entries log) :
    log'.entry index = log.entry index := by
  rcases hout with hbelow | ⟨hbeyond, hno⟩
  · exact h.below index hbelow
  · exact h.beyond index hbeyond hno

variable {start shardId : Nat} {taken : List (LogEntry C)}

/-- Appending adds nothing outside the run. -/
theorem AppendsAll.entry_outside (h : AppendsAll taken db db') (hsub : taken.Sublist entries)
    (hrun : Consecutive LogEntry.index start entries) {index : Nat}
    (hout : index ≤ start ∨ start + entries.length < index) :
    (db'.logs shardId).entry index = (db.logs shardId).entry index := by
  have hnone : taken.find? (fun e => e.shardId = shardId ∧ e.index = index) = none := by
    rw [find?_eq_none]
    intro e he
    have hkey := hrun.lt_key (hsub.subset he)
    simp only [decide_eq_true_eq, not_and]
    omega
  rw [h.entry, hnone, Option.or_none]

variable {entry : LogEntry C}

/-- After appending, the log has the entries that were taken, unless it had others. -/
theorem AppendsAll.entry_taken (h : AppendsAll taken db db') (hsub : taken.Sublist entries)
    (hrun : Consecutive LogEntry.index start entries) (hown : entry.shardId = shardId)
    (hmem : entry ∈ taken) : (db'.logs shardId).entry entry.index =
      ((db.logs shardId).entry entry.index).or (some entry) := by
  rw [h.entry]
  cases hfind : taken.find? (fun e => e.shardId = shardId ∧ e.index = entry.index) with
  | none =>
    have := find?_eq_none.mp hfind entry hmem
    simp [hown] at this
  | some found =>
    have hfound := mem_of_find?_eq_some hfind
    have hidx : found.index = entry.index := by
      have := find?_some hfind
      simp only [decide_eq_true_eq] at this
      exact this.2
    rw [hrun.eq_of_key_eq (hsub.subset hfound) (hsub.subset hmem) hidx]

/-- After appending to a log without conflicts, the log has the run. -/
theorem AppendsAll.holds_run [BEq C] (h : AppendsAll taken db db') (hsub : taken.Sublist entries)
    (hrun : Consecutive LogEntry.index start entries)
    (hown : ∀ entry ∈ entries, entry.shardId = shardId) (hno : NoConflict entries (db.logs shardId))
    (hheld : ∀ entry ∈ entries, entry ∈ taken ∨ ∃ old,
      (db.logs entry.shardId).entry entry.index = some old ∧ old.partialEq entry = true)
    (he : entry ∈ entries) :
    ∃ held, (db'.logs shardId).entry entry.index = some held ∧ SameEntry held entry := by
  rcases hheld entry he with htaken | ⟨old, hexist, hsame⟩
  · rw [h.entry_taken hsub hrun (hown entry he) htaken]
    cases hold : (db.logs shardId).entry entry.index with
    | none => exact ⟨entry, rfl, .inl rfl⟩
    | some old => exact ⟨old, rfl, .inr (hno entry he old hold)⟩
  · rw [hown entry he] at hexist
    rw [h.entry, hexist]
    exact ⟨old, rfl, .inr hsame⟩

theorem truncated_entry (db : Database C G R) (shardId cut index : Nat) :
    ((db.truncated shardId cut).logs shardId).entry index =
      if index < cut then (db.logs shardId).entry index else none := by
  unfold truncated
  dsimp only
  rw [Function.update_self, SegmentedShardLog.entry_truncateFrom]

/-- Cut at its first conflict, the log has none. -/
theorem noConflict_truncated [BEq C] {before after : List (LogEntry C)}
    (hrun : Consecutive LogEntry.index start (before ++ entry :: after))
    (hno : NoConflict before (db.logs shardId)) : NoConflict (before ++ entry :: after)
      ((db.truncated shardId entry.index).logs shardId) := by
  intro e he old hexist
  rw [truncated_entry] at hexist
  split at hexist
  · rename_i hlt
    rcases mem_append.mp he with hbefore | hafter
    · exact hno e hbefore old hexist
    · have htail := (consecutive_append.mp hrun).2
      have hfirst := htail.1
      have := htail.lt_key hafter
      omega
  · cases hexist

theorem takesRun [BEq C] {engine : GraphEngine C G} {cutDb : Database C G R}
    (hrun : Consecutive LogEntry.index start entries)
    (hown : ∀ entry ∈ entries, entry.shardId = shardId)
    (htruncate : (truncateReplicatedLogForAppend shardId entries).run db = (.ok (), cutDb))
    (happend : (appendReplicatedEntries engine entries).run cutDb = (.ok (), db')) :
    TakesRun start (start + entries.length) entries (db.logs shardId) (db'.logs shardId) ∧
      db'.commitIndexes = db.commitIndexes ∧
      (db'.logs shardId).shardId = (db.logs shardId).shardId := by
  obtain ⟨taken, hsub, hall, hheld⟩ := appendReplicatedEntries_ok happend
  rcases truncateReplicatedLogForAppend_ok hown htruncate with
    ⟨hno, rfl⟩ | ⟨before, entry, after, old, hsplit, hno, hexist, hdiffers, rfl⟩
  · refine ⟨⟨fun entry he => ?_, fun index hle => ?_, fun index hlt _ => ?_,
      fun index hlt hconf => absurd hno hconf⟩, hall.commitIndexes, hall.shardId _⟩
    · exact hall.holds_run hsub hrun hown hno hheld he
    · exact hall.entry_outside hsub hrun (.inl hle)
    · exact hall.entry_outside hsub hrun (.inr hlt)
  · have hmem : entry ∈ entries := by
      rw [hsplit]
      exact mem_append_right _ (.head _)
    have hcut := hrun.lt_key hmem
    refine ⟨⟨fun e he => ?_, fun index hle => ?_, fun index hlt hno' => ?_,
      fun index hlt _ => ?_⟩, hall.commitIndexes, (hall.shardId _).trans ?_⟩
    · have hno' := noConflict_truncated (hsplit ▸ hrun) hno
      rw [← hsplit] at hno'
      exact hall.holds_run hsub hrun hown hno' hheld he
    · rw [hall.entry_outside hsub hrun (.inl hle), truncated_entry, if_pos (by omega)]
    · have := hno' entry hmem old hexist
      rw [hdiffers] at this
      cases this
    · rw [hall.entry_outside hsub hrun (.inr hlt), truncated_entry, if_neg (by omega)]
    · unfold truncated
      dsimp only
      rw [Function.update_self]
      rfl

/-! ## Log matching -/

/-- A log and a leader's log hold the same entry at an index. -/
def Agrees [BEq C] (log : SegmentedShardLog C) (leader : List (LogEntry C)) (index : Nat) :
    Prop :=
  ∃ held sent, log.entry index = some held ∧ leader[index - 1]? = some sent ∧ SameEntry held sent

/-- What a successful append of a leader's run up to `stop` owes the server: the logs are
the same up to the match index, and what it commits is the leader's. -/
structure MatchesLeader [BEq C] (leader : List (LogEntry C)) (shardId stop matchIndex : Nat)
    (db db' : Database C G R) : Prop where
  matched : ∀ index, 1 ≤ index → index ≤ min matchIndex stop →
    Agrees (db'.logs shardId) leader index
  committed : ∀ index, db.commitIndexes shardId < index → index ≤ db'.commitIndexes shardId →
    Agrees (db'.logs shardId) leader index

/-- How far below the run the answer of the server speaks for its log: all the way, or, if
the run brings nothing that its Raft log does not have, as far as that log goes.  Without
Raft it is the leader's commit index. -/
def spokenFor (db : Database C G R) (shardId start stop leaderCommit : Nat) : Nat :=
  match db.raftGroups with
  | none => min leaderCommit start
  | some consensus => match consensus.groups[shardId]? with
    | none => start
    | some group =>
      if start = stop ∨ stop ≤ group.snapshotIndex then
        min group.sortLog.lastLogIndex start
      else start

/-- What has to be right before a run from `start` to `stop` arrives: the log agrees with
the leader's below the run as far as the answer speaks for it, and so does every entry
outside the run that the commit reaches; beyond the run it reaches none if the run cuts
the log. -/
structure AgreesBefore [BEq C] (leader : List (LogEntry C))
    (shardId start stop leaderCommit : Nat) (db : Database C G R) : Prop where
  below : ∀ index, 1 ≤ index → index ≤ db.spokenFor shardId start stop leaderCommit →
    Agrees (db.logs shardId) leader index
  reached : ∀ index, db.commitIndexes shardId < index → index ≤ leaderCommit →
    (index ≤ start ∨
      stop < index ∧ NoConflict ((leader.drop start).take (stop - start)) (db.logs shardId)) →
    (∀ between, db.commitIndexes shardId < between → between ≤ index →
      start < between ∧ between ≤ stop ∨ ((db.logs shardId).entry between).isSome) →
    Agrees (db.logs shardId) leader index

theorem validateRaftAppendEntries_ok (h : validateRaftAppendEntries shardId db entries = .ok ()) :
    ∀ entry ∈ entries, entry.shardId = shardId := by
  induction entries with
  | nil => exact forall_mem_nil _
  | cons entry entries ih =>
    unfold validateRaftAppendEntries at h
    split at h
    · cases h
    · rename_i hown
      obtain ⟨_, -, h⟩ := of_exceptBind_ok h
      split at h
      · cases h
      · split at h
        · cases h
        · exact forall_mem_cons.mpr ⟨not_not.mp hown, ih h⟩

/-- The part of the match index below the run. -/
theorem min_matchIndex_eq {matchIndex : Nat} (hrun : Consecutive LogEntry.index start entries)
    (h : db.AnswersWith shard entries leaderCommit matchIndex) :
    min matchIndex start = db.spokenFor shard start (start + entries.length) leaderCommit := by
  unfold spokenFor
  rcases h with ⟨hraft, rfl⟩ | ⟨consensus, group, hraft, hgroup, s, s', hsame, hloop, rfl⟩
  · rw [hraft]
  · rw [hraft]
    dsimp only
    rw [hgroup]
    dsimp only
    have hsnap : s.snapshotIndex = group.snapshotIndex := by
      unfold snapshotIndex
      rw [hsame.snapshot]
    have hlast : s.sortLog.lastLogIndex = group.sortLog.lastLogIndex := by
      unfold lastLogIndex sortLog snapshotIndex
      rw [hsame.log, hsame.snapshot]
    split
    · rename_i hcovered
      have hskip : ∀ entry ∈ entries, entry.index ≤ s.snapshotIndex := by
        intro entry he
        have hkey := hrun.lt_key he
        omega
      rw [appendLoop_covered hskip hloop, hlast]
    · rename_i hnew
      push Not at hnew
      have hne : entries ≠ [] := by
        rintro rfl
        exact hnew.1 rfl
      obtain ⟨last, hgetLast⟩ := Option.isSome_iff_exists.mp (getLast?_isSome.mpr hne)
      have hidx : last.index = start + entries.length := by
        have := hrun.getLast?_key
        rw [hgetLast] at this
        exact this
      obtain ⟨entry, hentry, heq⟩ := appendLoop_last hgetLast (by omega) hloop
      have := le_lastLogIndex_sortLog hentry
      omega

section

variable [BEq C] {leader : List (LogEntry C)} {count : Nat} {log log' : SegmentedShardLog C}
  {index : Nat}

theorem Agrees.congr (h : log'.entry index = log.entry index) :
    Agrees log' leader index ↔ Agrees log leader index := by
  unfold Agrees
  rw [h]

omit [BEq C] in
/-- The run has the leader's entries of its indexes. -/
theorem exists_sent (hleader : Consecutive LogEntry.index 0 leader)
    (hstop : start + count ≤ leader.length) (hlt : start < index) (hle : index ≤ start + count) :
    ∃ sent ∈ (leader.drop start).take count, sent.index = index ∧
      leader[index - 1]? = some sent := by
  have hget : leader[index - 1]? = some leader[index - 1] := getElem?_eq_getElem (by omega)
  refine ⟨leader[index - 1], ?_, ?_, hget⟩
  · rw [mem_iff_getElem?]
    refine ⟨index - 1 - start, ?_⟩
    rw [getElem?_take_of_lt (by omega), getElem?_drop, ← hget]
    congr 1
    omega
  · have := hleader.key_getElem? hget
    omega

variable (hleader : Consecutive LogEntry.index 0 leader)
variable (hstop : start + count ≤ leader.length)
variable (htakes : TakesRun start (start + count) ((leader.drop start).take count) log log')

include hleader hstop htakes

/-- The log agrees with the leader's inside the run. -/
theorem TakesRun.agrees (hlt : start < index) (hle : index ≤ start + count) :
    Agrees log' leader index := by
  obtain ⟨sent, hmem, rfl, hsent⟩ := exists_sent hleader hstop hlt hle
  obtain ⟨held, hheld, hsame⟩ := htakes.run sent hmem
  exact ⟨held, sent, hheld, hsent, hsame⟩

/-- Where the log after the run agrees up to a match index. -/
theorem TakesRun.matched_iff (matchIndex : Nat) :
    (∀ index, 1 ≤ index → index ≤ min matchIndex (start + count) → Agrees log' leader index) ↔
    ∀ index, 1 ≤ index → index ≤ min matchIndex start → Agrees log leader index := by
  constructor
  · intro h index hpos hle
    rw [← Agrees.congr (htakes.below index (by omega))]
    exact h index hpos (by omega)
  · intro h index hpos hle
    by_cases hlt : index ≤ start
    · rw [Agrees.congr (htakes.below index hlt)]
      exact h index hpos (by omega)
    · exact htakes.agrees hleader hstop (by omega) (by omega)

/-- Where the log after the run has entries. -/
theorem TakesRun.isSome_iff : (log'.entry index).isSome ↔
      start < index ∧ index ≤ start + count ∨
        (log.entry index).isSome ∧ (index ≤ start ∨
          start + count < index ∧ NoConflict ((leader.drop start).take count) log) := by
  by_cases hbelow : index ≤ start
  · rw [htakes.below index hbelow]
    simp [hbelow, Nat.not_lt.mpr hbelow]
  · by_cases hinside : index ≤ start + count
    · obtain ⟨held, _, hheld, -⟩ := htakes.agrees hleader hstop (Nat.lt_of_not_le hbelow) hinside
      rw [hheld]
      simp [Nat.lt_of_not_le hbelow, hinside]
    · have hbeyond := Nat.lt_of_not_le hinside
      by_cases hno : NoConflict ((leader.drop start).take count) log
      · rw [htakes.beyond index hbeyond hno]
        simp [hbelow, hinside, hbeyond, hno]
      · rw [htakes.cut index hbeyond hno]
        simp [hbelow, hinside, hno]

/-- Where what is committed after the run agrees. -/
theorem TakesRun.committed_iff (committed leaderCommit : Nat) :
    (∀ index, committed < index → index ≤ reach log' committed leaderCommit →
      Agrees log' leader index) ↔
    ∀ index, committed < index → index ≤ leaderCommit →
      (index ≤ start ∨ start + count < index ∧ NoConflict ((leader.drop start).take count) log) →
      (∀ between, committed < between → between ≤ index →
        start < between ∧ between ≤ start + count ∨ (log.entry between).isSome) →
      Agrees log leader index := by
  constructor
  · intro h index hlt hle houtside hchain
    rw [← Agrees.congr (htakes.outside houtside)]
    refine h index hlt ((le_reach_iff hlt).mpr ⟨hle, fun between hcomm hbetween => ?_⟩)
    rw [htakes.isSome_iff hleader hstop]
    rcases hchain between hcomm hbetween with hinside | hsome
    · exact .inl hinside
    · by_cases hinside : start < between ∧ between ≤ start + count
      · exact .inl hinside
      · refine .inr ⟨hsome, ?_⟩
        rcases houtside with hbelow | ⟨hbeyond, hno⟩
        · exact .inl (by omega)
        · by_cases hle : between ≤ start
          · exact .inl hle
          · exact .inr ⟨by omega, hno⟩
  · intro h index hlt hreach
    obtain ⟨hle, hchain⟩ := (le_reach_iff hlt).mp hreach
    rcases (htakes.isSome_iff hleader hstop).mp (hchain index hlt (Nat.le_refl _)) with
      ⟨hlt', hle'⟩ | ⟨-, houtside⟩
    · exact htakes.agrees hleader hstop hlt' hle'
    · rw [Agrees.congr (htakes.outside houtside)]
      refine h index hlt hle houtside fun between hcomm hbetween => ?_
      exact ((htakes.isSome_iff hleader hstop).mp (hchain between hcomm hbetween)).imp_right
        And.left

end

/-- A successful append leaves the server with the leader's log, up to its answer and in
what it commits, if and only if the log agreed with the leader's where the run does not
bring it. -/
theorem append_matches_leader_iff [BEq C] {engine : GraphEngine C G}
    {replicator : ShardReplicator C R} {leader : List (LogEntry C)}
    {shardId start count leaderCommit : Nat} {db db' : Database C G R}
    {response : AppendEntriesResponse} (hleader : Consecutive LogEntry.index 0 leader)
    (hstop : start + count ≤ leader.length) (hcommit : leaderCommit ≤ leader.length)
    (hbound : leader.length < u64Max) (hslot : (db.logs shardId).shardId = shardId)
    (hcall : (applyRaftAppendEntriesWithResponse engine replicator shardId
      ((leader.drop start).take count) leaderCommit).run db = (.ok response, db'))
    (hsuccess : response.success = true) :
    MatchesLeader leader shardId (start + count) response.matchIndex db db' ↔
      AgreesBefore leader shardId start (start + count) leaderCommit db := by
  have hlength : ((leader.drop start).take count).length = count := by
    rw [length_take, length_drop]
    omega
  have hrun : Consecutive LogEntry.index start ((leader.drop start).take count) := by
    have := (hleader.drop start).take count
    rwa [Nat.zero_add] at this
  -- the phases of the call
  obtain ⟨_, hvalid, hrest⟩ := of_lookup_bind_ok hcall
  have hown := validateRaftAppendEntries_ok hvalid
  obtain ⟨answer, observed, hobserve, hrest⟩ := of_bind_ok hrest
  split at hrest
  · rename_i hanswer
    obtain ⟨_, cutDb, htruncate, hrest⟩ := of_bind_ok hrest
    obtain ⟨_, appended, happend, hrest⟩ := of_bind_ok hrest
    obtain ⟨_, finished, hfinish, hreturn⟩ := of_bind_ok hrest
    cases hreturn
    obtain ⟨⟨hlogs, hcommits⟩, hmatch⟩ := observeRaftAppendEntries_success hown hobserve hanswer
    obtain ⟨htakes, hcommits', hslot'⟩ := takesRun hrun hown htruncate happend
    rw [hlogs] at htakes hslot'
    obtain ⟨hlogs', hreach⟩ := commitAndApplyShardsThrough_ok (hslot'.trans hslot)
      (by omega) hfinish
    have hmin := min_matchIndex_eq hrun hmatch
    rw [hlength] at hmin htakes
    rw [hcommits', hcommits] at hreach
    have hmatched := htakes.matched_iff hleader hstop answer.matchIndex
    rw [hmin] at hmatched
    have hcommitted := htakes.committed_iff hleader hstop (db.commitIndexes shardId) leaderCommit
    rw [← hreach] at hcommitted
    rw [← hlogs'] at hmatched hcommitted
    constructor
    · rintro ⟨hm, hc⟩
      refine ⟨hmatched.mp hm, ?_⟩
      rw [Nat.add_sub_cancel_left]
      exact hcommitted.mp hc
    · rintro ⟨hb, hr⟩
      rw [Nat.add_sub_cancel_left] at hr
      exact ⟨hmatched.mpr hb, hcommitted.mpr hr⟩
  · rename_i hanswer
    cases hrest
    exact absurd hsuccess hanswer

/-! ### A follower with one entry, and a leader that sends it the second -/

/-- An entry of shard 0 that server 1 leads in term 2. -/
def ledEntry (index command : Nat) : LogEntry Nat :=
  LogEntry.newWithMetadata 0 2 index 1 1 .zero command

/-- An entry that server 2 has appended in term 1. -/
def staleEntry (index command : Nat) : LogEntry Nat :=
  LogEntry.newWithMetadata 0 1 index 2 1 .zero command

/-- A log of shard 0 with one entry. -/
def logOf (entry : LogEntry Nat) (h : entry.shardId = 0) : SegmentedShardLog Nat :=
  ⟨0, 1024, [entry], SegmentedShardLog.defaultSegment_pos, fun _ he => mem_singleton.mp he ▸ h⟩

/-- Server 2, which follows in term 2 and has one entry in its log. -/
def followerWith (entry : LogEntry Nat) (h : entry.shardId = 0) :
    Database Nat (List Nat) (List Bool) :=
  { scriptedServer 1 [] with
    config := ⟨2, 1024, false⟩
    logs := fun _ => logOf entry h
    routingTable := ⟨1, [⟨0, [⟨1, .primary⟩, ⟨2, .replica⟩]⟩]⟩
    nextLogIndexes := fun _ => 2
    raftGroups := some
      { groups := [{
          serverId := 2, shardId := 0
          stateStore := ⟨"raft_state", none, "raft_state.tmp", .missing, []⟩
          persistent := ⟨2, none⟩, log := [entry], snapshot := none, commitIndex := 0
          role := .follower, leaderId := some 1, membership := .ofVoters {1, 2}
          matchIndexes := fun _ => none, votesReceived := ∅, leaseDeadline := none
          leaseDuration := 0, leaseClockDriftBound := 0, leaseMessageDelayBound := 0 }]
        leaderContacts := [none] } }

/-- What the leader sends: the second of its two entries, both committed. -/
def sendSecond : Op Nat (List Nat) (List Bool) AppendEntriesResponse :=
  applyRaftAppendEntriesWithResponse listEngine scriptedReplicator 0
    (([ledEntry 1 10, ledEntry 2 20].drop 1).take 1) 2

/-- The follower has the leader's first entry, and ends with the leader's log. -/
theorem append_matches_leader_iff_sameFirst :
    ∃ response db', sendSecond.run (followerWith (ledEntry 1 10) rfl) = (.ok response, db') ∧
      MatchesLeader [ledEntry 1 10, ledEntry 2 20] 0 2 response.matchIndex
        (followerWith (ledEntry 1 10) rfl) db' := by
  obtain ⟨response, db', hcall, hsuccess⟩ : ∃ response db',
      sendSecond.run (followerWith (ledEntry 1 10) rfl) = (.ok response, db') ∧
        response.success = true := ⟨_, _, rfl, rfl⟩
  have hfirst : Agrees ((followerWith (ledEntry 1 10) rfl).logs 0)
      [ledEntry 1 10, ledEntry 2 20] 1 := ⟨ledEntry 1 10, ledEntry 1 10, rfl, rfl, .inl rfl⟩
  refine ⟨response, db', hcall, (append_matches_leader_iff (by decide) (by decide)
    (by decide) (by decide) rfl hcall hsuccess).mpr ⟨fun index hpos hle => ?_,
      fun index hpos _ houtside _ => ?_⟩⟩
  · have hspoken : index ≤ 1 := hle
    obtain rfl : index = 1 := by omega
    exact hfirst
  · rcases houtside with hbelow | ⟨hbeyond, -⟩
    · obtain rfl : index = 1 := by omega
      exact hfirst
    · omega

/-- The follower has an entry of its own in the first place.  It answers that its log
matches, and it commits that entry. -/
theorem append_commits_stale_entry :
    ∃ response db', sendSecond.run (followerWith (staleEntry 1 99) rfl) = (.ok response, db') ∧
      response.success = true ∧ response.matchIndex = 2 ∧
      (db'.logs 0).entry 1 = some (staleEntry 1 99) ∧ db'.commitIndexes 0 = 2 ∧
      db'.store = [99, 20] ∧
      ¬ MatchesLeader [ledEntry 1 10, ledEntry 2 20] 0 2 response.matchIndex
        (followerWith (staleEntry 1 99) rfl) db' := by
  refine ⟨_, _, rfl, rfl, rfl, rfl, rfl, rfl, fun h => ?_⟩
  obtain ⟨held, sent, hheld, hsent, hsame⟩ := h.committed 1 (by decide) (by decide)
  obtain rfl : staleEntry 1 99 = held := Option.some.inj hheld
  obtain rfl : ledEntry 1 10 = sent := Option.some.inj hsent
  rcases hsame with heq | heq <;> exact absurd heq (by decide)

end Database

end Neo4r.Db
