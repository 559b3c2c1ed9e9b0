/-
  `Raft.LogShape`: the log, the snapshot and the commit index of one core.

  The log of a core holds the consecutive indexes after its snapshot.  Under that
  shape the program's searches and filters by index are positions in a list, and each
  operation gets a lemma that says what it does to the log, the snapshot and the
  commit index.
-/
import Neo4r.Foundation.Consecutive
import Neo4r.Raft.Frame

set_option autoImplicit false

namespace Neo4r.Raft.RaftCore

open Foundation LogEntry List

variable {C : Type}

/-- The log holds exactly the consecutive indexes after the snapshot, and the commit
index lies between the snapshot and the end of the log. -/
structure LogInv (r : RaftCore C) : Prop where
  consecutive : Consecutive index r.snapshotIndex r.log
  snapshot_le : r.snapshotIndex ≤ r.commitIndex
  commit_le : r.commitIndex ≤ r.lastLogIndex

/-- Nothing committed is lost: the commit index and the snapshot do not move back, and
an entry at or below the commit index is unchanged unless it was compacted away. -/
structure Keeps (r r' : RaftCore C) : Prop where
  commit : r.commitIndex ≤ r'.commitIndex
  snapshot : r.snapshotIndex ≤ r'.snapshotIndex
  entries : ∀ k ≤ r.commitIndex,
    r'.entryAt k = r.entryAt k ∨ k ≤ r'.snapshotIndex ∧ r'.entryAt k = none

/-! ## Positions -/

variable {r : RaftCore C}

theorem snapshotIndex_congr {r' : RaftCore C} (h : r'.snapshot = r.snapshot) :
    r'.snapshotIndex = r.snapshotIndex := by
  rw [snapshotIndex, snapshotIndex, h]

theorem snapshotIndex_of_none (h : r.snapshot = none) : r.snapshotIndex = 0 := by
  rw [snapshotIndex, h]
  rfl

section

variable (h : Consecutive index r.snapshotIndex r.log)

include h

theorem lastLogIndex_eq :
    r.lastLogIndex = r.snapshotIndex + r.log.length :=
  h.getLast?_key

theorem entryAt_eq (k : Nat) :
    r.entryAt k = if r.snapshotIndex < k then r.log[k - r.snapshotIndex - 1]? else none :=
  h.find?_key k

theorem entryAt_eq_none_iff {k : Nat} :
    r.entryAt k = none ↔ k ≤ r.snapshotIndex ∨ r.lastLogIndex < k := by
  rw [entryAt_eq h, lastLogIndex_eq h]
  by_cases hk : r.snapshotIndex < k
  · rw [if_pos hk, getElem?_eq_none_iff]
    omega
  · rw [if_neg hk]
    simp only [true_iff]
    omega

theorem le_lastLogIndex_of_entryAt {k : Nat} {entry : LogEntry C} (hat : r.entryAt k = some entry) :
    k ≤ r.lastLogIndex := by
  by_contra hgt
  rw [(entryAt_eq_none_iff h).mpr (.inr (not_le.mp hgt))] at hat
  cases hat

theorem sortLog_eq : r.sortLog = r := by
  rw [sortLog, h.insertionSort_eq]

theorem truncateFrom_log (k : Nat) :
    (r.truncateFrom k).log = r.log.take (k - r.snapshotIndex - 1) :=
  h.filter_lt k

end

/-! ## The two relations -/

theorem Keeps.refl (r : RaftCore C) : Keeps r r := ⟨le_rfl, le_rfl, fun _ _ => .inl rfl⟩

theorem Keeps.trans {r' r'' : RaftCore C} (h : Keeps r r') (h' : Keeps r' r'') : Keeps r r'' where
  commit := h.commit.trans h'.commit
  snapshot := h.snapshot.trans h'.snapshot
  entries k hk := by
    rcases h'.entries k (hk.trans h.commit) with hsame' | hgone
    · rcases h.entries k hk with hsame | ⟨hle, hnone⟩
      · exact .inl (hsame'.trans hsame)
      · exact .inr ⟨hle.trans h'.snapshot, hsame'.trans hnone⟩
    · exact .inr hgone

variable {r' : RaftCore C} {req : AppendEntriesRequest C}

theorem SameLog.logInv (h : SameLog r r') (hr : LogInv r) : LogInv r' := by
  obtain ⟨-, hlog, hsnap, hcommit⟩ := h
  have hidx : r'.snapshotIndex = r.snapshotIndex := snapshotIndex_congr hsnap
  refine ⟨?_, ?_, ?_⟩
  · rw [hidx, hlog]
    exact hr.consecutive
  · rw [hidx, hcommit]
    exact hr.snapshot_le
  · rw [hcommit, lastLogIndex, hlog, hidx]
    exact hr.commit_le

theorem SameLog.keeps (h : SameLog r r') : Keeps r r' where
  commit := h.commitIndex.ge
  snapshot := (snapshotIndex_congr h.snapshot).ge
  entries k _ := .inl (by rw [entryAt, entryAt, h.log])

/-! ## Replacing the uncommitted tail -/

/-- The log changed above the commit index only. -/
structure TailChange (r r' : RaftCore C) : Prop where
  logInv : LogInv r'
  shardId : r'.shardId = r.shardId
  snapshot : r'.snapshot = r.snapshot
  commitIndex : r'.commitIndex = r.commitIndex
  entries : ∀ k ≤ r.commitIndex, r'.entryAt k = r.entryAt k

theorem TailChange.refl (h : LogInv r) : TailChange r r :=
  ⟨h, rfl, rfl, rfl, fun _ _ => rfl⟩

theorem TailChange.trans {r'' : RaftCore C} (h : TailChange r r') (h' : TailChange r' r'') :
    TailChange r r'' where
  logInv := h'.logInv
  shardId := h'.shardId.trans h.shardId
  snapshot := h'.snapshot.trans h.snapshot
  commitIndex := h'.commitIndex.trans h.commitIndex
  entries k hk := (h'.entries k (h.commitIndex.symm ▸ hk)).trans (h.entries k hk)

theorem TailChange.keeps (h : TailChange r r') : Keeps r r' where
  commit := h.commitIndex.ge
  snapshot := (snapshotIndex_congr h.snapshot).ge
  entries k hk := .inl (h.entries k hk)

section

variable (h : LogInv r)

include h

/-- Keeping the first `n` entries, which cover the commit index, and appending
consecutive entries changes the tail only. -/
theorem tailChange_of_log (r' : RaftCore C) (n : Nat) (entries : List (LogEntry C))
    (hn : n ≤ r.log.length) (hcommit : r.commitIndex ≤ r.snapshotIndex + n)
    (hentries : Consecutive index (r.snapshotIndex + n) entries)
    (hlog : r'.log = r.log.take n ++ entries) (hshard : r'.shardId = r.shardId)
    (hsnap : r'.snapshot = r.snapshot) (hsame : r'.commitIndex = r.commitIndex) :
    TailChange r r' ∧ r'.lastLogIndex = r.snapshotIndex + n + entries.length := by
  have hidx : r'.snapshotIndex = r.snapshotIndex := snapshotIndex_congr hsnap
  have hlen : (r.log.take n).length = n := by
    rw [length_take, Nat.min_eq_left hn]
  have hconsec : Consecutive index r'.snapshotIndex r'.log := by
    rw [hidx, hlog, consecutive_append, hlen]
    exact ⟨h.consecutive.take n, hentries⟩
  have hlast : r'.lastLogIndex = r.snapshotIndex + n + entries.length := by
    rw [lastLogIndex_eq hconsec, hlog, length_append]
    omega
  refine ⟨⟨⟨hconsec, ?_, ?_⟩, hshard, hsnap, hsame, ?_⟩, hlast⟩
  · rw [hidx, hsame]
    exact h.snapshot_le
  · omega
  · intro k hk
    rw [entryAt_eq hconsec, entryAt_eq h.consecutive, hidx, hlog]
    split
    · rw [getElem?_append_left (by rw [hlen]; omega), getElem?_take_of_lt (by omega)]
    · rfl

/-- Pushing the entry that comes next. -/
theorem pushEntry_tailChange (entry : LogEntry C) (hidx : entry.index = r.lastLogIndex + 1) :
    TailChange r (r.pushEntry entry) ∧ (r.pushEntry entry).lastLogIndex = entry.index := by
  have hlast := lastLogIndex_eq h.consecutive
  have hchange := tailChange_of_log h (r.pushEntry entry) r.log.length [entry] le_rfl
    (hlast ▸ h.commit_le) ⟨by rw [hidx, hlast], trivial⟩
    (by rw [take_length]; rfl) rfl rfl rfl
  refine ⟨hchange.1, hchange.2.trans ?_⟩
  rw [hidx, hlast]
  rfl

/-- Cutting the log at an uncommitted index. -/
theorem truncateFrom_tailChange {k : Nat} (hcommit : r.commitIndex < k)
    (hlast : k ≤ r.lastLogIndex) :
    TailChange r (r.truncateFrom k) ∧ (r.truncateFrom k).lastLogIndex = k - 1 := by
  have hsnap := h.snapshot_le
  have hlen := lastLogIndex_eq h.consecutive
  have hchange := tailChange_of_log h (r.truncateFrom k) (k - r.snapshotIndex - 1) []
    (by omega) (by omega) trivial
    (by rw [truncateFrom_log h.consecutive, append_nil]) rfl rfl
    (by simp only [truncateFrom]; omega)
  refine ⟨hchange.1, hchange.2.trans ?_⟩
  simp only [length_nil]
  omega

/-! ## AppendEntries -/

/-- The loop changes the tail only, wherever it stops: entries it passes over are in
the log, and one it stores either comes next or replaces an uncommitted one. -/
theorem appendLoop_tailChange {base : Nat} {entries : List (LogEntry C)}
    (hentries : Consecutive index base entries) (hbase : base ≤ r.lastLogIndex) :
    TailChange r (r.appendLoop entries).2 := by
  induction entries generalizing r base with
  | nil => exact .refl h
  | cons entry entries ih =>
    obtain ⟨hidx, hentries⟩ := hentries
    unfold appendLoop
    split
    · exact .refl h
    · split
      · rename_i hcompacted
        refine ih h hentries ?_
        have := h.snapshot_le.trans h.commit_le
        omega
      · rename_i hcompacted
        split
        · rename_i old hexist
          have hle := le_lastLogIndex_of_entryAt h.consecutive hexist
          split
          · exact ih h hentries (hidx ▸ hle)
          · split
            · exact .refl h
            · rename_i hcommit
              obtain ⟨hcut, hcutLast⟩ := truncateFrom_tailChange h (not_le.mp hcommit) hle
              obtain ⟨hpush, hpushLast⟩ := pushEntry_tailChange hcut.logInv entry
                (by rw [hcutLast]; omega)
              exact hcut.trans (hpush.trans (ih hpush.logInv hentries (by omega)))
        · rename_i hnone
          have hnext : entry.index = r.lastLogIndex + 1 := by
            rcases (entryAt_eq_none_iff h.consecutive).mp hnone with hle | hgt
            · exact absurd hle hcompacted
            · omega
          obtain ⟨hpush, hpushLast⟩ := pushEntry_tailChange h entry hnext
          exact hpush.trans (ih hpush.logInv hentries (by omega))

section

variable (hentries : Consecutive index req.prevLogIndex req.entries)

include hentries

theorem appendAndCommit_logInv (hprev : req.prevLogIndex ≤ r.lastLogIndex) :
    LogInv (r.appendAndCommit req).2 ∧ Keeps r (r.appendAndCommit req).2 := by
  have hloop := appendLoop_tailChange h hentries hprev
  unfold appendAndCommit
  split
  · rename_i heq
    rw [heq] at hloop
    exact ⟨hloop.logInv, hloop.keeps⟩
  · rename_i heq
    rw [heq] at hloop
    exact ⟨hloop.logInv, hloop.keeps⟩
  · rename_i r' heq
    rw [heq] at hloop
    have hinv : LogInv r' := hloop.logInv
    have hkeeps : Keeps r r' := hloop.keeps
    simp only [sortLog_eq hinv.consecutive]
    split
    · rename_i hnewer
      have hle := hinv.commit_le
      have hadvance : r'.commitIndex ≤ min req.leaderCommit r'.lastLogIndex := by omega
      refine ⟨⟨hinv.consecutive, hinv.snapshot_le.trans hadvance, Nat.min_le_right _ _⟩, ?_⟩
      exact hkeeps.trans ⟨hadvance, le_rfl, fun _ _ => .inl rfl⟩
    · exact ⟨hinv, hkeeps⟩

theorem checkPrevious_logInv :
    LogInv (r.checkPrevious req).2 ∧ Keeps r (r.checkPrevious req).2 := by
  have hsnap := h.snapshot_le.trans h.commit_le
  unfold checkPrevious
  split
  · split
    · split
      · rename_i hboundary
        exact appendAndCommit_logInv h hentries (hboundary.1 ▸ hsnap)
      · exact ⟨h, .refl r⟩
    · rename_i previous hprev
      have hle := le_lastLogIndex_of_entryAt h.consecutive hprev
      split
      · split
        · exact ⟨h, .refl r⟩
        · rename_i hcommit
          have hcut := (truncateFrom_tailChange h (not_le.mp hcommit) hle).1
          exact ⟨hcut.logInv, hcut.keeps⟩
      · exact appendAndCommit_logInv h hentries hle
  · exact appendAndCommit_logInv h hentries (by omega)

theorem appendEntries_logInv :
    LogInv (r.appendEntries req).2 ∧ Keeps r (r.appendEntries req).2 := by
  unfold appendEntries
  split
  · exact ⟨h, .refl r⟩
  · have hsame := (followLeader_spec r req.term req.leaderId).2.1
    split
    · rename_i heq
      rw [heq] at hsame
      exact ⟨hsame.logInv h, hsame.keeps⟩
    · rename_i r' heq
      rw [heq] at hsame
      obtain ⟨hinv, hkeeps⟩ := checkPrevious_logInv (hsame.logInv h) hentries
      exact ⟨hinv, hsame.keeps.trans hkeeps⟩

end

/-! ## Snapshots -/

/-- Moving the snapshot forward drops the entries it covers. -/
theorem compact_logInv (metadata : RaftSnapshotMetadata)
    (hforward : r.snapshotIndex ≤ metadata.lastIncludedIndex) (commitIndex : Nat)
    (hcommit : r.commitIndex ≤ commitIndex) (hcovered : metadata.lastIncludedIndex ≤ commitIndex)
    (hle : commitIndex ≤ max r.lastLogIndex metadata.lastIncludedIndex) :
    let r' := { { r with snapshot := some metadata }.compactLogThroughSnapshot with commitIndex }
    LogInv r' ∧ Keeps r r' := by
  intro r'
  have hidx : r'.snapshotIndex = metadata.lastIncludedIndex := rfl
  have hlog : r'.log = r.log.drop (metadata.lastIncludedIndex - r.snapshotIndex) :=
    h.consecutive.filter_gt _
  have hconsec : Consecutive index r'.snapshotIndex r'.log := by
    have hdrop := h.consecutive.drop (metadata.lastIncludedIndex - r.snapshotIndex)
    rwa [Nat.add_sub_cancel' hforward, ← hlog] at hdrop
  have hlast : r'.lastLogIndex = max r.lastLogIndex metadata.lastIncludedIndex := by
    rw [lastLogIndex_eq hconsec, lastLogIndex_eq h.consecutive, hlog, length_drop]
    omega
  refine ⟨⟨hconsec, hcovered, hlast ▸ hle⟩, ⟨hcommit, hforward, ?_⟩⟩
  intro k _
  by_cases hk : k ≤ metadata.lastIncludedIndex
  · exact .inr ⟨hk, (entryAt_eq_none_iff hconsec).mpr (.inl hk)⟩
  · refine .inl ?_
    rw [entryAt_eq hconsec, entryAt_eq h.consecutive, if_pos (by omega), if_pos (by omega), hlog,
      getElem?_drop]
    congr 1
    omega

theorem adoptSnapshot_logInv (metadata : RaftSnapshotMetadata) :
    LogInv (r.adoptSnapshot metadata) ∧ Keeps r (r.adoptSnapshot metadata) := by
  unfold adoptSnapshot
  split
  · rename_i hforward
    have hle := h.commit_le
    exact compact_logInv h metadata hforward (max r.commitIndex metadata.lastIncludedIndex)
      (by omega) (by omega) (by omega)
  · exact ⟨h, .refl r⟩

theorem installSnapshot_logInv (req : InstallSnapshotRequest) :
    LogInv (r.installSnapshot req).2 ∧ Keeps r (r.installSnapshot req).2 := by
  unfold installSnapshot
  split
  · exact ⟨h, .refl r⟩
  · split
    · exact ⟨h, .refl r⟩
    · have hsame := (followLeader_spec r req.term req.leaderId).2.1
      split
      · rename_i heq
        rw [heq] at hsame
        exact ⟨hsame.logInv h, hsame.keeps⟩
      · rename_i r' heq
        rw [heq] at hsame
        obtain ⟨hinv, hkeeps⟩ := adoptSnapshot_logInv (hsame.logInv h) req.metadata
        exact ⟨hinv, hsame.keeps.trans hkeeps⟩

theorem compactLogToSnapshot_logInv {metadata : RaftSnapshotMetadata}
    (hforward : r.snapshotIndex ≤ metadata.lastIncludedIndex) :
    LogInv (r.compactLogToSnapshot metadata).2 ∧ Keeps r (r.compactLogToSnapshot metadata).2 := by
  unfold compactLogToSnapshot
  split
  · exact ⟨h, .refl r⟩
  · split
    · exact ⟨h, .refl r⟩
    · rename_i hcomm
      have hle := h.commit_le
      exact compact_logInv h metadata hforward r.commitIndex le_rfl (not_lt.mp hcomm) (by omega)

end

/-! ## The leader's commit index -/

/-- The index the leader's commit index advances to is reached by a quorum. -/
theorem quorumIndex_spec (r : RaftCore C) (h : 0 < r.quorumIndex) :
    r.membership.hasQuorum (r.matchedVoters r.quorumIndex) = true := by
  have hne : ((r.membership.allVoters.image r.matchIndexOf).filter fun candidate =>
      r.membership.hasQuorum (r.matchedVoters candidate)).Nonempty := by
    by_contra hempty
    rw [Finset.not_nonempty_iff_eq_empty] at hempty
    rw [quorumIndex, hempty] at h
    exact Nat.lt_irrefl 0 h
  obtain ⟨candidate, hmem, hsup⟩ := Finset.exists_mem_eq_sup _ hne id
  have heq : r.quorumIndex = candidate := hsup
  rw [heq]
  exact (Finset.mem_filter.mp hmem).2

/-- What moves the leader's commit index: a quorum of voters whose recorded match
indexes reach a stored entry of the current term. -/
theorem advanceLeaderCommitIndex_cases (r : RaftCore C) :
    r.advanceLeaderCommitIndex = r ∨
    ∃ entry, r.role = .leader ∧ r.commitIndex < r.quorumIndex ∧
      r.entryAt r.quorumIndex = some entry ∧ entry.term = r.currentTerm ∧
      r.advanceLeaderCommitIndex = { r with commitIndex := r.quorumIndex } := by
  unfold advanceLeaderCommitIndex
  split
  · exact .inl rfl
  · rename_i hrole
    split
    · exact .inl rfl
    · rename_i hnewer
      split
      · rename_i hentry
        obtain ⟨entry, hat, hterm⟩ := (Option.any_eq_true _ _).mp hentry
        exact .inr ⟨entry, not_not.mp hrole, not_le.mp hnewer, hat, of_decide_eq_true hterm, rfl⟩
      · exact .inl rfl

theorem advanceLeaderCommitIndex_logInv (h : LogInv r) :
    LogInv r.advanceLeaderCommitIndex ∧ Keeps r r.advanceLeaderCommitIndex := by
  rcases r.advanceLeaderCommitIndex_cases with hsame | ⟨entry, -, hnewer, hat, -, hadvance⟩
  · rw [hsame]
    exact ⟨h, .refl r⟩
  · rw [hadvance]
    exact ⟨⟨h.consecutive, h.snapshot_le.trans hnewer.le,
        le_lastLogIndex_of_entryAt h.consecutive hat⟩,
      ⟨hnewer.le, le_rfl, fun _ _ => .inl rfl⟩⟩

theorem refreshLeaderLeaseIfQuorum_sameLog (r : RaftCore C) (now : Nat) :
    SameLog r (r.refreshLeaderLeaseIfQuorum now) := by
  obtain ⟨deadline, heq⟩ := exists_refreshLeaderLeaseIfQuorum_eq r now
  rw [heq]
  exact ⟨rfl, rfl, rfl, rfl⟩

theorem setMatchIndex_sameLog (r : RaftCore C) (server index : Nat) :
    SameLog r (r.setMatchIndex server index) := ⟨rfl, rfl, rfl, rfl⟩

theorem pushLocalEntry_logInv (h : LogInv r) {entry : LogEntry C}
    (hidx : entry.index = r.lastLogIndex + 1) :
    LogInv (r.pushLocalEntry entry) ∧ Keeps r (r.pushLocalEntry entry) := by
  have hpush := (pushEntry_tailChange h entry hidx).1
  have hmatch := setMatchIndex_sameLog (r.pushEntry entry) r.serverId entry.index
  obtain ⟨hinv, hkeeps⟩ := advanceLeaderCommitIndex_logInv (hmatch.logInv hpush.logInv)
  exact ⟨hinv, hpush.keeps.trans (hmatch.keeps.trans hkeeps)⟩

theorem appendLocalEntry_logInv (h : LogInv r) (hbound : r.lastLogIndex < u64Max) (cmd : C) :
    LogInv (r.appendLocalEntry cmd).2 ∧ Keeps r (r.appendLocalEntry cmd).2 := by
  unfold appendLocalEntry
  split
  · exact ⟨h, .refl r⟩
  · exact pushLocalEntry_logInv h (saturatingAdd_one_of_lt hbound)

theorem appendExistingLocalEntry_logInv (h : LogInv r)
    (hbound : r.lastLogIndex < u64Max) (entry : LogEntry C) :
    LogInv (r.appendExistingLocalEntry entry).2 ∧ Keeps r (r.appendExistingLocalEntry entry).2 := by
  rcases r.appendExistingLocalEntry_cases entry with hsame | ⟨-, hidx, -, hpush⟩
  · rw [hsame]
    exact ⟨h, .refl r⟩
  · rw [saturatingAdd_one_of_lt hbound] at hidx
    rw [hpush]
    exact pushLocalEntry_logInv h hidx

theorem recordReplicationMatch_logInv (h : LogInv r) (server matchIndex now : Nat) :
    LogInv (r.recordReplicationMatch server matchIndex now).2 ∧
      Keeps r (r.recordReplicationMatch server matchIndex now).2 := by
  unfold recordReplicationMatch
  split
  · exact ⟨h, .refl r⟩
  · split
    · exact ⟨h, .refl r⟩
    · have hmatch := setMatchIndex_sameLog r server matchIndex
      obtain ⟨hinv, hkeeps⟩ := advanceLeaderCommitIndex_logInv (hmatch.logInv h)
      have hlease := refreshLeaderLeaseIfQuorum_sameLog
        (r.setMatchIndex server matchIndex).advanceLeaderCommitIndex now
      exact ⟨hlease.logInv hinv, hmatch.keeps.trans (hkeeps.trans hlease.keeps)⟩

/-! ## Elections leave the log alone -/

theorem startElection_sameLog (r : RaftCore C) : SameLog r r.startElection.2 := by
  obtain ⟨store, heq, -⟩ := startElection_cases r
  rw [heq]
  exact ⟨rfl, rfl, rfl, rfl⟩

theorem becomeLeader_sameLog (r : RaftCore C) (now : Nat) : SameLog r (r.becomeLeader now) := by
  obtain ⟨deadline, heq⟩ := exists_becomeLeader_eq r now
  rw [heq]
  exact ⟨rfl, rfl, rfl, rfl⟩

theorem requestVote_sameLog (r : RaftCore C) (req : RequestVoteRequest) :
    SameLog r (r.requestVote req).2 := by
  obtain ⟨r₁, -, hlog, -, ⟨heq, -⟩ | ⟨-, heq⟩⟩ := requestVote_cases r req
  · rwa [heq]
  · rw [heq]
    rcases castVote_cases r₁ req with hrefuse | ⟨-, -, store, hcast, -⟩
    · rwa [hrefuse]
    · rw [hcast]
      exact ⟨hlog.shardId, hlog.log, hlog.snapshot, hlog.commitIndex⟩

theorem recordVoteResponse_sameLog (r : RaftCore C) (voterId : Nat)
    (resp : RequestVoteResponse) (now : Nat) :
    SameLog r (r.recordVoteResponse voterId resp now).2 := by
  rcases recordVoteResponse_cases r voterId resp now with
    (⟨-, hlog, -⟩ | hsame) | ⟨-, -, hcount | ⟨-, hwon⟩⟩
  · exact hlog
  · rw [hsame]
    exact .refl r
  · rw [hcount]
    exact ⟨rfl, rfl, rfl, rfl⟩
  · rw [hwon]
    have hcount : SameLog r (r.countVote voterId resp) := ⟨rfl, rfl, rfl, rfl⟩
    exact hcount.trans (becomeLeader_sameLog _ now)

end Neo4r.Raft.RaftCore
