/-
  `Raft.LeaderCommit`: the rule by which a leader commits
  (`advance_leader_commit_index` in `neo4r-db/src/raft.rs`).

  The program tries only the match indexes that voters have reported, takes the largest one
  that a quorum has reached, and looks at the term of the entry there.  On a log without
  holes, whose terms do not decrease and do not pass the current term, this finds the
  greatest index that the rule of Raft allows.
-/
import Neo4r.Raft.LocalInvariant

set_option autoImplicit false

namespace Neo4r.Raft

open Foundation List

namespace RaftCore

variable {C : Type} {r : RaftCore C}

/-! ## The search -/

/-- The loop of `advance_leader_commit_index`: the match indexes of the voters in descending
order, up to the first that a quorum has reached. -/
def scanMatched (r : RaftCore C) : Nat :=
  ((((r.membership.allVoters.sort (· ≤ ·)).map r.matchIndexOf).insertionSort (· ≥ ·)).find?
    fun candidate => r.membership.hasQuorum (r.matchedVoters candidate)).getD 0

theorem quorumIndex_eq_scanMatched (r : RaftCore C) : r.quorumIndex = r.scanMatched := by
  have hsorted := pairwise_insertionSort (· ≥ ·)
    ((r.membership.allVoters.sort (· ≤ ·)).map r.matchIndexOf)
  have hmem (candidate : Nat) :
      candidate ∈ ((r.membership.allVoters.sort (· ≤ ·)).map r.matchIndexOf).insertionSort
        (· ≥ ·) ↔ candidate ∈ r.membership.allVoters.image r.matchIndexOf := by
    simp
  unfold scanMatched
  generalize ((r.membership.allVoters.sort (· ≤ ·)).map r.matchIndexOf).insertionSort (· ≥ ·) =
    candidates at hsorted hmem ⊢
  cases hfound : candidates.find? fun candidate =>
      r.membership.hasQuorum (r.matchedVoters candidate) with
  | none =>
    rw [find?_eq_none] at hfound
    have hnone : ((r.membership.allVoters.image r.matchIndexOf).filter fun candidate =>
        r.membership.hasQuorum (r.matchedVoters candidate)) = ∅ :=
      Finset.filter_eq_empty_iff.mpr fun candidate hin => hfound candidate
        ((hmem candidate).mpr hin)
    rw [quorumIndex, hnone]
    rfl
  | some found =>
    obtain ⟨hquorum, before, after, rfl, hbefore⟩ := find?_eq_some_iff_append.mp hfound
    rw [pairwise_append, pairwise_cons] at hsorted
    refine Nat.le_antisymm (Finset.sup_le fun candidate hin => ?_) (Finset.le_sup (f := id) ?_)
    · obtain ⟨hin, hreached⟩ := Finset.mem_filter.mp hin
      rcases mem_append.mp ((hmem candidate).mpr hin) with hearlier | hlater
      · have hnot := hbefore candidate hearlier
        rw [hreached] at hnot
        cases hnot
      · rcases mem_cons.mp hlater with rfl | hafter
        · exact le_rfl
        · exact hsorted.2.1.1 candidate hafter
    · exact Finset.mem_filter.mpr ⟨(hmem found).mp (mem_append_right _ (.head _)), hquorum⟩

/-- No index above the one found has been reached by a quorum. -/
theorem le_quorumIndex {index : Nat}
    (h : r.membership.hasQuorum (r.matchedVoters index) = true) : index ≤ r.quorumIndex := by
  have hmaj := ((RaftMembership.hasQuorum_iff _ _).mp h).1
  have hne : (r.matchedVoters index).Nonempty := by
    obtain ⟨v, -, hv, -⟩ := hmaj.exists_mem_both hmaj
    exact ⟨v, hv⟩
  -- the least match index of the quorum was reported, and all of the quorum has reached it
  obtain ⟨voter, hvoter, hleast⟩ := Finset.exists_min_image _ r.matchIndexOf hne
  obtain ⟨hall, hreached⟩ := Finset.mem_filter.mp hvoter
  refine le_trans hreached (Finset.le_sup (f := id) (Finset.mem_filter.mpr ?_))
  refine ⟨Finset.mem_image_of_mem _ hall, RaftMembership.hasQuorum_mono h fun v hv => ?_⟩
  exact Finset.mem_filter.mpr ⟨(Finset.mem_filter.mp hv).1, hleast v hv⟩

/-! ## The rule -/

/-- The indexes a leader may commit: the entry has the current term, and the voters whose
match index reaches it are a quorum of every active voter set. -/
def committable (r : RaftCore C) : Finset Nat :=
  ((r.log.filter fun entry => entry.term = r.currentTerm).map LogEntry.index).toFinset.filter
    fun index => r.membership.hasQuorum (r.matchedVoters index)

theorem mem_committable {index : Nat} : index ∈ r.committable ↔
    (∃ entry ∈ r.log, entry.term = r.currentTerm ∧ entry.index = index) ∧
      r.membership.hasQuorum (r.matchedVoters index) = true := by
  simp [committable, and_assoc]

/-- A leader state with a log without holes, whose terms do not decrease and do not pass the
current term, and with match indexes inside the log. -/
structure Leads (r : RaftCore C) (base : Nat) : Prop where
  role : r.role = .leader
  consecutive : Consecutive LogEntry.index base r.log
  terms : r.log.Pairwise fun entry later => entry.term ≤ later.term
  current : ∀ entry ∈ r.log, entry.term ≤ r.currentTerm
  matched : ∀ voter ∈ r.membership.allVoters, r.matchIndexOf voter ≤ r.lastLogIndex

variable {base : Nat}

/-- An entry that may be committed stands at or before the entry of the index found. -/
theorem Leads.exists_entryAt (h : r.Leads base) {entry : LogEntry C} (hentry : entry ∈ r.log)
    (hle : entry.index ≤ r.quorumIndex) :
    ∃ found, r.entryAt r.quorumIndex = some found ∧ entry.term ≤ found.term := by
  have hlast : r.lastLogIndex = base + r.log.length := by
    rw [← h.consecutive.getLast?_key, lastLogIndex, getLast?_eq_some_getLast (ne_nil_of_mem hentry)]
    rfl
  have hquorum : r.quorumIndex ≤ r.lastLogIndex := by
    refine Finset.sup_le fun candidate hin => ?_
    obtain ⟨voter, hvoter, rfl⟩ := Finset.mem_image.mp (Finset.mem_filter.mp hin).1
    exact h.matched voter hvoter
  obtain ⟨i, hi⟩ := mem_iff_getElem?.mp hentry
  have hkey := h.consecutive.key_getElem? hi
  have hlt : r.quorumIndex - base - 1 < r.log.length := by omega
  refine ⟨r.log[r.quorumIndex - base - 1], ?_, ?_⟩
  · rw [entryAt, h.consecutive.find?_key, if_pos (by omega), getElem?_eq_getElem hlt]
  · obtain ⟨hlt', rfl⟩ := List.getElem?_eq_some_iff.mp hi
    rcases Nat.eq_or_lt_of_le (show i ≤ r.quorumIndex - base - 1 by omega) with heq | hbefore
    · subst heq
      exact le_rfl
    · exact pairwise_iff_getElem.mp h.terms _ _ hlt' hlt hbefore

theorem Leads.advanceLeaderCommitIndex (h : r.Leads base) :
    r.advanceLeaderCommitIndex.commitIndex = max r.commitIndex (r.committable.sup id) := by
  have hle : ∀ index ∈ r.committable, index ≤ r.quorumIndex :=
    fun index hin => le_quorumIndex (mem_committable.mp hin).2
  rw [RaftCore.advanceLeaderCommitIndex, if_neg (not_not.mpr h.role)]
  split
  · next hold =>
    exact (Nat.max_eq_left (Finset.sup_le fun index hin => (hle index hin).trans hold)).symm
  · next hnewer =>
    split
    · next hentry =>
      obtain ⟨entry, hat, hterm⟩ := (Option.any_eq_true _ _).mp hentry
      have hin : r.quorumIndex ∈ r.committable :=
        mem_committable.mpr ⟨⟨entry, mem_of_find?_eq_some hat, of_decide_eq_true hterm,
          by simpa using find?_some hat⟩, r.quorumIndex_spec (by omega)⟩
      have hsup : r.committable.sup id = r.quorumIndex :=
        Nat.le_antisymm (Finset.sup_le hle) (Finset.le_sup (f := id) hin)
      rw [hsup]
      exact (Nat.max_eq_right (Nat.le_of_not_le hnewer)).symm
    · next hother =>
      -- the entry there is of an older term, and so is every entry before it
      refine (Nat.max_eq_left (Finset.sup_le fun index hin => ?_)).symm
      obtain ⟨⟨entry, hentry, hterm, rfl⟩, -⟩ := mem_committable.mp hin
      obtain ⟨found, hat, hfound⟩ := h.exists_entryAt hentry (hle _ hin)
      have hbound := h.current found (mem_of_find?_eq_some hat)
      rw [hat, Option.any_some, decide_eq_true_eq] at hother
      exact absurd (Nat.le_antisymm hbound (hterm ▸ hfound)) hother

/-- **The commit rule of a leader.**  When the match index of a member has been recorded, the
commit index is the larger of the old one and the greatest index whose entry has the current
term and that a quorum of every active voter set has matched. -/
theorem recordReplicationMatch_commitIndex {serverId matchIndex now : Nat}
    (hmember : r.membership.isMember serverId = true)
    (h : (r.setMatchIndex serverId matchIndex).Leads base) :
    (r.recordReplicationMatch serverId matchIndex now).1 =
        .ok (max r.commitIndex ((r.setMatchIndex serverId matchIndex).committable.sup id)) ∧
      (r.recordReplicationMatch serverId matchIndex now).2.commitIndex =
        max r.commitIndex ((r.setMatchIndex serverId matchIndex).committable.sup id) := by
  have hrole : r.role = .leader := h.role
  have hcommit := h.advanceLeaderCommitIndex
  have hlease := (refreshLeaderLeaseIfQuorum_sameLog
    (r.setMatchIndex serverId matchIndex).advanceLeaderCommitIndex now).commitIndex
  rw [recordReplicationMatch, if_neg (not_not.mpr hrole), if_neg (by rw [hmember]; decide)]
  dsimp only
  rw [hlease, hcommit]
  exact ⟨rfl, rfl⟩

end RaftCore

/-- Server 1 leads term 2 while the voters change from 1, 2, 3 to 1, 3, 4.  It has matched three
entries, of which the first is of term 1, and server 2 has matched two. -/
def jointLeader : RaftCore Nat :=
  { singleCore with
    role := .leader, persistent := ⟨2, some 1⟩
    log := [LogEntry.new 0 1 1 7, LogEntry.new 0 2 2 8, LogEntry.new 0 2 3 9]
    membership := ⟨{1, 3, 4}, some {1, 2, 3}, ∅⟩
    matchIndexes := fun serverId =>
      if serverId = 1 then some 3 else if serverId = 2 then some 2 else none }

/-- Server 3 has matched two entries, which makes a quorum of both sets of voters. -/
theorem recordReplicationMatch_commitIndex_joint :
    (jointLeader.setMatchIndex 3 2).committable.sup id = 2 ∧
      (jointLeader.recordReplicationMatch 3 2 0).2.commitIndex =
        max 0 ((jointLeader.setMatchIndex 3 2).committable.sup id) := by
  have hleads : (jointLeader.setMatchIndex 3 2).Leads 0 :=
    ⟨rfl, by decide, by decide, by decide, by decide⟩
  exact ⟨by decide, (RaftCore.recordReplicationMatch_commitIndex (by decide) hleads).2⟩

/-- The only voter leads term 1, with entries of the given terms. -/
def leaderWithTerms (terms : List Nat) : RaftCore Nat :=
  { singleCore with
    role := .leader, persistent := ⟨1, some 1⟩
    log := terms.mapIdx fun i term => LogEntry.new 0 term (i + 1) 7 }

/-- Where the log goes on with terms above the current one, an entry of the current term that
a quorum has matched is not committed. -/
theorem later_term_hides_committable :
    ∃ r : RaftCore Nat, r.role = .leader ∧ Consecutive LogEntry.index 0 r.log ∧
      (r.log.Pairwise fun entry later => entry.term ≤ later.term) ∧
      (∀ voter ∈ r.membership.allVoters,
        (r.setMatchIndex 1 2).matchIndexOf voter ≤ r.lastLogIndex) ∧
      (r.recordReplicationMatch 1 2 0).2.commitIndex = 0 ∧
      max r.commitIndex ((r.setMatchIndex 1 2).committable.sup id) = 1 :=
  ⟨leaderWithTerms [1, 5], rfl, by decide, by decide, by decide, by decide, by decide⟩

end Neo4r.Raft
