/-
  `Raft.SnapshotInstall`: snapshots that a leader sends to a follower
  (`install_snapshot` in `neo4r-db/src/raft.rs`).

  A snapshot stands for the leader's log up to an index.  A follower that installs it drops
  the entries it covers and keeps the others, without looking at the terms; and a snapshot
  older than its own it acknowledges with the index of its own.
-/
import Neo4r.Raft.LocalInvariant

set_option autoImplicit false

namespace Neo4r.Raft

open Foundation

namespace RaftCore

variable {C : Type} {r r' : RaftCore C}

/-- What a follower owes for an answer of success to a snapshot, against the terms of the
leader's log: entries after a conflicting one are discarded, entries after a matching one are
kept, and its state agrees with the leader's log at the index it answers with. -/
structure Installed (leaderTerms : Nat → Option Nat) (metadata : RaftSnapshotMetadata)
    (r r' : RaftCore C) (response : InstallSnapshotResponse) : Prop where
  discarded : ∀ entry, r.entryAt metadata.lastIncludedIndex = some entry →
    entry.term ≠ metadata.lastIncludedTerm →
    ∀ later ∈ r'.log, later.index ≤ metadata.lastIncludedIndex
  retained : ∀ entry, r.entryAt metadata.lastIncludedIndex = some entry →
    entry.term = metadata.lastIncludedTerm →
    r'.log = r.log.filter fun later => later.index > metadata.lastIncludedIndex
  covered : response.lastIncludedIndex = r'.snapshotIndex ∧
    leaderTerms r'.snapshotIndex = some r'.snapshotTerm

/-- No entry follows a conflicting one, and a snapshot that the follower has already passed
finds its own snapshot in the leader's log and no entry that it matches. -/
def Installable (leaderTerms : Nat → Option Nat) (metadata : RaftSnapshotMetadata)
    (r : RaftCore C) : Prop :=
  (∀ entry, r.entryAt metadata.lastIncludedIndex = some entry →
    entry.term ≠ metadata.lastIncludedTerm →
    ∀ later ∈ r.log, later.index ≤ metadata.lastIncludedIndex) ∧
  (metadata.lastIncludedIndex < r.snapshotIndex →
    leaderTerms r.snapshotIndex = some r.snapshotTerm ∧
      ∀ entry, r.entryAt metadata.lastIncludedIndex = some entry →
        entry.term ≠ metadata.lastIncludedTerm)

/-- The follower after an installation: the snapshot is adopted on the log it had. -/
theorem installSnapshot_ok {req : InstallSnapshotRequest} {resp : InstallSnapshotResponse}
    (h : r.installSnapshot req = (.ok resp, r')) (hsucc : resp.success = true) :
    ∃ follower : RaftCore C, SameLog r follower ∧ r' = follower.adoptSnapshot req.metadata ∧
      resp.lastIncludedIndex = r'.snapshotIndex := by
  unfold installSnapshot at h
  split at h
  · cases h
    cases hsucc
  · split at h
    · cases h
    · have hsame := (followLeader_spec r req.term req.leaderId).2.1
      split at h
      · cases h
      · next follower heq =>
        rw [heq] at hsame
        cases h
        exact ⟨follower, hsame, rfl, rfl⟩

/-- **An installed snapshot** discards what conflicts with it, keeps what continues it and is
acknowledged at an index where the follower agrees with the leader, exactly if no entry
follows a conflicting one and the follower has not passed it on another history. -/
theorem installSnapshot_installed_iff {request : InstallSnapshotRequest}
    {response : InstallSnapshotResponse} (leaderTerms : Nat → Option Nat)
    (h : r.installSnapshot request = (.ok response, r')) (hsuccess : response.success = true)
    (hleader : leaderTerms request.metadata.lastIncludedIndex =
      some request.metadata.lastIncludedTerm) :
    Installed leaderTerms request.metadata r r' response ↔
      Installable leaderTerms request.metadata r := by
  obtain ⟨follower, hsame, rfl, hindex⟩ := installSnapshot_ok h hsuccess
  have hsnapshot := snapshotIndex_congr hsame.snapshot
  have hterm : follower.snapshotTerm = r.snapshotTerm := by
    rw [snapshotTerm, snapshotTerm, hsame.snapshot]
  rw [adoptSnapshot] at hindex ⊢
  by_cases hnewer : request.metadata.lastIncludedIndex ≥ follower.snapshotIndex
  · rw [if_pos hnewer] at hindex ⊢
    constructor
    · intro hinstalled
      refine ⟨fun entry hat hne later hlater => ?_, fun holder => ?_⟩
      · -- an entry above the snapshot would have been kept
        by_contra hgt
        refine hgt (hinstalled.discarded entry hat hne later ?_)
        rw [← hsame.log] at hlater
        exact List.mem_filter.mpr ⟨hlater, decide_eq_true (not_le.mp hgt)⟩
      · omega
    · rintro ⟨hdiscarded, -⟩
      refine ⟨fun entry hat hne later hlater => ?_, fun entry _ _ => ?_, hindex, hleader⟩
      · have hin := List.mem_of_mem_filter hlater
        rw [hsame.log] at hin
        exact hdiscarded entry hat hne later hin
      · exact congrArg (List.filter _) hsame.log
  · rw [if_neg hnewer] at hindex ⊢
    have hpast : request.metadata.lastIncludedIndex < r.snapshotIndex := by omega
    constructor
    · intro hinstalled
      refine ⟨hsame.log ▸ hinstalled.discarded, fun _ => ⟨?_, fun entry hat heq => ?_⟩⟩
      · rw [← hsnapshot, ← hterm]
        exact hinstalled.covered.2
      · -- the matching entry itself is still in the log
        have hlog := hinstalled.retained entry hat heq
        rw [hsame.log] at hlog
        have hmem := List.mem_of_find?_eq_some hat
        rw [hlog] at hmem
        have hgt := of_decide_eq_true (List.mem_filter.mp hmem).2
        have hat := List.find?_some hat
        simp only [decide_eq_true_eq] at hat
        omega
    · rintro ⟨hdiscarded, hpassed⟩
      obtain ⟨hcovered, hconflicts⟩ := hpassed hpast
      refine ⟨hsame.log ▸ hdiscarded, fun entry hat heq => absurd heq (hconflicts entry hat),
        hindex, ?_⟩
      rw [hsnapshot, hterm]
      exact hcovered

end RaftCore

/-- A follower of term 2 with two entries of term 1. -/
def divergedFollower : RaftCore Nat :=
  { singleCore with
    persistent := ⟨2, none⟩
    log := [LogEntry.new 0 1 1 7, LogEntry.new 0 1 2 8] }

/-- The snapshot of a leader of term 2, up to an index and a term. -/
def snapshotUpTo (index term : Nat) : InstallSnapshotRequest := ⟨2, 3, ⟨0, term, index⟩, []⟩

theorem installSnapshot_installed_matching :
    RaftCore.Installed (fun _ => some 1) (snapshotUpTo 1 1).metadata divergedFollower
      (divergedFollower.installSnapshot (snapshotUpTo 1 1)).2 ⟨2, true, 1⟩ := by
  have hinstall : divergedFollower.installSnapshot (snapshotUpTo 1 1) =
      (.ok ⟨2, true, 1⟩, (divergedFollower.installSnapshot (snapshotUpTo 1 1)).2) := rfl
  refine (RaftCore.installSnapshot_installed_iff (fun _ => some 1) hinstall rfl rfl).mpr ⟨?_, ?_⟩
  · intro entry hat hne
    cases hat
    exact absurd rfl hne
  · exact fun hpassed => absurd hpassed (Nat.not_lt_zero _)

/-- An entry after a conflicting one stays in the log. -/
theorem conflicting_history_kept :
    ∃ response, (divergedFollower.installSnapshot (snapshotUpTo 1 2)).1 = .ok response ∧
      response.success = true ∧ divergedFollower.entryAt 1 = some (LogEntry.new 0 1 1 7) ∧
      (divergedFollower.installSnapshot (snapshotUpTo 1 2)).2.log = [LogEntry.new 0 1 2 8] :=
  ⟨⟨2, true, 1⟩, rfl, rfl, rfl, rfl⟩

end Neo4r.Raft
