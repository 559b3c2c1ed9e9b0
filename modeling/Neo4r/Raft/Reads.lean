/-
  `Raft.Reads`: what a strong read of a Raft leader is worth.

  `read_index` and `leader_lease_read_index` answer from the leader's own memory: the
  match indexes it has recorded and the lease it was granted.  Neither is tied to the
  leader's term, and no vote is refused while a lease runs, so a deposed leader goes on
  answering.  An answer is up to date if nobody has won a later election and the leader
  has committed what it inherited.

  The state adds to the replicating servers a clock that all of them read, and the term
  in which each server's present lease was granted.
-/
import Neo4r.Raft.StateMachineSafety

set_option autoImplicit false

namespace Neo4r.Raft

open Foundation Cluster
open Foundation.ReplicatedLog (State Inv)

variable {C : Type}

/-! ## Leases of one server -/

namespace RaftCore

variable {core core' : RaftCore C}

/-- The lease is gone, or the server leads in the term it led in before. -/
def LeaseStep (core core' : RaftCore C) : Prop :=
  core'.leaseDeadline = none ∨
    core'.role = .leader ∧ (core.role = .leader → core'.currentTerm = core.currentTerm)

theorem LeaseStep.of_same (hidle : core.role ≠ .leader → core.leaseDeadline = none)
    (hrole : core'.role = core.role) (hterm : core'.currentTerm = core.currentTerm)
    (hlease : core'.leaseDeadline = core.leaseDeadline) : LeaseStep core core' := by
  by_cases hlead : core.role = .leader
  · exact .inr ⟨hrole.trans hlead, fun _ => hterm⟩
  · exact .inl (hlease.trans (hidle hlead))

theorem pushLocalEntry_leaseDeadline (core : RaftCore C) (entry : LogEntry C) :
    (core.pushLocalEntry entry).leaseDeadline = core.leaseDeadline := by
  unfold pushLocalEntry
  rcases ((core.pushEntry entry).setMatchIndex core.serverId
    entry.index).advanceLeaderCommitIndex_cases with hsame | ⟨_, -, -, -, -, hadvance⟩
  · rw [hsame]
    rfl
  · rw [hadvance]
    rfl

section

variable (core) (hidle : core.role ≠ .leader → core.leaseDeadline = none)

include hidle

theorem requestVote_leaseStep (req : RequestVoteRequest) :
    LeaseStep core (core.requestVote req).2 := by
  obtain ⟨r₁, -, -, hrole, hcases⟩ := core.requestVote_cases req
  have hstep : ∀ r, r.role = r₁.role → r.currentTerm = r₁.currentTerm →
      r.leaseDeadline = r₁.leaseDeadline → LeaseStep core r := by
    intro r hr hterm hlease
    rcases hrole with rfl | ⟨-, hnone⟩
    · exact .of_same hidle hr hterm hlease
    · exact .inl (hlease.trans hnone)
  rcases hcases with ⟨heq, -⟩ | ⟨-, heq⟩
  · rw [heq]
    exact hstep r₁ rfl rfl rfl
  · rw [heq]
    rcases r₁.castVote_cases req with hrefuse | ⟨-, -, store, hcast, -⟩
    · rw [hrefuse]
      exact hstep r₁ rfl rfl rfl
    · rw [hcast]
      exact hstep _ rfl rfl rfl

theorem recordVoteResponse_leaseStep (voterId : Nat) (resp : RequestVoteResponse) (now : Nat) :
    LeaseStep core (core.recordVoteResponse voterId resp now).2 := by
  rcases core.recordVoteResponse_cases voterId resp now with
    (⟨-, -, -, -, hlease⟩ | hsame) | ⟨hrole, -, hcount | ⟨-, hwon⟩⟩
  · exact .inl hlease
  · rw [hsame]
    exact .of_same hidle rfl rfl rfl
  · rw [hcount]
    exact .of_same hidle rfl rfl rfl
  · obtain ⟨deadline, heq⟩ := (core.countVote voterId resp).exists_becomeLeader_eq now
    rw [hwon, heq]
    refine .inr ⟨rfl, fun hlead => ?_⟩
    rw [hrole] at hlead
    cases hlead

/-- A server that follows a leader has no lease. -/
theorem followLeader_leaseDeadline (term leaderId : Nat) :
    (core.followLeader term leaderId).2.leaseDeadline = none := by
  have hlease := core.stepDown_leaseDeadline term
  unfold followLeader
  split
  · split <;> rename_i heq <;> rw [heq] at hlease <;> exact hlease
  · rename_i hstay
    push Not at hstay
    refine hidle ?_
    rw [hstay.2]
    exact fun heq => nomatch heq

theorem appendEntries_leaseStep (req : AppendEntriesRequest C) :
    LeaseStep core (core.appendEntries req).2 := by
  have hfollow := core.followLeader_leaseDeadline hidle req.term req.leaderId
  unfold appendEntries
  split
  · exact .of_same hidle rfl rfl rfl
  · split
    · rename_i heq
      rw [heq] at hfollow
      exact .inl hfollow
    · rename_i r' heq
      rw [heq] at hfollow
      obtain ⟨log, commitIndex, hcheck⟩ := r'.exists_checkPrevious_eq req
      rw [hcheck]
      exact .inl hfollow

theorem installSnapshot_leaseStep (req : InstallSnapshotRequest) :
    LeaseStep core (core.installSnapshot req).2 := by
  have hfollow := core.followLeader_leaseDeadline hidle req.term req.leaderId
  unfold installSnapshot
  split
  · exact .of_same hidle rfl rfl rfl
  · split
    · exact .of_same hidle rfl rfl rfl
    · split
      · rename_i heq
        rw [heq] at hfollow
        exact .inl hfollow
      · rename_i r' heq
        rw [heq] at hfollow
        refine .inl ?_
        unfold adoptSnapshot
        split <;> exact hfollow

theorem compactLogToSnapshot_leaseStep (metadata : RaftSnapshotMetadata) :
    LeaseStep core (core.compactLogToSnapshot metadata).2 := by
  unfold compactLogToSnapshot
  split
  · exact .of_same hidle rfl rfl rfl
  · split <;> exact .of_same hidle rfl rfl rfl

theorem appendLocalEntry_leaseStep (cmd : C) : LeaseStep core (core.appendLocalEntry cmd).2 := by
  have hvotes := core.appendLocalEntry_sameVotes cmd
  refine .of_same hidle hvotes.role hvotes.currentTerm_eq ?_
  unfold appendLocalEntry
  split
  · rfl
  · exact pushLocalEntry_leaseDeadline core _

theorem appendExistingLocalEntry_leaseStep (entry : LogEntry C) :
    LeaseStep core (core.appendExistingLocalEntry entry).2 := by
  have hvotes := core.appendExistingLocalEntry_sameVotes entry
  refine .of_same hidle hvotes.role hvotes.currentTerm_eq ?_
  rcases core.appendExistingLocalEntry_cases entry with hsame | ⟨-, -, -, hpush⟩
  · rw [hsame]
  · rw [hpush]
    exact pushLocalEntry_leaseDeadline core _

theorem recordReplicationMatch_leaseStep (server matchIndex now : Nat) :
    LeaseStep core (core.recordReplicationMatch server matchIndex now).2 := by
  have hvotes := core.recordReplicationMatch_sameVotes server matchIndex now
  by_cases hlead : core.role = .leader
  · exact .inr ⟨hvotes.role.trans hlead, fun _ => hvotes.currentTerm_eq⟩
  · refine .inl ?_
    unfold recordReplicationMatch
    rw [if_pos hlead]
    exact hidle hlead

end

/-- Both reads answer with the commit index of a leader. -/
theorem eq_commitIndex_of_read {c now : Nat}
    (h : core.readIndex = .ok c ∨ core.leaderLeaseReadIndex now = .ok c) :
    core.role = .leader ∧ c = core.commitIndex := by
  have hread : core.readIndex = .ok c → core.role = .leader ∧ c = core.commitIndex := by
    intro h
    unfold readIndex at h
    split at h
    · cases h
    · rename_i hrole
      split at h
      · cases h
        exact ⟨not_not.mp hrole, rfl⟩
      · cases h
  rcases h with h | h
  · exact hread h
  · unfold leaderLeaseReadIndex at h
    dsimp only at h
    split at h
    · cases h
    · rename_i hrole
      split at h
      · cases h
      · split at h
        · cases h
          exact ⟨not_not.mp hrole, rfl⟩
        · exact hread h

end RaftCore

/-! ## The system with a clock -/

/-- The replicating servers, the time, and the term of each server's present lease. -/
structure ReadState (C : Type) where
  replication : Replication C
  clock : Nat
  leaseTerm : Nat → Option Nat

/-- The instant a server reads from its clock during an event. -/
def ReplicationEvent.instant : ReplicationEvent C → Option Nat
  | .cluster (.recordVoteResponse _ _ now _) => some now
  | .recordMatch _ _ now => some now
  | _ => none

/-- The term of a lease after an event: a deadline that has changed is a new lease. -/
def leaseTermAfter (before after : Option (RaftCore C)) (term : Option Nat) : Option Nat :=
  match after with
  | none => none
  | some core =>
    if core.leaseDeadline = none then none
    else if before.bind (·.leaseDeadline) = core.leaseDeadline then term
    else some core.currentTerm

namespace ReadState

def next (voters : Finset Nat) (shardId : Nat) (s : ReadState C) (e : ReplicationEvent C) :
    ReadState C :=
  let replication := s.replication.next voters shardId e
  { replication
    clock := e.instant.getD s.clock
    leaseTerm := fun id => leaseTermAfter (s.replication.cluster.core? id)
      (replication.cluster.core? id) (s.leaseTerm id) }

/-- Time does not run backwards. -/
def enabled (s : ReadState C) (e : ReplicationEvent C) : Bool :=
  s.replication.enabled e && e.instant.all fun now => s.clock ≤ now

def machine (C : Type) (voters : Finset Nat) (shardId : Nat) :
    Machine (ReadState C) (ReplicationEvent C) where
  init s := s.replication.Fresh ∧ s.leaseTerm = fun _ => none
  enabled s e := s.enabled e = true
  next s e := s.next voters shardId e

instance (voters : Finset Nat) (shardId : Nat) (s : ReadState C) (e : ReplicationEvent C) :
    Decidable ((machine C voters shardId).enabled s e) :=
  inferInstanceAs (Decidable (_ = true))

/-- A server that leads does not start an election. -/
def keepsLeading (s : ReadState C) : ReplicationEvent C → Bool
  | .cluster (.startElection id _) =>
    (s.replication.cluster.core? id).all fun core => core.role ≠ .leader
  | _ => true

/-- The system restricted to sound steps in which no leader starts an election. -/
def soundMachine (C : Type) [DecidableEq C] (voters : Finset Nat) (shardId : Nat) :
    Machine (ReadState C) (ReplicationEvent C) :=
  (machine C voters shardId).restrict fun s e =>
    s.replication.sound e = true ∧ s.keepsLeading e = true

instance [DecidableEq C] (voters : Finset Nat) (shardId : Nat) (s : ReadState C)
    (e : ReplicationEvent C) : Decidable ((soundMachine C voters shardId).enabled s e) :=
  inferInstanceAs (Decidable (_ ∧ _ = true ∧ _ = true))

end ReadState

/-! ## Leases belong to the present leadership -/

/-- Only leaders have a lease, and it was granted in their current term. -/
def LeaseInv (s : ReadState C) : Prop :=
  ∀ id core, s.replication.cluster.server id = .up core →
    (core.role ≠ .leader → core.leaseDeadline = none) ∧
    (core.leaseDeadline ≠ none → s.leaseTerm id = some core.currentTerm)

theorem Cluster.core?_eq_some {s : Cluster C} {id : Nat} {core : RaftCore C} :
    s.core? id = some core ↔ s.server id = .up core := by
  unfold core?
  cases s.server id <;> simp

/-- Every running server after an event has lost its lease, or has made a step that
keeps its leadership. -/
def LeaseSteps (s s' : Cluster C) : Prop :=
  ∀ id core', s'.server id = .up core' → core'.leaseDeadline = none ∨
    ∃ core, s.server id = .up core ∧ core.LeaseStep core'

section LeaseSteps

variable {s : Cluster C}
  (hidle : ∀ id core, s.server id = .up core → core.role ≠ .leader → core.leaseDeadline = none)

include hidle

theorem LeaseSteps.refl : LeaseSteps s s :=
  fun id core hup => .inr ⟨core, hup, .of_same (hidle id core hup) rfl rfl rfl⟩

variable {id : Nat}

theorem LeaseSteps.setCore {core core' : RaftCore C} (hup : s.server id = .up core)
    (hstep : core.LeaseStep core') : LeaseSteps s (s.setCore id core') :=
  forall_up_setCore (.inr ⟨core, hup, hstep⟩) (LeaseSteps.refl hidle)

theorem LeaseSteps.onCore {f : RaftCore C → Cluster C}
    (hf : ∀ core, s.server id = .up core → LeaseSteps s (f core)) :
    LeaseSteps s (s.onCore id f) :=
  onCore_cases (.refl hidle) hf

theorem LeaseSteps.boot (voters : Finset Nat) (shard id : Nat)
    (log : List (LogEntry C)) (snapshot : Option RaftSnapshotMetadata) (commitIndex : Nat) :
    LeaseSteps s (s.boot voters shard id log snapshot commitIndex) :=
  boot_cases (.refl hidle) fun _ _ _ hopen => forall_up_setCore
    (.inl (RaftCore.openWithLogAndSnapshot_opened hopen).leaseDeadline)
    (LeaseSteps.refl hidle)

/-- Every event, provided no leader starts an election. -/
theorem LeaseSteps.next (voters : Finset Nat) (shard : Nat) {e : ClusterEvent C}
    (hstart : ∀ id saves core, e = .startElection id saves → s.server id = .up core →
      core.role ≠ .leader) :
    LeaseSteps s (s.next voters shard e) := by
  cases e with
  | boot id log snapshot commitIndex =>
    exact .boot hidle voters shard id log snapshot commitIndex
  | crash =>
    exact .onCore hidle fun core hup =>
      forall_up_setServer (fun _ heq => nomatch heq) (LeaseSteps.refl hidle)
  | startElection id saves =>
    refine .onCore hidle fun core hup => ?_
    have hnone := hidle id core hup (hstart id saves core rfl hup)
    obtain ⟨store, heq, -⟩ := (core.withSaves saves).startElection_cases
    have hstep : core.LeaseStep (core.withSaves saves).startElection.2 := by
      rw [heq]
      exact .inl hnone
    unfold startElection
    split <;> rename_i hres <;> rw [hres] at hstep <;> exact LeaseSteps.setCore hidle hup hstep
  | requestVote voter req saves =>
    refine .onCore hidle fun core hup => ?_
    have hstep : core.LeaseStep ((core.withSaves saves).requestVote req).2 :=
      (core.withSaves saves).requestVote_leaseStep (hidle voter core hup) req
    unfold requestVote
    split <;> rename_i hres <;> rw [hres] at hstep <;> exact LeaseSteps.setCore hidle hup hstep
  | recordVoteResponse id reply now saves =>
    refine .onCore hidle fun core hup => ?_
    have hstep : core.LeaseStep
        ((core.withSaves saves).recordVoteResponse reply.voter reply.response now).2 :=
      (core.withSaves saves).recordVoteResponse_leaseStep (hidle id core hup) _ _ _
    unfold recordVoteResponse
    split <;> rename_i hres <;> rw [hres] at hstep <;> exact LeaseSteps.setCore hidle hup hstep
  | appendEntries id req saves =>
    refine .onCore hidle fun core hup => .setCore hidle hup ?_
    exact (core.withSaves saves).appendEntries_leaseStep (hidle id core hup) req
  | installSnapshot id req saves =>
    refine .onCore hidle fun core hup => .setCore hidle hup ?_
    exact (core.withSaves saves).installSnapshot_leaseStep (hidle id core hup) req
  | compactLogToSnapshot id metadata =>
    exact .onCore hidle fun core hup => .setCore hidle hup
      (core.compactLogToSnapshot_leaseStep (hidle id core hup) metadata)
  | appendLocalEntry id cmd =>
    exact .onCore hidle fun core hup => .setCore hidle hup
      (core.appendLocalEntry_leaseStep (hidle id core hup) cmd)
  | appendExistingLocalEntry id entry =>
    exact .onCore hidle fun core hup => .setCore hidle hup
      (core.appendExistingLocalEntry_leaseStep (hidle id core hup) entry)
  | recordReplicationMatch id server matchIndex now =>
    exact .onCore hidle fun core hup => .setCore hidle hup
      (core.recordReplicationMatch_leaseStep (hidle id core hup) server matchIndex now)

end LeaseSteps

variable {e : ReplicationEvent C}

theorem Replication.leaseSteps {s : Replication C}
    (hidle : ∀ id core, s.cluster.server id = .up core → core.role ≠ .leader →
      core.leaseDeadline = none) (voters : Finset Nat) (shard : Nat)
    (hstart : ∀ id saves core, e = .cluster (.startElection id saves) →
      s.cluster.server id = .up core → core.role ≠ .leader) :
    LeaseSteps s.cluster (s.next voters shard e).cluster := by
  have hother : ∀ event : ClusterEvent C, (∀ id saves, event ≠ .startElection id saves) →
      LeaseSteps s.cluster (s.cluster.next voters shard event) := fun event hne =>
    .next hidle voters shard fun id saves core heq _ => absurd heq (hne id saves)
  cases e with
  | cluster =>
    refine .next hidle voters shard fun id saves core heq hup => ?_
    exact hstart id saves core (by rw [heq]) hup
  | send =>
    dsimp only [Replication.next]
    split <;> exact .refl hidle
  | deliver | recordMatch =>
    dsimp only [Replication.next]
    split
    · exact hother _ fun _ _ heq => nomatch heq
    · exact .refl hidle

theorem LeaseInv.next {s : ReadState C} (h : LeaseInv s) (voters : Finset Nat) (shard : Nat)
    (hkeeps : s.keepsLeading e = true) : LeaseInv (s.next voters shard e) := by
  have hsteps := Replication.leaseSteps (s := s.replication) (fun id core hup => (h id core hup).1)
    voters shard (e := e) (by
      rintro id saves core rfl hup
      have hcore := core?_eq_some.mpr hup
      simpa [ReadState.keepsLeading, hcore] using hkeeps)
  intro id core' hup'
  have hcore' : (s.next voters shard e).replication.cluster.core? id = some core' :=
    core?_eq_some.mpr hup'
  have hterm : (s.next voters shard e).leaseTerm id =
      leaseTermAfter (s.replication.cluster.core? id) (some core') (s.leaseTerm id) :=
    congrArg (leaseTermAfter _ · _) hcore'
  rcases hsteps id core' hup' with hnone | ⟨core, hup, hnone | ⟨hlead, hsame⟩⟩
  · exact ⟨fun _ => hnone, fun hsome => absurd hnone hsome⟩
  · exact ⟨fun _ => hnone, fun hsome => absurd hnone hsome⟩
  · refine ⟨fun hnot => absurd hlead hnot, fun hsome => ?_⟩
    rw [hterm, leaseTermAfter, if_neg hsome, core?_eq_some.mpr hup, Option.bind_some]
    split
    · -- The deadline is an old one: then the server led before, in the same term.
      rename_i hold
      rw [← hold] at hsome
      have hled : core.role = .leader := by
        by_contra hnot
        exact hsome ((h id core hup).1 hnot)
      rw [(h id core hup).2 hsome, hsame hled]
    · rfl

variable {voters : Finset Nat} {shardId : Nat} {s : ReadState C}

theorem LeaseInv.of_fresh (h : s.replication.Fresh) : LeaseInv s := by
  intro id core hup
  obtain ⟨store, hdown⟩ := h.cluster.down id
  rw [hdown] at hup
  cases hup

variable [DecidableEq C]

theorem ReadState.reachable_spec (hs : (ReadState.soundMachine C voters shardId).Reachable s) :
    (Replication.soundMachine C voters shardId).Reachable s.replication ∧ LeaseInv s := by
  refine hs.invariant (P := fun s =>
    (Replication.soundMachine C voters shardId).Reachable s.replication ∧ LeaseInv s) ?_ ?_
  · exact fun s hinit => ⟨.start hinit.1, .of_fresh hinit.1⟩
  · rintro s e - ⟨hreach, hlease⟩ ⟨he, hsound, hkeeps⟩
    have he : s.enabled e = true := he
    rw [ReadState.enabled, Bool.and_eq_true] at he
    exact ⟨.step hreach ⟨he.1, hsound⟩, hlease.next voters shardId hkeeps⟩

/-- **Strong reads.**  In a run of sound steps in which no leader starts an election, a
read answered by a server is up to date if nobody has won the election of a later term
and the server has committed every entry it did not append in its own term: no server
has committed a higher index.  A lease the server holds was granted in its current
term. -/
theorem read_not_behind (hs : (ReadState.soundMachine C voters shardId).Reachable s) {id c : Nat}
    (now : Nat) {core : RaftCore C} (hup : s.replication.cluster.server id = .up core)
    (hlatest : ∀ winner ∈ s.replication.cluster.elected, winner.2 ≤ core.currentTerm)
    (hsettled : ∀ entry ∈ core.log, core.commitIndex < entry.index → entry.term = core.currentTerm)
    (hread : core.readIndex = .ok c ∨ core.leaderLeaseReadIndex now = .ok c) :
    (∀ j q, s.replication.cluster.server j = .up q → q.commitIndex ≤ c) ∧
      (core.leaseDeadline ≠ none → s.leaseTerm id = some core.currentTerm) := by
  obtain ⟨hreach, hlease⟩ := ReadState.reachable_spec hs
  refine ⟨fun j q hq => ?_, (hlease id core hup).2⟩
  obtain ⟨-, a, h⟩ := refines_of_reachable hreach
  obtain ⟨hrole, rfl⟩ := RaftCore.eq_commitIndex_of_read hread
  have hview := h.up id core hup
  rw [← (h.up j q hq).commit]
  rcases h.inv.commit_cert j with hzero | ⟨t, k, hcert, hin⟩
  · omega
  · have hle : a.commit j ≤ k := by
      have hlength := hin.length_le
      rw [List.length_take, List.length_take, Nat.min_eq_left (h.inv.commit_le j)] at hlength
      omega
    refine hle.trans ?_
    obtain ⟨winner, hwinner⟩ := Option.ne_none_iff_exists'.mp (h.inv.leader_of_cert hcert)
    rcases Nat.lt_or_eq_of_le (hlatest _ ((h.leader t winner).mp hwinner)) with hlt | rfl
    · -- A certificate of an earlier term is part of the reader's log, which has nothing
      -- of an earlier term above its commit index.
      obtain ⟨hpos, ⟨entry, hentry, hterm⟩, -⟩ := h.inv.cert t k hcert
      have hleader : a.leader core.currentTerm ≠ none := by
        rw [(hview.leading hrole).1]
        exact Option.some_ne_none id
      have hat : ((a.history t).take k)[k - 1]? = some entry := by
        rw [List.getElem?_take_of_lt (by omega), hentry]
      have hat := ReplicatedLog.getElem?_of_isPrefix (h.inv.cert_complete hcert hlt hleader) hat
      rw [hview.history_eq h.inv hrole] at hat
      have hindex := hview.logInv.consecutive.key_getElem? hat
      by_contra hgt
      have hnew := hsettled entry (List.mem_of_getElem? hat) (by
        omega)
      omega
    · exact (hview.leading hrole).2.2 k hcert

/-- Three servers that have never run, at time zero. -/
def freshReadState (C : Type) : ReadState C := ⟨freshReplication C, 0, fun _ => none⟩

theorem read_not_behind_replicatedRun :
    let s := (ReadState.machine Nat {1, 2, 3} 0).run (freshReadState Nat) replicatedRun
    ∃ core, s.replication.cluster.server 1 = .up core ∧ core.readIndex = .ok 1 ∧
      (∀ j q, s.replication.cluster.server j = .up q → q.commitIndex ≤ 1) ∧
      core.leaseDeadline ≠ none ∧ s.leaseTerm 1 = some 1 := by
  intro s
  have hrun : (ReadState.soundMachine Nat {1, 2, 3} 0).Admissible (freshReadState Nat)
      replicatedRun := by decide +kernel
  have hs : (ReadState.soundMachine Nat {1, 2, 3} 0).Reachable s :=
    (Machine.Reachable.start (m := ReadState.soundMachine Nat {1, 2, 3} 0)
      ⟨freshReplication_fresh Nat, rfl⟩).run hrun
  obtain ⟨core, hup, hcore⟩ := s.replication.cluster.exists_core 1 (fun core =>
    core.readIndex = .ok 1 ∧ core.currentTerm = 1 ∧ core.leaseDeadline ≠ none ∧
      ∀ entry ∈ core.log, core.commitIndex < entry.index → entry.term = core.currentTerm)
    (by decide +kernel)
  obtain ⟨hread, hterm, hlease, hsettled⟩ := of_decide_eq_true hcore
  have hlatest : ∀ winner ∈ s.replication.cluster.elected, winner.2 ≤ core.currentTerm := by
    rw [hterm]
    decide +kernel
  obtain ⟨hbehind, hgranted⟩ := read_not_behind hs 0 hup hlatest hsettled (.inl hread)
  exact ⟨core, hup, hread, hbehind, hlease, hterm ▸ hgranted hlease⟩

/-- Server 1 commits index 1 and is granted a lease.  Server 2 then wins term 2 with the
vote of server 3 and commits index 2 with it, all of it unknown to server 1. -/
def deposedReaderRun : List (ReplicationEvent Nat) :=
  startThree ++ electionOf 1 1 2 0 0 ++
    [.cluster (.appendLocalEntry 1 10), .send 1 0 1, .deliver 2 0 [], .recordMatch 1 0 0] ++
    electionOf 2 2 3 1 1 ++
    [.cluster (.appendLocalEntry 2 20), .send 2 0 2, .deliver 3 1 [], .recordMatch 2 1 0]

/-- Server 1 is granted a lease in term 1 and, still leading, starts and wins the
election of term 2. -/
def reelectedReaderRun : List (ReplicationEvent Nat) :=
  startThree ++ electionOf 1 1 2 0 0 ++
    [.cluster (.appendLocalEntry 1 10), .send 1 0 1, .deliver 2 0 [], .recordMatch 1 0 0] ++
    electionOf 1 2 2 1 1

def deposedReaderState : ReadState Nat :=
  (ReadState.machine Nat {1, 2, 3} 0).run (freshReadState Nat) deposedReaderRun

def reelectedReaderState : ReadState Nat :=
  (ReadState.machine Nat {1, 2, 3} 0).run (freshReadState Nat) reelectedReaderRun

/-- A deposed leader answers both reads with an index behind a commit, and a leader that
was elected again answers from the lease of its earlier term. -/
theorem reads_behind :
    ((ReadState.machine Nat {1, 2, 3} 0).Admissible (freshReadState Nat) deposedReaderRun ∧
      ∃ p q, deposedReaderState.replication.cluster.server 1 = .up p ∧
        deposedReaderState.replication.cluster.server 2 = .up q ∧ p.readIndex = .ok 1 ∧
        p.leaderLeaseReadIndex deposedReaderState.clock = .ok 1 ∧ q.commitIndex = 2) ∧
    (ReadState.machine Nat {1, 2, 3} 0).Admissible (freshReadState Nat) reelectedReaderRun ∧
      ∃ p, reelectedReaderState.replication.cluster.server 1 = .up p ∧
        p.leaderLeaseReadIndex reelectedReaderState.clock = .ok 1 ∧
        p.readIndex.isOk = false ∧ p.currentTerm = 2 ∧
        reelectedReaderState.leaseTerm 1 = some 1 := by
  refine ⟨⟨by decide +kernel, ?_⟩, by decide +kernel, ?_⟩
  · obtain ⟨p, hp, hp'⟩ := deposedReaderState.replication.cluster.exists_core 1
      (fun p => p.readIndex = .ok 1 ∧
        p.leaderLeaseReadIndex deposedReaderState.clock = .ok 1) (by decide +kernel)
    obtain ⟨q, hq, hq'⟩ := deposedReaderState.replication.cluster.exists_core 2
      (fun q => q.commitIndex = 2) (by decide +kernel)
    obtain ⟨hread, hlease⟩ := of_decide_eq_true hp'
    exact ⟨p, q, hp, hq, hread, hlease, of_decide_eq_true hq'⟩
  · obtain ⟨p, hp, hp'⟩ := reelectedReaderState.replication.cluster.exists_core 1
      (fun p => p.leaderLeaseReadIndex reelectedReaderState.clock = .ok 1 ∧
        p.readIndex.isOk = false ∧ p.currentTerm = 2) (by decide +kernel)
    obtain ⟨hlease, hnot, hterm⟩ := of_decide_eq_true hp'
    exact ⟨p, hp, hlease, hnot, hterm, by decide +kernel⟩

end Neo4r.Raft
