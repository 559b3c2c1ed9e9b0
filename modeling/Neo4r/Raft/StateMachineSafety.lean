/-
  `Raft.StateMachineSafety`: when servers agree on what they have committed.

  A run of sound steps keeps the refinement, and the theory of replicated logs gives
  agreement.  Without the soundness condition agreement fails: a follower whose log is
  longer than what the leader's request covers keeps the rest, whatever it is, and
  commits it up to the leader's commit index.
-/
import Neo4r.Raft.RefinedElection
import Neo4r.Raft.RefinedLog

set_option autoImplicit false

namespace Neo4r.Raft

open Foundation Replication
open Foundation.ReplicatedLog (State Inv)

variable {C : Type} {voters : Finset Nat} {s : Replication C} {a : LogState C}

/-! ## Steps -/

/-- The vote bookkeeping, with genuine vote requests. -/
structure GenuineInv (voters : Finset Nat) (cluster : Cluster C) : Prop where
  votes : VoteInv voters cluster
  issued : IssuedInv cluster

theorem GenuineInv.next {cluster : Cluster C} (inv : GenuineInv voters cluster) (shard : Nat)
    (event : ClusterEvent C) (he : cluster.enabled event = true)
    (hgenuine : cluster.genuine event = true) :
    GenuineInv voters (cluster.next voters shard event) where
  votes := inv.votes.next shard event he (inv.issued.countsForSaved he)
  issued := inv.issued.next (fun id core hup => (inv.votes.member id core hup).1) shard event
    hgenuine

/-- The vote bookkeeping survives every enabled step, sound or not. -/
theorem GenuineInv.replicationNext (inv : GenuineInv voters s.cluster) (shard : Nat)
    (e : ReplicationEvent C) (he : s.enabled e = true) :
    GenuineInv voters (s.next voters shard e).cluster := by
  cases e with
  | cluster event =>
    simp only [enabled, Bool.and_eq_true] at he
    exact inv.next shard event he.1.2 he.2
  | send =>
    dsimp only [Replication.next]
    split <;> exact inv
  | deliver follower position saves =>
    dsimp only [Replication.next]
    split
    · exact inv.next shard (.appendEntries follower _ saves) rfl rfl
    · exact inv
  | recordMatch id position now =>
    dsimp only [Replication.next]
    split
    · exact inv.next shard (.recordReplicationMatch id _ _ now) rfl rfl
    · exact inv

variable {id : Nat}

/-- An operation on a running server, and nothing on one that is down. -/
theorem Refines.onCore (h : Refines voters s a) {f : RaftCore C → Cluster C}
    (hf : ∀ core, s.cluster.server id = .up core →
      ∃ a', Refines voters { s with cluster := f core } a') :
    ∃ a', Refines voters { s with cluster := s.cluster.onCore id f } a' :=
  Cluster.onCore_cases (P := fun cluster => ∃ a', Refines voters { s with cluster } a') ⟨a, h⟩ hf

/-- A step of one server that leaves the record alone. -/
theorem Refines.step (h : Refines voters s a) {core' : RaftCore C}
    (hstep : ∃ a', Admits voters a s.cluster.issued id core' a') :
    ∃ a', Refines voters { s with cluster := s.cluster.setCore id core' } a' :=
  hstep.imp fun _ => h.setCore

theorem Replication.accepted_of_mem_answer {follower : Nat} {core : RaftCore C}
    {req : AppendEntriesRequest C} {answer : AppendAnswer C}
    (h : answer ∈ Replication.answer follower core req) :
    ∃ m, RaftCore.Accepted (core.appendEntries req).1 m ∧
      (⟨follower, req.term, m⟩ : ReplicatedLog.Ack Nat) =
        ⟨answer.follower, answer.request.term, answer.response.matchIndex⟩ := by
  unfold Replication.answer at h
  split at h
  · rename_i resp hok
    split at h
    · rename_i hsucc
      rw [List.mem_singleton.mp h]
      exact ⟨_, ⟨resp, hok, hsucc, rfl⟩, rfl⟩
    · cases h
  · cases h

variable [DecidableEq C]

/-- Starts, elections and local appends. -/
theorem Refines.clusterNext (h : Refines voters s a) (inv : GenuineInv voters s.cluster)
    (shard : Nat) {event : ClusterEvent C} (hkind : event.isElectionOrAppend = true)
    (he : s.cluster.enabled event = true) (hgenuine : s.cluster.genuine event = true)
    (hsound : s.sound (.cluster event) = true) :
    ∃ a', Refines voters (s.next voters shard (.cluster event)) a' := by
  cases event with
  | boot id =>
    simp only [ClusterEvent.isElectionOrAppend, Bool.and_eq_true, List.isEmpty_iff,
      Option.isNone_iff_eq_none, decide_eq_true_eq] at hkind
    obtain ⟨⟨rfl, rfl⟩, rfl⟩ := hkind
    exact h.boot shard id
  | startElection id saves =>
    refine h.onCore fun core hup => ?_
    simp only [Cluster.enabled, hup, decide_eq_true_eq] at he
    exact h.startElection hup (inv.votes.member id core hup).1 he saves
  | requestVote voter req saves =>
    exact h.onCore fun core hup => h.requestVote hup (of_decide_eq_true hgenuine) saves
  | recordVoteResponse id reply now saves =>
    have hnext := (inv.next shard _ he hgenuine).votes
    simp only [Cluster.enabled, Bool.and_eq_true, decide_eq_true_eq] at he
    refine h.onCore fun core hup => ?_
    obtain ⟨hid, hmemb, -⟩ := inv.votes.member id core hup
    refine h.recordVoteResponse hup hid hmemb he.1 he.2 now saves ?_
    simpa only [Cluster.next, Cluster.onCore, hup] using hnext
  | appendLocalEntry id cmd =>
    refine h.onCore fun core hup => h.step ?_
    obtain ⟨hid, hmemb, -⟩ := inv.votes.member id core hup
    simp only [sound, hup, decide_eq_true_eq] at hsound
    exact (h.up id core hup).appendLocalEntry h.inv hid hmemb hsound cmd
  | appendExistingLocalEntry id entry =>
    refine h.onCore fun core hup => h.step ?_
    obtain ⟨hid, hmemb, -⟩ := inv.votes.member id core hup
    simp only [sound, hup, decide_eq_true_eq] at hsound
    exact (h.up id core hup).appendExistingLocalEntry h.inv hid hmemb hsound entry
  | crash | appendEntries | installSnapshot | compactLogToSnapshot | recordReplicationMatch =>
    cases hkind

/-- Every sound step keeps the refinement. -/
theorem Refines.next (h : Refines voters s a) (inv : GenuineInv voters s.cluster)
    (shard : Nat) {e : ReplicationEvent C} (he : s.enabled e = true)
    (hsound : s.sound e = true) : ∃ a', Refines voters (s.next voters shard e) a' := by
  cases e with
  | cluster =>
    simp only [enabled, Bool.and_eq_true] at he
    exact h.clusterNext inv shard he.1.1 he.1.2 he.2 hsound
  | send id prev count =>
    dsimp only [Replication.next]
    split
    · rename_i core hup
      simp only [enabled, hup, Bool.and_eq_true, Bool.or_eq_true, decide_eq_true_eq] at he
      refine ⟨a, { h with messages := ?_ }⟩
      intro msg hmsg
      rcases List.mem_append.mp hmsg with hold | hnew
      · exact h.messages msg hold
      · rw [List.mem_singleton.mp hnew]
        exact (h.up id core hup).appendRequest h.inv (inv.votes.member id core hup).1 he.1 he.2
          count
    · exact ⟨a, h⟩
  | deliver follower position saves =>
    dsimp only [Replication.next]
    split
    · rename_i msg core hat hup
      have hview := (h.up follower core hup).same (core.withSaves_sameView saves)
      simp only [sound, hat, hup, Bool.or_eq_true, Bool.not_eq_true'] at hsound
      obtain ⟨a', ⟨inv', hlater, hlead, hview'⟩, hacks⟩ := hview.appendEntries h.inv
        (h.messages msg (List.mem_of_getElem? hat)) fun hholds => by
          rcases hsound with hnot | htail
          · rw [show core.holdsRun msg.request = true from hholds] at hnot
            cases hnot
          · exact htail
      have hnext : s.cluster.next voters shard
          (.appendEntries follower msg.request saves) = s.cluster.setCore follower
            ((core.withSaves saves).appendEntries msg.request).2 := by
        simp only [Cluster.next, Cluster.onCore, hup]
      rw [hnext]
      refine ⟨a', h.move hlater inv' rfl (fun _ hreq => .inl hreq)
        (fun _ hkept => hkept) hview' (fun t j => by rw [hlead]; exact h.leader t j)
        (fun _ hreply => .inl hreply) (fun _ hmsg => .inl hmsg) ?_⟩
      intro answer hanswer
      exact (List.mem_append.mp hanswer).imp_right fun hnew _ =>
        let ⟨m, hacc, heq⟩ := accepted_of_mem_answer hnew
        heq ▸ hacks m hacc
    · exact ⟨a, h⟩
  | recordMatch id position now =>
    dsimp only [Replication.next]
    split
    · rename_i answer hat
      refine h.onCore fun core hup => h.step ?_
      simp only [sound, hat, hup, decide_eq_true_eq] at hsound
      refine (h.up id core hup).recordReplicationMatch h.inv (inv.votes.member id core hup).2.1
        ?_ now
      rw [← hsound]
      exact h.answers answer (List.mem_of_getElem? hat)
    · exact ⟨a, h⟩

/-- What holds in every state of a run of sound steps. -/
theorem refines_of_reachable {shard : Nat} (hs : (soundMachine C voters shard).Reachable s) :
    GenuineInv voters s.cluster ∧ ∃ a, Refines voters s a := by
  refine hs.invariant (P := fun s => GenuineInv voters s.cluster ∧
    ∃ a, Refines voters s a) ?_ ?_
  · intro s hfresh
    refine ⟨⟨voteInv_of_fresh hfresh.cluster, .of_fresh hfresh.cluster⟩,
      State.initial Nat (LogEntry C), ?_⟩
    exact {
      inv := ReplicatedLog.inv_initial
      up := fun id core hup => by
        obtain ⟨store, hdown⟩ := hfresh.cluster.down id
        rw [hdown] at hup
        cases hup
      down := fun id store _ => ⟨rfl, rfl, rfl, by simp [hfresh.cluster.issued]⟩
      leader := fun t id => by simp [State.initial, hfresh.cluster.elected]
      replies := by simp [hfresh.cluster.replies]
      messages := by simp [hfresh.messages]
      answers := by simp [hfresh.answers] }
  · rintro s e - ⟨inv, a, h⟩ ⟨he, hsound⟩
    exact ⟨inv.replicationNext shard e he, h.next inv shard he hsound⟩

/-! ## Agreement -/

/-- **State-machine safety.**  In every run of sound steps, two servers hold the same
entry at every index at or below both of their commit indexes. -/
theorem committed_entries_agree {shardId : Nat}
    (hs : (soundMachine C voters shardId).Reachable s) {i j k : Nat}
    {p q : RaftCore C} (hp : s.cluster.server i = .up p) (hq : s.cluster.server j = .up q)
    (hkp : k ≤ p.commitIndex) (hkq : k ≤ q.commitIndex) : p.entryAt k = q.entryAt k := by
  obtain ⟨-, a, h⟩ := refines_of_reachable hs
  have hviewp := h.up i p hp
  have hviewq := h.up j q hq
  rcases Nat.eq_zero_or_pos k with rfl | hpos
  · have hnone : ∀ r : RaftCore C, r.LogInv → r.entryAt 0 = none := fun r hr =>
      (RaftCore.entryAt_eq_none_iff hr.consecutive).mpr (.inl (Nat.zero_le _))
    rw [hnone p hviewp.logInv, hnone q hviewq.logInv]
  · rw [hviewp.entryAt_eq hpos, hviewq.entryAt_eq hpos, ← hviewp.log, ← hviewq.log]
    exact h.inv.commit_agree (by rw [hviewp.commit]; omega) (by rw [hviewq.commit]; omega)

/-- Three servers that have never run. -/
def freshReplication (C : Type) : Replication C := ⟨freshCluster C, [], []⟩

theorem freshReplication_fresh (C : Type) : (freshReplication C).Fresh :=
  ⟨freshCluster_fresh C, rfl, rfl⟩

/-- Server `id` wins term `term` with the vote of `voter`. -/
def electionOf (id term voter lastLogIndex lastLogTerm : Nat) : List (ReplicationEvent Nat) :=
  [.cluster (.startElection id []),
    .cluster (.requestVote voter ⟨term, id, lastLogIndex, lastLogTerm⟩ []),
    .cluster (.recordVoteResponse id ⟨voter, id, ⟨term, true⟩⟩ 0 [])]

def startThree : List (ReplicationEvent Nat) :=
  [.cluster (.boot 1 [] none 0), .cluster (.boot 2 [] none 0), .cluster (.boot 3 [] none 0)]

/-- Server 1 leads term 1 and commits an entry that server 2 then commits as well. -/
def replicatedRun : List (ReplicationEvent Nat) :=
  startThree ++ electionOf 1 1 2 0 0 ++
    [.cluster (.appendLocalEntry 1 10), .send 1 0 1, .deliver 2 0 [], .recordMatch 1 0 0,
      .send 1 1 0, .deliver 2 1 []]

theorem committed_entries_agree_replicatedRun :
    let s := (machine Nat {1, 2, 3} 0).run (freshReplication Nat) replicatedRun
    ∃ p q, s.cluster.server 1 = .up p ∧ s.cluster.server 2 = .up q ∧ p.commitIndex = 1 ∧
      q.commitIndex = 1 ∧ p.entryAt 1 = q.entryAt 1 := by
  intro s
  have hrun : (soundMachine Nat {1, 2, 3} 0).Admissible (freshReplication Nat)
      replicatedRun := by decide +kernel
  have hs : (soundMachine Nat {1, 2, 3} 0).Reachable s :=
    (Machine.Reachable.start (freshReplication_fresh Nat)).run hrun
  obtain ⟨p, hp, hp'⟩ := Cluster.exists_core s.cluster 1
    (fun core => core.commitIndex = 1) (by decide +kernel)
  obtain ⟨q, hq, hq'⟩ := Cluster.exists_core s.cluster 2
    (fun core => core.commitIndex = 1) (by decide +kernel)
  have hp' := of_decide_eq_true hp'
  have hq' := of_decide_eq_true hq'
  exact ⟨p, q, hp, hq, hp', hq', committed_entries_agree hs hp hq hp'.ge hq'.ge⟩

/-- Server 1 appends an entry as leader of term 1 and is then deposed by server 2,
which commits its own entry with server 3.  A request of server 2 without entries, for
the start of the log, tells server 1 that index 1 is committed. -/
def staleTailRun : List (ReplicationEvent Nat) :=
  startThree ++ electionOf 1 1 2 0 0 ++ [.cluster (.appendLocalEntry 1 10)] ++
    electionOf 2 2 3 0 0 ++
    [.cluster (.appendLocalEntry 2 20), .send 2 0 1, .deliver 3 0 [], .recordMatch 2 0 0,
      .send 2 0 0, .deliver 1 1 []]

/-- After that run servers 1 and 2 have both committed index 1, with different entries. -/
theorem committed_entries_diverge :
    (machine Nat {1, 2, 3} 0).Admissible (freshReplication Nat) staleTailRun ∧
    ∃ p q,
      ((machine Nat {1, 2, 3} 0).run (freshReplication Nat) staleTailRun).cluster.server 1 = .up p ∧
      ((machine Nat {1, 2, 3} 0).run (freshReplication Nat) staleTailRun).cluster.server 2 = .up q ∧
      1 ≤ p.commitIndex ∧ 1 ≤ q.commitIndex ∧
      p.entryAt 1 = some (LogEntry.new 0 1 1 10) ∧ q.entryAt 1 = some (LogEntry.new 0 2 1 20) := by
  refine ⟨by decide +kernel, ?_⟩
  obtain ⟨p, hp, hp'⟩ := Cluster.exists_core ((machine Nat {1, 2, 3} 0).run
      (freshReplication Nat) staleTailRun).cluster 1
    (fun core => 1 ≤ core.commitIndex ∧ core.entryAt 1 = some (LogEntry.new 0 1 1 10))
    (by decide +kernel)
  obtain ⟨q, hq, hq'⟩ := Cluster.exists_core ((machine Nat {1, 2, 3} 0).run
      (freshReplication Nat) staleTailRun).cluster 2
    (fun core => 1 ≤ core.commitIndex ∧ core.entryAt 1 = some (LogEntry.new 0 2 1 20))
    (by decide +kernel)
  obtain ⟨hcommitp, hentryp⟩ := of_decide_eq_true hp'
  obtain ⟨hcommitq, hentryq⟩ := of_decide_eq_true hq'
  exact ⟨p, q, hp, hq, hcommitp, hcommitq, hentryp, hentryq⟩

/-! ## Leaders -/

section Leaders

variable {shardId i j k : Nat} {p q : RaftCore C}
  (hs : (soundMachine C voters shardId).Reachable s) (hq : s.cluster.server j = .up q)

include hs hq

/-- **What is committed is on a majority** of the voters, at any time. -/
theorem majority_holds_committed : q.commitIndex = 0 ∨ ∃ Q, HasMajority voters Q ∧
    ∀ v ∈ Q, v ∈ voters →
      ∃ core, s.cluster.server v = .up core ∧ q.log.take q.commitIndex <+: core.log := by
  obtain ⟨-, a, h⟩ := refines_of_reachable hs
  have hview := h.up j q hq
  rw [← hview.log, ← hview.commit]
  rcases h.inv.commit_cert j with hzero | ⟨t, n, hcert, hin⟩
  · exact .inl hzero
  · obtain ⟨hpos, ⟨e, he, -⟩, Q, hQ, hacks⟩ := h.inv.cert t n hcert
    refine .inr ⟨Q, hQ, fun v hv hvoter => ?_⟩
    obtain ⟨ack, hack, rfl, rfl, hle⟩ := hacks v hv hvoter
    -- every leader since then has it, so the voter has not lost what it acknowledged
    have hheld := h.inv.ack_retains ack hack n hle
      fun u hu _ hlead => h.inv.cert_complete hcert hu hlead
    cases hserver : s.cluster.server ack.node with
    | down store =>
      rw [(h.down _ _ hserver).2.1, List.prefix_nil, List.take_eq_nil_iff] at hheld
      grind
    | up core =>
      refine ⟨core, rfl, ?_⟩
      rw [← (h.up _ _ hserver).log]
      exact hin.trans hheld

variable (hp : s.cluster.server i = .up p)

include hp

/-- **Log matching.**  Logs with entries of one term at one place agree up to there. -/
theorem log_matching {e e' : LogEntry C} (he : p.log[k]? = some e) (he' : q.log[k]? = some e')
    (hterm : e.term = e'.term) : p.log.take (k + 1) = q.log.take (k + 1) := by
  obtain ⟨-, a, h⟩ := refines_of_reachable hs
  rw [← (h.up i p hp).log] at he ⊢
  rw [← (h.up j q hq).log] at he' ⊢
  exact (h.inv.log_backed i).take_eq (h.inv.log_backed j) he he' hterm

variable (hlatest : ∀ winner ∈ s.cluster.elected, winner.2 ≤ p.currentTerm)

include hlatest

/-- **Leader completeness.**  The leader of the latest term has whatever a server has
committed. -/
theorem leader_holds_committed (hrole : p.role = .leader) :
    q.log.take q.commitIndex <+: p.log := by
  obtain ⟨-, a, h⟩ := refines_of_reachable hs
  have hviewp := h.up i p hp
  have hviewq := h.up j q hq
  obtain ⟨hlead, -⟩ := hviewp.leading hrole
  rw [← hviewp.log, ← hviewq.log, ← hviewq.commit, (h.inv.leader_term _ _ hlead).2 hviewp.term]
  rcases h.inv.commit_cert j with hzero | ⟨t, n, hcert, hin⟩
  · rw [hzero]
    exact List.nil_prefix
  · obtain ⟨winner, hwinner⟩ := Option.ne_none_iff_exists'.mp (h.inv.leader_of_cert hcert)
    have hle := hlatest _ ((h.leader t winner).mp hwinner)
    exact h.inv.commit_in_history hcert hin hle (by simp [hlead])

/-- The server that the leader of the latest term hands over to has whatever the leader has
committed. -/
theorem transferee_holds_committed {request : RequestVoteRequest}
    (h : p.leaderTransferRequest j = .ok request) : p.log.take p.commitIndex <+: q.log := by
  obtain ⟨-, a, href⟩ := refines_of_reachable hs
  have hviewp := href.up i p hp
  unfold RaftCore.leaderTransferRequest at h
  split_ifs at h with hrole _ hbehind
  obtain ⟨hlead, hmatch, -⟩ := hviewp.leading (not_not.mp hrole)
  rw [← hviewp.log, ← (href.up j q hq).log, (href.inv.leader_term _ _ hlead).2 hviewp.term]
  rcases Nat.eq_zero_or_pos p.commitIndex with hzero | hpos
  · rw [hzero]
    exact List.nil_prefix
  · obtain ⟨matched, hmatched, hle⟩ : ∃ matched, p.matchIndexes j = some matched ∧
        p.commitIndex ≤ matched := by
      cases hindex : p.matchIndexes j <;> simp_all [RaftCore.matchIndexOf]
    -- no leader has come since, so what the server acknowledged is still in its log
    refine href.inv.ack_retains _ (hmatch j matched hmatched (by omega)) _ hle
      fun u hlater _ hu => ?_
    obtain ⟨winner, hwinner⟩ := Option.ne_none_iff_exists'.mp hu
    exact absurd (hlatest _ ((href.leader u winner).mp hwinner)) (Nat.not_le.mpr hlater)

end Leaders

/-- The servers after `replicatedRun`. -/
def replicated : Replication Nat :=
  (machine Nat {1, 2, 3} 0).run (freshReplication Nat) replicatedRun

/-- Server 1 leads, and both servers have committed its entry. -/
theorem replicated_servers : ∃ p q, (soundMachine Nat {1, 2, 3} 0).Reachable replicated ∧
    replicated.cluster.server 1 = .up p ∧ replicated.cluster.server 2 = .up q ∧
    (∀ winner ∈ replicated.cluster.elected, winner.2 ≤ p.currentTerm) ∧
    (p.role = .leader ∧ p.commitIndex = 1 ∧ p.log[0]? = some (LogEntry.new 0 1 1 10) ∧
      p.leaderTransferRequest 2 = .ok ⟨2, 2, 1, 1⟩) ∧
    q.commitIndex = 1 ∧ q.log[0]? = some (LogEntry.new 0 1 1 10) := by
  have hrun : (soundMachine Nat {1, 2, 3} 0).Admissible (freshReplication Nat)
      replicatedRun := by decide +kernel
  obtain ⟨p, hp, hp'⟩ := replicated.cluster.exists_core 1
    (fun core => (∀ winner ∈ replicated.cluster.elected, winner.2 ≤ core.currentTerm) ∧
      core.role = .leader ∧ core.commitIndex = 1 ∧ core.log[0]? = some (LogEntry.new 0 1 1 10) ∧
      core.leaderTransferRequest 2 = .ok ⟨2, 2, 1, 1⟩) (by decide +kernel)
  obtain ⟨q, hq, hq'⟩ := replicated.cluster.exists_core 2
    (fun core => core.commitIndex = 1 ∧ core.log[0]? = some (LogEntry.new 0 1 1 10))
    (by decide +kernel)
  obtain ⟨hlatest, hleads⟩ := of_decide_eq_true hp'
  exact ⟨p, q, (Machine.Reachable.start (freshReplication_fresh Nat)).run hrun, hp, hq, hlatest,
    hleads, of_decide_eq_true hq'⟩

theorem majority_holds_committed_replicated : ∃ q, replicated.cluster.server 2 = .up q ∧
    q.commitIndex = 1 ∧ ∃ Q, HasMajority {1, 2, 3} Q ∧ ∀ v ∈ Q, v ∈ ({1, 2, 3} : Finset Nat) →
      ∃ core, replicated.cluster.server v = .up core ∧ q.log.take 1 <+: core.log := by
  obtain ⟨p, q, hs, hp, hq, -, -, hcommit, -⟩ := replicated_servers
  have hmajority := (majority_holds_committed hs hq).resolve_left (by omega)
  rw [hcommit] at hmajority
  exact ⟨q, hq, hcommit, hmajority⟩

theorem log_matching_replicated : ∃ p q, replicated.cluster.server 1 = .up p ∧
    replicated.cluster.server 2 = .up q ∧ p.log[0]? = some (LogEntry.new 0 1 1 10) ∧
    p.log.take 1 = q.log.take 1 := by
  obtain ⟨p, q, hs, hp, hq, -, ⟨-, -, he, -⟩, -, he'⟩ := replicated_servers
  exact ⟨p, q, hp, hq, he, log_matching hs hq hp he he' rfl⟩

theorem leader_holds_committed_replicated : ∃ p q, replicated.cluster.server 1 = .up p ∧
    replicated.cluster.server 2 = .up q ∧ p.role = .leader ∧ q.commitIndex = 1 ∧
    q.log.take q.commitIndex <+: p.log := by
  obtain ⟨p, q, hs, hp, hq, hlatest, ⟨hrole, -⟩, hcommit, -⟩ := replicated_servers
  exact ⟨p, q, hp, hq, hrole, hcommit, leader_holds_committed hs hq hp hlatest hrole⟩

theorem transferee_holds_committed_replicated : ∃ p q, replicated.cluster.server 1 = .up p ∧
    replicated.cluster.server 2 = .up q ∧ p.leaderTransferRequest 2 = .ok ⟨2, 2, 1, 1⟩ ∧
    p.commitIndex = 1 ∧ p.log.take p.commitIndex <+: q.log := by
  obtain ⟨p, q, hs, hp, hq, hlatest, ⟨-, hcommit, -, hok⟩, -⟩ := replicated_servers
  exact ⟨p, q, hp, hq, hok, hcommit, transferee_holds_committed hs hq hp hlatest hok⟩

end Neo4r.Raft
