/-
  `Raft.RefinedElection`: starting servers and holding elections, as steps of the
  replicated log.

  A vote is recorded in the replicated log only while its term has no leader.  Votes
  given later can no longer elect anybody, because a term has one winner.
-/
import Neo4r.Raft.Refinement

set_option autoImplicit false

namespace Neo4r.Raft

open Foundation Function RaftCore
open Foundation.ReplicatedLog (State Inv UpToDate lastTerm Backed)

variable {C : Type} {voters : Finset Nat} {id : Nat} {a : LogState C}

/-! ## Starting -/

variable {core : RaftCore C} {s : Replication C} {issued : List RequestVoteRequest}

theorem RaftCore.openWithLogAndSnapshot_empty {shard : Nat} {store : RaftPersistentStateStore}
    {membership : RaftMembership}
    (h : openWithLogAndSnapshot id shard store membership [] none 0 = .ok core) :
    core.log = [] ∧ core.snapshot = none ∧ core.commitIndex = 0 ∧ core.LogInv := by
  have hreaches : ReachesSnapshot ([] : List (LogEntry C)) none := ⟨0, le_rfl, trivial⟩
  have hinv := openWithLogAndSnapshot_logInv hreaches h
  unfold openWithLogAndSnapshot at h
  split at h
  · cases h
  · rename_i raft hopen
    cases h
    obtain ⟨hlog, hsnap, -⟩ := openWithLog_spec hopen
    have hcommit := hinv.commit_le
    have hzero := snapshotIndex_of_none hsnap
    rw [lastLogIndex_eq hinv.consecutive, hzero, hlog] at hcommit
    exact ⟨hlog, hsnap, Nat.le_zero.mp hcommit, hinv⟩

/-- The first start of a server. -/
theorem Refines.boot (h : Refines voters s a) (shard id : Nat) : ∃ a', Refines voters
      { s with cluster := s.cluster.boot voters shard id [] none 0 } a' := by
  refine Cluster.boot_cases (P := fun cluster => ∃ a', Refines voters { s with cluster } a')
    ⟨a, h⟩ fun store core hdown hopen => ?_
  obtain ⟨hterm, hlog, hcommit, hreqs⟩ := h.down id store hdown
  obtain ⟨hlog', hsnap, hcommit', hinv⟩ := openWithLogAndSnapshot_empty hopen
  have hrole := (openWithLogAndSnapshot_opened hopen).role
  refine ⟨_, h.setCore ⟨h.inv.raise (hterm ▸ Nat.zero_le _), Later.raise id a core.currentTerm,
    rfl, ?_⟩⟩
  exact {
    term := update_self _ _ _
    log := hlog.trans hlog'.symm
    commit := hcommit.trans hcommit'.symm
    snapshot := hsnap
    logInv := hinv
    leading := fun hlead => by rw [hrole] at hlead; cases hlead
    running := fun hcand => by rw [hrole] at hcand; cases hcand
    issued := fun req hreq hcand =>
      absurd hcand (hreqs req hreq) }

/-! ## Voting -/

/-- A server records a vote in its current term, unless the term has a leader. -/
theorem CoreView.castVote (h : CoreView a issued id core) (inv : Inv LogEntry.term voters a)
    (candidate : Nat) : ∃ a', Admits voters a issued id core a' ∧
      ((∃ vote ∈ a'.votes, vote.voter = id ∧ vote.term = core.currentTerm ∧
        vote.candidate = candidate ∧ vote.log = core.log) ∨
        a'.leader core.currentTerm ≠ none) := by
  by_cases hnone : a.leader core.currentTerm = none
  · rw [← h.term] at hnone
    refine ⟨_, ⟨inv.vote (c := candidate) hnone, Later.vote id a _, rfl,
      h.record rfl rfl rfl rfl (Set.subset_insert _ _) subset_rfl rfl⟩, .inl ?_⟩
    exact ⟨_, Set.mem_insert _ _, rfl, h.term, rfl, h.log⟩
  · exact ⟨a, h.admits inv, .inr hnone⟩

/-- Starting an election. -/
theorem Refines.startElection (h : Refines voters s a) (hup : s.cluster.server id = .up core)
    (hid : core.serverId = id) (hbound : core.currentTerm < u64Max) (saves : List SaveOutcome) :
    ∃ a', Refines voters
      { s with cluster := s.cluster.startElection id (core.withSaves saves) } a' := by
  have hview := (h.up id core hup).same (core.withSaves_sameView saves)
  obtain ⟨store, heq, hres⟩ := (core.withSaves saves).startElection_cases
  have hsucc : saturatingAdd (core.withSaves saves).currentTerm 1 = core.currentTerm + 1 :=
    saturatingAdd_one_of_lt hbound
  have hserver : (core.withSaves saves).serverId = id := hid
  rw [hsucc, hserver] at heq hres
  -- As a follower of the new term the server votes for itself.
  obtain ⟨a₁, h₁⟩ := hview.follow h.inv { core with
      role := .follower, persistent := ⟨core.currentTerm + 1, some id⟩ }
    ⟨rfl, rfl, rfl, rfl⟩ rfl (Nat.le_succ _)
  obtain ⟨a₂, h₂, hvote⟩ := h₁.view.castVote h₁.inv id
  obtain ⟨inv₂, hlater, hsame, hview₂⟩ := h₁.trans h₂
  have hlost : a₂.leader (core.currentTerm + 1) ≠ some id := by
    rw [hsame]
    intro hsome
    have hle := (h.inv.leader_term _ _ hsome).1
    rw [(h.up id core hup).term] at hle
    omega
  have hcand : ∀ issued', (∀ req ∈ issued', req ∈ s.cluster.issued ∨
      req = ⟨core.currentTerm + 1, id, core.lastLogIndex, core.lastLogTerm⟩) →
      CoreView a₂ issued' id (core.withSaves saves).startElection.2 := by
    intro issued' hissued'
    have hinv := (core.withSaves saves).startElection_sameLog.logInv hview.logInv
    rw [heq] at hinv ⊢
    refine ⟨hview₂.term, hview₂.log, hview₂.commit, hview₂.snapshot, hinv,
      fun hrole => (nomatch hrole), fun _ => ⟨hlost, ?_, ?_⟩, ?_⟩
    · intro entry hentry
      have hle := h.inv.log_le id entry ((h.up id core hup).log ▸ hentry)
      rw [(h.up id core hup).term] at hle
      exact Nat.lt_succ_of_le hle
    · intro v hv
      obtain rfl : v = id := Finset.mem_singleton.mp hv
      refine hvote.imp_left ?_
      rintro ⟨vote, hmem, hvoter, hterm, hcand, hlog⟩
      exact ⟨vote, hmem, hvoter, hterm, hcand, .inr ⟨hlog ▸ rfl, hlog ▸ le_rfl⟩⟩
    · intro req hreq hown
      rcases hissued' req hreq with hold | rfl
      · have hle := ((h.up id core hup).issued req hold hown).1
        refine ⟨Nat.le_succ_of_le hle, fun _ hterm => ?_⟩
        have hterm : core.currentTerm + 1 = req.term := hterm
        omega
      · exact ⟨le_rfl, fun _ _ => ⟨rfl, rfl⟩⟩
  unfold Cluster.startElection
  rcases hres with ⟨hok, -⟩ | ⟨⟨err, herr⟩, -⟩
  · rw [← Prod.mk.eta (p := (core.withSaves saves).startElection), hok]
    refine ⟨a₂, h.move hlater inv₂ rfl ?_ (fun _ => List.mem_cons_of_mem _) ?_ ?_
      (fun _ hreply => .inl hreply) (fun _ hmsg => .inl hmsg)
      (fun _ hanswer => .inl hanswer)⟩
    · intro req hreq
      rcases List.mem_cons.mp hreq with rfl | hold
      · exact .inr rfl
      · exact .inl hold
    · exact hcand _ fun req hreq => (List.mem_cons.mp hreq).symm
    · intro t j
      rw [hsame]
      exact h.leader t j
  · rw [← Prod.mk.eta (p := (core.withSaves saves).startElection), herr]
    exact ⟨a₂, h.setCore ⟨inv₂, hlater, hsame, hcand _ fun _ hreq => .inl hreq⟩⟩

variable {req : RequestVoteRequest} {reply : VoteReply}

/-- Answering a vote request: a granted vote is recorded with the voter's log. -/
theorem CoreView.requestVote (h : CoreView a issued id core) (inv : Inv LogEntry.term voters a)
    (hreq : req ∈ issued) :
    ∃ a', Admits voters a issued id (core.requestVote req).2 a' ∧
      ∀ resp, (core.requestVote req).1 = .ok resp →
        ReplyView a' issued ⟨id, req.candidateId, resp⟩ := by
  obtain ⟨r₁, hret, hlog, hrole, hcases⟩ := core.requestVote_cases req
  -- The retreat first, then the vote.
  have hretreat : ∃ a₁, Admits voters a issued id r₁ a₁ := by
    rcases hrole with rfl | ⟨hrole, -⟩
    · exact ⟨a, h.admits inv⟩
    · refine h.follow inv r₁ hlog hrole ?_
      rcases hret.persistent with hsame | ⟨hlt, -⟩
      · rw [currentTerm, currentTerm, hsame]
      · exact hlt.le
  obtain ⟨a₁, h₁⟩ := hretreat
  rcases hcases with ⟨heq, hrefused⟩ | ⟨hterm, heq⟩
  · rw [heq]
    refine ⟨a₁, h₁, fun resp hok hgranted => ?_⟩
    rw [hrefused resp hok] at hgranted
    cases hgranted
  · rw [heq]
    rcases r₁.castVote_cases req with hrefuse | ⟨-, hrecent, store, hcast, hres⟩
    · rw [hrefuse]
      refine ⟨a₁, h₁, fun resp hok hgranted => ?_⟩
      cases hok
      cases hgranted
    · obtain ⟨a₂, h₂, hvote⟩ := h₁.view.castVote h₁.inv req.candidateId
      refine ⟨a₂, ?_, ?_⟩
      · rw [hcast]
        exact (h₁.trans h₂).same ⟨⟨rfl, rfl, rfl, rfl⟩, rfl, rfl, rfl, rfl⟩
      · intro resp hok _
        have hresp : resp.term = r₁.currentTerm := by
          rcases hres with ⟨hgranted, -⟩ | ⟨⟨err, herr⟩, -⟩
          · rw [hgranted] at hok
            cases hok
            rfl
          · rw [herr] at hok
            cases hok
        show (∃ vote ∈ a₂.votes, _ ∧ vote.term = resp.term ∧ _) ∨ a₂.leader resp.term ≠ none
        rw [hresp]
        refine hvote.imp_left ?_
        rintro ⟨vote, hmem, hvoter, hvoteTerm, hcand, hvoteLog⟩
        refine ⟨vote, hmem, hvoter, hvoteTerm, hcand, req, hreq, hterm.symm, rfl, ?_⟩
        rw [isLogUpToDate, h₁.view.lastLogIndex_eq, h₁.view.lastLogTerm_eq, ← hvoteLog] at hrecent
        simpa [RequestVoteRequest.UpToDateWith] using hrecent

theorem Refines.requestVote (h : Refines voters s a) (hup : s.cluster.server id = .up core)
    (hreq : req ∈ s.cluster.issued) (saves : List SaveOutcome) : ∃ a', Refines voters
      { s with cluster := s.cluster.requestVote id (core.withSaves saves) req } a' := by
  have hview := (h.up id core hup).same (core.withSaves_sameView saves)
  obtain ⟨a', ⟨inv', hlater, hsame, hview'⟩, hreply⟩ := hview.requestVote h.inv hreq
  refine ⟨a', ?_⟩
  unfold Cluster.requestVote
  split
  · rename_i resp core' heq
    rw [heq] at hview' hreply
    refine h.move hlater inv' rfl (fun _ hreq => .inl hreq) (fun _ hkept => hkept) hview'
      (fun t j => by rw [hsame]; exact h.leader t j) ?_ (fun _ hmsg => .inl hmsg)
      (fun _ hanswer => .inl hanswer)
    intro reply hmem
    rcases List.mem_cons.mp hmem with rfl | hold
    · exact .inr (hreply resp rfl)
    · exact .inl hold
  · rename_i heq
    rw [heq] at hview'
    exact h.setCore ⟨inv', hlater, hsame, hview'⟩

/-! ## Counting votes -/

/-- Counting a reply that was given to the candidate. -/
theorem CoreView.countVote (h : CoreView a issued id core) (hrole : core.role = .candidate)
    (hreply : ReplyView a issued reply) (hcand : reply.candidate = id)
    (hterm : reply.response.term = core.currentTerm) :
    CoreView a issued id (core.countVote reply.voter reply.response) := by
  obtain ⟨hlost, hlt, hvotes⟩ := h.running hrole
  have hsame : SameLog core (core.countVote reply.voter reply.response) := ⟨rfl, rfl, rfl, rfl⟩
  refine ⟨h.term, h.log, h.commit, h.snapshot, hsame.logInv h.logInv, h.leading,
    fun _ => ⟨hlost, hlt, ?_⟩, h.issued⟩
  intro v hv
  unfold RaftCore.countVote at hv
  split at hv
  · rename_i hgranted
    rcases Finset.mem_insert.mp hv with rfl | hv
    · refine (hterm ▸ hreply hgranted).imp_left ?_
      rintro ⟨vote, hmem, hvoter, hvoteTerm, hvoteCandidate, req, hreq, hrequestTerm,
        hrequestCandidate, hrecent⟩
      refine ⟨vote, hmem, hvoter, hvoteTerm, hvoteCandidate.trans hcand, ?_⟩
      -- The reply answers a request of this very candidacy.
      obtain ⟨hidx, hlastTerm⟩ := (h.issued req hreq
        (hrequestCandidate.trans hcand)).2 hrole hrequestTerm.symm
      rw [RequestVoteRequest.UpToDateWith, hidx, hlastTerm, h.lastLogIndex_eq,
        h.lastLogTerm_eq] at hrecent
      exact hrecent
    · exact hvotes v hv
  · exact hvotes v hv

/-- Winning the election: the candidate becomes the leader of its term and
acknowledges its own log. -/
theorem CoreView.becomeLeader (h : CoreView a issued id core) (inv : Inv LogEntry.term voters a)
    (hid : core.serverId = id) (hrole : core.role = .candidate)
    (hquorum : HasMajority voters core.votesReceived) (hnone : a.leader core.currentTerm = none)
    (now : Nat) : ∃ a', Inv LogEntry.term voters a' ∧ Later id a a' ∧
      a'.leader = update a.leader core.currentTerm (some id) ∧
      CoreView a' issued id (core.becomeLeader now) := by
  obtain ⟨-, hlt, hvotes⟩ := h.running hrole
  rw [← h.term] at hnone
  have helect := inv.elect hnone (by rw [h.log, h.term]; exact hlt) hquorum (by
    intro v hv _
    rw [h.log, h.term]
    refine (hvotes v hv).resolve_right ?_
    rw [← h.term]
    exact not_not.mpr hnone)
  have hack := helect.ack (n := id) (m := core.log.length)
    (by simp) (by simp [h.log]) (by simp [h.log])
  refine ⟨_, hack, (Later.elect hnone).trans (Later.ack id _ _), ?_, ?_⟩
  · rw [← h.term]
  · obtain ⟨deadline, heq⟩ := core.exists_becomeLeader_eq now
    have hinv := (core.becomeLeader_sameLog now).logInv h.logInv
    rw [heq] at hinv ⊢
    refine ⟨h.term, h.log, h.commit, h.snapshot, hinv, fun _ => ⟨?_, ?_, ?_⟩,
      fun hcand => (nomatch hcand), ?_⟩
    · show update a.leader (a.term id) (some id) core.currentTerm = some id
      rw [h.term, update_self]
    · intro follower m hm hpos
      have hm : update (fun _ => none) core.serverId (some core.lastLogIndex) follower =
          some m := hm
      by_cases hself : follower = core.serverId
      · rw [hself, update_self, Option.some.injEq, h.lastLogIndex_eq] at hm
        rw [hself, hid, ← hm]
        exact h.term ▸ Set.mem_insert _ _
      · rw [update_of_ne hself] at hm
        cases hm
    · intro k hk
      exact absurd (h.term ▸ hnone) (inv.leader_of_cert hk)
    · intro req hreq hcand
      exact ⟨(h.issued req hreq hcand).1, fun hcand => (nomatch hcand)⟩

theorem Refines.recordVoteResponse (h : Refines voters s a) (hup : s.cluster.server id = .up core)
    (hid : core.serverId = id) (hmemb : core.membership = .ofVoters voters)
    (hreply : reply ∈ s.cluster.replies) (hcand : reply.candidate = id) (now : Nat)
    (saves : List SaveOutcome)
    (hnext : VoteInv voters
      (s.cluster.recordVoteResponse id (core.withSaves saves) reply now)) :
    ∃ a', Refines voters
      { s with
        cluster := s.cluster.recordVoteResponse id (core.withSaves saves) reply now } a' := by
  have hview := (h.up id core hup).same (core.withSaves_sameView saves)
  unfold Cluster.recordVoteResponse at hnext ⊢
  rcases (core.withSaves saves).recordVoteResponse_cases reply.voter reply.response now with
    (⟨hret, hlog, hnot, hrole, -⟩ | hsame) | ⟨hrole, hterm, hcount | ⟨hquorum, hwon⟩⟩
  · obtain ⟨a', h'⟩ := hview.follow h.inv _ hlog hrole (by
      rcases hret.persistent with hsame | ⟨hlt, -⟩
      · rw [currentTerm, currentTerm, hsame]
      · exact hlt.le)
    refine ⟨a', ?_⟩
    split
    · rename_i heq
      rw [heq] at hnot
      exact absurd rfl hnot
    · rename_i heq
      rw [heq] at h'
      exact h.setCore h'
  · rw [hsame]
    exact ⟨a, h.setCore (hview.admits h.inv)⟩
  · rw [hcount]
    exact ⟨a, h.setCore ((hview.countVote hrole (h.replies reply hreply) hcand hterm).admits h.inv)⟩
  · have hview' := hview.countVote hrole (h.replies reply hreply) hcand hterm
    have hmaj : HasMajority voters (core.countVote reply.voter reply.response).votesReceived := by
      have hquorum : core.membership.hasQuorum
          (core.countVote reply.voter reply.response).votesReceived = true := hquorum
      rwa [hmemb, RaftMembership.hasQuorum_ofVoters] at hquorum
    have hwonTerm : (((core.withSaves saves).countVote reply.voter reply.response).becomeLeader
        now).currentTerm = core.currentTerm := by
      obtain ⟨deadline, heq⟩ := exists_becomeLeader_eq
        ((core.withSaves saves).countVote reply.voter reply.response) now
      rw [heq]
      rfl
    rw [hwon] at hnext ⊢
    simp only [hwonTerm] at hnext ⊢
    -- A term has one winner, so nobody else leads it already.
    have hnone : a.leader core.currentTerm = none := by
      by_contra hsome
      obtain ⟨j, hj⟩ := Option.ne_none_iff_exists'.mp hsome
      have hold := (h.leader _ _).mp hj
      have hsame : j = id := hnext.elected_unique (.tail _ hold) ((.head _))
      exact (hview.running hrole).1 (hsame ▸ hj)
    obtain ⟨a', inv', hlater, hlead, hview''⟩ := hview'.becomeLeader h.inv hid hrole hmaj hnone now
    refine ⟨a', h.move hlater inv' rfl (fun _ hreq => .inl hreq)
      (fun _ hkept => hkept) hview'' ?_ (fun _ hreply => .inl hreply)
      (fun _ hmsg => .inl hmsg) (fun _ hanswer => .inl hanswer)⟩
    intro t j
    have hlead : a'.leader = update a.leader core.currentTerm (some id) := hlead
    show a'.leader t = some j ↔ (j, t) ∈ (id, core.currentTerm) :: s.cluster.elected
    rw [hlead]
    by_cases ht : t = core.currentTerm
    · subst ht
      have hold : (j, core.currentTerm) ∉ s.cluster.elected := by
        rw [← h.leader, hnone]
        exact fun hsome => by cases hsome
      simp [hold, eq_comm]
    · rw [update_of_ne ht, h.leader]
      simp [ht]

end Neo4r.Raft
