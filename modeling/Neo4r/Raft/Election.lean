/-
  `Raft.Election`: election safety.

  A vote that has been saved binds its voter: whatever the server does next, crash and
  restart included, it is in a later term or still holds that vote.  So a voter has at
  most one durable vote in a term, a winner has a majority of durable votes, and two
  winners of one term share a voter.

  The vote a candidate gives itself is the delicate case.  `start_election` sets the new
  term and the vote before it saves them and keeps both when the save fails, so a
  candidate may count votes for a candidacy that a restart forgets; then two servers can
  win one term.  Where every vote request is one that `start_election` returned, no other
  server votes for such a candidacy.
-/
import Neo4r.Raft.Cluster

set_option autoImplicit false

namespace Neo4r.Raft

open Foundation Function Cluster RaftPersistentStateStore

variable {C : Type}

/-! ## Durable votes bind -/

/-- The state is past the ballot's term, or in it with the same vote. -/
def RaftPersistentState.Honours (p : RaftPersistentState) (b : Ballot) : Prop :=
  b.term < p.currentTerm ∨ p.currentTerm = b.term ∧ p.votedFor = some b.candidate

/-- A later term, or the same term with a vote at most added. -/
def RaftPersistentState.Advances (p p' : RaftPersistentState) : Prop :=
  p.currentTerm < p'.currentTerm ∨
    p'.currentTerm = p.currentTerm ∧ (p.votedFor = none ∨ p'.votedFor = p.votedFor)

variable {p p' : RaftPersistentState} {j : Nat}

theorem RaftPersistentState.Honours.advance {b : Ballot} (hb : p.Honours b) (hp : p.Advances p') :
    p'.Honours b := by
  rcases hb with hlt | ⟨hterm, hvote⟩
  · rcases hp with hp | ⟨hp, -⟩
    · exact .inl (Nat.lt_trans hlt hp)
    · exact .inl (hp ▸ hlt)
  · rcases hp with hp | ⟨hp, hnone | hkept⟩
    · exact .inl (hterm ▸ hp)
    · rw [hnone] at hvote
      cases hvote
    · exact .inr ⟨hp.trans hterm, hkept.trans hvote⟩

theorem RaftPersistentState.Advances.refl (p : RaftPersistentState) : p.Advances p :=
  .inr ⟨rfl, .inr rfl⟩

theorem RaftPersistentState.Advances.addVote {c : Nat} (hp : p.Advances p')
    (hvote : p'.votedFor = none ∨ p'.votedFor = some c) : p.Advances ⟨p'.currentTerm, some c⟩ := by
  rcases hp with hlt | ⟨hterm, hnone | hkept⟩
  · exact .inl hlt
  · exact .inr ⟨hterm, .inl hnone⟩
  · rcases hvote with hvote | hvote
    · exact .inr ⟨hterm, .inl (hkept ▸ hvote)⟩
    · exact .inr ⟨hterm, .inr (hkept ▸ hvote.symm)⟩

theorem RaftCore.Retreat.advances {r r' : RaftCore C} (h : r.Retreat r') :
    r.persistent.Advances r'.persistent := by
  rcases h.persistent with hsame | ⟨hlt, -⟩
  · exact .inr ⟨by rw [hsame], .inr (by rw [hsame])⟩
  · exact .inl hlt

/-! ## The invariant -/

/-- What ties the servers' memories and files to the history of votes. -/
structure VoteInv (voters : Finset Nat) (s : Cluster C) : Prop where
  /-- A running server is a voter of the fixed membership. -/
  member : ∀ id core, s.server id = .up core →
    core.serverId = id ∧ core.membership = .ofVoters voters ∧ id ∈ voters
  /-- A running server honours its ballots. -/
  memory : ∀ id core, s.server id = .up core →
    ∀ b ∈ s.ballots, b.voter = id → core.persistent.Honours b
  /-- What a restart would load honours them too. -/
  disk : ∀ id p, (s.server id).store.load = .ok p → ∀ b ∈ s.ballots, b.voter = id → p.Honours b
  /-- A voter has one ballot in a term. -/
  unique : ∀ b ∈ s.ballots, ∀ b' ∈ s.ballots, b.voter = b'.voter → b.term = b'.term →
    b.candidate = b'.candidate
  /-- The votes a candidate counts are ballots, apart from its own while it is alone. -/
  votes : ∀ id core, s.server id = .up core → core.role = .candidate →
    ∀ v ∈ core.votesReceived, v = id ∨
      (⟨v, core.currentTerm, id⟩ : Ballot) ∈ s.ballots ∧
        (⟨id, core.currentTerm, id⟩ : Ballot) ∈ s.ballots
  /-- A granted reply stands for a ballot. -/
  replies : ∀ reply ∈ s.replies, reply.response.voteGranted = true →
    (⟨reply.voter, reply.response.term, reply.candidate⟩ : Ballot) ∈ s.ballots
  /-- A winner is the only voter or has a majority of ballots. -/
  elected : ∀ i t, (i, t) ∈ s.elected → i ∈ voters ∧ ((∀ j ∈ voters, j = i) ∨
    ∃ Q, HasMajority voters Q ∧ ∀ v ∈ Q, v ∈ voters → (⟨v, t, i⟩ : Ballot) ∈ s.ballots)

/-- The invariant is all election safety needs. -/
theorem VoteInv.elected_unique {voters : Finset Nat} {s : Cluster C}
    (inv : VoteInv voters s) {i t : Nat} (hi : (i, t) ∈ s.elected)
      (hj : (j, t) ∈ s.elected) :
    i = j := by
  obtain ⟨hiV, hiQ⟩ := inv.elected i t hi
  obtain ⟨hjV, hjQ⟩ := inv.elected j t hj
  rcases hiQ with honly | ⟨Q, hQ, hballots⟩
  · exact (honly j hjV).symm
  · rcases hjQ with honly | ⟨Q', hQ', hballots'⟩
    · exact honly i hiV
    · obtain ⟨v, hv, hvQ, hvQ'⟩ := hQ.exists_mem_both hQ'
      exact inv.unique _ (hballots v hvQ hv) _ (hballots' v hvQ' hv) rfl rfl

/-! ## Steps of one server -/

theorem Cluster.setServer_self (s : Cluster C) (id : Nat) (server : Server C) :
    (s.setServer id server).server id = server := by
  simp [setServer]

theorem Cluster.setServer_of_ne (s : Cluster C) {id : Nat} (server : Server C) (hne : j ≠ id) :
    (s.setServer id server).server j = s.server j := by
  simp [setServer, hne]

variable {voters : Finset Nat} {s : Cluster C} {id : Nat} {core : RaftCore C}
  {reply : VoteReply}

variable {P : Nat → RaftCore C → Prop}

/-- What is true of the running servers, and of the new one if it runs, is true after
the update. -/
theorem Cluster.forall_up_setServer {server : Server C}
    (hself : ∀ core, server = .up core → P id core)
    (hother : ∀ j core, s.server j = .up core → P j core) :
    ∀ j core, (s.setServer id server).server j = .up core → P j core := by
  intro j core hj
  by_cases hji : j = id
  · subst hji
    rw [setServer_self] at hj
    exact hself core hj
  · rw [setServer_of_ne _ _ hji] at hj
    exact hother j core hj

theorem Cluster.forall_up_setCore (hself : P id core)
    (hother : ∀ j core, s.server j = .up core → P j core) :
    ∀ j core', (s.setCore id core).server j = .up core' → P j core' :=
  forall_up_setServer (fun _ heq => by cases heq; exact hself) hother

/-- The same for the state files. -/
theorem Cluster.forall_load_setServer {P : Nat → RaftPersistentState → Prop} {server : Server C}
    (hself : ∀ p, server.store.load = .ok p → P id p)
    (hother : ∀ j p, (s.server j).store.load = .ok p → P j p) :
    ∀ j p, ((s.setServer id server).server j).store.load = .ok p → P j p := by
  intro j p hload
  by_cases hji : j = id
  · subst hji
    rw [setServer_self] at hload
    exact hself p hload
  · rw [setServer_of_ne _ _ hji] at hload
    exact hother j p hload

/-- An operation on a server that is down does nothing. -/
theorem Cluster.onCore_cases {P : Cluster C → Prop} {f : RaftCore C → Cluster C} (hs : P s)
    (hf : ∀ core, s.server id = .up core → P (f core)) : P (s.onCore id f) := by
  unfold onCore
  split
  · rename_i core hup
    exact hf core hup
  · exact hs

/-- Starting does nothing, or opens a core on a server that was down. -/
theorem Cluster.boot_cases {P : Cluster C → Prop} {shard commitIndex : Nat}
    {log : List (LogEntry C)} {snapshot : Option RaftSnapshotMetadata} (hs : P s)
    (hopen : ∀ store core, s.server id = .down store →
      RaftCore.openWithLogAndSnapshot id shard store (.ofVoters voters) log snapshot commitIndex =
        .ok core → P (s.setCore id core)) :
    P (s.boot voters shard id log snapshot commitIndex) := by
  unfold boot RaftMembership.new
  split
  · exact hs
  · rename_i store hdown
    split
    · rename_i core hcore
      split at hcore
      · cases hcore
      · exact hopen store core hdown hcore
    · exact hs

/-- One running server changes: the invariant survives if the server's durable state
only advances, its file is the old one or holds the new state, and the votes it still
counts are accounted for. -/
theorem VoteInv.setCore (inv : VoteInv voters s) (core' : RaftCore C)
    (hup : s.server id = .up core) (hid : core'.serverId = core.serverId)
    (hmember : core'.membership = core.membership)
    (hadv : core.persistent.Advances core'.persistent)
    (hfile : core'.stateStore.file = core.stateStore.file ∨
      core'.stateStore.file = .text (encodePersistentState core'.persistent))
    (hvotes : core'.role = .candidate →
      ∀ v ∈ core'.votesReceived, v = id ∨ ⟨v, core'.currentTerm, id⟩ ∈ s.ballots ∧
      ⟨id, core'.currentTerm, id⟩ ∈ s.ballots) :
    VoteInv voters (s.setCore id core') where
  member := forall_up_setCore (by rw [hid, hmember]; exact inv.member id core hup) inv.member
  memory := forall_up_setCore
    (fun b hb hbid => (inv.memory id core hup b hb hbid).advance hadv) inv.memory
  disk := by
    refine forall_load_setServer (fun p hload b hb hbid => ?_) inv.disk
    rcases hfile with hold | hnew
    · refine inv.disk id p ?_ b hb hbid
      rw [hup]
      exact load_eq_ok_of_file_eq hold hload
    · rw [eq_of_load hnew hload]
      exact (inv.memory id core hup b hb hbid).advance hadv
  unique := inv.unique
  votes := forall_up_setCore hvotes inv.votes
  replies := inv.replies
  elected := inv.elected

/-- Stepping down, and anything that leaves the votes alone, keeps the invariant. -/
theorem VoteInv.retreat (inv : VoteInv voters s) {core' : RaftCore C}
    (hup : s.server id = .up core) (h : core.Retreat core') :
    VoteInv voters (s.setCore id core') := by
  refine inv.setCore core' hup h.serverId h.membership h.advances h.file ?_
  intro hrole v hv
  rcases h.role with hfollower | ⟨hsame, hreceived, hpers⟩
  · rw [hfollower] at hrole
    cases hrole
  · rw [RaftCore.currentTerm, hpers]
    exact inv.votes id core hup (hsame ▸ hrole) v (hreceived ▸ hv)

variable {t c : Nat} {store : RaftPersistentStateStore}

section

variable (inv : VoteInv voters s)

include inv

/-- A saved vote may be entered in the history. -/
theorem VoteInv.addBallot (hup : s.server id = .up core) (hpers : core.persistent = ⟨t, some c⟩)
    (hfile : core.stateStore.file = .text (encodePersistentState core.persistent)) :
    VoteInv voters { s with ballots := ⟨id, t, c⟩ :: s.ballots } where
  member := inv.member
  memory j core' hj b hb hbj := by
    rcases List.mem_cons.mp hb with rfl | hb
    · subst hbj
      rw [hup] at hj
      cases hj
      exact .inr ⟨by rw [hpers], by rw [hpers]⟩
    · exact inv.memory j core' hj b hb hbj
  disk j p hload b hb hbj := by
    rcases List.mem_cons.mp hb with rfl | hb
    · subst hbj
      rw [hup] at hload
      rw [eq_of_load hfile hload]
      exact .inr ⟨by rw [hpers], by rw [hpers]⟩
    · exact inv.disk j p hload b hb hbj
  unique b hb b' hb' hvoter hterm := by
    -- An older ballot of this voter in this term is for the same candidate, because
    -- the voter still honours it.
    have hold : ∀ b ∈ s.ballots, b.voter = id → b.term = t → b.candidate = c := by
      intro b hb hbid hbt
      rcases inv.memory id core hup b hb hbid with hlt | ⟨-, hvote⟩
      · rw [hpers, hbt] at hlt
        exact absurd hlt (Nat.lt_irrefl _)
      · rw [hpers] at hvote
        exact (Option.some.inj hvote).symm
    rcases List.mem_cons.mp hb with rfl | hb <;> rcases List.mem_cons.mp hb' with rfl | hb'
    · rfl
    · exact (hold b' hb' hvoter.symm hterm.symm).symm
    · exact hold b hb hvoter hterm
    · exact inv.unique b hb b' hb' hvoter hterm
  votes j core' hj hrole v hv :=
    (inv.votes j core' hj hrole v hv).imp_right fun h =>
      ⟨.tail _ h.1, .tail _ h.2⟩
  replies reply hreply hgranted := .tail _ (inv.replies reply hreply hgranted)
  elected i t' hi :=
    have h := inv.elected i t' hi
    ⟨h.1, h.2.imp_right fun ⟨Q, hQ, hballots⟩ =>
      ⟨Q, hQ, fun v hv hvV => .tail _ (hballots v hv hvV)⟩⟩

/-- A reply may be entered if it refuses, or if its vote is a ballot. -/
theorem VoteInv.addReply
    (hreply : reply.response.voteGranted = true →
      ⟨reply.voter, reply.response.term, reply.candidate⟩ ∈ s.ballots) :
    VoteInv voters { s with replies := reply :: s.replies } :=
  { inv with replies := List.forall_mem_cons.mpr ⟨hreply, inv.replies⟩ }

section

variable (hup : s.server id = .up core)

include hup

/-- A call of `start_election` below the term bound keeps the invariant. -/
theorem VoteInv.startElection (hterm : core.currentTerm < u64Max) (saves : List SaveOutcome) :
    VoteInv voters (s.startElection id (core.withSaves saves)) := by
  have hsucc : saturatingAdd core.currentTerm 1 = core.currentTerm + 1 :=
    saturatingAdd_one_of_lt hterm
  obtain rfl : core.serverId = id := (inv.member id core hup).1
  have hadv : ∀ vote, core.persistent.Advances ⟨saturatingAdd core.currentTerm 1, vote⟩ := fun _ =>
    .inl (by rw [hsucc]; exact Nat.lt_succ_self _)
  obtain ⟨store, hcore, hres⟩ := (core.withSaves saves).startElection_cases
  unfold startElection
  rcases hres with ⟨hok, hfile⟩ | ⟨⟨err, herr⟩, hfile⟩
  · split
    · rename_i req core' heq
      rw [heq] at hok hcore
      cases hok
      subst hcore
      -- The server's vote becomes a ballot while it is still a follower in this
      -- argument; making it a candidate afterwards changes no vote.
      have hvoted := (inv.setCore { core with
          role := .follower, stateStore := store
          persistent := ⟨saturatingAdd core.currentTerm 1, some core.serverId⟩ } hup
        rfl rfl (hadv _) (.inr hfile) (fun h => nomatch h)).addBallot
        (setServer_self s _ _) rfl hfile
      have hcand := hvoted.setCore { core with
          role := .candidate, leaderId := none, votesReceived := {core.serverId}
          persistent := ⟨saturatingAdd core.currentTerm 1, some core.serverId⟩
          stateStore := store } (setServer_self s _ _) rfl rfl (.refl _) (.inl rfl)
        (fun _ v hv => .inl (Finset.mem_singleton.mp hv))
      simp only [Cluster.setCore, Cluster.setServer, update_idem] at hcand
      -- the record of issued requests plays no part
      exact { hcand with }
    · rename_i heq
      rw [heq] at hok
      cases hok
  · split
    · rename_i heq
      rw [heq] at herr
      cases herr
    · rename_i err' core' heq
      rw [heq] at hcore herr
      subst hcore
      exact inv.setCore _ hup rfl rfl (hadv _) (.inl hfile)
        fun _ v hv => .inl (Finset.mem_singleton.mp hv)

/-- A running server may put a candidate's name down in its current term if it has
none or the same; the file may or may not follow. -/
theorem VoteInv.vote (hvote : core.votedFor = none ∨ core.votedFor = some c)
    (hfile : store.file = core.stateStore.file ∨ store.file = .text
    (encodePersistentState ⟨core.currentTerm, some c⟩)) :
    VoteInv voters (s.setCore id { core with
      persistent := ⟨core.currentTerm, some c⟩, stateStore := store }) :=
  inv.setCore _ hup rfl rfl ((RaftPersistentState.Advances.refl _).addVote hvote) hfile
    (fun hrole v hv => inv.votes id core hup hrole v hv)

/-- A call of `request_vote` keeps the invariant. -/
theorem VoteInv.requestVote (saves : List SaveOutcome) (req : RequestVoteRequest) :
    VoteInv voters (s.requestVote id (core.withSaves saves) req) := by
  obtain ⟨r₁, hret, -, -, hcases⟩ := (core.withSaves saves).requestVote_cases req
  have hretreat := (core.withSaves_sameVotes saves).trans_retreat hret
  have inv₁ : VoteInv voters (s.setCore id r₁) := inv.retreat hup hretreat
  have hup₁ : (s.setCore id r₁).server id = .up r₁ := setServer_self s id _
  unfold Cluster.requestVote
  rcases hcases with ⟨hcore, hrefused⟩ | ⟨-, hcast⟩
  · split
    · rename_i resp core' heq
      rw [heq] at hcore hrefused
      have hnot := hrefused resp rfl
      subst hcore
      simp only [hnot, Bool.false_eq_true, if_false]
      exact inv₁.addReply fun hgranted => by simp [hnot] at hgranted
    · rename_i heq
      rw [heq] at hcore
      subst hcore
      exact inv₁
  · rw [hcast]
    rcases r₁.castVote_cases req with hrefuse | ⟨hvote, -, store, hcore, hres⟩
    · rw [hrefuse]
      exact inv₁.addReply fun hgranted => by simp at hgranted
    · rcases hres with ⟨hok, hfile⟩ | ⟨⟨err, herr⟩, hfile⟩
      · rw [show r₁.castVote req = (.ok ⟨r₁.currentTerm, true⟩, _) from
          Prod.ext hok hcore]
        have inv₂ := inv₁.vote hup₁ hvote (.inr hfile)
        have inv₃ := inv₂.addBallot (setServer_self _ id _) rfl hfile
        simp only [Cluster.setCore, Cluster.setServer, update_idem] at inv₃
        exact inv₃.addReply fun _ => .head _
      · rw [show r₁.castVote req = (.error err, _) from Prod.ext herr hcore]
        have inv₂ := inv₁.vote hup₁ hvote (.inl hfile)
        simpa only [Cluster.setCore, Cluster.setServer, update_idem] using inv₂

/-- The votes of a candidate with one more reply counted are still accounted for. -/
theorem VoteInv.countVote (hrole : core.role = .candidate) (hreply : reply ∈ s.replies)
    (hcand : reply.candidate = id) (hterm : reply.response.term = core.currentTerm)
    (hsaved : reply.response.voteGranted = true → ⟨id, core.currentTerm, id⟩ ∈ s.ballots) :
    ∀ v ∈ (core.countVote reply.voter reply.response).votesReceived, v = id ∨
      ⟨v, core.currentTerm, id⟩ ∈ s.ballots ∧
        ⟨id, core.currentTerm, id⟩ ∈ s.ballots := by
  intro v hv
  unfold RaftCore.countVote at hv
  split at hv
  · rename_i hgranted
    rcases Finset.mem_insert.mp hv with rfl | hv
    · have hballot := inv.replies reply hreply hgranted
      rw [hterm, hcand] at hballot
      exact .inr ⟨hballot, hsaved hgranted⟩
    · exact inv.votes id core hup hrole v hv
  · exact inv.votes id core hup hrole v hv

end

end

/-- A candidate that counts a quorum has a majority of ballots, or there is no other
voter. -/
theorem VoteInv.majority_of_quorum {Q : Finset Nat} (hmember : id ∈ voters)
    (hQ : HasMajority voters Q)
    (hvotes : ∀ v ∈ Q, v = id ∨ ⟨v, t, id⟩ ∈ s.ballots ∧
      ⟨id, t, id⟩ ∈ s.ballots) :
    (∀ j ∈ voters, j = id) ∨
      ∃ Q, HasMajority voters Q ∧ ∀ v ∈ Q, v ∈ voters → ⟨v, t, id⟩ ∈ s.ballots := by
  by_cases hother : ∃ v ∈ Q, v ∈ voters ∧ v ≠ id
  · obtain ⟨w, hw, -, hne⟩ := hother
    have hown := ((hvotes w hw).resolve_left hne).2
    refine .inr ⟨Q, hQ, fun v hv _ => ?_⟩
    rcases hvotes v hv with rfl | ⟨hballot, -⟩
    · exact hown
    · exact hballot
  · push Not at hother
    exact .inl fun j hj => hQ.eq_of_mem hother hj hmember

section

variable (inv : VoteInv voters s)

include inv

/-- A call of `record_vote_response` with a reply that was given to this candidate
keeps the invariant, if a vote is counted only for a saved candidacy. -/
theorem VoteInv.recordVoteResponse (hup : s.server id = .up core) (saves : List SaveOutcome)
    (hreply : reply ∈ s.replies) (hcand : reply.candidate = id)
    (hsaved : core.role = .candidate → reply.response.term = core.currentTerm →
      reply.response.voteGranted = true → ⟨id, core.currentTerm, id⟩ ∈ s.ballots) (now : Nat) :
    VoteInv voters (s.recordVoteResponse id (core.withSaves saves) reply now) := by
  obtain ⟨-, hmemb, hvoter⟩ := inv.member id core hup
  unfold Cluster.recordVoteResponse
  rcases (core.withSaves saves).recordVoteResponse_cases reply.voter reply.response now with
    (⟨hret, -, hnot, -⟩ | hsame) | ⟨hrole, hterm, hcount | ⟨hquorum, hwon⟩⟩
  · have inv' := inv.retreat hup ((core.withSaves_sameVotes saves).trans_retreat hret)
    split
    · rename_i heq
      rw [heq] at hnot
      exact absurd rfl hnot
    · rename_i heq
      rwa [heq] at inv'
  · rw [hsame]
    exact inv.retreat hup (core.withSaves_sameVotes saves).retreat
  · rw [hcount]
    have hvotes := inv.countVote hup hrole hreply hcand hterm (hsaved hrole hterm)
    exact inv.setCore _ hup rfl rfl (.refl _) (.inl rfl) fun _ => hvotes
  · obtain ⟨deadline, hlead⟩ :=
      ((core.withSaves saves).countVote reply.voter reply.response).exists_becomeLeader_eq now
    have hvotes := inv.countVote hup hrole hreply hcand hterm (hsaved hrole hterm)
    have hmaj : HasMajority voters (core.countVote reply.voter reply.response).votesReceived := by
      have hquorum : core.membership.hasQuorum
          (core.countVote reply.voter reply.response).votesReceived = true := hquorum
      rwa [hmemb, RaftMembership.hasQuorum_ofVoters] at hquorum
    rw [hwon, hlead]
    have inv' := inv.setCore { core.withSaves saves with
        role := .leader, leaderId := some core.serverId, votesReceived := ∅
        matchIndexes := update (fun _ => none) core.serverId (some core.lastLogIndex)
        leaseDeadline := deadline } hup rfl rfl (.refl _) (.inl rfl)
      (fun h => nomatch h)
    refine { inv' with elected := ?_ }
    intro i t hi
    rcases List.mem_cons.mp hi with heq | hi
    · cases heq
      exact ⟨hvoter, VoteInv.majority_of_quorum hvoter hmaj hvotes⟩
    · exact inv.elected i t hi

/-- A crash loses the memory and keeps the file. -/
theorem VoteInv.crash (hup : s.server id = .up core) :
    VoteInv voters (s.setServer id (.down core.stateStore)) :=
  { inv with
    member := forall_up_setServer (fun _ heq => nomatch heq) inv.member
    memory := forall_up_setServer (fun _ heq => nomatch heq) inv.memory
    disk := forall_load_setServer (fun p hload => inv.disk id p (by rw [hup]; exact hload)) inv.disk
    votes := forall_up_setServer (fun _ heq => nomatch heq) inv.votes }

/-- A server that starts honours its ballots because its file does. -/
theorem VoteInv.opened (hdown : s.server id = .down store)
    (h : core.Opened id store (.ofVoters voters)) : VoteInv voters (s.setCore id core) where
  member := forall_up_setCore ⟨h.serverId, h.membership,
    (RaftMembership.isMember_ofVoters _ _).mp h.isMember⟩ inv.member
  memory := forall_up_setCore
    (inv.disk id core.persistent (by rw [hdown]; exact h.persistent)) inv.memory
  disk := forall_load_setServer (fun p hload => inv.disk id p (by
    rw [hdown]
    simpa only [Server.store, h.stateStore] using hload)) inv.disk
  unique := inv.unique
  votes := forall_up_setCore (fun hrole => by rw [h.role] at hrole; cases hrole) inv.votes
  replies := inv.replies
  elected := inv.elected

theorem VoteInv.boot (shard id : Nat)
    (log : List (LogEntry C)) (snapshot : Option RaftSnapshotMetadata) (commitIndex : Nat) :
    VoteInv voters (s.boot voters shard id log snapshot commitIndex) :=
  boot_cases inv fun _ _ hdown hopen =>
    inv.opened hdown (RaftCore.openWithLogAndSnapshot_opened hopen)

end

/-! ## Runs -/

theorem voteInv_of_fresh (h : s.Fresh) : VoteInv voters s := by
  have hdown : ∀ id core, s.server id ≠ .up core := by
    intro id core hup
    obtain ⟨store, hstore⟩ := h.down id
    rw [hstore] at hup
    cases hup
  constructor
  · exact fun id core hup => absurd hup (hdown id core)
  · exact fun id core hup => absurd hup (hdown id core)
  · simp [h.ballots]
  · simp [h.ballots]
  · exact fun id core hup => absurd hup (hdown id core)
  · simp [h.replies]
  · simp [h.elected]

/-- Every enabled event keeps the invariant, if votes are counted only for saved
candidacies. -/
theorem VoteInv.next (inv : VoteInv voters s) (shard : Nat) (e : ClusterEvent C)
    (he : s.enabled e = true) (hsaved : s.countsForSaved e = true) :
    VoteInv voters (s.next voters shard e) := by
  have onCore : ∀ (id : Nat) (f : RaftCore C → Cluster C),
      (∀ core, s.server id = .up core → VoteInv voters (f core)) →
      VoteInv voters (s.onCore id f) := fun _ _ => onCore_cases inv
  cases e with
  | boot id log snapshot commitIndex => exact inv.boot shard id log snapshot commitIndex
  | crash id => exact onCore id _ fun core hup => inv.crash hup
  | startElection id saves =>
    refine onCore id _ fun core hup => ?_
    simp only [enabled, hup, decide_eq_true_eq] at he
    exact inv.startElection hup he saves
  | requestVote voter req saves =>
    exact onCore voter _ fun core hup => inv.requestVote hup saves req
  | recordVoteResponse id reply now saves =>
    simp only [enabled, Bool.and_eq_true, decide_eq_true_eq] at he
    refine onCore id _ fun core hup => inv.recordVoteResponse hup saves he.1 he.2 ?_ now
    intro hrole hterm hgranted
    simpa [countsForSaved, hup, hrole, hterm, hgranted] using hsaved
  | appendEntries id req saves =>
    exact onCore id _ fun core hup => inv.retreat hup
      ((core.withSaves_sameVotes saves).trans_retreat (RaftCore.appendEntries_retreat _ _))
  | installSnapshot id req saves =>
    exact onCore id _ fun core hup => inv.retreat hup
      ((core.withSaves_sameVotes saves).trans_retreat (RaftCore.installSnapshot_retreat _ _))
  | compactLogToSnapshot id metadata =>
    exact onCore id _ fun core hup => inv.retreat hup
      (core.compactLogToSnapshot_sameVotes metadata).retreat
  | appendLocalEntry id cmd =>
    exact onCore id _ fun core hup => inv.retreat hup (core.appendLocalEntry_sameVotes cmd).retreat
  | appendExistingLocalEntry id entry =>
    exact onCore id _ fun core hup => inv.retreat hup
      (core.appendExistingLocalEntry_sameVotes entry).retreat
  | recordReplicationMatch id server matchIndex now =>
    exact onCore id _ fun core hup => inv.retreat hup
      (core.recordReplicationMatch_sameVotes server matchIndex now).retreat

theorem voteInv_of_reachable {shard : Nat} (hs : (savedMachine C voters shard).Reachable s) :
    VoteInv voters s :=
  hs.invariant (P := VoteInv voters) (fun _ h => voteInv_of_fresh h) (by
    rintro s e - inv ⟨he, hsaved⟩
    exact inv.next shard e he hsaved)

/-- **Election safety.**  In every run of a cluster with fixed voters, whatever
crashes, restarts, failed saves, lost, repeated, reordered and made up messages it
contains, at most one server wins the election of a term, if votes are counted only for
candidacies that have been saved. -/
theorem election_safety {voters : Finset Nat} {shardId : Nat} {s : Cluster C}
    (hs : (savedMachine C voters shardId).Reachable s)
    {i j t : Nat} (hi : (i, t) ∈ s.elected) (hj : (j, t) ∈ s.elected) : i = j :=
  (voteInv_of_reachable hs).elected_unique hi hj

/-- Three servers that have never run. -/
def freshCluster (C : Type) : Cluster C where
  server _ := .down ⟨"raft/state", some "raft", "raft/state.tmp", .missing, []⟩
  issued := []
  replies := []
  ballots := []
  elected := []

theorem freshCluster_fresh (C : Type) : (freshCluster C).Fresh :=
  ⟨fun _ => ⟨_, rfl⟩, rfl, rfl, rfl, rfl⟩

/-- Server 1 wins term 1 with the vote of server 2, which then crashes, restarts from
its file and refuses the same term to server 3. -/
def electionRun : List (ClusterEvent Nat) :=
  [.boot 1 [] none 0, .boot 2 [] none 0, .boot 3 [] none 0,
    .startElection 1 [],
    .requestVote 2 ⟨1, 1, 0, 0⟩ [],
    .recordVoteResponse 1 ⟨2, 1, ⟨1, true⟩⟩ 0 [],
    .crash 2, .boot 2 [] none 0,
    .startElection 3 [],
    .requestVote 2 ⟨1, 3, 0, 0⟩ []]

theorem election_safety_electionRun :
    let s := (machine Nat {1, 2, 3} 0).run (freshCluster Nat) electionRun
    (1, 1) ∈ s.elected ∧ ⟨2, 3, ⟨1, false⟩⟩ ∈ s.replies ∧ ∀ j, (j, 1) ∈ s.elected → 1 = j := by
  have hrun : (savedMachine Nat {1, 2, 3} 0).Admissible (freshCluster Nat)
      electionRun := by decide +kernel
  have hs := (Machine.Reachable.start (m := savedMachine Nat {1, 2, 3} 0)
    (freshCluster_fresh Nat)).run hrun
  have hwon : (1, 1) ∈ ((machine Nat {1, 2, 3} 0).run
      (freshCluster Nat) electionRun).elected := by decide +kernel
  exact ⟨hwon, by decide +kernel, fun j hj => election_safety hs hwon hj⟩

/-! ### A candidacy that was not saved -/

/-- Server 3 wins term 1 with the votes of the others. -/
def leaderOfTermOne : List (ClusterEvent Nat) :=
  [.boot 1 [] none 0, .boot 2 [] none 0, .boot 3 [] none 0,
    .startElection 3 [],
    .requestVote 1 ⟨1, 3, 0, 0⟩ [], .requestVote 2 ⟨1, 3, 0, 0⟩ [],
    .recordVoteResponse 3 ⟨1, 3, ⟨1, true⟩⟩ 0 []]

/-- Server 1 starts an election of term 2 whose save fails, and wins it with the vote of
server 3, which was asked for it by the leader transfer.  Then server 1 restarts, in term
1, and votes for server 2 in term 2. -/
def unsavedCandidacy : List (ClusterEvent Nat) :=
  [.startElection 1 [.writeFailed "disk full"], .requestVote 3 ⟨2, 1, 0, 0⟩ [],
    .recordVoteResponse 1 ⟨3, 1, ⟨2, true⟩⟩ 0 [],
    .crash 1, .boot 1 [] none 0,
    .startElection 2 [], .requestVote 1 ⟨2, 2, 0, 0⟩ [],
    .recordVoteResponse 2 ⟨1, 2, ⟨2, true⟩⟩ 0 []]

/-- **Two servers win one term**, after a save of `start_election` that failed. -/
theorem two_winners :
    (∃ leader, ((machine Nat {1, 2, 3} 0).run (freshCluster Nat) leaderOfTermOne).server 3 =
      .up leader ∧ leader.leaderTransferRequest 1 = .ok ⟨2, 1, 0, 0⟩) ∧
    (machine Nat {1, 2, 3} 0).Admissible (freshCluster Nat) (leaderOfTermOne ++ unsavedCandidacy) ∧
    (1, 2) ∈ ((machine Nat {1, 2, 3} 0).run (freshCluster Nat)
      (leaderOfTermOne ++ unsavedCandidacy)).elected ∧
    (2, 2) ∈ ((machine Nat {1, 2, 3} 0).run (freshCluster Nat)
      (leaderOfTermOne ++ unsavedCandidacy)).elected := by
  obtain ⟨leader, hup, hok⟩ := Cluster.exists_core
    ((machine Nat {1, 2, 3} 0).run (freshCluster Nat) leaderOfTermOne) 3
    (fun core => core.leaderTransferRequest 1 = .ok ⟨2, 1, 0, 0⟩) (by decide +kernel)
  exact ⟨⟨leader, hup, of_decide_eq_true hok⟩, by decide +kernel, by decide +kernel,
    by decide +kernel⟩

/-! ## Genuine vote requests -/

/-- Whoever issued a request, or was granted a vote, has saved its own. -/
structure IssuedInv (s : Cluster C) : Prop where
  issued : ∀ request ∈ s.issued,
    (⟨request.candidateId, request.term, request.candidateId⟩ : Ballot) ∈ s.ballots
  granted : ∀ reply ∈ s.replies, reply.response.voteGranted = true →
    (⟨reply.candidate, reply.response.term, reply.candidate⟩ : Ballot) ∈ s.ballots

theorem IssuedInv.of_fresh (h : s.Fresh) : IssuedInv s := by
  constructor
  · simp [h.issued]
  · simp [h.replies]

/-- A vote that is granted is one of the term it was asked for. -/
theorem RaftCore.term_of_granted {r : RaftCore C} {req : RequestVoteRequest}
    {resp : RequestVoteResponse} (hok : (r.requestVote req).1 = .ok resp)
    (hgranted : resp.voteGranted = true) : resp.term = req.term := by
  obtain ⟨r₁, -, -, -, ⟨-, hrefused⟩ | ⟨hterm, hcast⟩⟩ := r.requestVote_cases req
  · rw [hrefused resp hok] at hgranted
    cases hgranted
  · rw [hcast] at hok
    rcases r₁.castVote_cases req with hrefuse | ⟨-, -, -, -, ⟨hvoted, -⟩ | ⟨⟨err, herr⟩, -⟩⟩
    · rw [hrefuse] at hok
      cases hok
      cases hgranted
    · rw [hvoted] at hok
      cases hok
      exact hterm
    · rw [herr] at hok
      cases hok

/-- Where requests are genuine, every event keeps this. -/
theorem IssuedInv.next (inv : IssuedInv s) (hmember : ∀ id core, s.server id = .up core →
    core.serverId = id) (shard : Nat) (e : ClusterEvent C) (he : s.genuine e = true) :
    IssuedInv (s.next voters shard e) := by
  have onCore : ∀ (id : Nat) (f : RaftCore C → Cluster C),
      (∀ core, s.server id = .up core → IssuedInv (f core)) →
      IssuedInv (s.onCore id f) := fun _ _ => onCore_cases inv
  have keep : ∀ (id : Nat) (server : Server C), IssuedInv (s.setServer id server) := fun _ _ =>
    ⟨inv.issued, inv.granted⟩
  cases e with
  | boot id log snapshot commitIndex => exact boot_cases inv fun _ _ _ _ => keep _ _
  | startElection id saves =>
    refine onCore id _ fun core hup => ?_
    unfold Cluster.startElection
    split
    · rename_i req core' heq
      have hcandidate : req.candidateId = id := by
        obtain ⟨_, -, ⟨hok, -⟩ | ⟨⟨err, herr⟩, -⟩⟩ := (core.withSaves saves).startElection_cases
        · rw [heq] at hok
          cases hok
          exact hmember id core hup
        · rw [heq] at herr
          cases herr
      subst hcandidate
      refine ⟨List.forall_mem_cons.mpr ⟨.head _, fun req hreq => .tail _ (inv.issued req hreq)⟩, ?_⟩
      exact fun reply hreply hgranted => .tail _ (inv.granted reply hreply hgranted)
    · exact keep _ _
  | requestVote voter req saves =>
    refine onCore voter _ fun core hup => ?_
    unfold Cluster.requestVote
    split
    · rename_i resp core' heq
      have hown := inv.issued req (of_decide_eq_true he)
      have hmono : ∀ b ∈ s.ballots, b ∈ if resp.voteGranted then
          ⟨voter, resp.term, req.candidateId⟩ :: s.ballots else s.ballots := by
        intro b hb
        split
        · exact .tail _ hb
        · exact hb
      refine ⟨fun req hreq => hmono _ (inv.issued req hreq), List.forall_mem_cons.mpr ⟨?_, ?_⟩⟩
      · intro hgranted
        have hterm := RaftCore.term_of_granted (congrArg Prod.fst heq) hgranted
        refine hmono _ ?_
        rwa [hterm]
      · exact fun reply hreply hgranted => hmono _ (inv.granted reply hreply hgranted)
    · exact keep _ _
  | recordVoteResponse id reply now saves =>
    refine onCore id _ fun core hup => ?_
    unfold Cluster.recordVoteResponse
    split
    · exact ⟨inv.issued, inv.granted⟩
    · exact keep _ _
  | crash id | appendEntries id | installSnapshot id | compactLogToSnapshot id
  | appendLocalEntry id | appendExistingLocalEntry id | recordReplicationMatch id =>
    exact onCore id _ fun _ _ => keep _ _

/-- Then a candidate that counts a vote has saved its own. -/
theorem IssuedInv.countsForSaved (inv : IssuedInv s) {e : ClusterEvent C}
    (he : s.enabled e = true) : s.countsForSaved e = true := by
  unfold Cluster.countsForSaved
  split
  · rename_i id reply now saves
    simp only [enabled, Bool.and_eq_true, decide_eq_true_eq] at he
    split
    · rename_i core hup
      have hgranted := inv.granted reply he.1
      rw [he.2] at hgranted
      simp only [Bool.or_eq_true, Bool.not_eq_true', decide_eq_true_eq]
      by_cases hterm : reply.response.term = core.currentTerm
      · rw [hterm] at hgranted
        cases hvote : reply.response.voteGranted with
        | true => exact .inr (hgranted hvote)
        | false => exact .inl (.inr rfl)
      · exact .inl (.inl (.inr hterm))
    · rfl
  · rfl

end Neo4r.Raft
