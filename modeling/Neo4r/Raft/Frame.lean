/-
  `Raft.Frame`: what each operation of a Raft core can do to its votes, and what it
  leaves alone.

  Two groups of fields matter to the arguments that follow.  The vote fields are the
  server's identity, membership, durable state, role and collected votes; the log
  fields are the log, the snapshot and the commit index.  Each operation gets one
  lemma here that says everything it can do to them, and later proofs use only that.
-/
import Neo4r.Raft.Core

set_option autoImplicit false

namespace Neo4r.Raft.RaftCore

open Foundation

variable {C : Type}

/-- The vote fields agree. -/
structure SameVotes (r r' : RaftCore C) : Prop where
  serverId : r'.serverId = r.serverId
  membership : r'.membership = r.membership
  persistent : r'.persistent = r.persistent
  file : r'.stateStore.file = r.stateStore.file
  role : r'.role = r.role
  votesReceived : r'.votesReceived = r.votesReceived

/-- The log fields agree. -/
structure SameLog (r r' : RaftCore C) : Prop where
  shardId : r'.shardId = r.shardId
  log : r'.log = r.log
  snapshot : r'.snapshot = r.snapshot
  commitIndex : r'.commitIndex = r.commitIndex

theorem SameVotes.refl (r : RaftCore C) : SameVotes r r := ⟨rfl, rfl, rfl, rfl, rfl, rfl⟩

theorem SameVotes.trans {r r' r'' : RaftCore C} (h : SameVotes r r') (h' : SameVotes r' r'') :
    SameVotes r r'' where
  serverId := h'.serverId.trans h.serverId
  membership := h'.membership.trans h.membership
  persistent := h'.persistent.trans h.persistent
  file := h'.file.trans h.file
  role := h'.role.trans h.role
  votesReceived := h'.votesReceived.trans h.votesReceived

variable {r' : RaftCore C} (r : RaftCore C) {serverId shardId : Nat}
  {store : RaftPersistentStateStore} {membership : RaftMembership}

theorem SameVotes.currentTerm_eq {r : RaftCore C} (h : SameVotes r r') :
    r'.currentTerm = r.currentTerm :=
  congrArg RaftPersistentState.currentTerm h.persistent

theorem SameLog.refl (r : RaftCore C) : SameLog r r := ⟨rfl, rfl, rfl, rfl⟩

theorem SameLog.trans {r r'' : RaftCore C} (h : SameLog r r') (h' : SameLog r' r'') :
    SameLog r r'' where
  shardId := h'.shardId.trans h.shardId
  log := h'.log.trans h.log
  snapshot := h'.snapshot.trans h.snapshot
  commitIndex := h'.commitIndex.trans h.commitIndex

/-- The server may have stepped down: it keeps its durable state or moves to a later
term without a vote, the file holds the old text or the new state, and a server that
is still in its old role has lost nothing. -/
structure Retreat (r r' : RaftCore C) : Prop where
  serverId : r'.serverId = r.serverId
  membership : r'.membership = r.membership
  persistent : r'.persistent = r.persistent ∨ (r.currentTerm < r'.currentTerm ∧ r'.votedFor = none)
  file : r'.stateStore.file = r.stateStore.file ∨
    r'.stateStore.file = .text (encodePersistentState r'.persistent)
  role : r'.role = .follower ∨ (r'.role = r.role ∧ r'.votesReceived = r.votesReceived ∧
    r'.persistent = r.persistent)

theorem SameVotes.retreat {r : RaftCore C} (h : SameVotes r r') : Retreat r r' where
  serverId := h.serverId
  membership := h.membership
  persistent := .inl h.persistent
  file := .inl h.file
  role := .inr ⟨h.role, h.votesReceived, h.persistent⟩

theorem Retreat.refl (r : RaftCore C) : Retreat r r := (SameVotes.refl r).retreat

variable {r'' : RaftCore C} {log : List (LogEntry C)} {commitIndex : Nat}
  (req : AppendEntriesRequest C)

/-- Changes to the log after a retreat do not undo it. -/
theorem Retreat.trans_sameVotes {r : RaftCore C} (h : Retreat r r') (h' : SameVotes r' r'') :
    Retreat r r'' where
  serverId := h'.serverId.trans h.serverId
  membership := h'.membership.trans h.membership
  persistent := by
    simp only [currentTerm, votedFor, h'.persistent]
    exact h.persistent
  file := by
    rw [h'.file, h'.persistent]
    exact h.file
  role := by
    rw [h'.role, h'.votesReceived, h'.persistent]
    exact h.role

theorem SameVotes.trans_retreat {r : RaftCore C} (h : SameVotes r r') (h' : Retreat r' r'') :
    Retreat r r'' where
  serverId := h'.serverId.trans h.serverId
  membership := h'.membership.trans h.membership
  persistent := by
    have := h'.persistent
    rwa [currentTerm, h.persistent] at this
  file := by
    rw [← h.file]
    exact h'.file
  role := by
    rw [← h.role, ← h.votesReceived, ← h.persistent]
    exact h'.role

/-! ## Saving and stepping down -/

theorem saveState_cases : (∃ store, r.saveState = (.ok (), { r with stateStore := store }) ∧
      store.file = .text (encodePersistentState r.persistent)) ∨
    (∃ err store, r.saveState = (.error err, { r with stateStore := store }) ∧
      store.file = r.stateStore.file) := by
  rcases r.stateStore.save_cases r.persistent with ⟨hok, hfile⟩ | ⟨⟨err, herr⟩, hfile⟩
  · exact .inl ⟨_, by simp [saveState, hok], hfile⟩
  · exact .inr ⟨err, _, by simp [saveState, herr], hfile⟩

/-- Stepping down gives up the lease. -/
theorem stepDown_leaseDeadline (term : Nat) : (r.stepDown term).2.leaseDeadline = none := by
  unfold stepDown
  dsimp only
  split <;> rfl

/-- Stepping down leaves the log alone, and only its save can fail. -/
theorem stepDown_spec (term : Nat) : Retreat r (r.stepDown term).2 ∧ SameLog r (r.stepDown term).2 ∧
      (r.stepDown term).2.role = .follower ∧
      (r.stepDown term).2.currentTerm = max r.currentTerm term := by
  unfold stepDown
  dsimp only
  split
  · rename_i hterm
    have hmax : max r.currentTerm term = term := Nat.max_eq_right (Nat.le_of_lt hterm)
    rcases saveState_cases ({ r with
      role := .follower, leaderId := none, votesReceived := ∅, leaseDeadline := none
      persistent := ⟨term, none⟩ }) with
      ⟨store, heq, hfile⟩ | ⟨err, store, heq, hfile⟩
    · rw [heq]
      exact ⟨⟨rfl, rfl, .inr ⟨hterm, rfl⟩, .inr hfile, .inl rfl⟩, ⟨rfl, rfl, rfl, rfl⟩, rfl,
        hmax.symm⟩
    · rw [heq]
      exact ⟨⟨rfl, rfl, .inr ⟨hterm, rfl⟩, .inl hfile, .inl rfl⟩, ⟨rfl, rfl, rfl, rfl⟩, rfl,
        hmax.symm⟩
  · rename_i hterm
    exact ⟨⟨rfl, rfl, .inl rfl, .inl rfl, .inl rfl⟩, ⟨rfl, rfl, rfl, rfl⟩, rfl,
      (Nat.max_eq_left (Nat.le_of_not_gt hterm)).symm⟩

/-- Following a leader is at most a step down; it ends as a follower. -/
theorem followLeader_spec (term : Nat) (leaderId : Nat) :
    Retreat r (r.followLeader term leaderId).2 ∧ SameLog r (r.followLeader term leaderId).2 ∧
      (r.followLeader term leaderId).2.role = .follower ∧
      (r.followLeader term leaderId).2.currentTerm = max r.currentTerm term := by
  unfold followLeader
  split
  · have hspec := stepDown_spec r term
    split
    · rename_i err r' heq
      rw [heq] at hspec
      exact hspec
    · rename_i r' heq
      rw [heq] at hspec
      obtain ⟨hret, hlog, hrole, hterm⟩ := hspec
      exact ⟨⟨hret.serverId, hret.membership, hret.persistent, hret.file, hret.role⟩,
        ⟨hlog.shardId, hlog.log, hlog.snapshot, hlog.commitIndex⟩, hrole, hterm⟩
  · rename_i hstay
    push Not at hstay
    exact ⟨⟨rfl, rfl, .inl rfl, .inl rfl, .inr ⟨rfl, rfl, rfl⟩⟩, ⟨rfl, rfl, rfl, rfl⟩, hstay.2,
      (Nat.max_eq_left hstay.1).symm⟩

/-! ## Opening -/

/-- A core that has just been opened follows nobody and holds what its file says. -/
structure Opened (serverId : Nat) (store : RaftPersistentStateStore)
    (membership : RaftMembership) (r : RaftCore C) : Prop where
  isMember : membership.isMember serverId = true
  persistent : store.load = .ok r.persistent
  serverId : r.serverId = serverId
  stateStore : r.stateStore = store
  membership : r.membership = membership
  role : r.role = .follower
  leaseDeadline : r.leaseDeadline = none

theorem openWithMembership_opened {r : RaftCore C}
    (h : openWithMembership serverId shardId store membership = .ok r) :
    Opened serverId store membership r := by
  unfold openWithMembership at h
  split at h
  · cases h
  · rename_i hmember
    split at h
    · cases h
    · rename_i persistent hload
      cases h
      exact ⟨by simpa using hmember, hload, rfl, rfl, rfl, rfl, rfl⟩

theorem openWithLog_opened {r : RaftCore C}
    (h : openWithLog serverId shardId store membership log commitIndex = .ok r) :
    Opened serverId store membership r := by
  unfold openWithLog at h
  split at h
  · cases h
  · rename_i raft hopen
    have hopened := openWithMembership_opened hopen
    split at h
    · cases h
    · cases h
      exact ⟨hopened.isMember, hopened.persistent, hopened.serverId, hopened.stateStore,
        hopened.membership, hopened.role, hopened.leaseDeadline⟩

theorem openWithLogAndSnapshot_opened {snapshot : Option RaftSnapshotMetadata} {r : RaftCore C}
    (h : openWithLogAndSnapshot serverId shardId store membership log snapshot commitIndex =
      .ok r) :
    Opened serverId store membership r := by
  unfold openWithLogAndSnapshot at h
  split at h
  · cases h
  · rename_i raft hopen
    have hopened := openWithLog_opened hopen
    split at h
    · cases h
      exact hopened
    · split at h
      · cases h
      · cases h
        exact ⟨hopened.isMember, hopened.persistent, hopened.serverId, hopened.stateStore,
          hopened.membership, hopened.role, hopened.leaseDeadline⟩

/-! ## Operations on the log keep the votes -/

/-- The loop over the entries changes nothing but the log and the commit index. -/
theorem exists_appendLoop_eq (entries : List (LogEntry C)) :
    ∃ log commitIndex, (r.appendLoop entries).2 = { r with log, commitIndex } := by
  induction entries generalizing r with
  | nil => exact ⟨r.log, r.commitIndex, rfl⟩
  | cons entry entries ih =>
    unfold appendLoop
    split
    · exact ⟨r.log, r.commitIndex, rfl⟩
    · split
      · exact ih r
      · split
        · split
          · exact ih r
          · split
            · exact ⟨r.log, r.commitIndex, rfl⟩
            · exact ih ((r.truncateFrom entry.index).pushEntry entry)
        · exact ih (r.pushEntry entry)

theorem exists_appendAndCommit_eq :
    ∃ log commitIndex, (r.appendAndCommit req).2 = { r with log, commitIndex } := by
  obtain ⟨log, commitIndex, hloop⟩ := exists_appendLoop_eq r req.entries
  unfold appendAndCommit
  split
  · rename_i heq
    rw [heq] at hloop
    exact ⟨log, commitIndex, hloop⟩
  · rename_i heq
    rw [heq] at hloop
    exact ⟨log, commitIndex, hloop⟩
  · rename_i r' heq
    rw [heq] at hloop
    obtain rfl : r' = { r with log, commitIndex } := hloop
    dsimp only
    split <;> exact ⟨_, _, rfl⟩

theorem exists_checkPrevious_eq :
    ∃ log commitIndex, (r.checkPrevious req).2 = { r with log, commitIndex } := by
  unfold checkPrevious
  split
  · split
    · split
      · exact exists_appendAndCommit_eq r req
      · exact ⟨r.log, r.commitIndex, rfl⟩
    · split
      · split
        · exact ⟨r.log, r.commitIndex, rfl⟩
        · exact ⟨_, _, rfl⟩
      · exact exists_appendAndCommit_eq r req
  · exact exists_appendAndCommit_eq r req

theorem checkPrevious_sameVotes : SameVotes r (r.checkPrevious req).2 := by
  obtain ⟨log, commitIndex, heq⟩ := exists_checkPrevious_eq r req
  rw [heq]
  exact ⟨rfl, rfl, rfl, rfl, rfl, rfl⟩

/-- Advancing the commit index changes nothing else. -/
theorem exists_advanceLeaderCommitIndex_eq :
    ∃ commitIndex, r.advanceLeaderCommitIndex = { r with commitIndex } := by
  unfold advanceLeaderCommitIndex
  split
  · exact ⟨r.commitIndex, rfl⟩
  · split
    · exact ⟨r.commitIndex, rfl⟩
    · split
      · exact ⟨_, rfl⟩
      · exact ⟨r.commitIndex, rfl⟩

theorem advanceLeaderCommitIndex_sameVotes : SameVotes r r.advanceLeaderCommitIndex := by
  obtain ⟨commitIndex, heq⟩ := r.exists_advanceLeaderCommitIndex_eq
  rw [heq]
  exact ⟨rfl, rfl, rfl, rfl, rfl, rfl⟩

/-- Refreshing the lease changes nothing but the lease. -/
theorem exists_refreshLeaderLeaseIfQuorum_eq (now : Nat) :
    ∃ deadline, r.refreshLeaderLeaseIfQuorum now = { r with leaseDeadline := deadline } := by
  unfold refreshLeaderLeaseIfQuorum
  split
  · exact ⟨_, rfl⟩
  · split
    · exact ⟨_, rfl⟩
    · exact ⟨r.leaseDeadline, rfl⟩

theorem pushLocalEntry_sameVotes (entry : LogEntry C) : SameVotes r (r.pushLocalEntry entry) :=
  @SameVotes.trans _ _ ((r.pushEntry entry).setMatchIndex _ _) _
    ⟨rfl, rfl, rfl, rfl, rfl, rfl⟩ (advanceLeaderCommitIndex_sameVotes _)

theorem appendLocalEntry_sameVotes (cmd : C) : SameVotes r (r.appendLocalEntry cmd).2 := by
  unfold appendLocalEntry
  split
  · exact SameVotes.refl r
  · exact pushLocalEntry_sameVotes r _

/-- A leader appends the entry that comes next in its term; everything else is refused. -/
theorem appendExistingLocalEntry_cases (entry : LogEntry C) :
    (r.appendExistingLocalEntry entry).2 = r ∨ r.role = .leader ∧
      entry.index = saturatingAdd r.lastLogIndex 1 ∧ entry.term = r.currentTerm ∧
      (r.appendExistingLocalEntry entry).2 = r.pushLocalEntry entry := by
  unfold appendExistingLocalEntry
  split
  · exact .inl rfl
  · rename_i hrole
    split
    · exact .inl rfl
    · dsimp only
      split
      · exact .inl rfl
      · rename_i hidx
        split
        · exact .inl rfl
        · rename_i hterm
          exact .inr ⟨not_not.mp hrole, not_not.mp hidx, not_not.mp hterm, rfl⟩

theorem appendExistingLocalEntry_sameVotes (entry : LogEntry C) :
    SameVotes r (r.appendExistingLocalEntry entry).2 := by
  rcases r.appendExistingLocalEntry_cases entry with hsame | ⟨-, -, -, hpush⟩
  · rw [hsame]
    exact SameVotes.refl r
  · rw [hpush]
    exact pushLocalEntry_sameVotes r _

/-- Recording a match index changes the match indexes, the commit index and the lease. -/
theorem exists_recordReplicationMatch_eq (serverId matchIndex now : Nat) :
    ∃ matchIndexes commitIndex leaseDeadline,
      (r.recordReplicationMatch serverId matchIndex now).2 =
        { r with matchIndexes, commitIndex, leaseDeadline } := by
  unfold recordReplicationMatch
  split
  · exact ⟨_, _, _, rfl⟩
  · split
    · exact ⟨_, _, _, rfl⟩
    · obtain ⟨commitIndex, heq⟩ :=
        (r.setMatchIndex serverId matchIndex).exists_advanceLeaderCommitIndex_eq
      obtain ⟨deadline, heq'⟩ := exists_refreshLeaderLeaseIfQuorum_eq
        (r.setMatchIndex serverId matchIndex).advanceLeaderCommitIndex now
      dsimp only
      rw [heq', heq]
      exact ⟨_, _, _, rfl⟩

theorem recordReplicationMatch_sameVotes (serverId : Nat) (matchIndex : Nat) (now : Nat) :
    SameVotes r (r.recordReplicationMatch serverId matchIndex now).2 := by
  obtain ⟨_, _, _, heq⟩ := r.exists_recordReplicationMatch_eq serverId matchIndex now
  rw [heq]
  exact ⟨rfl, rfl, rfl, rfl, rfl, rfl⟩

theorem compactLogToSnapshot_sameVotes (metadata : RaftSnapshotMetadata) :
    SameVotes r (r.compactLogToSnapshot metadata).2 := by
  unfold compactLogToSnapshot
  split
  · exact SameVotes.refl r
  · split <;> exact ⟨rfl, rfl, rfl, rfl, rfl, rfl⟩

theorem adoptSnapshot_sameVotes (metadata : RaftSnapshotMetadata) :
    SameVotes r (r.adoptSnapshot metadata) := by
  unfold adoptSnapshot
  split <;> exact ⟨rfl, rfl, rfl, rfl, rfl, rfl⟩

/-! ## Messages from a leader -/

/-- As far as votes go, an AppendEntries request does nothing but make the server
follow a leader. -/
theorem appendEntries_retreat : Retreat r (r.appendEntries req).2 := by
  unfold appendEntries
  split
  · exact Retreat.refl r
  · have hspec := (followLeader_spec r req.term req.leaderId).1
    split
    · rename_i heq
      rwa [heq] at hspec
    · rename_i r' heq
      rw [heq] at hspec
      exact hspec.trans_sameVotes (checkPrevious_sameVotes r' req)

theorem installSnapshot_retreat (req : InstallSnapshotRequest) :
    Retreat r (r.installSnapshot req).2 := by
  unfold installSnapshot
  split
  · exact Retreat.refl r
  · split
    · exact Retreat.refl r
    · have hspec := (followLeader_spec r req.term req.leaderId).1
      split
      · rename_i heq
        rwa [heq] at hspec
      · rename_i r' heq
        rw [heq] at hspec
        exact hspec.trans_sameVotes (adoptSnapshot_sameVotes r' req.metadata)

/-! ## Elections -/

/-- `start_election` moves to the next term with the server's own vote, whether or
not the save succeeds; only a successful save returns the request. -/
theorem startElection_cases : ∃ store, r.startElection.2 = { r with
        role := .candidate, leaderId := none, votesReceived := {r.serverId}
        persistent := ⟨saturatingAdd r.currentTerm 1, some r.serverId⟩
        stateStore := store } ∧
      ((r.startElection.1 = .ok { term := saturatingAdd r.currentTerm 1
                                  candidateId := r.serverId
                                  lastLogIndex := r.lastLogIndex
                                  lastLogTerm := r.lastLogTerm } ∧
          store.file = .text (encodePersistentState
            ⟨saturatingAdd r.currentTerm 1, some r.serverId⟩)) ∨
        (∃ err, r.startElection.1 = .error err) ∧ store.file = r.stateStore.file) := by
  unfold startElection
  rcases saveState_cases ({ r with
    role := .candidate, leaderId := none, votesReceived := {r.serverId}
    persistent := ⟨saturatingAdd r.persistent.currentTerm 1, some r.serverId⟩ })
      with ⟨store, heq, hfile⟩ | ⟨err, store, heq, hfile⟩
  · refine ⟨store, ?_, .inl ⟨?_, hfile⟩⟩ <;> dsimp only <;> rw [heq] <;> rfl
  · refine ⟨store, ?_, .inr ⟨⟨err, ?_⟩, hfile⟩⟩ <;> dsimp only <;> rw [heq]
    rfl

/-- A vote is cast only in the voter's current term, for the first candidate that
asks, whose log must be up to date; the vote counts once it is saved. -/
theorem castVote_cases (req : RequestVoteRequest) :
    (r.castVote req = (.ok ⟨r.currentTerm, false⟩, r)) ∨
    ((r.votedFor = none ∨ r.votedFor = some req.candidateId) ∧
      r.isLogUpToDate req.lastLogIndex req.lastLogTerm = true ∧
      ∃ store, (r.castVote req).2 = { r with
          persistent := ⟨r.currentTerm, some req.candidateId⟩, stateStore := store } ∧
        (((r.castVote req).1 = .ok ⟨r.currentTerm, true⟩ ∧
            store.file = .text (encodePersistentState ⟨r.currentTerm, some req.candidateId⟩)) ∨
          (∃ err, (r.castVote req).1 = .error err) ∧ store.file = r.stateStore.file)) := by
  unfold castVote
  dsimp only
  split
  · rename_i hgrant
    refine .inr ⟨hgrant.1, hgrant.2, ?_⟩
    rcases saveState_cases ({ r with
      persistent := ⟨r.persistent.currentTerm, some req.candidateId⟩ })
        with ⟨store, heq, hfile⟩ | ⟨err, store, heq, hfile⟩
    · refine ⟨store, ?_, .inl ⟨?_, hfile⟩⟩ <;> rw [heq] <;> rfl
    · refine ⟨store, ?_, .inr ⟨⟨err, ?_⟩, hfile⟩⟩ <;> rw [heq]
      rfl
  · exact .inl rfl

/-- `request_vote` is a retreat to the request's term, possibly followed by a vote. -/
theorem requestVote_cases (req : RequestVoteRequest) :
    ∃ r₁, Retreat r r₁ ∧ SameLog r r₁ ∧ (r₁ = r ∨ r₁.role = .follower ∧ r₁.leaseDeadline = none) ∧
      ((r.requestVote req).2 = r₁ ∧
          (∀ resp, (r.requestVote req).1 = .ok resp → resp.voteGranted = false) ∨
        r₁.currentTerm = req.term ∧ r.requestVote req = r₁.castVote req) := by
  unfold requestVote
  split
  · refine ⟨r, Retreat.refl r, SameLog.refl r, .inl rfl, .inl ⟨rfl, ?_⟩⟩
    intro resp h
    cases h
    rfl
  · rename_i hstale
    split
    · rename_i hnewer
      obtain ⟨hret, hlog, hrole, hterm⟩ := stepDown_spec r req.term
      have hlease := stepDown_leaseDeadline r req.term
      split
      · rename_i err r₁ heq
        rw [heq] at hret hlog hrole hlease
        exact ⟨r₁, hret, hlog, .inr ⟨hrole, hlease⟩, .inl ⟨rfl, fun _ h => nomatch h⟩⟩
      · rename_i r₁ heq
        rw [heq] at hret hlog hrole hlease hterm
        refine ⟨r₁, hret, hlog, .inr ⟨hrole, hlease⟩, .inr ⟨?_, rfl⟩⟩
        simp only [currentTerm] at hterm ⊢
        omega
    · rename_i holder
      refine ⟨r, Retreat.refl r, SameLog.refl r, .inl rfl, .inr ⟨?_, rfl⟩⟩
      simp only [currentTerm]
      omega

/-- Becoming leader keeps everything but the role, the collected votes, the match
indexes and the lease. -/
theorem exists_becomeLeader_eq (now : Nat) : ∃ deadline, r.becomeLeader now = { r with
      role := .leader, leaderId := some r.serverId, votesReceived := ∅
      matchIndexes := Function.update (fun _ => none) r.serverId (some r.lastLogIndex)
      leaseDeadline := deadline } := by
  obtain ⟨deadline, heq⟩ := exists_refreshLeaderLeaseIfQuorum_eq ({ r with
    role := .leader, leaderId := some r.serverId, votesReceived := ∅
    matchIndexes := Function.update (fun _ => none) r.serverId
      (some r.lastLogIndex) }) now
  exact ⟨deadline, heq⟩

/-- The candidate with one more response counted. -/
def countVote (r : RaftCore C) (voterId : Nat) (response : RequestVoteResponse) :
    RaftCore C :=
  { r with votesReceived :=
      if response.voteGranted then insert voterId r.votesReceived else r.votesReceived }

/-- `record_vote_response` retreats before a later term, ignores what is not for the
current candidacy, and otherwise counts the vote and leads once it has a quorum. -/
theorem recordVoteResponse_cases (voterId : Nat) (response : RequestVoteResponse) (now : Nat) :
    (Retreat r (r.recordVoteResponse voterId response now).2 ∧
      SameLog r (r.recordVoteResponse voterId response now).2 ∧
      (r.recordVoteResponse voterId response now).1 ≠ .ok true ∧
      (r.recordVoteResponse voterId response now).2.role = .follower ∧
      (r.recordVoteResponse voterId response now).2.leaseDeadline = none ∨
      r.recordVoteResponse voterId response now = (.ok false, r)) ∨
    (r.role = .candidate ∧ response.term = r.currentTerm ∧
      (r.recordVoteResponse voterId response now =
          (.ok false, r.countVote voterId response) ∨
        r.membership.hasQuorum (r.countVote voterId response).votesReceived = true ∧
          r.recordVoteResponse voterId response now =
            (.ok true, (r.countVote voterId response).becomeLeader now))) := by
  unfold recordVoteResponse
  split
  · obtain ⟨hret, hlog, hrole, -⟩ := stepDown_spec r response.term
    have hlease := stepDown_leaseDeadline r response.term
    refine .inl (.inl ?_)
    split <;> rename_i heq <;> rw [heq] at hret hlog hrole hlease <;>
      exact ⟨hret, hlog, by simp, hrole, hlease⟩
  · split
    · exact .inl (.inr rfl)
    · rename_i hcur
      push Not at hcur
      refine .inr ⟨hcur.1, hcur.2, ?_⟩
      have hcount : (if response.voteGranted = true then
          { r with votesReceived := insert voterId r.votesReceived } else r) =
          r.countVote voterId response := by
        unfold countVote
        split <;> rfl
      simp only [hcount]
      split
      · rename_i hquorum
        exact .inr ⟨hquorum, rfl⟩
      · exact .inl rfl

end Neo4r.Raft.RaftCore
