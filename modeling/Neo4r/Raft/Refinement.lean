/-
  `Raft.Refinement`: the servers of a shard refine the theory of replicated logs.

  A state of the system is related to a state of `Foundation.ReplicatedLog`: terms,
  logs and commit indexes are those of the servers, leaders are the winners of
  elections, and the history of a term is the log of its leader.  What servers and
  messages remember is justified by the record of the abstract state: counted votes by
  votes, match indexes by acknowledgements, commit indexes in messages by certificates.

  Every sound step of the system is a few steps of the theory at one node.
-/
import Neo4r.Foundation.ReplicatedLog
import Neo4r.Raft.AppendSpec
import Neo4r.Raft.Election
import Neo4r.Raft.LocalInvariant
import Neo4r.Raft.Replication

set_option autoImplicit false

namespace Neo4r.Raft

open Foundation RaftCore
open Foundation.ReplicatedLog (State Inv UpToDate lastTerm Backed)
open Function (update update_self update_of_ne)

variable {C : Type}

/-- The replicated log over servers and log entries. -/
abbrev LogState (C : Type) := State Nat (LogEntry C)

/-! ## The relation -/

/-- The log end a vote request states is at least as recent as a log. -/
def RequestVoteRequest.UpToDateWith (request : RequestVoteRequest) (log : List (LogEntry C)) :
    Prop :=
  lastTerm LogEntry.term log < request.lastLogTerm ∨
    request.lastLogTerm = lastTerm LogEntry.term log ∧ log.length ≤ request.lastLogIndex

/-- How a running server appears in the replicated log. -/
structure CoreView (a : LogState C) (issued : List RequestVoteRequest) (id : Nat)
    (core : RaftCore C) : Prop where
  term : a.term id = core.currentTerm
  log : a.log id = core.log
  commit : a.commit id = core.commitIndex
  snapshot : core.snapshot = none
  logInv : core.LogInv
  /-- A leader's match indexes are acknowledgements of its own term, and what is
  certified in its term it has committed. -/
  leading : core.role = .leader → a.leader core.currentTerm = some id ∧
    (∀ follower m, core.matchIndexes follower = some m → 0 < m →
      ⟨follower, core.currentTerm, m⟩ ∈ a.acks) ∧
    ∀ k, (core.currentTerm, k) ∈ a.certs → k ≤ core.commitIndex
  /-- A candidate's votes came from servers whose logs are not more recent, unless the
  term is already lost to somebody else. -/
  running : core.role = .candidate → a.leader core.currentTerm ≠ some id ∧
    (∀ entry ∈ core.log, entry.term < core.currentTerm) ∧
    ∀ v ∈ core.votesReceived, (∃ vote ∈ a.votes, vote.voter = v ∧
      vote.term = core.currentTerm ∧ vote.candidate = id ∧
      UpToDate LogEntry.term core.log vote.log) ∨ a.leader core.currentTerm ≠ none
  /-- The server's vote requests are of its term or older, and those of its present
  candidacy state the end of its log. -/
  issued : ∀ request ∈ issued, request.candidateId = id →
    request.term ≤ core.currentTerm ∧
      (core.role = .candidate → core.currentTerm = request.term →
        request.lastLogIndex = core.lastLogIndex ∧ request.lastLogTerm = core.lastLogTerm)

/-- A granted reply is a vote for a request of the candidate, unless the term already
had a leader. -/
def ReplyView (a : LogState C) (issued : List RequestVoteRequest) (reply : VoteReply) : Prop :=
  reply.response.voteGranted = true →
    (∃ vote ∈ a.votes, vote.voter = reply.voter ∧ vote.term = reply.response.term ∧
      vote.candidate = reply.candidate ∧ ∃ request ∈ issued,
        request.term = reply.response.term ∧ request.candidateId = reply.candidate ∧
          request.UpToDateWith vote.log) ∨
    a.leader reply.response.term ≠ none

/-- A request was read from a part of its term's history, and the commit index it
states is certified. -/
structure MessageView (a : LogState C) (message : AppendMessage C) : Prop where
  leader : a.leader message.request.term = some message.request.leaderId
  log : message.leaderLog <+: a.history message.request.term
  built : RaftCore.BuiltFrom message.leaderLog message.request
  commit_le : message.request.leaderCommit ≤ message.leaderLog.length
  commit_cert : message.request.leaderCommit = 0 ∨ ∃ t k, (t, k) ∈ a.certs ∧
    message.leaderLog.take message.request.leaderCommit <+: (a.history t).take k

/-- A successful answer is an acknowledgement in the term of the request. -/
def AnswerView (a : LogState C) (answer : AppendAnswer C) : Prop :=
  0 < answer.response.matchIndex →
    ⟨answer.follower, answer.request.term, answer.response.matchIndex⟩ ∈ a.acks

/-- The system state and the replicated log belong together. -/
structure Refines (voters : Finset Nat) (s : Replication C) (a : LogState C) : Prop where
  inv : Inv LogEntry.term voters a
  up : ∀ id core, s.cluster.server id = .up core → CoreView a s.cluster.issued id core
  down : ∀ id store, s.cluster.server id = .down store →
    a.term id = 0 ∧ a.log id = [] ∧ a.commit id = 0 ∧
      ∀ request ∈ s.cluster.issued, request.candidateId ≠ id
  leader : ∀ t id, a.leader t = some id ↔ (id, t) ∈ s.cluster.elected
  replies : ∀ reply ∈ s.cluster.replies, ReplyView a s.cluster.issued reply
  messages : ∀ message ∈ s.messages, MessageView a message
  answers : ∀ answer ∈ s.answers, AnswerView a answer

/-! ## Steps at one node -/

/-- The replicated log has moved on, at node `id` only. -/
structure Later (id : Nat) (a a' : LogState C) : Prop where
  term : ∀ j ≠ id, a'.term j = a.term j
  log : ∀ j ≠ id, a'.log j = a.log j
  commit : ∀ j ≠ id, a'.commit j = a.commit j
  leader : ∀ t, a'.leader t = a.leader t ∨ a.leader t = none ∧ a'.leader t = some id
  history : ∀ t, a.leader t ≠ none → a.history t <+: a'.history t
  votes : a.votes ⊆ a'.votes
  acks : a.acks ⊆ a'.acks
  certs : a.certs ⊆ a'.certs
  newCerts : ∀ t k, (t, k) ∈ a'.certs → (t, k) ∈ a.certs ∨ a'.leader t = some id

namespace Later

variable {id : Nat} {a a' a'' : LogState C} {t : Nat}

theorem leader_eq (h : Later id a a') (ht : a.leader t ≠ none) : a'.leader t = a.leader t := by
  rcases h.leader t with hsame | ⟨hnone, -⟩
  · exact hsame
  · exact absurd hnone ht

theorem leader_ne_none (h : Later id a a') (ht : a.leader t ≠ none) : a'.leader t ≠ none := by
  rw [h.leader_eq ht]
  exact ht

theorem leader_eq_some (h : Later id a a') {j : Nat} (ht : a.leader t = some j) :
    a'.leader t = some j := by
  rw [h.leader_eq (by rw [ht]; exact Option.some_ne_none j), ht]

theorem refl (id : Nat) (a : LogState C) : Later id a a where
  term _ _ := rfl
  log _ _ := rfl
  commit _ _ := rfl
  leader _ := .inl rfl
  history _ _ := List.prefix_refl _
  votes := subset_rfl
  acks := subset_rfl
  certs := subset_rfl
  newCerts _ _ h := .inl h

theorem trans (h : Later id a a') (h' : Later id a' a'') : Later id a a'' where
  term j hj := (h'.term j hj).trans (h.term j hj)
  log j hj := (h'.log j hj).trans (h.log j hj)
  commit j hj := (h'.commit j hj).trans (h.commit j hj)
  leader t := by
    rcases h.leader t with hsame | ⟨hnone, hsome⟩
    · rw [← hsame]
      exact h'.leader t
    · exact .inr ⟨hnone, h'.leader_eq_some hsome⟩
  history t ht := (h.history t ht).trans (h'.history t (h.leader_ne_none ht))
  votes := h.votes.trans h'.votes
  acks := h.acks.trans h'.acks
  certs := h.certs.trans h'.certs
  newCerts t k hc := by
    rcases h'.newCerts t k hc with hc | hlead
    · exact (h.newCerts t k hc).imp_right h'.leader_eq_some
    · exact .inr hlead

theorem raise (id : Nat) (a : LogState C) (t : Nat) :
    Later id a { a with term := update a.term id t } :=
  { refl id a with term := fun _ hj => update_of_ne hj _ _ }

theorem vote (id : Nat) (a : LogState C) (vote : ReplicatedLog.Vote Nat (LogEntry C)) :
    Later id a { a with votes := insert vote a.votes } :=
  { refl id a with votes := Set.subset_insert _ _ }

theorem ack (id : Nat) (a : LogState C) (ack : ReplicatedLog.Ack Nat) :
    Later id a { a with acks := insert ack a.acks } :=
  { refl id a with acks := Set.subset_insert _ _ }

theorem certify {k : Nat} (hlead : a.leader t = some id) :
    Later id a { a with certs := insert (t, k) a.certs } :=
  { refl id a with
    certs := Set.subset_insert _ _
    newCerts := by
      rintro t' k' (heq | hc)
      · cases heq
        exact .inr hlead
      · exact .inl hc }

theorem commit_at (id : Nat) (a : LogState C) (c : Nat) :
    Later id a { a with commit := update a.commit id c } :=
  { refl id a with commit := fun _ hj => update_of_ne hj _ _ }

theorem accept (id : Nat) (a : LogState C) (l : List (LogEntry C)) :
    Later id a { a with log := update a.log id l } :=
  { refl id a with log := fun _ hj => update_of_ne hj _ _ }

theorem elect (hnone : a.leader (a.term id) = none) :
    Later id a { a with
      leader := update a.leader (a.term id) (some id)
      history := update a.history (a.term id) (a.log id) } :=
  { refl id a with
    leader := by
      intro t
      by_cases ht : t = a.term id
      · rw [ht]
        exact .inr ⟨hnone, update_self _ _ _⟩
      · exact .inl (update_of_ne ht _ _)
    history := by
      intro t ht
      have hne : t ≠ a.term id := by
        rintro rfl
        exact ht hnone
      simp only [update_of_ne hne, List.prefix_rfl]
    newCerts := fun _ _ hc => .inl hc }

theorem append {entry : LogEntry C} (hsame : a.history (a.term id) = a.log id) :
    Later id a { a with
      log := update a.log id (a.log id ++ [entry])
      history := update a.history (a.term id) (a.log id ++ [entry]) } :=
  { refl id a with
    log := fun _ hj => update_of_ne hj _ _
    history := by
      intro t _
      by_cases ht : t = a.term id
      · simp [ht, hsame]
      · simp [ht] }

end Later

/-! ## Views survive steps elsewhere -/

variable {id : Nat} {a a' : LogState C} {voters : Finset Nat}
  {issued issued' : List RequestVoteRequest} {core : RaftCore C}

theorem CoreView.later {j : Nat} (h : CoreView a issued j core) (hj : j ≠ id) (hl : Later id a a')
    (hissued : ∀ req ∈ issued', req ∈ issued ∨ req.candidateId = id) :
    CoreView a' issued' j core where
  term := (hl.term j hj).trans h.term
  log := (hl.log j hj).trans h.log
  commit := (hl.commit j hj).trans h.commit
  snapshot := h.snapshot
  logInv := h.logInv
  leading hrole := by
    obtain ⟨hlead, hmatch, hcerts⟩ := h.leading hrole
    have hlead' := hl.leader_eq_some hlead
    refine ⟨hlead', fun follower m hm hpos => hl.acks (hmatch follower m hm hpos), ?_⟩
    intro k hk
    rcases hl.newCerts _ k hk with hk | hnew
    · exact hcerts k hk
    · rw [hlead', Option.some.injEq] at hnew
      exact absurd hnew hj
  running hrole := by
    obtain ⟨hlost, hlt, hvotes⟩ := h.running hrole
    refine ⟨?_, hlt, fun v hv => (hvotes v hv).imp ?_ hl.leader_ne_none⟩
    · rcases hl.leader core.currentTerm with hsame | ⟨-, hsome⟩
      · rwa [hsame]
      · rw [hsome]
        exact fun heq => hj (Option.some.inj heq).symm
    · rintro ⟨vote, hvote, hrest⟩
      exact ⟨vote, hl.votes hvote, hrest⟩
  issued req hreq hcand := by
    rcases hissued req hreq with hold | hnew
    · exact h.issued req hold hcand
    · exact absurd (hcand.symm.trans hnew) hj

theorem ReplyView.later {reply : VoteReply} (h : ReplyView a issued reply)
    (hl : Later id a a') (hissued : issued ⊆ issued') : ReplyView a' issued' reply := by
  intro hgranted
  refine (h hgranted).imp ?_ hl.leader_ne_none
  rintro ⟨vote, hvote, hvoter, hterm, hcand, req, hreq, hrest⟩
  exact ⟨vote, hl.votes hvote, hvoter, hterm, hcand, req, hissued hreq, hrest⟩

theorem MessageView.later {message : AppendMessage C} (h : MessageView a message)
    (inv : Inv LogEntry.term voters a) (hl : Later id a a') : MessageView a' message where
  leader := hl.leader_eq_some h.leader
  log := h.log.trans (hl.history _ (by rw [h.leader]; exact Option.some_ne_none _))
  built := h.built
  commit_le := h.commit_le
  commit_cert := h.commit_cert.imp_right fun ⟨t, k, hc, hin⟩ =>
    ⟨t, k, hl.certs hc, hin.trans ((hl.history t (inv.leader_of_cert hc)).take k)⟩

variable {s : Replication C} {core' : RaftCore C}

/-- The replicated log has moved on at node `id`, without a new leader, to where the
server appears as `core`. -/
structure Admits (voters : Finset Nat) (a : LogState C) (issued : List RequestVoteRequest)
    (id : Nat) (core : RaftCore C) (a' : LogState C) : Prop where
  inv : Inv LogEntry.term voters a'
  later : Later id a a'
  leader : a'.leader = a.leader
  view : CoreView a' issued id core

theorem CoreView.admits (h : CoreView a issued id core) (inv : Inv LogEntry.term voters a) :
    Admits voters a issued id core a :=
  ⟨inv, Later.refl id a, rfl, h⟩

theorem Admits.trans {a'' : LogState C} (h : Admits voters a issued id core a')
    (h' : Admits voters a' issued id core' a'') :
    Admits voters a issued id core' a'' :=
  ⟨h'.inv, h.later.trans h'.later, h'.leader.trans h.leader, h'.view⟩

/-- A step of one server: everything but that server's view and what the step adds to
the record carries over. -/
theorem Refines.move {s' : Replication C} (h : Refines voters s a) (hl : Later id a a')
    (inv' : Inv LogEntry.term voters a')
    (hserver : s'.cluster.server = update s.cluster.server id (.up core'))
    (hissued : ∀ req ∈ s'.cluster.issued, req ∈ s.cluster.issued ∨ req.candidateId = id)
    (hkept : s.cluster.issued ⊆ s'.cluster.issued) (hview : CoreView a' s'.cluster.issued id core')
    (hlead : ∀ t j, a'.leader t = some j ↔ (j, t) ∈ s'.cluster.elected)
    (hreplies :
      ∀ reply ∈ s'.cluster.replies, reply ∈ s.cluster.replies ∨
      ReplyView a' s'.cluster.issued reply)
    (hmessages : ∀ message ∈ s'.messages, message ∈ s.messages ∨ MessageView a' message)
    (hanswers : ∀ answer ∈ s'.answers, answer ∈ s.answers ∨ AnswerView a' answer) :
    Refines voters s' a' where
  inv := inv'
  up j core hup := by
    rw [hserver] at hup
    by_cases hj : j = id
    · subst hj
      rw [update_self] at hup
      cases hup
      exact hview
    · rw [update_of_ne hj] at hup
      exact (h.up j core hup).later hj hl hissued
  down j store hdown := by
    rw [hserver] at hdown
    by_cases hj : j = id
    · subst hj
      rw [update_self] at hdown
      cases hdown
    · rw [update_of_ne hj] at hdown
      obtain ⟨hterm, hlog, hcommit, hreqs⟩ := h.down j store hdown
      refine ⟨(hl.term j hj).trans hterm, (hl.log j hj).trans hlog,
        (hl.commit j hj).trans hcommit, fun req hreq hcand => ?_⟩
      rcases hissued req hreq with hold | hnew
      · exact hreqs req hold hcand
      · exact hj (hcand.symm.trans hnew)
  leader := hlead
  replies reply hreply := (hreplies reply hreply).elim
    (fun hold => (h.replies reply hold).later hl hkept) fun hnew => hnew
  messages message hmsg := (hmessages message hmsg).elim
    (fun hold => (h.messages message hold).later h.inv hl) fun hnew => hnew
  answers answer hanswer := (hanswers answer hanswer).elim
    (fun hold hpos => hl.acks (h.answers answer hold hpos)) fun hnew => hnew

/-- The common case: only the server's own state changes. -/
theorem Refines.setCore (h : Refines voters s a)
    (h' : Admits voters a s.cluster.issued id core' a') :
    Refines voters { s with cluster := s.cluster.setCore id core' } a' :=
  h.move h'.later h'.inv rfl (fun _ hreq => .inl hreq) (fun _ hreq => hreq) h'.view
    (fun t j => by rw [h'.leader]; exact h.leader t j) (fun _ hreply => .inl hreply)
    (fun _ hmsg => .inl hmsg) fun _ hanswer => .inl hanswer

/-! ## Views of one server -/

/-- Nothing a view speaks about has changed. -/
structure RaftCore.SameView (r r' : RaftCore C) : Prop where
  sameLog : RaftCore.SameLog r r'
  term : r'.currentTerm = r.currentTerm
  role : r'.role = r.role
  votes : r'.votesReceived = r.votesReceived
  matchIndexes : r'.matchIndexes = r.matchIndexes

theorem RaftCore.withSaves_sameView (core : RaftCore C) (saves : List SaveOutcome) :
    core.SameView (core.withSaves saves) := ⟨⟨rfl, rfl, rfl, rfl⟩, rfl, rfl, rfl, rfl⟩

variable {r r' : RaftCore C}

theorem RaftCore.SameLog.lastLogIndex_eq (h : RaftCore.SameLog r r') :
    r'.lastLogIndex = r.lastLogIndex := by
  rw [lastLogIndex, lastLogIndex, h.log, snapshotIndex_congr h.snapshot]

theorem RaftCore.SameLog.lastLogTerm_eq (h : RaftCore.SameLog r r') :
    r'.lastLogTerm = r.lastLogTerm := by
  rw [lastLogTerm, lastLogTerm, h.log, snapshotTerm, snapshotTerm, h.snapshot]

namespace CoreView

variable {core : RaftCore C}

section

variable (h : CoreView a issued id core)

include h

theorem same (hsame : core.SameView core') : CoreView a issued id core' where
  term := h.term.trans hsame.term.symm
  log := h.log.trans hsame.sameLog.log.symm
  commit := h.commit.trans hsame.sameLog.commitIndex.symm
  snapshot := hsame.sameLog.snapshot.trans h.snapshot
  logInv := hsame.sameLog.logInv h.logInv
  leading := by
    rw [hsame.role, hsame.term, hsame.matchIndexes, hsame.sameLog.commitIndex]
    exact h.leading
  running := by
    rw [hsame.role, hsame.term, hsame.votes, hsame.sameLog.log]
    exact h.running
  issued := by
    rw [hsame.role, hsame.term, hsame.sameLog.lastLogIndex_eq, hsame.sameLog.lastLogTerm_eq]
    exact h.issued

/-- The end of a server's log, as the votes compare it. -/
theorem lastLogIndex_eq : core.lastLogIndex = core.log.length := by
  rw [RaftCore.lastLogIndex_eq h.logInv.consecutive, snapshotIndex, h.snapshot]
  exact Nat.zero_add _

theorem lastLogTerm_eq : core.lastLogTerm = lastTerm LogEntry.term core.log := by
  rw [lastLogTerm, snapshotTerm, h.snapshot]
  rfl

/-- The view of a follower, which counts no votes and tracks no match indexes. -/
theorem ofFollower (hrole : core'.role = .follower) (hle : core.currentTerm ≤ core'.currentTerm)
    (hterm : a'.term id = core'.currentTerm) (hlog : a'.log id = core'.log)
    (hcommit : a'.commit id = core'.commitIndex) (hsnap : core'.snapshot = none)
    (hinv : core'.LogInv) : CoreView a' issued id core' where
  term := hterm
  log := hlog
  commit := hcommit
  snapshot := hsnap
  logInv := hinv
  leading hlead := by rw [hrole] at hlead; cases hlead
  running hcand := by rw [hrole] at hcand; cases hcand
  issued req hreq hcand :=
    ⟨(h.issued req hreq hcand).1.trans hle, fun hcand => by rw [hrole] at hcand; cases hcand⟩

/-- A server that ends as a follower, in the same or a later term, with its log. -/
theorem follow (inv : Inv LogEntry.term voters a) (core' : RaftCore C)
    (hsame : RaftCore.SameLog core core') (hrole : core'.role = .follower)
    (hle : core.currentTerm ≤ core'.currentTerm) :
    ∃ a', Admits voters a issued id core' a' :=
  ⟨{ a with term := update a.term id core'.currentTerm },
    inv.raise (h.term ▸ hle), Later.raise id a _, rfl,
    h.ofFollower hrole hle (update_self _ _ _) (h.log.trans hsame.log.symm)
      (h.commit.trans hsame.commitIndex.symm) (hsame.snapshot.trans h.snapshot)
      (hsame.logInv h.logInv)⟩

/-- More votes and acknowledgements do not disturb a view. -/
theorem record (hterm : a'.term = a.term) (hlog : a'.log = a.log) (hcommit : a'.commit = a.commit)
    (hleader : a'.leader = a.leader) (hvotes : a.votes ⊆ a'.votes) (hacks : a.acks ⊆ a'.acks)
    (hcerts : a'.certs = a.certs) : CoreView a' issued id core where
  term := hterm ▸ h.term
  log := hlog ▸ h.log
  commit := hcommit ▸ h.commit
  snapshot := h.snapshot
  logInv := h.logInv
  leading hrole := by
    obtain ⟨hlead, hmatch, hcert⟩ := h.leading hrole
    rw [hleader, hcerts]
    exact ⟨hlead, fun follower m hm hpos => hacks (hmatch follower m hm hpos), hcert⟩
  running hrole := by
    obtain ⟨hlost, hlt, hcounted⟩ := h.running hrole
    rw [hleader]
    refine ⟨hlost, hlt, fun v hv => (hcounted v hv).imp_left ?_⟩
    rintro ⟨vote, hvote, hrest⟩
    exact ⟨vote, hvotes hvote, hrest⟩
  issued := h.issued

end

end CoreView

theorem Admits.same {id : Nat} {a a' : LogState C} {voters : Finset Nat}
    {issued : List RequestVoteRequest} {core' : RaftCore C} (h : Admits voters a issued id core a')
    (hsame : core.SameView core') :
    Admits voters a issued id core' a' :=
  { h with view := h.view.same hsame }

end Neo4r.Raft
