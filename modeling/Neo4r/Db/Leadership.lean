/-
  `Db.Leadership`: where the leaders of a shard's Raft groups come from.

  The servers open and reopen their groups, install routing tables (which rebuilds the
  groups), vote, append and crash, in any order.  Beside them the model keeps a ledger
  of the votes that were given and the elections that were won by votes; no server
  reads it.

  A leader that won its election has the votes of a quorum.  Opening is the other way
  to become leader: it promotes the server the routing table names as primary, in
  whatever term its state file holds.  That is harmless only if the server has already
  won that term, so the result is about runs in which primaries open their groups in
  such terms; without the condition one term can have two leaders.
-/
import Neo4r.Db.Consensus
import Neo4r.Raft.LocalInvariant

set_option autoImplicit false

namespace Neo4r.Db

open Foundation Raft Storage Function RaftShardConsensus List.Subset List

variable {C : Type}

/-! ## Servers and ledger -/

/-- An election won by counting votes. -/
structure Win where
  shardId : Nat
  serverId : Nat
  term : Nat
  voters : Finset Nat
  deriving DecidableEq

/-- The votes given, the replies to vote requests and the elections won, by shard. -/
structure VoteLedger where
  granted : List (Nat × Ballot)
  replies : List (Nat × VoteReply)
  won : List Win

/-- A server: its groups while the database is open, and the state files of shards for
which it has no group. -/
structure DatabaseServer (C : Type) where
  consensus : Option (RaftShardConsensus C)
  stores : Nat → RaftPersistentStateStore

namespace DatabaseServer

/-- The group of a shard. -/
def group? (server : DatabaseServer C) (shardId : Nat) : Option (RaftCore C) :=
  server.consensus.bind fun consensus => consensus.groups[shardId]?

/-- The state file of a shard. -/
def store (server : DatabaseServer C) (shardId : Nat) : RaftPersistentStateStore :=
  match server.group? shardId with
  | some group => group.stateStore
  | none => server.stores shardId

/-- Replaces the group of a shard. -/
def setGroup (server : DatabaseServer C) (shardId : Nat) (group : RaftCore C) :
    DatabaseServer C :=
  { server with consensus := server.consensus.map fun consensus =>
      consensus.setGroup shardId group }

/-- The groups with the state files as they are now on disk. -/
def withStores (server : DatabaseServer C) (stores : Nat → RaftPersistentStateStore) :
    DatabaseServer C where
  consensus := server.consensus.map fun consensus => consensus.withStores stores
  stores := stores

variable {server : DatabaseServer C} {k : Nat} {core : RaftCore C}

theorem group?_setGroup {shard : Nat} {group : RaftCore C}
    (h : (server.setGroup shard group).group? k = some core) :
    k = shard ∧ core = group ∨ server.group? k = some core := by
  unfold setGroup group? at h
  cases hopen : server.consensus with
  | none => simp [hopen] at h
  | some consensus =>
    simp only [hopen, Option.map_some, Option.bind_some, RaftShardConsensus.setGroup,
      getElem?_set] at h
    split at h
    · rename_i heq
      split at h
      · exact .inl ⟨heq.symm, (Option.some.inj h).symm⟩
      · cases h
    · exact .inr (by simpa [group?, hopen] using h)

theorem group?_withStores {stores : Nat → RaftPersistentStateStore}
    (h : (server.withStores stores).group? k = some core) :
    ∃ group, server.group? k = some group ∧ core = { group with stateStore := stores k } := by
  unfold withStores group? at h
  cases hopen : server.consensus with
  | none => simp [hopen] at h
  | some =>
    simp only [hopen, Option.map_some, Option.bind_some, RaftShardConsensus.withStores,
      getElem?_mapIdx, Option.map_eq_some_iff] at h
    obtain ⟨group, hgroup, rfl⟩ := h
    exact ⟨group, by simpa [group?, hopen] using hgroup, rfl⟩

end DatabaseServer

/-- The servers and the ledger. -/
structure Deployment (C : Type) where
  server : Nat → DatabaseServer C
  ledger : VoteLedger

/-- What can happen: a server opens its groups (on a running server this is the rebuild
after a routing table was installed), it crashes or is closed, or one of its groups is
called. -/
inductive DeploymentEvent (C : Type)
  | openGroups (id : Nat) (table : ShardRoutingTable) (files : ConsensusFiles C) (now : Nat)
      (saves : Nat → List SaveOutcome)
  | close (id : Nat)
  | call (id shardId : Nat) (call : RaftCall C)

namespace Deployment

/-- The group of a shard on a server. -/
def group? (s : Deployment C) (id shardId : Nat) : Option (RaftCore C) :=
  (s.server id).group? shardId

variable (s : Deployment C)

/-- Replaces one server. -/
def setServer (id : Nat) (server : DatabaseServer C) : Deployment C :=
  { s with server := update s.server id server }

/-- The state files of a server, with the outcomes of the coming saves. -/
def storesFor (id : Nat) (saves : Nat → List SaveOutcome) (shardId : Nat) :
    RaftPersistentStateStore :=
  { (s.server id).store shardId with outcomes := saves shardId }

/-- Opening has voted for the server itself: the state file went from no term to a
vote in term 1. -/
def votedInOpen (id : Nat) (before after : RaftPersistentStateStore) : Bool :=
  match before.load, after.load with
  | .ok old, .ok new => old.currentTerm = 0 && new.currentTerm = 1 && new.votedFor = some id
  | _, _ => false

/-- A server opens its groups.  If that fails a running server keeps the groups it has,
on state files that may have changed. -/
def openServer (id : Nat) (table : ShardRoutingTable)
    (files : ConsensusFiles C) (now : Nat) (saves : Nat → List SaveOutcome) : Deployment C :=
  let before := s.storesFor id saves
  let (result, after) := openAll id table files now before
  let ownVotes := (range files.logs.length).filter fun shardId =>
    votedInOpen id (before shardId) (after shardId)
  { server := update s.server id (match result with
      | .ok consensus => ⟨some consensus, after⟩
      | .error _ => (s.server id).withStores after)
    ledger := { s.ledger with
      granted := (ownVotes.map fun shardId => (shardId, ⟨id, 1, id⟩)) ++ s.ledger.granted } }

/-- The ledger after an operation on a group. -/
def record (ledger : VoteLedger) (id shardId : Nat) (core : RaftCore C) :
    RaftOp C → VoteLedger
  | .startElection => { ledger with
      granted := (shardId, ⟨id, core.startElection.2.currentTerm, id⟩) :: ledger.granted }
  | .requestVote request =>
    match (core.requestVote request).1 with
    | .error _ => ledger
    | .ok response => { ledger with
        replies := (shardId, ⟨id, request.candidateId, response⟩) :: ledger.replies
        granted := if response.voteGranted then
            (shardId, ⟨id, response.term, request.candidateId⟩) :: ledger.granted
          else ledger.granted }
  | .recordVoteResponse voterId response now =>
    match core.recordVoteResponse voterId response now with
    | (.ok true, core) => { ledger with
        won := ⟨shardId, id, core.currentTerm, core.membership.voters⟩ :: ledger.won }
    | _ => ledger
  | _ => ledger

/-- The effect of an event. -/
def next : DeploymentEvent C → Deployment C
  | .openGroups id table files now saves => s.openServer id table files now saves
  | .close id => s.setServer id ⟨none, (s.server id).store⟩
  | .call id shardId call => match s.group? id shardId with
      | none => s
      | some core =>
        let core := core.withSaves call.saves
        { s.setServer id ((s.server id).setGroup shardId (call.op.apply core)) with
          ledger := record s.ledger id shardId core call.op }

/-- The guard of an event: a counted response is one that the voter gave to this
candidate, and the groups are not promoted or given other voters behind the back of
`open`. -/
def enabled : DeploymentEvent C → Bool
  | .openGroups .. => true
  | .close _ => true
  | .call id shardId call => match call.op with
      | .recordVoteResponse voterId response _ =>
        (shardId, ⟨voterId, id, response⟩) ∈ s.ledger.replies
      | .becomeLeader _ => false
      | .beginJointConsensus _ => false
      | .finalizeJointConsensus => false
      | .applyCommittedMembershipChange _ => false
      | _ => true

/-- No server is running and nothing has happened; the state files hold anything. -/
structure Fresh (s : Deployment C) : Prop where
  closed : ∀ id, (s.server id).consensus = none
  granted : s.ledger.granted = []
  replies : s.ledger.replies = []
  won : s.ledger.won = []

/-- The deployment as a machine. -/
def machine (C : Type) : Machine (Deployment C) (DeploymentEvent C) where
  init := Fresh
  enabled s e := s.enabled e = true
  next := next

instance (s : Deployment C) (e : DeploymentEvent C) : Decidable ((machine C).enabled s e) :=
  inferInstanceAs (Decidable (_ = true))

/-- A routing table that names the server as primary of a shard with several voters
names a server that has won its current term by the votes of these voters. -/
def primaryHasWon (id : Nat) (table : ShardRoutingTable)
    (shardId : Nat) : Bool :=
  match table.placement shardId, ((s.server id).store shardId).load with
  | some placement, .ok persistent =>
    placement.primaryServerId ≠ some id || (votersOf placement).card < 2 ||
      persistent.currentTerm ≠ 0 &&
        (⟨shardId, id, persistent.currentTerm, votersOf placement⟩ : Win) ∈ s.ledger.won
  | _, _ => true

/-- The condition on events: groups are opened by primaries that have won. -/
def opensWonTerms : DeploymentEvent C → Bool
  | .openGroups id table files _ _ =>
    (range files.logs.length).all fun shardId => s.primaryHasWon id table shardId
  | _ => true

/-- The runs in which primaries open their groups in terms they have won. -/
def wonMachine (C : Type) : Machine (Deployment C) (DeploymentEvent C) :=
  (machine C).restrict fun s e => s.opensWonTerms e = true

instance (s : Deployment C) (e : DeploymentEvent C) : Decidable ((wonMachine C).enabled s e) :=
  inferInstanceAs (Decidable (_ ∧ _))

end Deployment

/-! ## The invariant -/

/-- The ledger is sound: a granted reply stands for a vote, and a win for a quorum. -/
structure VoteLedger.Sound (ledger : VoteLedger) : Prop where
  replies : ∀ shardId reply, (shardId, reply) ∈ ledger.replies →
    reply.response.voteGranted = true →
    (shardId, (⟨reply.voter, reply.response.term, reply.candidate⟩ : Ballot)) ∈ ledger.granted
  won : ∀ win ∈ ledger.won, ∃ Q ⊆ win.voters, HasMajority win.voters Q ∧
    ∀ v ∈ Q, (win.shardId, (⟨v, win.term, win.serverId⟩ : Ballot)) ∈ ledger.granted

/-- Everything one ledger holds is in the other. -/
structure VoteLedger.Extends (ledger ledger' : VoteLedger) : Prop where
  granted : ledger.granted ⊆ ledger'.granted
  won : ledger.won ⊆ ledger'.won

theorem VoteLedger.Extends.refl (ledger : VoteLedger) : ledger.Extends ledger :=
  ⟨Subset.refl _, Subset.refl _⟩

/-- What holds of every group: the votes a candidate counts were given to it, and a
leader among several voters has won its term. -/
structure GroupVotes (ledger : VoteLedger) (id shardId : Nat) (core : RaftCore C) : Prop where
  serverId : core.serverId = id
  single : core.membership.outgoingVoters = none
  counted : core.role = .candidate → ∀ v ∈ core.votesReceived,
    (shardId, (⟨v, core.currentTerm, id⟩ : Ballot)) ∈ ledger.granted
  leads : core.role = .leader → 2 ≤ core.membership.voters.card →
    (⟨shardId, id, core.currentTerm, core.membership.voters⟩ : Win) ∈ ledger.won

/-- The invariant of a deployment. -/
structure LeaderInv (s : Deployment C) : Prop where
  ledger : s.ledger.Sound
  groups : ∀ id shardId core, s.group? id shardId = some core → GroupVotes s.ledger id shardId core

variable {ledger ledger' : VoteLedger} {id shard : Nat} {core core' : RaftCore C}

section

variable (h : GroupVotes ledger id shard core)

include h

theorem GroupVotes.mono (hext : ledger.Extends ledger') : GroupVotes ledger' id shard core where
  serverId := h.serverId
  single := h.single
  counted := fun hrole v hv => hext.granted (h.counted hrole v hv)
  leads := fun hrole hcard => hext.won (h.leads hrole hcard)

/-- Stepping down loses votes and leadership at most. -/
theorem GroupVotes.retreat (hret : RaftCore.Retreat core core') :
    GroupVotes ledger id shard core' := by
  refine ⟨hret.serverId.trans h.serverId, hret.membership ▸ h.single, ?_, ?_⟩
  · intro hrole v hv
    rcases hret.role with hfollows | ⟨hsame, hvotes, hterm⟩
    · rw [hfollows] at hrole
      cases hrole
    · rw [RaftCore.currentTerm, hterm]
      exact h.counted (hsame ▸ hrole) v (hvotes ▸ hv)
  · intro hrole hcard
    rcases hret.role with hfollows | ⟨hsame, -, hterm⟩
    · rw [hfollows] at hrole
      cases hrole
    · rw [RaftCore.currentTerm, hterm, hret.membership]
      exact h.leads (hsame ▸ hrole) (hret.membership ▸ hcard)

theorem GroupVotes.startElection :
    GroupVotes (Deployment.record ledger id shard core .startElection) id shard
      core.startElection.2 := by
  obtain ⟨store, heq, -⟩ := core.startElection_cases
  unfold Deployment.record
  rw [heq]
  refine ⟨h.serverId, h.single, ?_, nofun⟩
  intro _ v hv
  rw [Finset.mem_singleton.mp hv, h.serverId]
  exact .head _

theorem GroupVotes.castVote (req : RequestVoteRequest) :
    GroupVotes ledger id shard (core.castVote req).2 := by
  rcases core.castVote_cases req with heq | ⟨-, -, store, heq, -⟩
  · rw [heq]
    exact h
  · rw [heq]
    exact ⟨h.serverId, h.single, h.counted, h.leads⟩

theorem GroupVotes.requestVote (req : RequestVoteRequest) :
    GroupVotes ledger id shard (core.requestVote req).2 := by
  obtain ⟨r, hret, -, -, ⟨heq, -⟩ | ⟨-, heq⟩⟩ := core.requestVote_cases req
  · rw [heq]
    exact h.retreat hret
  · rw [heq]
    exact (h.retreat hret).castVote req

end

variable {voterId : Nat} {resp : RequestVoteResponse}

/-- A counted vote was given, because the response is a reply to this candidate. -/
theorem GroupVotes.countVote (h : GroupVotes ledger id shard core) (hledger : ledger.Sound)
    (hreply : (shard, ⟨voterId, id, resp⟩) ∈ ledger.replies)
    (hcand : core.role = .candidate) (hterm : resp.term = core.currentTerm) :
    ∀ v ∈ (core.countVote voterId resp).votesReceived,
      (shard, ⟨v, core.currentTerm, id⟩) ∈ ledger.granted := by
  intro v hv
  unfold RaftCore.countVote at hv
  split at hv
  · rename_i hgranted
    rcases Finset.mem_insert.mp hv with rfl | hv
    · have hvote := hledger.replies shard _ hreply hgranted
      rwa [hterm] at hvote
    · exact h.counted hcand v hv
  · exact h.counted hcand v hv

/-- A win may be recorded once a majority of its voters has given its vote. -/
theorem VoteLedger.Sound.addWin (hledger : ledger.Sound) {win : Win} {votes : Finset Nat}
    (hmaj : HasMajority win.voters votes)
    (hvotes : ∀ v ∈ votes, (win.shardId, ⟨v, win.term, win.serverId⟩) ∈ ledger.granted) :
    ({ ledger with won := win :: ledger.won }).Sound := by
  refine ⟨hledger.replies, fun other hother => ?_⟩
  rcases mem_cons.mp hother with rfl | hother
  · refine ⟨votes ∩ other.voters, Finset.inter_subset_right, hmaj.mono ?_, ?_⟩
    · exact fun v hv hvoter => Finset.mem_inter.mpr ⟨hv, hvoter⟩
    · exact fun v hv => hvotes v (Finset.mem_inter.mp hv).1
  · exact hledger.won other hother

/-- Counting a response keeps the group and the ledger sound; if it wins the election,
the votes counted are the quorum. -/
theorem GroupVotes.recordVoteResponse (h : GroupVotes ledger id shard core) (hledger : ledger.Sound)
    (now : Nat) (hreply : (shard, ⟨voterId, id, resp⟩) ∈ ledger.replies) :
    let op : RaftOp C := .recordVoteResponse voterId resp now
    (Deployment.record ledger id shard core op).Sound ∧
      ledger.Extends (Deployment.record ledger id shard core op) ∧
      GroupVotes (Deployment.record ledger id shard core op) id shard (op.apply core) := by
  dsimp only [Deployment.record, RaftOp.apply]
  rcases core.recordVoteResponse_cases voterId resp now with
    (⟨hret, -, hlost, -⟩ | heq) | ⟨hcand, hterm, hcount⟩
  · have hstay := h.retreat hret
    split
    · rename_i won heq
      rw [heq] at hlost
      exact absurd rfl hlost
    · exact ⟨hledger, .refl _, hstay⟩
  · rw [heq]
    exact ⟨hledger, .refl _, h⟩
  · have hvotes := h.countVote hledger hreply hcand hterm
    rcases hcount with heq | ⟨hquorum, heq⟩
    · rw [heq]
      exact ⟨hledger, .refl _, h.serverId, h.single, fun _ => hvotes,
        fun hrole => by cases hcand.symm.trans hrole⟩
    · obtain ⟨hid, hmembers, hrole, hterm'⟩ := becomeLeader_fields
        (core.countVote voterId resp) now
      have hmaj := ((RaftMembership.hasQuorum_iff _ _).mp hquorum).1
      rw [heq]
      dsimp only
      rw [hmembers, hterm']
      refine ⟨hledger.addWin hmaj hvotes,
        ⟨refl _, subset_cons_self _ _⟩, hid.trans h.serverId, ?_, ?_, ?_⟩
      · rw [hmembers]
        exact h.single
      · rw [hrole]
        nofun
      · intro _ _
        rw [hmembers, hterm']
        exact .head _

/-- Answering a vote request records the reply and the vote that goes with it. -/
theorem VoteLedger.Sound.requestVote (hledger : ledger.Sound) (id shard : Nat)
    (core : RaftCore C) (req : RequestVoteRequest) :
    (Deployment.record ledger id shard core (.requestVote req)).Sound ∧
      ledger.Extends (Deployment.record ledger id shard core (.requestVote req)) := by
  dsimp only [Deployment.record]
  split
  · exact ⟨hledger, .refl _⟩
  · rename_i resp _
    have hsub : ledger.granted ⊆ if resp.voteGranted = true then
        (shard, ⟨id, resp.term, req.candidateId⟩) :: ledger.granted
        else ledger.granted := by
      split
      · exact subset_cons_self _ _
      · exact refl _
    refine ⟨⟨?_, ?_⟩, hsub, refl _⟩
    · intro k reply hreply hgranted
      rcases mem_cons.mp hreply with heq | hold
      · cases heq
        rw [if_pos hgranted]
        exact .head _
      · exact hsub (hledger.replies k reply hold hgranted)
    · intro win hwin
      obtain ⟨Q, hQ, hmaj, hvotes⟩ := hledger.won win hwin
      exact ⟨Q, hQ, hmaj, fun v hv => hsub (hvotes v hv)⟩

theorem VoteLedger.extends_addVotes (ledger : VoteLedger) (votes : List (Nat × Ballot)) :
    ledger.Extends { ledger with granted := votes ++ ledger.granted } :=
  ⟨subset_append_right _ _, refl _⟩

/-- More votes leave the ledger sound. -/
theorem VoteLedger.Sound.addVotes (hledger : ledger.Sound) (votes : List (Nat × Ballot)) :
    ({ ledger with granted := votes ++ ledger.granted }).Sound where
  replies := fun k reply hreply hgranted =>
    mem_append_right _ (hledger.replies k reply hreply hgranted)
  won := fun win hwin => by
    obtain ⟨Q, hQ, hmaj, hvotes⟩ := hledger.won win hwin
    exact ⟨Q, hQ, hmaj, fun v hv => mem_append_right _ (hvotes v hv)⟩

/-- Every call a guard admits keeps the group and the ledger sound. -/
theorem GroupVotes.call {s : Deployment C} (h : GroupVotes s.ledger id shard core)
    (hledger : s.ledger.Sound) {call : RaftCall C}
    (henabled : s.enabled (.call id shard call) = true) :
    (Deployment.record s.ledger id shard core call.op).Sound ∧
      s.ledger.Extends (Deployment.record s.ledger id shard core call.op) ∧
      GroupVotes (Deployment.record s.ledger id shard core call.op) id shard
        (call.op.apply core) := by
  obtain ⟨op, saves⟩ := call
  have hquiet : ∀ core', RaftCore.Retreat core core' →
      s.ledger.Sound ∧ s.ledger.Extends s.ledger ∧ GroupVotes s.ledger id shard core' :=
    fun core' hret => ⟨hledger, .refl _, h.retreat hret⟩
  cases op with
  | withLeaseDuration => exact hquiet _ (RaftCore.SameVotes.retreat ⟨rfl, rfl, rfl, rfl, rfl, rfl⟩)
  | withLeaseClockBounds =>
    exact hquiet _ (RaftCore.SameVotes.retreat ⟨rfl, rfl, rfl, rfl, rfl, rfl⟩)
  | startElection =>
    exact ⟨hledger.addVotes [_], s.ledger.extends_addVotes [_], h.startElection⟩
  | becomeLeader => cases henabled
  | recordVoteResponse voterId resp now =>
    exact h.recordVoteResponse hledger now (of_decide_eq_true henabled)
  | requestVote req =>
    obtain ⟨hsound, hext⟩ := hledger.requestVote id shard core req
    exact ⟨hsound, hext, (h.requestVote req).mono hext⟩
  | appendEntries req => exact hquiet _ (core.appendEntries_retreat req)
  | installSnapshot req => exact hquiet _ (core.installSnapshot_retreat req)
  | compactLogToSnapshot metadata =>
    exact hquiet _ (core.compactLogToSnapshot_sameVotes metadata).retreat
  | appendLocalEntry cmd => exact hquiet _ (core.appendLocalEntry_sameVotes cmd).retreat
  | appendExistingLocalEntry entry =>
    exact hquiet _ (core.appendExistingLocalEntry_sameVotes entry).retreat
  | recordReplicationMatch server matchIndex now =>
    exact hquiet _ (core.recordReplicationMatch_sameVotes server matchIndex now).retreat
  | beginJointConsensus | finalizeJointConsensus | applyCommittedMembershipChange => cases henabled

/-! ## Runs -/

variable {s : Deployment C} {table : ShardRoutingTable}

/-- Replacing a server and extending the ledger keeps the invariant if the new groups
are as they should be. -/
theorem LeaderInv.setServer (inv : LeaderInv s) {server : DatabaseServer C} {ledger : VoteLedger}
    (hledger : ledger.Sound) (hext : s.ledger.Extends ledger)
    (hgroups : ∀ shard core, server.group? shard = some core → GroupVotes ledger id shard core) :
    LeaderInv ⟨update s.server id server, ledger⟩ := by
  refine ⟨hledger, fun id' shard core hcore => ?_⟩
  dsimp only [Deployment.group?] at hcore
  by_cases hid : id' = id
  · subst hid
    rw [update_self] at hcore
    exact hgroups shard core hcore
  · rw [update_of_ne hid] at hcore
    exact (inv.groups id' shard core hcore).mono hext

/-- A group opened in a run that meets the condition leads only a term it has won. -/
theorem GroupVotes.opened {saves : Nat → List SaveOutcome}
    (hopened : OpenedGroup id table shard (s.storesFor id saves shard) core)
    (hwon : s.primaryHasWon id table shard = true) : GroupVotes s.ledger id shard core := by
  obtain ⟨hid, place, persistent, hplace, hload, hmembers, hrole⟩ := hopened
  have hload' : ((s.server id).store shard).load = .ok persistent :=
    RaftPersistentStateStore.load_eq_ok_of_file_eq rfl hload
  refine ⟨hid, ?_, ?_, ?_⟩
  · rw [hmembers]
    rfl
  · intro hcand
    rcases hrole with hfollows | ⟨-, hleads, -⟩ <;> simp_all
  · intro hleads hcard
    rcases hrole with hfollows | ⟨hprim, -, hterm⟩
    · rw [hfollows] at hleads
      cases hleads
    · rw [hmembers, RaftMembership.ofVoters_voters] at hcard ⊢
      simp only [Deployment.primaryHasWon, hplace, hload', hprim, Bool.or_eq_true,
        Bool.and_eq_true, decide_eq_true_eq] at hwon
      obtain ⟨hnonzero, hmem⟩ := hwon.resolve_left (by
        rintro (hne | hsmall)
        · exact hne rfl
        · omega)
      rwa [hterm.resolve_left hnonzero]

theorem LeaderInv.openServer (inv : LeaderInv s) {files : ConsensusFiles C} (now : Nat)
    (saves : Nat → List SaveOutcome)
    (hwon : s.opensWonTerms (.openGroups id table files now saves) = true) :
    LeaderInv (s.openServer id table files now saves) := by
  unfold Deployment.openServer
  dsimp only
  refine inv.setServer (inv.ledger.addVotes _) (s.ledger.extends_addVotes _) ?_
  intro shard core hcore
  refine GroupVotes.mono ?_ (s.ledger.extends_addVotes _)
  rcases hopen : openAll id table files now (s.storesFor id saves) with ⟨result, stores⟩
  rw [hopen] at hcore
  cases result with
  | ok =>
    obtain ⟨hlen, hopened⟩ := openAll_opened hopen hcore
    exact GroupVotes.opened hopened (all_eq_true.mp hwon shard (mem_range.mpr hlen))
  | error =>
    obtain ⟨group, hgroup, rfl⟩ := DatabaseServer.group?_withStores hcore
    have hvotes := inv.groups id shard group hgroup
    exact ⟨hvotes.serverId, hvotes.single, hvotes.counted, hvotes.leads⟩

/-- Every event of a run that meets the condition keeps the invariant. -/
theorem LeaderInv.next (inv : LeaderInv s) {e : DeploymentEvent C}
    (henabled : s.enabled e = true) (hwon : s.opensWonTerms e = true) :
    LeaderInv (s.next e) := by
  cases e with
  | openGroups id table files now saves => exact inv.openServer now saves hwon
  | close => exact inv.setServer inv.ledger (.refl _) nofun
  | call id shard call =>
    dsimp only [Deployment.next]
    split
    · exact inv
    · rename_i core hcore
      have hvotes : GroupVotes s.ledger id shard (core.withSaves call.saves) :=
        (inv.groups id shard core hcore).retreat (core.withSaves_sameVotes _).retreat
      obtain ⟨hsound, hext, hafter⟩ := hvotes.call inv.ledger henabled
      refine inv.setServer hsound hext fun k group hgroup => ?_
      rcases DatabaseServer.group?_setGroup hgroup with ⟨rfl, rfl⟩ | hother
      · exact hafter
      · exact (inv.groups id k group hother).mono hext

theorem leaderInv_of_reachable (hs : (Deployment.wonMachine C).Reachable s) : LeaderInv s := by
  refine Machine.Reachable.invariant (P := LeaderInv) ?_ ?_ hs
  · intro s hs
    refine ⟨⟨?_, ?_⟩, ?_⟩
    · intro shard reply hreply
      rw [hs.replies] at hreply
      cases hreply
    · intro win hwin
      rw [hs.won] at hwin
      cases hwin
    · intro id shard core hcore
      simp [Deployment.group?, DatabaseServer.group?, hs.closed id] at hcore
  · rintro s e - inv ⟨henabled, hwon⟩
    exact inv.next henabled hwon

/-- **Leadership comes from votes.**  In every run in which primaries open their groups
in terms they have won, a leader among two or more voters has been given the vote of a
quorum of them in its term. -/
theorem leader_has_votes (hs : (Deployment.wonMachine C).Reachable s) {id shardId : Nat}
    {core : RaftCore C} (hcore : s.group? id shardId = some core)
    (hleads : core.role = .leader) (hvoters : 2 ≤ core.membership.voters.card) :
    ∃ Q ⊆ core.membership.voters, core.membership.hasQuorum Q = true ∧
      ∀ v ∈ Q, (shardId, (⟨v, core.currentTerm, id⟩ : Ballot)) ∈ s.ledger.granted := by
  have inv := leaderInv_of_reachable hs
  have hgroup := inv.groups id shardId core hcore
  obtain ⟨Q, hQ, hmajority, hvotes⟩ := inv.ledger.won _ (hgroup.leads hleads hvoters)
  refine ⟨Q, hQ, (RaftMembership.hasQuorum_iff _ _).mpr ⟨hmajority, ?_⟩, hvotes⟩
  rw [hgroup.single]
  nofun

/-- Servers that have never run. -/
def freshDeployment (C : Type) : Deployment C where
  server _ := ⟨none, fun _ => ⟨"raft/state", some "raft", "raft/state.tmp", .missing, []⟩⟩
  ledger := ⟨[], [], []⟩

theorem freshDeployment_fresh (C : Type) : (freshDeployment C).Fresh :=
  ⟨fun _ => rfl, rfl, rfl, rfl⟩

/-- One shard on the servers 1, 2 and 3. -/
def primaryTable (version primary : Nat) : ShardRoutingTable :=
  ⟨version, [⟨0, [1, 2, 3].map fun id => ⟨id, if id = primary then .primary else .replica⟩⟩]⟩

/-- A server opens its group of the shard, with an empty log. -/
def openEmpty (id version primary : Nat) : DeploymentEvent Nat :=
  .openGroups id (primaryTable version primary)
    ⟨[.empty Nat 0 100 (by decide)], fun _ => none, [0]⟩ 0 fun _ => []

/-- With server 1 out of action, server 2 wins term 1 by the vote of server 3 and is
then made the primary. -/
def electedPrimaryRun : List (DeploymentEvent Nat) :=
  [openEmpty 2 1 1, openEmpty 3 1 1, .call 2 0 ⟨.startElection, []⟩,
    .call 3 0 ⟨.requestVote ⟨1, 2, 0, 0⟩, []⟩,
    .call 2 0 ⟨.recordVoteResponse 3 ⟨1, true⟩ 0, []⟩, openEmpty 2 2 2]

/-- A running group, with a fact about it that can be evaluated. -/
theorem Deployment.exists_group (s : Deployment C) (id shard : Nat) (P : RaftCore C → Bool)
    (h : (s.group? id shard).any P = true) :
    ∃ core, s.group? id shard = some core ∧ P core = true := by
  cases hcore : s.group? id shard with
  | none => simp [hcore] at h
  | some core => exact ⟨core, rfl, by simpa [hcore] using h⟩

theorem leader_has_votes_electedPrimaryRun :
    let s := (Deployment.machine Nat).run (freshDeployment Nat) electedPrimaryRun
    ∃ core, s.group? 2 0 = some core ∧ core.role = .leader ∧ core.currentTerm = 1 ∧
      ∃ Q ⊆ core.membership.voters, core.membership.hasQuorum Q = true ∧
        ∀ v ∈ Q, (0, ⟨v, core.currentTerm, 2⟩) ∈ s.ledger.granted := by
  intro s
  have hrun : (Deployment.wonMachine Nat).Admissible (freshDeployment Nat)
      electedPrimaryRun := by decide +kernel
  have hs : (Deployment.wonMachine Nat).Reachable s :=
    (Machine.Reachable.start (freshDeployment_fresh Nat)).run hrun
  obtain ⟨core, hcore, hfacts⟩ := s.exists_group 2 0
    (fun core => core.role = .leader ∧ core.currentTerm = 1 ∧
      2 ≤ core.membership.voters.card) (by decide +kernel)
  obtain ⟨hleads, hterm, hvoters⟩ := of_decide_eq_true hfacts
  exact ⟨core, hcore, hleads, hterm, leader_has_votes hs hcore hleads hvoters⟩

/-- Server 1, the primary, votes for server 2 in term 2 and so makes it leader; then
server 1 is restarted. -/
def restartedPrimaryRun : List (DeploymentEvent Nat) :=
  [openEmpty 1 1 1, openEmpty 2 1 1, openEmpty 3 1 1, .call 2 0 ⟨.startElection, []⟩,
    .call 2 0 ⟨.startElection, []⟩, .call 1 0 ⟨.requestVote ⟨2, 2, 0, 0⟩, []⟩,
    .call 2 0 ⟨.recordVoteResponse 1 ⟨2, true⟩ 0, []⟩, .close 1, openEmpty 1 1 1]

/-- After that run servers 1 and 2 both lead term 2, and nobody has voted for server 1
in that term. -/
theorem leader_without_votes :
    let s := (Deployment.machine Nat).run (freshDeployment Nat) restartedPrimaryRun
    (Deployment.machine Nat).Admissible (freshDeployment Nat) restartedPrimaryRun ∧
      (∃ core, s.group? 1 0 = some core ∧ core.role = .leader ∧ core.currentTerm = 2 ∧
        core.membership.voters = {1, 2, 3}) ∧
      (∃ core, s.group? 2 0 = some core ∧ core.role = .leader ∧ core.currentTerm = 2) ∧
      ∀ v ∈ ({1, 2, 3} : Finset Nat), (0, ⟨v, 2, 1⟩) ∉ s.ledger.granted := by
  intro s
  obtain ⟨first, hfirst, hfacts⟩ := s.exists_group 1 0
    (fun core => core.role = .leader ∧ core.currentTerm = 2 ∧
      core.membership.voters = {1, 2, 3}) (by decide +kernel)
  obtain ⟨second, hsecond, hfacts'⟩ := s.exists_group 2 0
    (fun core => core.role = .leader ∧ core.currentTerm = 2) (by decide +kernel)
  obtain ⟨hleads, hterm, hvoters⟩ := of_decide_eq_true hfacts
  obtain ⟨hleads', hterm'⟩ := of_decide_eq_true hfacts'
  exact ⟨by decide +kernel, ⟨first, hfirst, hleads, hterm, hvoters⟩,
    ⟨second, hsecond, hleads', hterm'⟩, by decide +kernel⟩

end Neo4r.Db
