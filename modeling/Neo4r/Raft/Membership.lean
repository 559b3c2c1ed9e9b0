/-
  `Raft.Membership`: voters, outgoing voters and learners of a Raft group
  (`neo4r-db/src/raft/membership.rs`).

  A membership is changed one operation at a time, and whatever the operation is, a quorum
  from before it and one from after it have a voter in common.
-/
import Neo4r.Db.Error
import Neo4r.Foundation.Machine
import Neo4r.Foundation.Majority

set_option autoImplicit false

namespace Neo4r.Raft

open Foundation Finset

/-- The membership of a group.  During joint consensus `outgoingVoters` holds the
voters of the configuration that is being left. -/
structure RaftMembership where
  voters : Finset Nat
  outgoingVoters : Option (Finset Nat)
  learners : Finset Nat
  deriving DecidableEq

/-- A change that has been committed and is applied to the membership. -/
inductive RaftMembershipChange
  | addLearner (serverId : Nat)
  | promoteLearner (serverId : Nat)
  | addVoter (serverId : Nat)
  | removeVoter (serverId : Nat)
  deriving DecidableEq, Repr

namespace RaftMembership

/-- The membership with only voters. -/
def ofVoters (voters : Finset Nat) : RaftMembership := ⟨voters, none, ∅⟩

/-- `RaftMembership::new`. -/
def new (voters : Finset Nat) : Except DatabaseError RaftMembership :=
  if voters = ∅ then
    .error (.invalidConfig "raft membership must contain at least one voter")
  else .ok (ofVoters voters)

variable (m : RaftMembership)

/-- Whether two configurations are active. -/
def isJoint : Bool := m.outgoingVoters.isSome

variable (serverId : Nat)

/-- Whether the server votes in one of the active configurations. -/
def contains : Bool := serverId ∈ m.voters || m.outgoingVoters.any fun voters => serverId ∈ voters

/-- Whether the server votes or learns. -/
def isMember : Bool := m.contains serverId || serverId ∈ m.learners

/-- A majority of every active configuration. -/
def hasQuorum (matched : Finset Nat) : Bool :=
  HasMajority m.voters matched && m.outgoingVoters.all fun voters => HasMajority voters matched

/-- The voters of all active configurations. -/
def allVoters : Finset Nat := m.voters ∪ m.outgoingVoters.getD ∅

/-- Enters joint consensus towards `nextVoters`. -/
def enterJoint (nextVoters : Finset Nat) :
    Except DatabaseError Unit × RaftMembership :=
  if nextVoters = ∅ then
    (.error (.invalidConfig "raft joint membership cannot be empty"), m)
  else (.ok (), { m with outgoingVoters := some m.voters, voters := nextVoters })

/-- Leaves joint consensus. -/
def finalizeJoint : RaftMembership := { m with outgoingVoters := none }

/-- Makes the server a voter. -/
def addVoter : RaftMembership :=
  { m with learners := m.learners.erase serverId, voters := insert serverId m.voters }

/-- Makes the server a learner. -/
def addLearner :
    Except DatabaseError Unit × RaftMembership :=
  if m.contains serverId then
    (.error (.invalidConfig s!"server {serverId} is already a raft voter"), m)
  else (.ok (), { m with learners := insert serverId m.learners })

/-- Turns a learner into a voter. -/
def promoteLearner :
    Except DatabaseError Unit × RaftMembership :=
  if serverId ∈ m.learners then
    (.ok (), { m with
      learners := m.learners.erase serverId, voters := insert serverId m.voters })
  else (.error (.invalidConfig s!"server {serverId} is not a raft learner"), m)

/-- Removes a server, unless it is the last voter. -/
def removeVoter :
    Except DatabaseError Unit × RaftMembership :=
  if m.voters.card = 1 ∧ serverId ∈ m.voters then
    (.error (.invalidConfig "raft membership cannot remove the last voter"), m)
  else
    (.ok (), { m with
      voters := m.voters.erase serverId, learners := m.learners.erase serverId })

/-! ## Quorums as propositions -/

theorem hasQuorum_iff (matched : Finset Nat) :
    m.hasQuorum matched = true ↔ HasMajority m.voters matched ∧
      ∀ outgoing, m.outgoingVoters = some outgoing → HasMajority outgoing matched := by
  cases h : m.outgoingVoters <;> simp [hasQuorum, h]

theorem hasQuorum_mono {m : RaftMembership} {A B : Finset Nat} (hA : m.hasQuorum A = true)
    (hsub : A ⊆ B) : m.hasQuorum B = true := by
  rw [hasQuorum_iff] at hA ⊢
  refine ⟨hA.1.mono fun v hv _ => hsub hv, fun outgoing heq => ?_⟩
  exact (hA.2 outgoing heq).mono fun v hv _ => hsub hv

theorem isMember_iff :
    m.isMember serverId = true ↔ serverId ∈ m.voters ∨ serverId ∈ m.learners ∨
      ∃ outgoing, m.outgoingVoters = some outgoing ∧ serverId ∈ outgoing := by
  cases h : m.outgoingVoters <;> simp [isMember, contains, h]; tauto

/-! ## A membership that only has voters -/

variable (voters : Finset Nat)

@[simp] theorem ofVoters_voters : (ofVoters voters).voters = voters := rfl

@[simp] theorem hasQuorum_ofVoters (matched : Finset Nat) :
    (ofVoters voters).hasQuorum matched = true ↔ HasMajority voters matched := by
  simp [hasQuorum_iff, ofVoters]

@[simp] theorem isMember_ofVoters :
    (ofVoters voters).isMember serverId = true ↔ serverId ∈ voters := by
  simp [isMember_iff, ofVoters]

/-! ## Changes -/

/-- The operations that change a membership. -/
inductive Operation
  | enterJoint (nextVoters : Finset Nat)
  | finalizeJoint
  | addVoter (serverId : Nat)
  | addLearner (serverId : Nat)
  | promoteLearner (serverId : Nat)
  | removeVoter (serverId : Nat)

/-- The membership after an operation, which leaves it as it is if it fails. -/
def perform : Operation → RaftMembership
  | .enterJoint nextVoters => (m.enterJoint nextVoters).2
  | .finalizeJoint => m.finalizeJoint
  | .addVoter serverId => m.addVoter serverId
  | .addLearner serverId => (m.addLearner serverId).2
  | .promoteLearner serverId => (m.promoteLearner serverId).2
  | .removeVoter serverId => (m.removeVoter serverId).2

/-- Joint consensus is not entered twice, which `begin_joint_consensus` sees to. -/
def Allowed : Operation → Prop
  | .enterJoint _ => m.isJoint = false
  | _ => True

/-- A membership from `new` on. -/
def membershipMachine : Machine RaftMembership Operation where
  init m := ∃ voters, new voters = .ok m
  enabled := Allowed
  next := perform

/-- Any quorum of the one membership shares a voter with any quorum of the other. -/
def Overlaps (m m' : RaftMembership) : Prop :=
  ∀ A B, m.hasQuorum A = true → m'.hasQuorum B = true →
    ∃ v, m.contains v = true ∧ m'.contains v = true ∧ v ∈ A ∧ v ∈ B

/-- The voters are those of one of the active configurations. -/
def Active (voters : Finset Nat) : Prop := m.voters = voters ∨ m.outgoingVoters = some voters

variable {m m' : RaftMembership} {voters voters' : Finset Nat}

theorem Active.hasMajority (h : m.Active voters) {A : Finset Nat} (hA : m.hasQuorum A = true) :
    HasMajority voters A := by
  rw [hasQuorum_iff] at hA
  rcases h with rfl | houtgoing
  · exact hA.1
  · exact hA.2 voters houtgoing

theorem Active.contains (h : m.Active voters) {v : Nat} (hv : v ∈ voters) :
    m.contains v = true := by
  rcases h with rfl | houtgoing
  · simp [RaftMembership.contains, hv]
  · simp [RaftMembership.contains, houtgoing, hv]

/-- Configurations that differ by at most one voter are enough. -/
theorem Overlaps.of_subset (h : m.Active voters) (h' : m'.Active voters')
    (hsub : voters ⊆ voters') (hcard : voters'.card ≤ voters.card + 1) : Overlaps m m' := by
  intro A B hA hB
  obtain ⟨v, hv, hvA, hvB⟩ :=
    (h.hasMajority hA).exists_mem_both_of_subset (h'.hasMajority hB) hsub hcard
  exact ⟨v, h.contains hv, h'.contains (hsub hv), hvA, hvB⟩

theorem Overlaps.symm (h : Overlaps m m') : Overlaps m' m := by
  intro B A hB hA
  obtain ⟨v, hv, hv', hvA, hvB⟩ := h A B hA hB
  exact ⟨v, hv', hv, hvB, hvA⟩

/-- What an operation does to the voters: nothing, one more, one less that is not the last, or
other voters with those from before still active. -/
theorem perform_cases (m : RaftMembership) (op : Operation) :
    (m.perform op).voters = m.voters ∨
    (∃ v, (m.perform op).voters = insert v m.voters) ∨
    (∃ v, (m.perform op).voters = m.voters.erase v ∧ ¬(m.voters.card = 1 ∧ v ∈ m.voters)) ∨
    (m.perform op).outgoingVoters = some m.voters ∧ (m.perform op).voters ≠ ∅ := by
  cases op with
  | enterJoint =>
    rw [perform, enterJoint]
    split
    · exact .inl rfl
    · next hnonempty => exact .inr (.inr (.inr ⟨rfl, hnonempty⟩))
  | finalizeJoint => exact .inl rfl
  | addVoter serverId => exact .inr (.inl ⟨serverId, rfl⟩)
  | addLearner =>
    rw [perform, addLearner]
    split <;> exact .inl rfl
  | promoteLearner serverId =>
    rw [perform, promoteLearner]
    split
    · exact .inr (.inl ⟨serverId, rfl⟩)
    · exact .inl rfl
  | removeVoter serverId =>
    rw [perform, removeVoter]
    split
    · exact .inl rfl
    · next hlast => exact .inr (.inr (.inl ⟨serverId, rfl, hlast⟩))

theorem overlaps_perform (m : RaftMembership) (op : Operation) :
    Overlaps m (m.perform op) := by
  rcases m.perform_cases op with h | ⟨v, h⟩ | ⟨v, h, -⟩ | ⟨h, -⟩
  · exact .of_subset (.inl rfl) (.inl h) subset_rfl (Nat.le_succ _)
  · exact .of_subset (.inl rfl) (.inl h) (subset_insert _ _) (card_insert_le _ _)
  · exact (Overlaps.of_subset (.inl h) (.inl rfl) (erase_subset _ _)
      (Nat.sub_le_iff_le_add.mp pred_card_le_card_erase)).symm
  · exact .of_subset (.inl rfl) (.inr h) subset_rfl (Nat.le_succ _)

theorem nonempty_perform (hne : m.voters.Nonempty) (op : Operation) :
    (m.perform op).voters.Nonempty := by
  rcases m.perform_cases op with h | ⟨v, h⟩ | ⟨v, h, hlast⟩ | ⟨-, h⟩
  · rwa [h]
  · rw [h]
    exact insert_nonempty _ _
  · rw [h]
    by_cases hmem : v ∈ m.voters
    · have hother : m.voters.card ≠ 1 := fun hone => hlast ⟨hone, hmem⟩
      have hpos := card_pos.mpr hne
      refine card_pos.mp ?_
      rw [card_erase_of_mem hmem]
      omega
    · rwa [erase_eq_of_notMem hmem]
  · exact nonempty_iff_ne_empty.mpr h

/-- **Quorums overlap across a change of the membership**, from any membership that is
reached from `new`, and there is always a voter. -/
theorem quorums_overlap (h : membershipMachine.Reachable m) :
    m.voters.Nonempty ∧
      ∀ operation, membershipMachine.enabled m operation →
        Overlaps m (membershipMachine.next m operation) := by
  refine ⟨?_, fun operation _ => overlaps_perform m operation⟩
  refine h.invariant (P := fun m => m.voters.Nonempty) ?_ ?_
  · rintro m ⟨voters, hnew⟩
    unfold new at hnew
    split at hnew
    · cases hnew
    · next hvoters =>
      cases hnew
      exact nonempty_iff_ne_empty.mpr hvoters
  · exact fun m operation _ hne _ => nonempty_perform hne operation

theorem quorums_overlap_removedInJoint :
    Overlaps (perform (ofVoters {1, 2}) (.enterJoint {2, 3}))
      (perform (perform (ofVoters {1, 2}) (.enterJoint {2, 3})) (.removeVoter 3)) := by
  have hstart : membershipMachine.Reachable (ofVoters {1, 2}) := .start ⟨{1, 2}, rfl⟩
  have hjoint : membershipMachine.enabled (ofVoters {1, 2}) (.enterJoint {2, 3}) :=
    show (ofVoters {1, 2}).isJoint = false from rfl
  have hentered : membershipMachine.Reachable (perform (ofVoters {1, 2}) (.enterJoint {2, 3})) :=
    hstart.step hjoint
  exact (quorums_overlap hentered).2 (.removeVoter 3) trivial

end RaftMembership

end Neo4r.Raft
