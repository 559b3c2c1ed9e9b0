/-
  `Db.StaticPrimary`: replication with a fixed primary
  (`StaticPrimaryShardReplication` in `neo4r-db/src/consensus.rs`).

  A proposal gets its index under the lock, publishes its entry without it, and takes the
  lock again to mark the entry committed or to give the index back; the steps of other
  proposals come in between.
-/
import Neo4r.Db.Error
import Neo4r.Foundation.Machine
import Neo4r.Foundation.Word

set_option autoImplicit false

namespace Neo4r.Db

open Foundation Function

/-- `InProcessShardState`. -/
structure InProcessShardState where
  currentTerm : Nat
  nextIndex : Nat
  commitIndex : Nat

/-- How far a call of `propose` has come. -/
inductive ProposalStage
  | allocated
  /-- `publish` has returned. -/
  | succeeded
  | failed
  /-- The call has returned. -/
  | committed
  | rolledBack
  deriving DecidableEq

/-- A call of `propose` and its entry. -/
structure Proposal (C : Type) where
  entry : LogEntry C
  stage : ProposalStage

namespace Proposal

variable {C : Type}

/-- The entry was given to `publish`. -/
def Published (p : Proposal C) : Prop := p.stage ≠ .allocated

/-- The publish succeeded. -/
def Succeeded (p : Proposal C) : Prop := p.stage = .succeeded ∨ p.stage = .committed

/-- The index is not given back. -/
def Live (p : Proposal C) : Prop := p.stage ≠ .rolledBack

theorem Succeeded.live {p : Proposal C} (h : p.Succeeded) : p.Live := by
  rcases h with h | h <;> simp [Live, h]

end Proposal

/-- `StaticPrimaryShardReplication` with the calls of `propose`; a shard without a state has
the default one. -/
structure StaticPrimaryShardReplication (C : Type) where
  serverId : Nat
  routingTable : ShardRoutingTable
  states : Nat → InProcessShardState
  proposals : Nat → Option (Proposal C)

namespace StaticPrimaryShardReplication

variable {C : Type}

/-- `ensure_local_primary`. -/
def ensureLocalPrimary (s : StaticPrimaryShardReplication C) (shardId : Nat) :
    Except DatabaseError Unit :=
  let primaryServerId := s.routingTable.primaryServerId shardId
  if primaryServerId ≠ some s.serverId then
    .error (.shardNotPrimary shardId s.serverId primaryServerId)
  else .ok ()

/-- The proposal and the state of its shard, after a step. -/
def record (s : StaticPrimaryShardReplication C) (i : Nat) (p : Proposal C)
    (state : InProcessShardState) : StaticPrimaryShardReplication C :=
  { s with
    states := update s.states p.entry.shardId state
    proposals := update s.proposals i (some p) }

/-- `allocate_entry`, with the timestamp that the clock gives. -/
def allocateEntry (s : StaticPrimaryShardReplication C) (i shardId : Nat) (command : C)
    (timestamp : HybridTimestamp) : StaticPrimaryShardReplication C :=
  match s.ensureLocalPrimary shardId with
  | .error _ => s
  | .ok () =>
    let state := s.states shardId
    let entry := LogEntry.newWithMetadata shardId state.currentTerm state.nextIndex s.serverId
      s.routingTable.version timestamp command
    s.record i ⟨entry, .allocated⟩ { state with nextIndex := saturatingAdd state.nextIndex 1 }

/-- `rollback_proposal`. -/
def rollbackProposal (state : InProcessShardState) (entry : LogEntry C) : InProcessShardState :=
  if state.nextIndex = saturatingAdd entry.index 1 ∧ state.commitIndex < entry.index ∧
      state.currentTerm = entry.term then
    { state with nextIndex := entry.index }
  else state

/-- `mark_committed`. -/
def markCommitted (state : InProcessShardState) (entry : LogEntry C) : InProcessShardState where
  currentTerm := max state.currentTerm entry.term
  nextIndex := max state.nextIndex (saturatingAdd entry.index 1)
  commitIndex := max state.commitIndex entry.index

/-- The steps of `propose`, for any number of calls. -/
inductive Step (C : Type)
  | allocate (i shardId : Nat) (command : C) (timestamp : HybridTimestamp)
  | publish (i : Nat) (ok : Bool)
  | finish (i : Nat)

/-- `propose`, step by step. -/
def next (s : StaticPrimaryShardReplication C) : Step C → StaticPrimaryShardReplication C
  | .allocate i shardId command timestamp => s.allocateEntry i shardId command timestamp
  | .publish i ok => match s.proposals i with
    | some p =>
      s.record i ⟨p.entry, if ok then .succeeded else .failed⟩ (s.states p.entry.shardId)
    | none => s
  | .finish i => match s.proposals i with
    | some p =>
      let state := s.states p.entry.shardId
      if p.stage = .succeeded then s.record i ⟨p.entry, .committed⟩ (markCommitted state p.entry)
      else s.record i ⟨p.entry, .rolledBack⟩ (rollbackProposal state p.entry)
    | none => s

/-- Calls of `propose` in any interleaving. -/
def machine (C : Type) : Machine (StaticPrimaryShardReplication C) (Step C) where
  init s := s.states = (fun _ => ⟨1, 1, 0⟩) ∧ s.proposals = fun _ => none
  enabled s
    | .allocate i _ _ _ => s.proposals i = none
    | .publish i _ => ∃ p, s.proposals i = some p ∧ p.stage = .allocated
    | .finish i => ∃ p, s.proposals i = some p ∧ (p.stage = .succeeded ∨ p.stage = .failed)
  next := next

/-- The proposal has the shard and the index. -/
def At (s : StaticPrimaryShardReplication C) (shardId index i : Nat) (p : Proposal C) : Prop :=
  s.proposals i = some p ∧ p.entry.shardId = shardId ∧ p.entry.index = index

/-- Every index up to the commit index was given to exactly one entry whose publish
succeeded. -/
def NoHoles (s : StaticPrimaryShardReplication C) : Prop :=
  ∀ shardId index, 1 ≤ index → index ≤ (s.states shardId).commitIndex →
    ∃! i, ∃ p, s.At shardId index i p ∧ p.Succeeded

/-- Entries published with the same shard, term and index have the same command. -/
def PublishedOnce (s : StaticPrimaryShardReplication C) : Prop :=
  ∀ i j p q, s.proposals i = some p → s.proposals j = some q → p.Published → q.Published →
    p.entry.shardId = q.entry.shardId → p.entry.term = q.entry.term →
    p.entry.index = q.entry.index → p.entry.command = q.entry.command

/-- The condition on a step: indexes do not run out, an index at which a publish failed is not
published again, and entries are marked committed in the order of their indexes. -/
def InOrder (s : StaticPrimaryShardReplication C) : Step C → Prop
  | .allocate _ shardId _ _ => (s.states shardId).nextIndex < u64Max
  | .publish i _ => ∀ p, s.proposals i = some p → ∀ j q,
      s.At p.entry.shardId p.entry.index j q → q.Published → q.Succeeded
  | .finish i => ∀ p, s.proposals i = some p → p.stage = .succeeded →
      p.entry.index = (s.states p.entry.shardId).commitIndex + 1

/-! ## The invariant -/

/-- At most one proposal of a shard and index has the property. -/
def Once (s : StaticPrimaryShardReplication C) (P : Proposal C → Prop) : Prop :=
  ∀ shardId index i j p q, s.At shardId index i p → s.At shardId index j q → P p → P q → i = j

/-- What holds between any two steps. -/
structure Inv (s : StaticPrimaryShardReplication C) : Prop where
  below : ∀ shardId index i p, s.At shardId index i p → p.Live →
    index < (s.states shardId).nextIndex
  live : s.Once Proposal.Live
  published : s.Once Proposal.Published
  committed : ∀ shardId index, 1 ≤ index → index ≤ (s.states shardId).commitIndex →
    ∃ i p, s.At shardId index i p ∧ p.Succeeded

variable {s : StaticPrimaryShardReplication C} {i : Nat} {p : Proposal C}
  {state : InProcessShardState}

theorem states_record (shardId : Nat) : (s.record i p state).states shardId =
    if shardId = p.entry.shardId then state else s.states shardId :=
  update_apply ..

theorem at_record {shard index j : Nat} {q : Proposal C} :
    (s.record i p state).At shard index j q ↔
      j = i ∧ q = p ∧ p.entry.shardId = shard ∧ p.entry.index = index ∨
        j ≠ i ∧ s.At shard index j q := by
  unfold At record
  dsimp only
  by_cases hj : j = i
  · subst hj
    rw [update_self, Option.some.injEq]
    constructor
    · rintro ⟨rfl, hat⟩
      exact .inl ⟨rfl, rfl, hat⟩
    · rintro (⟨-, rfl, hshard, hindex⟩ | ⟨hne, -⟩)
      · exact ⟨rfl, hshard, hindex⟩
      · exact absurd rfl hne
  · simp [hj]

theorem Once.record {P : Proposal C → Prop} (h : s.Once P)
    (hnew : P p → ∀ j q, j ≠ i → s.At p.entry.shardId p.entry.index j q → ¬P q) :
    (s.record i p state).Once P := by
  intro shard index j k q r hj hk hq hr
  rcases at_record.mp hj with ⟨hji, rfl, rfl, rfl⟩ | ⟨hji, hj'⟩
  · rcases at_record.mp hk with ⟨hki, -⟩ | ⟨hki, hk'⟩
    · exact hji.trans hki.symm
    · exact absurd hr (hnew hq k r hki hk')
  · rcases at_record.mp hk with ⟨-, rfl, rfl, rfl⟩ | ⟨-, hk'⟩
    · exact absurd hq (hnew hr j q hji hj')
    · exact h shard index j k q r hj' hk' hq hr

/-- A step keeps the invariant if the proposal keeps its entry and its success, no other
proposal uses its index, and all indexes in use stay below the next one. -/
theorem Inv.record (h : Inv s)
    (hkept : ∀ old, s.proposals i = some old → old.entry = p.entry ∧ (old.Succeeded → p.Succeeded))
    (hbelow : p.Live → p.entry.index < state.nextIndex)
    (hothers : ∀ index j q, j ≠ i → s.At p.entry.shardId index j q → q.Live →
      index < state.nextIndex)
    (hlive : p.Live → ∀ j q, j ≠ i → s.At p.entry.shardId p.entry.index j q → ¬q.Live)
    (hpub : p.Published → ∀ j q, j ≠ i → s.At p.entry.shardId p.entry.index j q → ¬q.Published)
    (hcommit : ∀ index ≤ state.commitIndex, index ≤ (s.states p.entry.shardId).commitIndex ∨
      p.Succeeded ∧ p.entry.index = index) :
    Inv (s.record i p state) := by
  -- an entry that was published with success before the step still is
  have hstays : ∀ shard index, (∃ j q, s.At shard index j q ∧ q.Succeeded) →
      ∃ j q, (s.record i p state).At shard index j q ∧ q.Succeeded := by
    rintro shard index ⟨j, q, hat, hq⟩
    by_cases hj : j = i
    · subst hj
      obtain ⟨hentry, hsucceeded⟩ := hkept q hat.1
      exact ⟨j, p, at_record.mpr (.inl ⟨rfl, rfl, hentry ▸ hat.2⟩), hsucceeded hq⟩
    · exact ⟨j, q, at_record.mpr (.inr ⟨hj, hat⟩), hq⟩
  refine ⟨?below, Once.record h.live hlive, Once.record h.published hpub, ?committed⟩
  case below =>
    intro shard index j q hat hq
    rw [states_record]
    rcases at_record.mp hat with ⟨rfl, rfl, rfl, rfl⟩ | ⟨hj, hat⟩
    · rw [if_pos rfl]
      exact hbelow hq
    · split
      · next heq =>
        subst heq
        exact hothers index j q hj hat hq
      · exact h.below shard index j q hat hq
  case committed =>
    intro shard index hpos hle
    rw [states_record] at hle
    split at hle
    · next heq =>
      subst heq
      rcases hcommit index hle with hle | ⟨hsucceeded, hindex⟩
      · exact hstays _ _ (h.committed _ index hpos hle)
      · exact ⟨i, p, at_record.mpr (.inl ⟨rfl, rfl, rfl, hindex⟩), hsucceeded⟩
    · exact hstays _ _ (h.committed shard index hpos hle)

section Steps

variable {shard : Nat}

theorem Inv.allocate (h : Inv s) (hfree : s.proposals i = none)
    (hroom : (s.states shard).nextIndex < u64Max) (cmd : C) (timestamp : HybridTimestamp) :
    Inv (s.allocateEntry i shard cmd timestamp) := by
  unfold allocateEntry
  split
  · exact h
  · -- the indexes in use are below the new one
    have hnext := saturatingAdd_one_of_lt hroom
    refine h.record ?kept ?below ?others ?live ?pub ?commit
    case kept =>
      intro old hold
      rw [hfree] at hold
      cases hold
    case below =>
      intro _
      change (s.states shard).nextIndex < saturatingAdd (s.states shard).nextIndex 1
      omega
    case others =>
      intro index j q _ hat hq
      have hlt := h.below _ _ _ _ hat hq
      change index < saturatingAdd (s.states shard).nextIndex 1
      change index < (s.states shard).nextIndex at hlt
      omega
    case live => exact fun _ j q _ hat hq => Nat.lt_irrefl _ (h.below _ _ _ _ hat hq)
    case pub => exact fun hpub => absurd rfl hpub
    case commit => exact fun _ hle => .inl hle

variable (hp : s.proposals i = some p)

include hp

/-- The entry of a proposal stays the same. -/
theorem kept_of_stage {stage : ProposalStage} (hstage : p.Succeeded → stage = .committed) :
    ∀ old, s.proposals i = some old → old.entry = p.entry ∧
      (old.Succeeded → (Proposal.mk p.entry stage).Succeeded) := by
  intro old hold
  obtain rfl := Option.some.inj (hold.symm.trans hp)
  exact ⟨rfl, fun hsucceeded => .inr (hstage hsucceeded)⟩

/-- No other proposal that is live has the index of one that is. -/
theorem Inv.alone (h : Inv s) (hlive : p.Live) :
    ∀ j q, j ≠ i → s.At p.entry.shardId p.entry.index j q → ¬q.Live :=
  fun j q hj hat hq => hj (h.live _ _ j i q p hat ⟨hp, rfl, rfl⟩ hq hlive)

theorem Inv.publish (h : Inv s) (hstage : p.stage = .allocated)
    (horder : ∀ j q, s.At p.entry.shardId p.entry.index j q → q.Published → q.Succeeded)
    (ok : Bool) :
    Inv (s.record i ⟨p.entry, if ok then .succeeded else .failed⟩ (s.states p.entry.shardId)) := by
  have hlive : p.Live := by simp [Proposal.Live, hstage]
  have halone := h.alone hp hlive
  refine h.record ?kept ?below ?others ?live ?pub ?commit
  case kept =>
    intro old hold
    obtain rfl := Option.some.inj (hold.symm.trans hp)
    exact ⟨rfl, fun hsucceeded => by simp [Proposal.Succeeded, hstage] at hsucceeded⟩
  case below => exact fun _ => h.below _ _ i p ⟨hp, rfl, rfl⟩ hlive
  case others => exact fun _ j q _ hat hq => h.below _ _ j q hat hq
  case live => exact fun _ => halone
  case pub =>
    -- what was published at the index before has succeeded, so it is live
    exact fun _ j q hj hat hq => halone j q hj hat (horder j q hat hq).live
  case commit => exact fun _ hle => .inl hle

theorem Inv.commit (h : Inv s) (hstage : p.stage = .succeeded)
    (horder : p.entry.index = (s.states p.entry.shardId).commitIndex + 1) :
    Inv (s.record i ⟨p.entry, .committed⟩
      (markCommitted (s.states p.entry.shardId) p.entry)) := by
  have hlive : p.Live := Proposal.Succeeded.live (.inl hstage)
  have halone := h.alone hp hlive
  have hpublished : p.Published := by simp [Proposal.Published, hstage]
  refine h.record ?kept ?below ?others ?live ?pub ?commit
  case kept => exact kept_of_stage hp fun _ => rfl
  case below =>
    exact fun _ => (h.below _ _ i p ⟨hp, rfl, rfl⟩ hlive).trans_le (Nat.le_max_left _ _)
  case others =>
    exact fun _ j q _ hat hq => (h.below _ _ j q hat hq).trans_le (Nat.le_max_left _ _)
  case live => exact fun _ => halone
  case pub =>
    exact fun _ j q hj hat hq => hj (h.published _ _ j i q p hat ⟨hp, rfl, rfl⟩ hq hpublished)
  case commit =>
    intro index hle
    rcases le_max_iff.mp hle with hle | hle
    · exact .inl hle
    · rcases Nat.lt_or_eq_of_le hle with hlt | heq
      · exact .inl (Nat.le_of_lt_succ (hlt.trans_eq horder))
      · exact .inr ⟨.inr rfl, heq.symm⟩

theorem Inv.rollback (h : Inv s) (hstage : p.stage = .failed) :
    Inv (s.record i ⟨p.entry, .rolledBack⟩
      (rollbackProposal (s.states p.entry.shardId) p.entry)) := by
  have hlive : p.Live := by simp [Proposal.Live, hstage]
  have hpublished : p.Published := by simp [Proposal.Published, hstage]
  refine h.record ?kept ?below ?others ?live ?pub ?commit
  case kept =>
    refine kept_of_stage hp fun hsucceeded => ?_
    simp [Proposal.Succeeded, hstage] at hsucceeded
  case below => exact fun hlive => absurd rfl hlive
  case others =>
    intro index j q hj hat hq
    have hlt : index < (s.states p.entry.shardId).nextIndex := h.below _ index j q hat hq
    unfold rollbackProposal
    split
    · -- an index that is given back is the last one, so the others in use are below it
      next hlast =>
      have hle := saturatingAdd_one_le p.entry.index
      have hne : index ≠ p.entry.index := by
        rintro rfl
        exact h.alone hp hlive j q hj hat hq
      change index < p.entry.index
      omega
    · exact hlt
  case live => exact fun hlive => absurd rfl hlive
  case pub =>
    exact fun _ j q hj hat hq => hj (h.published _ _ j i q p hat ⟨hp, rfl, rfl⟩ hq hpublished)
  case commit =>
    intro index hle
    unfold rollbackProposal at hle
    split at hle <;> exact .inl hle

end Steps

theorem Inv.next (h : Inv s) {e : Step C} (henabled : (machine C).enabled s e)
    (horder : s.InOrder e) : Inv (s.next e) := by
  cases e with
  | allocate i shard cmd timestamp => exact h.allocate henabled horder cmd timestamp
  | publish i ok =>
    obtain ⟨p, hp, hstage⟩ := henabled
    rw [StaticPrimaryShardReplication.next, hp]
    exact h.publish hp hstage (horder p hp) ok
  | finish i =>
    obtain ⟨p, hp, hstage⟩ := henabled
    rw [StaticPrimaryShardReplication.next, hp]
    dsimp only
    split
    · next hsucceeded => exact h.commit hp hsucceeded (horder p hp hsucceeded)
    · next hfailed => exact h.rollback hp (hstage.resolve_left hfailed)

/-- **No holes.**  In every run whose steps are in order, each index up to a shard's commit
index was given to exactly one entry whose publish succeeded, and no two entries with
different commands were published with the same shard, term and index. -/
theorem no_holes (h : ((machine C).restrict InOrder).Reachable s) :
    s.NoHoles ∧ s.PublishedOnce := by
  have hinv : Inv s := by
    refine h.invariant (P := Inv) ?_ fun s e _ hs
      (he : (machine C).enabled s e ∧ s.InOrder e) => hs.next he.1 he.2
    rintro s ⟨hstates, hproposals⟩
    constructor <;> simp [Once, At, hstates, hproposals]
    omega
  constructor
  · intro shardId index hpos hle
    obtain ⟨i, p, hat, hp⟩ := hinv.committed shardId index hpos hle
    refine ⟨i, ⟨p, hat, hp⟩, ?_⟩
    rintro j ⟨q, hat', hq⟩
    exact hinv.live _ _ j i q p hat' hat hq.live hp.live
  · intro i j p q hp hq hpp hqp hshard _ hindex
    obtain rfl := hinv.published _ _ i j p q ⟨hp, hshard, hindex⟩ ⟨hq, rfl, rfl⟩ hpp hqp
    rw [Option.some.inj (hp.symm.trans hq)]

/-- Server 1 is the primary of shard 0 and has no proposals yet. -/
def primaryOfOne : StaticPrimaryShardReplication Nat :=
  ⟨1, ⟨1, [⟨0, [⟨1, .primary⟩]⟩]⟩, fun _ => ⟨1, 1, 0⟩, fun _ => none⟩

/-- Two proposals that are published in the other order and committed in order, and a third
whose publish fails. -/
def committedInOrder : List (Step Nat) :=
  [.allocate 0 0 7 .zero, .allocate 1 0 8 .zero, .publish 1 true, .publish 0 true, .finish 0,
    .finish 1, .allocate 2 0 9 .zero, .publish 2 false, .finish 2]

theorem no_holes_committedInOrder :
    (((machine Nat).run primaryOfOne committedInOrder).states 0).commitIndex = 2 ∧
      ((machine Nat).run primaryOfOne committedInOrder).NoHoles ∧
      ((machine Nat).run primaryOfOne committedInOrder).PublishedOnce := by
  have hstart : ((machine Nat).restrict InOrder).Reachable primaryOfOne := .start ⟨rfl, rfl⟩
  -- before a publish no other proposal has the index, so there is nothing to check
  have hrun : ((machine Nat).restrict InOrder).Admissible primaryOfOne committedInOrder := by
    refine ⟨⟨rfl, show 1 < u64Max by decide⟩, ⟨rfl, show 2 < u64Max by decide⟩,
      ⟨⟨_, rfl, rfl⟩, ?_⟩, ⟨⟨_, rfl, rfl⟩, ?_⟩, ⟨⟨_, rfl, .inl rfl⟩, ?_⟩, ⟨⟨_, rfl, .inl rfl⟩, ?_⟩,
      ⟨rfl, show 3 < u64Max by decide⟩, ⟨⟨_, rfl, rfl⟩, ?_⟩, ⟨⟨_, rfl, .inr rfl⟩, ?_⟩, trivial⟩
    · rintro p hp j q ⟨hq, -, hindex⟩ hpub
      cases hp
      rcases j with _ | _ | j <;> cases hq
      · cases hindex
      · exact absurd rfl hpub
    · rintro p hp j q ⟨hq, -, hindex⟩ hpub
      cases hp
      rcases j with _ | _ | j <;> cases hq
      · exact absurd rfl hpub
      · cases hindex
    · rintro p hp -
      cases hp
      rfl
    · rintro p hp -
      cases hp
      rfl
    · rintro p hp j q ⟨hq, -, hindex⟩ hpub
      cases hp
      rcases j with _ | _ | _ | j <;> cases hq
      · cases hindex
      · cases hindex
      · exact absurd rfl hpub
    · rintro p hp hstage
      cases hp
      cases hstage
  exact ⟨rfl, no_holes (hstart.run hrun)⟩

/-- Two proposals: the second is committed, then the publish of the first fails. -/
def overtaken : List (Step Nat) :=
  [.allocate 0 0 7 .zero, .allocate 1 0 8 .zero, .publish 1 true, .finish 1, .publish 0 false,
    .finish 0]

/-- A failed proposal that a later one has overtaken leaves a hole. -/
theorem hole_below_commitIndex :
    (machine Nat).Admissible primaryOfOne overtaken ∧
      (((machine Nat).run primaryOfOne overtaken).states 0).commitIndex = 2 ∧
      ∀ i p, ((machine Nat).run primaryOfOne overtaken).At 0 1 i p → ¬p.Succeeded := by
  refine ⟨⟨rfl, rfl, ⟨_, rfl, rfl⟩, ⟨_, rfl, .inl rfl⟩, ⟨_, rfl, rfl⟩, ⟨_, rfl, .inr rfl⟩, trivial⟩,
    rfl, ?_⟩
  rintro i p ⟨hp, -, hindex⟩
  rcases i with _ | _ | i
  · cases hp
    simp [Proposal.Succeeded]
  · cases hp
    cases hindex
  · cases hp

end StaticPrimaryShardReplication

end Neo4r.Db
