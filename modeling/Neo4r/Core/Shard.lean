/-
  `Core.Shard`: identifiers, log entries and shard placement
  (`neo4r-core/src/shard.rs`, `clock.rs`).

  Shard ids, log indexes, terms, server ids and configuration versions are aliases of
  `u64` in the program and natural numbers here; the names of fields and arguments say
  which is meant.  A log entry is generic in its command: the consensus code moves
  commands around without looking at them, so everything about it is proved for any
  command type.
-/
import Mathlib

set_option autoImplicit false

namespace Neo4r

open List

/-- A hybrid logical timestamp. -/
structure HybridTimestamp where
  physicalMs : Nat
  logical : Nat
  deriving DecidableEq, Repr, Inhabited

/-- `HybridTimestamp::zero`. -/
def HybridTimestamp.zero : HybridTimestamp := ⟨0, 0⟩

/-- Timestamps are compared by their fields in turn. -/
instance : LE HybridTimestamp where
  le a b := a.physicalMs < b.physicalMs ∨ a.physicalMs = b.physicalMs ∧ a.logical ≤ b.logical

instance (a b : HybridTimestamp) : Decidable (a ≤ b) := inferInstanceAs (Decidable (_ ∨ _))

instance : LT HybridTimestamp where
  lt a b := a.physicalMs < b.physicalMs ∨ a.physicalMs = b.physicalMs ∧ a.logical < b.logical

theorem HybridTimestamp.lt_trans {a b c : HybridTimestamp} (hab : a < b) (hbc : b < c) : a < c := by
  change _ ∨ _ at hab hbc ⊢
  omega

/-- The hybrid clock, by the last timestamp it gave or saw. -/
structure HybridClock where
  last : HybridTimestamp
  deriving DecidableEq, Repr

namespace HybridClock

/-- `saturating_add` by one, on the 32 bits of the logical part. -/
def nextLogical (logical : Nat) : Nat := min (logical + 1) (2 ^ 32 - 1)

/-- `tick`, when the system clock reads `physicalMs`. -/
def tick (clock : HybridClock) (physicalMs : Nat) : HybridClock :=
  if physicalMs > clock.last.physicalMs then ⟨⟨physicalMs, 0⟩⟩
  else ⟨⟨clock.last.physicalMs, nextLogical clock.last.logical⟩⟩

/-- `observe`, when the system clock reads `physicalMs`. -/
def observe (clock : HybridClock) (physicalMs : Nat) (remote : HybridTimestamp) :
    HybridClock :=
  let maxPhysical := max (max physicalMs clock.last.physicalMs) remote.physicalMs
  let logical :=
    if maxPhysical = clock.last.physicalMs ∧ maxPhysical = remote.physicalMs then
      nextLogical (max clock.last.logical remote.logical)
    else if maxPhysical = clock.last.physicalMs then nextLogical clock.last.logical
    else if maxPhysical = remote.physicalMs then nextLogical remote.logical
    else 0
  ⟨⟨maxPhysical, logical⟩⟩

/-- A call of the clock, with what the system clock reads. -/
inductive Call
  | tick (physicalMs : Nat)
  | observe (physicalMs : Nat) (remote : HybridTimestamp)

/-- The clock after a call, which returns its last timestamp. -/
def after (clock : HybridClock) : Call → HybridClock
  | .tick physicalMs => clock.tick physicalMs
  | .observe physicalMs remote => clock.observe physicalMs remote

/-- The timestamp that a call shows the clock. -/
def Call.observed : Call → List HybridTimestamp
  | .tick _ => []
  | .observe _ remote => [remote]

/-- The clock after some calls, the latest first. -/
def afterAll : List Call → HybridClock
  | [] => ⟨.zero⟩
  | call :: calls => (afterAll calls).after call

/-- What was returned or observed in some calls. -/
def seen : List Call → List HybridTimestamp
  | [] => []
  | call :: calls => (afterAll (call :: calls)).last :: (call.observed ++ seen calls)

/-- A call moves the clock past its last timestamp and past the one it is shown. -/
theorem lt_after {clock : HybridClock} {call : Call} {t : HybridTimestamp}
    (ht : t = clock.last ∨ t ∈ call.observed) (hmax : t.logical < 2 ^ 32 - 1) :
    t < (clock.after call).last := by
  change _ ∨ _
  cases call with
  | tick physicalMs =>
    obtain rfl | ⟨⟨⟩⟩ := ht
    simp only [after, tick, nextLogical]
    split <;> simp <;> omega
  | observe physicalMs remote =>
    simp only [after, observe, nextLogical]
    obtain rfl | hobs := ht
    · split_ifs <;> omega
    · cases mem_singleton.mp hobs
      split_ifs <;> omega

/-- **A timestamp is later than all that were returned or observed before it**, while no logical
counter is at its bound. -/
theorem lt_afterAll_of_seen (calls : List Call) (call : Call)
    (hmax : ∀ t ∈ call.observed ++ seen calls, t.logical < 2 ^ 32 - 1) :
    ∀ t ∈ call.observed ++ seen calls, t < (afterAll (call :: calls)).last := by
  induction calls generalizing call with
  | nil =>
    intro t ht
    exact lt_after (.inr (by simpa [seen] using ht)) (hmax t ht)
  | cons latest calls ih =>
    have hlast : (afterAll (latest :: calls)).last < (afterAll (call :: latest :: calls)).last :=
      lt_after (.inl rfl) (hmax _ (by simp [seen]))
    intro t ht
    rcases mem_append.mp ht with hobs | hseen
    · exact lt_after (.inr hobs) (hmax t ht)
    · rcases mem_cons.mp hseen with rfl | hearlier
      · exact hlast
      · have hbefore := ih latest (fun t ht => hmax t (by simp [seen, ht])) t hearlier
        exact HybridTimestamp.lt_trans hbefore hlast

/-- The system clock goes back, and a remote clock is ahead. -/
theorem lt_afterAll_of_seen_clockSetBack :
    ⟨9, 4⟩ < (afterAll [.observe 3 ⟨9, 4⟩, .tick 5]).last :=
  lt_afterAll_of_seen [.tick 5] (.observe 3 ⟨9, 4⟩) (by decide) _ (by decide)

end HybridClock

/-- One entry of a shard's log. -/
structure LogEntry (C : Type) where
  shardId : Nat
  term : Nat
  index : Nat
  originServerId : Nat
  configVersion : Nat
  timestamp : HybridTimestamp
  command : C
  deriving DecidableEq, Repr

namespace LogEntry

variable {C : Type}

/-- `LogEntry::new_with_metadata`. -/
def newWithMetadata (shardId : Nat) (term : Nat) (index : Nat)
    (originServerId : Nat) (configVersion : Nat)
    (timestamp : HybridTimestamp) (command : C) : LogEntry C :=
  { shardId, term, index, originServerId, configVersion, timestamp, command }

/-- `LogEntry::new_with_timestamp`. -/
def newWithTimestamp (shardId : Nat) (term : Nat) (index : Nat)
    (timestamp : HybridTimestamp) (command : C) : LogEntry C :=
  newWithMetadata shardId term index 0 0 timestamp command

/-- `LogEntry::new`. -/
def new (shardId : Nat) (term : Nat) (index : Nat) (command : C) : LogEntry C :=
  newWithTimestamp shardId term index HybridTimestamp.zero command

/-- The comparison `==` of log entries.  Commands carry floating-point numbers, so it
need not be equality. -/
def partialEq [BEq C] (a b : LogEntry C) : Bool :=
  a.shardId = b.shardId && a.term = b.term && a.index = b.index &&
    a.originServerId = b.originServerId && a.configVersion = b.configVersion &&
    a.timestamp = b.timestamp && a.command == b.command

end LogEntry

/-! ## Placement -/

/-- `ShardMap`: the fixed mapping of nodes to shards. -/
structure ShardMap where
  shardCount : Nat
  positive : 0 < shardCount

namespace ShardMap

/-- `owner_of_node`. -/
def ownerOfNode (map : ShardMap) (nodeId : Nat) : Nat := nodeId % map.shardCount

/-- `owner_of_relationship`: the source decides. -/
def ownerOfRelationship (map : ShardMap) (fromId _toId : Nat) (_relType : String) : Nat :=
  map.ownerOfNode fromId

end ShardMap

/-- The role a routing table gives a server for a shard. -/
inductive ShardRole
  | primary
  | replica
  deriving DecidableEq, Repr

/-- One copy of a shard. -/
structure ShardReplica where
  serverId : Nat
  role : ShardRole
  deriving DecidableEq, Repr

/-- The servers that hold a shard. -/
structure ShardPlacement where
  shardId : Nat
  replicas : List ShardReplica
  deriving DecidableEq, Repr

/-- The server of the first replica marked primary. -/
def ShardPlacement.primaryServerId (placement : ShardPlacement) : Option Nat :=
  (placement.replicas.find? fun replica => replica.role = .primary).map (·.serverId)

/-- Whether the server holds a copy of the shard. -/
def ShardPlacement.hasServer (placement : ShardPlacement) (serverId : Nat) : Bool :=
  placement.replicas.any fun replica => replica.serverId = serverId

/-- The versioned table of all shard placements. -/
structure ShardRoutingTable where
  version : Nat
  placements : List ShardPlacement
  deriving DecidableEq, Repr

namespace ShardRoutingTable

/-- The first placement given for a shard. -/
def placement (table : ShardRoutingTable) (shardId : Nat) : Option ShardPlacement :=
  table.placements.find? fun placement => placement.shardId = shardId

/-- The primary of a shard. -/
def primaryServerId (table : ShardRoutingTable) (shardId : Nat) : Option Nat :=
  (table.placement shardId).bind ShardPlacement.primaryServerId

/-- Whether a server holds a copy of a shard. -/
def hasLocalCopy (table : ShardRoutingTable) (shardId : Nat) (serverId : Nat) :
    Bool :=
  ((table.placement shardId).map fun placement => placement.hasServer serverId).getD false

end ShardRoutingTable

end Neo4r
