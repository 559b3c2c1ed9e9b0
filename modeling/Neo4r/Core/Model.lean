/-
  `Core.Model`: property values, the records of a graph and the commands on it
  (`neo4r-core/src/model.rs`, `shard.rs`, `command.rs`, `error.rs`).

  A floating-point number is given by its bits, so equality of values is what the
  program compares when it compares keys.  Properties are the entries of a hash map, in
  some order.
-/
import Neo4r.Core.Shard

set_option autoImplicit false

namespace Neo4r

/-! ## Values -/

/-- A property value. -/
inductive Value
  | null
  | bool (value : Bool)
  | int (value : Int)
  | float (bits : Nat)
  | string (value : String)
  | vector (bits : List Nat)
  | map (entries : List (String × Value))
  deriving Repr

mutual

/-- Equality of values is decidable. -/
def Value.decEq : (a b : Value) → Decidable (a = b)
  | .null, .null => isTrue rfl
  | .bool a, .bool b => decidable_of_iff (a = b) (by simp)
  | .int a, .int b => decidable_of_iff (a = b) (by simp)
  | .float a, .float b => decidable_of_iff (a = b) (by simp)
  | .string a, .string b => decidable_of_iff (a = b) (by simp)
  | .vector a, .vector b => decidable_of_iff (a = b) (by simp)
  | .map a, .map b =>
    have := Value.decEqEntries a b
    decidable_of_iff (a = b) (by simp)
  | .null, .bool _ | .null, .int _ | .null, .float _ | .null, .string _ | .null, .vector _
  | .null, .map _ | .bool _, .null | .bool _, .int _ | .bool _, .float _ | .bool _, .string _
  | .bool _, .vector _ | .bool _, .map _ | .int _, .null | .int _, .bool _ | .int _, .float _
  | .int _, .string _ | .int _, .vector _ | .int _, .map _ | .float _, .null | .float _, .bool _
  | .float _, .int _ | .float _, .string _ | .float _, .vector _ | .float _, .map _
  | .string _, .null | .string _, .bool _ | .string _, .int _ | .string _, .float _
  | .string _, .vector _ | .string _, .map _ | .vector _, .null | .vector _, .bool _
  | .vector _, .int _ | .vector _, .float _ | .vector _, .string _ | .vector _, .map _
  | .map _, .null | .map _, .bool _ | .map _, .int _ | .map _, .float _ | .map _, .string _
  | .map _, .vector _ => isFalse nofun

/-- Equality of map entries is decidable. -/
def Value.decEqEntries : (a b : List (String × Value)) → Decidable (a = b)
  | [], [] => isTrue rfl
  | [], _ :: _ | _ :: _, [] => isFalse nofun
  | (k, a) :: as, (l, b) :: bs =>
    have := Value.decEq a b
    have := Value.decEqEntries as bs
    decidable_of_iff (k = l ∧ a = b ∧ as = bs) (by simp [and_assoc])

end

instance : DecidableEq Value := Value.decEq

/-- `ValueKey`: a value whose maps are listed by key. -/
abbrev ValueKey := Value

mutual

/-- `ValueKey::from`. -/
def Value.toKey : Value → ValueKey
  | .map entries => .map ((Value.entryKeys entries).insertionSort fun a b => a.1 ≤ b.1)
  | value => value

/-- The entries of a map, with the keys of their values. -/
def Value.entryKeys : List (String × Value) → List (String × ValueKey)
  | [] => []
  | (key, value) :: entries => (key, value.toKey) :: Value.entryKeys entries

end

/-- `Properties`. -/
abbrev Properties := List (String × Value)

namespace Properties

/-- `HashMap::get`. -/
def get (properties : Properties) (key : String) : Option Value := properties.lookup key

/-- `HashMap::remove`. -/
def remove (properties : Properties) (key : String) : Properties :=
  properties.filter fun entry => entry.1 ≠ key

/-- `HashMap::insert`. -/
def insert (properties : Properties) (key : String) (value : Value) : Properties :=
  (key, value) :: remove properties key

variable (properties : Properties)

theorem get_cons (entry : String × Value) (key : String) :
    get (entry :: properties) key = if key = entry.1 then some entry.2 else get properties key := by
  rw [get, List.lookup_cons, get]
  by_cases h : key = entry.1
  · rw [if_pos h, beq_iff_eq.mpr h]
  · rw [if_neg h, beq_eq_false_iff_ne.mpr h]

theorem get_remove (key key' : String) :
    get (remove properties key) key' = if key' = key then none else get properties key' := by
  induction properties with
  | nil => exact (ite_self none).symm
  | cons entry properties ih =>
    rw [remove, List.filter_cons]
    by_cases hentry : entry.1 = key
    · rw [if_neg (by simp [hentry]), get_cons, hentry]
      refine ih.trans ?_
      split <;> rfl
    · rw [if_pos (by simp [hentry]), get_cons, get_cons]
      by_cases hkey : key' = entry.1
      · rw [if_pos hkey, if_pos hkey, if_neg (hkey ▸ hentry)]
      · rw [if_neg hkey, if_neg hkey]
        exact ih

theorem get_insert (key key' : String) (value : Value) :
    get (insert properties key value) key' =
      if key' = key then some value else get properties key' := by
  rw [insert, get_cons]
  split
  · rfl
  · next hne => rw [get_remove, if_neg hne]

theorem mem_of_get {properties : Properties} {key : String} {value : Value}
    (h : get properties key = some value) : (key, value) ∈ properties := by
  obtain ⟨l₁, l₂, heq, -⟩ := List.lookup_eq_some_iff.mp h
  rw [heq]
  exact List.mem_append_right _ (.head _)

end Properties

/-! ## Records -/

/-- A node. -/
structure Node where
  id : Nat
  labels : List String
  properties : Properties
  deriving DecidableEq, Repr

/-- A relationship; the program calls its ends `from` and `to`. -/
structure Relationship where
  id : Nat
  fromId : Nat
  toId : Nat
  relType : String
  properties : Properties
  deriving DecidableEq, Repr

/-- What a shard keeps about a node that another shard owns. -/
structure BoundaryNode where
  id : Nat
  ownerShard : Nat
  labels : List String
  properties : Properties
  version : Nat
  deriving DecidableEq, Repr

/-! ## Commands -/

/-- A command of the log. -/
inductive Command
  | createNode (id : Nat) (labels : List String) (properties : Properties)
  | createRelationship (id fromId toId : Nat) (relType : String) (properties : Properties)
  | upsertBoundaryNode (id ownerShard : Nat) (labels : List String) (properties : Properties)
      (version : Nat)
  | setNodeProperty (id : Nat) (key : String) (value : Value)
  | removeNodeProperty (id : Nat) (key : String)
  | addNodeLabel (id : Nat) (label : String)
  | removeNodeLabel (id : Nat) (label : String)
  | setRelationshipProperty (id : Nat) (key : String) (value : Value)
  | removeRelationshipProperty (id : Nat) (key : String)
  | deleteRelationship (id : Nat)
  | deleteNode (id : Nat)
  | clusterConfigChange (phase description : String) (voters : List Nat)
      (routingTable : ShardRoutingTable)
  deriving DecidableEq, Repr

/-- `GraphError`. -/
inductive GraphError
  | nodeAlreadyExists (id : Nat)
  | nodeNotFound (id : Nat)
  | relationshipAlreadyExists (id : Nat)
  | relationshipNotFound (id : Nat)
  | relationshipEndpointNotFound (relationshipId nodeId : Nat)
  deriving DecidableEq, Repr

end Neo4r
