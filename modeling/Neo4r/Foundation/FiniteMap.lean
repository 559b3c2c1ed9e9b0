/-
  `Foundation.FiniteMap`: maps with finitely many keys, and batches of writes to them.

  The maps of the program are hash maps and ordered maps; what both are is a finite
  partial function that can be listed, so one type serves for either.  An entry is read
  with `get`, and everything about the operations is said through `get`: two maps with
  the same `get` have the same contents, whatever the order of their lists.

  A batch is a list of puts and deletes, applied in order.  The rules for batches say
  what a block of puts or deletes does to one key, so that a batch is followed block by
  block and never write by write.
-/
import Mathlib

set_option autoImplicit false

namespace Neo4r.Foundation

open List

/-- A map from `K` to `V` with finitely many keys. -/
def FiniteMap (K V : Type) : Type := AList fun _ : K => V

namespace FiniteMap

variable {K V : Type}

/-- The map without entries. -/
def empty : FiniteMap K V := (∅ : AList fun _ : K => V)

instance : Inhabited (FiniteMap K V) := ⟨empty⟩

/-- The keys. -/
def keys (m : FiniteMap K V) : List K := AList.keys m

/-- The entries. -/
def toList (m : FiniteMap K V) : List (K × V) := m.entries.map fun entry => (entry.1, entry.2)

variable [DecidableEq K]

/-- What the map holds under a key. -/
def get (m : FiniteMap K V) (k : K) : Option V := AList.lookup k m

/-- The map with an entry put in. -/
def insert (m : FiniteMap K V) (k : K) (v : V) : FiniteMap K V := AList.insert k v m

/-- The map with a key taken out. -/
def erase (m : FiniteMap K V) (k : K) : FiniteMap K V := AList.erase k m

@[simp] theorem get_empty (k : K) : (empty : FiniteMap K V).get k = none := AList.lookup_empty k

variable (m : FiniteMap K V) {k : K}

theorem get_insert (k k' : K) (v : V) :
    (m.insert k v).get k' = if k' = k then some v else m.get k' := by
  split
  · next h =>
    subst h
    exact m.lookup_insert
  · next h => exact AList.lookup_insert_ne h

theorem get_erase (k k' : K) : (m.erase k).get k' = if k' = k then none else m.get k' := by
  split
  · next h =>
    subst h
    exact AList.lookup_erase k' m
  · next h => exact AList.lookup_erase_ne h

@[simp] theorem get_insert_self (k : K) (v : V) :
    (m.insert k v).get k = some v := by rw [get_insert, if_pos rfl]

variable {k' : K} (keys : List K)

theorem get_insert_ne (v : V) (h : k' ≠ k) :
    (m.insert k v).get k' = m.get k' := by rw [get_insert, if_neg h]

@[simp] theorem get_erase_self (k : K) : (m.erase k).get k = none := by
  rw [get_erase, if_pos rfl]

theorem get_erase_ne (h : k' ≠ k) : (m.erase k).get k' = m.get k' := by rw [get_erase, if_neg h]

theorem mem_toList {m : FiniteMap K V} {v : V} : (k, v) ∈ m.toList ↔ m.get k = some v := by
  refine Iff.trans ?_ (AList.mem_lookup_iff (s := m)).symm
  simp only [toList, mem_map, Prod.mk.injEq]
  constructor
  · rintro ⟨⟨k', v'⟩, hmem, rfl, rfl⟩
    exact hmem
  · intro hmem
    exact ⟨⟨k, v⟩, hmem, rfl, rfl⟩

omit [DecidableEq K] in
theorem nodup_keys : m.keys.Nodup := AList.keys_nodup m

theorem mem_keys {m : FiniteMap K V} : k ∈ m.keys ↔ (m.get k).isSome :=
  (AList.lookup_isSome (s := m)).symm

theorem keys_eq_nil_iff {m : FiniteMap K V} : m.keys = [] ↔ ∀ k, m.get k = none := by
  simp only [eq_nil_iff_forall_not_mem, mem_keys, Option.not_isSome_iff_eq_none]

/-! ## Entries with a default -/

/-- What the map holds under a key, or the default. -/
def getOrDefault [Inhabited V] (m : FiniteMap K V) (k : K) : V := (m.get k).getD default

/-- `entry(k).or_default()`, changed by `f`. -/
def modifyOrDefault [Inhabited V] (m : FiniteMap K V) (k : K) (f : V → V) : FiniteMap K V :=
  m.insert k (f (m.getOrDefault k))

/-- `get_mut(k)`, changed by `f` where there is an entry. -/
def modify (m : FiniteMap K V) (k : K) (f : V → V) : FiniteMap K V :=
  match m.get k with
  | some v => m.insert k (f v)
  | none => m

@[simp] theorem getOrDefault_empty [Inhabited V] (k : K) :
    (empty : FiniteMap K V).getOrDefault k = default := by
  rw [getOrDefault, get_empty, Option.getD_none]

theorem getOrDefault_modifyOrDefault [Inhabited V] (k k' : K) (f : V → V) :
    (m.modifyOrDefault k f).getOrDefault k' =
      if k' = k then f (m.getOrDefault k) else m.getOrDefault k' := by
  rw [getOrDefault, modifyOrDefault, get_insert]
  split <;> rfl

/-- A change that keeps the default shows as a change of what is read. -/
theorem getOrDefault_modify [Inhabited V] (k k' : K) {f : V → V} (hf : f default = default) :
    (m.modify k f).getOrDefault k' =
      if k' = k then f (m.getOrDefault k) else m.getOrDefault k' := by
  unfold modify
  cases hk : m.get k with
  | some =>
    rw [getOrDefault, get_insert]
    split
    · simp [getOrDefault, hk]
    · rfl
  | none =>
    dsimp only
    split
    · next h => simp [h, getOrDefault, hk, hf]
    · rfl

theorem getOrDefault_erase [Inhabited V] (k k' : K) :
    (m.erase k).getOrDefault k' = if k' = k then default else m.getOrDefault k' := by
  rw [getOrDefault, get_erase]
  split <;> rfl

/-! ## Batches of writes -/

/-- One write of a batch. -/
inductive Write (K V : Type)
  | put (key : K) (value : V)
  | delete (key : K)
  deriving DecidableEq, Repr

/-- The key a write is about. -/
def Write.key : Write K V → K
  | .put key _ => key
  | .delete key => key

/-- The map after one write. -/
def write (m : FiniteMap K V) : Write K V → FiniteMap K V
  | .put key value => m.insert key value
  | .delete key => m.erase key

/-- The map after a batch. -/
def writeAll (m : FiniteMap K V) (batch : List (Write K V)) : FiniteMap K V := batch.foldl write m

@[simp] theorem writeAll_nil : m.writeAll [] = m := rfl

@[simp] theorem writeAll_cons (w : Write K V) (batch : List (Write K V)) :
    m.writeAll (w :: batch) = (m.write w).writeAll batch := rfl

theorem writeAll_append (batch batch' : List (Write K V)) :
    m.writeAll (batch ++ batch') = (m.writeAll batch).writeAll batch' :=
  foldl_append

theorem get_write_ne {w : Write K V} (h : k ≠ w.key) : (m.write w).get k = m.get k := by
  cases w with
  | put key value => exact get_insert_ne m value h
  | delete => exact get_erase_ne m h

/-- A block of puts of one value. -/
theorem get_writeAll_puts (v : V) (k : K) : (m.writeAll (keys.map fun key => .put key v)).get k =
      if k ∈ keys then some v else m.get k := by
  induction keys generalizing m with
  | nil => simp
  | cons key keys ih =>
    rw [map_cons, writeAll_cons, ih, write, get_insert]
    by_cases hmem : k ∈ keys <;> simp [hmem]

/-- A block of deletes. -/
theorem get_writeAll_deletes (k : K) :
    (m.writeAll (keys.map Write.delete)).get k = if k ∈ keys then none else m.get k := by
  induction keys generalizing m with
  | nil => simp
  | cons key keys ih =>
    rw [map_cons, writeAll_cons, ih, write, get_erase]
    by_cases hmem : k ∈ keys <;> simp [hmem]

/-- What a batch does to a key does not depend on the other keys. -/
theorem get_writeAll_congr {m m' : FiniteMap K V} (batch : List (Write K V))
    (h : m.get k = m'.get k) : (m.writeAll batch).get k = (m'.writeAll batch).get k := by
  induction batch generalizing m m' with
  | nil => exact h
  | cons w batch ih =>
    refine ih ?_
    cases w with
    | put => rw [write, write, get_insert, get_insert, h]
    | delete => rw [write, write, get_erase, get_erase, h]

end FiniteMap

/-! ## Sorted identifiers -/

/-- `sort_unstable()` followed by `dedup()`. -/
def sortedIds (ids : List Nat) : List Nat := ids.dedup.insertionSort (· ≤ ·)

@[simp] theorem mem_sortedIds {ids : List Nat} {id : Nat} : id ∈ sortedIds ids ↔ id ∈ ids := by
  rw [sortedIds, mem_insertionSort, mem_dedup]

variable (ids : List Nat)

theorem nodup_sortedIds : (sortedIds ids).Nodup :=
  (perm_insertionSort (· ≤ ·) ids.dedup).nodup_iff.mpr (nodup_dedup ids)

theorem sortedLE_sortedIds : (sortedIds ids).SortedLE := sortedLE_insertionSort

/-- Sorted lists with the same elements, each once, are the same. -/
theorem eq_of_sortedLE_of_mem_iff {l l' : List Nat} (hsorted : l.SortedLE) (hsorted' : l'.SortedLE)
    (h : l.Nodup) (h' : l'.Nodup) (hmem : ∀ id, id ∈ l ↔ id ∈ l') : l = l' :=
  ((perm_ext_iff_of_nodup h h').mpr hmem).eq_of_sortedLE hsorted hsorted'

end Neo4r.Foundation
