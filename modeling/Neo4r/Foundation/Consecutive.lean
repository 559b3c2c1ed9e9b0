/-
  `Foundation.Consecutive`: lists whose keys count up by one.

  A log is such a list: its entries carry the indexes `base + 1, base + 2, …`.  Looking
  an entry up by its key is then looking it up by position, and filtering by a bound on
  the key is taking or dropping a number of entries.
-/
import Mathlib

set_option autoImplicit false

namespace Neo4r.Foundation

open List

variable {α : Type} {key : α → Nat}

/-- The keys of the list are `base + 1, base + 2, …`. -/
def Consecutive (key : α → Nat) : Nat → List α → Prop
  | _, [] => True
  | base, a :: l => key a = base + 1 ∧ Consecutive key (base + 1) l

instance decidableConsecutive (key : α → Nat) :
    ∀ (base : Nat) (l : List α), Decidable (Consecutive key base l)
  | _, [] => inferInstanceAs (Decidable True)
  | base, a :: l =>
    have := decidableConsecutive key (base + 1) l
    inferInstanceAs (Decidable (key a = base + 1 ∧ Consecutive key (base + 1) l))

variable {base : Nat} {l : List α} {a : α}

theorem consecutive_append {l' : List α} : Consecutive key base (l ++ l') ↔
      Consecutive key base l ∧ Consecutive key (base + l.length) l' := by
  induction l generalizing base with
  | nil => simp [Consecutive]
  | cons a l ih =>
    simp only [cons_append, Consecutive, ih, length_cons, and_assoc]
    rw [Nat.add_right_comm, Nat.add_assoc base]

section

variable (h : Consecutive key base l)

include h

theorem Consecutive.take (n : Nat) : Consecutive key base (l.take n) := by
  rw [← take_append_drop n l, consecutive_append] at h
  exact h.1

theorem Consecutive.drop (n : Nat) : Consecutive key (base + n) (l.drop n) := by
  induction n generalizing base l with
  | zero => exact h
  | succ n ih =>
    cases l with
    | nil => trivial
    | cons =>
      have := ih h.2
      rwa [Nat.add_right_comm] at this

theorem Consecutive.map_key : l.map key = range' (base + 1) l.length := by
  induction l generalizing base with
  | nil => rfl
  | cons a l ih => rw [map_cons, h.1, ih h.2, length_cons, range'_succ]

theorem Consecutive.key_getElem? {i : Nat} (ha : l[i]? = some a) : key a = base + i + 1 := by
  induction i generalizing base l with
  | zero =>
    cases l with
    | nil => cases ha
    | cons =>
      simp only [getElem?_cons_zero, Option.some.injEq] at ha
      exact ha ▸ h.1
  | succ i ih =>
    cases l with
    | nil => cases ha
    | cons =>
      have := ih h.2 ha
      omega

theorem Consecutive.lt_key (ha : a ∈ l) : base < key a ∧ key a ≤ base + l.length := by
  obtain ⟨i, hi⟩ := List.mem_iff_getElem?.mp ha
  have hkey := h.key_getElem? hi
  have hlt := (List.getElem?_eq_some_iff.mp hi).1
  omega

theorem Consecutive.eq_of_key_eq {b : α} (ha : a ∈ l) (hb : b ∈ l) (heq : key a = key b) :
    a = b := by
  obtain ⟨i, hi⟩ := mem_iff_getElem?.mp ha
  obtain ⟨j, hj⟩ := mem_iff_getElem?.mp hb
  have hia := h.key_getElem? hi
  have hjb := h.key_getElem? hj
  obtain rfl : i = j := by omega
  exact Option.some.inj (hi.symm.trans hj)

/-- The last key, or the base of an empty list. -/
theorem Consecutive.getLast?_key : (l.getLast?.map key).getD base = base + l.length := by
  cases l with
  | nil => rfl
  | cons a l =>
    have hlast : (a :: l)[l.length]? = some ((a :: l).getLast (by simp)) := by
      rw [getLast_eq_getElem]
      simp
    rw [getLast?_eq_some_getLast (by simp)]
    have := h.key_getElem? hlast
    simpa [Nat.add_assoc] using this

theorem Consecutive.pairwise_le : l.Pairwise fun a b => key a ≤ key b := by
  induction l generalizing base with
  | nil => exact Pairwise.nil
  | cons a l ih =>
    refine Pairwise.cons ?_ (ih h.2)
    intro b hb
    have := (h.2.lt_key hb).1
    have := h.1
    omega

/-- Sorting by the key changes nothing. -/
theorem Consecutive.insertionSort_eq :
    l.insertionSort (fun a b => key a ≤ key b) = l :=
  h.pairwise_le.insertionSort_eq

/-- Looking up a key is looking up a position. -/
theorem Consecutive.find?_key (k : Nat) :
    l.find? (fun a => key a = k) = if base < k then l[k - base - 1]? else none := by
  induction l generalizing base with
  | nil => simp
  | cons a l ih =>
    have hkey := h.1
    by_cases hk : key a = k
    · have hzero : k - base - 1 = 0 := by omega
      rw [find?_cons_of_pos (by simpa using hk), if_pos (by omega), hzero, getElem?_cons_zero]
    · rw [find?_cons_of_neg (by simpa using hk), ih h.2]
      by_cases hlt : base + 1 < k
      · have : k - base - 1 = k - (base + 1) - 1 + 1 := by omega
        rw [if_pos hlt, if_pos (by omega), this, getElem?_cons_succ]
      · rw [if_neg hlt, if_neg (by omega)]

/-- The entries below a key are the first ones. -/
theorem Consecutive.filter_lt (k : Nat) :
    l.filter (fun a => key a < k) = l.take (k - base - 1) := by
  induction l generalizing base with
  | nil => simp
  | cons a l ih =>
    have hkey := h.1
    by_cases hk : key a < k
    · have : k - base - 1 = k - (base + 1) - 1 + 1 := by omega
      rw [filter_cons_of_pos (by simpa using hk), ih h.2, this, take_succ_cons]
    · have hzero : k - base - 1 = 0 := by omega
      have hzero' : k - (base + 1) - 1 = 0 := by omega
      rw [filter_cons_of_neg (by simpa using hk), ih h.2, hzero, hzero', take_zero, take_zero]

/-- The entries above a key are what follows them. -/
theorem Consecutive.filter_gt (k : Nat) : l.filter (fun a => key a > k) = l.drop (k - base) := by
  induction l generalizing base with
  | nil => simp
  | cons a l ih =>
    have hkey := h.1
    by_cases hk : key a > k
    · have hzero : k - base = 0 := by omega
      have hzero' : k - (base + 1) = 0 := by omega
      rw [filter_cons_of_pos (by simpa using hk), ih h.2, hzero, hzero', drop_zero, drop_zero]
    · have : k - base = k - (base + 1) + 1 := by omega
      rw [filter_cons_of_neg (by simpa using hk), ih h.2, this, drop_succ_cons]

end

/-! ## Sorting -/

/-- The keys of the elements, each once, in increasing order: the order in which a map
built from the list is read. -/
def keysOf (key : α → Nat) (l : List α) : List Nat := (l.map key).dedup.insertionSort (· ≤ ·)

variable {k : Nat}

theorem mem_keysOf : k ∈ keysOf key l ↔ ∃ a ∈ l, key a = k := by
  simp [keysOf, mem_insertionSort]

theorem nodup_keysOf (key : α → Nat) (l : List α) : (keysOf key l).Nodup :=
  (perm_insertionSort _ _).nodup_iff.mpr (nodup_dedup _)

theorem keysOf_of_forall_eq (hne : l ≠ []) (h : ∀ a ∈ l, key a = k) : keysOf key l = [k] := by
  have hmap : l.map key = replicate l.length k := by
    rw [eq_replicate_iff]
    exact ⟨length_map _, by simpa using h⟩
  unfold keysOf
  rw [hmap, replicate_dedup (by simpa using hne)]
  rfl

/-- Sorted by a key, a list ends with its largest key. -/
theorem exists_getLast?_insertionSort (key : α → Nat) (ha : a ∈ l) :
    ∃ b, (l.insertionSort fun x y => key x ≤ key y).getLast? = some b ∧ key a ≤ key b := by
  have hmem : a ∈ l.insertionSort fun x y => key x ≤ key y := (mem_insertionSort _).mpr ha
  have hsorted := pairwise_insertionSort (fun x y : α => key x ≤ key y) l
  have hne := ne_nil_of_mem hmem
  refine ⟨_, getLast?_eq_some_getLast hne, ?_⟩
  rw [← dropLast_append_getLast hne] at hmem hsorted
  rcases mem_append.mp hmem with hbefore | hlast
  · exact (pairwise_append.mp hsorted).2.2 a hbefore _ (.head _)
  · rw [mem_singleton.mp hlast]

/-- A stable sort keeps the order of elements that may stand either way. -/
theorem filter_insertionSort (r : α → α → Prop) [DecidableRel r] (p : α → Bool)
    (h : ∀ a b, p a = true → p b = true → r a b) (l : List α) :
    (l.insertionSort r).filter p = l.filter p := by
  have hinsert : ∀ (a : α) (l : List α), (l.orderedInsert r a).filter p = (a :: l).filter p := by
    intro a l
    induction l with
    | nil => rfl
    | cons b l ih =>
      rw [orderedInsert_cons]
      split
      · rfl
      · rename_i hab
        -- `b` stays in front of `a`, so they are not both kept
        cases ha : p a with
        | false => simp [filter_cons, ih, ha]
        | true =>
          cases hb : p b with
          | true => exact absurd (h a b ha hb) hab
          | false => simp [ih, ha, hb]
  induction l with
  | nil => rfl
  | cons a l ih => rw [insertionSort_cons, hinsert, filter_cons, filter_cons, ih]

/-- A list in the order of a key is known from its parts, one for each value of the key. -/
theorem eq_of_filter_eq {l' : List α} (hl : l.Pairwise fun a b => key a ≤ key b)
    (hl' : l'.Pairwise fun a b => key a ≤ key b)
    (h : ∀ k, l.filter (fun a => key a = k) = l'.filter fun a => key a = k) : l = l' := by
  induction l generalizing l' with
  | nil =>
    cases l' with
    | nil => rfl
    | cons b =>
      have hb := h (key b)
      rw [filter_cons_of_pos (by simp)] at hb
      cases hb
  | cons a l ih =>
    cases l' with
    | nil =>
      have ha := h (key a)
      rw [filter_cons_of_pos (by simp)] at ha
      cases ha
    | cons b =>
      rw [pairwise_cons] at hl hl'
      -- the first elements have the same key, so each is the first of that part
      have hle : ∀ {c d : α} {m m' : List α}, (∀ e ∈ m', key d ≤ key e) →
          (c :: m).filter (fun e => key e = key c) =
            (d :: m').filter (fun e => key e = key c) → key d ≤ key c := by
        intro c d m m' hm hpart
        have hmem : c ∈ (d :: m').filter fun e => key e = key c := by
          rw [← hpart, filter_cons_of_pos (by simp)]
          exact .head _
        rcases mem_cons.mp (mem_of_mem_filter hmem) with heq | hmem
        · rw [heq]
        · exact hm c hmem
      have hkey : key b = key a :=
        Nat.le_antisymm (hle hl'.1 (h (key a))) (hle hl.1 (h (key b)).symm)
      have hfirst := h (key a)
      rw [filter_cons_of_pos (by simp), filter_cons_of_pos (by simpa using hkey)] at hfirst
      obtain ⟨rfl, -⟩ := cons.inj hfirst
      refine congrArg (cons a) (ih hl.2 hl'.2 fun k => ?_)
      have hk := h k
      rw [filter_cons, filter_cons] at hk
      split at hk
      · exact (cons.inj hk).2
      · exact hk

/-- One part of a list that was put together from parts. -/
theorem filter_flatMap_parts {ks : List Nat} (hks : ks.Nodup) (l : List α) (k : Nat) :
    (ks.flatMap fun k' => l.filter fun a => key a = k').filter (fun a => key a = k) =
      if k ∈ ks then l.filter fun a => key a = k else [] := by
  induction ks with
  | nil => rfl
  | cons k' ks ih =>
    rw [nodup_cons] at hks
    rw [flatMap_cons, filter_append, ih hks.2, filter_filter]
    by_cases hk : k = k'
    · subst hk
      rw [if_neg hks.1]
      simp
    · have hnone : (l.filter fun a => decide (key a = k) && decide (key a = k')) = [] := by
        rw [filter_eq_nil_iff]
        intro a _ hboth
        rw [Bool.and_eq_true, decide_eq_true_eq, decide_eq_true_eq] at hboth
        exact hk (hboth.1.symm.trans hboth.2)
      rw [hnone, nil_append]
      simp only [mem_cons, hk, false_or]

end Neo4r.Foundation
