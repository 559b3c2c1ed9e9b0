/-
  `Foundation.Majority`: majorities of a finite set.

  A set has a majority of `voters` when it contains more than half of them.  Two
  such sets meet inside `voters`; this is all a quorum argument needs.
-/
import Mathlib

set_option autoImplicit false

namespace Neo4r.Foundation

open Finset

variable {α : Type} [DecidableEq α]

/-- `matched` contains at least `⌊|voters| / 2⌋ + 1` of the voters. -/
def HasMajority (voters matched : Finset α) : Prop := voters.card / 2 + 1 ≤ (matched ∩ voters).card

instance (voters matched : Finset α) : Decidable (HasMajority voters matched) :=
  inferInstanceAs (Decidable (_ ≤ _))

variable {voters A B : Finset α}

section

variable (hA : HasMajority voters A)

include hA

/-- A larger set has a majority when a smaller one has. -/
theorem HasMajority.mono (hAB : ∀ v ∈ A, v ∈ voters → v ∈ B) : HasMajority voters B := by
  refine le_trans hA (card_le_card ?_)
  intro v hv
  obtain ⟨hvA, hvV⟩ := mem_inter.mp hv
  exact mem_inter.mpr ⟨hAB v hvA hvV, hvV⟩

/-- Majorities share a voter, also when one more server votes for the second. -/
theorem HasMajority.exists_mem_both_of_subset {voters' : Finset α}
    (hB : HasMajority voters' B) (hsub : voters ⊆ voters')
    (hcard : voters'.card ≤ voters.card + 1) : ∃ v ∈ voters, v ∈ A ∧ v ∈ B := by
  by_contra hnone
  push Not at hnone
  have hdisj : Disjoint (A ∩ voters) (B ∩ voters') := by
    refine disjoint_left.mpr fun v hvA hvB => ?_
    obtain ⟨hvA, hvV⟩ := mem_inter.mp hvA
    exact hnone v hvV hvA (mem_inter.mp hvB).1
  have hunion : (A ∩ voters ∪ B ∩ voters').card ≤ voters'.card :=
    card_le_card (union_subset (inter_subset_right.trans hsub) inter_subset_right)
  rw [card_union_of_disjoint hdisj] at hunion
  unfold HasMajority at hA hB
  omega

/-- Two majorities share a voter. -/
theorem HasMajority.exists_mem_both (hB : HasMajority voters B) :
    ∃ v ∈ voters, v ∈ A ∧ v ∈ B :=
  hA.exists_mem_both_of_subset hB subset_rfl (Nat.le_succ _)

/-- A majority that meets the voters only in `a` leaves no other voter. -/
theorem HasMajority.eq_of_mem {a : α}
    (honly : ∀ v ∈ A, v ∈ voters → v = a) {b c : α} (hb : b ∈ voters) (hc : c ∈ voters) :
    b = c := by
  have hcard : (A ∩ voters).card ≤ 1 := by
    refine card_le_one.mpr fun v hv w hw => ?_
    obtain ⟨hvA, hvV⟩ := mem_inter.mp hv
    obtain ⟨hwA, hwV⟩ := mem_inter.mp hw
    rw [honly v hvA hvV, honly w hwA hwV]
  have hvoters : voters.card ≤ 1 := by
    unfold HasMajority at hA
    omega
  exact card_le_one.mp hvoters b hb c hc

end

/-- Every voter belongs to a majority that is none without it. -/
theorem exists_hasMajority_not_erase {v : α} (hv : v ∈ voters) :
    ∃ A, HasMajority voters A ∧ ¬HasMajority voters (A.erase v) := by
  -- the voter and half of the others
  have hothers : voters.card / 2 ≤ (voters.erase v).card := by
    rw [card_erase_of_mem hv]
    omega
  obtain ⟨half, hhalf, hcard⟩ := exists_subset_card_eq hothers
  have hnot : v ∉ half := fun hmem => notMem_erase v voters (hhalf hmem)
  have hsub : half ⊆ voters := hhalf.trans (erase_subset v voters)
  refine ⟨insert v half, ?_, ?_⟩
  · rw [HasMajority, inter_eq_left.mpr (insert_subset hv hsub), card_insert_of_notMem hnot, hcard]
  · rw [HasMajority, erase_insert hnot, inter_eq_left.mpr hsub]
    omega

/-- The voters are determined by their majorities. -/
theorem eq_of_hasMajority_iff {voters' : Finset α}
    (h : ∀ A, HasMajority voters A ↔ HasMajority voters' A) : voters = voters' := by
  -- without a server that does not vote a set has as large a part of the voters as with it
  have hsubset : ∀ {V W : Finset α}, (∀ A, HasMajority V A ↔ HasMajority W A) → V ⊆ W := by
    intro V W hVW v hv
    by_contra hnot
    obtain ⟨A, hA, herase⟩ := exists_hasMajority_not_erase hv
    refine herase ((hVW _).mpr (((hVW A).mp hA).mono fun w hw hwW => ?_))
    exact mem_erase.mpr ⟨fun heq => hnot (heq ▸ hwW), hw⟩
  exact Subset.antisymm (hsubset h) (hsubset fun A => (h A).symm)

end Neo4r.Foundation
