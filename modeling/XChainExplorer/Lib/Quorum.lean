import Mathlib.Algebra.Order.BigOperators.Group.Finset
import Mathlib.Data.Finset.Card
import Mathlib.Tactic.Linarith

/-! # Quorums

    Two sets past two thirds of a total weight meet in more than a third of it, and two sets of
    enough members meet in as many as they are together above the total. -/

namespace Quorum

variable {ι K : Type*} [DecidableEq ι]

section weighted
variable [Field K] [LinearOrder K] [IsStrictOrderedRing K]

/-- A part of the members holds more than two thirds of their weight. -/
def Heavy (weight : ι → K) (all part : Finset ι) : Prop :=
  (∑ i ∈ all, weight i) * 2 < (∑ i ∈ part, weight i) * 3

variable {weight : ι → K} {all A B : Finset ι}

omit [DecidableEq ι] in
theorem Heavy.mono (hw : ∀ i ∈ all, 0 ≤ weight i) (hA : Heavy weight all A) (hAB : A ⊆ B)
    (hB : B ⊆ all) : Heavy weight all B := by
  have hle : ∑ i ∈ A, weight i ≤ ∑ i ∈ B, weight i :=
    Finset.sum_le_sum_of_subset_of_nonneg hAB fun i hi _ => hw i (hB hi)
  unfold Heavy at hA ⊢
  linarith

/-- Two heavy parts meet in more than a third of the weight. -/
theorem Heavy.inter (hw : ∀ i ∈ all, 0 ≤ weight i) (hA : Heavy weight all A)
    (hB : Heavy weight all B) (hAall : A ⊆ all) (hBall : B ⊆ all) :
    ∑ i ∈ all, weight i < (∑ i ∈ A ∩ B, weight i) * 3 := by
  have hunion : ∑ i ∈ A ∪ B, weight i ≤ ∑ i ∈ all, weight i :=
    Finset.sum_le_sum_of_subset_of_nonneg (Finset.union_subset hAall hBall) fun i hi _ => hw i hi
  have hsplit : ∑ i ∈ A ∪ B, weight i + ∑ i ∈ A ∩ B, weight i =
      ∑ i ∈ A, weight i + ∑ i ∈ B, weight i := Finset.sum_union_inter
  unfold Heavy at hA hB
  linarith

end weighted

/-- Two parts of `q` members each share what they are together above the whole. -/
theorem card_inter {all A B : Finset ι} {q : ℕ} (hA : A ⊆ all) (hB : B ⊆ all) (hAq : q ≤ A.card)
    (hBq : q ≤ B.card) : 2 * q ≤ all.card + (A ∩ B).card := by
  have hunion : (A ∪ B).card ≤ all.card := Finset.card_le_card (Finset.union_subset hA hB)
  have hsplit : (A ∪ B).card + (A ∩ B).card = A.card + B.card := Finset.card_union_add_card_inter A B
  omega

/-- Two parts of `q` members each need share no more than that. -/
theorem exists_card_inter {all : Finset ι} {q : ℕ} (hq : q ≤ all.card) (hall : all.card ≤ 2 * q) :
    ∃ A ⊆ all, ∃ B ⊆ all, A.card = q ∧ B.card = q ∧ 2 * q = all.card + (A ∩ B).card := by
  obtain ⟨A, hA, hAcard⟩ := Finset.exists_subset_card_eq hq
  have hle : 2 * q - all.card ≤ A.card := by omega
  obtain ⟨C, hC, hCcard⟩ := Finset.exists_subset_card_eq hle
  have hrest : (all \ A).card = all.card - q := by
    rw [Finset.card_sdiff_of_subset hA, hAcard]
  have hdisjoint : Disjoint (all \ A) C := Finset.sdiff_disjoint.mono_right hC
  have hinter : A ∩ ((all \ A) ∪ C) = C := by
    rw [Finset.inter_union_distrib_left, Finset.inter_sdiff_self, Finset.empty_union,
      Finset.inter_eq_right.mpr hC]
  refine ⟨A, hA, (all \ A) ∪ C, Finset.union_subset Finset.sdiff_subset (hC.trans hA), hAcard, ?_,
    ?_⟩
  · rw [Finset.card_union_of_disjoint hdisjoint, hrest, hCcard]
    omega
  · rw [hinter, hCcard]
    omega

end Quorum
