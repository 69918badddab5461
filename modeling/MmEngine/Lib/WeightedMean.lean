import Mathlib.Analysis.Convex.Combination

/-!
# Weighted means with a value for no weight

The centre of mass of a family of points is not defined when the weights add up to zero; a
program then returns some other point.  Adding further points to a family leaves the mean as it
was exactly when they have no weight or their own centre of mass is that mean
(`meanOr_union_eq_iff`).
-/

set_option autoImplicit false

namespace MmEngine.Lib

open Finset

variable {ι R E : Type*} [Field R] [LinearOrder R] [AddCommGroup E] [Module R E]

/-- The weighted mean of a family of points, or `c` when it has no weight. -/
noncomputable def meanOr (c : E) (s : Finset ι) (w : ι → R) (z : ι → E) : E :=
  if 0 < ∑ i ∈ s, w i then s.centerMass w z else c

section

variable {c : E} {s t : Finset ι} {w : ι → R} {z : ι → E}

theorem meanOr_of_pos (h : 0 < ∑ i ∈ s, w i) : meanOr c s w z = s.centerMass w z := if_pos h

/-- INTERNAL: points without weight can be left out. -/
theorem meanOr_subset (hsub : s ⊆ t) (h : ∀ i ∈ t, i ∉ s → w i = 0) : meanOr c s w z = meanOr c t w z := by
  unfold meanOr
  rw [sum_subset hsub h, centerMass_subset z hsub h]

omit [LinearOrder R] in
/-- INTERNAL: weight times centre of mass is the weighted sum. -/
theorem sum_smul_centerMass (h : ∑ i ∈ s, w i ≠ 0) :
    (∑ i ∈ s, w i) • s.centerMass w z = ∑ i ∈ s, w i • z i := by
  unfold centerMass
  exact smul_inv_smul₀ h _

variable [IsStrictOrderedRing R] [DecidableEq ι]

/-- INTERNAL: a centre of mass is kept by further points exactly when theirs is the same. -/
theorem centerMass_union_eq_iff (hst : Disjoint s t) (hs : 0 < ∑ i ∈ s, w i) (ht : 0 < ∑ i ∈ t, w i) :
    (s ∪ t).centerMass w z = s.centerMass w z ↔ t.centerMass w z = s.centerMass w z := by
  have hsum : ∑ i ∈ s ∪ t, w i = ∑ i ∈ s, w i + ∑ i ∈ t, w i := sum_union hst
  have hpos : 0 < ∑ i ∈ s ∪ t, w i := hsum ▸ add_pos hs ht
  -- both sides of the mean, times the weight
  have hmass : (∑ i ∈ s ∪ t, w i) • (s ∪ t).centerMass w z =
      (∑ i ∈ s, w i) • s.centerMass w z + (∑ i ∈ t, w i) • t.centerMass w z := by
    rw [sum_smul_centerMass hpos.ne', sum_smul_centerMass hs.ne', sum_smul_centerMass ht.ne', sum_union hst]
  constructor
  · intro h
    rw [h, hsum, add_smul] at hmass
    exact (smul_right_injective E ht.ne' (add_left_cancel hmass)).symm
  · intro h
    rw [h, ← add_smul, ← hsum] at hmass
    exact smul_right_injective E hpos.ne' hmass

/-- **Further points leave the mean as it was exactly when they have no weight or their own
centre of mass is that mean.** -/
theorem meanOr_union_eq_iff (hst : Disjoint s t) (hw : ∀ i ∈ s ∪ t, 0 ≤ w i) :
    meanOr c (s ∪ t) w z = meanOr c s w z ↔ ∑ i ∈ t, w i = 0 ∨ t.centerMass w z = meanOr c s w z := by
  have hws : ∀ i ∈ s, 0 ≤ w i := fun i hi => hw i (mem_union_left t hi)
  have hwt : ∀ i ∈ t, 0 ≤ w i := fun i hi => hw i (mem_union_right s hi)
  obtain hzero | ht := (sum_nonneg hwt).eq_or_lt
  · -- no weight in the second family: both sides hold
    refine iff_of_true (meanOr_subset subset_union_left ?_).symm (.inl hzero.symm)
    intro i hi his
    have hit : i ∈ t := (mem_union.mp hi).resolve_left his
    exact (sum_eq_zero_iff_of_nonneg hwt).mp hzero.symm i hit
  have hunion : 0 < ∑ i ∈ s ∪ t, w i := by
    rw [sum_union hst]
    exact add_pos_of_nonneg_of_pos (sum_nonneg hws) ht
  rw [meanOr_of_pos hunion, or_iff_right ht.ne']
  obtain hzero | hs := (sum_nonneg hws).eq_or_lt
  · -- no weight in the first: the union's centre of mass is the second's
    have hcenter : t.centerMass w z = (s ∪ t).centerMass w z := by
      apply centerMass_subset z subset_union_right
      intro i hi hit
      have his : i ∈ s := (mem_union.mp hi).resolve_right hit
      exact (sum_eq_zero_iff_of_nonneg hws).mp hzero.symm i his
    rw [hcenter]
  · rw [meanOr_of_pos hs]
    exact centerMass_union_eq_iff hst hs ht

end

end MmEngine.Lib
