import MmEngine.Model.LatencyHistogram
import MmEngine.Lib.OrderStatistics
import MmEngine.Lib.Counter64

/-!
# Percentiles out of order

`snapshot` finds, for each percentile, the bucket of the sample of that rank, and reports the
upper end of the bucket.  The buckets are in the order of the samples (`bucketOf_mono`), but
their upper ends are not: below `2 ^ 5` a bucket is one value `v` and its end is reported as
`2 ^ k + v`, which for 31 is 47, while the first bucket above `2 ^ 5` ends at 34; and the end of
the topmost bucket is `2 ^ 63`, which a 64-bit integer does not hold.  The percentiles are in
order exactly when no two neighbouring ranks straddle the first seam and the last one stays
below the topmost bucket.
-/

set_option autoImplicit false

namespace MmEngine.Analysis

open MmEngine.Model MmEngine.Model.LatencyHistogram MmEngine.Lib

/-! ## Buckets -/

/-- The part of its power of two that a value falls in. -/
def subOf (v : ℕ) : ℕ :=
  if 5 ≤ Nat.log2 v then v / 2 ^ (Nat.log2 v - 5) - 32 else v

theorem valueOf_pos (ns : Int64) : 1 ≤ valueOf ns := Nat.right_le_or

theorem valueOf_lt (ns : Int64) : valueOf ns < 2 ^ 63 := by
  have hns : ns.toInt.toNat < 2 ^ 63 := by
    have := ns.toInt_lt
    omega
  exact Nat.or_lt_two_pow hns (by decide)

/-- INTERNAL: the leading `5 + 1` bits of a value. -/
theorem shifted_bounds {v : ℕ} (hv : 1 ≤ v) (hlog : 5 ≤ Nat.log2 v) :
    32 ≤ v / 2 ^ (Nat.log2 v - 5) ∧ v / 2 ^ (Nat.log2 v - 5) < 64 := by
  have hpow : 2 ^ Nat.log2 v = 2 ^ (Nat.log2 v - 5) * 32 := by
    rw [show (32 : ℕ) = 2 ^ 5 by decide, ← Nat.pow_add]
    congr 1
    omega
  have hle : 2 ^ Nat.log2 v ≤ v := Nat.log2_self_le (by omega)
  have hlt : v < 2 ^ (Nat.log2 v + 1) := Nat.lt_log2_self
  rw [Nat.pow_succ, hpow] at hlt
  rw [hpow] at hle
  constructor
  · rw [Nat.le_div_iff_mul_le (Nat.two_pow_pos _)]
    omega
  · rw [Nat.div_lt_iff_lt_mul (Nat.two_pow_pos _)]
    omega

theorem subOf_lt {v : ℕ} (hv : 1 ≤ v) : subOf v < 32 := by
  unfold subOf
  split
  · next hlog =>
    have := shifted_bounds hv hlog
    omega
  · next hlog =>
    have hlt : v < 2 ^ 5 := (Nat.log2_lt (by omega)).mp (by omega)
    exact hlt

theorem bucketOf_eq {v : ℕ} (hv : 1 ≤ v) : bucketOf v = Nat.log2 v * 32 + subOf v := by
  unfold bucketOf subOf kSub kSubBits
  dsimp only
  congr 1
  have hmask : ∀ x : ℕ, x &&& (32 - 1) = x % 32 := fun x => Nat.and_two_pow_sub_one_eq_mod x 5
  rw [hmask, hmask]
  split
  · next hlog =>
    have := shifted_bounds hv hlog
    rw [Nat.shiftRight_eq_div_pow]
    omega
  · next hlog =>
    have hlt : v < 2 ^ 5 := (Nat.log2_lt (by omega)).mp (by omega)
    exact Nat.mod_eq_of_lt hlt

/-- INTERNAL: **larger values are in later buckets.** -/
theorem bucketOf_mono {v w : ℕ} (hvw : v ≤ w) : bucketOf v ≤ bucketOf w := by
  rcases Nat.eq_zero_or_pos v with rfl | hv
  · exact Nat.zero_le _
  rw [bucketOf_eq hv, bucketOf_eq (by omega)]
  have hlog : Nat.log2 v ≤ Nat.log2 w :=
    (Nat.le_log2 (by omega)).mpr ((Nat.log2_self_le (by omega)).trans hvw)
  rcases Nat.lt_or_eq_of_le hlog with hlt | heq
  · have := subOf_lt hv
    have hmul : (Nat.log2 v + 1) * 32 ≤ Nat.log2 w * 32 := Nat.mul_le_mul_right _ hlt
    rw [Nat.add_mul] at hmul
    omega
  · rw [heq]
    apply Nat.add_le_add_left
    unfold subOf
    rw [heq]
    split
    · have := Nat.div_le_div_right (c := 2 ^ (Nat.log2 w - 5)) hvw
      omega
    · exact hvw

theorem bucketOf_lt {v : ℕ} (hv : 1 ≤ v) (hlt : v < 2 ^ 63) : bucketOf v < 2016 := by
  rw [bucketOf_eq hv]
  have hlog : Nat.log2 v < 63 := (Nat.log2_lt (by omega)).mpr hlt
  have := subOf_lt hv
  omega

/-! ## Upper ends -/

/-- The upper end of the bucket of a value. -/
def upperOf (v : ℕ) : ℤ := bucketUpper (bucketOf v)

/-- INTERNAL: the upper end by the two parts of the index. -/
theorem upperOf_eq {v : ℕ} (hv : 1 ≤ v) :
    upperOf v = if Nat.log2 v < 5 then ((2 ^ Nat.log2 v + subOf v : ℕ) : ℤ)
      else Int.bmod (((32 + subOf v + 1) * 2 ^ (Nat.log2 v - 5) : ℕ) : ℤ) (2 ^ 64) := by
  unfold upperOf bucketUpper kSub kSubBits
  have hsub := subOf_lt hv
  have hdiv : bucketOf v / 32 = Nat.log2 v := by
    rw [bucketOf_eq hv]
    omega
  have hmod : bucketOf v % 32 = subOf v := by
    rw [bucketOf_eq hv]
    omega
  simp only [hdiv, hmod]
  push_cast
  rfl

/-- INTERNAL: below `2 ^ 5` the upper end is the value plus its power of two. -/
theorem upperOf_small {v : ℕ} (hv : 1 ≤ v) (hsmall : v < 32) :
    upperOf v = ((2 ^ Nat.log2 v + v : ℕ) : ℤ) := by
  have hlog : Nat.log2 v < 5 := (Nat.log2_lt (by omega)).mpr hsmall
  rw [upperOf_eq hv, if_pos hlog]
  unfold subOf
  rw [if_neg (by omega)]

/-- The upper end of a value from `2 ^ 5` on, before it is stored in 64 bits. -/
def rawUpper (v : ℕ) : ℕ :=
  (v / 2 ^ (Nat.log2 v - 5) + 1) * 2 ^ (Nat.log2 v - 5)

theorem upperOf_large {v : ℕ} (hlarge : 32 ≤ v) :
    upperOf v = Int.bmod (rawUpper v : ℤ) (2 ^ 64) := by
  have hlog : 5 ≤ Nat.log2 v := (Nat.le_log2 (by omega)).mpr hlarge
  have hb := shifted_bounds (by omega : 1 ≤ v) hlog
  have hlead : 32 + subOf v + 1 = v / 2 ^ (Nat.log2 v - 5) + 1 := by
    unfold subOf
    rw [if_pos hlog]
    omega
  rw [upperOf_eq (by omega), if_neg (by omega), hlead]
  rfl

theorem lt_rawUpper (v : ℕ) : v < rawUpper v := by
  unfold rawUpper
  rw [Nat.mul_comm]
  exact Nat.lt_mul_div_succ v (Nat.two_pow_pos _)

theorem rawUpper_le {v : ℕ} (hlarge : 32 ≤ v) : rawUpper v ≤ 2 ^ (Nat.log2 v + 1) := by
  have hlog : 5 ≤ Nat.log2 v := (Nat.le_log2 (by omega)).mpr hlarge
  have hb := shifted_bounds (by omega : 1 ≤ v) hlog
  have hpow : 2 ^ (Nat.log2 v + 1) = 64 * 2 ^ (Nat.log2 v - 5) := by
    rw [show (64 : ℕ) = 2 ^ 6 by decide, ← Nat.pow_add]
    congr 1
    omega
  unfold rawUpper
  rw [hpow]
  exact Nat.mul_le_mul_right _ (by omega)

/-- INTERNAL: from `2 ^ 5` on the upper ends are in order. -/
theorem rawUpper_mono {v w : ℕ} (hv : 32 ≤ v) (hvw : v ≤ w) : rawUpper v ≤ rawUpper w := by
  have hlog : Nat.log2 v ≤ Nat.log2 w :=
    (Nat.le_log2 (by omega)).mpr ((Nat.log2_self_le (by omega)).trans hvw)
  rcases Nat.lt_or_eq_of_le hlog with hlt | heq
  · calc
      rawUpper v ≤ 2 ^ (Nat.log2 v + 1) := rawUpper_le hv
      _ ≤ 2 ^ Nat.log2 w := Nat.pow_le_pow_right (by decide) hlt
      _ ≤ w := Nat.log2_self_le (by omega)
      _ ≤ rawUpper w := (lt_rawUpper w).le
  · unfold rawUpper
    rw [heq]
    apply Nat.mul_le_mul_right
    have := Nat.div_le_div_right (c := 2 ^ (Nat.log2 w - 5)) hvw
    omega

/-- The first value of the topmost bucket a sample can fall in. -/
def topValue : ℕ := 63 * 2 ^ 57

/-- INTERNAL: below the topmost bucket the upper end fits. -/
theorem rawUpper_le_topValue {v : ℕ} (hv : 32 ≤ v) (htop : v < topValue) : rawUpper v ≤ topValue := by
  unfold topValue at *
  by_cases hlog : Nat.log2 v < 62
  · calc
      rawUpper v ≤ 2 ^ (Nat.log2 v + 1) := rawUpper_le hv
      _ ≤ 2 ^ 62 := Nat.pow_le_pow_right (by decide) (by omega)
      _ ≤ 63 * 2 ^ 57 := by decide
  · have heq : Nat.log2 v = 62 := by
      have := (Nat.log2_lt (by omega : v ≠ 0)).mpr (by omega : v < 2 ^ 63)
      omega
    unfold rawUpper
    rw [heq]
    have : v / 2 ^ (62 - 5) < 63 := by
      rw [Nat.div_lt_iff_lt_mul (by decide)]
      exact htop
    exact Nat.mul_le_mul_right _ (by omega)

theorem upperOf_eq_rawUpper {v : ℕ} (hv : 32 ≤ v) (htop : v < topValue) :
    upperOf v = rawUpper v := by
  have hle := rawUpper_le_topValue hv htop
  rw [upperOf_large hv]
  apply Int.bmod_eq_of_le
  · omega
  · unfold topValue at hle
    omega

/-- INTERNAL: the upper end of the topmost bucket is past the sign bit.
SRCLINE: src/common/latency_histogram.hpp:84 -/
theorem upperOf_top {v : ℕ} (htop : topValue ≤ v) (hlt : v < 2 ^ 63) : upperOf v = -2 ^ 63 := by
  unfold topValue at htop
  have heq : Nat.log2 v = 62 := by
    have h₁ := (Nat.log2_lt (by omega : v ≠ 0)).mpr hlt
    have h₂ := (Nat.le_log2 (by omega : v ≠ 0)).mpr (by omega : 2 ^ 62 ≤ v)
    omega
  have hdiv : v / 2 ^ (62 - 5) = 63 := by omega
  rw [upperOf_large (by omega)]
  unfold rawUpper
  rw [heq, hdiv]
  decide

theorem upperOf_pos {v : ℕ} (hv : 1 ≤ v) (htop : v < topValue) : 0 < upperOf v := by
  by_cases hsmall : v < 32
  · rw [upperOf_small hv hsmall]
    have hpos : 0 < 2 ^ Nat.log2 v + v := Nat.add_pos_right _ hv
    exact_mod_cast hpos
  · rw [upperOf_eq_rawUpper (by omega) htop]
    have := lt_rawUpper v
    omega

/-- The two values straddle the seam at `2 ^ 5`, too close for their upper ends to be in
order. -/
def Straddle (v w : ℕ) : Prop := v < 32 ∧ 32 ≤ w ∧ w < v + 15

instance (v w : ℕ) : Decidable (Straddle v w) := inferInstanceAs (Decidable (_ ∧ _ ∧ _))

/-- INTERNAL: **two upper ends** are in order exactly when the values do not straddle the
seam. -/
theorem upperOf_le_iff {v w : ℕ} (hv : 1 ≤ v) (hvw : v ≤ w) (htop : w < topValue) :
    upperOf v ≤ upperOf w ↔ ¬ Straddle v w := by
  unfold Straddle
  by_cases hw : w < 32
  · -- both below the seam
    refine iff_of_true ?_ (by omega)
    rw [upperOf_small hv (by omega), upperOf_small (by omega) hw]
    have hlog : Nat.log2 v ≤ Nat.log2 w :=
      (Nat.le_log2 (by omega)).mpr ((Nat.log2_self_le (by omega)).trans hvw)
    have hpow : 2 ^ Nat.log2 v ≤ 2 ^ Nat.log2 w := Nat.pow_le_pow_right (by decide) hlog
    omega
  · by_cases hv32 : v < 32
    · rw [upperOf_small hv hv32, upperOf_eq_rawUpper (by omega) htop]
      -- the power of two below `v` is 16, or too small to matter
      have hpow : 2 ^ Nat.log2 v = 16 ∧ 16 ≤ v ∨ 2 ^ Nat.log2 v ≤ 8 ∧ v < 16 := by
        by_cases h16 : v < 16
        · have hlog := (Nat.log2_lt (by omega : v ≠ 0)).mpr (by omega : v < 2 ^ 4)
          have hle : 2 ^ Nat.log2 v ≤ 2 ^ 3 := Nat.pow_le_pow_right (by decide) (by omega)
          exact Or.inr ⟨hle, h16⟩
        · have h₁ := (Nat.log2_lt (by omega : v ≠ 0)).mpr (by omega : v < 2 ^ 5)
          have h₂ := (Nat.le_log2 (by omega : v ≠ 0)).mpr (by omega : 2 ^ 4 ≤ v)
          have heq : Nat.log2 v = 4 := by omega
          rw [heq]
          exact Or.inl ⟨rfl, by omega⟩
      by_cases hw64 : w < 64
      · have hraw : rawUpper w = w + 1 := by
          have h₁ := (Nat.log2_lt (by omega : w ≠ 0)).mpr (by omega : w < 2 ^ 6)
          have h₂ := (Nat.le_log2 (by omega : w ≠ 0)).mpr (by omega : 2 ^ 5 ≤ w)
          have heq : Nat.log2 w = 5 := by omega
          unfold rawUpper
          rw [heq]
          omega
        rw [hraw]
        omega
      · have := lt_rawUpper w
        omega
    · -- both above it
      refine iff_of_true ?_ (by omega)
      rw [upperOf_eq_rawUpper (by omega) (by omega), upperOf_eq_rawUpper (by omega) htop]
      have := rawUpper_mono (by omega : 32 ≤ v) hvw
      omega

/-! ## Counting -/

/-- The samples in the buckets before `k`. -/
def countBelow (samples : List Int64) (k : ℕ) : ℕ :=
  (samples.map valueOf).countP fun v => bucketOf v < k

theorem buckets_recordAll (samples : List Int64) (i : ℕ) :
    (recordAll samples).buckets i =
      UInt64.ofNat ((samples.map valueOf).countP fun v => bucketOf v = i) := by
  have hgen : ∀ h : LatencyHistogram, (samples.foldl record h).buckets i =
      h.buckets i + UInt64.ofNat ((samples.map valueOf).countP fun v => bucketOf v = i) := by
    induction samples with
    | nil => exact fun h => (UInt64.add_zero _).symm
    | cons ns samples ih =>
      intro h
      rw [List.foldl_cons, ih, List.map_cons, List.countP_cons]
      unfold record
      dsimp only
      by_cases hi : i = bucketOf (valueOf ns)
      · subst hi
        simp only [Function.update_self, decide_true, if_true]
        rw [← ofNat_succ]
        grind
      · rw [Function.update_of_ne hi]
        have hne : ¬ bucketOf (valueOf ns) = i := fun hc => hi hc.symm
        simp [hne]
  rw [recordAll, hgen]
  exact UInt64.zero_add _

theorem countBelow_succ (samples : List Int64) (k : ℕ) :
    UInt64.ofNat (countBelow samples k) + (recordAll samples).buckets k =
      UInt64.ofNat (countBelow samples (k + 1)) := by
  rw [buckets_recordAll, ← UInt64.ofNat_add]
  congr 1
  unfold countBelow
  generalize samples.map valueOf = vs
  induction vs with
  | nil => rfl
  | cons v vs ih =>
    simp only [List.countP_cons, decide_eq_true_eq] at ih ⊢
    split <;> split <;> split <;> omega

theorem sum_buckets (samples : List Int64) (k : ℕ) :
    (List.range k).foldl (fun t i => t + (recordAll samples).buckets i) 0 =
      UInt64.ofNat (countBelow samples k) := by
  induction k with
  | zero =>
    have hzero : countBelow samples 0 = 0 := by
      unfold countBelow
      simp
    rw [hzero]
    rfl
  | succ k ih =>
    rw [List.range_succ, List.foldl_append, ih]
    exact countBelow_succ samples k

theorem countBelow_kBuckets (samples : List Int64) : countBelow samples kBuckets = samples.length := by
  have hlen : (samples.map valueOf).length = samples.length := List.length_map _
  unfold countBelow
  rw [← hlen]
  apply List.countP_eq_length.mpr
  intro v hv
  obtain ⟨ns, -, rfl⟩ := List.mem_map.mp hv
  rw [decide_eq_true_eq]
  exact (bucketOf_lt (valueOf_pos ns) (valueOf_lt ns)).trans (by decide)

theorem total_recordAll (samples : List Int64) :
    (recordAll samples).total = UInt64.ofNat samples.length := by
  unfold LatencyHistogram.total
  rw [sum_buckets, countBelow_kBuckets]

/-- The counted value of rank `t` among the samples. -/
def rankedValue (samples : List Int64) (t : ℕ) : ℕ := ranked (samples.map valueOf) t

section Ranks

variable {samples : List Int64} {t : ℕ} (ht : 1 ≤ t) (ht' : t ≤ samples.length)

include ht ht' in
/-- INTERNAL: the counts reach `t` at the bucket of the sample of rank `t`. -/
theorem le_countBelow_iff (k : ℕ) :
    t ≤ countBelow samples (k + 1) ↔ bucketOf (rankedValue samples t) ≤ k := by
  unfold countBelow rankedValue
  rw [le_countP_iff _ ht (by rw [List.length_map]; exact ht'), decide_eq_true_eq,
    Nat.lt_succ_iff]
  intro a b hab hb
  rw [decide_eq_true_eq] at hb ⊢
  exact (bucketOf_mono hab).trans_lt hb

include ht ht' in
/-- INTERNAL: the sample of a rank is one of the samples. -/
theorem rankedValue_bounds : 1 ≤ rankedValue samples t ∧ rankedValue samples t < 2 ^ 63 := by
  have hmem : rankedValue samples t ∈ samples.map valueOf := by
    unfold rankedValue ranked
    have hperm := List.mergeSort_perm (samples.map valueOf) fun a b => decide (a ≤ b)
    rw [List.getD_eq_getElem _ _ (by rw [hperm.length_eq, List.length_map]; omega)]
    exact hperm.mem_iff.mp (List.getElem_mem _)
  obtain ⟨ns, -, hns⟩ := List.mem_map.mp hmem
  rw [← hns]
  exact ⟨valueOf_pos ns, valueOf_lt ns⟩

end Ranks

/-! ## The walk -/

/-- INTERNAL: one test of the walk: a percentile is set at its bucket and stays. -/
theorem passed {i k : ℕ} {p : ℤ} (hu : bucketUpper i ≠ 0)
    (hp : p = if i < k then bucketUpper i else 0) :
    (if p = 0 ∧ i ≤ k then bucketUpper k else p) = if i < k + 1 then bucketUpper i else 0 := by
  rcases Nat.lt_trichotomy i k with hlt | heq | hgt
  · rw [if_pos hlt] at hp
    rw [if_neg (by rw [hp]; exact fun hc => hu hc.1), if_pos (by omega), hp]
  · subst heq
    rw [if_neg (by omega)] at hp
    rw [if_pos ⟨hp, le_refl _⟩, if_pos (by omega)]
  · rw [if_neg (by omega)] at hp
    rw [if_neg (by omega), if_neg (by omega), hp]

/-- INTERNAL: **the walk**, by induction over the buckets still to come.  The three targets are
reached at `i50`, `i90` and `i99` in this order; a percentile is set when its bucket has been
passed, and not before. -/
theorem walk_eq {samples : List Int64} {t50 t90 t99 : UInt64} {i50 i90 i99 : ℕ}
    (h50 : ∀ k, t50 ≤ UInt64.ofNat (countBelow samples (k + 1)) ↔ i50 ≤ k)
    (h90 : ∀ k, t90 ≤ UInt64.ofNat (countBelow samples (k + 1)) ↔ i90 ≤ k)
    (h99 : ∀ k, t99 ≤ UInt64.ofNat (countBelow samples (k + 1)) ↔ i99 ≤ k)
    (h5090 : i50 ≤ i90) (h9099 : i90 ≤ i99) (hu50 : bucketUpper i50 ≠ 0)
    (hu90 : bucketUpper i90 ≠ 0) (n : ℕ) :
    ∀ (k : ℕ) (out : Percentiles), k ≤ i99 → i99 < k + n →
      out.p50 = (if i50 < k then bucketUpper i50 else 0) →
      out.p90 = (if i90 < k then bucketUpper i90 else 0) → out.p99 = 0 →
      walk (recordAll samples).buckets t50 t90 t99 (List.range' k n)
          (UInt64.ofNat (countBelow samples k)) out =
        { out with p50 := bucketUpper i50, p90 := bucketUpper i90, p99 := bucketUpper i99 } := by
  induction n with
  | zero =>
    intro k out hk hlt
    omega
  | succ n ih =>
    intro k out hk hlt ho50 ho90 ho99
    rw [List.range'_succ]
    simp only [walk, countBelow_succ, ge_iff_le, h50, h90, h99]
    -- what the two tests leave in `p50` and `p90`
    have hset50 : (if out.p50 = 0 ∧ i50 ≤ k then { out with p50 := bucketUpper k } else out) =
        { out with p50 := if i50 < k + 1 then bucketUpper i50 else 0 } := by
      rw [← passed hu50 ho50]
      split <;> rfl
    have hset90 : ∀ o : Percentiles, o.p90 = out.p90 →
        (if o.p90 = 0 ∧ i90 ≤ k then { o with p90 := bucketUpper k } else o) =
          { o with p90 := if i90 < k + 1 then bucketUpper i90 else 0 } := by
      intro o ho
      rw [← passed hu90 (ho.trans ho90)]
      split <;> rfl
    rw [hset50, hset90 { out with p50 := if i50 < k + 1 then bucketUpper i50 else 0 } rfl]
    by_cases hend : i99 ≤ k
    · obtain rfl : k = i99 := by omega
      rw [if_pos ⟨ho99, le_refl _⟩, if_pos (by omega), if_pos (by omega)]
    · rw [if_neg (fun hc => hend hc.2)]
      exact ih (k + 1) _ (by omega) (by omega) rfl rfl ho99

/-- The rank of a percentile among `n` samples.
SRCLINE: src/common/latency_histogram.hpp:59-61 -/
def percentileRank (n q : ℕ) : ℕ := (n * q + 99) / 100

/-- INTERNAL: the target of a percentile, while the multiplication fits. -/
theorem toNat_target {n q : ℕ} (hq : q ≤ 99) (hfits : n * 99 + 99 < 2 ^ 64) :
    ((UInt64.ofNat n * UInt64.ofNat q + 99) / 100).toNat = percentileRank n q := by
  have hmul : n * q ≤ n * 99 := Nat.mul_le_mul_left n hq
  unfold percentileRank
  rw [UInt64.toNat_div, ← UInt64.ofNat_mul, UInt64.toNat_add, UInt64.toNat_ofNat']
  have h99 : (99 : UInt64).toNat = 99 := rfl
  have h100 : (100 : UInt64).toNat = 100 := rfl
  rw [h99, h100]
  omega

section Snapshot

variable {samples : List Int64} (hne : samples ≠ [])
  (hfits : samples.length * 99 + 99 < 2 ^ 64)

include hne in
theorem percentileRank_bounds {q : ℕ} (hq : 50 ≤ q) (hq' : q ≤ 99) :
    1 ≤ percentileRank samples.length q ∧ percentileRank samples.length q ≤ samples.length := by
  have hpos := List.length_pos_iff.mpr hne
  have hlow : samples.length * 50 ≤ samples.length * q := Nat.mul_le_mul_left _ hq
  have hhigh : samples.length * q ≤ samples.length * 99 := Nat.mul_le_mul_left _ hq'
  unfold percentileRank
  omega

/-- The counted value of the sample a percentile stands for. -/
def percentileValue (samples : List Int64) (q : ℕ) : ℕ :=
  rankedValue samples (percentileRank samples.length q)

include hne hfits in
/-- INTERNAL: the walk meets the target of a percentile at the bucket of its sample. -/
theorem target_iff {q : ℕ} (hq : 50 ≤ q) (hq' : q ≤ 99) (k : ℕ) :
    (UInt64.ofNat samples.length * UInt64.ofNat q + 99) / 100 ≤
        UInt64.ofNat (countBelow samples (k + 1)) ↔
      bucketOf (percentileValue samples q) ≤ k := by
  obtain ⟨hlow, hhigh⟩ := percentileRank_bounds hne hq hq'
  have hle : countBelow samples (k + 1) ≤ samples.length := by
    have := List.countP_le_length (p := fun v => decide (bucketOf v < k + 1))
      (l := samples.map valueOf)
    rw [List.length_map] at this
    exact this
  rw [UInt64.le_iff_toNat_le, toNat_target hq' hfits, UInt64.toNat_ofNat',
    Nat.mod_eq_of_lt (by omega)]
  exact le_countBelow_iff hlow hhigh k

include hne in
theorem percentileValue_bounds {q : ℕ} (hq : 50 ≤ q) (hq' : q ≤ 99) :
    1 ≤ percentileValue samples q ∧ percentileValue samples q < 2 ^ 63 := by
  obtain ⟨hlow, hhigh⟩ := percentileRank_bounds hne hq hq'
  exact rankedValue_bounds hlow hhigh

include hne in
theorem percentileValue_mono {q q' : ℕ} (hq : 50 ≤ q) (hqq : q ≤ q') (hq' : q' ≤ 99) :
    percentileValue samples q ≤ percentileValue samples q' := by
  have hlow := (percentileRank_bounds hne hq (by omega)).1
  have hhigh := (percentileRank_bounds hne (by omega : 50 ≤ q') hq').2
  apply ranked_mono hlow _ (by rw [List.length_map]; exact hhigh)
  unfold percentileRank
  have := Nat.mul_le_mul_left samples.length hqq
  omega

include hne hfits in
/-- INTERNAL: **the snapshot** reports the upper ends of the buckets of the three samples.
SRCLINE: src/common/latency_histogram.hpp:50-71 -/
theorem snapshot_eq :
    (recordAll samples).snapshot.p50 = upperOf (percentileValue samples 50) ∧
      (recordAll samples).snapshot.p90 = upperOf (percentileValue samples 90) ∧
      (recordAll samples).snapshot.p99 = upperOf (percentileValue samples 99) := by
  have htotal := total_recordAll samples
  have hpos := List.length_pos_iff.mpr hne
  have hnonzero : UInt64.ofNat samples.length ≠ 0 := by
    intro hzero
    have := congrArg UInt64.toNat hzero
    rw [UInt64.toNat_ofNat', UInt64.toNat_zero] at this
    omega
  have hupper : ∀ q, 50 ≤ q → q ≤ 99 → upperOf (percentileValue samples q) ≠ 0 := by
    intro q hq hq'
    obtain ⟨hlow, hhigh⟩ := percentileValue_bounds hne hq hq'
    by_cases htop : percentileValue samples q < topValue
    · exact ne_of_gt (upperOf_pos hlow htop)
    · rw [upperOf_top (by omega) hhigh]
      decide
  have hlast := percentileValue_bounds hne (by decide : 50 ≤ 99) (by decide : 99 ≤ 99)
  have hwalk := walk_eq (target_iff hne hfits (by decide : 50 ≤ 50) (by decide))
    (target_iff hne hfits (by decide : 50 ≤ 90) (by decide))
    (target_iff hne hfits (by decide : 50 ≤ 99) (by decide))
    (bucketOf_mono (percentileValue_mono hne (by decide) (by decide) (by decide)))
    (bucketOf_mono (percentileValue_mono hne (by decide) (by decide) (by decide)))
    (hupper 50 (by decide) (by decide)) (hupper 90 (by decide) (by decide)) kBuckets 0
    { p50 := 0, p90 := 0, p99 := 0, max := (recordAll samples).max, count := UInt64.ofNat samples.length }
    (Nat.zero_le _) (by rw [Nat.zero_add]; exact (bucketOf_lt hlast.1 hlast.2).trans (by decide))
    rfl rfl rfl
  have hzero : countBelow samples 0 = 0 := by
    unfold countBelow
    simp
  rw [hzero, ← List.range_eq_range'] at hwalk
  unfold LatencyHistogram.snapshot
  rw [htotal, if_neg hnonzero]
  have h50 : (50 : UInt64) = UInt64.ofNat 50 := rfl
  have h90 : (90 : UInt64) = UInt64.ofNat 90 := rfl
  have h99 : ∀ x : UInt64, x * 99 = x * UInt64.ofNat 99 := fun _ => rfl
  have h0 : (0 : UInt64) = UInt64.ofNat 0 := rfl
  rw [h50, h90, h99, h0, hwalk]
  exact ⟨rfl, rfl, rfl⟩

end Snapshot

/-- The snapshot reports positive percentiles in ascending order. -/
def PercentilesInOrder (samples : List Int64) : Prop :=
  0 < (recordAll samples).snapshot.p50 ∧
    (recordAll samples).snapshot.p50 ≤ (recordAll samples).snapshot.p90 ∧
    (recordAll samples).snapshot.p90 ≤ (recordAll samples).snapshot.p99

/-- The sample at the last percentile is below the topmost bucket, and the samples of no two
neighbouring percentiles straddle the seam at `2 ^ 5`. -/
def ClearOfSeams (samples : List Int64) : Prop :=
  percentileValue samples 99 < topValue ∧
    ¬ Straddle (percentileValue samples 50) (percentileValue samples 90) ∧
    ¬ Straddle (percentileValue samples 90) (percentileValue samples 99)

/-- **The percentiles are in order exactly when their samples are clear of the two seams of
`bucket_upper`.**  For every non-empty sequence of samples whose percentile targets fit in 64
bits; a sequence that brings the 64-bit counters back to zero is reported as empty.
SRCLINE: src/common/latency_histogram.hpp:32-85 -/
theorem percentiles_in_order_iff (samples : List Int64) (hne : samples ≠ []) :
    (samples.length * 99 + 99 < 2 ^ 64 → (PercentilesInOrder samples ↔ ClearOfSeams samples)) ∧
      (samples.length % 2 ^ 64 = 0 → ¬ PercentilesInOrder samples) := by
  constructor
  · intro hfits
    obtain ⟨h50, h90, h99⟩ := snapshot_eq hne hfits
    obtain ⟨hlow50, -⟩ := percentileValue_bounds hne (by decide : 50 ≤ 50) (by decide)
    obtain ⟨hlow90, hhigh90⟩ := percentileValue_bounds hne (by decide : 50 ≤ 90) (by decide)
    obtain ⟨-, hhigh99⟩ := percentileValue_bounds hne (by decide : 50 ≤ 99) (by decide)
    have hle₁ : percentileValue samples 50 ≤ percentileValue samples 90 :=
      percentileValue_mono hne (by decide) (by decide) (by decide)
    have hle₂ : percentileValue samples 90 ≤ percentileValue samples 99 :=
      percentileValue_mono hne (by decide) (by decide) (by decide)
    unfold PercentilesInOrder ClearOfSeams
    rw [h50, h90, h99]
    by_cases htop : percentileValue samples 99 < topValue
    · rw [upperOf_le_iff hlow50 hle₁ (by omega), upperOf_le_iff hlow90 hle₂ htop]
      have hpos := upperOf_pos hlow50 (by omega : percentileValue samples 50 < topValue)
      exact ⟨fun h => ⟨htop, h.2⟩, fun h => ⟨hpos, h.2⟩⟩
    · -- the largest of the three wraps to the least 64-bit integer
      apply iff_of_false _ (fun hc => htop hc.1)
      rintro ⟨hpos, h₁, h₂⟩
      rw [upperOf_top (by omega) hhigh99] at h₂
      omega
  · rintro hwrap ⟨hpos, -⟩
    have htotal : (recordAll samples).total = 0 := by
      rw [total_recordAll]
      apply UInt64.toNat_inj.mp
      rw [UInt64.toNat_ofNat', hwrap]
      rfl
    unfold LatencyHistogram.snapshot at hpos
    rw [if_pos htotal] at hpos
    exact absurd hpos (lt_irrefl 0)

/-- Three samples well above the seam. -/
theorem percentiles_in_order_iff_microseconds :
    PercentilesInOrder [1000, 2000, 3000] ↔ ClearOfSeams [1000, 2000, 3000] :=
  (percentiles_in_order_iff [1000, 2000, 3000] (by decide)).1 (by decide)

/-- Samples of 31 and 33 nanoseconds: the median is reported as 47, the other percentiles as
34. -/
theorem percentiles_out_of_order :
    (recordAll [31, 33]).snapshot.p50 = 47 ∧ (recordAll [31, 33]).snapshot.p90 = 34 ∧
      (recordAll [31, 33]).snapshot.p99 = 34 ∧ ¬ PercentilesInOrder [31, 33] := by
  have hsnap : (recordAll [31, 33]).snapshot = ⟨47, 34, 34, 33, 2⟩ := by decide +kernel
  unfold PercentilesInOrder
  rw [hsnap]
  refine ⟨rfl, rfl, rfl, ?_⟩
  rintro ⟨-, hle, -⟩
  exact absurd hle (by decide)

end MmEngine.Analysis
