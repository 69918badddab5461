import MmEngine.Analysis.Percentiles
import Mathlib.Algebra.Order.Floor.Div

/-!
# How accurate the percentiles are

A percentile is the upper end of the bucket of the sample of its rank (`snapshot_eq`).  The
histogram counts a sample with its lowest bit set, which is monotone, so the counted value of
that rank is the exact rank percentile with its lowest bit set (`percentileValue_eq`).  Below the
topmost bucket the upper end is past every value of the bucket, and from `2 ^ 5` on a bucket is no
longer than a thirty-second of its values.
-/

set_option autoImplicit false

namespace MmEngine.Analysis

open MmEngine.Model MmEngine.Model.LatencyHistogram MmEngine.Lib

/-- The exact rank percentile: the `⌈n * q / 100⌉`-th smallest of the samples, negative ones
counted as `0`. -/
def rankPercentile (samples : List Int64) (q : ℕ) : ℕ :=
  ranked (samples.map fun ns => ns.toInt.toNat) (samples.length * q ⌈/⌉ 100)

/-- A percentile `P` reported for a sample `x`: it is past the sample, by at most a thirty-second
of what is counted from `2 ^ 5` on. -/
def AccurateAt (x : ℕ) (P : ℤ) : Prop :=
  x < 2 ^ 63 - 2 ^ 57 → x < P ∧ (32 ≤ x → P ≤ ((x ||| 1) + (x ||| 1) / 32 : ℕ))

/-! ## One bucket -/

theorem or_one_eq (x : ℕ) : x ||| 1 = 2 * (x / 2) + 1 := by
  have hhalf : (x ||| 1) / 2 = x / 2 := by
    rw [Nat.or_div_two, Nat.or_zero]
  have hodd : (x ||| 1) % 2 = 1 := by
    rw [Nat.or_mod_two_eq_one]
    exact Or.inr rfl
  omega

theorem or_one_mono : Monotone fun x : ℕ => x ||| 1 := by
  intro x y hxy
  dsimp only
  rw [or_one_eq, or_one_eq]
  omega

theorem lt_upperOf {v : ℕ} (hv : 1 ≤ v) (htop : v < topValue) : v < upperOf v := by
  by_cases hsmall : v < 32
  · rw [upperOf_small hv hsmall]
    have hpow : 0 < 2 ^ Nat.log2 v := Nat.two_pow_pos _
    exact_mod_cast (by omega : v < 2 ^ Nat.log2 v + v)
  · rw [upperOf_eq_rawUpper (by omega) htop]
    exact_mod_cast lt_rawUpper v

/-- INTERNAL: a bucket from `2 ^ 5` on is no longer than a thirty-second of its values. -/
theorem rawUpper_le_add {v : ℕ} (hv : 32 ≤ v) : rawUpper v ≤ v + v / 32 := by
  have hlog : 5 ≤ Nat.log2 v := (Nat.le_log2 (by omega)).mpr hv
  have hlead := (shifted_bounds (by omega : 1 ≤ v) hlog).1
  have hpart : v / 2 ^ (Nat.log2 v - 5) * 2 ^ (Nat.log2 v - 5) ≤ v := Nat.div_mul_le_self _ _
  have hlength : 2 ^ (Nat.log2 v - 5) ≤ v / 32 := by
    rw [Nat.le_div_iff_mul_le (by decide)]
    calc
      2 ^ (Nat.log2 v - 5) * 32 = 32 * 2 ^ (Nat.log2 v - 5) := Nat.mul_comm _ _
      _ ≤ v / 2 ^ (Nat.log2 v - 5) * 2 ^ (Nat.log2 v - 5) := Nat.mul_le_mul_right _ hlead
      _ ≤ v := hpart
  unfold rawUpper
  rw [Nat.add_mul, Nat.one_mul]
  exact Nat.add_le_add hpart hlength

/-- INTERNAL: **the upper end of a sample's bucket** is accurate for the sample. -/
theorem accurateAt_upperOf (x : ℕ) : AccurateAt x (upperOf (x ||| 1)) := by
  intro hx
  have hvalue : x ||| 1 = 2 * (x / 2) + 1 := or_one_eq x
  have htop : x ||| 1 < topValue := by
    unfold topValue
    omega
  constructor
  · have hlt := lt_upperOf (by omega : 1 ≤ x ||| 1) htop
    have hle : (x : ℤ) ≤ ((x ||| 1 : ℕ) : ℤ) := by exact_mod_cast (by omega : x ≤ x ||| 1)
    exact hle.trans_lt hlt
  · intro hlarge
    have hlarge' : 32 ≤ x ||| 1 := by omega
    rw [upperOf_eq_rawUpper hlarge' htop]
    exact_mod_cast rawUpper_le_add hlarge'

/-! ## The rank sample -/

/-- INTERNAL: the counted value of a percentile is the rank percentile with its lowest bit set. -/
theorem percentileValue_eq {samples : List Int64} (hne : samples ≠ []) {q : ℕ} (hq : 50 ≤ q)
    (hq' : q ≤ 99) : percentileValue samples q = rankPercentile samples q ||| 1 := by
  obtain ⟨hlow, hhigh⟩ := percentileRank_bounds hne hq hq'
  have hrank : samples.length * q ⌈/⌉ 100 = percentileRank samples.length q := by
    rw [Nat.ceilDiv_eq_add_pred_div]
    rfl
  have hvalues : samples.map valueOf =
      (samples.map fun ns => ns.toInt.toNat).map fun x => x ||| 1 := by
    rw [List.map_map]
    rfl
  unfold percentileValue rankedValue rankPercentile
  rw [hvalues, hrank]
  exact ranked_map or_one_mono hlow (by rw [List.length_map]; exact hhigh)

theorem count_walk (buckets : ℕ → UInt64) (t50 t90 t99 : UInt64) (is : List ℕ) :
    ∀ (cum : UInt64) (out : Percentiles),
      (walk buckets t50 t90 t99 is cum out).count = out.count := by
  induction is with
  | nil =>
    intro cum out
    rfl
  | cons i is ih =>
    intro cum out
    simp only [walk]
    split_ifs <;> simp only [ih]

theorem count_snapshot (h : LatencyHistogram) : h.snapshot.count = h.total := by
  unfold LatencyHistogram.snapshot
  by_cases hzero : h.total = 0
  · rw [if_pos hzero]
  · rw [if_neg hzero, count_walk]

/-- **The percentiles are accurate.**  For every non-empty sequence of samples whose targets fit in
64 bits, each reported percentile is accurate for the exact rank percentile; every sample is
counted in one of the 2048 buckets, and the snapshot counts all of them.
SRCLINE: src/common/latency_histogram.hpp:32-85 -/
theorem percentiles_accurate (samples : List Int64) (hne : samples ≠ [])
    (hfits : 99 * samples.length + 99 < 2 ^ 64) :
    AccurateAt (rankPercentile samples 50) (recordAll samples).snapshot.p50 ∧
      AccurateAt (rankPercentile samples 90) (recordAll samples).snapshot.p90 ∧
      AccurateAt (rankPercentile samples 99) (recordAll samples).snapshot.p99 ∧
      (∀ ns : Int64, bucketOf (valueOf ns) < 2048) ∧
      (recordAll samples).snapshot.count.toNat = samples.length := by
  obtain ⟨h50, h90, h99⟩ := snapshot_eq hne (by omega)
  rw [h50, h90, h99, percentileValue_eq hne (by decide) (by decide),
    percentileValue_eq hne (by decide) (by decide), percentileValue_eq hne (by decide) (by decide)]
  refine ⟨accurateAt_upperOf _, accurateAt_upperOf _, accurateAt_upperOf _, ?_, ?_⟩
  · intro ns
    exact (bucketOf_lt (valueOf_pos ns) (valueOf_lt ns)).trans (by decide)
  · rw [count_snapshot, total_recordAll, UInt64.toNat_ofNat']
    exact Nat.mod_eq_of_lt (by omega)

/-- Three samples: the percentiles are the upper ends of their buckets. -/
theorem percentiles_accurate_microseconds :
    AccurateAt (rankPercentile [1000, 2000, 3000] 50) (recordAll [1000, 2000, 3000]).snapshot.p50 ∧
      (recordAll [1000, 2000, 3000]).snapshot.count.toNat = 3 :=
  have haccurate := percentiles_accurate [1000, 2000, 3000] (by decide) (by decide)
  ⟨haccurate.1, haccurate.2.2.2.2⟩

end MmEngine.Analysis
