import Mathlib.Algebra.Group.Int.Defs
import Mathlib.Algebra.Group.Nat.Defs
import Mathlib.Data.Int.Order.Basic
import Mathlib.Logic.Function.Basic

/-!
# The latency histogram

2048 counters, 32 for each power of two of nanoseconds (src/common/latency_histogram.hpp).
Below `2 ^ 5` a bucket is one value; from there on it is one of 32 equal parts of its power of
two.  `record` counts a sample in its bucket, and `snapshot` walks the buckets in index order
until the counts seen reach a percentile.  The counters are 64-bit and wrap, and so do the sums
and products of `snapshot`; the result of a left shift past the sign bit is the value modulo
`2 ^ 64`.
-/

set_option autoImplicit false

namespace MmEngine.Model

/-- The buckets of the histogram, `kMajor * kSub`.
SRCLINE: src/common/latency_histogram.hpp:18-19 -/
abbrev kBuckets : ℕ := 2048

/-- SRCLINE: src/common/latency_histogram.hpp:19 -/
abbrev kSub : ℕ := 32

/-- SRCLINE: src/common/latency_histogram.hpp:20 -/
abbrev kSubBits : ℕ := 5

/-- SRCLINE: src/common/latency_histogram.hpp:47 -/
structure Percentiles where
  p50 : ℤ
  p90 : ℤ
  p99 : ℤ
  max : ℤ
  count : UInt64
  deriving DecidableEq

/-- SRCLINE: src/common/latency_histogram.hpp:87-89 -/
structure LatencyHistogram where
  buckets : ℕ → UInt64 := fun _ => 0
  count : UInt64 := 0
  max : ℤ := 0

namespace LatencyHistogram

/-- A sample as it is counted: negative ones as `0`, and the lowest bit set.
SRCLINE: src/common/latency_histogram.hpp:33-34 -/
def valueOf (ns : Int64) : ℕ := ns.toInt.toNat ||| 1

/-- The bucket of a value; `63 - clz` is the base-two logarithm.
SRCLINE: src/common/latency_histogram.hpp:22-29, 35-40 -/
def bucketOf (v : ℕ) : ℕ :=
  let maj := Nat.log2 v
  let sub := if maj ≥ kSubBits then (v >>> (maj - kSubBits)) &&& (kSub - 1) else v &&& (kSub - 1)
  maj * kSub + sub

/-- SRCLINE: src/common/latency_histogram.hpp:32-45 -/
def record (h : LatencyHistogram) (ns : Int64) : LatencyHistogram :=
  { buckets := Function.update h.buckets (bucketOf (valueOf ns)) (h.buckets (bucketOf (valueOf ns)) + 1)
    count := h.count + 1
    max := if (ns.toInt.toNat : ℤ) > h.max then ns.toInt.toNat else h.max }

/-- The upper end of a bucket.
SRCLINE: src/common/latency_histogram.hpp:80-85 -/
def bucketUpper (idx : ℕ) : ℤ :=
  let maj := idx / kSub
  let sub := idx % kSub
  if maj < kSubBits then 2 ^ maj + sub
  else Int.bmod ((2 ^ kSubBits + sub + 1) * 2 ^ (maj - kSubBits)) (2 ^ 64)

/-- The walk over the buckets; it ends when the last percentile is found.
SRCLINE: src/common/latency_histogram.hpp:62-69 -/
def walk (buckets : ℕ → UInt64) (t50 t90 t99 : UInt64) : List ℕ → UInt64 → Percentiles → Percentiles
  | [], _, out => out
  | i :: is, cum, out =>
    let cum := cum + buckets i
    let v := bucketUpper i
    let out := if out.p50 = 0 ∧ cum ≥ t50 then { out with p50 := v } else out
    let out := if out.p90 = 0 ∧ cum ≥ t90 then { out with p90 := v } else out
    if out.p99 = 0 ∧ cum ≥ t99 then { out with p99 := v }
    else walk buckets t50 t90 t99 is cum out

/-- The number of samples in all buckets.
SRCLINE: src/common/latency_histogram.hpp:52-56 -/
def total (h : LatencyHistogram) : UInt64 :=
  (List.range kBuckets).foldl (fun t i => t + h.buckets i) 0

/-- SRCLINE: src/common/latency_histogram.hpp:50-71 -/
def snapshot (h : LatencyHistogram) : Percentiles :=
  let out : Percentiles := { p50 := 0, p90 := 0, p99 := 0, max := h.max, count := h.total }
  if h.total = 0 then out
  else
    walk h.buckets ((h.total * 50 + 99) / 100) ((h.total * 90 + 99) / 100)
      ((h.total * 99 + 99) / 100) (List.range kBuckets) 0 out

/-- The histogram after the samples. -/
def recordAll (samples : List Int64) : LatencyHistogram := samples.foldl record {}

end LatencyHistogram

end MmEngine.Model
