import MmEngine.Model.LatencyHistogram

/-!
# The latency histogram between its threads

`record` and `snapshot` of src/common/latency_histogram.hpp run in different threads, and each of
their accesses to an atomic is a step of its own here: three for a call of `record` (the counter of
the bucket, `count_`, and the compare-and-swap loop on `max_`), one for each bucket and one for
`max_` in a call of `snapshot`.  Any number of threads may record (`ι`) and ask (`κ`).  A weak
compare-and-swap may fail although the value is as expected; whether it does is the Boolean of the
action.
-/

set_option autoImplicit false

namespace MmEngine.Model

namespace LatencyHistogram

/-- A sample as it is compared with the maximum: negative ones as `0`.
SRCLINE: src/common/latency_histogram.hpp:33 -/
def clamped (ns : Int64) : ℤ := ns.toInt.toNat

/-- What `snapshot` does after its loads: `buckets` and `total` are its local copies.
SRCLINE: src/common/latency_histogram.hpp:57-71 -/
def percentilesOf (buckets : ℕ → UInt64) (total : UInt64) (max : ℤ) : Percentiles :=
  let out : Percentiles := { p50 := 0, p90 := 0, p99 := 0, max := max, count := total }
  if total = 0 then out
  else
    walk buckets ((total * 50 + 99) / 100) ((total * 90 + 99) / 100) ((total * 99 + 99) / 100)
      (List.range kBuckets) 0 out

end LatencyHistogram

open LatencyHistogram

/-- Where a thread stands in `record`. -/
inductive RecordAt where
  | idle
  /-- About to add to the counter of the bucket. -/
  | counting (ns : Int64)
  /-- About to add to `count_`. -/
  | adding (ns : Int64)
  /-- About to load `max_`. -/
  | loading (ns : Int64)
  /-- About to compare and to swap `max_`. -/
  | comparing (ns : Int64) (cur : ℤ)
  deriving DecidableEq

/-- Where a thread stands in `snapshot`. -/
inductive SnapshotAt where
  | idle
  /-- About to load bucket `i`, or `max_` after the last one; `buckets` and `total` are the local
  copies of those before. -/
  | loading (i : ℕ) (buckets : ℕ → UInt64) (total : UInt64)

/-- How far a call of `record` has come. -/
inductive Phase where
  | began
  /-- It has added to the counter of its bucket. -/
  | counted
  /-- It has added to `count_`. -/
  | added
  | finished
  deriving DecidableEq

/-- What a step reports. -/
inductive HistEvent (ι κ : Type) where
  | call (phase : Phase) (t : ι) (ns : Int64)
  | asked (r : κ)
  | answered (r : κ) (p : Percentiles)

/-- A step of one of the threads. -/
inductive HistAct (ι κ : Type) where
  | record (t : ι) (ns : Int64)
  /-- The next step of a call of `record`; `spurious` makes a compare-and-swap fail. -/
  | recorder (t : ι) (spurious : Bool)
  | snapshot (r : κ)
  | reader (r : κ)

/-- The histogram and where its threads stand. -/
structure HistogramState (ι κ : Type) where
  hist : LatencyHistogram := {}
  recorder : ι → RecordAt := fun _ => .idle
  reader : κ → SnapshotAt := fun _ => .idle

namespace HistogramState

variable {ι κ : Type} [DecidableEq ι] [DecidableEq κ]

/-- The histogram with one more in a bucket. -/
def count (h : LatencyHistogram) (ns : Int64) : LatencyHistogram :=
  { h with
    buckets := Function.update h.buckets (bucketOf (valueOf ns)) (h.buckets (bucketOf (valueOf ns)) + 1) }

/-- SRCLINE: src/common/latency_histogram.hpp:41-45 -/
def recorderStep (s : HistogramState ι κ) (t : ι) (spurious : Bool) :
    Option (HistogramState ι κ × List (HistEvent ι κ)) :=
  let goto (at' : RecordAt) := Function.update s.recorder t at'
  match s.recorder t with
  | .idle => none
  | .counting ns => some ({ s with hist := count s.hist ns, recorder := goto (.adding ns) }, [.call .counted t ns])
  | .adding ns =>
    some ({ s with hist := { s.hist with count := s.hist.count + 1 }, recorder := goto (.loading ns) },
      [.call .added t ns])
  | .loading ns => some ({ s with recorder := goto (.comparing ns s.hist.max) }, [])
  | .comparing ns cur =>
    if clamped ns > cur then
      if s.hist.max = cur ∧ spurious = false then
        some ({ s with hist := { s.hist with max := clamped ns }, recorder := goto .idle }, [.call .finished t ns])
      else some ({ s with recorder := goto (.comparing ns s.hist.max) }, [])
    else some ({ s with recorder := goto .idle }, [.call .finished t ns])

/-- SRCLINE: src/common/latency_histogram.hpp:51-57 -/
def readerStep (s : HistogramState ι κ) (r : κ) : Option (HistogramState ι κ × List (HistEvent ι κ)) :=
  let goto (at' : SnapshotAt) := Function.update s.reader r at'
  match s.reader r with
  | .idle => none
  | .loading i buckets total =>
    if i < kBuckets then
      let v := s.hist.buckets i
      some ({ s with reader := goto (.loading (i + 1) (Function.update buckets i v) (total + v)) }, [])
    else
      some ({ s with reader := goto .idle }, [.answered r (percentilesOf buckets total s.hist.max)])

/-- One step of one of the threads. -/
def step (s : HistogramState ι κ) : HistAct ι κ → Option (HistogramState ι κ × List (HistEvent ι κ))
  | .record t ns => match s.recorder t with
    | .idle => some ({ s with recorder := Function.update s.recorder t (.counting ns) }, [.call .began t ns])
    | _ => none
  | .recorder t spurious => s.recorderStep t spurious
  | .snapshot r => match s.reader r with
    | .idle => some ({ s with reader := Function.update s.reader r (.loading 0 (fun _ => 0) 0) }, [.asked r])
    | _ => none
  | .reader r => s.readerStep r

end HistogramState

end MmEngine.Model
