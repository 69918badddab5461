import MmEngine.Analysis.Percentiles
import MmEngine.Lib.History
import MmEngine.Lib.Runs
import MmEngine.Lib.Scan
import MmEngine.Model.HistogramThreads

/-!
# Percentiles of a histogram that is being written

`snapshot` loads 2048 counters one after the other while other threads record, so the counts it
works on need not have stood in the histogram at any one moment.  They are the counts of some
selection of the samples all the same, one that has every sample counted before the call
(`ReaderInv`, by the rules of `Lib.Scan`), and so what it reports is what `snapshot` reports of a
histogram that has recorded exactly these.

For the recording threads it is enough to know which part of a call each of them still owes
(`RecorderInv`): when none of them owes anything, the histogram is that of the calls one after the
other.
-/

set_option autoImplicit false

namespace MmEngine.Analysis

open MmEngine.Model MmEngine.Model.LatencyHistogram MmEngine.Lib

variable {ι κ : Type}

/-! ## Calls of a history -/

/-- The calls that have come as far as the phase, in the order they did. -/
def callsIn (p : Phase) (h : List (HistEvent ι κ)) : List (ι × Int64) :=
  h.filterMap fun
    | .call q t ns => if q = p then some (t, ns) else none
    | _ => none

/-- Their samples. -/
def samplesIn (p : Phase) (h : List (HistEvent ι κ)) : List Int64 := (callsIn p h).map Prod.snd

theorem callsIn_append (p : Phase) (h h' : List (HistEvent ι κ)) :
    callsIn p (h ++ h') = callsIn p h ++ callsIn p h' := List.filterMap_append

theorem samplesIn_append (p : Phase) (h h' : List (HistEvent ι κ)) :
    samplesIn p (h ++ h') = samplesIn p h ++ samplesIn p h' := by
  unfold samplesIn
  rw [callsIn_append, List.map_append]

@[simp] theorem callsIn_nil (p : Phase) : callsIn p ([] : List (HistEvent ι κ)) = [] := rfl

@[simp] theorem callsIn_call (p q : Phase) (t : ι) (ns : Int64) :
    callsIn (κ := κ) p [.call q t ns] = if q = p then [(t, ns)] else [] := by
  unfold callsIn
  by_cases h : q = p <;> simp [h]

@[simp] theorem callsIn_asked (p : Phase) (r : κ) : callsIn (ι := ι) p [.asked r] = [] := rfl

@[simp] theorem callsIn_answered (p : Phase) (r : κ) (out : Percentiles) :
    callsIn (ι := ι) p [.answered r out] = [] := rfl

/-! ## One sample more -/

theorem recordAll_append_singleton (samples : List Int64) (ns : Int64) :
    recordAll (samples ++ [ns]) = record (recordAll samples) ns := by
  simp [recordAll]

theorem count_recordAll (samples : List Int64) :
    (recordAll samples).count = UInt64.ofNat samples.length := by
  induction samples using List.reverseRecOn with
  | nil => rfl
  | append_singleton samples ns ih =>
    rw [recordAll_append_singleton, List.length_append, List.length_singleton, ← ofNat_succ, ← ih]
    rfl

theorem max_record (h : LatencyHistogram) (ns : Int64) : (record h ns).max = max h.max (clamped ns) := by
  unfold record clamped
  dsimp only
  split <;> omega

/-- The maximum is the largest sample, or zero. -/
theorem max_recordAll (samples : List Int64) :
    (∀ ns ∈ samples, clamped ns ≤ (recordAll samples).max) ∧ 0 ≤ (recordAll samples).max ∧
      ((recordAll samples).max = 0 ∨ ∃ ns ∈ samples, clamped ns = (recordAll samples).max) := by
  induction samples using List.reverseRecOn with
  | nil => exact ⟨by simp, Int.le_refl 0, Or.inl rfl⟩
  | append_singleton samples ns ih =>
    obtain ⟨hge, hpos, hmem⟩ := ih
    rw [recordAll_append_singleton, max_record]
    refine ⟨?_, le_max_of_le_left hpos, ?_⟩
    · intro x hx
      rcases List.mem_append.mp hx with hx | hx
      · exact le_max_of_le_left (hge x hx)
      · rw [List.mem_singleton.mp hx]
        exact le_max_right _ _
    · rcases max_choice (recordAll samples).max (clamped ns) with heq | heq
      · rw [heq]
        exact hmem.imp_right fun ⟨x, hx, hxm⟩ => ⟨x, List.mem_append_left _ hx, hxm⟩
      · rw [heq]
        exact Or.inr ⟨ns, by simp, rfl⟩

/-- The histogram does not depend on the order of its samples. -/
theorem recordAll_perm {l l' : List Int64} (h : l.Perm l') : recordAll l = recordAll l' := by
  have hbuckets : (recordAll l).buckets = (recordAll l').buckets := by
    funext i
    rw [buckets_recordAll, buckets_recordAll, (h.map valueOf).countP_eq]
  have hcount : (recordAll l).count = (recordAll l').count := by
    rw [count_recordAll, count_recordAll, h.length_eq]
  have hmax : (recordAll l).max = (recordAll l').max := by
    obtain ⟨hge, hpos, hmem⟩ := max_recordAll l
    obtain ⟨hge', hpos', hmem'⟩ := max_recordAll l'
    apply le_antisymm
    · rcases hmem with heq | ⟨x, hx, heq⟩
      · exact heq ▸ hpos'
      · exact heq ▸ hge' x (h.mem_iff.mp hx)
    · rcases hmem' with heq | ⟨x, hx, heq⟩
      · exact heq ▸ hpos
      · exact heq ▸ hge x (h.mem_iff.mpr hx)
  cases hl : recordAll l
  cases hl' : recordAll l'
  simp_all

/-! ## What each thread knows -/

/-- The phase a call goes through before another. -/
def Phase.before : Phase → Phase
  | .began => .began
  | .counted => .began
  | .added => .counted
  | .finished => .added

/-- The sample for which a thread has still to report a phase, the next one of its call. -/
def RecordAt.owes : RecordAt → Phase → List Int64
  | .counting ns, .counted => [ns]
  | .adding ns, .added => [ns]
  | .loading ns, .finished => [ns]
  | .comparing ns _, .finished => [ns]
  | _, _ => []

/-- INTERNAL: the calls of a thread that are in a phase and those that have passed the next one
differ by what it owes. -/
def RecorderInv (recorder : ι → RecordAt) (h : List (HistEvent ι κ)) [DecidableEq ι] : Prop :=
  ∀ t q, q ≠ .began → cell Prod.fst (callsIn (Phase.before q) h) t =
    cell Prod.fst (callsIn q h) t ++ (RecordAt.owes (recorder t) q).map (Prod.mk t)

/-- INTERNAL: what is in the atomics. -/
structure SharedInv (hist : LatencyHistogram) (recorder : ι → RecordAt) (h : List (HistEvent ι κ)) : Prop where
  buckets : hist.buckets = (recordAll (samplesIn .counted h)).buckets
  count : hist.count = (recordAll (samplesIn .added h)).count
  nonneg : 0 ≤ hist.max
  reached : ∀ ns ∈ samplesIn .finished h, clamped ns ≤ hist.max
  attained : hist.max = 0 ∨ ∃ ns ∈ samplesIn .added h, clamped ns = hist.max
  loaded : ∀ t ns cur, recorder t = .comparing ns cur → cur ≤ hist.max

/-- INTERNAL: the samples a thread has counted while it loaded the buckets before `i`. -/
def ReaderInv (r : κ) (h : List (HistEvent ι κ)) : SnapshotAt → Prop
  | .idle => True
  | .loading i buckets total =>
    ∃ earlier during got l, h = earlier ++ .asked r :: during ∧ .asked r ∉ during ∧
      Collected (fun ns => bucketOf (valueOf ns)) (samplesIn .counted earlier) (samplesIn .counted h)
        {k | k < i} got l ∧
      (∀ k < i, buckets k = UInt64.ofNat (got k).length) ∧
      total = (List.range i).foldl (fun t k => t + UInt64.ofNat (got k).length) 0 ∧ i ≤ kBuckets

/-- What an answer says about the history before it: it is `snapshot` of some selection of the
samples counted by then, which has all that were counted when the call was made; only the maximum
is as it was when the answer was given. -/
def Answers (before : List (HistEvent ι κ)) : HistEvent ι κ → Prop
  | .answered r p => ∃ earlier during l, before = earlier ++ .asked r :: during ∧ .asked r ∉ during ∧
      samplesIn .counted earlier <+: l ∧ l.Sublist (samplesIn .counted before) ∧
      p = { (recordAll l).snapshot with max := p.max } ∧
      (∀ ns ∈ samplesIn .finished before, clamped ns ≤ p.max) ∧
      (p.max = 0 ∨ ∃ ns ∈ samplesIn .added before, clamped ns = p.max)
  | _ => True

/-- INTERNAL: **what holds in every state the threads reach.** -/
structure HistInv [DecidableEq ι] (x : HistogramState ι κ × List (HistEvent ι κ)) : Prop where
  shared : SharedInv x.1.hist x.1.recorder x.2
  recorder : RecorderInv x.1.recorder x.2
  reader : ∀ r, ReaderInv r x.2 (x.1.reader r)
  answers : AtEach Answers x.2

/-! ## The reading threads -/

theorem ReaderInv.grow {r : κ} {h : List (HistEvent ι κ)} {at' : SnapshotAt} (hr : ReaderInv r h at')
    {es : List (HistEvent ι κ)} (hes : .asked r ∉ es) : ReaderInv r (h ++ es) at' := by
  cases at' with
  | idle => trivial
  | loading i buckets total =>
    obtain ⟨earlier, during, got, l, rfl, hduring, hl, hrest⟩ := hr
    obtain ⟨l', hl'⟩ := hl.growAll (samplesIn .counted es)
    rw [← samplesIn_append] at hl'
    refine ⟨earlier, during ++ es, got, l', by simp, ?_, hl', hrest⟩
    exact fun hmem => (List.mem_append.mp hmem).elim hduring hes

/-- INTERNAL: a call of `snapshot` begins with nothing read.
SRCLINE: src/common/latency_histogram.hpp:51-52 -/
theorem ReaderInv.begin (r : κ) (h : List (HistEvent ι κ)) :
    ReaderInv r (h ++ [.asked r]) (.loading 0 (fun _ => 0) 0) := by
  refine ⟨h, [], fun _ => [], samplesIn .counted h, by simp, by simp, ?_, by simp, rfl, Nat.zero_le _⟩
  have hnone : {k : ℕ | k < 0} = ∅ := Set.eq_empty_of_forall_notMem fun k hk => Nat.not_lt_zero k hk
  have hasked : samplesIn (ι := ι) .counted [.asked r] = [] := rfl
  rw [hnone, samplesIn_append, hasked, List.append_nil]
  exact Collected.begin _ _ _

/-- The counter of a bucket is the number of samples in it. -/
theorem buckets_eq_cell (samples : List Int64) (i : ℕ) : (recordAll samples).buckets i =
    UInt64.ofNat (cell (fun ns => bucketOf (valueOf ns)) samples i).length := by
  rw [buckets_recordAll, cell, List.countP_map, List.countP_eq_length_filter]
  rfl

theorem foldl_counts_congr {f g : ℕ → UInt64} {is : List ℕ} (h : ∀ i ∈ is, f i = g i) (t : UInt64) :
    is.foldl (fun t i => t + f i) t = is.foldl (fun t i => t + g i) t := by
  induction is generalizing t with
  | nil => rfl
  | cons i is ih =>
    rw [List.foldl_cons, List.foldl_cons, h i (by simp)]
    exact ih (fun j hj => h j (by simp [hj])) _

/-- INTERNAL: **one bucket is loaded.**
SRCLINE: src/common/latency_histogram.hpp:53-56 -/
theorem ReaderInv.load {r : κ} {h : List (HistEvent ι κ)} {i : ℕ} {buckets : ℕ → UInt64} {total v : UInt64}
    (hr : ReaderInv r h (.loading i buckets total)) (hi : i < kBuckets)
    (hv : v = (recordAll (samplesIn .counted h)).buckets i) :
    ReaderInv r h (.loading (i + 1) (Function.update buckets i v) (total + v)) := by
  obtain ⟨earlier, during, got, l, hh, hduring, hl, hbuckets, htotal, -⟩ := hr
  have hnot : i ∉ {k | k < i} := Nat.lt_irrefl i
  have hseen : insert i {k | k < i} = {k | k < i + 1} := by
    ext k
    simp only [Set.mem_insert_iff, Set.mem_ofPred_eq]
    omega
  have htake := hl.take hnot
  rw [hseen] at htake
  rw [buckets_eq_cell] at hv
  refine ⟨earlier, during, _, l, hh, hduring, htake, ?_, ?_, hi⟩
  · intro k hk
    by_cases hki : k = i
    · subst hki
      rw [Function.update_self, Function.update_self, hv]
    · rw [Function.update_of_ne hki, Function.update_of_ne hki]
      exact hbuckets k (by omega)
  · rw [List.range_succ, List.foldl_append, List.foldl_cons, List.foldl_nil, Function.update_self, ← hv, htotal]
    congr 1
    apply foldl_counts_congr
    intro k hk
    rw [Function.update_of_ne (Nat.ne_of_lt (List.mem_range.mp hk))]

theorem walk_congr {f g : ℕ → UInt64} {is : List ℕ} (h : ∀ i ∈ is, f i = g i) (t50 t90 t99 : UInt64) :
    ∀ (cum : UInt64) (out : Percentiles), walk f t50 t90 t99 is cum out = walk g t50 t90 t99 is cum out := by
  induction is with
  | nil =>
    intro cum out
    rfl
  | cons i is ih =>
    intro cum out
    have hrest := ih fun j hj => h j (List.mem_cons_of_mem i hj)
    simp only [walk, h i List.mem_cons_self, hrest]

/-- The walk carries the maximum along and does not look at it. -/
theorem walk_max (f : ℕ → UInt64) (t50 t90 t99 : UInt64) (is : List ℕ) (m m' : ℤ) (n : UInt64) :
    ∀ (cum : UInt64) (p50 p90 p99 : ℤ), walk f t50 t90 t99 is cum ⟨p50, p90, p99, m', n⟩ =
      { walk f t50 t90 t99 is cum ⟨p50, p90, p99, m, n⟩ with max := m' } := by
  induction is with
  | nil =>
    intro cum p50 p90 p99
    rfl
  | cons i is ih =>
    intro cum p50 p90 p99
    simp only [walk]
    split_ifs <;> first | rfl | exact ih _ _ _ _

/-- INTERNAL: the local copies decide what is reported.
SRCLINE: src/common/latency_histogram.hpp:57-71 -/
theorem percentilesOf_eq {l : List Int64} {buckets : ℕ → UInt64} {total : UInt64} (m : ℤ)
    (hbuckets : ∀ k < kBuckets, buckets k = (recordAll l).buckets k) (htotal : total = (recordAll l).total) :
    percentilesOf buckets total m = { (recordAll l).snapshot with max := m } := by
  rw [htotal]
  have hwalk := walk_congr fun i hi => hbuckets i (List.mem_range.mp hi)
  unfold percentilesOf LatencyHistogram.snapshot
  by_cases hzero : (recordAll l).total = 0
  · simp only [if_pos hzero]
  · simp only [if_neg hzero, hwalk]
    exact walk_max _ _ _ _ _ _ _ _ _ _ _ _

/-- INTERNAL: **the answer.**
SRCLINE: src/common/latency_histogram.hpp:57-71 -/
theorem ReaderInv.answer {r : κ} {h : List (HistEvent ι κ)} {hist : LatencyHistogram}
    {recorder : ι → RecordAt} {i : ℕ} {buckets : ℕ → UInt64} {total : UInt64}
    (hr : ReaderInv r h (.loading i buckets total)) (hs : SharedInv hist recorder h) (hi : ¬ i < kBuckets) :
    Answers h (.answered r (percentilesOf buckets total hist.max)) := by
  obtain ⟨earlier, during, got, l, hh, hduring, hl, hbuckets, htotal, hle⟩ := hr
  obtain rfl : i = kBuckets := by omega
  have hgot : ∀ k < kBuckets, UInt64.ofNat (got k).length = (recordAll l).buckets k := by
    intro k hk
    rw [buckets_eq_cell, hl.read k hk]
  have hfold : total = (recordAll l).total := by
    rw [htotal]
    exact foldl_counts_congr (fun k hk => hgot k (List.mem_range.mp hk)) 0
  have heq := percentilesOf_eq hist.max (fun k hk => (hbuckets k hk).trans (hgot k hk)) hfold
  refine ⟨earlier, during, l, hh, hduring, hl.start, hl.sub, ?_, ?_, ?_⟩
  · rw [heq]
  · rw [heq]
    exact hs.reached
  · rw [heq]
    exact hs.attained

/-! ## The recording threads -/

section Recording

variable [DecidableEq ι]

/-- INTERNAL: a thread goes on from where it stands: with what it owed reported, it owes the next
part of the call, and the other threads are where they were. -/
theorem RecorderInv.move {recorder : ι → RecordAt} {h : List (HistEvent ι κ)} (hr : RecorderInv recorder h)
    {t : ι} {at' : RecordAt} {es : List (HistEvent ι κ)}
    (hmine : ∀ q, q ≠ .began → (RecordAt.owes (recorder t) q).map (Prod.mk t) ++ callsIn (Phase.before q) es =
      callsIn q es ++ (RecordAt.owes at' q).map (Prod.mk t))
    (hes : ∀ q, ∀ x ∈ callsIn q es, x.1 = t) : RecorderInv (Function.update recorder t at') (h ++ es) := by
  intro t' q hq
  have hsplit : ∀ p, cell Prod.fst (callsIn p (h ++ es)) t' =
      cell Prod.fst (callsIn p h) t' ++ cell Prod.fst (callsIn p es) t' := by
    intro p
    rw [callsIn_append]
    exact List.filter_append _ _
  rw [hsplit, hsplit, hr t' q hq, List.append_assoc, List.append_assoc]
  congr 1
  by_cases ht : t' = t
  · subst ht
    have hall : ∀ p, cell Prod.fst (callsIn p es) t' = callsIn p es := by
      intro p
      exact List.filter_eq_self.mpr fun x hx => decide_eq_true (hes p x hx)
    rw [hall, hall, Function.update_self]
    exact hmine q hq
  · have hnone : ∀ p, cell Prod.fst (callsIn p es) t' = [] := by
      intro p
      refine List.filter_eq_nil_iff.mpr fun x hx hxt => ht ?_
      rw [← of_decide_eq_true hxt, hes p x hx]
    rw [hnone, hnone, Function.update_of_ne ht, List.append_nil, List.nil_append]

/-- INTERNAL: a call that has yet to finish has been added. -/
theorem RecorderInv.added {recorder : ι → RecordAt} {h : List (HistEvent ι κ)} (hr : RecorderInv recorder h)
    {t : ι} {ns : Int64} (howes : RecordAt.owes (recorder t) .finished = [ns]) : ns ∈ samplesIn .added h := by
  have hmine := hr t .finished (by decide)
  rw [howes] at hmine
  have hmem : (t, ns) ∈ cell Prod.fst (callsIn .added h) t := by
    rw [show Phase.added = Phase.before .finished from rfl, hmine]
    simp
  exact List.mem_map.mpr ⟨(t, ns), (List.mem_filter.mp hmem).1, rfl⟩

omit [DecidableEq ι] in
theorem samplesIn_concat_of_ne {p q : Phase} (hne : p ≠ q) (h : List (HistEvent ι κ)) (t : ι) (ns : Int64) :
    samplesIn q (h ++ [.call p t ns]) = samplesIn q h := by
  rw [samplesIn_append]
  simp [samplesIn, hne]

omit [DecidableEq ι] in
theorem samplesIn_concat (p : Phase) (h : List (HistEvent ι κ)) (t : ι) (ns : Int64) :
    samplesIn p (h ++ [.call p t ns]) = samplesIn p h ++ [ns] := by
  rw [samplesIn_append]
  simp [samplesIn]

/-- INTERNAL: a thread that moves leaves the loads of the others valid. -/
theorem SharedInv.loaded_update {hist : LatencyHistogram} {recorder : ι → RecordAt}
    {h : List (HistEvent ι κ)} (hs : SharedInv hist recorder h) (t : ι) {at' : RecordAt} {m : ℤ}
    (hle : hist.max ≤ m) (hat : ∀ ns cur, at' = .comparing ns cur → cur ≤ m) (t' : ι) (ns : Int64) (cur : ℤ)
    (hpc : Function.update recorder t at' t' = .comparing ns cur) : cur ≤ m := by
  by_cases ht : t' = t
  · subst ht
    rw [Function.update_self] at hpc
    exact hat ns cur hpc
  · rw [Function.update_of_ne ht] at hpc
    exact (hs.loaded t' ns cur hpc).trans hle

variable {s s' : HistogramState ι κ} {h es : List (HistEvent ι κ)} {t : ι} {spurious : Bool}

/-- INTERNAL: one part of a call, and what it leaves in the atomics.
SRCLINE: src/common/latency_histogram.hpp:32-45 -/
theorem recorderStep_shared (hs : SharedInv s.hist s.recorder h) (hr : RecorderInv s.recorder h)
    (hstep : s.recorderStep t spurious = some (s', es)) : SharedInv s'.hist s'.recorder (h ++ es) := by
  unfold HistogramState.recorderStep at hstep
  cases hpc : s.recorder t with
  | idle => simp [hpc] at hstep
  | counting ns =>
    simp only [hpc] at hstep
    obtain ⟨rfl, rfl⟩ := Prod.mk.inj (Option.some.inj hstep)
    refine ⟨?_, ?_, hs.nonneg, ?_, ?_, hs.loaded_update t (Int.le_refl _) (by simp)⟩
    · rw [samplesIn_concat, recordAll_append_singleton]
      unfold HistogramState.count record
      rw [hs.buckets]
    · rw [samplesIn_concat_of_ne (by decide)]
      exact hs.count
    · rw [samplesIn_concat_of_ne (by decide)]
      exact hs.reached
    · rw [samplesIn_concat_of_ne (by decide)]
      exact hs.attained
  | adding ns =>
    simp only [hpc] at hstep
    obtain ⟨rfl, rfl⟩ := Prod.mk.inj (Option.some.inj hstep)
    refine ⟨?_, ?_, hs.nonneg, ?_, ?_, hs.loaded_update t (Int.le_refl _) (by simp)⟩
    · rw [samplesIn_concat_of_ne (by decide)]
      exact hs.buckets
    · rw [samplesIn_concat, recordAll_append_singleton]
      unfold record
      rw [hs.count]
    · rw [samplesIn_concat_of_ne (by decide)]
      exact hs.reached
    · rw [samplesIn_concat]
      exact hs.attained.imp_right fun ⟨x, hx, heq⟩ => ⟨x, List.mem_append_left _ hx, heq⟩
  | loading ns =>
    simp only [hpc] at hstep
    obtain ⟨rfl, rfl⟩ := Prod.mk.inj (Option.some.inj hstep)
    rw [List.append_nil]
    refine ⟨hs.buckets, hs.count, hs.nonneg, hs.reached, hs.attained, ?_⟩
    exact hs.loaded_update t (Int.le_refl _) fun ns' cur heq => (RecordAt.comparing.inj heq).2 ▸ Int.le_refl _
  | comparing ns cur =>
    have hcur : cur ≤ s.hist.max := hs.loaded t ns cur hpc
    have hadded : ns ∈ samplesIn .added h := hr.added (t := t) (by rw [hpc]; rfl)
    simp only [hpc] at hstep
    split at hstep
    · next hgt =>
      split at hstep
      · next hsame =>
        obtain ⟨rfl, rfl⟩ := Prod.mk.inj (Option.some.inj hstep)
        have hle : s.hist.max ≤ clamped ns := by omega
        refine ⟨?_, ?_, hs.nonneg.trans hle, ?_, ?_, hs.loaded_update t hle (by simp)⟩
        · rw [samplesIn_concat_of_ne (by decide)]
          exact hs.buckets
        · rw [samplesIn_concat_of_ne (by decide)]
          exact hs.count
        · rw [samplesIn_concat]
          intro x hx
          rcases List.mem_append.mp hx with hx | hx
          · exact (hs.reached x hx).trans hle
          · rw [List.mem_singleton.mp hx]
        · rw [samplesIn_concat_of_ne (by decide)]
          exact Or.inr ⟨ns, hadded, rfl⟩
      · obtain ⟨rfl, rfl⟩ := Prod.mk.inj (Option.some.inj hstep)
        rw [List.append_nil]
        refine ⟨hs.buckets, hs.count, hs.nonneg, hs.reached, hs.attained, ?_⟩
        exact hs.loaded_update t (Int.le_refl _) fun ns' cur heq => (RecordAt.comparing.inj heq).2 ▸ Int.le_refl _
    · next hnot =>
      obtain ⟨rfl, rfl⟩ := Prod.mk.inj (Option.some.inj hstep)
      refine ⟨?_, ?_, hs.nonneg, ?_, ?_, hs.loaded_update t (Int.le_refl _) (by simp)⟩
      · rw [samplesIn_concat_of_ne (by decide)]
        exact hs.buckets
      · rw [samplesIn_concat_of_ne (by decide)]
        exact hs.count
      · rw [samplesIn_concat]
        intro x hx
        rcases List.mem_append.mp hx with hx | hx
        · exact hs.reached x hx
        · have hmax : clamped ns ≤ s.hist.max := by omega
          rw [List.mem_singleton.mp hx]
          exact hmax
      · rw [samplesIn_concat_of_ne (by decide)]
        exact hs.attained

/-- INTERNAL: a thread that reports nothing owes what it did. -/
theorem RecorderInv.stay {recorder : ι → RecordAt} (hr : RecorderInv recorder h) {at' : RecordAt}
    (howes : ∀ q, RecordAt.owes at' q = RecordAt.owes (recorder t) q) :
    RecorderInv (Function.update recorder t at') (h ++ []) := by
  apply hr.move
  · intro q _
    simp [howes]
  · intro q x hx
    simp at hx

/-- INTERNAL: a thread that reports a phase owes the next one. -/
theorem RecorderInv.report {recorder : ι → RecordAt} (hr : RecorderInv recorder h) {at' : RecordAt}
    {p : Phase} {ns : Int64}
    (howes : ∀ q, q ≠ .began → RecordAt.owes (recorder t) q ++ (if p = Phase.before q then [ns] else []) =
      (if p = q then [ns] else []) ++ RecordAt.owes at' q) :
    RecorderInv (Function.update recorder t at') (h ++ [.call p t ns]) := by
  apply hr.move
  · intro q hq
    have hmap := congrArg (List.map (Prod.mk t)) (howes q hq)
    rw [List.map_append, List.map_append] at hmap
    rw [callsIn_call, callsIn_call]
    convert hmap using 2 <;> split <;> rfl
  · intro q x hx
    rw [callsIn_call] at hx
    split at hx
    · rw [List.mem_singleton.mp hx]
    · simp at hx

/-- INTERNAL: one part of a call, and what the thread owes then. -/
theorem recorderStep_recorder (hr : RecorderInv s.recorder h)
    (hstep : s.recorderStep t spurious = some (s', es)) :
    RecorderInv s'.recorder (h ++ es) ∧ s'.reader = s.reader ∧ (es = [] ∨ ∃ p ns, es = [.call p t ns]) := by
  unfold HistogramState.recorderStep at hstep
  cases hpc : s.recorder t with
  | idle => simp [hpc] at hstep
  | counting ns | adding ns =>
    simp only [hpc] at hstep
    obtain ⟨rfl, rfl⟩ := Prod.mk.inj (Option.some.inj hstep)
    refine ⟨hr.report ?_, rfl, Or.inr ⟨_, _, rfl⟩⟩
    rw [hpc]
    intro q hq
    cases q <;> simp [RecordAt.owes, Phase.before] at hq ⊢
  | loading ns =>
    simp only [hpc] at hstep
    obtain ⟨rfl, rfl⟩ := Prod.mk.inj (Option.some.inj hstep)
    refine ⟨hr.stay ?_, rfl, Or.inl rfl⟩
    rw [hpc]
    intro q
    cases q <;> rfl
  | comparing ns cur =>
    have hfinish : ∀ q, q ≠ .began → RecordAt.owes (s.recorder t) q ++
        (if Phase.finished = Phase.before q then [ns] else []) =
          (if Phase.finished = q then [ns] else []) ++ RecordAt.owes .idle q := by
      rw [hpc]
      intro q hq
      cases q <;> simp [RecordAt.owes, Phase.before] at hq ⊢
    simp only [hpc] at hstep
    split at hstep
    · split at hstep
      · obtain ⟨rfl, rfl⟩ := Prod.mk.inj (Option.some.inj hstep)
        exact ⟨hr.report hfinish, rfl, Or.inr ⟨_, _, rfl⟩⟩
      · -- the maximum has moved on, or the exchange failed for no reason: try again
        obtain ⟨rfl, rfl⟩ := Prod.mk.inj (Option.some.inj hstep)
        refine ⟨hr.stay ?_, rfl, Or.inl rfl⟩
        rw [hpc]
        intro q
        cases q <;> rfl
    · obtain ⟨rfl, rfl⟩ := Prod.mk.inj (Option.some.inj hstep)
      exact ⟨hr.report hfinish, rfl, Or.inr ⟨_, _, rfl⟩⟩

end Recording

/-! ## All threads -/

section Threads

variable [DecidableEq ι] [DecidableEq κ]

omit [DecidableEq ι] [DecidableEq κ] in
theorem samplesIn_append_of_quiet {es : List (HistEvent ι κ)} (hes : ∀ q, callsIn q es = []) (q : Phase)
    (h : List (HistEvent ι κ)) : samplesIn q (h ++ es) = samplesIn q h := by
  unfold samplesIn
  rw [callsIn_append, hes, List.append_nil]

omit [DecidableEq ι] [DecidableEq κ] in
/-- INTERNAL: what no call reports leaves what is in the atomics. -/
theorem SharedInv.quiet {hist : LatencyHistogram} {recorder : ι → RecordAt} {h es : List (HistEvent ι κ)}
    (hs : SharedInv hist recorder h) (hes : ∀ q, callsIn q es = []) : SharedInv hist recorder (h ++ es) := by
  have hsamples := samplesIn_append_of_quiet hes
  refine ⟨?_, ?_, hs.nonneg, ?_, ?_, hs.loaded⟩
  · rw [hsamples]
    exact hs.buckets
  · rw [hsamples]
    exact hs.count
  · rw [hsamples]
    exact hs.reached
  · rw [hsamples]
    exact hs.attained

omit [DecidableEq κ] in
theorem RecorderInv.quiet {recorder : ι → RecordAt} {h es : List (HistEvent ι κ)} (hr : RecorderInv recorder h)
    (hes : ∀ q, callsIn q es = []) : RecorderInv recorder (h ++ es) := by
  intro t q hq
  rw [callsIn_append, callsIn_append, hes, hes, List.append_nil, List.append_nil]
  exact hr t q hq

omit [DecidableEq ι] in
/-- INTERNAL: a reader that moves leaves the others where they were. -/
theorem ReaderInv.move {reader : κ → SnapshotAt} {h es : List (HistEvent ι κ)}
    (hr : ∀ r, ReaderInv r h (reader r)) {r : κ} {at' : SnapshotAt} (hself : ReaderInv r (h ++ es) at')
    (hes : ∀ r', r' ≠ r → .asked r' ∉ es) (r' : κ) : ReaderInv r' (h ++ es) (Function.update reader r at' r') := by
  by_cases heq : r' = r
  · subst heq
    rwa [Function.update_self]
  · rw [Function.update_of_ne heq]
    exact (hr r').grow (hes r' heq)

/-- INTERNAL: **one step of one of the threads.** -/
theorem histStep_inv {x y : HistogramState ι κ × List (HistEvent ι κ)} {a : HistAct ι κ} (hx : HistInv x)
    (hstep : recorded HistogramState.step x a = some y) : HistInv y := by
  obtain ⟨es, hstep, hes⟩ := recorded_eq_some.mp hstep
  obtain ⟨s, h⟩ := x
  obtain ⟨s', h'⟩ := y
  obtain rfl : h' = h ++ es := hes
  obtain ⟨hs, hr, hread, hans⟩ := hx
  dsimp only at hs hr hread hans hstep
  cases a with
  | record t ns =>
    simp only [HistogramState.step] at hstep
    cases hpc : s.recorder t with
    | counting | adding | loading | comparing => simp [hpc] at hstep
    | idle =>
      simp only [hpc] at hstep
      obtain ⟨rfl, rfl⟩ := Prod.mk.inj (Option.some.inj hstep)
      refine ⟨?_, hr.report ?_, fun r => (hread r).grow (by simp), atEach_concat.mpr ⟨hans, trivial⟩⟩
      · refine ⟨?_, ?_, hs.nonneg, ?_, ?_, hs.loaded_update t (Int.le_refl _) (by simp)⟩
        · rw [samplesIn_concat_of_ne (by decide)]
          exact hs.buckets
        · rw [samplesIn_concat_of_ne (by decide)]
          exact hs.count
        · rw [samplesIn_concat_of_ne (by decide)]
          exact hs.reached
        · rw [samplesIn_concat_of_ne (by decide)]
          exact hs.attained
      · rw [hpc]
        intro q hq
        cases q <;> simp [RecordAt.owes, Phase.before] at hq ⊢
  | recorder t spurious =>
    obtain ⟨hr', hreader, hquiet⟩ := recorderStep_recorder hr hstep
    refine ⟨recorderStep_shared hs hr hstep, hr', ?_, ?_⟩
    · intro r
      rw [hreader]
      refine (hread r).grow ?_
      obtain rfl | ⟨p, ns, rfl⟩ := hquiet <;> simp
    · obtain rfl | ⟨p, ns, rfl⟩ := hquiet
      · rwa [List.append_nil]
      · exact atEach_concat.mpr ⟨hans, trivial⟩
  | snapshot r =>
    simp only [HistogramState.step] at hstep
    cases hpc : s.reader r with
    | loading => simp [hpc] at hstep
    | idle =>
      simp only [hpc] at hstep
      obtain ⟨rfl, rfl⟩ := Prod.mk.inj (Option.some.inj hstep)
      refine ⟨hs.quiet (fun q => callsIn_asked q r), hr.quiet (fun q => callsIn_asked q r), ?_,
        atEach_concat.mpr ⟨hans, trivial⟩⟩
      refine ReaderInv.move hread (ReaderInv.begin r h) ?_
      intro r' hne
      simpa using hne
  | reader r =>
    simp only [HistogramState.step, HistogramState.readerStep] at hstep
    cases hpc : s.reader r with
    | idle => simp [hpc] at hstep
    | loading i buckets total =>
      have hri := hread r
      rw [hpc] at hri
      simp only [hpc] at hstep
      split at hstep
      · next hi =>
        obtain ⟨rfl, rfl⟩ := Prod.mk.inj (Option.some.inj hstep)
        have hload := hri.load hi (congrFun hs.buckets i)
        refine ⟨hs.quiet (fun _ => rfl), hr.quiet (fun _ => rfl), ?_, by rwa [List.append_nil]⟩
        refine ReaderInv.move hread ?_ (by simp)
        rwa [List.append_nil]
      · next hi =>
        obtain ⟨rfl, rfl⟩ := Prod.mk.inj (Option.some.inj hstep)
        refine ⟨hs.quiet (fun q => callsIn_answered q r _), hr.quiet (fun q => callsIn_answered q r _), ?_,
          atEach_concat.mpr ⟨hans, hri.answer hs hi⟩⟩
        exact ReaderInv.move hread trivial (by simp)

omit [DecidableEq κ] in
theorem histInv_init : HistInv (({}, []) : HistogramState ι κ × List (HistEvent ι κ)) where
  shared := ⟨rfl, rfl, Int.le_refl 0, by simp [samplesIn], Or.inl rfl, by simp⟩
  recorder := by
    intro t q _
    cases q <;> rfl
  reader := fun _ => trivial
  answers := atEach_nil _

variable {as : List (HistAct ι κ)} {s : HistogramState ι κ} {h : List (HistEvent ι κ)}

theorem histInv_run (hrun : run (recorded HistogramState.step) ({}, []) as = some (s, h)) : HistInv (s, h) :=
  run_invariant' (fun _ _ _ hx hstep => histStep_inv hx hstep) histInv_init hrun

/-- **A snapshot is that of samples the histogram counted.**  In every interleaving of any number of
recording and asking threads, whatever a call of `snapshot` reports is what it would report of a
histogram that has recorded just `l`, in that order and with no other thread running, where `l` has
every sample counted before the call and none that was not counted by its end; the maximum alone is
read later, and is at least as large as every sample whose call of `record` had returned by then.
SRCLINE: src/common/latency_histogram.hpp:32-71 -/
theorem snapshot_of_counted (hrun : run (recorded HistogramState.step) ({}, []) as = some (s, h)) :
    AtEach Answers h :=
  (histInv_run hrun).answers

/-- **When no call is under way, the histogram is the sequential one.**  After every interleaving
that leaves no thread in the middle of `record`, all the atomics are as if the calls had been made
one after the other, in the order they began.
SRCLINE: src/common/latency_histogram.hpp:32-45, 87-89 -/
theorem histogram_of_calls (hrun : run (recorded HistogramState.step) ({}, []) as = some (s, h))
    (hidle : ∀ t, s.recorder t = .idle) : s.hist = recordAll (samplesIn .began h) := by
  obtain ⟨hs, hr, -, -⟩ := histInv_run hrun
  have hstage : ∀ q, q ≠ .began → (samplesIn q h).Perm (samplesIn (Phase.before q) h) := by
    intro q hq
    have hcells : ∀ t, cell Prod.fst (callsIn q h) t = cell Prod.fst (callsIn (Phase.before q) h) t := by
      intro t
      have howes : RecordAt.owes (s.recorder t) q = [] := by
        rw [hidle t]
        cases q <;> rfl
      have hmine := hr t q hq
      rw [howes, List.map_nil, List.append_nil] at hmine
      exact hmine.symm
    exact (perm_of_cells hcells).map Prod.snd
  have hcounted := hstage .counted (by decide)
  have hadded := (hstage .added (by decide)).trans hcounted
  have hfinished := (hstage .finished (by decide)).trans hadded
  have hbuckets : s.hist.buckets = (recordAll (samplesIn .began h)).buckets := by
    rw [hs.buckets, recordAll_perm hcounted]
    rfl
  have hcount : s.hist.count = (recordAll (samplesIn .began h)).count := by
    rw [hs.count, recordAll_perm hadded]
    rfl
  have hmax : s.hist.max = (recordAll (samplesIn .began h)).max := by
    obtain ⟨hge, hpos, hmem⟩ := max_recordAll (samplesIn .began h)
    apply le_antisymm
    · obtain hzero | ⟨ns, hns, heq⟩ := hs.attained
      · exact hzero ▸ hpos
      · exact heq ▸ hge ns (hadded.mem_iff.mp hns)
    · obtain hzero | ⟨ns, hns, heq⟩ := hmem
      · exact hzero ▸ hs.nonneg
      · exact heq ▸ hs.reached ns (hfinished.mem_iff.mpr hns)
  calc s.hist = ⟨s.hist.buckets, s.hist.count, s.hist.max⟩ := rfl
    _ = recordAll (samplesIn .began h) := by rw [hbuckets, hcount, hmax]

/-- INTERNAL: a snapshot that begins in the middle of one call of `record` and ends after another. -/
private def overlap : List (HistAct (Fin 2) (Fin 1)) :=
  [.record 0 40, .recorder 0 false, .snapshot 0, .record 1 7, .recorder 1 false] ++
    List.replicate 2049 (.reader 0)

theorem snapshot_of_counted_overlap : ∃ s h, run (recorded HistogramState.step) ({}, []) overlap = some (s, h) ∧
    AtEach Answers h := by
  have hsome : (run (recorded HistogramState.step) ({}, []) overlap).isSome = true := by decide +kernel
  obtain ⟨⟨s, h⟩, hrun⟩ := Option.isSome_iff_exists.mp hsome
  exact ⟨s, h, hrun, snapshot_of_counted hrun⟩

/-- INTERNAL: two calls of `record` side by side; the maximum of the second one is the larger. -/
private def sideBySide : List (HistAct (Fin 2) (Fin 1)) :=
  [.record 0 40, .record 1 50, .recorder 0 false, .recorder 1 false, .recorder 1 false, .recorder 0 false,
    .recorder 0 false, .recorder 1 false, .recorder 1 false, .recorder 0 false, .recorder 0 false]

theorem histogram_of_calls_sideBySide : ∃ s h,
    run (recorded HistogramState.step) ({}, []) sideBySide = some (s, h) ∧ s.hist = recordAll [40, 50] := by
  have hends : (run (recorded HistogramState.step) ({}, []) sideBySide).map (fun x =>
      (x.1.recorder 0, x.1.recorder 1, samplesIn .began x.2)) = some (.idle, .idle, [40, 50]) := by decide +kernel
  obtain ⟨⟨s, h⟩, hrun, hend⟩ := Option.map_eq_some_iff.mp hends
  obtain ⟨hfst, hrest⟩ := Prod.mk.inj hend
  obtain ⟨hsnd, hsamples⟩ := Prod.mk.inj hrest
  refine ⟨s, h, hrun, ?_⟩
  rw [← hsamples]
  exact histogram_of_calls hrun (Fin.forall_fin_two.mpr ⟨hfst, hsnd⟩)

end Threads

end MmEngine.Analysis
