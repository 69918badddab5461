import MmEngine.Analysis.RingRefinement
import MmEngine.Model.QueueMarks

/-!
# The high-water marks stay within the rings

`size_approx` takes the difference of two indices that are loaded one after the other, modulo
`2 ^ 64`.  Its callers that raise a mark are producers: between the two loads `head_` stands still,
since only they move it, and `tail_` can only come nearer to it.  So the difference is the number
of unread items at the second load (`size_unread`), which is at most the capacity, and a mark that
only rises to such values stays there (`queueStep_inv`).
-/

set_option autoImplicit false

namespace MmEngine.Analysis

open MmEngine.Model MmEngine.Lib

variable {T : Type} {N : ℕ} [NeZero N]

/-- What the producer's thread knows where it stands: a head it loaded is current, and a size it
took is within the ring. -/
def GaugeInv (s : QueueState T N) : Prop :=
  match s.gauge with
  | .headLoaded h => h = s.ring.ring.head
  | .sized v => v.toNat ≤ N
  | .comparing v _ => v.toNat ≤ N
  | _ => True

/-- INTERNAL: a step of the consumer leaves the head.
SRCLINE: src/common/spsc_ring.hpp:52-61 -/
theorem head_consumerStep {r r' : RingState T N} {es : List (FifoEvent T)}
    (h : consumerStep r = some (r', es)) : r'.ring.head = r.ring.head := by
  unfold consumerStep at h
  cases hpc : r.consumer with
  | idle => simp [hpc] at h
  | loaded tail =>
    simp only [hpc] at h
    split at h <;> · obtain ⟨rfl, -⟩ := Prod.mk.inj (Option.some.inj h); rfl
  | refreshing tail =>
    simp only [hpc] at h
    split at h <;> · obtain ⟨rfl, -⟩ := Prod.mk.inj (Option.some.inj h); rfl
  | copying tail | publishing out tail =>
    simp only [hpc] at h
    obtain ⟨rfl, -⟩ := Prod.mk.inj (Option.some.inj h)
    rfl

/-- INTERNAL: so does the start of a `try_pop`. -/
theorem head_tryPop {r r' : RingState T N} {es : List (FifoEvent T)}
    (h : ringStep r .tryPop = some (r', es)) : r'.ring.head = r.ring.head := by
  unfold ringStep at h
  cases hpc : r.consumer with
  | idle =>
    simp only [hpc] at h
    obtain ⟨rfl, -⟩ := Prod.mk.inj (Option.some.inj h)
    rfl
  | loaded | refreshing | copying | publishing => simp [hpc] at h

/-- An answer of `try_push` starts a measurement at most. -/
theorem afterPush_cases (site : CallSite) (es : List (FifoEvent T)) :
    afterPush site es = .idle ∨ afterPush site es = .sizing ∨ afterPush site es = .pushing site := by
  unfold afterPush
  split
  · split <;> simp
  · split <;> simp
  · simp

section PowerOfTwo

variable [DecidableEq T]

/-- A ring some run leads to, within its mark. -/
structure QueueInv (s : QueueState T N) : Prop where
  ring : ∃ h, RefinesQueue (s.ring, h)
  gauge : GaugeInv s
  mark : s.mark.toNat ≤ N

variable {k : ℕ} (hN : N = 2 ^ k) (hk : k < 64)

include hN hk

/-- INTERNAL: **the difference of the indices is the number of unread items**, and no more than the
ring holds.
SRCLINE: src/common/spsc_ring.hpp:64-68 -/
theorem size_unread {r : RingState T N} {h : List (FifoEvent T)} (hr : RefinesQueue (r, h)) :
    (r.ring.head - r.ring.tail).toNat = (accepted h).length - (popped h).length ∧
      (r.ring.head - r.ring.tail).toNat ≤ N := by
  obtain ⟨q, ct, ch, -, hinv⟩ := hr
  have hcap := capacity_lt hN hk
  have hroom : (accepted h).length ≤ ct + N := hinv.room
  have hct : ct ≤ (popped h).length := hinv.ct_le
  have hread : (popped h).length ≤ (accepted h).length := hinv.le_ch.trans hinv.ch_le
  have hsmall : (accepted h).length - (popped h).length < 2 ^ 64 := by omega
  have hsize : (r.ring.head - r.ring.tail).toNat = (accepted h).length - (popped h).length := by
    rw [hinv.head, hinv.tail]
    exact toNat_ofNat_sub _ _ hread hsmall
  refine ⟨hsize, ?_⟩
  rw [hsize]
  omega

/-- INTERNAL: a step of the ring leads from one run to another. -/
theorem refinesQueue_ringStep {r r' : RingState T N} {es : List (FifoEvent T)} {a : RingAction T}
    (hr : ∃ h, RefinesQueue (r, h)) (h : ringStep r a = some (r', es)) : ∃ h, RefinesQueue (r', h) := by
  obtain ⟨hist, hr⟩ := hr
  exact ⟨hist ++ es, refinesQueue_step hN hk hr (recorded_eq_some.mpr ⟨es, h, rfl⟩)⟩

/-- INTERNAL: a step of the consumer leaves what the producer's thread knows. -/
theorem QueueInv.consumed {s : QueueState T N} (hs : QueueInv s) {ring : RingState T N}
    {es : List (FifoEvent T)} {a : RingAction T} (hring : ringStep s.ring a = some (ring, es))
    (hhead : ring.ring.head = s.ring.ring.head) : QueueInv { s with ring := ring } := by
  refine ⟨refinesQueue_ringStep hN hk hs.ring hring, ?_, hs.mark⟩
  have hgauge := hs.gauge
  unfold GaugeInv at hgauge ⊢
  cases hpc : s.gauge with
  | headLoaded h =>
    simp only [hpc] at hgauge ⊢
    exact hgauge.trans hhead.symm
  | idle | pushing | sizing => trivial
  | sized v | comparing v cur =>
    simp only [hpc] at hgauge ⊢
    exact hgauge

/-- INTERNAL: a step of the producer's thread outside `try_push` takes a size within the ring and
raises the mark to such a one at most.
SRCLINE: src/common/spsc_ring.hpp:64-68, src/metrics/metrics.hpp:37-40 -/
theorem gaugeStep_inv {s s' : QueueState T N} {spurious : Bool} {vs : List UInt64} (hs : QueueInv s)
    (h : s.producerStep spurious = some (s', vs)) :
    QueueInv s' ∧ (∀ v ∈ vs, v.toNat ≤ N) ∧ s.mark ≤ s'.mark := by
  have hgauge := hs.gauge
  unfold GaugeInv at hgauge
  unfold QueueState.producerStep at h
  cases hpc : s.gauge with
  | idle => simp [hpc] at h
  | pushing site =>
    simp only [hpc] at h
    obtain ⟨⟨ring, es⟩, hring, heq⟩ := Option.map_eq_some_iff.mp h
    obtain ⟨rfl, rfl⟩ := Prod.mk.inj heq
    refine ⟨⟨refinesQueue_ringStep hN hk hs.ring hring, ?_, hs.mark⟩, by simp, UInt64.le_refl _⟩
    unfold GaugeInv
    obtain hidle | hsizing | hpushing := afterPush_cases site es
    · rw [hidle]
      trivial
    · rw [hsizing]
      trivial
    · rw [hpushing]
      trivial
  | sizing =>
    simp only [hpc] at h
    obtain ⟨rfl, rfl⟩ := Prod.mk.inj (Option.some.inj h)
    exact ⟨⟨hs.ring, rfl, hs.mark⟩, by simp, UInt64.le_refl _⟩
  | headLoaded hd =>
    simp only [hpc] at h hgauge
    obtain ⟨rfl, rfl⟩ := Prod.mk.inj (Option.some.inj h)
    obtain ⟨hist, hr⟩ := hs.ring
    have hsize : (hd - s.ring.ring.tail).toNat ≤ N := by
      rw [hgauge]
      exact (size_unread hN hk hr).2
    refine ⟨⟨⟨hist, hr⟩, hsize, hs.mark⟩, ?_, UInt64.le_refl _⟩
    intro v hv
    rw [List.mem_singleton.mp hv]
    exact hsize
  | sized v =>
    simp only [hpc] at h hgauge
    obtain ⟨rfl, rfl⟩ := Prod.mk.inj (Option.some.inj h)
    exact ⟨⟨hs.ring, hgauge, hs.mark⟩, by simp, UInt64.le_refl _⟩
  | comparing v cur =>
    simp only [hpc] at h hgauge
    split at h
    · next hgt =>
      split at h
      · next hsame =>
        obtain ⟨rfl, rfl⟩ := Prod.mk.inj (Option.some.inj h)
        refine ⟨⟨hs.ring, trivial, hgauge⟩, by simp, ?_⟩
        rw [hsame.1]
        exact UInt64.le_of_lt hgt
      · obtain ⟨rfl, rfl⟩ := Prod.mk.inj (Option.some.inj h)
        exact ⟨⟨hs.ring, hgauge, hs.mark⟩, by simp, UInt64.le_refl _⟩
    · obtain ⟨rfl, rfl⟩ := Prod.mk.inj (Option.some.inj h)
      exact ⟨⟨hs.ring, trivial, hs.mark⟩, by simp, UInt64.le_refl _⟩

/-- INTERNAL: **one step** of the threads of a ring takes no size beyond the capacity and keeps the
mark within it, or raises it. -/
theorem queueStep_inv {s s' : QueueState T N} {a : QueueAct T} {vs : List UInt64} (hs : QueueInv s)
    (h : queueStep s a = some (s', vs)) : QueueInv s' ∧ (∀ v ∈ vs, v.toNat ≤ N) ∧ s.mark ≤ s'.mark := by
  cases a with
  | producer spurious => exact gaugeStep_inv hN hk hs h
  | push site item =>
    unfold queueStep at h
    cases hpc : s.gauge with
    | idle =>
      simp only [hpc] at h
      obtain ⟨⟨ring, es⟩, hring, heq⟩ := Option.map_eq_some_iff.mp h
      obtain ⟨rfl, rfl⟩ := Prod.mk.inj heq
      exact ⟨⟨refinesQueue_ringStep hN hk hs.ring hring, trivial, hs.mark⟩, by simp, UInt64.le_refl _⟩
    | pushing | sizing | headLoaded | sized | comparing => simp [hpc] at h
  | tryPop =>
    obtain ⟨⟨ring, es⟩, hring, heq⟩ := Option.map_eq_some_iff.mp h
    obtain ⟨rfl, rfl⟩ := Prod.mk.inj heq
    exact ⟨hs.consumed hN hk hring (head_tryPop hring), by simp, UInt64.le_refl _⟩
  | consumer =>
    obtain ⟨⟨ring, es⟩, hring, heq⟩ := Option.map_eq_some_iff.mp h
    obtain ⟨rfl, rfl⟩ := Prod.mk.inj heq
    exact ⟨hs.consumed hN hk hring (head_consumerStep hring), by simp, UInt64.le_refl _⟩

end PowerOfTwo

theorem queueInv_init [DecidableEq T] (buf : Fin N → T) : QueueInv { ring := RingState.init buf } :=
  ⟨⟨[], refinesQueue_init buf⟩, trivial, Nat.zero_le _⟩

/-! ## The rings of the engine -/

instance decidableEqItem : ∀ name : QueueName, DecidableEq name.Item
  | .mdQueueMax => inferInstanceAs (DecidableEq MdEvent)
  | .ordQueueMax => inferInstanceAs (DecidableEq OrderCmd)
  | .logQueueMax => inferInstanceAs (DecidableEq LogRecord)

theorem capacity_pow (name : QueueName) : ∃ k, name.capacity = 2 ^ k ∧ k < 64 := by
  cases name with
  | mdQueueMax => exact ⟨14, rfl, by decide⟩
  | ordQueueMax => exact ⟨12, rfl, by decide⟩
  | logQueueMax => exact ⟨14, rfl, by decide⟩

/-- Every ring is one some run leads to, within its mark, and every size was within its ring. -/
structure MarksInv (q : Queues) (h : List (QueueName × UInt64)) : Prop where
  queue : ∀ name, QueueInv (q name)
  sized : ∀ name v, (name, v) ∈ h → v.toNat ≤ name.capacity

/-- INTERNAL: a step of one ring leaves the others, and lowers no mark. -/
theorem queuesStep_inv {q q' : Queues} {act : (name : QueueName) × QueueAct name.Item}
    {h vs : List (QueueName × UInt64)} (hq : MarksInv q h) (hstep : queuesStep q act = some (q', vs)) :
    MarksInv q' (h ++ vs) ∧ ∀ name, (q name).mark ≤ (q' name).mark := by
  obtain ⟨name, a⟩ := act
  obtain ⟨⟨s, vs'⟩, hs, heq⟩ := Option.map_eq_some_iff.mp hstep
  obtain ⟨rfl, rfl⟩ := Prod.mk.inj heq
  obtain ⟨k, hN, hk⟩ := capacity_pow name
  obtain ⟨hinv, hsize, hmark⟩ := queueStep_inv hN hk (hq.queue name) hs
  refine ⟨⟨?_, ?_⟩, ?_⟩
  · intro other
    by_cases hother : other = name
    · subst hother
      rw [Function.update_self]
      exact hinv
    · rw [Function.update_of_ne hother]
      exact hq.queue other
  · intro other v hv
    obtain hold | hnew := List.mem_append.mp hv
    · exact hq.sized other v hold
    · obtain ⟨w, hw, heq⟩ := List.mem_map.mp hnew
      obtain ⟨rfl, rfl⟩ := Prod.mk.inj heq
      exact hsize w hw
  · intro other
    by_cases hother : other = name
    · subst hother
      rw [Function.update_self]
      exact hmark
    · rw [Function.update_of_ne hother]
      exact UInt64.le_refl _

/-- INTERNAL: **one run after another** keeps the sizes within the rings and lowers no mark. -/
theorem marks_run {q q' : Queues} {h h' : List (QueueName × UInt64)}
    {acts : List ((name : QueueName) × QueueAct name.Item)} (hq : MarksInv q h)
    (hrun : run (recorded queuesStep) (q, h) acts = some (q', h')) :
    MarksInv q' h' ∧ ∀ name, (q name).mark ≤ (q' name).mark := by
  apply run_invariant' (I := fun x : Queues × List (QueueName × UInt64) =>
    MarksInv x.1 x.2 ∧ ∀ name, (q name).mark ≤ (x.1 name).mark) _ ⟨hq, fun _ => UInt64.le_refl _⟩ hrun
  rintro ⟨u, hu⟩ act ⟨v, hv⟩ ⟨hinv, hle⟩ hstep
  obtain ⟨vs, hvs, rfl⟩ := recorded_eq_some.mp hstep
  obtain ⟨hinv', hmark⟩ := queuesStep_inv hinv hvs
  exact ⟨hinv', fun name => UInt64.le_trans (hle name) (hmark name)⟩

/-- **Every size `track_max` is called with is within its ring, and the marks rise within the
capacities.**  For every interleaving of the producers and the consumers of the three rings.
SRCLINE: src/common/spsc_ring.hpp:64-68, src/metrics/metrics.hpp:37-40, src/fix/fix_app.hpp:139-144,
src/strategy/market_maker.hpp:122-124, src/common/async_logger.hpp:32-36 -/
theorem high_water_marks (bufs : ∀ name : QueueName, Fin name.capacity → name.Item)
    (acts : List ((name : QueueName) × QueueAct name.Item)) (q : Queues) (h : List (QueueName × UInt64))
    (hrun : run (recorded queuesStep) (Queues.init bufs, []) acts = some (q, h)) :
    (∀ name v, (name, v) ∈ h → v.toNat ≤ name.capacity) ∧
      (∀ name, (q name).mark.toNat ≤ name.capacity) ∧
      ∀ more q' h', run (recorded queuesStep) (q, h) more = some (q', h') →
        ∀ name, (q name).mark ≤ (q' name).mark := by
  have hinit : MarksInv (Queues.init bufs) [] :=
    ⟨fun name => queueInv_init (bufs name), fun name v hv => nomatch hv⟩
  obtain ⟨hinv, -⟩ := marks_run hinit hrun
  exact ⟨hinv.sized, fun name => (hinv.queue name).mark, fun more q' h' hmore => (marks_run hinv hmore).2⟩

/-- Buffers of a fresh process. -/
def freshBufs : ∀ name : QueueName, Fin name.capacity → name.Item
  | .mdQueueMax => fun _ => topOfBook 0 0 0
  | .ordQueueMax => fun _ => { type := .new, side := .buy, symbolId := 0 }
  | .logQueueMax => fun _ => { kind := .info }

/-- A line is logged, and the size is taken while the consumer starts to read it. -/
def loggedLine : List ((name : QueueName) × QueueAct name.Item) :=
  [⟨.logQueueMax, .push .log { kind := .info }⟩, ⟨.logQueueMax, .producer false⟩,
    ⟨.logQueueMax, .producer false⟩, ⟨.logQueueMax, .producer false⟩, ⟨.logQueueMax, .producer false⟩,
    ⟨.logQueueMax, .tryPop⟩, ⟨.logQueueMax, .producer false⟩, ⟨.logQueueMax, .producer false⟩,
    ⟨.logQueueMax, .producer false⟩]

/-- The mark of the log ring after one line. -/
theorem high_water_marks_loggedLine :
    ∃ q h, run (recorded queuesStep) (Queues.init freshBufs, []) loggedLine = some (q, h) ∧
      (q .logQueueMax).mark = 1 ∧
      (∀ name v, (name, v) ∈ h → v.toNat ≤ name.capacity) ∧
      (∀ name, (q name).mark.toNat ≤ name.capacity) ∧
      ∀ more q' h', run (recorded queuesStep) (q, h) more = some (q', h') →
        ∀ name, (q name).mark ≤ (q' name).mark :=
  ⟨_, _, rfl, rfl, high_water_marks freshBufs loggedLine _ _ rfl⟩

end MmEngine.Analysis
