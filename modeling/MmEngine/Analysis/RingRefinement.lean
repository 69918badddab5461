import MmEngine.Model.SpscRing
import MmEngine.Lib.Counter64
import Mathlib.Tactic.NormNum

/-!
# The ring refines the bounded queue

For every interleaving of the steps of one producer and one consumer, and across every
wrap of the 64-bit indices, the answers of `try_push` and `try_pop` are a run of the
bounded queue of capacity `N`.

The invariant `RingInv` names the true counts behind the wrapped indices: `xs` are the
items pushed so far, `p` of them have been popped, and the two cached indices are the
counts `ct ≤ p` and `ch ≥ p` some earlier load has seen.  Staleness is harmless because
`ct` only underestimates what has been popped and `ch` only underestimates what has been
pushed; `xs.length ≤ ct + N` keeps every difference below `2 ^ 64`.  Unread items sit at
their own positions of the buffer, and while both threads copy a slot they are at
different ones.
-/

set_option autoImplicit false

namespace MmEngine.Analysis

open MmEngine.Model MmEngine.Lib

variable {T : Type} {N : ℕ} [NeZero N]

/-- What the producer knows where it stands: the head index it loaded is current, and from
the copy on there is room for one more item. -/
def ProducerInv (s : RingState T N) (n ct : ℕ) : Prop :=
  match s.producer with
  | .idle => True
  | .loaded _ hd => hd = UInt64.ofNat n
  | .refreshing _ hd => hd = UInt64.ofNat n
  | .copying _ hd => hd = UInt64.ofNat n ∧ n + 1 ≤ ct + N
  | .publishing item hd => hd = UInt64.ofNat n ∧ n + 1 ≤ ct + N ∧
      s.ring.buf (slotIndex N (UInt64.ofNat n)) = item

/-- What the consumer knows where it stands: the tail index it loaded is current, and from
the copy on there is an unread item, which is the one it returns. -/
def ConsumerInv (s : RingState T N) (xs : List T) (p ch : ℕ) : Prop :=
  match s.consumer with
  | .idle => True
  | .loaded tl => tl = UInt64.ofNat p
  | .refreshing tl => tl = UInt64.ofNat p
  | .copying tl => tl = UInt64.ofNat p ∧ p < ch
  | .publishing out tl => tl = UInt64.ofNat p ∧ p < ch ∧ xs[p]? = some out

/-- The counts behind the wrapped indices. -/
structure RingInv (s : RingState T N) (xs : List T) (p ct ch : ℕ) : Prop where
  head : s.ring.head = UInt64.ofNat xs.length
  tail : s.ring.tail = UInt64.ofNat p
  cachedTail : s.ring.cachedTail = UInt64.ofNat ct
  cachedHead : s.ring.cachedHead = UInt64.ofNat ch
  ct_le : ct ≤ p
  le_ch : p ≤ ch
  ch_le : ch ≤ xs.length
  room : xs.length ≤ ct + N
  buf : ∀ i x, p ≤ i → xs[i]? = some x → s.ring.buf (slotIndex N (UInt64.ofNat i)) = x
  producer : ProducerInv s xs.length ct
  consumer : ConsumerInv s xs p ch

omit [NeZero N] in
/-- INTERNAL: what the consumer knows stands when one more item is published. -/
theorem ConsumerInv.concat {s s' : RingState T N} {xs : List T} {p ch : ℕ} (item : T)
    (hcons : ConsumerInv s xs p ch) (hsame : s'.consumer = s.consumer) (hch : ch ≤ xs.length) :
    ConsumerInv s' (xs ++ [item]) p ch := by
  unfold ConsumerInv at hcons ⊢
  rw [hsame]
  cases hc : s.consumer with
  | publishing out tl =>
    simp only [hc] at hcons ⊢
    obtain ⟨htl, hlt, hout⟩ := hcons
    refine ⟨htl, hlt, ?_⟩
    rw [List.getElem?_append_left (by omega)]
    exact hout
  | idle => trivial
  | loaded tl =>
    simp only [hc] at hcons ⊢
    exact hcons
  | refreshing tl =>
    simp only [hc] at hcons ⊢
    exact hcons
  | copying tl =>
    simp only [hc] at hcons ⊢
    exact hcons

/-- INTERNAL: with the copied item the unread items are where they belong. -/
theorem buf_published {buf : Fin N → T} {xs : List T} {p : ℕ} (item : T)
    (hslot : buf (slotIndex N (UInt64.ofNat xs.length)) = item)
    (hbuf : ∀ i x, p ≤ i → xs[i]? = some x → buf (slotIndex N (UInt64.ofNat i)) = x) (i : ℕ) (x : T)
    (hi : p ≤ i) (hx : (xs ++ [item])[i]? = some x) :
    buf (slotIndex N (UInt64.ofNat i)) = x := by
  by_cases hin : i < xs.length
  · rw [List.getElem?_append_left hin] at hx
    exact hbuf i x hi hx
  · have hlt := (List.getElem?_eq_some_iff.mp hx).1
    rw [List.length_append, List.length_singleton] at hlt
    obtain rfl : i = xs.length := by omega
    rw [List.getElem?_concat_length] at hx
    rw [hslot, Option.some.inj hx]

section PowerOfTwo

variable {k : ℕ} (hN : N = 2 ^ k) (hk : k < 64)

include hN hk

omit [NeZero N] in
/-- INTERNAL: a capacity is far below the range of the indices. -/
theorem capacity_lt : N + 1 < 2 ^ 64 := by
  have hle : 2 ^ k ≤ 2 ^ 63 := Nat.pow_le_pow_right (by decide) (by omega)
  rw [hN]
  have : (2 : ℕ) ^ 63 + 1 < 2 ^ 64 := by norm_num
  omega

/-- INTERNAL: masked positions of counts less than a ring apart differ.
SRCLINE: src/common/spsc_ring.hpp:46, 58 -/
theorem slotIndex_ne (i j : ℕ) (hlt : i < j) (hd : j - i < N) :
    slotIndex N (UInt64.ofNat i) ≠ slotIndex N (UInt64.ofNat j) := by
  intro heq
  have hval := congrArg Fin.val heq
  unfold slotIndex at hval
  simp only [hN] at hval
  rw [ofNat_and_mask i k hk.le, ofNat_and_mask j k hk.le, ← hN] at hval
  exact mod_ne_of_lt i j N hlt hd hval

omit [NeZero N] in
/-- INTERNAL: the fullness test compares true counts.
SRCLINE: src/common/spsc_ring.hpp:42, 44 -/
theorem looksFull_iff (n c : ℕ) (hc : c ≤ n) (hn : n ≤ c + N) :
    looksFull N (UInt64.ofNat n) (UInt64.ofNat c) = true ↔ n = c + N := by
  have hcap := capacity_lt hN hk
  unfold looksFull
  rw [ofNat_succ, toNat_ofNat_sub c (n + 1) (by omega) (by omega), decide_eq_true_eq]
  omega

/-- INTERNAL: an unread item keeps its position under the copy of a new one: it is less than a
ring behind.
SRCLINE: src/common/spsc_ring.hpp:46 -/
theorem buf_copied {buf : Fin N → T} {xs : List T} {p : ℕ} (item : T) (hroom : xs.length < p + N)
    (hbuf : ∀ i x, p ≤ i → xs[i]? = some x → buf (slotIndex N (UInt64.ofNat i)) = x) (i : ℕ) (x : T)
    (hi : p ≤ i) (hx : xs[i]? = some x) :
    Function.update buf (slotIndex N (UInt64.ofNat xs.length)) item
      (slotIndex N (UInt64.ofNat i)) = x := by
  have hin : i < xs.length := (List.getElem?_eq_some_iff.mp hx).1
  rw [Function.update_of_ne (slotIndex_ne hN hk i xs.length hin (by omega))]
  exact hbuf i x hi hx

omit [NeZero N] in
/-- INTERNAL: the emptiness test compares true counts.
SRCLINE: src/common/spsc_ring.hpp:54, 56 -/
theorem looksEmpty_iff (p c : ℕ) (hp : p ≤ c) (hc : c ≤ p + N) :
    UInt64.ofNat p = UInt64.ofNat c ↔ p = c := by
  have hcap := capacity_lt hN hk
  exact ofNat_eq_iff p c hp (by omega)

variable [DecidableEq T]

/-- INTERNAL: **a step of `try_push`** keeps the invariant, and what it answers is what the
bounded queue with the unread items may answer.
SRCLINE: src/common/spsc_ring.hpp:39-49 -/
theorem producerStep_inv {s s' : RingState T N} {xs ps q : List T} {ct ch : ℕ}
    {es : List (FifoEvent T)} (hxs : xs = ps ++ q) (hinv : RingInv s xs ps.length ct ch)
    (hstep : producerStep s = some (s', es)) :
    ∃ q' ct', run (fifoStep N) q es = some q' ∧
      RingInv s' (xs ++ accepted es) (ps.length + (popped es).length) ct' ch := by
  have hlen : xs.length = ps.length + q.length := by rw [hxs, List.length_append]
  obtain ⟨hhead, htail, hct, hch, hctp, hpch, hchn, hroom, hbuf, hprod, hcons⟩ := hinv
  unfold ProducerInv at hprod
  unfold producerStep at hstep
  cases hpc : s.producer with
  | idle => simp [hpc] at hstep
  | loaded item hd =>
    simp only [hpc] at hstep hprod
    subst hprod
    rw [hct] at hstep
    have hfull := looksFull_iff hN hk xs.length ct (by omega) hroom
    split at hstep
    · obtain ⟨rfl, rfl⟩ := Prod.mk.inj (Option.some.inj hstep)
      exact ⟨q, ct, rfl, by
        simpa [accepted, popped] using
          ⟨hhead, htail, hct, hch, hctp, hpch, hchn, hroom, hbuf, rfl, hcons⟩⟩
    · next hnot =>
      obtain ⟨rfl, rfl⟩ := Prod.mk.inj (Option.some.inj hstep)
      have hlt : xs.length + 1 ≤ ct + N := by
        have : xs.length ≠ ct + N := fun h => hnot (hfull.mpr h)
        omega
      exact ⟨q, ct, rfl, by
        simpa [accepted, popped] using
          ⟨hhead, htail, hct, hch, hctp, hpch, hchn, hroom, hbuf, ⟨rfl, hlt⟩, hcons⟩⟩
  | refreshing item hd =>
    simp only [hpc] at hstep hprod
    subst hprod
    rw [htail] at hstep
    -- the refreshed copy is the true count of pops
    have hroom' : xs.length ≤ ps.length + N := by omega
    have hfull := looksFull_iff hN hk xs.length ps.length (by omega) hroom'
    split at hstep
    · next hyes =>
      obtain ⟨rfl, rfl⟩ := Prod.mk.inj (Option.some.inj hstep)
      have hq : q.length = N := by
        have := hfull.mp hyes
        omega
      refine ⟨q, ps.length, ?_, ?_⟩
      · simp [run, fifoStep, hq]
      · simpa [accepted, popped] using
          ⟨hhead, rfl, rfl, hch, le_rfl, hpch, hchn, hroom', hbuf, trivial, hcons⟩
    · next hnot =>
      obtain ⟨rfl, rfl⟩ := Prod.mk.inj (Option.some.inj hstep)
      have hlt : xs.length + 1 ≤ ps.length + N := by
        have : xs.length ≠ ps.length + N := fun h => hnot (hfull.mpr h)
        omega
      exact ⟨q, ps.length, rfl, by
        simpa [accepted, popped] using
          ⟨hhead, rfl, rfl, hch, le_rfl, hpch, hchn, hroom', hbuf, ⟨rfl, hlt⟩, hcons⟩⟩
  | copying item hd =>
    simp only [hpc] at hstep hprod
    obtain ⟨rfl, hlt⟩ := hprod
    obtain ⟨rfl, rfl⟩ := Prod.mk.inj (Option.some.inj hstep)
    refine ⟨q, ct, rfl, ?_⟩
    have hbuf' := buf_copied hN hk item (show xs.length < ps.length + N by omega) hbuf
    simpa [accepted, popped] using
      ⟨hhead, htail, hct, hch, hctp, hpch, hchn, hroom, hbuf',
        ⟨rfl, hlt, Function.update_self _ _ _⟩, hcons⟩
  | publishing item hd =>
    simp only [hpc] at hstep hprod
    obtain ⟨rfl, hlt, hslot⟩ := hprod
    obtain ⟨rfl, rfl⟩ := Prod.mk.inj (Option.some.inj hstep)
    have hq : q.length < N := by omega
    refine ⟨q ++ [item], ct, ?_, ?_⟩
    · simp [run, fifoStep, hq]
    · have hcons' : ConsumerInv
          { s with ring := { s.ring with head := UInt64.ofNat xs.length + 1 }, producer := .idle }
          (xs ++ [item]) ps.length ch := hcons.concat item rfl hchn
      have hbuf' := buf_published item hslot hbuf
      have hacc : accepted [FifoEvent.pushOk item] = [item] := rfl
      have hpop : popped [FifoEvent.pushOk item] = [] := rfl
      rw [hacc, hpop]
      refine ⟨?_, htail, hct, hch, hctp, hpch, ?_, ?_, hbuf', trivial, hcons'⟩
      · rw [List.length_append, List.length_singleton, ← ofNat_succ]
      · rw [List.length_append]
        omega
      · rw [List.length_append]
        exact hlt

/-- INTERNAL: **a step of `try_pop`** keeps the invariant, and what it answers is what the
bounded queue with the unread items may answer.
SRCLINE: src/common/spsc_ring.hpp:52-61 -/
theorem consumerStep_inv {s s' : RingState T N} {xs ps q : List T} {ct ch : ℕ}
    {es : List (FifoEvent T)} (hxs : xs = ps ++ q) (hinv : RingInv s xs ps.length ct ch)
    (hstep : consumerStep s = some (s', es)) :
    ∃ q' ch', run (fifoStep N) q es = some q' ∧
      RingInv s' (xs ++ accepted es) (ps.length + (popped es).length) ct ch' := by
  have hlen : xs.length = ps.length + q.length := by rw [hxs, List.length_append]
  obtain ⟨hhead, htail, hct, hch, hctp, hpch, hchn, hroom, hbuf, hprod, hcons⟩ := hinv
  unfold ConsumerInv at hcons
  unfold consumerStep at hstep
  cases hpc : s.consumer with
  | idle => simp [hpc] at hstep
  | loaded tl =>
    simp only [hpc] at hstep hcons
    subst hcons
    rw [hch] at hstep
    have hempty := looksEmpty_iff hN hk ps.length ch hpch (by omega)
    split at hstep
    · obtain ⟨rfl, rfl⟩ := Prod.mk.inj (Option.some.inj hstep)
      exact ⟨q, ch, rfl, by
        simpa [accepted, popped] using
          ⟨hhead, htail, hct, hch, hctp, hpch, hchn, hroom, hbuf, hprod, rfl⟩⟩
    · next hnot =>
      obtain ⟨rfl, rfl⟩ := Prod.mk.inj (Option.some.inj hstep)
      have hlt : ps.length < ch := by
        have : ps.length ≠ ch := fun h => hnot (hempty.mpr h)
        omega
      exact ⟨q, ch, rfl, by
        simpa [accepted, popped] using
          ⟨hhead, htail, hct, hch, hctp, hpch, hchn, hroom, hbuf, hprod, ⟨rfl, hlt⟩⟩⟩
  | refreshing tl =>
    simp only [hpc] at hstep hcons
    subst hcons
    rw [hhead] at hstep
    have hempty := looksEmpty_iff hN hk ps.length xs.length (by omega) (by omega)
    split at hstep
    · next hyes =>
      obtain ⟨rfl, rfl⟩ := Prod.mk.inj (Option.some.inj hstep)
      have hq : q = [] := by
        have := hempty.mp hyes
        exact List.eq_nil_of_length_eq_zero (by omega)
      refine ⟨q, xs.length, ?_, ?_⟩
      · simp [run, fifoStep, hq]
      · simpa [accepted, popped] using
          ⟨rfl, htail, hct, rfl, hctp, by omega, le_rfl, hroom, hbuf, hprod, trivial⟩
    · next hnot =>
      obtain ⟨rfl, rfl⟩ := Prod.mk.inj (Option.some.inj hstep)
      have hlt : ps.length < xs.length := by
        have : ps.length ≠ xs.length := fun h => hnot (hempty.mpr h)
        omega
      exact ⟨q, xs.length, rfl, by
        simpa [accepted, popped] using
          ⟨rfl, htail, hct, rfl, hctp, hlt.le, le_rfl, hroom, hbuf, hprod, ⟨rfl, hlt⟩⟩⟩
  | copying tl =>
    simp only [hpc] at hstep hcons
    obtain ⟨rfl, hlt⟩ := hcons
    obtain ⟨rfl, rfl⟩ := Prod.mk.inj (Option.some.inj hstep)
    refine ⟨q, ch, rfl, ?_⟩
    have hget : xs[ps.length]? = some (s.ring.buf (slotIndex N (UInt64.ofNat ps.length))) := by
      have hin : ps.length < xs.length := by omega
      rw [hbuf ps.length xs[ps.length] le_rfl (List.getElem?_eq_getElem hin)]
      exact List.getElem?_eq_getElem hin
    simpa [accepted, popped] using
      ⟨hhead, htail, hct, hch, hctp, hpch, hchn, hroom, hbuf, hprod, ⟨rfl, hlt, hget⟩⟩
  | publishing out tl =>
    simp only [hpc] at hstep hcons
    obtain ⟨rfl, hlt, hout⟩ := hcons
    obtain ⟨rfl, rfl⟩ := Prod.mk.inj (Option.some.inj hstep)
    rw [hxs, List.getElem?_append_right le_rfl, Nat.sub_self] at hout
    cases hq : q with
    | nil => simp [hq] at hout
    | cons y q' =>
      obtain rfl : y = out := by simpa [hq] using hout
      refine ⟨q', ch, ?_, ?_⟩
      · simp [run, fifoStep]
      · have hacc : accepted [FifoEvent.popOk y] = [] := rfl
        have hpop : (popped [FifoEvent.popOk y]).length = 1 := rfl
        rw [hacc, hpop, List.append_nil]
        exact ⟨hhead, ofNat_succ _, hct, hch, by omega, hlt, hchn, hroom,
          fun i x hi => hbuf i x (by omega), hprod, trivial⟩

/-- INTERNAL: **every step of the two threads** keeps the invariant and answers as the bounded
queue may. -/
theorem ringStep_inv {s s' : RingState T N} {xs ps q : List T} {ct ch : ℕ}
    {es : List (FifoEvent T)} {a : RingAction T} (hxs : xs = ps ++ q)
    (hinv : RingInv s xs ps.length ct ch) (hstep : ringStep s a = some (s', es)) :
    ∃ q' ct' ch', run (fifoStep N) q es = some q' ∧
      RingInv s' (xs ++ accepted es) (ps.length + (popped es).length) ct' ch' := by
  cases a with
  | producer =>
    obtain ⟨q', ct', hq, hr⟩ := producerStep_inv hN hk hxs hinv hstep
    exact ⟨q', ct', ch, hq, hr⟩
  | consumer =>
    obtain ⟨q', ch', hq, hr⟩ := consumerStep_inv hN hk hxs hinv hstep
    exact ⟨q', ct, ch', hq, hr⟩
  | tryPush item =>
    unfold ringStep at hstep
    cases hpc : s.producer with
    | idle =>
      simp only [hpc] at hstep
      obtain ⟨rfl, rfl⟩ := Prod.mk.inj (Option.some.inj hstep)
      obtain ⟨hhead, htail, hct, hch, hctp, hpch, hchn, hroom, hbuf, -, hcons⟩ := hinv
      exact ⟨q, ct, ch, rfl, by
        simpa [accepted, popped] using
          ⟨hhead, htail, hct, hch, hctp, hpch, hchn, hroom, hbuf, hhead, hcons⟩⟩
    | loaded | refreshing | copying | publishing => simp [hpc] at hstep
  | tryPop =>
    unfold ringStep at hstep
    cases hpc : s.consumer with
    | idle =>
      simp only [hpc] at hstep
      obtain ⟨rfl, rfl⟩ := Prod.mk.inj (Option.some.inj hstep)
      obtain ⟨hhead, htail, hct, hch, hctp, hpch, hchn, hroom, hbuf, hprod, -⟩ := hinv
      exact ⟨q, ct, ch, rfl, by
        simpa [accepted, popped] using
          ⟨hhead, htail, hct, hch, hctp, hpch, hchn, hroom, hbuf, hprod, htail⟩⟩
    | loaded | refreshing | copying | publishing => simp [hpc] at hstep

/-- The ring with its history: the answers so far are a run of the bounded queue, and the
counts behind the indices are those of the history. -/
def RefinesQueue (x : RingState T N × List (FifoEvent T)) : Prop :=
  ∃ q ct ch, run (fifoStep N) [] x.2 = some q ∧
    RingInv x.1 (accepted x.2) (popped x.2).length ct ch

/-- INTERNAL: refinement is an invariant of every interleaving. -/
theorem refinesQueue_step {x y : RingState T N × List (FifoEvent T)} {a : RingAction T}
    (hx : RefinesQueue x) (h : recorded ringStep x a = some y) : RefinesQueue y := by
  obtain ⟨q, ct, ch, hq, hinv⟩ := hx
  obtain ⟨es, hes, hy⟩ := recorded_eq_some.mp h
  obtain ⟨q', ct', ch', hq', hinv'⟩ := ringStep_inv hN hk (fifo_run hq).1 hinv hes
  refine ⟨q', ct', ch', ?_, ?_⟩
  · rw [hy, run_append, hq]
    exact hq'
  · rw [hy, accepted_append, popped_append, List.length_append]
    exact hinv'

omit hN hk in
/-- INTERNAL: a fresh ring refines the empty queue, whatever its buffer holds.
SRCLINE: src/common/spsc_ring.hpp:36 -/
theorem refinesQueue_init (buf : Fin N → T) : RefinesQueue (RingState.init buf, []) :=
  ⟨[], 0, 0, rfl, rfl, rfl, rfl, rfl, le_rfl, le_rfl, Nat.zero_le _, Nat.zero_le _,
    fun i x _ hx => by simp [accepted] at hx, trivial, trivial⟩

end PowerOfTwo

/-- INTERNAL: a step gives at most one answer; a refusal is given by the step that loads the
tail, an empty report by the step that loads the head.
SRCLINE: src/common/spsc_ring.hpp:43-44, 55-56 -/
theorem ringStep_answer {s s' : RingState T N} {a : RingAction T} {es : List (FifoEvent T)}
    {e : FifoEvent T} (h : ringStep s a = some (s', es)) (he : e ∈ es) :
    es = [e] ∧ (∀ x, e = .pushFull x → ∃ hd, s.producer = .refreshing x hd) ∧
      (e = .popEmpty → ∃ tl, s.consumer = .refreshing tl) := by
  cases a with
  | tryPush item =>
    unfold ringStep at h
    cases hpc : s.producer <;> simp only [hpc, reduceCtorEq] at h
    obtain ⟨-, rfl⟩ := Prod.mk.inj (Option.some.inj h)
    cases he
  | tryPop =>
    unfold ringStep at h
    cases hpc : s.consumer <;> simp only [hpc, reduceCtorEq] at h
    obtain ⟨-, rfl⟩ := Prod.mk.inj (Option.some.inj h)
    cases he
  | producer =>
    have h : producerStep s = some (s', es) := h
    unfold producerStep at h
    cases hpc : s.producer with
    | idle => simp [hpc] at h
    | loaded item hd =>
      simp only [hpc] at h
      split at h <;> · obtain ⟨-, rfl⟩ := Prod.mk.inj (Option.some.inj h); simp at he
    | refreshing item hd =>
      simp only [hpc] at h
      split at h <;> obtain ⟨-, rfl⟩ := Prod.mk.inj (Option.some.inj h) <;> simp at he
      subst he
      simp
    | copying item hd =>
      simp only [hpc] at h
      obtain ⟨-, rfl⟩ := Prod.mk.inj (Option.some.inj h)
      simp at he
    | publishing item hd =>
      simp only [hpc] at h
      obtain ⟨-, rfl⟩ := Prod.mk.inj (Option.some.inj h)
      rw [List.mem_singleton] at he
      subst he
      simp
  | consumer =>
    have h : consumerStep s = some (s', es) := h
    unfold consumerStep at h
    cases hpc : s.consumer with
    | idle => simp [hpc] at h
    | loaded tl =>
      simp only [hpc] at h
      split at h <;> · obtain ⟨-, rfl⟩ := Prod.mk.inj (Option.some.inj h); simp at he
    | refreshing tl =>
      simp only [hpc] at h
      split at h <;> obtain ⟨-, rfl⟩ := Prod.mk.inj (Option.some.inj h) <;> simp at he
      subst he
      simp
    | copying tl =>
      simp only [hpc] at h
      obtain ⟨-, rfl⟩ := Prod.mk.inj (Option.some.inj h)
      simp at he
    | publishing out tl =>
      simp only [hpc] at h
      obtain ⟨-, rfl⟩ := Prod.mk.inj (Option.some.inj h)
      rw [List.mem_singleton] at he
      subst he
      simp

/-- **The ring refines the bounded queue.**  For a capacity that is a power of two below
`2 ^ 64`, any initial buffer and any interleaving of the steps of the two threads: the
answers given so far are a run of the bounded queue, so the items popped are the first ones
of those pushed, in order; a push is refused only by the step that loads the tail, with
exactly `N` items unread; empty is reported only by the step that loads the head, with none
unread; and the two threads never copy the same slot.
SRCLINE: src/common/spsc_ring.hpp:28-61 -/
theorem spscRing_refines_fifo (T : Type) [DecidableEq T] (N : ℕ) [NeZero N] (k : ℕ)
    (hN : N = 2 ^ k) (hk : k < 64) (buf : Fin N → T) (as : List (RingAction T))
    (s : RingState T N) (h : List (FifoEvent T))
    (hrun : run (recorded ringStep) (RingState.init buf, []) as = some (s, h)) :
    (∃ q, run (fifoStep N) [] h = some q ∧ accepted h = popped h ++ q ∧ q.length ≤ N) ∧
      popped h <+: accepted h ∧
      (∀ a s' es x, ringStep s a = some (s', es) → .pushFull x ∈ es →
        (∃ hd, s.producer = .refreshing x hd) ∧
          (accepted h).length = (popped h).length + N) ∧
      (∀ a s' es, ringStep s a = some (s', es) → .popEmpty ∈ es →
        (∃ tl, s.consumer = .refreshing tl) ∧ accepted h = popped h) ∧
      (∀ x hd tl, s.producer = .copying x hd → s.consumer = .copying tl →
        slotIndex N hd ≠ slotIndex N tl) := by
  have hinv : RefinesQueue (s, h) :=
    run_invariant' (fun _ _ _ hx hstep => refinesQueue_step hN hk hx hstep)
      (refinesQueue_init buf) hrun
  obtain ⟨q, ct, ch, hq, hring⟩ := hinv
  obtain ⟨hacc, hlen⟩ := fifo_run hq
  -- the answer of a step is one the queue with contents `q` may give
  have hanswer : ∀ a s' es e, ringStep s a = some (s', es) → e ∈ es →
      ∃ q', fifoStep N q e = some q' := by
    intro a s' es e hstep he
    obtain ⟨q', -, -, hq', -⟩ := ringStep_inv hN hk hacc hring hstep
    rw [(ringStep_answer hstep he).1] at hq'
    obtain ⟨t, ht, -⟩ := run_cons_eq_some.mp hq'
    exact ⟨t, ht⟩
  refine ⟨⟨q, hq, hacc, hlen⟩, ?_, ?_, ?_, ?_⟩
  · rw [hacc]
    exact List.prefix_append _ _
  · intro a s' es x hstep he
    obtain ⟨q', hq'⟩ := hanswer a s' es _ hstep he
    refine ⟨(ringStep_answer hstep he).2.1 x rfl, ?_⟩
    rw [hacc, List.length_append]
    simp only [fifoStep] at hq'
    split at hq'
    · next hfull => rw [hfull]
    · cases hq'
  · intro a s' es hstep he
    obtain ⟨q', hq'⟩ := hanswer a s' es _ hstep he
    refine ⟨(ringStep_answer hstep he).2.2 rfl, ?_⟩
    simp only [fifoStep] at hq'
    split at hq'
    · next hempty => rw [hacc, hempty, List.append_nil]
    · cases hq'
  · intro x hd tl hprod hcons
    have hp := hring.producer
    have hc := hring.consumer
    unfold ProducerInv at hp
    unfold ConsumerInv at hc
    simp only [hprod] at hp
    simp only [hcons] at hc
    obtain ⟨rfl, hroom⟩ := hp
    obtain ⟨rfl, hunread⟩ := hc
    have hchn : ch ≤ (accepted h).length := hring.ch_le
    have hctp : ct ≤ (popped h).length := hring.ct_le
    exact (slotIndex_ne hN hk _ _ (by omega) (by omega)).symm

/-- A ring of two slots that fills up, refuses a third item and hands out the first. -/
theorem spscRing_refines_fifo_two_slots :
    ∃ s h, run (recorded ringStep) (RingState.init (fun _ : Fin 2 => 0), [])
        [.tryPush 7, .producer, .producer, .producer, .tryPush 8, .producer, .producer, .producer,
          .tryPop, .consumer, .tryPush 9, .producer, .producer, .consumer, .consumer, .consumer] =
        some (s, h) ∧
      h = [.pushOk 7, .pushOk 8, .pushFull 9, .popOk 7] ∧ popped h <+: accepted h := by
  have hev : ((run (recorded ringStep) (RingState.init (fun _ : Fin 2 => 0), [])
      [.tryPush 7, .producer, .producer, .producer, .tryPush 8, .producer, .producer, .producer,
        .tryPop, .consumer, .tryPush 9, .producer, .producer, .consumer, .consumer,
        .consumer]).map Prod.snd) = some [.pushOk 7, .pushOk 8, .pushFull 9, .popOk 7] := by
    decide
  obtain ⟨⟨s, h⟩, hrun, hh⟩ := Option.map_eq_some_iff.mp hev
  exact ⟨s, h, hrun, hh, (spscRing_refines_fifo ℕ 2 1 rfl (by decide) _ _ s h hrun).2.1⟩

end MmEngine.Analysis
