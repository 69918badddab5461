import MmEngine.Interface.KeyRules
import MmEngine.Analysis.TradeHistory

/-!
# Reading the store in key order

A cursor returns the entries of the store in the order of their keys, and the numbers in the
keys are the positions of the records in the run (`committed_inSequence`).  Below `10 ^ 10`
records the keys of one kind are in the order of these numbers, so what the cursor returns of
the fills, and of the snapshots of any one symbol, is what the rings were given, in the order of
the pushes (`store_keys_in_order`).
-/

set_option autoImplicit false

namespace MmEngine.Analysis

open MmEngine.Model MmEngine.Lib MmEngine.Interface

/-! ## The order of the pushes -/

/-- The record an act pushes, when its ring takes it. -/
def taken (p : Process) : ProcessAct → List (Stored.BookSnapshot ⊕ Stored.ExecEvent)
  | .pushSnapshot s => if (p.db.pushSnapshot s).2 then [.inl s] else []
  | .pushTrade e => if (p.db.pushTrade e).2 then [.inr e] else []
  | .persist | .stop => []

/-- The records the rings take in the run, in order. -/
def takenAlong : Process → List ProcessAct → List (Stored.BookSnapshot ⊕ Stored.ExecEvent)
  | _, [] => []
  | p, a :: as =>
    taken p a ++ match p.step a with
      | some (q, _) => takenAlong q as
      | none => []

/-- The snapshots among the records, in order. -/
def snapsOf (xs : List (Stored.BookSnapshot ⊕ Stored.ExecEvent)) : List Stored.BookSnapshot :=
  xs.filterMap Sum.getLeft?

/-- The fills among the records, in order. -/
def tradesOf (xs : List (Stored.BookSnapshot ⊕ Stored.ExecEvent)) : List Stored.ExecEvent :=
  xs.filterMap Sum.getRight?

theorem snapsOf_append (xs ys : List (Stored.BookSnapshot ⊕ Stored.ExecEvent)) :
    snapsOf (xs ++ ys) = snapsOf xs ++ snapsOf ys := List.filterMap_append

theorem tradesOf_append (xs ys : List (Stored.BookSnapshot ⊕ Stored.ExecEvent)) :
    tradesOf (xs ++ ys) = tradesOf xs ++ tradesOf ys := List.filterMap_append

/-- INTERNAL: a step of a process puts, holds and takes its records in order. -/
theorem process_step_order {p q : Process} {a : ProcessAct} {ps : Committed} (h : p.step a = some (q, ps)) :
    putSnaps ps ++ (putSnaps q.db.txn ++ q.db.snapRing) =
        (putSnaps p.db.txn ++ p.db.snapRing) ++ snapsOf (taken p a) ∧
      putTrades ps ++ (putTrades q.db.txn ++ q.db.tradeRing) =
        (putTrades p.db.txn ++ p.db.tradeRing) ++ tradesOf (taken p a) := by
  cases a with
  | pushSnapshot s =>
    unfold Process.step LmdbPersister.pushSnapshot at h
    unfold taken LmdbPersister.pushSnapshot
    by_cases hroom : p.db.snapRing.length < snapCap
    · simp only [offer_of_lt s hroom] at h ⊢
      obtain ⟨rfl, rfl⟩ := Prod.mk.inj (Option.some.inj h)
      simp [snapsOf, tradesOf, putSnaps, putTrades]
    · simp only [offer_of_not_lt s hroom] at h ⊢
      obtain ⟨rfl, rfl⟩ := Prod.mk.inj (Option.some.inj h)
      simp [snapsOf, tradesOf, putSnaps, putTrades]
  | pushTrade e =>
    unfold Process.step LmdbPersister.pushTrade at h
    unfold taken LmdbPersister.pushTrade
    by_cases hroom : p.db.tradeRing.length < tradeCap
    · simp only [offer_of_lt e hroom] at h ⊢
      obtain ⟨rfl, rfl⟩ := Prod.mk.inj (Option.some.inj h)
      simp [snapsOf, tradesOf, putSnaps, putTrades]
    · simp only [offer_of_not_lt e hroom] at h ⊢
      obtain ⟨rfl, rfl⟩ := Prod.mk.inj (Option.some.inj h)
      simp [snapsOf, tradesOf, putSnaps, putTrades]
  | persist =>
    obtain ⟨⟨db, qs⟩, hdb, heq⟩ := Option.map_eq_some_iff.mp h
    obtain ⟨rfl, rfl⟩ := Prod.mk.inj heq
    rw [show taken p .persist = [] from rfl]
    simp only [snapsOf, tradesOf, List.filterMap_nil, List.append_nil]
    exact ⟨step_snaps hdb, step_trades hdb⟩
  | stop =>
    obtain ⟨rfl, rfl⟩ := Prod.mk.inj (Option.some.inj h)
    simp [taken, snapsOf, tradesOf, putSnaps, putTrades]

/-- INTERNAL: **in a whole run**, what is put, held and still in a ring is what was there and what
was taken, in order. -/
theorem process_run_order (acts : List ProcessAct) :
    ∀ {p q : Process} {ps : Committed}, run (recorded Process.step) (p, []) acts = some (q, ps) →
      putSnaps ps ++ (putSnaps q.db.txn ++ q.db.snapRing) =
          (putSnaps p.db.txn ++ p.db.snapRing) ++ snapsOf (takenAlong p acts) ∧
        putTrades ps ++ (putTrades q.db.txn ++ q.db.tradeRing) =
          (putTrades p.db.txn ++ p.db.tradeRing) ++ tradesOf (takenAlong p acts) := by
  induction acts with
  | nil =>
    intro p q ps h
    obtain ⟨rfl, rfl⟩ := Prod.mk.inj (Option.some.inj h)
    simp [takenAlong, snapsOf, tradesOf, putSnaps, putTrades]
  | cons a acts ih =>
    intro p q ps h
    obtain ⟨r, qs, rs, hstep, hrun, rfl⟩ := run_recorded_cons.mp h
    obtain ⟨hsnaps, htrades⟩ := process_step_order hstep
    obtain ⟨hsnaps', htrades'⟩ := ih hrun
    have htaken : takenAlong p (a :: acts) = taken p a ++ takenAlong r acts := by
      rw [takenAlong, hstep]
    rw [htaken, snapsOf_append, tradesOf_append, putSnaps_append, putTrades_append]
    exact ⟨fifo_stretches hsnaps hsnaps', fifo_stretches htrades htrades'⟩

/-! ## The entries of a run -/

/-- The fills of a run as the store holds them. -/
def tradeEntries (fill : ℕ → UInt8) (ps : Committed) : List (Text × List UInt8) :=
  (tradeNums ps).map fun x => (tradeKey x.1, (Stored.Record.exec x.2).bytes fill)

/-- The snapshots of a symbol in a run as the store holds them. -/
def snapEntries (fill : ℕ → UInt8) (sym : UInt32) (ps : Committed) : List (Text × List UInt8) :=
  ((snapNums ps).filter fun x => x.2.symbolId = sym).map fun x =>
    (snapKey sym x.1, (Stored.Record.snapshot x.2).bytes fill)

theorem keyBefore_asymm (x y : Text × List UInt8) (h : keyBefore x.1 y.1) : ¬ keyBefore y.1 x.1 :=
  fun h' => lt_asymm h h'

/-- INTERNAL: the numbers of a sequence below `10 ^ 10` increase. -/
theorem increasing_of_inSequence {α : Type} {l : List (UInt64 × α)} (hl : InSequence l) (hlen : l.length < 10 ^ 10) :
    l.Pairwise fun x y => x.1.toNat < 10 ^ 10 ∧ y.1.toNat < 10 ^ 10 ∧ x.1 < y.1 := by
  rw [List.pairwise_iff_getElem]
  intro i j hi hj hij
  have hx := hl i _ (List.getElem?_eq_getElem hi)
  have hy := hl j _ (List.getElem?_eq_getElem hj)
  have hfit : ∀ k : ℕ, k < l.length → (UInt64.ofNat k).toNat = k := by
    intro k hk
    rw [UInt64.toNat_ofNat']
    exact Nat.mod_eq_of_lt (by omega)
  rw [hx, hy, UInt64.lt_iff_toNat_lt, hfit i hi, hfit j hj]
  exact ⟨by omega, by omega, hij⟩

section Entries

variable {fill : ℕ → UInt8} {ps : Committed}

theorem length_tradeNums_le (ps : Committed) : (tradeNums ps).length ≤ ps.length := List.length_filterMap_le _ _

theorem length_snapNums_le (ps : Committed) : (snapNums ps).length ≤ ps.length := List.length_filterMap_le _ _

theorem tradeEntries_sorted (hseq : InSequence (tradeNums ps)) (hlen : ps.length < 10 ^ 10) :
    (tradeEntries fill ps).Pairwise fun x y => keyBefore x.1 y.1 := by
  unfold tradeEntries
  rw [List.pairwise_map]
  apply (increasing_of_inSequence hseq (lt_of_le_of_lt (length_tradeNums_le ps) hlen)).imp
  rintro x y ⟨hx, hy, hlt⟩
  exact (tradeKey_before_iff hx hy).mpr hlt

theorem snapEntries_sorted (hseq : InSequence (snapNums ps)) (hlen : ps.length < 10 ^ 10) (sym : UInt32) :
    (snapEntries fill sym ps).Pairwise fun x y => keyBefore x.1 y.1 := by
  unfold snapEntries
  rw [List.pairwise_map]
  apply ((increasing_of_inSequence hseq (lt_of_le_of_lt (length_snapNums_le ps) hlen)).filter _).imp
  rintro x y ⟨hx, hy, hlt⟩
  exact (snapKey_before_iff sym hx hy).mpr hlt

theorem mem_tradeEntries {k : Text} {v : List UInt8} :
    (k, v) ∈ tradeEntries fill ps ↔ ∃ n e, .trade n e ∈ ps ∧ Put.entry fill (.trade n e) = (k, v) := by
  unfold tradeEntries
  rw [List.mem_map]
  constructor
  · rintro ⟨⟨n, e⟩, hmem, heq⟩
    exact ⟨n, e, mem_tradeNums.mp hmem, heq⟩
  · rintro ⟨n, e, hmem, heq⟩
    exact ⟨(n, e), mem_tradeNums.mpr hmem, heq⟩

theorem mem_snapEntries {sym : UInt32} {k : Text} {v : List UInt8} :
    (k, v) ∈ snapEntries fill sym ps ↔
      ∃ n s, .snap n s ∈ ps ∧ s.symbolId = sym ∧ Put.entry fill (.snap n s) = (k, v) := by
  unfold snapEntries
  rw [List.mem_map]
  constructor
  · rintro ⟨⟨n, s⟩, hmem, heq⟩
    rw [List.mem_filter, decide_eq_true_eq] at hmem
    obtain ⟨hmem, rfl⟩ := hmem
    exact ⟨n, s, mem_snapNums.mp hmem, rfl, heq⟩
  · rintro ⟨n, s, hmem, rfl, heq⟩
    refine ⟨(n, s), List.mem_filter.mpr ⟨mem_snapNums.mpr hmem, by simp⟩, heq⟩

theorem map_snd_tradeEntries :
    (tradeEntries fill ps).map Prod.snd = (putTrades ps).map fun e => (Stored.Record.exec e).bytes fill := by
  unfold tradeEntries
  rw [← map_snd_tradeNums, List.map_map, List.map_map]
  rfl

theorem map_snd_snapEntries (sym : UInt32) :
    (snapEntries fill sym ps).map Prod.snd =
      ((putSnaps ps).filter fun s => s.symbolId = sym).map fun s => (Stored.Record.snapshot s).bytes fill := by
  unfold snapEntries
  rw [← map_snd_snapNums, List.filter_map, List.map_map, List.map_map]
  rfl

end Entries

/-! ## Scans -/

section Scans

variable {fill : ℕ → UInt8} {ps : Committed} {db : Store} {scan l : List (Text × List UInt8)}

/-- INTERNAL: a scan, restricted to some keys, is the sorted list of their entries. -/
theorem filter_scan (hscan : IsScan db scan) (hl : l.Pairwise fun x y => keyBefore x.1 y.1) {P : Text → Bool}
    (hmem : ∀ k v, (k, v) ∈ l ↔ P k = true ∧ db k = some v) : (scan.filter fun x => P x.1) = l := by
  apply eq_of_pairwise_of_mem keyBefore_asymm (hscan.sorted.filter _) hl
  rintro ⟨k, v⟩
  rw [List.mem_filter, hscan.entries, hmem]
  exact and_comm

/-- The values under the keys that begin with a text, in key order. -/
def rowsWith (start : Text) (scan : List (Text × List UInt8)) : List (List UInt8) :=
  (scan.filter fun x => start.isPrefixOf x.1).map Prod.snd

/-- The values under the given keys, in key order. -/
def rowsOf (keys : List Text) (scan : List (Text × List UInt8)) : List (List UInt8) :=
  (scan.filter fun x => keys.contains x.1).map Prod.snd

/-- What the keys of a symbol's snapshots begin with. -/
def snapStart (sym : UInt32) : Text := 'o' :: 'b' :: '|' :: Nat.toDigits 10 sym.toNat ++ ['|']

/-- INTERNAL: the symbol is read off the beginning of a snapshot's key. -/
theorem snapStart_isPrefixOf {sym sym' : UInt32} {n : UInt64} :
    (snapStart sym).isPrefixOf (snapKey sym' n) = true ↔ sym' = sym := by
  rw [List.isPrefixOf_iff_prefix]
  unfold snapStart snapKey
  constructor
  · rintro ⟨rest, h⟩
    simp only [List.cons_append, List.cons.injEq, true_and, List.append_assoc, List.nil_append] at h
    have hdigits : Nat.toDigits 10 sym'.toNat = Nat.toDigits 10 sym.toNat := by
      rw [← takeWhile_digits sym'.toNat (padDigits n), ← h, takeWhile_digits]
    apply UInt32.toNat_inj.mp
    rw [← Nat.ofDigitChars_ten_toDigits (n := sym'.toNat), hdigits, Nat.ofDigitChars_ten_toDigits]
  · rintro rfl
    exact ⟨padDigits n, by simp⟩

/-- INTERNAL: fewer than `2 ^ 64` records of a process agree on shared keys. -/
theorem keysAgree_of_short (hps : IsProcess ps) (hlen : ps.length < 2 ^ 64) : KeysAgree fill ps := by
  have hreuse : NumbersNotReused fill [ps] := by
    intro qs hqs rs hrs i j hij
    obtain rfl := List.mem_singleton.mp hqs
    obtain rfl := List.mem_singleton.mp hrs
    have hbound : ∀ {α : Type} {l : List α} {k : ℕ} {x : α}, l.length ≤ rs.length → l[k]? = some x →
        k % 2 ^ 64 = k := by
      intro α l k x hle hk
      have := (List.getElem?_eq_some_iff.mp hk).1
      exact Nat.mod_eq_of_lt (by omega)
    constructor
    · intro e e' he he'
      have hle : (putTrades rs).length ≤ rs.length := List.length_filterMap_le _ _
      rw [hbound hle he, hbound hle he'] at hij
      rw [hij, he'] at he
      rw [Option.some.inj he]
    · intro s s' hs hs' _
      have hle : (putSnaps rs).length ≤ rs.length := List.length_filterMap_le _ _
      rw [hbound hle hs, hbound hle hs'] at hij
      rw [hij, hs'] at hs
      rw [Option.some.inj hs]
  have hagree := keysAgree_of_numbersNotReused (fun qs hqs => List.mem_singleton.mp hqs ▸ hps) hreuse
  simpa using hagree

/-- INTERNAL: the store holds every record of a short process. -/
theorem stored_of_short (hps : IsProcess ps) (hlen : ps.length < 2 ^ 64) (db : Store)
    {p : Put Stored.BookSnapshot Stored.ExecEvent} (hp : p ∈ ps) {k : Text} {v : List UInt8}
    (hentry : p.entry fill = (k, v)) : putAll db (ps.map (Put.entry fill)) k = some v := by
  have hagree : KeysAgree fill ps := keysAgree_of_short hps hlen
  have hkept : putAll db (ps.map (Put.entry fill)) (p.entry fill).1 = some (p.entry fill).2 := by
    apply (forall_kept_iff db (ps.map (Put.entry fill))).mpr _ _ (List.mem_map_of_mem hp)
    intro x hx y hy
    obtain ⟨a, ha, rfl⟩ := List.mem_map.mp hx
    obtain ⟨b, hb, rfl⟩ := List.mem_map.mp hy
    exact hagree a ha b hb
  rw [hentry] at hkept
  exact hkept

/-- INTERNAL: a scan, restricted to the keys of sorted entries that the store holds. -/
theorem rowsOf_entries (hscan : IsScan db scan) (hl : l.Pairwise fun x y => keyBefore x.1 y.1)
    (hin : ∀ k v, (k, v) ∈ l → db k = some v) : rowsOf (l.map Prod.fst) scan = l.map Prod.snd := by
  unfold rowsOf
  rw [filter_scan hscan hl]
  intro k v
  rw [List.contains_iff_mem, List.mem_map]
  constructor
  · exact fun hmem => ⟨⟨(k, v), hmem, rfl⟩, hin k v hmem⟩
  · rintro ⟨⟨⟨k', v'⟩, hmem, rfl⟩, hv⟩
    obtain rfl := Option.some.inj ((hin k' v' hmem).symm.trans hv)
    exact hmem

end Scans

/-- The fills and the snapshots of each symbol that a run committed: a cursor returns them in the
order in which their rings took them, from any store under the keys of the run, and from a store
that was empty under all keys of the kind. -/
structure ScansInOrder (fill : ℕ → UInt8) (acts : List ProcessAct) (ps : Committed) : Prop where
  taken : putTrades ps <+: tradesOf (takenAlong {} acts) ∧ putSnaps ps <+: snapsOf (takenAlong {} acts)
  run : ∀ db scan, IsScan (putAll db (ps.map (Put.entry fill))) scan →
    rowsOf ((tradeEntries fill ps).map Prod.fst) scan =
        (putTrades ps).map (fun e => (Stored.Record.exec e).bytes fill) ∧
      ∀ sym, rowsOf ((snapEntries fill sym ps).map Prod.fst) scan =
        ((putSnaps ps).filter fun s => s.symbolId = sym).map fun s => (Stored.Record.snapshot s).bytes fill
  fresh : ∀ scan, IsScan (storeAfter fill [ps]) scan →
    rowsWith ['t', 'r', '|'] scan = (putTrades ps).map (fun e => (Stored.Record.exec e).bytes fill) ∧
      ∀ sym, rowsWith (snapStart sym) scan =
        ((putSnaps ps).filter fun s => s.symbolId = sym).map fun s => (Stored.Record.snapshot s).bytes fill

section Runs

variable {fill : ℕ → UInt8} {acts : List ProcessAct} {p : Process} {ps : Committed}
  (hrun : run (recorded Process.step) ({}, []) acts = some (p, ps)) (hlen : ps.length < 10 ^ 10)

include hrun

/-- INTERNAL: what is committed was taken, in order and without a gap. -/
theorem committed_prefix_taken :
    putTrades ps <+: tradesOf (takenAlong {} acts) ∧ putSnaps ps <+: snapsOf (takenAlong {} acts) := by
  obtain ⟨hsnaps, htrades⟩ := process_run_order acts hrun
  exact ⟨⟨_, htrades⟩, ⟨_, hsnaps⟩⟩

include hlen

/-- INTERNAL: the entries of the run, in any store. -/
theorem rowsOf_run (db : Store) (scan : List (Text × List UInt8))
    (hscan : IsScan (putAll db (ps.map (Put.entry fill))) scan) :
    rowsOf ((tradeEntries fill ps).map Prod.fst) scan =
        (putTrades ps).map (fun e => (Stored.Record.exec e).bytes fill) ∧
      ∀ sym, rowsOf ((snapEntries fill sym ps).map Prod.fst) scan =
        ((putSnaps ps).filter fun s => s.symbolId = sym).map fun s => (Stored.Record.snapshot s).bytes fill := by
  obtain ⟨hsnaps, htrades⟩ := committed_inSequence hrun
  have hshort : ps.length < 2 ^ 64 := by omega
  have hps : IsProcess ps := ⟨acts, p, hrun⟩
  constructor
  · rw [rowsOf_entries hscan (tradeEntries_sorted htrades hlen), map_snd_tradeEntries]
    intro k v hmem
    obtain ⟨n, e, hput, heq⟩ := mem_tradeEntries.mp hmem
    exact stored_of_short hps hshort db hput heq
  · intro sym
    rw [rowsOf_entries hscan (snapEntries_sorted hsnaps hlen sym), map_snd_snapEntries]
    intro k v hmem
    obtain ⟨n, s, hput, -, heq⟩ := mem_snapEntries.mp hmem
    exact stored_of_short hps hshort db hput heq

/-- INTERNAL: all entries of a kind, in a store that was empty. -/
theorem rowsWith_run (scan : List (Text × List UInt8)) (hscan : IsScan (storeAfter fill [ps]) scan) :
    rowsWith ['t', 'r', '|'] scan = (putTrades ps).map (fun e => (Stored.Record.exec e).bytes fill) ∧
      ∀ sym, rowsWith (snapStart sym) scan =
        ((putSnaps ps).filter fun s => s.symbolId = sym).map fun s => (Stored.Record.snapshot s).bytes fill := by
  obtain ⟨hsnaps, htrades⟩ := committed_inSequence hrun
  have hshort : ps.length < 2 ^ 64 := by omega
  have hps : IsProcess ps := ⟨acts, p, hrun⟩
  -- what the store holds are the entries of the run
  have hentry : ∀ {k v}, storeAfter fill [ps] k = some v → ∃ x ∈ ps, Put.entry fill x = (k, v) := by
    intro k v hv
    exact List.mem_map.mp (mem_of_putAll hv)
  unfold rowsWith
  constructor
  · rw [← map_snd_tradeEntries, filter_scan hscan (tradeEntries_sorted htrades hlen)]
    intro k v
    rw [mem_tradeEntries]
    constructor
    · rintro ⟨n, e, hput, heq⟩
      refine ⟨?_, stored_of_short hps hshort _ hput heq⟩
      rw [← (Prod.mk.inj heq).1]
      rfl
    · rintro ⟨hstart, hv⟩
      obtain ⟨x, hx, heq⟩ := hentry hv
      cases x with
      | trade n e => exact ⟨n, e, hx, heq⟩
      | snap n s =>
        rw [← (Prod.mk.inj heq).1] at hstart
        cases hstart
  · intro sym
    rw [← map_snd_snapEntries, filter_scan hscan (snapEntries_sorted hsnaps hlen sym)]
    intro k v
    rw [mem_snapEntries]
    constructor
    · rintro ⟨n, s, hput, hsym, heq⟩
      refine ⟨?_, stored_of_short hps hshort _ hput heq⟩
      rw [← (Prod.mk.inj heq).1]
      exact snapStart_isPrefixOf.mpr hsym
    · rintro ⟨hstart, hv⟩
      obtain ⟨x, hx, heq⟩ := hentry hv
      rw [← (Prod.mk.inj heq).1] at hstart
      cases x with
      | trade n e => cases hstart
      | snap n s => exact ⟨n, s, hx, snapStart_isPrefixOf.mp hstart, heq⟩

end Runs

/-- **The keys of the store.**  No key is cut by its buffer, the keys determine kind, symbol and
number, below `10 ^ 10` the keys of the fills and of each symbol's snapshots are in the order of
their numbers, and a cursor after a run of fewer than `10 ^ 10` records returns the fills and each
symbol's snapshots in the order of the pushes.
SRCLINE: src/storage/lmdb_persister.hpp:47-81, scripts/dump_lmdb.py:50-74 -/
theorem store_keys_in_order (fill : ℕ → UInt8) (acts : List ProcessAct) (p : Process) (ps : Committed)
    (hrun : run (recorded Process.step) ({}, []) acts = some (p, ps)) (hlen : ps.length < 10 ^ 10) :
    (∀ sym n, inBuffer 40 (snapKey sym n) = snapKey sym n) ∧
      (∀ n, inBuffer 32 (tradeKey n) = tradeKey n) ∧
      Function.Injective KeyParts.key ∧
      (∀ n m : UInt64, n.toNat < 10 ^ 10 → m.toNat < 10 ^ 10 →
        (keyBefore (tradeKey n) (tradeKey m) ↔ n < m) ∧
          ∀ sym, keyBefore (snapKey sym n) (snapKey sym m) ↔ n < m) ∧
      ScansInOrder fill acts ps :=
  ⟨snapKey_inBuffer, tradeKey_inBuffer, key_injective,
    fun _ _ hn hm => ⟨tradeKey_before_iff hn hm, fun sym => snapKey_before_iff sym hn hm⟩,
    ⟨committed_prefix_taken hrun, rowsOf_run hrun hlen, rowsWith_run hrun hlen⟩⟩

/-- Two fills are pushed, put and committed. -/
def twoFills : List ProcessAct :=
  [.pushTrade (fillOf 2000), .pushTrade (fillOf 1000)] ++ List.replicate 6 .persist

/-- The cursor returns them in the order of the pushes. -/
theorem store_keys_in_order_twoFills :
    ∃ scan, IsScan (storeAfter (fun _ => 0) [[.trade 0 (fillOf 2000), .trade 1 (fillOf 1000)]]) scan ∧
      rowsWith ['t', 'r', '|'] scan =
        [(Stored.Record.exec (fillOf 2000)).bytes fun _ => 0, (Stored.Record.exec (fillOf 1000)).bytes fun _ => 0] := by
  have hkeys := store_keys_in_order (fun _ => 0) twoFills _ [.trade 0 (fillOf 2000), .trade 1 (fillOf 1000)] rfl
    (by decide)
  have hps : IsProcess [.trade 0 (fillOf 2000), .trade 1 (fillOf 1000)] := ⟨twoFills, _, rfl⟩
  have hscan : IsScan (storeAfter (fun _ => 0) [[.trade 0 (fillOf 2000), .trade 1 (fillOf 1000)]])
      (tradeEntries (fun _ => 0) [.trade 0 (fillOf 2000), .trade 1 (fillOf 1000)]) := by
    constructor
    · exact tradeEntries_sorted (committed_inSequence hps.choose_spec.choose_spec).2 (by decide)
    · intro k v
      rw [mem_tradeEntries]
      constructor
      · rintro ⟨n, e, hput, heq⟩
        exact stored_of_short hps (by decide) _ hput heq
      · intro hv
        obtain ⟨x, hx, heq⟩ := List.mem_map.mp (mem_of_putAll hv)
        cases x with
        | trade n e => exact ⟨n, e, hx, heq⟩
        | snap n s => simp at hx
  exact ⟨_, hscan, (hkeys.2.2.2.2.fresh _ hscan).1⟩

end MmEngine.Analysis
