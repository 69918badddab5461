import MmEngine.Interface.PersisterRules
import MmEngine.Lib.Counter64

/-!
# The stored history across runs

The store outlives the process, the counters of its keys do not: every process numbers its
snapshots and its fills from zero (src/storage/lmdb_persister.hpp:85) and `mdb_put` overwrites.
So the history is append-only exactly when no number is used with two different records: a
snapshot of the same symbol, or a fill.
-/

set_option autoImplicit false

namespace MmEngine.Analysis

open MmEngine.Model MmEngine.Lib MmEngine.Interface

/-- What a process committed. -/
abbrev Committed := List (Put Stored.BookSnapshot Stored.ExecEvent)

/-- The commits of some interleaving of the threads of a process, from its start. -/
def IsProcess (ps : Committed) : Prop :=
  ∃ acts p, run (recorded Process.step) ({}, []) acts = some (p, ps)

section History

variable (fill : ℕ → UInt8) (runs : List Committed)

/-- Every record a process committed is in the store, with its bytes, after that process and
after every later one. -/
def AppendOnly : Prop :=
  ∀ i j ps, runs[i]? = some ps → i ≤ j → j < runs.length → ∀ p ∈ ps,
    storeAfter fill (runs.take (j + 1)) (p.entry fill).1 = some (p.entry fill).2

/-- A number is used with two fills, or two snapshots of one symbol, only when these have the
same bytes. -/
def NumbersNotReused : Prop :=
  ∀ ps ∈ runs, ∀ ps' ∈ runs, ∀ i j, i % 2 ^ 64 = j % 2 ^ 64 →
    (∀ e e', (putTrades ps)[i]? = some e → (putTrades ps')[j]? = some e' →
      (Stored.Record.exec e).bytes fill = (Stored.Record.exec e').bytes fill) ∧
    (∀ s s', (putSnaps ps)[i]? = some s → (putSnaps ps')[j]? = some s' → s.symbolId = s'.symbolId →
      (Stored.Record.snapshot s).bytes fill = (Stored.Record.snapshot s').bytes fill)

/-- INTERNAL: the store after several processes is the store after all their puts. -/
theorem storeAfter_eq : storeAfter fill runs = putAll (fun _ => none) (runs.flatten.map (Put.entry fill)) := by
  unfold storeAfter
  induction runs using List.reverseRecOn with
  | nil => rfl
  | append_singleton runs ps ih =>
    rw [List.foldl_append, ih, List.flatten_append, List.map_append, putAll_append]
    simp

/-- The puts of a list agree wherever they share a key. -/
def KeysAgree (ps : Committed) : Prop :=
  ∀ p ∈ ps, ∀ q ∈ ps, (p.entry fill).1 = (q.entry fill).1 → (p.entry fill).2 = (q.entry fill).2

/-- INTERNAL: everything put is in the store exactly when the puts agree on shared keys. -/
theorem forall_stored_iff : (∀ p ∈ runs.flatten, storeAfter fill runs (p.entry fill).1 =
    some (p.entry fill).2) ↔ KeysAgree fill runs.flatten := by
  have hiff := forall_kept_iff (fun _ => none) (runs.flatten.map (Put.entry fill))
  rw [storeAfter_eq]
  constructor
  · intro h p hp q hq
    exact hiff.mp (List.forall_mem_map.mpr h) _ (List.mem_map_of_mem hp) _ (List.mem_map_of_mem hq)
  · intro h p hp
    apply hiff.mpr _ _ (List.mem_map_of_mem hp)
    intro x hx y hy
    obtain ⟨a, ha, rfl⟩ := List.mem_map.mp hx
    obtain ⟨b, hb, rfl⟩ := List.mem_map.mp hy
    exact h a ha b hb

/-- INTERNAL: **append-only means that the puts agree on shared keys.** -/
theorem appendOnly_iff_keysAgree : AppendOnly fill runs ↔ KeysAgree fill runs.flatten := by
  constructor
  · intro h
    rw [← forall_stored_iff]
    intro p hp
    obtain ⟨ps, hps, hp⟩ := List.mem_flatten.mp hp
    obtain ⟨i, hi, rfl⟩ := List.getElem_of_mem hps
    have hlast := h i (runs.length - 1) runs[i] (List.getElem?_eq_getElem hi) (by omega) (by omega) p hp
    rw [Nat.sub_add_cancel (by omega), List.take_length] at hlast
    exact hlast
  · intro h i j ps hps hij hj p hp
    -- the puts up to a process are among all the puts
    have hsub : ∀ q ∈ (runs.take (j + 1)).flatten, q ∈ runs.flatten := by
      intro q hq
      obtain ⟨qs, hqs, hq⟩ := List.mem_flatten.mp hq
      exact List.mem_flatten.mpr ⟨qs, List.mem_of_mem_take hqs, hq⟩
    apply (forall_stored_iff fill (runs.take (j + 1))).mpr
    · intro q hq r hr
      exact h q (hsub q hq) r (hsub r hr)
    · apply List.mem_flatten.mpr
      refine ⟨ps, ?_, hp⟩
      obtain ⟨hi, rfl⟩ := List.getElem?_eq_some_iff.mp hps
      rw [List.mem_take_iff_getElem]
      exact ⟨i, by omega, rfl⟩

variable {fill runs}

/-- INTERNAL: a put of a process is the record at some position, under the number of that
position. -/
theorem put_position {ps : Committed} (hps : IsProcess ps) {p : Put Stored.BookSnapshot Stored.ExecEvent}
    (hp : p ∈ ps) :
    (∃ i s, p = .snap (UInt64.ofNat i) s ∧ (putSnaps ps)[i]? = some s) ∨
      (∃ i e, p = .trade (UInt64.ofNat i) e ∧ (putTrades ps)[i]? = some e) := by
  obtain ⟨acts, q, hrun⟩ := hps
  obtain ⟨hsnaps, htrades⟩ := committed_inSequence hrun
  cases p with
  | snap n s =>
    left
    obtain ⟨i, hi⟩ := List.mem_iff_getElem?.mp (mem_snapNums.mpr hp)
    have hn : n = UInt64.ofNat i := hsnaps i _ hi
    refine ⟨i, s, by rw [hn], ?_⟩
    rw [← map_snd_snapNums, List.getElem?_map, hi]
    rfl
  | trade n e =>
    right
    obtain ⟨i, hi⟩ := List.mem_iff_getElem?.mp (mem_tradeNums.mpr hp)
    have hn : n = UInt64.ofNat i := htrades i _ hi
    refine ⟨i, e, by rw [hn], ?_⟩
    rw [← map_snd_tradeNums, List.getElem?_map, hi]
    rfl

theorem mem_of_putTrades {ps : Committed} (hps : IsProcess ps) {i : ℕ} {e : Stored.ExecEvent}
    (he : (putTrades ps)[i]? = some e) : .trade (UInt64.ofNat i) e ∈ ps := by
  obtain ⟨acts, q, hrun⟩ := hps
  rw [← map_snd_tradeNums] at he
  exact mem_tradeNums.mp ((committed_inSequence hrun).2.mem_of_position he)

/-- INTERNAL: the snapshot at a position was put under the number of that position. -/
theorem mem_of_putSnaps {ps : Committed} (hps : IsProcess ps) {i : ℕ} {s : Stored.BookSnapshot}
    (hs : (putSnaps ps)[i]? = some s) : .snap (UInt64.ofNat i) s ∈ ps := by
  obtain ⟨acts, q, hrun⟩ := hps
  rw [← map_snd_snapNums] at hs
  exact mem_snapNums.mp ((committed_inSequence hrun).1.mem_of_position hs)

/-- INTERNAL: the puts of processes agree on shared keys when no number is reused. -/
theorem keysAgree_of_numbersNotReused (hruns : ∀ ps ∈ runs, IsProcess ps)
    (h : NumbersNotReused fill runs) : KeysAgree fill runs.flatten := by
  intro p hp q hq hkey
  obtain ⟨ps, hps, hp⟩ := List.mem_flatten.mp hp
  obtain ⟨qs, hqs, hq⟩ := List.mem_flatten.mp hq
  obtain ⟨i, s, rfl, hi⟩ | ⟨i, e, rfl, hi⟩ := put_position (hruns ps hps) hp
  · obtain ⟨j, s', rfl, hj⟩ | ⟨j, e', rfl, hj⟩ := put_position (hruns qs hqs) hq
    · obtain ⟨hsym, hnum⟩ := snapKey_inj.mp hkey
      exact (h ps hps qs hqs i j (ofNat_eq_iff_mod.mp hnum)).2 s s' hi hj hsym
    · exact absurd hkey.symm (tradeKey_ne_snapKey _ _ _)
  · obtain ⟨j, s', rfl, hj⟩ | ⟨j, e', rfl, hj⟩ := put_position (hruns qs hqs) hq
    · exact absurd hkey (tradeKey_ne_snapKey _ _ _)
    · exact (h ps hps qs hqs i j (ofNat_eq_iff_mod.mp (tradeKey_inj.mp hkey))).1 e e' hi hj

/-- INTERNAL: no number is reused when the puts of processes agree on shared keys. -/
theorem numbersNotReused_of_keysAgree (hruns : ∀ ps ∈ runs, IsProcess ps)
    (h : KeysAgree fill runs.flatten) : NumbersNotReused fill runs := by
  intro ps hps qs hqs i j hij
  have hnum := ofNat_eq_iff_mod.mpr hij
  constructor
  · intro e e' he he'
    apply h (.trade (UInt64.ofNat i) e) _ (.trade (UInt64.ofNat j) e') _ (tradeKey_inj.mpr hnum)
    · exact List.mem_flatten.mpr ⟨ps, hps, mem_of_putTrades (hruns ps hps) he⟩
    · exact List.mem_flatten.mpr ⟨qs, hqs, mem_of_putTrades (hruns qs hqs) he'⟩
  · intro s s' hs hs' hsym
    apply h (.snap (UInt64.ofNat i) s) _ (.snap (UInt64.ofNat j) s') _ (snapKey_inj.mpr ⟨hsym, hnum⟩)
    · exact List.mem_flatten.mpr ⟨ps, hps, mem_of_putSnaps (hruns ps hps) hs⟩
    · exact List.mem_flatten.mpr ⟨qs, hqs, mem_of_putSnaps (hruns qs hqs) hs'⟩

end History

/-- **The stored history is append-only exactly when no number is reused.**  For every sequence
of processes on one path and every interleaving of their threads.
SRCLINE: src/storage/lmdb_persister.hpp:47-87 -/
theorem history_append_only_iff (fill : ℕ → UInt8) (runs : List Committed)
    (hruns : ∀ ps ∈ runs, IsProcess ps) : AppendOnly fill runs ↔ NumbersNotReused fill runs := by
  rw [appendOnly_iff_keysAgree]
  exact ⟨numbersNotReused_of_keysAgree hruns, keysAgree_of_numbersNotReused hruns⟩

/-- A fill of an order with the given id. -/
def fillOf (id : UInt64) : Stored.ExecEvent :=
  { tRecvNs := 0, clOrdId := id, kind := .filled, side := .buy, symbolId := 0,
    lastPx := ⟨0x3FF0000000000000⟩, lastQty := ⟨0x3FF0000000000000⟩, leavesQty := ⟨0⟩,
    orderId := fun _ => 0 }

theorem isProcess_fillOf (id : UInt64) : IsProcess [.trade 0 (fillOf id)] :=
  ⟨[.pushTrade (fillOf id), .persist, .persist, .persist, .persist, .persist], _, rfl⟩

/-- One run with one fill keeps it. -/
theorem history_append_only_iff_one_run :
    AppendOnly (fun _ => 0) [[.trade 0 (fillOf 1000)]] ↔
      NumbersNotReused (fun _ => 0) [[.trade 0 (fillOf 1000)]] :=
  history_append_only_iff _ _ (by
    intro ps hps
    rw [List.mem_singleton.mp hps]
    exact isProcess_fillOf 1000)

/-- Two runs with a fill each: the second overwrites the first. -/
theorem second_run_overwrites_first :
    IsProcess [.trade 0 (fillOf 1000)] ∧ IsProcess [.trade 0 (fillOf 2000)] ∧
      storeAfter (fun _ => 0) [[.trade 0 (fillOf 1000)], [.trade 0 (fillOf 2000)]] (tradeKey 0) =
        some ((Stored.Record.exec (fillOf 2000)).bytes fun _ => 0) ∧
      ¬ AppendOnly (fun _ => 0) [[.trade 0 (fillOf 1000)], [.trade 0 (fillOf 2000)]] := by
  have hstore : storeAfter (fun _ => 0) [[.trade 0 (fillOf 1000)], [.trade 0 (fillOf 2000)]] (tradeKey 0) =
      some ((Stored.Record.exec (fillOf 2000)).bytes fun _ => 0) := by
    decide +kernel
  refine ⟨isProcess_fillOf 1000, isProcess_fillOf 2000, hstore, ?_⟩
  intro h
  have hfirst := h 0 1 _ rfl (by decide) (by decide) (.trade 0 (fillOf 1000)) List.mem_cons_self
  have hbytes : (Stored.Record.exec (fillOf 2000)).bytes (fun _ => 0) =
      (Stored.Record.exec (fillOf 1000)).bytes fun _ => 0 := Option.some.inj (hstore.symm.trans hfirst)
  exact absurd hbytes (by decide +kernel)

end MmEngine.Analysis
