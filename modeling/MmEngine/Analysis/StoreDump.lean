import MmEngine.Analysis.DumpRows
import MmEngine.Analysis.StoreScan
import MmEngine.Lib.OrderStatistics

/-!
# The dump after several runs

The engine starts its numbers at zero in every run, and the store outlives the runs.  So a run lies
over those before it: its fills cover the first of theirs, and its snapshots cover what stood under
the same numbers of the same symbol.  The script prints what is left, the snapshots symbol by symbol
and then the fills, each kind up to the limit, and counts all of it (`dump_after_runs`).
-/

set_option autoImplicit false

namespace MmEngine.Analysis

open MmEngine.Model MmEngine.Lib MmEngine.Interface

/-! ## What is left of the runs -/

/-- The fills that are left, with their numbers. -/
def fillsLeft (runs : List Committed) : List (Stored.ExecEvent × ℕ) := (overlay (runs.map putTrades)).zipIdx

/-- The snapshot of a symbol under a number of a run. -/
def snapOwn (sym : UInt32) (n : ℕ) (ps : Committed) : Option Stored.BookSnapshot :=
  (putSnaps ps)[n]?.filter fun s => s.symbolId = sym

/-- The snapshot of a symbol that is left under a number. -/
def snapLeft (runs : List Committed) (sym : UInt32) (n : ℕ) : Option Stored.BookSnapshot :=
  runs.foldl (fun old ps => (snapOwn sym n ps).or old) none

/-- The snapshots of a symbol that are left, with their numbers. -/
def snapsLeft (runs : List Committed) (sym : UInt32) : List (Stored.BookSnapshot × ℕ) :=
  (List.range runs.flatten.length).filterMap fun n => (snapLeft runs sym n).map fun s => (s, n)

/-- The symbols of the snapshots, in the order of their keys. -/
def symbolsLeft (runs : List Committed) : List UInt32 :=
  ((runs.flatMap putSnaps).map Stored.BookSnapshot.symbolId).dedup.insertionSort fun a b =>
    codes (snapStart a) ≤ codes (snapStart b)

/-- The snapshots that are left, symbol by symbol. -/
def booksLeft (runs : List Committed) : List (Stored.BookSnapshot × ℕ) :=
  (symbolsLeft runs).flatMap (snapsLeft runs)

def bookRecord (x : Stored.BookSnapshot × ℕ) : Stored.Record × ℕ := (.snapshot x.1, x.2)

def fillRecord (x : Stored.ExecEvent × ℕ) : Stored.Record × ℕ := (.exec x.1, x.2)

/-- The records that are left, in the order of their keys. -/
def recordsLeft (runs : List Committed) : List (Stored.Record × ℕ) :=
  (booksLeft runs).map bookRecord ++ (fillsLeft runs).map fillRecord

/-- The entry of a numbered record. -/
def recordEntry (fill : ℕ → UInt8) (x : Stored.Record × ℕ) : Text × List UInt8 :=
  (x.1.key (UInt64.ofNat x.2), x.1.bytes fill)

section Left

variable {fill : ℕ → UInt8} {runs : List Committed}

theorem mem_fillsLeft {e : Stored.ExecEvent} {n : ℕ} :
    (e, n) ∈ fillsLeft runs ↔ runs.foldl (fun old ps => ((putTrades ps)[n]?).or old) none = some e := by
  unfold fillsLeft
  rw [List.mem_zipIdx_iff_getElem?, getElem?_overlay, List.foldl_map]

/-- INTERNAL: a snapshot that is left is one of its symbol, under its number in some run. -/
theorem exists_snapOwn {sym : UInt32} {n : ℕ} {s : Stored.BookSnapshot} (h : snapLeft runs sym n = some s) :
    s.symbolId = sym ∧ ∃ ps ∈ runs, (putSnaps ps)[n]? = some s := by
  obtain ⟨ps, hps, hown⟩ := exists_mem_of_foldl_or h
  obtain ⟨hs, hsym⟩ := Option.filter_eq_some_iff.mp hown
  exact ⟨of_decide_eq_true hsym, ps, hps, hs⟩

theorem length_putSnaps_le (ps : Committed) : (putSnaps ps).length ≤ ps.length := List.length_filterMap_le _ _

theorem length_putTrades_le (ps : Committed) : (putTrades ps).length ≤ ps.length := List.length_filterMap_le _ _

theorem mem_snapsLeft {sym : UInt32} {s : Stored.BookSnapshot} {n : ℕ} :
    (s, n) ∈ snapsLeft runs sym ↔ snapLeft runs sym n = some s := by
  unfold snapsLeft
  rw [List.mem_filterMap]
  constructor
  · rintro ⟨m, -, hm⟩
    obtain ⟨t, ht, heq⟩ := Option.map_eq_some_iff.mp hm
    obtain ⟨rfl, rfl⟩ := Prod.mk.inj heq
    exact ht
  · intro h
    obtain ⟨-, ps, hps, hs⟩ := exists_snapOwn h
    have hn := (List.getElem?_eq_some_iff.mp hs).1
    have hlen : ps.length ≤ runs.flatten.length := (List.sublist_flatten_of_mem hps).length_le
    refine ⟨n, List.mem_range.mpr (hn.trans_le ((length_putSnaps_le ps).trans hlen)), ?_⟩
    rw [h]
    rfl

theorem mem_symbolsLeft {sym : UInt32} :
    sym ∈ symbolsLeft runs ↔ ∃ ps ∈ runs, ∃ s ∈ putSnaps ps, s.symbolId = sym := by
  unfold symbolsLeft
  rw [List.mem_insertionSort, List.mem_dedup, List.mem_map]
  constructor
  · rintro ⟨s, hs, hsym⟩
    obtain ⟨ps, hps, hmem⟩ := List.mem_flatMap.mp hs
    exact ⟨ps, hps, s, hmem, hsym⟩
  · rintro ⟨ps, hps, s, hmem, hsym⟩
    exact ⟨s, List.mem_flatMap.mpr ⟨ps, hps, hmem⟩, hsym⟩

theorem mem_booksLeft {s : Stored.BookSnapshot} {n : ℕ} :
    (s, n) ∈ booksLeft runs ↔ snapLeft runs s.symbolId n = some s := by
  unfold booksLeft
  rw [List.mem_flatMap]
  constructor
  · rintro ⟨sym, -, hmem⟩
    have h := mem_snapsLeft.mp hmem
    obtain ⟨rfl, -⟩ := exists_snapOwn h
    exact h
  · intro h
    obtain ⟨-, ps, hps, hs⟩ := exists_snapOwn h
    exact ⟨s.symbolId, mem_symbolsLeft.mpr ⟨ps, hps, s, List.mem_of_getElem? hs, rfl⟩, mem_snapsLeft.mpr h⟩

end Left

/-! ## The store of the runs -/

/-- The runs of processes that number their records with ten digits. -/
def ShortRuns (runs : List Committed) : Prop := ∀ ps ∈ runs, IsProcess ps ∧ ps.length < 10 ^ 10

theorem ofNat_inj_of_lt {n m : ℕ} (hn : n < 10 ^ 10) (hm : m < 10 ^ 10) :
    UInt64.ofNat n = UInt64.ofNat m ↔ n = m := by
  rw [ofNat_eq_iff_mod, Nat.mod_eq_of_lt (by omega), Nat.mod_eq_of_lt (by omega)]

theorem toNat_ofNat_lt {n : ℕ} (hn : n < 10 ^ 10) : (UInt64.ofNat n).toNat < 10 ^ 10 := by
  rw [UInt64.toNat_ofNat', Nat.mod_eq_of_lt (by omega)]
  exact hn

theorem ofNat_lt_of_lt {n m : ℕ} (hm : m < 10 ^ 10) (hlt : n < m) : UInt64.ofNat n < UInt64.ofNat m := by
  rw [UInt64.lt_iff_toNat_lt, UInt64.toNat_ofNat', UInt64.toNat_ofNat', Nat.mod_eq_of_lt (by omega),
    Nat.mod_eq_of_lt (by omega)]
  exact hlt

/-- INTERNAL: the numbers of a short run have ten digits. -/
theorem snapPosition_lt {ps : Committed} (hlen : ps.length < 10 ^ 10) {n : ℕ} {s : Stored.BookSnapshot}
    (hs : (putSnaps ps)[n]? = some s) : n < 10 ^ 10 :=
  ((List.getElem?_eq_some_iff.mp hs).1.trans_le (length_putSnaps_le ps)).trans hlen

theorem tradePosition_lt {ps : Committed} (hlen : ps.length < 10 ^ 10) {n : ℕ} {e : Stored.ExecEvent}
    (he : (putTrades ps)[n]? = some e) : n < 10 ^ 10 :=
  ((List.getElem?_eq_some_iff.mp he).1.trans_le (length_putTrades_le ps)).trans hlen

section Store

variable {fill : ℕ → UInt8} {runs : List Committed} {ps : Committed}

/-- INTERNAL: what one run puts under the key of a fill. -/
theorem putAll_tradeKey (hps : IsProcess ps) (hlen : ps.length < 10 ^ 10) {n : ℕ} (hn : n < 10 ^ 10) :
    putAll (fun _ => none) (ps.map (Put.entry fill)) (tradeKey (UInt64.ofNat n)) =
      (putTrades ps)[n]?.map fun e => (Stored.Record.exec e).bytes fill := by
  apply Option.ext
  intro v
  rw [Option.map_eq_some_iff]
  constructor
  · intro hv
    obtain ⟨x, hx, heq⟩ := List.mem_map.mp (mem_of_putAll hv)
    obtain ⟨i, s, rfl, -⟩ | ⟨i, e, rfl, hi⟩ := put_position hps hx
    · exact absurd (Prod.mk.inj heq).1.symm (tradeKey_ne_snapKey _ _ _)
    · obtain rfl := (ofNat_inj_of_lt (tradePosition_lt hlen hi) hn).mp (tradeKey_inj.mp (Prod.mk.inj heq).1)
      exact ⟨e, hi, (Prod.mk.inj heq).2⟩
  · rintro ⟨e, he, rfl⟩
    exact stored_of_short hps (by omega) _ (mem_of_putTrades hps he) rfl

/-- INTERNAL: what one run puts under the key of a snapshot. -/
theorem putAll_snapKey (hps : IsProcess ps) (hlen : ps.length < 10 ^ 10) (sym : UInt32) {n : ℕ} (hn : n < 10 ^ 10) :
    putAll (fun _ => none) (ps.map (Put.entry fill)) (snapKey sym (UInt64.ofNat n)) =
      (snapOwn sym n ps).map fun s => (Stored.Record.snapshot s).bytes fill := by
  apply Option.ext
  intro v
  rw [Option.map_eq_some_iff]
  unfold snapOwn
  constructor
  · intro hv
    obtain ⟨x, hx, heq⟩ := List.mem_map.mp (mem_of_putAll hv)
    obtain ⟨i, s, rfl, hi⟩ | ⟨i, e, rfl, -⟩ := put_position hps hx
    · obtain ⟨hsym, hnum⟩ := snapKey_inj.mp (Prod.mk.inj heq).1
      obtain rfl := (ofNat_inj_of_lt (snapPosition_lt hlen hi) hn).mp hnum
      exact ⟨s, Option.filter_eq_some_iff.mpr ⟨hi, decide_eq_true hsym⟩, (Prod.mk.inj heq).2⟩
    · exact absurd (Prod.mk.inj heq).1 (tradeKey_ne_snapKey _ _ _)
  · rintro ⟨s, hs, rfl⟩
    obtain ⟨hget, hsym⟩ := Option.filter_eq_some_iff.mp hs
    obtain rfl := of_decide_eq_true hsym
    exact stored_of_short hps (by omega) _ (mem_of_putSnaps hps hget) rfl

theorem storeAfter_apply (k : Text) :
    storeAfter fill runs k =
      runs.foldl (fun old ps => (putAll (fun _ => none) (ps.map (Put.entry fill)) k).or old) none := by
  have happly := foldl_putAll_apply (fun _ => none) (runs.map fun ps => ps.map (Put.entry fill)) k
  rw [List.foldl_map, List.foldl_map] at happly
  exact happly

/-- INTERNAL: runs that agree key by key show the same. -/
theorem foldl_or_congr {α : Type} {own own' : Committed → Option α} (h : ∀ ps ∈ runs, own ps = own' ps) :
    runs.foldl (fun old ps => (own ps).or old) none = runs.foldl (fun old ps => (own' ps).or old) none := by
  apply List.foldl_ext
  intro old ps hps
  rw [h ps hps]

theorem storeAfter_tradeKey (hruns : ShortRuns runs) {n : ℕ} (hn : n < 10 ^ 10) :
    storeAfter fill runs (tradeKey (UInt64.ofNat n)) =
      (runs.foldl (fun old ps => ((putTrades ps)[n]?).or old) none).map
        fun e => (Stored.Record.exec e).bytes fill := by
  rw [storeAfter_apply, ← foldl_or_map]
  exact foldl_or_congr fun ps hps => putAll_tradeKey (hruns ps hps).1 (hruns ps hps).2 hn

theorem storeAfter_snapKey (hruns : ShortRuns runs) (sym : UInt32) {n : ℕ} (hn : n < 10 ^ 10) :
    storeAfter fill runs (snapKey sym (UInt64.ofNat n)) =
      (snapLeft runs sym n).map fun s => (Stored.Record.snapshot s).bytes fill := by
  unfold snapLeft
  rw [storeAfter_apply, ← foldl_or_map]
  exact foldl_or_congr fun ps hps => putAll_snapKey (hruns ps hps).1 (hruns ps hps).2 sym hn

/-- INTERNAL: numbers that are left have ten digits. -/
theorem lt_of_mem_fillsLeft (hruns : ShortRuns runs) {x : Stored.ExecEvent × ℕ} (hx : x ∈ fillsLeft runs) :
    x.2 < 10 ^ 10 := by
  obtain ⟨ps, hps, he⟩ := exists_mem_of_foldl_or (mem_fillsLeft.mp hx)
  exact tradePosition_lt (hruns ps hps).2 he

theorem lt_of_snapLeft (hruns : ShortRuns runs) {sym : UInt32} {n : ℕ} {s : Stored.BookSnapshot}
    (h : snapLeft runs sym n = some s) : n < 10 ^ 10 := by
  obtain ⟨-, ps, hps, hs⟩ := exists_snapOwn h
  exact snapPosition_lt (hruns ps hps).2 hs

/-- INTERNAL: **the store holds what is left of the runs**, and nothing else. -/
theorem storeAfter_eq_some_iff (hruns : ShortRuns runs) {k : Text} {v : List UInt8} :
    storeAfter fill runs k = some v ↔ (k, v) ∈ (recordsLeft runs).map (recordEntry fill) := by
  unfold recordsLeft
  rw [List.map_append, List.mem_append, List.map_map, List.map_map, List.mem_map, List.mem_map]
  constructor
  · intro hv
    -- some run put the key
    have hput := hv
    rw [storeAfter_eq] at hput
    obtain ⟨x, hx, heq⟩ := List.mem_map.mp (mem_of_putAll hput)
    obtain ⟨ps, hps, hx⟩ := List.mem_flatten.mp hx
    obtain ⟨i, s, rfl, hi⟩ | ⟨i, e, rfl, hi⟩ := put_position (hruns ps hps).1 hx
    · have hlt := snapPosition_lt (hruns ps hps).2 hi
      have hkey : snapKey s.symbolId (UInt64.ofNat i) = k := (Prod.mk.inj heq).1
      rw [← hkey, storeAfter_snapKey hruns _ hlt] at hv
      obtain ⟨t, ht, rfl⟩ := Option.map_eq_some_iff.mp hv
      have hsym := (exists_snapOwn ht).1
      refine Or.inl ⟨(t, i), mem_booksLeft.mpr (by rw [hsym]; exact ht), ?_⟩
      rw [← hkey, ← hsym]
      rfl
    · have hlt := tradePosition_lt (hruns ps hps).2 hi
      have hkey : tradeKey (UInt64.ofNat i) = k := (Prod.mk.inj heq).1
      rw [← hkey, storeAfter_tradeKey hruns hlt] at hv
      obtain ⟨e', he', rfl⟩ := Option.map_eq_some_iff.mp hv
      refine Or.inr ⟨(e', i), mem_fillsLeft.mpr he', ?_⟩
      rw [← hkey]
      rfl
  · rintro (⟨⟨s, n⟩, hmem, heq⟩ | ⟨⟨e, n⟩, hmem, heq⟩)
    · obtain ⟨rfl, rfl⟩ := Prod.mk.inj heq
      have hs := mem_booksLeft.mp hmem
      show storeAfter fill runs (snapKey s.symbolId (UInt64.ofNat n)) = _
      rw [storeAfter_snapKey hruns _ (lt_of_snapLeft hruns hs), hs]
      rfl
    · obtain ⟨rfl, rfl⟩ := Prod.mk.inj heq
      show storeAfter fill runs (tradeKey (UInt64.ofNat n)) = _
      rw [storeAfter_tradeKey hruns (lt_of_mem_fillsLeft hruns hmem), mem_fillsLeft.mp hmem]
      rfl

end Store

/-! ## Key order -/

theorem snapKey_eq (sym : UInt32) (n : UInt64) : snapKey sym n = snapStart sym ++ padDigits n := by
  simp [snapKey, snapStart]

/-- INTERNAL: what the keys of one symbol begin with begins no key of another. -/
theorem snapStart_begins_no_other {sym sym' : UInt32} (hne : sym ≠ sym') : ¬ snapStart sym <+: snapStart sym' := by
  intro hbegins
  have hkey : snapStart sym <+: snapKey sym' 0 := by
    rw [snapKey_eq]
    exact hbegins.trans (List.prefix_append _ _)
  exact hne (snapStart_isPrefixOf.mp (List.isPrefixOf_iff_prefix.mpr hkey)).symm

theorem codes_snapStart_injective : Function.Injective fun sym => codes (snapStart sym) := by
  intro sym sym' h
  have hsame : snapStart sym = snapStart sym' := (List.map_injective_iff.mpr fun _ _ => Char.toNat_inj.mp) h
  by_contra hne
  exact snapStart_begins_no_other hne (hsame ▸ List.prefix_refl _)

theorem snapKey_before_tradeKey (sym : UInt32) (n m : UInt64) : keyBefore (snapKey sym n) (tradeKey m) := by
  unfold keyBefore codes snapKey tradeKey
  rw [List.cons_append, List.map_cons, List.map_cons, List.cons_lt_cons_iff]
  exact Or.inl (by decide)

section Order

variable {fill : ℕ → UInt8} {runs : List Committed} (hruns : ShortRuns runs)

include hruns

theorem fillsLeft_sorted :
    (fillsLeft runs).Pairwise fun x y => keyBefore (tradeKey (UInt64.ofNat x.2)) (tradeKey (UInt64.ofNat y.2)) := by
  have hnums : (fillsLeft runs).Pairwise fun x y => x.2 < y.2 := by
    rw [← List.pairwise_map, fillsLeft, List.zipIdx_map_snd]
    exact List.pairwise_lt_range'
  refine hnums.imp_of_mem ?_
  intro x y hx hy hlt
  have hx' := lt_of_mem_fillsLeft hruns hx
  have hy' := lt_of_mem_fillsLeft hruns hy
  rw [tradeKey_before_iff (toNat_ofNat_lt hx') (toNat_ofNat_lt hy')]
  exact ofNat_lt_of_lt hy' hlt

theorem snapsLeft_sorted (sym : UInt32) :
    (snapsLeft runs sym).Pairwise fun x y =>
      keyBefore (snapKey sym (UInt64.ofNat x.2)) (snapKey sym (UInt64.ofNat y.2)) := by
  have hnums : (snapsLeft runs sym).Pairwise fun x y => x.2 < y.2 := by
    unfold snapsLeft
    rw [List.pairwise_filterMap]
    refine List.pairwise_lt_range.imp ?_
    intro n m hlt x hx y hy
    obtain ⟨-, -, rfl⟩ := Option.map_eq_some_iff.mp hx
    obtain ⟨-, -, rfl⟩ := Option.map_eq_some_iff.mp hy
    exact hlt
  refine hnums.imp_of_mem ?_
  intro x y hx hy hlt
  have hx' := lt_of_snapLeft hruns (mem_snapsLeft.mp hx)
  have hy' := lt_of_snapLeft hruns (mem_snapsLeft.mp hy)
  rw [snapKey_before_iff sym (toNat_ofNat_lt hx') (toNat_ofNat_lt hy')]
  exact ofNat_lt_of_lt hy' hlt

/-- INTERNAL: symbol by symbol, and each in the order of its numbers. -/
theorem booksLeft_sorted :
    (booksLeft runs).Pairwise fun x y =>
      keyBefore (snapKey x.1.symbolId (UInt64.ofNat x.2)) (snapKey y.1.symbolId (UInt64.ofNat y.2)) := by
  have hsymbol : ∀ {sym} {x : Stored.BookSnapshot × ℕ}, x ∈ snapsLeft runs sym → x.1.symbolId = sym :=
    fun hx => (exists_snapOwn (mem_snapsLeft.mp hx)).1
  unfold booksLeft
  rw [List.pairwise_flatMap]
  constructor
  · intro sym _
    refine (snapsLeft_sorted hruns sym).imp_of_mem ?_
    intro x y hx hy hbefore
    rw [hsymbol hx, hsymbol hy]
    exact hbefore
  · refine (pairwise_lt_insertionSort codes_snapStart_injective (List.nodup_dedup _)).imp ?_
    intro sym sym' hlt x hx y hy
    have hne : sym ≠ sym' := by
      rintro rfl
      exact lt_irrefl _ hlt
    rw [hsymbol hx, hsymbol hy, snapKey_eq, snapKey_eq]
    exact codes_append_lt hlt (snapStart_begins_no_other hne) _ _

/-- INTERNAL: **a cursor returns what is left of the runs**, in this order. -/
theorem isScan_recordsLeft : IsScan (storeAfter fill runs) ((recordsLeft runs).map (recordEntry fill)) := by
  constructor
  · unfold recordsLeft
    rw [List.pairwise_map, List.pairwise_append, List.pairwise_map, List.pairwise_map]
    refine ⟨booksLeft_sorted hruns, fillsLeft_sorted hruns, ?_⟩
    intro x hx y hy
    obtain ⟨s, -, rfl⟩ := List.mem_map.mp hx
    obtain ⟨e, -, rfl⟩ := List.mem_map.mp hy
    exact snapKey_before_tradeKey _ _ _
  · intro k v
    exact (storeAfter_eq_some_iff hruns).symm

theorem scan_eq {scan : List (Text × List UInt8)} (hscan : IsScan (storeAfter fill runs) scan) :
    scan = (recordsLeft runs).map (recordEntry fill) := by
  have hleft : IsScan (storeAfter fill runs) ((recordsLeft runs).map (recordEntry fill)) := isScan_recordsLeft hruns
  apply eq_of_pairwise_of_mem keyBefore_asymm hscan.sorted hleft.sorted
  rintro ⟨k, v⟩
  rw [hscan.entries, hleft.entries]

end Order

/-! ## The walk of the script -/

/-- The row the script prints for a record: the side as the script names it, and the replacement
character for what is not ASCII in the id. -/
def shownRow (F : PyFormat) (x : Stored.Record × ℕ) : Text :=
  match x.1 with
  | .snapshot s => rowOf F (x.1.key (UInt64.ofNat x.2)) (.snapshot s)
  | .exec e =>
    trRow F (x.1.key (UInt64.ofNat x.2)) e.tRecvNs.toInt e.symbolId.toNat (kindName e.kind) (printedSide e.side)
      e.lastPx e.lastQty e.leavesQty e.clOrdId.toNat (asciiReplace ((List.ofFn e.orderId).takeWhile fun b => b ≠ 0))

/-- The record is a snapshot. -/
def IsBook : Stored.Record → Bool
  | .snapshot _ => true
  | .exec _ => false

/-- The rows printed so far of a kind. -/
def printedOf (ob : Bool) (st : DumpState) : ℕ := if ob then st.nOb else st.nTr

/-- Entries of a kind are seen, and some of them printed. -/
def DumpState.after (st : DumpState) (ob : Bool) (rows : List Text) (seen : ℕ) : DumpState :=
  if ob then { st with nOb := st.nOb + rows.length, totOb := st.totOb + seen, lines := st.lines ++ rows }
  else { st with nTr := st.nTr + rows.length, totTr := st.totTr + seen, lines := st.lines ++ rows }

/-- What is printed of the rows of a kind that is asked for or not. -/
def upToLimit (asked : Bool) (limit : ℤ) (rows : List Text) : List Text :=
  if asked then rows.take limit.toNat else []

section Walk

variable {F : PyFormat} {fill : ℕ → UInt8} {showOb showTr : Bool} {limit : ℤ}

theorem after_after (st : DumpState) (ob : Bool) (rows rows' : List Text) (k k' : ℕ) :
    DumpState.after (DumpState.after st ob rows k) ob rows' k' = DumpState.after st ob (rows ++ rows') (k + k') := by
  cases ob <;> simp [DumpState.after, Nat.add_assoc]

theorem upToLimit_of {asked : Bool} {n : ℕ} (h : asked = true ∧ (n : ℤ) < limit) (row : Text) :
    upToLimit asked (limit - n) [row] = [row] := by
  unfold upToLimit
  rw [if_pos h.1, List.take_of_length_le]
  have := h.2
  simp only [List.length_singleton]
  omega

theorem upToLimit_of_not {asked : Bool} {n : ℕ} (h : ¬ (asked = true ∧ (n : ℤ) < limit)) (rows : List Text) :
    upToLimit asked (limit - n) rows = [] := by
  unfold upToLimit
  by_cases hasked : asked = true
  · have hroom : ¬ (n : ℤ) < limit := fun hlt => h ⟨hasked, hlt⟩
    rw [if_pos hasked, Int.toNat_of_nonpos (by omega), List.take_zero]
  · rw [if_neg hasked]

/-- INTERNAL: a row that is printed leaves room for one less. -/
theorem upToLimit_cons (asked : Bool) (n : ℕ) (row : Text) (rows : List Text) :
    upToLimit asked (limit - n) (row :: rows) =
      upToLimit asked (limit - n) [row] ++
        upToLimit asked (limit - (n + (upToLimit asked (limit - n) [row]).length : ℕ)) rows := by
  by_cases hshown : asked = true ∧ (n : ℤ) < limit
  · rw [upToLimit_of hshown, List.length_singleton]
    obtain ⟨rfl, hroom⟩ := hshown
    have hsucc : (limit - n).toNat = (limit - (n + 1 : ℕ)).toNat + 1 := by omega
    simp only [upToLimit, if_true]
    rw [hsucc, List.take_succ_cons]
    rfl
  · rw [upToLimit_of_not hshown, upToLimit_of_not hshown, List.length_nil, Nat.add_zero, upToLimit_of_not hshown]
    rfl

theorem printedOf_after (st : DumpState) (ob : Bool) (rows : List Text) (k : ℕ) :
    printedOf ob (DumpState.after st ob rows k) = printedOf ob st + rows.length := by
  cases ob <;> rfl

/-- INTERNAL: **one record of the walk**: it is counted, and printed below the limit.
SRCLINE: scripts/dump_lmdb.py:51-74 -/
theorem dumpEntry_record (st : DumpState) (x : Stored.Record × ℕ) :
    dumpEntry F showOb showTr limit st (recordEntry fill x) =
      some (DumpState.after st (IsBook x.1) (upToLimit (if IsBook x.1 then showOb else showTr)
        (limit - printedOf (IsBook x.1) st) [shownRow F x]) 1) := by
  obtain ⟨r, n⟩ := x
  have hsize := calcsize_le_bytes fill r
  cases r with
  | snapshot s =>
    have hkey : ['o', 'b', '|'].isPrefixOf ((Stored.Record.snapshot s).key (UInt64.ofNat n)) = true := rfl
    unfold dumpEntry recordEntry
    dsimp only
    rw [if_pos hkey]
    by_cases hshown : showOb = true ∧ (st.nOb : ℤ) < limit
    · rw [if_pos ⟨hshown.1, hshown.2, hsize⟩, obLine_eq]
      show _ = some (DumpState.after st true (upToLimit showOb (limit - st.nOb) _) 1)
      rw [upToLimit_of hshown]
      rfl
    · rw [if_neg fun h => hshown ⟨h.1, h.2.1⟩]
      show _ = some (DumpState.after st true (upToLimit showOb (limit - st.nOb) _) 1)
      rw [upToLimit_of_not hshown]
      simp [DumpState.after]
  | exec e =>
    have hkey : ['t', 'r', '|'].isPrefixOf ((Stored.Record.exec e).key (UInt64.ofNat n)) = true := rfl
    have hkey' : ¬ ['o', 'b', '|'].isPrefixOf ((Stored.Record.exec e).key (UInt64.ofNat n)) = true :=
      Bool.false_ne_true
    unfold dumpEntry recordEntry
    dsimp only
    rw [if_neg hkey', if_pos hkey]
    by_cases hshown : showTr = true ∧ (st.nTr : ℤ) < limit
    · rw [if_pos ⟨hshown.1, hshown.2, hsize⟩, trLine_eq]
      show _ = some (DumpState.after st false (upToLimit showTr (limit - st.nTr) _) 1)
      rw [upToLimit_of hshown]
      rfl
    · rw [if_neg fun h => hshown ⟨h.1, h.2.1⟩]
      show _ = some (DumpState.after st false (upToLimit showTr (limit - st.nTr) _) 1)
      rw [upToLimit_of_not hshown]
      simp [DumpState.after]

/-- INTERNAL: **the walk over records of one kind.** -/
theorem foldlM_dumpEntry (ob : Bool) (xs : List (Stored.Record × ℕ)) :
    ∀ st : DumpState, (∀ x ∈ xs, IsBook x.1 = ob) →
      (xs.map (recordEntry fill)).foldlM (dumpEntry F showOb showTr limit) st =
        some (DumpState.after st ob (upToLimit (if ob then showOb else showTr) (limit - printedOf ob st)
          (xs.map (shownRow F))) xs.length) := by
  induction xs with
  | nil =>
    intro st _
    have hnone : upToLimit (if ob then showOb else showTr) (limit - printedOf ob st) [] = [] := by
      unfold upToLimit
      rw [List.take_nil, ite_self]
    rw [List.map_nil, List.map_nil, hnone]
    cases ob <;> simp [DumpState.after]
  | cons x xs ih =>
    intro st hkind
    have hx : IsBook x.1 = ob := hkind x List.mem_cons_self
    rw [List.map_cons, List.foldlM_cons, dumpEntry_record, hx]
    show List.foldlM _ (DumpState.after st ob _ 1) _ = _
    rw [ih _ fun y hy => hkind y (List.mem_cons_of_mem x hy), after_after, printedOf_after, List.length_cons,
      Nat.add_comm 1, List.map_cons, upToLimit_cons _ _ (shownRow F x) (xs.map (shownRow F))]

theorem after_books_fills (books fills : List Text) (k k' : ℕ) :
    DumpState.after (DumpState.after {} true books k) false fills k' =
      { nOb := books.length, nTr := fills.length, totOb := k, totTr := k', lines := books ++ fills } := by
  simp [DumpState.after]

end Walk

/-- The last line.
SRCLINE: scripts/dump_lmdb.py:75 -/
def totalsLine (nOb nTr : ℕ) : Text :=
  "\nTotals in store: ".toList ++ pyInt nOb ++ " order-book snapshots, ".toList ++ pyInt nTr ++
    " trade records.".toList

/-- **What the dump shows after several runs.**  For every sequence of processes on one path, whatever
their threads do: the snapshots that are left, symbol by symbol in the order of the keys, and the fills
that are left, in the order of their numbers, each kind up to the limit; and the totals of both.
SRCLINE: scripts/dump_lmdb.py:46-76, src/storage/lmdb_persister.hpp:47-87 -/
theorem dump_after_runs (F : PyFormat) (fill : ℕ → UInt8) (runs : List Committed) (hruns : ShortRuns runs)
    (scan : List (Text × List UInt8)) (hscan : IsScan (storeAfter fill runs) scan) (showOb showTr : Bool)
    (limit : ℤ) :
    dump F showOb showTr limit scan = some (
      upToLimit showOb limit ((booksLeft runs).map fun x => shownRow F (bookRecord x)) ++
        upToLimit showTr limit ((fillsLeft runs).map fun x => shownRow F (fillRecord x)) ++
          [totalsLine (booksLeft runs).length (fillsLeft runs).length]) := by
  have hbooks : ∀ x ∈ (booksLeft runs).map bookRecord, IsBook x.1 = true := by
    intro x hx
    obtain ⟨s, -, rfl⟩ := List.mem_map.mp hx
    rfl
  have hfills : ∀ x ∈ (fillsLeft runs).map fillRecord, IsBook x.1 = false := by
    intro x hx
    obtain ⟨e, -, rfl⟩ := List.mem_map.mp hx
    rfl
  have hstart : (limit - printedOf true ({} : DumpState) : ℤ) = limit := sub_zero limit
  have hnext : ∀ rows k, (limit - printedOf false (DumpState.after {} true rows k) : ℤ) = limit :=
    fun _ _ => sub_zero limit
  unfold dump
  rw [scan_eq hruns hscan, recordsLeft, List.map_append, List.foldlM_append, foldlM_dumpEntry true _ _ hbooks,
    Option.bind_eq_bind, Option.bind_some, foldlM_dumpEntry false _ _ hfills, Option.map_some, hstart, hnext,
    after_books_fills, List.map_map, List.map_map, List.length_map, List.length_map]
  rfl

/-- A book with one level of one unit at one on each side. -/
def unitBook (sym : UInt32) : Stored.BookSnapshot :=
  { tNs := 0, symbolId := sym, nBids := 1, nAsks := 1,
    bidPx := fun _ => ⟨0x3FF0000000000000⟩, bidQty := fun _ => ⟨0x3FF0000000000000⟩,
    askPx := fun _ => ⟨0x3FF0000000000000⟩, askQty := fun _ => ⟨0x3FF0000000000000⟩ }

/-- A run with two snapshots and two fills, and one with a fill. -/
def restartedRuns : List Committed :=
  [[.snap 0 (unitBook 1), .snap 1 (unitBook 10), .trade 0 boughtOne, .trade 1 boughtOne],
    [.trade 0 { boughtOne with side := .sell }]]

theorem restartedRuns_short : ShortRuns restartedRuns := by
  intro ps hps
  rcases List.mem_cons.mp hps with rfl | hps
  · exact ⟨⟨[.pushSnapshot (unitBook 1), .pushSnapshot (unitBook 10), .pushTrade boughtOne,
      .pushTrade boughtOne] ++ List.replicate 8 .persist, _, rfl⟩, by decide⟩
  · rw [List.mem_singleton.mp hps]
    exact ⟨⟨.pushTrade { boughtOne with side := .sell } :: List.replicate 5 .persist, _, rfl⟩, by decide⟩

/-- With one row for each kind: the symbol 10 is before the symbol 1, and the second run's fill has
covered the first one's. -/
theorem dump_after_runs_restarted :
    ∃ scan, IsScan (storeAfter (fun _ => 0) restartedRuns) scan ∧
      dump unitFormat true true 1 scan = some
        ["[OB ] ob|10|0000000001         1970-01-01 00:00:00.000000 sym=10 bids=1 asks=1 BB=1.0000 BA=1.0000".toList,
          ("[TRD] tr|0000000000            1970-01-01 00:00:00.000000 sym=0 Filled   2    ".toList ++
            "px=1.0000 qty=1 leaves=0 clordid=1000 orderid=7".toList),
          "\nTotals in store: 2 order-book snapshots, 2 trade records.".toList] :=
  ⟨_, isScan_recordsLeft restartedRuns_short,
    (dump_after_runs unitFormat (fun _ => 0) restartedRuns restartedRuns_short _
      (isScan_recordsLeft restartedRuns_short) true true 1).trans (by decide +kernel)⟩

end MmEngine.Analysis
