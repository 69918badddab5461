import MmEngine.Lib.WeightedMean
import MmEngine.Model.OrderBook
import Mathlib.Algebra.Order.Field.Rat

/-!
# The volume-weighted price

`vwap` is meant to weight the visible levels (src/book/order_book.hpp:49).  The four lanes of the
AVX2 build with their scalar fifth level and the loop of the scalar build both add up the whole
arrays, so they agree on every book (`vwapAvx2_eq_vwapScalar`).  `apply_snapshot` copies the
arrays of a snapshot whole and cuts the counts only: a level beyond the depth is not shown and is
weighted all the same.  The price is that of the visible levels exactly when the levels cut off
have no quantity, or when they happen to have the same average price (`vwap_visible_iff`).
-/

set_option autoImplicit false

namespace MmEngine.Analysis

open MmEngine.Model MmEngine.Lib Finset

/-- A level of the bid side or of the ask side. -/
abbrev Level : Type := Fin kMaxDepth ⊕ Fin kMaxDepth

/-- The first levels of both sides. -/
def firstLevels (nBids nAsks : ℕ) : Finset Level :=
  (univ.filter fun i : Fin kMaxDepth => i.val < nBids).disjSum
    (univ.filter fun i : Fin kMaxDepth => i.val < nAsks)

@[simp] theorem inl_mem_firstLevels {nBids nAsks : ℕ} {i : Fin kMaxDepth} :
    .inl i ∈ firstLevels nBids nAsks ↔ i.val < nBids := by
  simp [firstLevels]

@[simp] theorem inr_mem_firstLevels {nBids nAsks : ℕ} {i : Fin kMaxDepth} :
    .inr i ∈ firstLevels nBids nAsks ↔ i.val < nAsks := by
  simp [firstLevels]

/-- The average price of some levels weighted by their quantities, or `c` when they have none. -/
def averageOr (c : ℚ) (px qty : Level → ℚ) (levels : Finset Level) : ℚ :=
  if 0 < ∑ l ∈ levels, qty l then (∑ l ∈ levels, px l * qty l) / ∑ l ∈ levels, qty l else c

/-- What `vwap` is to return: the average price of the levels the book shows, or `mid`. -/
def visibleVwap (ob : OrderBook) : ℚ :=
  averageOr ob.mid (Sum.elim ob.bidPx ob.askPx) (Sum.elim ob.bidQty ob.askQty)
    (firstLevels ob.nBids ob.nAsks)

/-- The prices of a snapshot. -/
def eventPx (e : MdEvent) : Level → ℚ := Sum.elim e.bidPx e.askPx

/-- The middle of the best prices of a snapshot. -/
def eventMid (e : MdEvent) : ℚ := 0.5 * (e.askPx ⟨0, kMaxDepth_pos⟩ + e.bidPx ⟨0, kMaxDepth_pos⟩)

/-- The quantities of a snapshot. -/
def eventQty (e : MdEvent) : Level → ℚ := Sum.elim e.bidQty e.askQty

/-- The levels of a snapshot within the depth. -/
def kept (e : MdEvent) (d : ℤ) : Finset Level :=
  firstLevels e.nBids e.nAsks ∩ firstLevels d.toNat d.toNat

/-- The levels of a snapshot beyond the depth. -/
def cutOff (e : MdEvent) (d : ℤ) : Finset Level :=
  firstLevels e.nBids e.nAsks \ firstLevels d.toNat d.toNat

/-- Levels beyond the counts are zero, and no quantity is negative. -/
structure ZeroPadded (e : MdEvent) : Prop where
  bids : ∀ i : Fin kMaxDepth, e.nBids ≤ i.val → e.bidPx i = 0 ∧ e.bidQty i = 0
  asks : ∀ i : Fin kMaxDepth, e.nAsks ≤ i.val → e.askPx i = 0 ∧ e.askQty i = 0
  bidQty_nonneg : ∀ i, 0 ≤ e.bidQty i
  askQty_nonneg : ∀ i, 0 ≤ e.askQty i

/-- The levels cut off have no quantity, or the average price of the levels kept (the middle of
the best prices when these have no quantity). -/
def CutOffNeutral (e : MdEvent) (d : ℤ) : Prop :=
  ∑ l ∈ cutOff e d, eventQty e l = 0 ∨
    (∑ l ∈ cutOff e d, eventPx e l * eventQty e l) / ∑ l ∈ cutOff e d, eventQty e l =
      averageOr (eventMid e) (eventPx e) (eventQty e) (kept e d)

/-! ## The sums of both branches -/

/-- INTERNAL: a loop that keeps two sums adds up both columns. -/
theorem foldl_two_sums (f g : Fin kMaxDepth → ℚ) (levels : List (Fin kMaxDepth)) (sums : ℚ × ℚ) :
    levels.foldl (fun sums i => (sums.1 + f i, sums.2 + g i)) sums =
      (sums.1 + (levels.map f).sum, sums.2 + (levels.map g).sum) := by
  induction levels generalizing sums with
  | nil => simp
  | cons i levels ih =>
    rw [List.foldl_cons, ih]
    simp only [List.map_cons, List.sum_cons, add_assoc]

/-- INTERNAL: the loop of the scalar build goes over all levels of both sides. -/
theorem scalarSums_eq (ob : OrderBook) :
    ob.scalarSums =
      (∑ l, Sum.elim ob.bidPx ob.askPx l * Sum.elim ob.bidQty ob.askQty l,
        ∑ l, Sum.elim ob.bidQty ob.askQty l) := by
  unfold OrderBook.scalarSums
  rw [foldl_two_sums, ← Fin.sum_univ_def, ← Fin.sum_univ_def, Fintype.sum_sum_type,
    Fintype.sum_sum_type, zero_add, zero_add, sum_add_distrib, sum_add_distrib]
  rfl

/-- INTERNAL: the levels are the four lanes and the last one. -/
theorem sum_lanes (f : Fin kMaxDepth → ℚ) :
    ∑ i, f i = f (Fin.castSucc (0 : Fin 4)) + f (Fin.castSucc (1 : Fin 4)) + f (Fin.castSucc (2 : Fin 4)) +
      f (Fin.castSucc (3 : Fin 4)) + f (Fin.last 4) :=
  Fin.sum_univ_five f

/-- INTERNAL: the four lanes and the fifth level add up to the same. -/
theorem avx2Sums_eq (ob : OrderBook) : ob.avx2Sums = ob.scalarSums := by
  rw [scalarSums_eq, Fintype.sum_sum_type, Fintype.sum_sum_type]
  unfold OrderBook.avx2Sums
  apply Prod.ext
  · simp only [sum_lanes, Sum.elim_inl, Sum.elim_inr, OrderBook.fmaddPd, OrderBook.loaduPd,
      OrderBook.setzeroPd]
    ring
  · simp only [sum_lanes, Sum.elim_inl, Sum.elim_inr, OrderBook.addPd, OrderBook.loaduPd,
      OrderBook.setzeroPd]
    ring

/-- INTERNAL: **both builds agree on every book.** -/
theorem vwapAvx2_eq_vwapScalar (ob : OrderBook) : ob.vwapAvx2 = ob.vwapScalar := by
  unfold OrderBook.vwapAvx2 OrderBook.vwapScalar
  rw [avx2Sums_eq]

/-- INTERNAL: `vwap` is the average price of all levels, shown or not. -/
theorem vwapScalar_eq (ob : OrderBook) :
    ob.vwapScalar = averageOr ob.mid (Sum.elim ob.bidPx ob.askPx) (Sum.elim ob.bidQty ob.askQty) univ := by
  unfold OrderBook.vwapScalar
  rw [scalarSums_eq]
  rfl

/-! ## The levels cut off -/

/-- INTERNAL: an average is a mean weighted by the quantities. -/
theorem averageOr_eq_meanOr (c : ℚ) (px qty : Level → ℚ) (levels : Finset Level) :
    averageOr c px qty levels = meanOr c levels qty px := by
  unfold averageOr meanOr centerMass
  simp only [smul_eq_mul, div_eq_inv_mul, mul_comm]

/-- INTERNAL: the levels a book shows after a snapshot are those kept. -/
theorem firstLevels_applySnapshot (ob : OrderBook) (e : MdEvent) {d : ℤ} (hd : 1 ≤ d) (hd5 : d ≤ kMaxDepth) :
    firstLevels (ob.applySnapshot e d).nBids (ob.applySnapshot e d).nAsks = kept e d := by
  have hcut : ∀ (n : ℕ) (i : Fin kMaxDepth), i.val < OrderBook.cutDepth n d ↔ i.val < n ∧ i.val < d.toNat := by
    intro n i
    unfold OrderBook.cutDepth OrderBook.toUint16
    unfold kMaxDepth at hd5
    split <;> omega
  ext l
  rw [kept, mem_inter]
  cases l with
  | inl i =>
    rw [inl_mem_firstLevels, inl_mem_firstLevels, inl_mem_firstLevels]
    exact hcut e.nBids i
  | inr i =>
    rw [inr_mem_firstLevels, inr_mem_firstLevels, inr_mem_firstLevels]
    exact hcut e.nAsks i

/-- INTERNAL: a level beyond the counts has no quantity. -/
theorem ZeroPadded.eventQty_eq_zero {e : MdEvent} (h : ZeroPadded e) {l : Level}
    (hl : l ∉ firstLevels e.nBids e.nAsks) : eventQty e l = 0 := by
  cases l with
  | inl i => exact (h.bids i (by simpa using hl)).2
  | inr i => exact (h.asks i (by simpa using hl)).2

theorem ZeroPadded.eventQty_nonneg {e : MdEvent} (h : ZeroPadded e) (l : Level) : 0 ≤ eventQty e l := by
  cases l with
  | inl i => exact h.bidQty_nonneg i
  | inr i => exact h.askQty_nonneg i

/-- INTERNAL: all levels have the average of those kept exactly when the levels cut off are
neutral. -/
theorem averageOr_univ_iff {e : MdEvent} (h : ZeroPadded e) (d : ℤ) :
    averageOr (eventMid e) (eventPx e) (eventQty e) univ =
        averageOr (eventMid e) (eventPx e) (eventQty e) (kept e d) ↔
      CutOffNeutral e d := by
  have hpadding : averageOr (eventMid e) (eventPx e) (eventQty e) univ =
      meanOr (eventMid e) (kept e d ∪ cutOff e d) (eventQty e) (eventPx e) := by
    rw [averageOr_eq_meanOr, kept, cutOff, union_comm, sdiff_union_inter]
    exact (meanOr_subset (subset_univ _) fun l _ hl => h.eventQty_eq_zero hl).symm
  have hcenter : (cutOff e d).centerMass (eventQty e) (eventPx e) =
      (∑ l ∈ cutOff e d, eventPx e l * eventQty e l) / ∑ l ∈ cutOff e d, eventQty e l := by
    unfold centerMass
    simp only [smul_eq_mul, div_eq_inv_mul, mul_comm]
  have hdisjoint : Disjoint (kept e d) (cutOff e d) := (disjoint_sdiff_inter _ _).symm
  rw [hpadding, averageOr_eq_meanOr, meanOr_union_eq_iff hdisjoint fun l _ => h.eventQty_nonneg l]
  unfold CutOffNeutral
  rw [hcenter, averageOr_eq_meanOr]

/-- **`vwap` is the price of the visible levels exactly when the levels cut off are neutral.**
For every snapshot and depth, in both builds, which agree on every book.
SRCLINE: src/book/order_book.hpp:32-41, 49-77 -/
theorem vwap_visible_iff (ob : OrderBook) (e : MdEvent) (d : ℤ) (he : ZeroPadded e) (hd : 1 ≤ d)
    (hd5 : d ≤ kMaxDepth) :
    (∀ book : OrderBook, book.vwapAvx2 = book.vwapScalar) ∧
      ((ob.applySnapshot e d).vwapAvx2 = visibleVwap (ob.applySnapshot e d) ∧
          (ob.applySnapshot e d).vwapScalar = visibleVwap (ob.applySnapshot e d) ↔
        CutOffNeutral e d) := by
  refine ⟨vwapAvx2_eq_vwapScalar, ?_⟩
  rw [vwapAvx2_eq_vwapScalar, and_self, ← averageOr_univ_iff he d, vwapScalar_eq]
  unfold visibleVwap
  rw [firstLevels_applySnapshot ob e hd hd5]
  rfl

/-- Two bids at 10 and 8 and an ask at 12, one unit each. -/
def twoBids : MdEvent :=
  { topOfBook 0 10 12 with
    nBids := 2
    bidPx := fun i => if i.val = 0 then 10 else if i.val = 1 then 8 else 0
    bidQty := fun i => if i.val < 2 then 1 else 0 }

theorem twoBids_zeroPadded : ZeroPadded twoBids := by
  constructor <;> decide

/-- A depth of one on a book of two bids. -/
theorem vwap_visible_iff_twoBids :
    (∀ book : OrderBook, book.vwapAvx2 = book.vwapScalar) ∧
      ((({} : OrderBook).applySnapshot twoBids 1).vwapAvx2 = visibleVwap (({} : OrderBook).applySnapshot twoBids 1) ∧
          (({} : OrderBook).applySnapshot twoBids 1).vwapScalar =
            visibleVwap (({} : OrderBook).applySnapshot twoBids 1) ↔
        CutOffNeutral twoBids 1) :=
  vwap_visible_iff {} twoBids 1 twoBids_zeroPadded (by decide) (by decide)

/-- With a depth of one the best prices are 10 and 12, and `vwap` is 10: the bid at 8 is not shown
but weighted. -/
theorem vwap_counts_hidden_level :
    ZeroPadded twoBids ∧ (({} : OrderBook).applySnapshot twoBids 1).nBids = 1 ∧
      visibleVwap (({} : OrderBook).applySnapshot twoBids 1) = 11 ∧
      (({} : OrderBook).applySnapshot twoBids 1).vwapAvx2 = 10 ∧
      (({} : OrderBook).applySnapshot twoBids 1).vwapScalar = 10 :=
  ⟨twoBids_zeroPadded, by decide +kernel⟩

end MmEngine.Analysis
