import MmEngine.Model.Events

/-!
# The per-instrument book

Two flat arrays per side; a snapshot replaces the whole book
(src/book/order_book.hpp).  The count of visible levels is cut to the configured depth
by a mixed `uint16_t`/`int` comparison and a narrowing cast, both kept as the source
has them.
-/

set_option autoImplicit false

namespace MmEngine.Model

/-- SRCLINE: src/book/order_book.hpp:23-30 -/
structure OrderBook where
  bidPx : Fin kMaxDepth → ℚ := fun _ => 0
  bidQty : Fin kMaxDepth → ℚ := fun _ => 0
  askPx : Fin kMaxDepth → ℚ := fun _ => 0
  askQty : Fin kMaxDepth → ℚ := fun _ => 0
  nBids : ℕ := 0
  nAsks : ℕ := 0
  lastUpdateNs : ℤ := 0
  seq : ℕ := 0
  deriving DecidableEq

namespace OrderBook

/-- `uint16_t(v)` of an `int`. -/
def toUint16 (v : ℤ) : ℕ := (v % 65536).toNat

/-- The level count a snapshot leaves: `n > max_depth ? uint16_t(max_depth) : n`.
SRCLINE: src/book/order_book.hpp:33-34 -/
def cutDepth (n : ℕ) (maxDepth : ℤ) : ℕ :=
  if (n : ℤ) > maxDepth then toUint16 maxDepth else n

/-- SRCLINE: src/book/order_book.hpp:32-41 -/
def applySnapshot (ob : OrderBook) (e : MdEvent) (maxDepth : ℤ) : OrderBook :=
  { ob with
    nBids := cutDepth e.nBids maxDepth
    nAsks := cutDepth e.nAsks maxDepth
    bidPx := e.bidPx
    bidQty := e.bidQty
    askPx := e.askPx
    askQty := e.askQty
    lastUpdateNs := e.tRecvNs
    seq := e.seq }

/-- SRCLINE: src/book/order_book.hpp:43 -/
def hasBba (ob : OrderBook) : Bool := 0 < ob.nBids && 0 < ob.nAsks

/-- SRCLINE: src/book/order_book.hpp:44 -/
def bestBid (ob : OrderBook) : ℚ := ob.bidPx ⟨0, by decide⟩

/-- SRCLINE: src/book/order_book.hpp:45 -/
def bestAsk (ob : OrderBook) : ℚ := ob.askPx ⟨0, by decide⟩

/-- SRCLINE: src/book/order_book.hpp:46 -/
def spread (ob : OrderBook) : ℚ := ob.askPx ⟨0, by decide⟩ - ob.bidPx ⟨0, by decide⟩

/-- SRCLINE: src/book/order_book.hpp:47 -/
def mid (ob : OrderBook) : ℚ := 0.5 * (ob.askPx ⟨0, by decide⟩ + ob.bidPx ⟨0, by decide⟩)

/-! ## The volume-weighted price

Both branches of the build keep the pair `(sum_pq, sum_q)`, and share the last line. -/

/-- The last line of `vwap`.
SRCLINE: src/book/order_book.hpp:76 -/
def ofSums (ob : OrderBook) (sumPq sumQ : ℚ) : ℚ := if sumQ > 0 then sumPq / sumQ else ob.mid

/-- The loop over the levels of a build without AVX2.
SRCLINE: src/book/order_book.hpp:70-74 -/
def scalarSums (ob : OrderBook) : ℚ × ℚ :=
  (List.finRange kMaxDepth).foldl
    (fun sums i =>
      (sums.1 + (ob.bidPx i * ob.bidQty i + ob.askPx i * ob.askQty i),
        sums.2 + (ob.bidQty i + ob.askQty i)))
    (0, 0)

/-- `vwap` of a build without AVX2.
SRCLINE: src/book/order_book.hpp:50, 69-76 -/
def vwapScalar (ob : OrderBook) : ℚ := ob.ofSums ob.scalarSums.1 ob.scalarSums.2

/-- Four lanes, the `__m256d` of the intrinsics. -/
abbrev M256d : Type := Fin 4 → ℚ

/-- `_mm256_setzero_pd`. -/
def setzeroPd : M256d := fun _ => 0

/-- `_mm256_loadu_pd`: the first four of an array of levels. -/
def loaduPd (levels : Fin kMaxDepth → ℚ) : M256d := fun lane => levels lane.castSucc

/-- `_mm256_fmadd_pd`. -/
def fmaddPd (a b c : M256d) : M256d := fun lane => a lane * b lane + c lane

/-- `_mm256_add_pd`. -/
def addPd (a b : M256d) : M256d := fun lane => a lane + b lane

/-- The lanes of an AVX2 build: bids, then asks, in one accumulator; the fifth level is scalar.
SRCLINE: src/book/order_book.hpp:51-68 -/
def avx2Sums (ob : OrderBook) : ℚ × ℚ :=
  let bpx := loaduPd ob.bidPx
  let bqt := loaduPd ob.bidQty
  let apx := loaduPd ob.askPx
  let aqt := loaduPd ob.askQty
  let pq := fmaddPd apx aqt (fmaddPd bpx bqt setzeroPd)
  let q := addPd setzeroPd (addPd bqt aqt)
  let fifth : Fin kMaxDepth := Fin.last 4
  (pq 0 + pq 1 + pq 2 + pq 3 + ob.bidPx fifth * ob.bidQty fifth + ob.askPx fifth * ob.askQty fifth,
    q 0 + q 1 + q 2 + q 3 + ob.bidQty fifth + ob.askQty fifth)

/-- `vwap` of an AVX2 build.
SRCLINE: src/book/order_book.hpp:50-68, 76 -/
def vwapAvx2 (ob : OrderBook) : ℚ := ob.ofSums ob.avx2Sums.1 ob.avx2Sums.2

end OrderBook

end MmEngine.Model
