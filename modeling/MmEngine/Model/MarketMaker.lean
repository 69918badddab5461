import MmEngine.Model.Config
import MmEngine.Model.OrderBook
import MmEngine.Model.OrderManager
import Mathlib.Algebra.Order.Group.Unbundled.Abs
import Mathlib.Algebra.Order.Ring.Rat

/-!
# The strategy

The hot loop of src/strategy/market_maker.hpp.  One turn of it drains the execution
ring, one `execIter` per report, and then takes at most one market-data event, an
`mdIter`.  Both return the new strategy state and, in program order, the `Effect`s they
have on the rings around the thread.

What the thread cannot decide by itself enters through `MdEnv`: whether the order ring
takes the command of a side, and the clock.  Array accesses by symbol id are unchecked
in the source; an iteration whose access leaves `q_` or `books_` is `none`.
-/

set_option autoImplicit false

namespace MmEngine.Model

/-- What a turn of the strategy loop does to the rings around it. -/
inductive Effect where
  /-- `exec_.try_pop` delivered the report. -/
  | consumed (e : ExecEvent)
  /-- `md_.try_pop` delivered the snapshot. -/
  | took (ev : MdEvent)
  /-- `out_.try_push` accepted the command. -/
  | pushed (c : OrderCmd)
  /-- The command was decided and not accepted: the ring is full, or this is a dry run. -/
  | refused (c : OrderCmd)
  /-- `log_.log` was offered the record. -/
  | logged (r : LogRecord)
  /-- `db_.push_trade` was offered the fill. -/
  | trade (e : ExecEvent)
  /-- `db_.push_snapshot` was offered the snapshot. -/
  | snapshot (s : BookSnapshot)
  deriving DecidableEq

/-- The commands a turn of the strategy pushed, in order. -/
def pushedCmds (es : List Effect) : List OrderCmd :=
  es.filterMap fun
    | .pushed c => some c
    | _ => none

/-- The world as one market-data iteration sees it: `room side` is the answer of
`out_.try_push` to the command of that side (an iteration decides at most one per side),
`now side` the clock when that command is decided, `tDeq` the clock at the dequeue. -/
structure MdEnv where
  room : OrdSide → Bool
  now : OrdSide → ℤ
  tDeq : ℤ

/-- An order ring with room, and a clock that reads `0`. -/
def quickEnv : MdEnv := { room := fun _ => true, now := fun _ => 0, tDeq := 0 }

/-- SRCLINE: src/strategy/market_maker.hpp:174-182 -/
structure MarketMaker where
  oms : OrderManager := {}
  books : Fin kMaxSymbols → OrderBook := fun _ => {}
  clOrdSeed : UInt64
  nextSnapshotNs : ℤ

namespace MarketMaker

/-- A strategy constructed at clock `tCtor` whose loop starts at clock `tRun`.
SRCLINE: src/strategy/market_maker.hpp:46, 182 -/
def init (tCtor tRun : ℤ) : MarketMaker :=
  { clOrdSeed := UInt64.ofInt (tCtor.tdiv 1000000) * 1000, nextSnapshotNs := tRun }

/-- The slot `oms_.quote(sym, side)`. -/
def slot (m : MarketMaker) (sym : Fin kMaxSymbols) (side : OrdSide) : Quote := m.oms.quote sym side

/-- SRCLINE: src/strategy/market_maker.hpp:164 -/
def bumpSeed (m : MarketMaker) : MarketMaker := { m with clOrdSeed := m.clOrdSeed + 1 }

def setSlot (m : MarketMaker) (sym : Fin kMaxSymbols) (side : OrdSide) (x : Quote) : MarketMaker :=
  { m with oms := m.oms.setQuote sym side x }

/-- The `New` command of `requote`.
SRCLINE: src/strategy/market_maker.hpp:117-121 -/
def newCmd (cfg : EngineConfig) (env : MdEnv) (m : MarketMaker) (sym : Fin kMaxSymbols)
    (side : OrdSide) (px : ℚ) (tMd : ℤ) : OrderCmd :=
  { type := .new, side := side, symbolId := sym, price := px, qty := cfg.orderQty,
    clOrdId := m.clOrdSeed, tMdNs := tMd, tDecidedNs := env.now side }

/-- The `Cancel` command of `cancel_side`.
SRCLINE: src/strategy/market_maker.hpp:134-139 -/
def cancelCmd (env : MdEnv) (m : MarketMaker) (sym : Fin kMaxSymbols) (side : OrdSide)
    (tMd : ℤ) : OrderCmd :=
  { type := .cancel, side := side, symbolId := sym, qty := (m.slot sym side).qty,
    origClOrdId := (m.slot sym side).clOrdId, clOrdId := m.clOrdSeed, tMdNs := tMd,
    tDecidedNs := env.now side }

/-- SRCLINE: src/strategy/market_maker.hpp:125-126 -/
def newLog (c : OrderCmd) : LogRecord :=
  { tNs := c.tDecidedNs, kind := .orderNew, symbolId := c.symbolId, side := some c.side,
    px := c.price, qty := c.qty, clOrdId := c.clOrdId }

/-- The log line of a cancel names the order, not the request, at the slot's price.
SRCLINE: src/strategy/market_maker.hpp:142-144 -/
def cancelLog (c : OrderCmd) (q : Quote) : LogRecord :=
  { tNs := c.tDecidedNs, kind := .orderCxl, symbolId := c.symbolId, side := some c.side,
    px := q.price, qty := q.qty, clOrdId := c.origClOrdId }

/-- SRCLINE: src/strategy/market_maker.hpp:131-147 -/
def cancelSide (cfg : EngineConfig) (env : MdEnv) (m : MarketMaker) (sym : Fin kMaxSymbols)
    (side : OrdSide) (tMd : ℤ) : MarketMaker × List Effect :=
  let q := m.slot sym side
  if q.state ≠ .live then (m, [])
  else
    let c := cancelCmd env m sym side tMd
    if !cfg.dryRun && env.room side then
      (m.bumpSeed.setSlot sym side { q with state := .pendingCancel },
        [.pushed c, .logged (cancelLog c q)])
    else (m.bumpSeed, [.refused c])

/-- SRCLINE: src/strategy/market_maker.hpp:107-129 -/
def requote (cfg : EngineConfig) (env : MdEnv) (m : MarketMaker) (sym : Fin kMaxSymbols)
    (side : OrdSide) (px : ℚ) (tMd : ℤ) : MarketMaker × List Effect :=
  let q := m.slot sym side
  match q.state with
  | .pendingNew | .pendingCancel => (m, [])
  | .live =>
    if |q.price - px| < cfg.tickSize * (1 / 2) then (m, [])
    else cancelSide cfg env m sym side tMd
  | .none =>
    let c := newCmd cfg env m sym side px tMd
    if !cfg.dryRun && env.room side then
      (m.bumpSeed.setSlot sym side
          { q with state := .pendingNew, clOrdId := c.clOrdId, price := px, qty := c.qty },
        [.pushed c, .logged (newLog c)])
    else (m.bumpSeed, [.refused c])

/-- The price `decide` quotes on a side of a wide market.
SRCLINE: src/strategy/market_maker.hpp:95-96 -/
def target (cfg : EngineConfig) (ob : OrderBook) : OrdSide → ℚ
  | .buy => ob.bestBid + cfg.tickSize
  | .sell => ob.bestAsk - cfg.tickSize

/-- The two targets of one snapshot are too close to quote inside the market.
SRCLINE: src/strategy/market_maker.hpp:97 -/
def wouldCross (cfg : EngineConfig) (ob : OrderBook) : Bool :=
  target cfg ob .sell - target cfg ob .buy < cfg.tickSize * (1 / 2)

/-- SRCLINE: src/strategy/market_maker.hpp:90-105 -/
def decide (cfg : EngineConfig) (env : MdEnv) (m : MarketMaker) (sym : Fin kMaxSymbols)
    (ob : OrderBook) (tMd : ℤ) : MarketMaker × List Effect :=
  if ob.spread ≥ cfg.minimumSpread then
    if wouldCross cfg ob then (m, [])
    else
      let b := requote cfg env m sym .buy (target cfg ob .buy) tMd
      let s := requote cfg env b.1 sym .sell (target cfg ob .sell) tMd
      (s.1, b.2 ++ s.2)
  else
    let b := cancelSide cfg env m sym .buy tMd
    let s := cancelSide cfg env b.1 sym .sell tMd
    (s.1, b.2 ++ s.2)

/-- The snapshot record of one book.
SRCLINE: src/strategy/market_maker.hpp:153-159 -/
def bookSnapshot (t : ℤ) (s : Fin kMaxSymbols) (ob : OrderBook) : BookSnapshot :=
  { tNs := t, symbolId := s, nBids := ob.nBids, nAsks := ob.nAsks, bidPx := ob.bidPx,
    bidQty := ob.bidQty, askPx := ob.askPx, askQty := ob.askQty }

/-- SRCLINE: src/strategy/market_maker.hpp:149-162 -/
def pushSnapshots (m : MarketMaker) (t : ℤ) : List Effect :=
  (List.finRange kMaxSymbols).filterMap fun s =>
    if (m.books s).nBids = 0 ∧ (m.books s).nAsks = 0 then none
    else some (.snapshot (bookSnapshot t s (m.books s)))

/-- The log line of an execution.
SRCLINE: src/strategy/market_maker.hpp:57-59 -/
def execLog (ex : ExecEvent) : LogRecord :=
  { tNs := ex.tRecvNs, kind := .exec, symbolId := ex.symbolId, side := ex.side,
    px := ex.lastPx, qty := ex.lastQty, clOrdId := ex.clOrdId }

/-- One turn of the loop that drains execution reports.
SRCLINE: src/strategy/market_maker.hpp:53-63 -/
def execIter (m : MarketMaker) (ex : ExecEvent) : Option (MarketMaker × List Effect) :=
  (m.oms.onExec ex).map fun o =>
    ({ m with oms := o },
      .consumed ex :: if ex.kind.isFill then [.trade ex, .logged (execLog ex)] else [])

/-- The snapshot of `ev` applied to its book.
SRCLINE: src/strategy/market_maker.hpp:71-72 -/
def applyMd (cfg : EngineConfig) (m : MarketMaker) (sym : Fin kMaxSymbols) (ev : MdEvent) :
    MarketMaker :=
  { m with books :=
      Function.update m.books sym ((m.books sym).applySnapshot ev cfg.bookDepth) }

/-- The periodic push of all books to the persister.
SRCLINE: src/strategy/market_maker.hpp:78-81 -/
def snapshotTimer (cfg : EngineConfig) (m : MarketMaker) (tDeq : ℤ) : MarketMaker × List Effect :=
  if tDeq ≥ m.nextSnapshotNs then
    ({ m with nextSnapshotNs := tDeq + cfg.snapshotIntervalMs * 1000000 }, m.pushSnapshots tDeq)
  else (m, [])

/-- The market-data part of one turn of the loop.
SRCLINE: src/strategy/market_maker.hpp:66-82 -/
def mdIter (cfg : EngineConfig) (env : MdEnv) (m : MarketMaker) (ev : MdEvent) :
    Option (MarketMaker × List Effect) :=
  if h : ev.symbolId < kMaxSymbols then
    let sym : Fin kMaxSymbols := ⟨ev.symbolId, h⟩
    let a := m.applyMd cfg sym ev
    let d := if (a.books sym).hasBba then decide cfg env a sym (a.books sym) ev.tRecvNs else (a, [])
    let s := snapshotTimer cfg d.1 env.tDeq
    some (s.1, .took ev :: d.2 ++ s.2)
  else none

end MarketMaker

/-- What the strategy loop is fed. -/
inductive Input where
  | exec (e : ExecEvent)
  | md (ev : MdEvent) (env : MdEnv)

/-- The symbol id of the event. -/
def Input.symbolId : Input → ℕ
  | .exec e => e.symbolId
  | .md ev _ => ev.symbolId

/-- One strategy-loop step.
SRCLINE: src/strategy/market_maker.hpp:49-85 -/
def strategyStep (cfg : EngineConfig) (m : MarketMaker) :
    Input → Option (MarketMaker × List Effect)
  | .exec e => m.execIter e
  | .md ev env => m.mdIter cfg env ev

end MmEngine.Model
