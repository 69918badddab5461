import Mathlib.Data.Rat.Defs
import Mathlib.Data.Fintype.Pi

/-!
# The event types of the engine

The POD records that cross the single-producer/single-consumer rings
(src/common/events.hpp), under the source's field names.  `double` is exact rational
arithmetic, `int64_t` clock readings are integers, order ids keep their 64 bits, and
symbol ids and level counts are naturals.  Padding fields carry nothing and are left
out.
-/

set_option autoImplicit false

namespace MmEngine.Model

/-- The engine tracks at most this many instruments.
SRCLINE: src/common/events.hpp:9 -/
abbrev kMaxSymbols : ℕ := 8

/-- The deepest book the venue publishes.
SRCLINE: src/common/events.hpp:10 -/
abbrev kMaxDepth : ℕ := 5

/-- Every side has a best level. -/
theorem kMaxDepth_pos : 0 < kMaxDepth := by decide

/-- `UINT32_MAX`, the value `symbol_id` answers for a symbol that is not ours. -/
abbrev uint32Max : ℕ := 4294967295

/-- The bytes of a `std::string` or of a NUL-terminated `char` array. -/
abbrev Text := List Char

/-- SRCLINE: src/common/events.hpp:30 -/
inductive OrdCmdType where
  | new
  | cancel
  deriving DecidableEq, Repr

/-- SRCLINE: src/common/events.hpp:31 -/
inductive OrdSide where
  | buy
  | sell
  deriving DecidableEq, Repr

/-- SRCLINE: src/common/events.hpp:47 -/
inductive ExecKind where
  | new
  | canceled
  | filled
  | partFill
  | rejected
  | replaced
  | other
  deriving DecidableEq, Repr

/-- SRCLINE: src/common/events.hpp:63 -/
inductive LogKind where
  | mdTick
  | orderNew
  | orderCxl
  | exec
  | info
  deriving DecidableEq, Repr

/-- One full-refresh snapshot of one instrument.
SRCLINE: src/common/events.hpp:14-26 -/
structure MdEvent where
  tRecvNs : ℤ
  symbolId : ℕ
  nBids : ℕ
  nAsks : ℕ
  bidPx : Fin kMaxDepth → ℚ
  bidQty : Fin kMaxDepth → ℚ
  askPx : Fin kMaxDepth → ℚ
  askQty : Fin kMaxDepth → ℚ
  lastPx : ℚ
  seq : ℕ
  deriving DecidableEq

/-- A snapshot with one unit at the best bid and one at the best ask. -/
def topOfBook (sym : ℕ) (bid ask : ℚ) : MdEvent :=
  { tRecvNs := 0, symbolId := sym, nBids := 1, nAsks := 1,
    bidPx := fun i => if i = 0 then bid else 0, bidQty := fun i => if i = 0 then 1 else 0,
    askPx := fun i => if i = 0 then ask else 0, askQty := fun i => if i = 0 then 1 else 0,
    lastPx := 0, seq := 0 }

/-- A command of the strategy to the sender thread.
SRCLINE: src/common/events.hpp:33-44 -/
structure OrderCmd where
  type : OrdCmdType
  side : OrdSide
  symbolId : ℕ
  price : ℚ := 0
  qty : ℚ := 0
  clOrdId : UInt64 := 0
  origClOrdId : UInt64 := 0
  tMdNs : ℤ := 0
  tDecidedNs : ℤ := 0
  deriving DecidableEq

/-- An execution report on its way to the strategy.  `side` is `none` for the value `0`
that zero-initialisation leaves there, which names neither `Buy` nor `Sell`.
SRCLINE: src/common/events.hpp:49-60 -/
structure ExecEvent where
  tRecvNs : ℤ := 0
  clOrdId : UInt64 := 0
  kind : ExecKind := .new
  side : Option OrdSide := none
  symbolId : ℕ := 0
  lastPx : ℚ := 0
  lastQty : ℚ := 0
  leavesQty : ℚ := 0
  orderId : Text := []
  deriving DecidableEq

/-- One line of the operations log.
SRCLINE: src/common/events.hpp:65-75 -/
structure LogRecord where
  tNs : ℤ := 0
  kind : LogKind
  side : Option OrdSide := none
  symbolId : ℕ := 0
  px : ℚ := 0
  qty : ℚ := 0
  clOrdId : UInt64 := 0
  text : Text := []
  deriving DecidableEq

/-- A book snapshot for persistence.
SRCLINE: src/common/events.hpp:78-84 -/
structure BookSnapshot where
  tNs : ℤ
  symbolId : ℕ
  nBids : ℕ
  nAsks : ℕ
  bidPx : Fin kMaxDepth → ℚ
  bidQty : Fin kMaxDepth → ℚ
  askPx : Fin kMaxDepth → ℚ
  askQty : Fin kMaxDepth → ℚ
  deriving DecidableEq

/-- The kinds of report that end an order's life for the engine. -/
def ExecKind.terminal : ExecKind → Bool
  | .filled | .canceled | .rejected => true
  | _ => false

/-- The kinds of report that carry an execution. -/
def ExecKind.isFill : ExecKind → Bool
  | .filled | .partFill => true
  | _ => false

end MmEngine.Model
