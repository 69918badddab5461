import MmEngine.Model.OrderPath

/-!
# The mock exchange

The order handling of scripts/mock_exchange.py: `Session.handle` for NewOrderSingle (D) and
OrderCancelRequest (F), and `Session.exec_report`.  Every report counts `order_no` up by one.
A new order is acknowledged, and filled completely if the count is then a multiple of five; a
cancel request is answered with Canceled.  A report echoes the ClOrdID (11), Symbol (55) and
Side (54) of the message it answers.
-/

set_option autoImplicit false

namespace MmEngine.Model

/-- SRCLINE: scripts/mock_exchange.py:70-78 -/
structure MockSession where
  orderNo : ℕ := 0
  deriving DecidableEq

/-- `f"MOCK{self.order_no:06d}"`.
SRCLINE: scripts/mock_exchange.py:120 -/
def mockOrderId (n : ℕ) : Text :=
  "MOCK".toList ++ List.replicate (6 - (Nat.toDigits 10 n).length) '0' ++ Nat.toDigits 10 n

/-- The fields of a message that `exec_report` echoes. -/
structure Echo where
  clOrdID : Text
  symbol : Text
  side : Char

namespace MockSession

/-- SRCLINE: scripts/mock_exchange.py:117-134 -/
def execReport (s : MockSession) (m : Echo) (execType ordStatus : Char) (leaves : ℚ)
    (last : Option (ℚ × ℚ)) : MockSession × ExecutionReport :=
  ({ s with orderNo := s.orderNo + 1 },
    { orderID := .value (mockOrderId (s.orderNo + 1)), execType := .value execType,
      ordStatus := .value ordStatus, clOrdID := .value m.clOrdID, symbol := .value m.symbol,
      side := .value m.side, leavesQty := .value leaves,
      lastPx := match last with
        | some (px, _) => .value px
        | none => .absent,
      lastQty := match last with
        | some (_, qty) => .value qty
        | none => .absent })

/-- SRCLINE: scripts/mock_exchange.py:183-193 -/
def handle (s : MockSession) : OrderMsg → MockSession × List ExecutionReport
  | .newOrderSingle o =>
    let m : Echo := { clOrdID := o.clOrdID, symbol := o.symbol, side := o.side }
    let (s, new) := s.execReport m '0' '0' o.orderQty none
    if s.orderNo % 5 = 0 then
      let (s, fill) := s.execReport m 'F' '2' 0 (some (o.price, o.orderQty))
      (s, [new, fill])
    else (s, [new])
  | .orderCancelRequest x =>
    let m : Echo := { clOrdID := x.clOrdID, symbol := x.symbol, side := x.side }
    let (s, canceled) := s.execReport m '4' '4' 0 none
    (s, [canceled])

end MockSession

/-- The mock exchange at the other end of the session; it does nothing on its own. -/
def mockExchange : Exchange :=
  { State := MockSession, Act := Empty, recv := MockSession.handle, act := fun _ a => a.elim }

end MmEngine.Model
