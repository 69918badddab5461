import MmEngine.Model.OrderPath
import Mathlib.Algebra.Order.Ring.Rat

/-!
# A FIX-conformant venue

What the engine may expect from the other end of the session, as a party that chooses freely
among everything a conformant venue may do; no code of the repository stands behind it.  It
acknowledges each order once, reports each execution under the order's own ClOrdID with the
quantity that is left, and sends Canceled or Rejected only for orders it has closed.  The
OrdStatus of an execution is Filled exactly when nothing is left; otherwise it is
PartiallyFilled, or PendingCancel while a cancel request for the order is pending.  A
confirmed cancel may go out under the id of the order or of the request.
-/

set_option autoImplicit false

namespace MmEngine.Model

/-- An order the venue has received. -/
structure VenueOrder where
  clOrdID : Text
  symbol : Text
  side : Char
  /-- The quantity not executed yet. -/
  leaves : ℚ
  acked : Bool := false
  isOpen : Bool := true
  /-- The ids of the cancel requests that are pending. -/
  pending : List Text := []
  deriving DecidableEq

/-- What the venue may do with one order. -/
inductive OrderAct where
  /-- Acknowledge it. -/
  | ack
  /-- Execute `qty` at `px`, with OrdStatus PendingCancel if `cancelPending` and some is left. -/
  | trade (px qty : ℚ) (cancelPending : Bool)
  /-- Report it Canceled (`'4'`) or Rejected (`'8'`), and close it if it is open. -/
  | close (execType : Char) (request : Option Text)
  /-- Reject a cancel request.  An OrderCancelReject is no execution report. -/
  | refuse (request : Text)
  /-- Send a report of another type. -/
  | notice (execType ordStatus : Char)
  deriving DecidableEq

namespace VenueOrder

/-- A report about the order. -/
def report (o : VenueOrder) (orderID clOrdID : Text) (execType ordStatus : Char) (leaves : ℚ)
    (last : Option (ℚ × ℚ)) : ExecutionReport :=
  { orderID := .value orderID, clOrdID := .value clOrdID, execType := .value execType,
    ordStatus := .value ordStatus, symbol := .value o.symbol, side := .value o.side,
    leavesQty := .value leaves,
    lastPx := match last with
      | some (px, _) => .value px
      | none => .absent,
    lastQty := match last with
      | some (_, qty) => .value qty
      | none => .absent }

/-- The OrdStatus of an execution that leaves `leaves`. -/
def tradeStatus (leaves : ℚ) (cancelPending : Bool) : Char :=
  if leaves = 0 then '2' else if cancelPending then '6' else '1'

/-- What the act does to the order, and its report; `none` where the act is not conformant. -/
def act (o : VenueOrder) (orderID : Text) : OrderAct → Option (VenueOrder × List ExecutionReport)
  | .ack =>
    if o.acked then none
    else some ({ o with acked := true }, [o.report orderID o.clOrdID '0' '0' o.leaves none])
  | .trade px qty cancelPending =>
    if o.isOpen ∧ 0 < qty ∧ qty ≤ o.leaves ∧ (cancelPending → o.pending ≠ []) then
      let leaves := o.leaves - qty
      some ({ o with leaves := leaves, isOpen := leaves ≠ 0 },
        [o.report orderID o.clOrdID 'F' (tradeStatus leaves cancelPending) leaves (some (px, qty))])
    else none
  | .close execType request =>
    if (execType = '4' ∨ execType = '8') ∧ ∀ t ∈ request, t ∈ o.pending then
      some ({ o with isOpen := false },
        [o.report orderID (request.getD o.clOrdID) execType execType 0 none])
    else none
  | .refuse request =>
    if request ∈ o.pending then some ({ o with pending := o.pending.erase request }, []) else none
  | .notice execType ordStatus =>
    if execType ∈ ['0', '4', '8', 'F'] then none
    else some (o, [o.report orderID o.clOrdID execType ordStatus o.leaves none])

end VenueOrder

/-- One act of the venue: the order it is about, the OrderID it gives it, and the act. -/
structure VenueAct where
  order : ℕ
  orderID : Text := "1".toList
  act : OrderAct
  deriving DecidableEq

/-- A new order is open, and a cancel request is pending for the open order it names. -/
def venueRecv (os : List VenueOrder) : OrderMsg → List VenueOrder
  | .newOrderSingle o =>
    os ++ [{ clOrdID := o.clOrdID, symbol := o.symbol, side := o.side, leaves := o.orderQty }]
  | .orderCancelRequest x => os.map fun o =>
    if o.isOpen ∧ o.clOrdID = x.origClOrdID then { o with pending := x.clOrdID :: o.pending } else o

def venueAct (os : List VenueOrder) (a : VenueAct) :
    Option (List VenueOrder × List ExecutionReport) :=
  os[a.order]?.bind fun o => (o.act a.orderID a.act).map fun r => (os.set a.order r.1, r.2)

/-- The venue at the other end of the session; it reports in acts of its own only. -/
def venue : Exchange :=
  { State := List VenueOrder, Act := VenueAct, recv := fun os m => (venueRecv os m, []),
    act := venueAct }

end MmEngine.Model
