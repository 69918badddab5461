import MmEngine.Model.Venue

/-!
# The life of an order

The engine and a FIX-conformant venue, with every way an order or a cancel request can end: an
order is filled, canceled, rejected, expires or is done for the day, and a request is answered by
the report of the cancel or by an OrderCancelReject.  The messages of the venue travel in one
first-in first-out channel; `crack` knows the execution reports among them and `fromApp` drops
the others (src/fix/fix_app.hpp:93-100).  The channels never drop and the session is always
logged on.  No code of the repository stands behind the venue.
-/

set_option autoImplicit false

namespace MmEngine.Model

/-- A message of the venue to the engine. -/
inductive VenueMsg where
  | report (r : ExecutionReport)
  /-- An OrderCancelReject (9) of a request, for the order it names. -/
  | cancelReject (clOrdID origClOrdID : Text)
  deriving DecidableEq

/-- The message as `fromApp` is handed it: `FixApp` has no handler for an OrderCancelReject.
SRCLINE: src/fix/fix_app.hpp:93-100, 102, 147 -/
def VenueMsg.app : VenueMsg → AppMsg
  | .report r => .execReport r
  | .cancelReject _ _ => .other

/-- The OrdStatus values that end an order: Filled, Canceled, Rejected, Expired, DoneForDay. -/
def isClosing (ordStatus : Char) : Bool := ordStatus ∈ ['2', '4', '8', 'C', '3']

/-- The report is the last message about its order. -/
def ExecutionReport.closes (r : ExecutionReport) : Bool :=
  match r.ordStatus with
  | .value c => isClosing c
  | _ => false

/-- What the venue may do with one order. -/
inductive LifeAct where
  | ack
  /-- Execute `qty` at `px`, with OrdStatus PendingCancel if `cancelPending` and some is left. -/
  | trade (px qty : ℚ) (cancelPending : Bool)
  /-- Cancel it, on its own or on a request, and report under the id of either. -/
  | cancel (request : Option Text)
  | reject
  | expire
  | doneForDay
  /-- Reject a cancel request. -/
  | refuse (request : Text)
  /-- Send a report that changes nothing: pending, suspended, restated and the like. -/
  | notice (execType ordStatus : Char)
  deriving DecidableEq

namespace VenueOrder

/-- The order ends, with a report of the given ExecType and OrdStatus. -/
def finish (o : VenueOrder) (orderID clOrdID : Text) (status : Char) : VenueOrder × List VenueMsg :=
  ({ o with isOpen := false }, [.report (o.report orderID clOrdID status status 0 none)])

/-- What the act does to the order, and its message; `none` where the act is not conformant. -/
def live (o : VenueOrder) (orderID : Text) : LifeAct → Option (VenueOrder × List VenueMsg)
  | .ack =>
    if o.isOpen ∧ ¬ o.acked then
      some ({ o with acked := true }, [.report (o.report orderID o.clOrdID '0' '0' o.leaves none)])
    else none
  | .trade px qty cancelPending =>
    if o.isOpen ∧ 0 < qty ∧ qty ≤ o.leaves ∧ (cancelPending → o.pending ≠ []) then
      let leaves := o.leaves - qty
      some ({ o with leaves := leaves, isOpen := leaves ≠ 0 },
        [.report (o.report orderID o.clOrdID 'F' (tradeStatus leaves cancelPending) leaves
          (some (px, qty)))])
    else none
  | .cancel request =>
    if o.isOpen ∧ request.all o.pending.contains then
      some (o.finish orderID (request.getD o.clOrdID) '4')
    else none
  | .reject => if o.isOpen then some (o.finish orderID o.clOrdID '8') else none
  | .expire => if o.isOpen then some (o.finish orderID o.clOrdID 'C') else none
  | .doneForDay => if o.isOpen then some (o.finish orderID o.clOrdID '3') else none
  | .refuse request =>
    if o.pending.contains request then
      some ({ o with pending := o.pending.erase request }, [.cancelReject request o.clOrdID])
    else none
  | .notice execType ordStatus =>
    if execType ∈ ['0', '3', '4', '8', 'C', 'F'] ∨ isClosing ordStatus then none
    else some (o, [.report (o.report orderID o.clOrdID execType ordStatus o.leaves none)])

end VenueOrder

/-- A new order is open, and a cancel request is pending for the order it names. -/
def takeOrder (os : List VenueOrder) : OrderMsg → List VenueOrder
  | .newOrderSingle o =>
    os ++ [{ clOrdID := o.clOrdID, symbol := o.symbol, side := o.side, leaves := o.orderQty }]
  | .orderCancelRequest x => os.map fun o =>
    if o.clOrdID = x.origClOrdID then { o with pending := x.clOrdID :: o.pending } else o

/-- What the engine has consumed of the venue's messages. -/
inductive Consumed where
  /-- The strategy applied the event of a report. -/
  | report (r : ExecutionReport)
  /-- `fromApp` dropped an OrderCancelReject for the order; whether the order is still open, and
  whether its slot is then `Live`. -/
  | cancelReject (origClOrdID : Text) (isOpen live : Bool)
  deriving DecidableEq

/-- The engine, the venue and what is in flight between them. -/
structure Session where
  mm : MarketMaker
  orders : List VenueOrder := []
  ordRing : List OrderCmd := []
  toVenue : List OrderMsg := []
  toEngine : List VenueMsg := []
  /-- The exec ring; each event with the report it was made from. -/
  execRing : List (ExecutionReport × ExecEvent) := []
  /-- What the engine has consumed, oldest first. -/
  consumed : List Consumed := []

/-- One step of one party. -/
inductive SessionAct where
  /-- The strategy takes a snapshot. -/
  | md (seq : ℕ) (msg : MarketDataSnapshot) (now : ℤ) (env : MdEnv)
  /-- The strategy takes an execution report. -/
  | exec
  /-- The sender sends a command. -/
  | send
  /-- The venue takes a message. -/
  | recv
  /-- The venue does something with the order at a position of its list. -/
  | act (order : ℕ) (orderID : Text) (a : LifeAct)
  /-- The reader takes a message. -/
  | read (now : ℤ)

namespace Session

/-- The order with the ClOrdID is open at the venue. -/
def isOpenAt (s : Session) (t : Text) : Bool := s.orders.any fun o => o.clOrdID = t ∧ o.isOpen

/-- A slot that is `Live` refers to the order with the ClOrdID. -/
def isLive (s : Session) (t : Text) : Bool :=
  (List.finRange kMaxSymbols).any fun sym => [OrdSide.buy, .sell].any fun side =>
    (s.mm.slot sym side).state = .live ∧ printId (s.mm.slot sym side).clOrdId = t

/-- One step, with what the strategy did in it.
SRCLINE: src/strategy/market_maker.hpp:53-82, src/main.cpp:217, src/fix/fix_app.hpp:93-229 -/
def step (cfg : EngineConfig) (s : Session) : SessionAct → Option (Session × List Effect)
  | .md seq msg now env =>
    match (FixApp.init cfg).onMarketData seq msg now with
    | .ok (some ev) => (s.mm.mdIter cfg env ev).map fun r =>
        ({ s with mm := r.1, ordRing := s.ordRing ++ pushedCmds r.2 }, r.2)
    | _ => none
  | .exec =>
    match s.execRing with
    | [] => none
    | (r, e) :: rest => (s.mm.execIter e).map fun x =>
        ({ s with mm := x.1, execRing := rest, consumed := s.consumed ++ [.report r] }, x.2)
  | .send =>
    match s.ordRing with
    | [] => none
    | c :: rest => ((FixApp.init cfg).sendOrderCmd c).map fun m =>
        ({ s with ordRing := rest, toVenue := s.toVenue ++ [m] }, [])
  | .recv =>
    match s.toVenue with
    | [] => none
    | m :: rest => some ({ s with toVenue := rest, orders := takeOrder s.orders m }, [])
  | .act order orderID a =>
    s.orders[order]?.bind fun o => (o.live orderID a).map fun x =>
      ({ s with orders := s.orders.set order x.1, toEngine := s.toEngine ++ x.2 }, [])
  | .read now =>
    match s.toEngine with
    | [] => none
    | msg :: rest =>
      match msg, ((FixApp.init cfg).fromApp {} msg.app now).2 with
      | .report r, some (.exec e) =>
        some ({ s with toEngine := rest, execRing := s.execRing ++ [(r, e)] }, [])
      | .cancelReject _ orig, _ =>
        some ({ s with toEngine := rest,
                       consumed := s.consumed ++ [.cancelReject orig (s.isOpenAt orig) (s.isLive orig)] }, [])
      | _, _ => some ({ s with toEngine := rest }, [])

end Session

end MmEngine.Model
