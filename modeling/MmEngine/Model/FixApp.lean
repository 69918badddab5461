import MmEngine.Model.Config
import MmEngine.Model.CString
import Mathlib.Logic.Function.Basic

/-!
# The FIX edge of the engine

`FixApp` (src/fix/fix_app.hpp) turns received messages into the events of the rings, and
the commands of the strategy into messages.  QuickFIX is the library underneath: a field
of a message is unset, or set to a text its type rejects, or set to a value, and the
getters throw in the first two cases.  `fromApp` catches whatever is thrown and drops the
message, so a handler here answers `Except`.

The members the constructor fills are `FixApp`; the two the callbacks change later,
`logged_on_` and `md_seq_`, are `FixSession`.
-/

set_option autoImplicit false

namespace MmEngine.Model

/-- A field of a received message as the typed getters see it. -/
inductive Field (α : Type) where
  | absent
  | malformed
  | value (a : α)
  deriving DecidableEq

/-- What the getters and `crack` throw. -/
inductive FixError where
  | fieldNotFound
  | incorrectDataFormat
  | unsupportedMessageType
  deriving DecidableEq

namespace Field

variable {α β : Type}

/-- `msg.get(f); f.getValue()`. -/
def get : Field α → Except FixError α
  | .absent => .error .fieldNotFound
  | .malformed => .error .incorrectDataFormat
  | .value a => .ok a

/-- `if (msg.isSet(f)) { msg.get(f); x = read(f.getValue()); }` over an `x` that starts as `d`. -/
def getIfSet (d : β) (read : α → β) : Field α → Except FixError β
  | .absent => .ok d
  | .malformed => .error .incorrectDataFormat
  | .value a => .ok (read a)

end Field

/-- The fields of an ExecutionReport (8) that the engine reads. -/
structure ExecutionReport where
  clOrdID : Field Text := .absent
  execType : Field Char := .absent
  ordStatus : Field Char := .absent
  side : Field Char := .absent
  symbol : Field Text := .absent
  lastPx : Field ℚ := .absent
  lastQty : Field ℚ := .absent
  leavesQty : Field ℚ := .absent
  orderID : Field Text := .absent
  deriving DecidableEq

/-- One repeating group of a MarketDataSnapshotFullRefresh (W). -/
structure MdEntry where
  mdEntryType : Field Char
  mdEntryPx : Field ℚ := .absent
  mdEntrySize : Field ℚ := .absent
  deriving DecidableEq

/-- The fields of a MarketDataSnapshotFullRefresh (W) that the engine reads. -/
structure MarketDataSnapshot where
  symbol : Field Text := .absent
  noMDEntries : Field ℤ := .absent
  entries : List MdEntry := []
  deriving DecidableEq

/-- A snapshot with one unit at the best bid and one at the best ask. -/
def twoSided (t : Text) (bid ask : ℚ) : MarketDataSnapshot :=
  { symbol := .value t, noMDEntries := .value 2,
    entries := [{ mdEntryType := .value '0', mdEntryPx := .value bid, mdEntrySize := .value 1 },
      { mdEntryType := .value '1', mdEntryPx := .value ask, mdEntrySize := .value 1 }] }

/-- A received application message; `other` is every type `crack` does not know. -/
inductive AppMsg where
  | marketData (m : MarketDataSnapshot)
  | execReport (m : ExecutionReport)
  | other
  deriving DecidableEq

/-- What a message becomes on its way to the strategy. -/
inductive Incoming where
  | md (ev : MdEvent)
  | exec (e : ExecEvent)
  deriving DecidableEq

/-- A NewOrderSingle (D) the sender builds. -/
structure NewOrderSingle where
  clOrdID : Text
  side : Char
  ordType : Char := '2'
  account : Text
  symbol : Text
  securityExchange : Text := "ROFX".toList
  orderQty : ℚ
  price : ℚ
  timeInForce : Char := '0'
  deriving DecidableEq

/-- An OrderCancelRequest (F) the sender builds. -/
structure OrderCancelRequest where
  clOrdID : Text
  origClOrdID : Text
  side : Char
  account : Text
  symbol : Text
  securityExchange : Text := "ROFX".toList
  orderQty : ℚ
  deriving DecidableEq

/-- What the sender hands to `Session::sendToTarget`. -/
inductive OrderMsg where
  | newOrderSingle (o : NewOrderSingle)
  | orderCancelRequest (x : OrderCancelRequest)
  deriving DecidableEq

/-- The MarketDataRequest (V) the engine sends at logon. -/
structure MarketDataRequest where
  mdReqID : Text := "MM-SUB-1".toList
  subscriptionRequestType : Char := '1'
  marketDepth : ℤ
  mdUpdateType : Char := '0'
  aggregatedBook : Bool := true
  mdEntryTypes : List Char := ['0', '1', '2']
  /-- The symbols, each with its exchange. -/
  relatedSyms : List (Text × Text)

/-- SRCLINE: src/fix/fix_app.hpp:264-271 -/
structure FixApp where
  symbols : Fin kMaxSymbols → Text
  nSymbols : ℕ
  account : Text

/-- SRCLINE: src/fix/fix_app.hpp:272-273 -/
structure FixSession where
  loggedOn : Bool := false
  mdSeq : ℕ := 0
  deriving DecidableEq

/-- `ExecType` to `ExecKind`.
SRCLINE: src/fix/fix_app.hpp:157-164 -/
def execKindOf (c : Char) : ExecKind :=
  if c = '0' then .new
  else if c = '4' then .canceled
  else if c = 'F' then .filled
  else if c = '8' then .rejected
  else if c = '5' then .replaced
  else .other

/-- The kind of a report.  `ExecEvent ev{}` starts as `New`, and `OrdStatus` is looked at for
executions only.
SRCLINE: src/fix/fix_app.hpp:154-170 -/
def reportKind (msg : ExecutionReport) : Except FixError ExecKind := do
  let kind ← msg.execType.getIfSet .new execKindOf
  if kind = .filled then
    msg.ordStatus.getIfSet .filled fun os => if os = '1' then .partFill else .filled
  else
    pure kind

/-- One market-data entry read into the event.
SRCLINE: src/fix/fix_app.hpp:124-137 -/
def readEntry (ev : MdEvent) (g : MdEntry) : Except FixError MdEvent := do
  let t ← g.mdEntryType.get
  let p ← g.mdEntryPx.getIfSet 0 id
  let q ← g.mdEntrySize.getIfSet 0 id
  if t = '0' then
    if h : ev.nBids < kMaxDepth then
      pure { ev with bidPx := Function.update ev.bidPx ⟨ev.nBids, h⟩ p,
                     bidQty := Function.update ev.bidQty ⟨ev.nBids, h⟩ q, nBids := ev.nBids + 1 }
    else pure ev
  else if t = '1' then
    if h : ev.nAsks < kMaxDepth then
      pure { ev with askPx := Function.update ev.askPx ⟨ev.nAsks, h⟩ p,
                     askQty := Function.update ev.askQty ⟨ev.nAsks, h⟩ q, nAsks := ev.nAsks + 1 }
    else pure ev
  else if t = '2' then pure { ev with lastPx := p }
  else pure ev

/-- The entry loop.  `getGroup` throws past the last group of the message.
SRCLINE: src/fix/fix_app.hpp:123-138 -/
def readEntries (ev : MdEvent) : ℕ → List MdEntry → Except FixError MdEvent
  | 0, _ => .ok ev
  | _ + 1, [] => .error .fieldNotFound
  | n + 1, g :: gs => (readEntry ev g).bind fun ev => readEntries ev n gs

namespace FixApp

/-- SRCLINE: src/fix/fix_app.hpp:54-59 -/
def init (cfg : EngineConfig) : FixApp :=
  { symbols := fun i => cfg.symbols.getD i [],
    nSymbols := min cfg.symbols.length kMaxSymbols,
    account := cfg.account }

/-- The linear scan over the subscribed symbols.
SRCLINE: src/fix/fix_app.hpp:258-262 -/
def symbolId (app : FixApp) (s : Text) : ℕ :=
  match (List.finRange kMaxSymbols).find? fun i => i.val < app.nSymbols ∧ app.symbols i = s with
  | some i => i
  | none => uint32Max

/-- `onMessage(MarketDataSnapshotFullRefresh)` up to the push; `none` is a symbol not ours.
SRCLINE: src/fix/fix_app.hpp:103-138 -/
def onMarketData (app : FixApp) (seq : ℕ) (msg : MarketDataSnapshot) (now : ℤ) :
    Except FixError (Option MdEvent) := do
  let sym ← msg.symbol.get
  if app.symbolId sym = uint32Max then
    pure none
  else
    let count ← msg.noMDEntries.get
    let ev ← readEntries
      { tRecvNs := now, symbolId := app.symbolId sym, nBids := 0, nAsks := 0,
        bidPx := fun _ => 0, bidQty := fun _ => 0, askPx := fun _ => 0, askQty := fun _ => 0,
        lastPx := 0, seq := seq } count.toNat msg.entries
    pure (some ev)

/-- `onMessage(ExecutionReport)` up to the push.
SRCLINE: src/fix/fix_app.hpp:148-183 -/
def onExecutionReport (app : FixApp) (msg : ExecutionReport) (now : ℤ) :
    Except FixError ExecEvent := do
  let clOrdId ← msg.clOrdID.getIfSet 0 strtoull
  let kind ← reportKind msg
  let side ← msg.side.getIfSet none fun s => some (if s = '1' then OrdSide.buy else .sell)
  let symbolId ← msg.symbol.getIfSet 0 app.symbolId
  let lastPx ← msg.lastPx.getIfSet 0 id
  let lastQty ← msg.lastQty.getIfSet 0 id
  let leavesQty ← msg.leavesQty.getIfSet 0 id
  let orderId ← msg.orderID.getIfSet [] copyOrderId
  pure { tRecvNs := now, clOrdId := clOrdId, kind := kind, side := side, symbolId := symbolId,
         lastPx := lastPx, lastQty := lastQty, leavesQty := leavesQty, orderId := orderId }

/-- `fromApp`: the handler of the message, and nothing when it throws.  The market-data
counter goes up before anything can throw.
SRCLINE: src/fix/fix_app.hpp:93-100, 108 -/
def fromApp (app : FixApp) (ses : FixSession) (msg : AppMsg) (now : ℤ) :
    FixSession × Option Incoming :=
  match msg with
  | .marketData m =>
    let seq := (ses.mdSeq + 1) % 2 ^ 32
    ({ ses with mdSeq := seq }, (app.onMarketData seq m now).toOption.join.map .md)
  | .execReport m => (ses, (app.onExecutionReport m now).toOption.map .exec)
  | .other => (ses, none)

/-- The request for market data; the depth is that of the configuration.
SRCLINE: src/fix/fix_app.hpp:232-253 -/
def subscribeMarketData (app : FixApp) (bookDepth : ℤ) : MarketDataRequest :=
  { marketDepth := bookDepth,
    relatedSyms := ((List.finRange kMaxSymbols).filter fun i => i.val < app.nSymbols).map fun i =>
      (app.symbols i, "ROFX".toList) }

/-- `FIX::Side_BUY` or `FIX::Side_SELL`. -/
def sideChar : OrdSide → Char
  | .buy => '1'
  | .sell => '2'

/-- The message of a command; `none` where `symbols_[c.symbol_id]` leaves the array.
SRCLINE: src/fix/fix_app.hpp:192-229 -/
def sendOrderCmd (app : FixApp) (c : OrderCmd) : Option OrderMsg :=
  if h : c.symbolId < kMaxSymbols then
    match c.type with
    | .new => some (.newOrderSingle
        { clOrdID := printId c.clOrdId, side := sideChar c.side, account := app.account,
          symbol := app.symbols ⟨c.symbolId, h⟩, orderQty := c.qty, price := c.price })
    | .cancel => some (.orderCancelRequest
        { clOrdID := printId c.clOrdId, origClOrdID := printId c.origClOrdId,
          side := sideChar c.side, account := app.account,
          symbol := app.symbols ⟨c.symbolId, h⟩, orderQty := c.qty })
  else none

end FixApp

end MmEngine.Model
