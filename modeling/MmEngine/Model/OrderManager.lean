import MmEngine.Model.Events
import Mathlib.Logic.Function.Basic

/-!
# The order-state machine of the strategy thread

One working quote per (symbol, side), in a fixed array `q_[kMaxSymbols][2]`
(src/oms/order_manager.hpp).  Row `0` of the array is `Buy` and row `1` is `Sell`, so
the array is indexed by `OrdSide` here and the scan over `s = 0, 1` visits `Buy`
first.  The symbol id of a report indexes the array unchecked: `onExec` answers `none`
where that access leaves the array.
-/

set_option autoImplicit false

namespace MmEngine.Model

/-- SRCLINE: src/oms/order_manager.hpp:9 -/
inductive QuoteState where
  | none
  | pendingNew
  | live
  | pendingCancel
  deriving DecidableEq, Repr

/-- SRCLINE: src/oms/order_manager.hpp:11-17 -/
structure Quote where
  state : QuoteState := .none
  clOrdId : UInt64 := 0
  price : ℚ := 0
  qty : ℚ := 0
  exchOrderId : Text := []
  deriving DecidableEq

/-- The `switch` of `on_exec` on one slot.
SRCLINE: src/oms/order_manager.hpp:30-44 -/
def Quote.onExec (q : Quote) (e : ExecEvent) : Quote :=
  match e.kind with
  | .new => { q with state := .live, exchOrderId := e.orderId }
  | .partFill => { q with qty := e.leavesQty }
  | .filled | .canceled | .rejected => {}
  | .replaced | .other => q

/-- SRCLINE: src/oms/order_manager.hpp:53-54 -/
structure OrderManager where
  q : Fin kMaxSymbols → OrdSide → Quote := fun _ _ => {}

namespace OrderManager

/-- SRCLINE: src/oms/order_manager.hpp:21-23 -/
def quote (o : OrderManager) (sym : Fin kMaxSymbols) (side : OrdSide) : Quote := o.q sym side

/-- Assignment through the reference `quote` returns. -/
def setQuote (o : OrderManager) (sym : Fin kMaxSymbols) (side : OrdSide) (x : Quote) :
    OrderManager :=
  { o with q := Function.update o.q sym (Function.update (o.q sym) side x) }

/-- The slot loop of `on_exec` once the row of the symbol is found: the first slot that
stores the report's id takes the report.
SRCLINE: src/oms/order_manager.hpp:27-46 -/
def onExecAt (o : OrderManager) (sym : Fin kMaxSymbols) (e : ExecEvent) : OrderManager :=
  if (o.quote sym .buy).clOrdId = e.clOrdId then
    o.setQuote sym .buy ((o.quote sym .buy).onExec e)
  else if (o.quote sym .sell).clOrdId = e.clOrdId then
    o.setQuote sym .sell ((o.quote sym .sell).onExec e)
  else o

/-- SRCLINE: src/oms/order_manager.hpp:26-47 -/
def onExec (o : OrderManager) (e : ExecEvent) : Option OrderManager :=
  if h : e.symbolId < kMaxSymbols then some (o.onExecAt ⟨e.symbolId, h⟩ e) else Option.none

@[simp] theorem quote_setQuote_self (o : OrderManager) (sym : Fin kMaxSymbols) (side : OrdSide)
    (x : Quote) : (o.setQuote sym side x).quote sym side = x := by
  simp [quote, setQuote]

theorem quote_setQuote (o : OrderManager) (sym sym' : Fin kMaxSymbols) (side side' : OrdSide)
    (x : Quote) :
    (o.setQuote sym side x).quote sym' side' =
      if sym' = sym ∧ side' = side then x else o.quote sym' side' := by
  unfold quote setQuote
  by_cases hs : sym' = sym
  · subst hs
    by_cases hd : side' = side
    · subst hd
      simp
    · simp [hd]
  · simp [hs]

end OrderManager

end MmEngine.Model
