import MmEngine.Interface.DecisionRules
import MmEngine.Interface.SnapshotRules
import Mathlib.Tactic.NormNum

/-!
# Entries without a price

MDEntryPx is optional in a snapshot message (config/FIX50SP2_rofx_2.0.52.xml:3510-3541).  The
entry loop leaves `p = 0` for an entry that lacks it and still counts the entry as a level
(fix_app.hpp:127-133), so the decision three steps later sees a best price of `0`.  A turn
prices from what its message carries exactly when, of a message whose book will count as
two-sided, the first bid and the first offer entry carry a price.
-/

set_option autoImplicit false

namespace MmEngine.Analysis

open MmEngine.Model MmEngine.Model.MarketMaker MmEngine.Interface MmEngine.Lib

/-- The price the first entry of the type carries, if there is such an entry and it carries
one. -/
def firstPx (t : Char) (msg : MarketDataSnapshot) : Option ℚ :=
  match (entriesOf t (readGroups msg)).head? with
  | some g =>
    match g.mdEntryPx with
    | .value p => some p
    | _ => none
  | none => none

/-- The number of levels of the type that the book will show.
SRCLINE: src/book/order_book.hpp:33-34 -/
def shownLevels (cfg : EngineConfig) (t : Char) (msg : MarketDataSnapshot) : ℕ :=
  OrderBook.cutDepth (min kMaxDepth (entriesOf t (readGroups msg)).length) cfg.bookDepth

/-- A message whose book will count as two-sided carries a price in its first bid and in its
first offer entry. -/
def CarriesBest (cfg : EngineConfig) (msg : MarketDataSnapshot) : Prop :=
  0 < shownLevels cfg '0' msg → 0 < shownLevels cfg '1' msg →
    (firstPx '0' msg).isSome = true ∧ (firstPx '1' msg).isSome = true

/-- The turn worked with prices of the message: the best bid and ask of a book that counts as
two-sided are its explicit first prices, and every `New` command is a tick from them. -/
structure PricedFrom (cfg : EngineConfig) (msg : MarketDataSnapshot) (ob : OrderBook)
    (cs : List OrderCmd) : Prop where
  tested : ob.hasBba = true →
    firstPx '0' msg = some ob.bestBid ∧ firstPx '1' msg = some ob.bestAsk
  quoted : ∀ c ∈ cs, c.type = .new → ∃ bid ask, firstPx '0' msg = some bid ∧
    firstPx '1' msg = some ask ∧
      c.price = match c.side with
        | .buy => bid + cfg.tickSize
        | .sell => ask - cfg.tickSize

/-- INTERNAL: the first level of a side is the first price of its type, if that is carried. -/
theorem firstPx_eq {t : Char} {msg : MarketDataSnapshot} {n : ℕ} {px qty : Fin kMaxDepth → ℚ}
    (hs : SideShows n px qty (entriesOf t (readGroups msg))) (hsome : (firstPx t msg).isSome = true) :
    firstPx t msg = some (px ⟨0, by decide⟩) := by
  unfold firstPx at *
  rw [hs.px ⟨0, by decide⟩, ← List.head?_eq_getElem?]
  cases hg : (entriesOf t (readGroups msg)).head? with
  | none => simp [hg] at hsome
  | some g =>
    cases hp : g.mdEntryPx with
    | absent => simp [hg, hp] at hsome
    | malformed => simp [hg, hp] at hsome
    | value p => simp [numberOr0, hp]

/-- **A turn prices from what its message carries exactly when the message carries its best
prices.**  For every message that is converted, in every strategy state.
SRCLINE: src/fix/fix_app.hpp:115-137, src/strategy/market_maker.hpp:75-105 -/
theorem pricedFrom_iff_carriesBest (cfg : EngineConfig) (seq : ℕ) (msg : MarketDataSnapshot)
    (now : ℤ) (ev : MdEvent) (hconv : (FixApp.init cfg).onMarketData seq msg now = .ok (some ev))
    (m m' : MarketMaker) (env : MdEnv) (es : List Effect) (sym : Fin kMaxSymbols)
    (hsym : sym.val = ev.symbolId) (hturn : mdIter cfg env m ev = some (m', es)) :
    PricedFrom cfg msg (m'.books sym) (pushedCmds es) ↔ CarriesBest cfg msg := by
  have hd := mdIter_decides hturn sym hsym
  have hreads := onMarketData_readsAs hconv
  have hbook : m'.books sym = nextBook cfg m sym ev := by
    rw [hd.books, Function.update_self]
  have htwo : (nextBook cfg m sym ev).hasBba = true ↔
      0 < shownLevels cfg '0' msg ∧ 0 < shownLevels cfg '1' msg := by
    unfold OrderBook.hasBba shownLevels
    rw [Bool.and_eq_true, decide_eq_true_eq, decide_eq_true_eq, ← hreads.bids.count,
      ← hreads.asks.count]
    rfl
  rw [hbook]
  constructor
  · intro hpriced hbids hasks
    obtain ⟨hbid, hask⟩ := hpriced.tested (htwo.mpr ⟨hbids, hasks⟩)
    rw [hbid, hask]
    exact ⟨rfl, rfl⟩
  · intro hcarries
    have htested : (nextBook cfg m sym ev).hasBba = true →
        firstPx '0' msg = some (nextBook cfg m sym ev).bestBid ∧
          firstPx '1' msg = some (nextBook cfg m sym ev).bestAsk := by
      intro hbba
      obtain ⟨hbids, hasks⟩ := htwo.mp hbba
      obtain ⟨hbid, hask⟩ := hcarries hbids hasks
      exact ⟨firstPx_eq hreads.bids hbid, firstPx_eq hreads.asks hask⟩
    refine ⟨htested, ?_⟩
    intro c hc hnew
    obtain ⟨-, hprice, hbba, -⟩ := hd.new hc hnew
    obtain ⟨hbid, hask⟩ := htested hbba
    refine ⟨_, _, hbid, hask, ?_⟩
    rw [hprice]
    cases c.side <;> rfl

/-- INTERNAL: a handler that delivered an event neither threw nor turned the message away. -/
theorem eq_ok_of_join {x : Except FixError (Option MdEvent)} {ev : MdEvent}
    (h : x.toOption.join = some ev) : x = .ok (some ev) := by
  cases x with
  | error err => cases h
  | ok r => exact congrArg Except.ok h

/-- A snapshot with both prices. -/
theorem pricedFrom_iff_carriesBest_twoSided :
    ∃ ev m' es, (FixApp.init { symbols := ["A".toList] }).onMarketData 1
        (twoSided "A".toList 99 101) 0 = .ok (some ev) ∧
      mdIter { symbols := ["A".toList] } quickEnv (MarketMaker.init 1000000000 0) ev =
        some (m', es) ∧
      (PricedFrom { symbols := ["A".toList] } (twoSided "A".toList 99 101)
          (m'.books ⟨0, by decide⟩) (pushedCmds es) ↔
        CarriesBest { symbols := ["A".toList] } (twoSided "A".toList 99 101)) := by
  have heval : ((FixApp.init { symbols := ["A".toList] }).onMarketData 1
      (twoSided "A".toList 99 101) 0).toOption.join.map (·.symbolId) = some 0 := by
    decide +kernel
  obtain ⟨ev, hev, hid⟩ := Option.map_eq_some_iff.mp heval
  have hconv := eq_ok_of_join hev
  obtain ⟨m', es, hturn⟩ := strategyStep_total { symbols := ["A".toList] }
    (MarketMaker.init 1000000000 0) (.md ev quickEnv) (by rw [Input.symbolId, hid]; decide)
  exact ⟨ev, m', es, hconv, hturn,
    pricedFrom_iff_carriesBest _ 1 _ 0 ev hconv _ _ _ _ ⟨0, by decide⟩ hid.symm hturn⟩

/-- A bid without a price, and an offer at 101. -/
def unpricedBid : MarketDataSnapshot :=
  { symbol := .value "A".toList, noMDEntries := .value 2,
    entries := [{ mdEntryType := .value '0', mdEntrySize := .value 1 },
      { mdEntryType := .value '1', mdEntryPx := .value 101, mdEntrySize := .value 1 }] }

/-- The unpriced bid looks like a market of 0 to 101: the engine bids half a point and offers
at 100.5. -/
theorem unpricedBid_is_quoted :
    ∃ ev m' es, (FixApp.init { symbols := ["A".toList] }).onMarketData 1 unpricedBid 0 =
        .ok (some ev) ∧
      mdIter { tickSize := 1 / 2, symbols := ["A".toList] } quickEnv
        (MarketMaker.init 1000000000 0) ev = some (m', es) ∧
      (pushedCmds es).map (fun c => (c.type, c.side, c.price)) =
        [(.new, .buy, 1 / 2), (.new, .sell, 201 / 2)] ∧
      firstPx '0' unpricedBid = none ∧
      ¬ PricedFrom { tickSize := 1 / 2, symbols := ["A".toList] } unpricedBid
        (m'.books ⟨0, by decide⟩) (pushedCmds es) := by
  have heval : (((FixApp.init { symbols := ["A".toList] }).onMarketData 1
      unpricedBid 0).toOption.join.bind fun ev =>
        (mdIter { tickSize := 1 / 2, symbols := ["A".toList] } quickEnv
          (MarketMaker.init 1000000000 0) ev).map fun x =>
            (pushedCmds x.2).map fun c => (c.type, c.side, c.price)) =
      some [(.new, .buy, 1 / 2), (.new, .sell, 201 / 2)] := by
    decide +kernel
  obtain ⟨ev, hev, hx⟩ := Option.bind_eq_some_iff.mp heval
  obtain ⟨⟨m', es⟩, hturn, hcmds⟩ := Option.map_eq_some_iff.mp hx
  have hconv := eq_ok_of_join hev
  have hnone : firstPx '0' unpricedBid = none := by decide +kernel
  refine ⟨ev, m', es, hconv, hturn, hcmds, hnone, ?_⟩
  intro hpriced
  cases hes : pushedCmds es with
  | nil => rw [hes] at hcmds; cases hcmds
  | cons c cs =>
    rw [hes] at hcmds hpriced
    have hc := (List.cons.inj hcmds).1
    obtain ⟨hnew, -⟩ := Prod.mk.inj hc
    obtain ⟨bid, ask, hbid, -⟩ := hpriced.quoted c List.mem_cons_self hnew
    rw [hnone] at hbid
    cases hbid

end MmEngine.Analysis
