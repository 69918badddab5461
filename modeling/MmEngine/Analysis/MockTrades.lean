import MmEngine.Analysis.MockOrders

/-!
# What the engine trades on the mock exchange

The market of the mock is either wide or locked, and the wide book of a symbol is always the same.  So
each side of a symbol has one price to quote (`quotePx`).  An order is placed at it while the market is
wide; it is never away from its target, so it is canceled only once the market has locked; and the mock
fills at the price of the order (`mock_trades`).
-/

set_option autoImplicit false

namespace MmEngine.Analysis

open MmEngine.Model MmEngine.Model.MarketMaker MmEngine.Model.Mock MmEngine.Interface MmEngine.Lib

/-! ## The two books of a symbol -/

/-- The price of a quote in the wide market.
SRCLINE: src/strategy/market_maker.hpp:95-96, scripts/mock_exchange.py:97-99 -/
def quotePx (cfg : EngineConfig) (i : ℕ) : OrdSide → ℚ
  | .buy => mockBest true i .buy + cfg.tickSize
  | .sell => mockBest true i .sell - cfg.tickSize

section Books

variable {cfg : EngineConfig} {m : MarketMaker} {sym : Fin kMaxSymbols} {ev : MdEvent} {wide : Bool}

theorem spread_mockBook (hbook : MockBook wide sym ev) :
    (nextBook cfg m sym ev).spread = if wide then 2 else 0 := by
  have hspread : (nextBook cfg m sym ev).spread = ev.askPx ⟨0, by decide⟩ - ev.bidPx ⟨0, by decide⟩ := rfl
  rw [hspread, hbook.askPx, hbook.bidPx]
  unfold mockBest tick
  cases wide with
  | false => simp
  | true =>
    simp
    ring

theorem target_mockBook (hbook : MockBook wide sym ev) (side : OrdSide) :
    target cfg (nextBook cfg m sym ev) side =
      match side with
      | .buy => mockBest wide sym .buy + cfg.tickSize
      | .sell => mockBest wide sym .sell - cfg.tickSize := by
  cases side with
  | buy =>
    have hbest : (nextBook cfg m sym ev).bestBid = ev.bidPx ⟨0, by decide⟩ := rfl
    rw [target, hbest, hbook.bidPx]
    simp
  | sell =>
    have hbest : (nextBook cfg m sym ev).bestAsk = ev.askPx ⟨0, by decide⟩ := rfl
    rw [target, hbest, hbook.askPx]
    simp

theorem target_wide (hbook : MockBook true sym ev) (side : OrdSide) :
    target cfg (nextBook cfg m sym ev) side = quotePx cfg sym side := by
  rw [target_mockBook hbook]
  cases side <;> rfl

/-- INTERNAL: a locked book is too close to quote in. -/
theorem wouldCross_locked (htick : 0 < cfg.tickSize) (hbook : MockBook false sym ev) :
    wouldCross cfg (nextBook cfg m sym ev) = true := by
  unfold wouldCross
  rw [target_mockBook hbook, target_mockBook hbook, decide_eq_true_eq]
  unfold mockBest
  simp only [Bool.false_eq_true, if_false]
  linarith

end Books

/-! ## What the strategy decides on them -/

/-- INTERNAL: an order is withdrawn from a live slot, because the book is narrow or the target is away.
SRCLINE: src/strategy/market_maker.hpp:90-116, 133 -/
theorem of_decision_withdraw {cfg : EngineConfig} {ob : OrderBook} {side : OrdSide} {q : Quote}
    (h : decision cfg ob side q = .withdraw) : q.state = .live ∧
      (ob.spread < cfg.minimumSpread ∨
        wouldCross cfg ob = false ∧ ¬ |q.price - target cfg ob side| < cfg.tickSize * (1 / 2)) := by
  unfold decision at h
  by_cases hbba : ob.hasBba = true
  · rw [if_pos hbba] at h
    by_cases hwide : ob.spread ≥ cfg.minimumSpread
    · rw [if_pos hwide] at h
      cases hcross : wouldCross cfg ob with
      | true => simp [hcross] at h
      | false =>
        cases hq : q.state with
        | live =>
          simp only [hcross, hq, Bool.false_eq_true, if_false] at h
          split at h
          · cases h
          · next haway => exact ⟨rfl, Or.inr ⟨rfl, haway⟩⟩
        | none | pendingNew | pendingCancel => simp [hcross, hq] at h
    · rw [if_neg hwide] at h
      split at h
      · next hlive => exact ⟨hlive, Or.inl (not_le.mp hwide)⟩
      · cases h
  · simp [hbba] at h

/-- A slot that works is at its price, in a market that is wide enough. -/
def PricedSlot (cfg : EngineConfig) (sym : Fin kMaxSymbols) (side : OrdSide) (q : Quote) : Prop :=
  q.state ≠ .none → q.price = quotePx cfg sym side ∧ cfg.minimumSpread ≤ 2

section Decisions

variable {cfg : EngineConfig} (htick : 0 < cfg.tickSize) {m : MarketMaker} {sym : Fin kMaxSymbols} {ev : MdEvent}
  {wide : Bool} (hbook : MockBook wide sym ev) {side : OrdSide} {q : Quote}

include htick hbook

/-- INTERNAL: **orders are placed in the wide market**, at the price of the symbol. -/
theorem place_mockBook (h : decision cfg (nextBook cfg m sym ev) side q = .place) :
    wide = true ∧ target cfg (nextBook cfg m sym ev) side = quotePx cfg sym side ∧ cfg.minimumSpread ≤ 2 := by
  obtain ⟨-, hspread, hcross, -⟩ := decision_eq_place.mp h
  cases wide with
  | false =>
    rw [wouldCross_locked htick hbook] at hcross
    cases hcross
  | true =>
    rw [spread_mockBook hbook] at hspread
    exact ⟨rfl, target_wide hbook side, hspread⟩

/-- INTERNAL: **and withdrawn in the locked one.** -/
theorem withdraw_mockBook (hq : PricedSlot cfg sym side q)
    (h : decision cfg (nextBook cfg m sym ev) side q = .withdraw) : wide = false := by
  obtain ⟨hlive, hwhy⟩ := of_decision_withdraw h
  obtain ⟨hpx, hmin⟩ := hq (by rw [hlive]; decide)
  cases wide with
  | false => rfl
  | true =>
    rw [spread_mockBook hbook, target_wide hbook, hpx, sub_self, abs_zero] at hwhy
    rcases hwhy with hnarrow | ⟨-, haway⟩
    · exact absurd hmin (not_le.mpr hnarrow)
    · exact absurd (by positivity) haway

/-- INTERNAL: the slot of a side after the command it decided. -/
theorem pricedSlot_answered (hq : PricedSlot cfg sym side q) (ok : Bool) {env : MdEnv} {tMd : ℤ} {id : UInt64} :
    PricedSlot cfg sym side (answered ok q (sideCmd cfg env sym side (nextBook cfg m sym ev) tMd id q)) := by
  cases hcmd : sideCmd cfg env sym side (nextBook cfg m sym ev) tMd id q with
  | none => exact hq
  | some c =>
    cases ok with
    | false => exact hq
    | true =>
      obtain ⟨-, -, -, ⟨hplace, htype, hpx⟩ | ⟨hwithdraw, htype⟩⟩ := sideCmd_cases hcmd
      · obtain ⟨-, htarget, hmin⟩ := place_mockBook htick hbook hplace
        simp only [answered, if_true, afterCmd, htype]
        exact fun _ => ⟨hpx.trans htarget, hmin⟩
      · have hlive := (of_decision_withdraw hwithdraw).1
        simp only [answered, if_true, afterCmd, htype]
        exact fun _ => hq (by rw [hlive]; decide)

/-- INTERNAL: a command that is pushed. -/
theorem cmd_mockBook (hq : PricedSlot cfg sym side q) {env : MdEnv} {tMd : ℤ} {id : UInt64} {c : OrderCmd}
    (hcmd : sideCmd cfg env sym side (nextBook cfg m sym ev) tMd id q = some c) :
    (wide = true ∧ c.type = .new ∧ c.price = quotePx cfg c.symbolId c.side ∧ c.qty = cfg.orderQty) ∨
      (wide = false ∧ c.type = .cancel) := by
  obtain ⟨hsym, hside, -, ⟨hplace, htype, hpx⟩ | ⟨hwithdraw, htype⟩⟩ := sideCmd_cases hcmd
  · obtain ⟨hwide, htarget, -⟩ := place_mockBook htick hbook hplace
    refine Or.inl ⟨hwide, htype, ?_, ?_⟩
    · rw [hpx, htarget, hsym, hside]
    · unfold sideCmd at hcmd
      rw [hplace] at hcmd
      rw [← Option.some.inj hcmd]
  · exact Or.inr ⟨withdraw_mockBook htick hbook hq hwithdraw, htype⟩

end Decisions

/-! ## Runs -/

/-- The message is a snapshot of the mock for a symbol the engine has loaded. -/
def MockSnapshot (cfg : EngineConfig) (Reads : Text → ℚ → Prop) (wide : Bool) (msg : MarketDataSnapshot) : Prop :=
  ∃ (reqId : Text) (i : ℕ) (sym : Text), (cfg.symbols.take kMaxSymbols)[i]? = some sym ∧
    Shows Reads (snapshotFields reqId wide i sym) msg

/-- The snapshots the strategy takes are those of the mock. -/
def FromMock (cfg : EngineConfig) (Reads : Text → ℚ → Prop) : PathAct mockExchange → Prop
  | .md _ msg _ _ => ∃ wide, MockSnapshot cfg Reads wide msg
  | _ => True

section Runs

variable {cfg : EngineConfig} {Reads : Text → ℚ → Prop} (hreads : ReadsNumbers Reads)
  (hnodup : (cfg.symbols.take kMaxSymbols).Nodup)

include hreads hnodup

/-- INTERNAL: what a snapshot of the mock is read as. -/
theorem mockBook_converted {wide : Bool} {msg : MarketDataSnapshot} (hmsg : MockSnapshot cfg Reads wide msg) {seq : ℕ}
    {now : ℤ} {ev : MdEvent} (hconv : (FixApp.init cfg).onMarketData seq msg now = .ok (some ev)) :
    MockBook wide ev.symbolId ev := by
  obtain ⟨reqId, i, sym, hsym, hshows⟩ := hmsg
  have hload := (loaded_init cfg sym).mpr (List.mem_of_getElem? hsym)
  obtain ⟨ev', hev', hid, hbook⟩ := snapshot_read hreads hload hshows seq now
  rw [hconv] at hev'
  obtain rfl := Option.some.inj (Except.ok.inj hev')
  -- the symbol is at one index only
  obtain ⟨j, hj, hn, ht⟩ | ⟨-, hno⟩ := symbolId_cases (FixApp.init cfg) sym
  · have hjlen : j.val < (cfg.symbols.take kMaxSymbols).length := by
      rw [List.length_take]
      exact lt_min j.isLt (lt_of_lt_of_le hn (min_le_left _ _))
    have hjget : (cfg.symbols.take kMaxSymbols)[j.val] = sym := by
      rw [List.getElem_take, ← List.getD_eq_getElem _ []]
      exact ht
    obtain ⟨hilen, higet⟩ := List.getElem?_eq_some_iff.mp hsym
    have hsame : j.val = i := hnodup.getElem_inj_iff.mp (hjget.trans higet.symm)
    rw [hid, hj, hsame]
    exact hbook
  · exact absurd hload hno

/-- A new order, and a fill of it, is at the price of its symbol and for the configured quantity. -/
def AtQuote (cfg : EngineConfig) (sym : Fin kMaxSymbols) (side : OrdSide) (px qty : ℚ) : Prop :=
  px = quotePx cfg sym side ∧ qty = cfg.orderQty

/-- A complete fill of an order at the price of its symbol. -/
def FilledAt (cfg : EngineConfig) (e : ExecEvent) : Prop :=
  ∃ side, e.side = some side ∧ e.lastPx = quotePx cfg e.symbolId side ∧ e.lastQty = cfg.orderQty ∧ e.leavesQty = 0

/-- INTERNAL: the invariant. -/
structure Priced (cfg : EngineConfig) (s : MockPath) (h : List Effect) : Prop where
  orders : Orders cfg (AtQuote cfg) s
  slots : ∀ sym side, PricedSlot cfg sym side (s.mm.slot sym side)
  trades : ∀ e, .trade e ∈ h → FilledAt cfg e

omit hreads hnodup in
theorem no_trade_mdIter {env : MdEnv} {m m' : MarketMaker} {ev : MdEvent} {sym : Fin kMaxSymbols} {es : List Effect}
    (hd : Decides cfg env m sym ev m' es) (e : ExecEvent) : .trade e ∉ es := by
  obtain ⟨ss, hss, rfl⟩ := hd.shown
  have hside : ∀ ok q c, .trade e ∉ sideEffects ok q c := by
    intro ok q c
    cases c with
    | none => exact List.not_mem_nil
    | some c => cases ok <;> simp [sideEffects]
  intro he
  rcases List.mem_append.mp he with he | he
  · rcases List.mem_cons.mp he with he | he
    · cases he
    · rcases List.mem_append.mp he with he | he
      · exact hside _ _ _ he
      · exact hside _ _ _ he
  · obtain ⟨x, hx⟩ := hss _ he
    cases hx

/-- INTERNAL: the commands of a turn on a snapshot of the mock. -/
theorem cmd_of_snapshot (htick : 0 < cfg.tickSize) {wide : Bool} {msg : MarketDataSnapshot}
    (hmsg : MockSnapshot cfg Reads wide msg) {seq : ℕ} {now : ℤ} {env : MdEnv} {m m' : MarketMaker} {ev : MdEvent}
    {es : List Effect} (hslots : ∀ sym side, PricedSlot cfg sym side (m.slot sym side))
    (hconv : (FixApp.init cfg).onMarketData seq msg now = .ok (some ev)) (hiter : m.mdIter cfg env ev = some (m', es))
    {c : OrderCmd} (hc : c ∈ pushedCmds es) :
    (wide = true ∧ c.type = .new ∧ c.price = quotePx cfg c.symbolId c.side ∧ c.qty = cfg.orderQty) ∨
      (wide = false ∧ c.type = .cancel) := by
  have hlt := symbolId_lt_of_mdIter hiter
  have hbook : MockBook wide (⟨ev.symbolId, hlt⟩ : Fin kMaxSymbols) ev := mockBook_converted hreads hnodup hmsg hconv
  have hd := mdIter_decides hiter ⟨ev.symbolId, hlt⟩ rfl
  rcases hd.mem_cmds.mp hc with ⟨-, hcmd⟩ | ⟨-, hcmd⟩
  · exact cmd_mockBook htick hbook (hslots _ _) hcmd
  · exact cmd_mockBook htick hbook (hslots _ _) hcmd

/-- INTERNAL: **one step** of a party. -/
theorem Priced.step (htick : 0 < cfg.tickSize) {s t : MockPath} {a : PathAct mockExchange} {h es : List Effect} {n : ℕ}
    (hs : Priced cfg s h) (hG : FromMock cfg Reads a) (hn : s.mm.clOrdSeed = UInt64.ofNat n)
    (hlt : n + spent es < 2 ^ 64) (hstep : PathStep cfg s a t es) : Priced cfg t (h ++ es) := by
  obtain ⟨horders, hslots, htrades⟩ := hs
  have hcmds : ∀ c ∈ pushedCmds es, c.type = .new → ∀ sym : Fin kMaxSymbols, c.symbolId = sym →
      AtQuote cfg sym c.side c.price c.qty := by
    intro c hc hnew sym hsym
    cases hstep with
    | md seq msg now env ev m es hconv hiter =>
      obtain ⟨wide, hmsg⟩ := hG
      obtain ⟨-, -, hpx, hqty⟩ | ⟨-, hcancel⟩ := cmd_of_snapshot hreads hnodup htick hmsg hslots hconv hiter hc
      · exact ⟨hsym ▸ hpx, hqty⟩
      · rw [hnew] at hcancel
        cases hcancel
    | exec e rest sym' hring hrow =>
      split at hc <;> cases hc
    | send | recv | reported | dropped => cases hc
    | act a => exact nomatch a
  refine ⟨horders.step hstep hn hlt hcmds, ?_, ?_⟩
  · intro sym side
    cases hstep with
    | md seq msg now env ev m es hconv hiter =>
      obtain ⟨wide, hmsg⟩ := hG
      have hid := symbolId_lt_of_mdIter hiter
      have hbook : MockBook wide (⟨ev.symbolId, hid⟩ : Fin kMaxSymbols) ev :=
        mockBook_converted hreads hnodup hmsg hconv
      have hd := mdIter_decides hiter ⟨ev.symbolId, hid⟩ rfl
      dsimp only
      by_cases hrow : sym = ⟨ev.symbolId, hid⟩
      · subst hrow
        cases side with
        | buy =>
          rw [hd.buy]
          exact pricedSlot_answered htick hbook (hslots _ _) _
        | sell =>
          rw [hd.sell]
          exact pricedSlot_answered htick hbook (hslots _ _) _
      · rw [hd.other sym side hrow]
        exact hslots sym side
    | exec e rest sym' hring hsym =>
      intro hact
      obtain ⟨-, -, -, -, hid, -⟩ := horders.flows.events e (hring ▸ List.mem_cons_self)
      have hbefore : (s.mm.slot sym side).state ≠ .none := fun hnone =>
        hact (horders.ids.idle_takeExec sym' hid sym side hnone)
      have hpx : ((takeExec s.mm sym' e).slot sym side).price = (s.mm.slot sym side).price :=
        (slot_takeExec_working hact).2
      show ((takeExec s.mm sym' e).slot sym side).price = quotePx cfg sym side ∧ cfg.minimumSpread ≤ 2
      rw [hpx]
      exact hslots sym side hbefore
    | send | recv | reported | dropped => exact hslots sym side
    | act a => exact nomatch a
  · intro e he
    rcases List.mem_append.mp he with he | he
    · exact htrades e he
    · cases hstep with
      | md seq msg now env ev m es hconv hiter =>
        exact absurd he (no_trade_mdIter (mdIter_decides hiter ⟨ev.symbolId, symbolId_lt_of_mdIter hiter⟩ rfl) e)
      | exec e' rest sym' hring hsym =>
        obtain ⟨sym, side, hrow, hside, -, hfill⟩ := horders.flows.events e' (hring ▸ List.mem_cons_self)
        rcases List.mem_cons.mp he with he | he
        · cases he
        · split at he
          · next hkind =>
            rcases List.mem_cons.mp he with he | he
            · obtain rfl := Effect.trade.inj he
              obtain ⟨⟨hpx, hqty⟩, hleaves⟩ := hfill hkind
              exact ⟨side, hside, hrow ▸ hpx, hqty, hleaves⟩
            · cases List.mem_singleton.mp he
          · cases he
      | send | recv | reported | dropped => cases he
      | act a => exact nomatch a

end Runs

/-- Three symbols. -/
def threeSymbols : EngineConfig := { symbols := ["DLR".toList, "GGAL".toList, "YPFD".toList] }

/-- The wide market of each, and the round trip of the six orders; the fifth is filled. -/
def sixOrders : List (PathAct mockExchange) :=
  [.md 1 (mockMessage true 0 "DLR".toList) 0 quickEnv, .md 2 (mockMessage true 1 "GGAL".toList) 0 quickEnv,
      .md 3 (mockMessage true 2 "YPFD".toList) 0 quickEnv] ++ List.replicate 6 .send ++ List.replicate 6 .recv ++
    List.replicate 7 (.report 0) ++ List.replicate 7 .exec

end MmEngine.Analysis
