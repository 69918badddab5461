import MmEngine.Interface.DecisionRules
import Mathlib.Tactic.Linarith
import Mathlib.Tactic.NormNum

/-!
# Quotes inside the market

The assignment of the engine (docs/ANALYSIS.md:112-136): in a wide market improve both
sides by one tick, in a narrow one stand down.  With a positive tick every order of a turn
stands strictly inside the snapshot that caused it, and a buy and a sell of one turn keep
clear of each other.  In a narrow two-sided market nothing is placed and every live order is
asked to be cancelled, unless `dry_run` holds every command back.
-/

set_option autoImplicit false

namespace MmEngine.Analysis

open MmEngine.Model MmEngine.Model.MarketMaker MmEngine.Interface MmEngine.Lib

/-- The best bid of the snapshot. -/
def topBid (ev : MdEvent) : ℚ := ev.bidPx ⟨0, kMaxDepth_pos⟩

/-- The best ask of the snapshot. -/
def topAsk (ev : MdEvent) : ℚ := ev.askPx ⟨0, kMaxDepth_pos⟩

/-- One tick better than the best price of the side. -/
def improved (cfg : EngineConfig) (ev : MdEvent) : OrdSide → ℚ
  | .buy => topBid ev + cfg.tickSize
  | .sell => topAsk ev - cfg.tickSize

/-- A `New` command that the snapshot `ev`, which left the book `ob`, calls for. -/
structure CalledFor (cfg : EngineConfig) (ev : MdEvent) (ob : OrderBook) (c : OrderCmd) : Prop where
  symbol : c.symbolId = ev.symbolId
  book : 0 < ob.nBids ∧ 0 < ob.nAsks
  snapshot : 0 < ev.nBids ∧ 0 < ev.nAsks
  wide : topAsk ev - topBid ev ≥ cfg.minimumSpread
  price : c.price = improved cfg ev c.side
  inside : topBid ev < c.price ∧ c.price < topAsk ev

/-- The cancel request of the order in slot `q`. -/
def CancelOf (sym : Fin kMaxSymbols) (side : OrdSide) (q : Quote) (c : OrderCmd) : Prop :=
  c.type = .cancel ∧ c.symbolId = sym ∧ c.side = side ∧ c.origClOrdId = q.clOrdId ∧ c.qty = q.qty

instance (sym : Fin kMaxSymbols) (side : OrdSide) (q : Quote) (c : OrderCmd) :
    Decidable (CancelOf sym side q c) :=
  inferInstanceAs (Decidable (_ ∧ _ ∧ _ ∧ _ ∧ _))

/-- INTERNAL: a visible side of the book is a side of the snapshot, and the other way round,
for a positive depth.
SRCLINE: src/book/order_book.hpp:33-34 -/
theorem cutDepth_pos_iff {n : ℕ} {d : ℤ} (hd : 1 ≤ d) (hd' : d ≤ 5) :
    0 < OrderBook.cutDepth n d ↔ 0 < n := by
  unfold OrderBook.cutDepth OrderBook.toUint16
  split
  · next hgt => omega
  · rfl

/-- INTERNAL: the book of a turn counts as two-sided exactly when its snapshot is. -/
theorem nextBook_hasBba_iff {cfg : EngineConfig} (hd : 1 ≤ cfg.bookDepth) (hd' : cfg.bookDepth ≤ 5)
    (m : MarketMaker) (sym : Fin kMaxSymbols) (ev : MdEvent) :
    (nextBook cfg m sym ev).hasBba = true ↔ 0 < ev.nBids ∧ 0 < ev.nAsks := by
  unfold OrderBook.hasBba
  rw [Bool.and_eq_true, decide_eq_true_eq, decide_eq_true_eq]
  exact and_congr (cutDepth_pos_iff hd hd') (cutDepth_pos_iff hd hd')

theorem target_nextBook (cfg : EngineConfig) (m : MarketMaker) (sym : Fin kMaxSymbols)
    (ev : MdEvent) (side : OrdSide) :
    target cfg (nextBook cfg m sym ev) side = improved cfg ev side := by
  cases side <;> rfl

/-- INTERNAL: improved prices that do not cross are inside the market and apart.
SRCLINE: src/strategy/market_maker.hpp:95-97 -/
theorem improved_inside {cfg : EngineConfig} (htick : 0 < cfg.tickSize) {m : MarketMaker}
    {sym : Fin kMaxSymbols} {ev : MdEvent} (h : wouldCross cfg (nextBook cfg m sym ev) = false) :
    improved cfg ev .buy < improved cfg ev .sell ∧
      ∀ side, topBid ev < improved cfg ev side ∧ improved cfg ev side < topAsk ev := by
  unfold wouldCross at h
  rw [target_nextBook, target_nextBook] at h
  have hge : cfg.tickSize * (1 / 2) ≤ improved cfg ev .sell - improved cfg ev .buy := by
    simpa using h
  unfold improved at hge ⊢
  dsimp only at hge ⊢
  refine ⟨by linarith, ?_⟩
  intro side
  cases side <;> constructor <;> dsimp only <;> linarith

/-- INTERNAL: in a two-sided narrow market a live slot is withdrawn.
SRCLINE: src/strategy/market_maker.hpp:99-103, 131-139 -/
theorem sideCmd_narrow {cfg : EngineConfig} {ob : OrderBook} (hbba : ob.hasBba = true)
    (hnarrow : ¬ ob.spread ≥ cfg.minimumSpread) (env : MdEnv) (sym : Fin kMaxSymbols)
    (side : OrdSide) (tMd : ℤ) (id : UInt64) {q : Quote} (hlive : q.state = .live) :
    ∃ c, sideCmd cfg env sym side ob tMd id q = some c ∧ CancelOf sym side q c := by
  have hd : decision cfg ob side q = .withdraw := by
    unfold decision
    rw [if_pos hbba, if_neg hnarrow, if_pos hlive]
  unfold sideCmd
  rw [hd]
  exact ⟨_, rfl, rfl, rfl, rfl, rfl, rfl⟩

/-- **Every order stands inside the snapshot it answers, and a narrow market is left.**  For a
positive tick and a depth of one to five levels, in every strategy state, reachable or not: the
`New` commands of a turn are called for by its snapshot, a buy and a sell among them do not
meet, and below the minimum spread of a two-sided snapshot there are none and every live order
gets its cancel, when commands are sent at all and the ring has room.
SRCLINE: src/strategy/market_maker.hpp:66-147 -/
theorem quotes_inside_market (cfg : EngineConfig) (htick : 0 < cfg.tickSize)
    (hdepth : 1 ≤ cfg.bookDepth) (hdepth' : cfg.bookDepth ≤ 5) (m m' : MarketMaker) (ev : MdEvent)
    (env : MdEnv) (es : List Effect) (sym : Fin kMaxSymbols) (hsym : sym.val = ev.symbolId)
    (hturn : mdIter cfg env m ev = some (m', es)) :
    (∀ c ∈ pushedCmds es, c.type = .new → CalledFor cfg ev (m'.books sym) c) ∧
      (∀ b ∈ pushedCmds es, ∀ s ∈ pushedCmds es, b.type = .new → s.type = .new →
        b.side = .buy → s.side = .sell → b.price < s.price) ∧
      (topAsk ev - topBid ev < cfg.minimumSpread → (∀ c ∈ pushedCmds es, c.type ≠ .new) ∧
        (0 < ev.nBids → 0 < ev.nAsks → cfg.dryRun = false →
          ∀ side, env.room side = true → (m.slot sym side).state = .live →
            ∃ c ∈ pushedCmds es, CancelOf sym side (m.slot sym side) c)) := by
  have hd := mdIter_decides hturn sym hsym
  have hbook : m'.books sym = nextBook cfg m sym ev := by
    rw [hd.books, Function.update_self]
  have hspread : (nextBook cfg m sym ev).spread = topAsk ev - topBid ev := rfl
  refine ⟨?_, ?_, ?_⟩
  · intro c hc hnew
    obtain ⟨hcsym, hprice, hbba, hwide, hcross, -⟩ := hd.new hc hnew
    rw [target_nextBook] at hprice
    constructor
    · rw [hcsym, hsym]
    · rw [hbook]
      unfold OrderBook.hasBba at hbba
      simpa using hbba
    · exact (nextBook_hasBba_iff hdepth hdepth' m sym ev).mp hbba
    · rw [← hspread]
      exact hwide
    · exact hprice
    · rw [hprice]
      exact (improved_inside htick hcross).2 c.side
  · intro b hb s hs hbnew hsnew hbuy hsell
    obtain ⟨-, hbprice, -, -, hcross, -⟩ := hd.new hb hbnew
    obtain ⟨-, hsprice, -⟩ := hd.new hs hsnew
    rw [hbprice, hsprice, hbuy, hsell, target_nextBook, target_nextBook]
    exact (improved_inside htick hcross).1
  · intro hnarrow
    rw [← hspread] at hnarrow
    have hnot : ¬ (nextBook cfg m sym ev).spread ≥ cfg.minimumSpread := not_le.mpr hnarrow
    constructor
    · intro c hc hnew
      obtain ⟨-, -, -, hwide, -⟩ := hd.new hc hnew
      exact hnot hwide
    · intro hbids hasks hdry side hroom hlive
      have hbba := (nextBook_hasBba_iff hdepth hdepth' m sym ev).mpr ⟨hbids, hasks⟩
      have hok : accepts cfg env side = true := by
        unfold accepts
        rw [hdry, hroom]
        rfl
      cases side with
      | buy =>
        obtain ⟨c, hcmd, hcancel⟩ :=
          sideCmd_narrow hbba hnot env sym .buy ev.tRecvNs m.clOrdSeed hlive
        exact ⟨c, hd.mem_cmds.mpr (Or.inl ⟨hok, hcmd⟩), hcancel⟩
      | sell =>
        obtain ⟨c, hcmd, hcancel⟩ := sideCmd_narrow hbba hnot env sym .sell ev.tRecvNs
          (spend m.clOrdSeed (buyCmd cfg env m sym ev)) hlive
        exact ⟨c, hd.mem_cmds.mpr (Or.inr ⟨hok, hcmd⟩), hcancel⟩

/-- A fresh strategy in a wide market: both sides are quoted half a point inside. -/
theorem quotes_inside_market_fresh :
    ∃ m' es, mdIter { tickSize := 1 / 2 } quickEnv (MarketMaker.init 1000000000 0)
        (topOfBook 0 99 101) = some (m', es) ∧ (pushedCmds es).map (·.price) = [199 / 2, 201 / 2] ∧
      ∀ c ∈ pushedCmds es, c.type = .new →
        CalledFor { tickSize := 1 / 2 } (topOfBook 0 99 101) (m'.books ⟨0, by decide⟩) c := by
  have heval : (mdIter { tickSize := 1 / 2 } quickEnv (MarketMaker.init 1000000000 0)
      (topOfBook 0 99 101)).map (fun x => (pushedCmds x.2).map (·.price)) =
      some [199 / 2, 201 / 2] := by
    decide +kernel
  obtain ⟨⟨m', es⟩, hturn, hprices⟩ := Option.map_eq_some_iff.mp heval
  exact ⟨m', es, hturn, hprices, (quotes_inside_market { tickSize := 1 / 2 } (by norm_num)
    (by decide) (by decide) _ _ _ _ _ ⟨0, by decide⟩ rfl hturn).1⟩

/-- A narrow market, half a point wide. -/
def narrowMarket : MdEvent := topOfBook 0 100 (201 / 2)

/-- A snapshot with a bid and no offer. -/
def lostOffer : MdEvent := { topOfBook 0 100 0 with nAsks := 0 }

/-- A live slot that the snapshot leaves without a cancel, below the minimum spread and with
room in the ring, after a report with the id `0` of an empty slot made it live. -/
def LeavesLive (cfg : EngineConfig) (ev : MdEvent) : Prop :=
  ∃ m h m' es, run (recorded (strategyStep cfg)) (MarketMaker.init 1000000000 0, [])
      [.exec { clOrdId := 0, kind := .new }] = some (m, h) ∧
    mdIter cfg quickEnv m ev = some (m', es) ∧ topAsk ev - topBid ev < cfg.minimumSpread ∧
    (m.slot ⟨0, by decide⟩ .buy).state = .live ∧ quickEnv.room .buy = true ∧
    ¬ ∃ c ∈ pushedCmds es, CancelOf ⟨0, by decide⟩ .buy (m.slot ⟨0, by decide⟩ .buy) c

/-- INTERNAL: a live slot that gets no command at all is left live. -/
theorem leavesLive_of_eval {cfg : EngineConfig} {ev : MdEvent}
    (hnarrow : topAsk ev - topBid ev < cfg.minimumSpread)
    (heval : ((run (recorded (strategyStep cfg)) (MarketMaker.init 1000000000 0, [])
      [.exec { clOrdId := 0, kind := .new }]).bind fun x =>
        (mdIter cfg quickEnv x.1 ev).map fun y =>
          ((x.1.slot ⟨0, by decide⟩ .buy).state, pushedCmds y.2)) = some (.live, [])) :
    LeavesLive cfg ev := by
  obtain ⟨⟨m, h⟩, hrun, hx⟩ := Option.bind_eq_some_iff.mp heval
  obtain ⟨⟨m', es⟩, hturn, hy⟩ := Option.map_eq_some_iff.mp hx
  obtain ⟨hlive, hnone⟩ := Prod.mk.inj hy
  refine ⟨m, h, m', es, hrun, hturn, hnarrow, hlive, rfl, ?_⟩
  rintro ⟨c, hc, -⟩
  rw [hnone] at hc
  cases hc

/-- A dry run cancels nothing, and neither does a snapshot that lost a side. -/
theorem live_left_in_narrow_market :
    LeavesLive { minimumSpread := 1, dryRun := true } narrowMarket ∧
      LeavesLive { minimumSpread := 1 } lostOffer := by
  constructor
  · apply leavesLive_of_eval
    · norm_num [narrowMarket, topOfBook, topAsk, topBid]
    · decide +kernel
  · apply leavesLive_of_eval
    · norm_num [lostOffer, topOfBook, topAsk, topBid]
    · decide +kernel

end MmEngine.Analysis
