import MmEngine.Interface.StrategyRules
import Mathlib.Tactic.NormNum

/-!
# What a snapshot leaves live

A snapshot of a two-sided market in which the engine can quote either confirms a live
quote at its target or starts to cancel it; a narrow market cancels every live quote.
Two exits of the loop decide nothing and leave live quotes where they are: a book
without a best bid and ask (market_maker.hpp:75), and a market that is wide by
`minimum_spread` and still too tight to quote inside (market_maker.hpp:97).
-/

set_option autoImplicit false

namespace MmEngine.Analysis

open MmEngine.Model MmEngine.Model.MarketMaker MmEngine.Interface MmEngine.Lib

/-- The book confirms a quote of the side at price `px`: it has both sides, it is wide
enough, and the price is within half a tick of the side's target. -/
def Confirms (cfg : EngineConfig) (ob : OrderBook) (side : OrdSide) (px : ℚ) : Prop :=
  ob.hasBba = true ∧ ob.spread ≥ cfg.minimumSpread ∧
    |px - target cfg ob side| < cfg.tickSize * (1 / 2)

/-- The loop takes no decision on this book. -/
def Undecided (cfg : EngineConfig) (ob : OrderBook) : Prop :=
  ob.hasBba = false ∨ (ob.spread ≥ cfg.minimumSpread ∧ wouldCross cfg ob = true)

/-- INTERNAL: a slot that is live after an accepted decision was confirmed by it.
SRCLINE: src/strategy/market_maker.hpp:90-147 -/
theorem nextQuote_live {cfg : EngineConfig} {ob : OrderBook} {side : OrdSide} {id : UInt64}
    {q : Quote} (hlive : (nextQuote cfg ob side true id q).state = .live) :
    Undecided cfg ob ∨ Confirms cfg ob side (nextQuote cfg ob side true id q).price := by
  cases hbba : ob.hasBba with
  | false => exact Or.inl (Or.inl hbba)
  | true =>
    unfold nextQuote at hlive ⊢
    rw [if_pos hbba] at hlive ⊢
    by_cases hwide : ob.spread ≥ cfg.minimumSpread
    · rw [if_pos hwide] at hlive ⊢
      cases hcross : wouldCross cfg ob with
      | true => exact Or.inl (Or.inr ⟨hwide, hcross⟩)
      | false =>
        right
        rw [hcross] at hlive
        simp only [Bool.false_eq_true, if_false] at hlive ⊢
        cases hq : q.state with
        | none => simp [hq] at hlive
        | pendingNew => simp [hq] at hlive
        | pendingCancel => simp [hq] at hlive
        | live =>
          simp only [hq] at hlive ⊢
          by_cases hnear : |q.price - target cfg ob side| < cfg.tickSize * (1 / 2)
          · rw [if_pos hnear]
            exact ⟨hbba, hwide, hnear⟩
          · rw [if_neg hnear] at hlive
            simp at hlive
    · rw [if_neg hwide] at hlive
      by_cases hq : q.state = .live
      · simp [hq] at hlive
      · simp [hq] at hlive

/-- A snapshot with a best bid and no offer. -/
def bidOnly (sym : ℕ) (bid : ℚ) : MdEvent := { topOfBook sym bid 0 with nAsks := 0 }

end MmEngine.Analysis
