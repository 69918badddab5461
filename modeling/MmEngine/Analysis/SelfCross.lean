import MmEngine.Interface.StrategyRules
import Mathlib.Tactic.Linarith
import Mathlib.Tactic.NormNum

/-!
# When the engine quotes against itself

`decide` refuses to quote when the two targets of one snapshot would cross
(market_maker.hpp:97).  The two slots of a symbol move independently, though: while one
side still waits for its cancel at an old price, the other may be placed at the new
target.  The engine stays clear of itself throughout a run exactly as long as no snapshot
places an order through the price of the opposite slot.
-/

set_option autoImplicit false

namespace MmEngine.Analysis

open MmEngine.Model MmEngine.Model.MarketMaker MmEngine.Interface MmEngine.Lib

/-- The slot holds an order that may be resting at the venue. -/
def Active (q : Quote) : Prop := q.state ≠ .none

/-- No symbol has both sides working at prices that meet. -/
def NoSelfCross (m : MarketMaker) : Prop :=
  ∀ sym, Active (m.slot sym .buy) → Active (m.slot sym .sell) →
    (m.slot sym .buy).price < (m.slot sym .sell).price

/-- The snapshot that left book `ob` places an order in the slot: the market can be quoted,
the slot is free and the command is accepted. -/
def Places (cfg : EngineConfig) (ob : OrderBook) (ok : Bool) (q : Quote) : Prop :=
  ob.hasBba = true ∧ ob.spread ≥ cfg.minimumSpread ∧ wouldCross cfg ob = false ∧
    q.state = .none ∧ ok = true

/-- The snapshot places no order at or through the price of the opposite working slot. -/
def ClearOfOpposite (cfg : EngineConfig) (env : MdEnv) (m : MarketMaker) (ev : MdEvent) : Prop :=
  ∀ sym : Fin kMaxSymbols, sym.val = ev.symbolId →
    (Places cfg ((m.books sym).applySnapshot ev cfg.bookDepth) (!cfg.dryRun && env.room .buy)
        (m.slot sym .buy) → Active (m.slot sym .sell) →
      target cfg ((m.books sym).applySnapshot ev cfg.bookDepth) .buy < (m.slot sym .sell).price) ∧
    (Places cfg ((m.books sym).applySnapshot ev cfg.bookDepth) (!cfg.dryRun && env.room .sell)
        (m.slot sym .sell) → Active (m.slot sym .buy) →
      (m.slot sym .buy).price < target cfg ((m.books sym).applySnapshot ev cfg.bookDepth) .sell)

/-- If the report acknowledges an idle slot, that slot's stored price is clear of the opposite
working slot.  A report that names a working order acknowledges no idle slot. -/
def RevivesClear (m : MarketMaker) (e : ExecEvent) : Prop :=
  ∀ (sym : Fin kMaxSymbols) (side : OrdSide), sym.val = e.symbolId → e.kind = .new →
    Picks m sym e side → ¬ Active (m.slot sym side) →
    (∀ side', side' ≠ side → Active (m.slot sym side')) →
    (m.slot sym .buy).price < (m.slot sym .sell).price

/-- The condition on a step: a snapshot stays clear of the opposite slots, and so does a
report that acknowledges an idle slot. -/
def StaysClear (cfg : EngineConfig) (x : MarketMaker × List Effect) : Input → Prop
  | .exec e => RevivesClear x.1 e
  | .md ev env => ClearOfOpposite cfg env x.1 ev

/-- INTERNAL: a slot after a snapshot works exactly when it worked before or an order was
placed in it, and a placed order stands at the target, any other at its old price.
SRCLINE: src/strategy/market_maker.hpp:107-147 -/
theorem nextQuote_active (cfg : EngineConfig) (ob : OrderBook) (side : OrdSide) (ok : Bool)
    (id : UInt64) (q : Quote) :
    (Active (nextQuote cfg ob side ok id q) ↔ Active q ∨ Places cfg ob ok q) ∧
      (Places cfg ob ok q → (nextQuote cfg ob side ok id q).price = target cfg ob side) ∧
      (Active q → (nextQuote cfg ob side ok id q).price = q.price) := by
  unfold Active Places nextQuote
  by_cases hbba : ob.hasBba = true
  · rw [if_pos hbba]
    by_cases hwide : ob.spread ≥ cfg.minimumSpread
    · rw [if_pos hwide]
      cases hcross : wouldCross cfg ob with
      | true => simp
      | false =>
        simp only [Bool.false_eq_true, if_false]
        cases hq : q.state with
        | none => cases ok <;> simp [hbba, hq]; exact hwide
        | pendingNew => simp [hq]
        | pendingCancel => simp [hq]
        | live =>
          simp only
          split
          · simp [hq]
          · cases ok <;> simp [hq]
    · rw [if_neg hwide]
      by_cases hlive : q.state = .live
      · cases ok <;> simp [hlive]
      · simp [hlive, hwide]
  · rw [if_neg hbba]
    simp [hbba]

/-- INTERNAL: when both targets may be quoted, they are apart.
SRCLINE: src/strategy/market_maker.hpp:97 -/
theorem target_lt_of_not_wouldCross {cfg : EngineConfig} {ob : OrderBook}
    (htick : 0 < cfg.tickSize) (h : wouldCross cfg ob = false) :
    target cfg ob .buy < target cfg ob .sell := by
  unfold wouldCross at h
  have hge : cfg.tickSize * (1 / 2) ≤ target cfg ob .sell - target cfg ob .buy := by
    simpa using h
  linarith

/-- INTERNAL: **one snapshot.**  From a state clear of itself, a snapshot leads to a state
clear of itself exactly when it places no order through the opposite slot. -/
theorem clear_iff_noSelfCross {cfg : EngineConfig} (htick : 0 < cfg.tickSize) {env : MdEnv}
    {m m' : MarketMaker} {ev : MdEvent} {es : List Effect} (hm : NoSelfCross m)
    (h : mdIter cfg env m ev = some (m', es)) : ClearOfOpposite cfg env m ev ↔ NoSelfCross m' := by
  have hlt := symbolId_lt_of_mdIter h
  -- only the symbol of the event can change
  have hreduce : NoSelfCross m' ↔ (Active (m'.slot ⟨ev.symbolId, hlt⟩ .buy) →
      Active (m'.slot ⟨ev.symbolId, hlt⟩ .sell) →
      (m'.slot ⟨ev.symbolId, hlt⟩ .buy).price < (m'.slot ⟨ev.symbolId, hlt⟩ .sell).price) := by
    constructor
    · exact fun hc => hc _
    · intro hc sym
      by_cases hsym : sym.val = ev.symbolId
      · obtain rfl : sym = ⟨ev.symbolId, hlt⟩ := Fin.ext hsym
        exact hc
      · rw [mdIter_slot_other h sym hsym, mdIter_slot_other h sym hsym]
        exact hm sym
  have hclear : ClearOfOpposite cfg env m ev ↔
      (Places cfg (m'.books ⟨ev.symbolId, hlt⟩) (!cfg.dryRun && env.room .buy)
          (m.slot ⟨ev.symbolId, hlt⟩ .buy) → Active (m.slot ⟨ev.symbolId, hlt⟩ .sell) →
        target cfg (m'.books ⟨ev.symbolId, hlt⟩) .buy < (m.slot ⟨ev.symbolId, hlt⟩ .sell).price) ∧
      (Places cfg (m'.books ⟨ev.symbolId, hlt⟩) (!cfg.dryRun && env.room .sell)
          (m.slot ⟨ev.symbolId, hlt⟩ .sell) → Active (m.slot ⟨ev.symbolId, hlt⟩ .buy) →
        (m.slot ⟨ev.symbolId, hlt⟩ .buy).price < target cfg (m'.books ⟨ev.symbolId, hlt⟩) .sell) := by
    rw [mdIter_book h ⟨ev.symbolId, hlt⟩ rfl]
    constructor
    · exact fun hc => hc ⟨ev.symbolId, hlt⟩ rfl
    · intro hc sym hsym
      obtain rfl : sym = ⟨ev.symbolId, hlt⟩ := Fin.ext hsym
      exact hc
  rw [hreduce, hclear]
  obtain ⟨idb, hb⟩ := mdIter_slot h ⟨ev.symbolId, hlt⟩ rfl .buy
  obtain ⟨ids, hs⟩ := mdIter_slot h ⟨ev.symbolId, hlt⟩ rfl .sell
  have hold := hm ⟨ev.symbolId, hlt⟩
  generalize m'.books ⟨ev.symbolId, hlt⟩ = ob at *
  generalize m.slot ⟨ev.symbolId, hlt⟩ .buy = qb at *
  generalize m.slot ⟨ev.symbolId, hlt⟩ .sell = qs at *
  obtain ⟨hbact, hbnew, hbold⟩ :=
    nextQuote_active cfg ob .buy (!cfg.dryRun && env.room .buy) idb qb
  obtain ⟨hsact, hsnew, hsold⟩ :=
    nextQuote_active cfg ob .sell (!cfg.dryRun && env.room .sell) ids qs
  rw [hb, hs, hbact, hsact]
  constructor
  · rintro ⟨hcb, hcs⟩ (hab | hpb) (has | hps)
    · rw [hbold hab, hsold has]
      exact hold hab has
    · rw [hbold hab, hsnew hps]
      exact hcs hps hab
    · rw [hbnew hpb, hsold has]
      exact hcb hpb has
    · rw [hbnew hpb, hsnew hps]
      exact target_lt_of_not_wouldCross htick hpb.2.2.1
  · intro hc
    constructor
    · intro hpb has
      have := hc (Or.inr hpb) (Or.inl has)
      rwa [hbnew hpb, hsold has] at this
    · intro hps hab
      have := hc (Or.inl hab) (Or.inr hps)
      rwa [hbold hab, hsnew hps] at this

/-- INTERNAL: **one report.**  It moves no price, and the only slot it can make active is one
it picks while idle; so the state stays clear of itself exactly when that slot is clear.
SRCLINE: src/oms/order_manager.hpp:26-47 -/
theorem revivesClear_iff_noSelfCross {m : MarketMaker} {e : ExecEvent} (sym : Fin kMaxSymbols)
    (hsym : sym.val = e.symbolId) (hm : NoSelfCross m) :
    RevivesClear m e ↔ NoSelfCross (takeExec m sym e) := by
  have hprice : ∀ sym' side, Active ((takeExec m sym e).slot sym' side) →
      ((takeExec m sym e).slot sym' side).price = (m.slot sym' side).price :=
    fun sym' side hact => (slot_takeExec_working hact).2
  have hrevived : ∀ sym' side, Active ((takeExec m sym e).slot sym' side) →
      ¬ Active (m.slot sym' side) → sym' = sym ∧ e.kind = .new ∧ Picks m sym e side := by
    intro sym' side hact hidle
    rw [slot_takeExec_eq] at hact
    split at hact
    · next h =>
      obtain ⟨rfl, hpick⟩ := h
      refine ⟨rfl, ?_, hpick⟩
      unfold Quote.onExec Active at *
      cases hk : e.kind <;> simp_all
    · exact absurd hact hidle
  constructor
  · intro hclear sym' hb hs
    rw [hprice sym' .buy hb, hprice sym' .sell hs]
    by_cases hb₀ : Active (m.slot sym' .buy)
    · by_cases hs₀ : Active (m.slot sym' .sell)
      · exact hm sym' hb₀ hs₀
      · obtain ⟨rfl, hk, hpick⟩ := hrevived sym' .sell hs hs₀
        apply hclear sym' .sell hsym hk hpick hs₀
        intro side' hne
        cases side' with
        | buy => exact hb₀
        | sell => exact absurd rfl hne
    · obtain ⟨rfl, hk, hpick⟩ := hrevived sym' .buy hb hb₀
      -- the report went to `Buy`, so `Sell` is as it was
      have hsell : (takeExec m sym' e).slot sym' .sell = m.slot sym' .sell := by
        rw [slot_takeExec_eq, if_neg]
        rintro ⟨-, -, hne⟩
        exact hne rfl hpick.1
      rw [hsell] at hs
      apply hclear sym' .buy hsym hk hpick hb₀
      intro side' hne
      cases side' with
      | buy => exact absurd rfl hne
      | sell => exact hs
  · intro hc sym' side hsym' hk hpick hidle hopp
    obtain rfl : sym' = sym := Fin.ext (hsym'.trans hsym.symm)
    have hlive : Active ((takeExec m sym' e).slot sym' side) := by
      rw [slot_takeExec_eq, if_pos ⟨rfl, hpick⟩]
      unfold Quote.onExec Active
      simp [hk]
    have hother : ∀ side', side' ≠ side →
        (takeExec m sym' e).slot sym' side' = m.slot sym' side' := by
      intro side' hne
      rw [slot_takeExec_eq, if_neg]
      rintro ⟨-, hpick'⟩
      cases side <;> cases side' <;> simp_all [Picks]
    cases side with
    | buy =>
      have hs : Active ((takeExec m sym' e).slot sym' .sell) := by
        rw [hother .sell (by decide)]
        exact hopp .sell (by decide)
      have := hc sym' hlive hs
      rwa [hprice sym' .buy hlive, hprice sym' .sell hs] at this
    | sell =>
      have hb : Active ((takeExec m sym' e).slot sym' .buy) := by
        rw [hother .buy (by decide)]
        exact hopp .buy (by decide)
      have := hc sym' hb hlive
      rwa [hprice sym' .buy hb, hprice sym' .sell hlive] at this

/-- **The engine stays clear of itself exactly while no snapshot places an order through the
opposite slot**, and no acknowledgement of an idle slot does.  For a positive tick, over
every run of a fresh strategy.
SRCLINE: src/strategy/market_maker.hpp:90-147 -/
theorem noSelfCross_throughout_iff (cfg : EngineConfig) (htick : 0 < cfg.tickSize)
    (tCtor tRun : ℤ) (is : List Input) (hin : ∀ i ∈ is, i.symbolId < kMaxSymbols) :
    Throughout (recorded (strategyStep cfg)) (fun x => NoSelfCross x.1)
        (MarketMaker.init tCtor tRun, []) is ↔
      Along (recorded (strategyStep cfg)) (StaysClear cfg) (MarketMaker.init tCtor tRun, []) is := by
  obtain ⟨y, hrun⟩ := strategyRun_total cfg (MarketMaker.init tCtor tRun, []) is hin
  refine throughout_iff_along (P := fun x => NoSelfCross x.1) ?_ ?_ (along_true _ _) hrun
  · intro s i t hs _ ht
    obtain ⟨es, hes, -⟩ := recorded_eq_some.mp ht
    cases i with
    | exec e =>
      obtain ⟨sym, hsym, ht1, -⟩ := execIter_takeExec hes
      rw [ht1]
      exact revivesClear_iff_noSelfCross sym hsym hs
    | md ev env => exact clear_iff_noSelfCross htick hs hes
  · intro sym hb
    exact absurd rfl hb

/-- A run that quotes both sides of one wide market. -/
theorem noSelfCross_throughout_iff_one_snapshot :
    Throughout (recorded (strategyStep { tickSize := 1 / 2 })) (fun x => NoSelfCross x.1)
        (MarketMaker.init 1000000000 0, []) [.md (topOfBook 0 99 101) quickEnv] ↔
      Along (recorded (strategyStep { tickSize := 1 / 2 })) (StaysClear { tickSize := 1 / 2 })
        (MarketMaker.init 1000000000 0, []) [.md (topOfBook 0 99 101) quickEnv] :=
  noSelfCross_throughout_iff _ (by norm_num) _ _ _ (by decide)

/-- The run of the counterexample: both sides are quoted around 100 and acknowledged, the
market falls to 90 and both are being cancelled, the venue confirms the cancel of the sell
order, and the next snapshot places a new sell. -/
def fallingMarket : List Input :=
  [.md (topOfBook 0 99 101) quickEnv, .exec { clOrdId := 1000000, kind := .new },
    .exec { clOrdId := 1000001, kind := .new }, .md (topOfBook 0 89 91) quickEnv,
    .exec { clOrdId := 1000001, kind := .canceled }, .md (topOfBook 0 89 91) quickEnv]

/-- In the falling market the engine ends up selling at 90.5 while its own buy order at 99.5
may still be resting. -/
theorem fallingMarket_crosses :
    ∃ m h, run (recorded (strategyStep { tickSize := 1 / 2 })) (MarketMaker.init 1000000000 0, [])
        fallingMarket = some (m, h) ∧
      (m.slot 0 .buy).state = .pendingCancel ∧ (m.slot 0 .buy).price = 199 / 2 ∧
      (m.slot 0 .sell).state = .pendingNew ∧ (m.slot 0 .sell).price = 181 / 2 ∧
      ¬ NoSelfCross m := by
  have heval : ((run (recorded (strategyStep { tickSize := 1 / 2 }))
      (MarketMaker.init 1000000000 0, []) fallingMarket).map fun x =>
      (((x.1.slot 0 .buy).state, (x.1.slot 0 .buy).price),
        ((x.1.slot 0 .sell).state, (x.1.slot 0 .sell).price))) =
      some ((.pendingCancel, 199 / 2), (.pendingNew, 181 / 2)) := by
    decide +kernel
  obtain ⟨⟨m, h⟩, hrun, hx⟩ := Option.map_eq_some_iff.mp heval
  obtain ⟨hb, hs⟩ := Prod.mk.inj hx
  obtain ⟨hbs, hbp⟩ := Prod.mk.inj hb
  obtain ⟨hss, hsp⟩ := Prod.mk.inj hs
  refine ⟨m, h, hrun, hbs, hbp, hss, hsp, ?_⟩
  intro hc
  have hlt := hc 0 (by unfold Active; rw [hbs]; decide) (by unfold Active; rw [hss]; decide)
  rw [hbp, hsp] at hlt
  norm_num at hlt

end MmEngine.Analysis
