import MmEngine.Model.MarketMaker
import MmEngine.Lib.Runs

/-!
# What one turn of the strategy loop can do

Everything the analysis knows about `decide`, `requote` and `cancelSide` is read off
here, once.  `SideStep` lists what one call for one side can do to the strategy: nothing,
a refused command, a placed order, a started cancel.  `mdIter_sideSteps` says a
market-data turn is a book update, one such step for `Buy` and one for `Sell`, and the
snapshot timer.

`KeptMd` is the resulting rule for invariants that relate the slots, the id counter and the
history of effects: five obligations for a market-data turn, none of which mentions the
control flow of the loop.  `Kept` adds the sixth, for reports, and discharges whole runs.
-/

set_option autoImplicit false

namespace MmEngine.Interface

open MmEngine.Model MmEngine.Model.MarketMaker MmEngine.Lib

/-! ## Slots under updates -/

@[simp] theorem slot_bumpSeed (m : MarketMaker) (sym : Fin kMaxSymbols) (side : OrdSide) :
    m.bumpSeed.slot sym side = m.slot sym side := rfl

@[simp] theorem clOrdSeed_bumpSeed (m : MarketMaker) :
    m.bumpSeed.clOrdSeed = m.clOrdSeed + 1 := rfl

theorem slot_setSlot (m : MarketMaker) (sym sym' : Fin kMaxSymbols) (side side' : OrdSide)
    (x : Quote) :
    (m.setSlot sym side x).slot sym' side' =
      if sym' = sym ∧ side' = side then x else m.slot sym' side' :=
  OrderManager.quote_setQuote m.oms sym sym' side side' x

@[simp] theorem slot_setSlot_self (m : MarketMaker) (sym : Fin kMaxSymbols) (side : OrdSide)
    (x : Quote) : (m.setSlot sym side x).slot sym side = x :=
  OrderManager.quote_setQuote_self m.oms sym side x

@[simp] theorem slot_applyMd (cfg : EngineConfig) (m : MarketMaker) (sym sym' : Fin kMaxSymbols)
    (ev : MdEvent) (side : OrdSide) :
    (m.applyMd cfg sym ev).slot sym' side = m.slot sym' side := rfl

theorem slot_of_oms {m m' : MarketMaker} (homs : m'.oms = m.oms) (sym : Fin kMaxSymbols)
    (side : OrdSide) : m'.slot sym side = m.slot sym side := by
  unfold slot
  rw [homs]

theorem clOrdId_canceled (m : MarketMaker) (sym sym' : Fin kMaxSymbols) (side side' : OrdSide) :
    ((m.bumpSeed.setSlot sym side { m.slot sym side with state := .pendingCancel }).slot
      sym' side').clOrdId = (m.slot sym' side').clOrdId := by
  rw [slot_setSlot]
  split
  · next hslot => rw [hslot.1, hslot.2]
  · rfl

theorem state_canceled_eq_none {m : MarketMaker} {sym : Fin kMaxSymbols} {side : OrdSide}
    (hlive : (m.slot sym side).state = .live) (sym' : Fin kMaxSymbols) (side' : OrdSide) :
    ((m.bumpSeed.setSlot sym side { m.slot sym side with state := .pendingCancel }).slot
      sym' side').state = .none ↔ (m.slot sym' side').state = .none := by
  rw [slot_setSlot]
  split
  · next hslot => simp [hslot.1, hslot.2, hlive]
  · rfl

/-- The slot waits for the answer to a command. -/
def InFlight (q : Quote) : Prop := q.state = .pendingNew ∨ q.state = .pendingCancel

/-- The strategy after a report for `sym` went through `on_exec`. -/
def takeExec (m : MarketMaker) (sym : Fin kMaxSymbols) (e : ExecEvent) : MarketMaker :=
  { m with oms := m.oms.onExecAt sym e }

/-- The slot of the symbol that `on_exec` picks for a report: the first that stores the
report's id, `Buy` before `Sell`.
SRCLINE: src/oms/order_manager.hpp:27-29 -/
def Picks (m : MarketMaker) (sym : Fin kMaxSymbols) (e : ExecEvent) (side : OrdSide) : Prop :=
  (m.slot sym side).clOrdId = e.clOrdId ∧
    (side = .sell → (m.slot sym .buy).clOrdId ≠ e.clOrdId)

instance (m : MarketMaker) (sym : Fin kMaxSymbols) (e : ExecEvent) (side : OrdSide) :
    Decidable (Picks m sym e side) :=
  inferInstanceAs (Decidable (_ ∧ (_ → _)))

/-- INTERNAL: **the specification of `on_exec`.**  The slot it picks takes the `switch`,
every other slot stays as it is.
SRCLINE: src/oms/order_manager.hpp:26-47 -/
theorem slot_takeExec_eq (m : MarketMaker) (sym : Fin kMaxSymbols) (e : ExecEvent)
    (sym' : Fin kMaxSymbols) (side' : OrdSide) :
    (takeExec m sym e).slot sym' side' =
      if sym' = sym ∧ Picks m sym e side' then (m.slot sym side').onExec e
      else m.slot sym' side' := by
  unfold takeExec Picks slot OrderManager.onExecAt
  dsimp only
  by_cases hb : (m.oms.quote sym .buy).clOrdId = e.clOrdId
  · rw [if_pos hb, OrderManager.quote_setQuote]
    cases side' <;> simp [hb]
  · rw [if_neg hb]
    by_cases hs : (m.oms.quote sym .sell).clOrdId = e.clOrdId
    · rw [if_pos hs, OrderManager.quote_setQuote]
      cases side' <;> simp [hb, hs]
    · rw [if_neg hs]
      cases side' <;> simp [hb, hs]

/-- INTERNAL: a report leaves a slot as it is, or the slot is of its symbol, stores its id
and takes the `switch`. -/
theorem slot_takeExec (m : MarketMaker) (sym : Fin kMaxSymbols) (e : ExecEvent)
    (sym' : Fin kMaxSymbols) (side' : OrdSide) :
    (takeExec m sym e).slot sym' side' = m.slot sym' side' ∨
      sym' = sym ∧ (m.slot sym side').clOrdId = e.clOrdId ∧
        (takeExec m sym e).slot sym' side' = (m.slot sym side').onExec e := by
  rw [slot_takeExec_eq]
  split
  · next h => exact Or.inr ⟨h.1, h.2.1, rfl⟩
  · exact Or.inl rfl

/-- INTERNAL: the slot that stores the report's id takes it, when the other slot of the
symbol stores a different id. -/
theorem slot_takeExec_of_id (m : MarketMaker) (sym : Fin kMaxSymbols) (e : ExecEvent)
    (side : OrdSide) (hid : (m.slot sym side).clOrdId = e.clOrdId)
    (hother : ∀ side', side' ≠ side → (m.slot sym side').clOrdId ≠ e.clOrdId) :
    (takeExec m sym e).slot sym side = (m.slot sym side).onExec e := by
  rw [slot_takeExec_eq, if_pos]
  refine ⟨rfl, hid, ?_⟩
  rintro rfl
  exact hother .buy (by decide)

/-- INTERNAL: a report that leaves a slot working leaves its id and its price. -/
theorem slot_takeExec_working {m : MarketMaker} {sym sym' : Fin kMaxSymbols} {e : ExecEvent}
    {side : OrdSide} (hact : ((takeExec m sym e).slot sym' side).state ≠ .none) :
    ((takeExec m sym e).slot sym' side).clOrdId = (m.slot sym' side).clOrdId ∧
      ((takeExec m sym e).slot sym' side).price = (m.slot sym' side).price := by
  rcases slot_takeExec m sym e sym' side with hs | ⟨rfl, -, hs⟩
  · rw [hs]
    exact ⟨rfl, rfl⟩
  · rw [hs] at hact ⊢
    unfold Quote.onExec at *
    cases hk : e.kind <;> simp_all

/-- INTERNAL: an execution turn is `takeExec` on the symbol of the report. -/
theorem execIter_takeExec {m m' : MarketMaker} {e : ExecEvent} {es : List Effect}
    (h : m.execIter e = some (m', es)) :
    ∃ sym : Fin kMaxSymbols, sym.val = e.symbolId ∧ m' = takeExec m sym e ∧
      es = .consumed e :: if e.kind.isFill then [.trade e, .logged (execLog e)] else [] := by
  unfold execIter OrderManager.onExec at h
  by_cases hlt : e.symbolId < kMaxSymbols
  · rw [dif_pos hlt] at h
    obtain ⟨rfl, rfl⟩ := Prod.mk.inj (Option.some.inj h)
    exact ⟨⟨e.symbolId, hlt⟩, rfl, rfl, rfl⟩
  · rw [dif_neg hlt] at h
    cases h

/-! ## One side of one turn -/

/-- The slot `requote` leaves behind an accepted `New` command.
SRCLINE: src/strategy/market_maker.hpp:123 -/
def placedQuote (m : MarketMaker) (sym : Fin kMaxSymbols) (side : OrdSide) (c : OrderCmd) : Quote :=
  { m.slot sym side with state := .pendingNew, clOrdId := c.clOrdId, price := c.price, qty := c.qty }

/-- What one call of `requote` at price `px`, or of `cancel_side`, does. -/
inductive SideStep (cfg : EngineConfig) (env : MdEnv) (sym : Fin kMaxSymbols) (side : OrdSide)
    (px : ℚ) (tMd : ℤ) (m : MarketMaker) : MarketMaker → List Effect → Prop where
  /-- No command is decided. -/
  | idle : SideStep cfg env sym side px tMd m m []
  /-- A command is decided and not accepted; its id is spent. -/
  | refused (c : OrderCmd) (hid : c.clOrdId = m.clOrdSeed)
      (hshut : cfg.dryRun = true ∨ env.room side = false) :
      SideStep cfg env sym side px tMd m m.bumpSeed [.refused c]
  /-- A free slot gets an order. -/
  | placed (hnone : (m.slot sym side).state = .none) (hdry : cfg.dryRun = false)
      (hroom : env.room side = true) :
      SideStep cfg env sym side px tMd m
        (m.bumpSeed.setSlot sym side (placedQuote m sym side (newCmd cfg env m sym side px tMd)))
        [.pushed (newCmd cfg env m sym side px tMd),
          .logged (newLog (newCmd cfg env m sym side px tMd))]
  /-- A live order starts to be cancelled. -/
  | canceled (hlive : (m.slot sym side).state = .live) (hdry : cfg.dryRun = false)
      (hroom : env.room side = true) :
      SideStep cfg env sym side px tMd m
        (m.bumpSeed.setSlot sym side { m.slot sym side with state := .pendingCancel })
        [.pushed (cancelCmd env m sym side tMd),
          .logged (cancelLog (cancelCmd env m sym side tMd) (m.slot sym side))]

section Sides

variable (cfg : EngineConfig) (env : MdEnv) (m : MarketMaker) (sym : Fin kMaxSymbols)
  (side : OrdSide) (px : ℚ) (tMd : ℤ)

/-- INTERNAL: `cancel_side` is one of the side steps, whatever price is asked for.
SRCLINE: src/strategy/market_maker.hpp:131-147 -/
theorem cancelSide_sideStep :
    SideStep cfg env sym side px tMd m (cancelSide cfg env m sym side tMd).1
      (cancelSide cfg env m sym side tMd).2 := by
  unfold cancelSide
  by_cases hlive : (m.slot sym side).state = .live
  · simp only [hlive, ne_eq, not_true_eq_false, if_false]
    cases hdry : cfg.dryRun with
    | true => exact .refused _ rfl (Or.inl hdry)
    | false =>
      cases hroom : env.room side with
      | false => exact .refused _ rfl (Or.inr hroom)
      | true => exact .canceled hlive hdry hroom
  · simp only [ne_eq, hlive, not_false_eq_true, if_true]
    exact .idle

/-- INTERNAL: `requote` is one of the side steps.
SRCLINE: src/strategy/market_maker.hpp:107-129 -/
theorem requote_sideStep :
    SideStep cfg env sym side px tMd m (requote cfg env m sym side px tMd).1
      (requote cfg env m sym side px tMd).2 := by
  unfold requote
  cases hq : (m.slot sym side).state with
  | pendingNew =>
    simp only [hq]
    exact .idle
  | pendingCancel =>
    simp only [hq]
    exact .idle
  | live =>
    simp only [hq]
    split
    · exact .idle
    · exact cancelSide_sideStep cfg env m sym side px tMd
  | none =>
    simp only [hq]
    cases hdry : cfg.dryRun with
    | true => exact .refused _ rfl (Or.inl hdry)
    | false =>
      cases hroom : env.room side with
      | false => exact .refused _ rfl (Or.inr hroom)
      | true => exact .placed hq hdry hroom

end Sides

/-- INTERNAL: a decision is a `Buy` step followed by a `Sell` step, each at its target.
SRCLINE: src/strategy/market_maker.hpp:90-105 -/
theorem decide_sideSteps (cfg : EngineConfig) (env : MdEnv) (m : MarketMaker)
    (sym : Fin kMaxSymbols) (ob : OrderBook) (tMd : ℤ) :
    ∃ m₁ es₁ es₂, SideStep cfg env sym .buy (target cfg ob .buy) tMd m m₁ es₁ ∧
      SideStep cfg env sym .sell (target cfg ob .sell) tMd m₁
        (MarketMaker.decide cfg env m sym ob tMd).1 es₂ ∧
      (MarketMaker.decide cfg env m sym ob tMd).2 = es₁ ++ es₂ := by
  unfold MarketMaker.decide
  split
  · split
    · exact ⟨m, [], [], .idle, .idle, rfl⟩
    · exact ⟨_, _, _, requote_sideStep cfg env m sym .buy _ tMd,
        requote_sideStep cfg env _ sym .sell _ tMd, rfl⟩
  · exact ⟨_, _, _, cancelSide_sideStep cfg env m sym .buy _ tMd,
      cancelSide_sideStep cfg env _ sym .sell _ tMd, rfl⟩

/-- An effect that neither the slots, the id counter nor the command history can see. -/
def Quiet : Effect → Prop
  | .took _ | .logged _ | .trade _ | .snapshot _ => True
  | .consumed _ | .pushed _ | .refused _ => False

/-- INTERNAL: the snapshot timer touches neither the slots nor the id counter, and all it
does outside is quiet.
SRCLINE: src/strategy/market_maker.hpp:78-81, 149-162 -/
theorem snapshotTimer_quiet (cfg : EngineConfig) (m : MarketMaker) (tDeq : ℤ) :
    (snapshotTimer cfg m tDeq).1.oms = m.oms ∧
      (snapshotTimer cfg m tDeq).1.clOrdSeed = m.clOrdSeed ∧
      (snapshotTimer cfg m tDeq).1.books = m.books ∧
      ∀ x ∈ (snapshotTimer cfg m tDeq).2, ∃ s, x = .snapshot s := by
  unfold snapshotTimer
  split
  · refine ⟨rfl, rfl, rfl, ?_⟩
    intro x hx
    unfold pushSnapshots at hx
    obtain ⟨s, -, hs⟩ := List.mem_filterMap.mp hx
    split at hs
    · cases hs
    · exact ⟨_, (Option.some.inj hs).symm⟩
  · exact ⟨rfl, rfl, rfl, by simp⟩

/-- The decision part of a market-data turn, once the book of `sym` is replaced.
SRCLINE: src/strategy/market_maker.hpp:75 -/
def decideTurn (cfg : EngineConfig) (env : MdEnv) (a : MarketMaker) (sym : Fin kMaxSymbols)
    (tMd : ℤ) : MarketMaker × List Effect :=
  if (a.books sym).hasBba then MarketMaker.decide cfg env a sym (a.books sym) tMd else (a, [])

/-- INTERNAL: the parts of a market-data turn, for the symbol the event names.
SRCLINE: src/strategy/market_maker.hpp:66-82 -/
theorem mdIter_eq (cfg : EngineConfig) (env : MdEnv) (m : MarketMaker) (ev : MdEvent)
    (sym : Fin kMaxSymbols) (hsym : sym.val = ev.symbolId) :
    mdIter cfg env m ev =
      some ((snapshotTimer cfg (decideTurn cfg env (m.applyMd cfg sym ev) sym ev.tRecvNs).1
          env.tDeq).1,
        .took ev :: (decideTurn cfg env (m.applyMd cfg sym ev) sym ev.tRecvNs).2 ++
          (snapshotTimer cfg (decideTurn cfg env (m.applyMd cfg sym ev) sym ev.tRecvNs).1
            env.tDeq).2) := by
  obtain ⟨n, hlt⟩ := sym
  have hn : n = ev.symbolId := hsym
  subst hn
  unfold mdIter
  rw [dif_pos hlt]
  rfl

/-- INTERNAL: an event that went through names a symbol of the table. -/
theorem symbolId_lt_of_mdIter {cfg : EngineConfig} {env : MdEnv} {m m' : MarketMaker}
    {ev : MdEvent} {es : List Effect} (h : mdIter cfg env m ev = some (m', es)) :
    ev.symbolId < kMaxSymbols := by
  by_contra hge
  unfold mdIter at h
  rw [dif_neg hge] at h
  cases h

/-- INTERNAL: the decision part is one step per side, at the targets of the book. -/
theorem decideTurn_sideSteps (cfg : EngineConfig) (env : MdEnv) (a : MarketMaker)
    (sym : Fin kMaxSymbols) (tMd : ℤ) :
    ∃ m₁ es₁ es₂, SideStep cfg env sym .buy (target cfg (a.books sym) .buy) tMd a m₁ es₁ ∧
      SideStep cfg env sym .sell (target cfg (a.books sym) .sell) tMd m₁
        (decideTurn cfg env a sym tMd).1 es₂ ∧
      (decideTurn cfg env a sym tMd).2 = es₁ ++ es₂ := by
  unfold decideTurn
  split
  · exact decide_sideSteps cfg env a sym (a.books sym) tMd
  · exact ⟨a, [], [], .idle, .idle, rfl⟩

/-- INTERNAL: **a market-data turn**: the book is replaced, then at most one step per side
at the targets of the new book, then quiet effects only.
SRCLINE: src/strategy/market_maker.hpp:66-82 -/
theorem mdIter_sideSteps {cfg : EngineConfig} {env : MdEnv} {m m' : MarketMaker} {ev : MdEvent}
    {es : List Effect} (h : mdIter cfg env m ev = some (m', es)) :
    ∃ (sym : Fin kMaxSymbols) (m₁ m₂ : MarketMaker) (es₁ es₂ ss : List Effect),
      sym.val = ev.symbolId ∧
        SideStep cfg env sym .buy (target cfg ((m.applyMd cfg sym ev).books sym) .buy)
          ev.tRecvNs (m.applyMd cfg sym ev) m₁ es₁ ∧
        SideStep cfg env sym .sell (target cfg ((m.applyMd cfg sym ev).books sym) .sell)
          ev.tRecvNs m₁ m₂ es₂ ∧
        m'.oms = m₂.oms ∧ m'.clOrdSeed = m₂.clOrdSeed ∧ m'.books = m₂.books ∧
        es = .took ev :: es₁ ++ es₂ ++ ss ∧ ∀ x ∈ ss, ∃ s, x = .snapshot s := by
  have hlt := symbolId_lt_of_mdIter h
  rw [mdIter_eq cfg env m ev ⟨ev.symbolId, hlt⟩ rfl] at h
  obtain ⟨rfl, rfl⟩ := Prod.mk.inj (Option.some.inj h)
  obtain ⟨m₁, es₁, es₂, h₁, h₂, hes⟩ :=
    decideTurn_sideSteps cfg env (m.applyMd cfg ⟨ev.symbolId, hlt⟩ ev) ⟨ev.symbolId, hlt⟩ ev.tRecvNs
  obtain ⟨homs, hseed, hbooks, hss⟩ := snapshotTimer_quiet cfg
    (decideTurn cfg env (m.applyMd cfg ⟨ev.symbolId, hlt⟩ ev) ⟨ev.symbolId, hlt⟩ ev.tRecvNs).1 env.tDeq
  exact ⟨_, m₁, _, es₁, es₂, _, rfl, h₁, h₂, homs, hseed, hbooks, by rw [hes]; simp, hss⟩

/-- INTERNAL: all a market-data turn does besides taking its snapshot: commands for the
snapshot's symbol, log lines and book snapshots. -/
theorem mem_mdIter {cfg : EngineConfig} {env : MdEnv} {m m' : MarketMaker} {ev : MdEvent}
    {es : List Effect} (h : mdIter cfg env m ev = some (m', es)) {x : Effect} (hx : x ∈ es) :
    x = .took ev ∨ (∃ c, x = .pushed c ∧ c.symbolId = ev.symbolId) ∨ (∃ c, x = .refused c) ∨
      (∃ r, x = .logged r) ∨ ∃ b, x = .snapshot b := by
  obtain ⟨sym, m₁, m₂, es₁, es₂, ss, hsym, h₁, h₂, -, -, -, rfl, hss⟩ := mdIter_sideSteps h
  have hside : ∀ {side : OrdSide} {px : ℚ} {a b : MarketMaker} {fs : List Effect},
      SideStep cfg env sym side px ev.tRecvNs a b fs → x ∈ fs →
      (∃ c, x = .pushed c ∧ c.symbolId = ev.symbolId) ∨ (∃ c, x = .refused c) ∨
        ∃ r, x = .logged r := by
    intro side px a b fs hs hmem
    cases hs with
    | idle => cases hmem
    | refused c =>
      rw [List.mem_singleton] at hmem
      exact Or.inr (Or.inl ⟨c, hmem⟩)
    | placed =>
      simp only [List.mem_cons, List.not_mem_nil, or_false] at hmem
      rcases hmem with rfl | rfl
      · exact Or.inl ⟨_, rfl, hsym⟩
      · exact Or.inr (Or.inr ⟨_, rfl⟩)
    | canceled =>
      simp only [List.mem_cons, List.not_mem_nil, or_false] at hmem
      rcases hmem with rfl | rfl
      · exact Or.inl ⟨_, rfl, hsym⟩
      · exact Or.inr (Or.inr ⟨_, rfl⟩)
  simp only [List.cons_append, List.mem_cons, List.mem_append] at hx
  rcases hx with rfl | (hx | hx) | hx
  · exact Or.inl rfl
  · rcases hside h₁ hx with hp | hr | hl
    · exact Or.inr (Or.inl hp)
    · exact Or.inr (Or.inr (Or.inl hr))
    · exact Or.inr (Or.inr (Or.inr (Or.inl hl)))
  · rcases hside h₂ hx with hp | hr | hl
    · exact Or.inr (Or.inl hp)
    · exact Or.inr (Or.inr (Or.inl hr))
    · exact Or.inr (Or.inr (Or.inr (Or.inl hl)))
  · exact Or.inr (Or.inr (Or.inr (Or.inr (hss _ hx))))

/-! ## One slot through one turn -/

/-- The slot of one side after a snapshot left the book `ob`, as a function of the slot
before it: `ok` tells whether a command of the side is accepted and `id` is the id a new
order would get. -/
def nextQuote (cfg : EngineConfig) (ob : OrderBook) (side : OrdSide) (ok : Bool) (id : UInt64)
    (q : Quote) : Quote :=
  if ob.hasBba then
    if ob.spread ≥ cfg.minimumSpread then
      if wouldCross cfg ob then q
      else
        match q.state with
        | .pendingNew | .pendingCancel => q
        | .live =>
          if |q.price - target cfg ob side| < cfg.tickSize * (1 / 2) then q
          else if ok then { q with state := .pendingCancel } else q
        | .none =>
          if ok then
            { q with state := .pendingNew, clOrdId := id, price := target cfg ob side, qty := cfg.orderQty }
          else q
    else if q.state = .live ∧ ok then { q with state := .pendingCancel } else q
  else q

section Slots

variable (cfg : EngineConfig) (env : MdEnv) (m : MarketMaker) (sym : Fin kMaxSymbols)
  (side : OrdSide) (px : ℚ) (tMd : ℤ)

theorem SideStep.slot_other {m' : MarketMaker} {es : List Effect}
    (hs : SideStep cfg env sym side px tMd m m' es) (sym' : Fin kMaxSymbols) (side' : OrdSide)
    (hne : ¬ (sym' = sym ∧ side' = side)) : m'.slot sym' side' = m.slot sym' side' := by
  cases hs with
  | idle => rfl
  | refused => rfl
  | placed => rw [slot_setSlot, if_neg hne, slot_bumpSeed]
  | canceled => rw [slot_setSlot, if_neg hne, slot_bumpSeed]

theorem SideStep.books {m' : MarketMaker} {es : List Effect}
    (hs : SideStep cfg env sym side px tMd m m' es) : m'.books = m.books := by
  cases hs <;> rfl

/-- INTERNAL: the slot of the side after `cancel_side`.
SRCLINE: src/strategy/market_maker.hpp:131-147 -/
theorem cancelSide_slot :
    (cancelSide cfg env m sym side tMd).1.slot sym side =
      if (m.slot sym side).state = .live ∧ (!cfg.dryRun && env.room side) = true then
        { m.slot sym side with state := .pendingCancel }
      else m.slot sym side := by
  unfold cancelSide
  by_cases hlive : (m.slot sym side).state = .live
  · cases (!cfg.dryRun && env.room side) <;> simp [hlive]
  · simp [hlive]

end Slots

/-- INTERNAL: a decision takes each slot of its symbol through `nextQuote`.
SRCLINE: src/strategy/market_maker.hpp:90-147 -/
theorem decide_slot (cfg : EngineConfig) (env : MdEnv) (m : MarketMaker) (sym : Fin kMaxSymbols)
    (ob : OrderBook) (tMd : ℤ) (hbba : ob.hasBba = true) (side : OrdSide) :
    ∃ id, (MarketMaker.decide cfg env m sym ob tMd).1.slot sym side =
      nextQuote cfg ob side (!cfg.dryRun && env.room side) id (m.slot sym side) := by
  have hrequote : ∀ (m : MarketMaker) (side : OrdSide), ob.spread ≥ cfg.minimumSpread →
      wouldCross cfg ob = false →
      (requote cfg env m sym side (target cfg ob side) tMd).1.slot sym side =
        nextQuote cfg ob side (!cfg.dryRun && env.room side) m.clOrdSeed (m.slot sym side) := by
    intro m side hwide hcross
    unfold requote nextQuote
    rw [if_pos hbba, if_pos hwide, hcross]
    cases hq : (m.slot sym side).state with
    | pendingNew => simp [hq]
    | pendingCancel => simp [hq]
    | live =>
      simp only [hq, Bool.false_eq_true, if_false]
      split
      · rfl
      · rw [cancelSide_slot]
        simp [hq]
    | none =>
      simp only [hq, Bool.false_eq_true, if_false]
      cases hok : (!cfg.dryRun && env.room side) with
      | true => simp [newCmd]
      | false => simp
  unfold MarketMaker.decide
  by_cases hwide : ob.spread ≥ cfg.minimumSpread
  · rw [if_pos hwide]
    cases hcross : wouldCross cfg ob with
    | true =>
      refine ⟨0, ?_⟩
      simp [nextQuote, hbba, hwide, hcross]
    | false =>
      simp only [Bool.false_eq_true, if_false]
      cases side with
      | buy =>
        refine ⟨m.clOrdSeed, ?_⟩
        rw [SideStep.slot_other cfg env _ sym .sell _ tMd (requote_sideStep cfg env _ sym .sell _ tMd)
          sym .buy (by simp)]
        exact hrequote m .buy hwide hcross
      | sell =>
        have hsell := hrequote (requote cfg env m sym .buy (target cfg ob .buy) tMd).1 .sell
          hwide hcross
        rw [SideStep.slot_other cfg env m sym .buy _ tMd (requote_sideStep cfg env m sym .buy _ tMd)
          sym .sell (by simp)] at hsell
        exact ⟨_, hsell⟩
  · rw [if_neg hwide]
    refine ⟨0, ?_⟩
    have hnext : ∀ q : Quote, nextQuote cfg ob side (!cfg.dryRun && env.room side) 0 q =
        if q.state = .live ∧ (!cfg.dryRun && env.room side) = true then
          { q with state := .pendingCancel } else q := by
      intro q
      unfold nextQuote
      rw [if_pos hbba, if_neg hwide]
    rw [hnext]
    cases side with
    | buy =>
      rw [SideStep.slot_other cfg env _ sym .sell 0 tMd (cancelSide_sideStep cfg env _ sym .sell 0 tMd)
        sym .buy (by simp)]
      exact cancelSide_slot cfg env m sym .buy tMd
    | sell =>
      dsimp only
      rw [cancelSide_slot, SideStep.slot_other cfg env _ sym .buy 0 tMd
        (cancelSide_sideStep cfg env _ sym .buy 0 tMd) sym .sell (by simp)]

/-- INTERNAL: a market-data turn leaves its symbol's book as the snapshot has it.
SRCLINE: src/strategy/market_maker.hpp:71-72 -/
theorem mdIter_book {cfg : EngineConfig} {env : MdEnv} {m m' : MarketMaker} {ev : MdEvent}
    {es : List Effect} (h : mdIter cfg env m ev = some (m', es)) (sym : Fin kMaxSymbols)
    (hsym : sym.val = ev.symbolId) :
    m'.books sym = (m.books sym).applySnapshot ev cfg.bookDepth := by
  obtain ⟨sym', m₁, m₂, es₁, es₂, ss, hsym', h₁, h₂, -, -, hbooks, -⟩ := mdIter_sideSteps h
  obtain rfl : sym' = sym := Fin.ext (hsym'.trans hsym.symm)
  rw [hbooks, h₂.books, h₁.books]
  simp [applyMd]

/-- INTERNAL: **a market-data turn, slot by slot**: the slots of the event's symbol go
through `nextQuote` at the new book.
SRCLINE: src/strategy/market_maker.hpp:66-147 -/
theorem mdIter_slot {cfg : EngineConfig} {env : MdEnv} {m m' : MarketMaker} {ev : MdEvent}
    {es : List Effect} (h : mdIter cfg env m ev = some (m', es)) (sym : Fin kMaxSymbols)
    (hsym : sym.val = ev.symbolId) (side : OrdSide) :
    ∃ id, m'.slot sym side =
      nextQuote cfg (m'.books sym) side (!cfg.dryRun && env.room side) id (m.slot sym side) := by
  have hbook := mdIter_book h sym hsym
  have hbook' : (m.applyMd cfg sym ev).books sym = m'.books sym := by
    rw [hbook]
    simp [applyMd]
  rw [mdIter_eq cfg env m ev sym hsym] at h
  obtain ⟨hm', -⟩ := Prod.mk.inj (Option.some.inj h)
  obtain ⟨homs, -⟩ := snapshotTimer_quiet cfg
    (decideTurn cfg env (m.applyMd cfg sym ev) sym ev.tRecvNs).1 env.tDeq
  have hslot : m'.slot sym side =
      (decideTurn cfg env (m.applyMd cfg sym ev) sym ev.tRecvNs).1.slot sym side := by
    rw [← hm']
    exact slot_of_oms homs sym side
  rw [hslot]
  unfold decideTurn
  rw [hbook']
  split
  · next hbba => exact decide_slot cfg env _ sym (m'.books sym) ev.tRecvNs hbba side
  · next hbba =>
    refine ⟨0, ?_⟩
    simp [nextQuote, hbba]

theorem mdIter_slot_other {cfg : EngineConfig} {env : MdEnv} {m m' : MarketMaker} {ev : MdEvent}
    {es : List Effect} (h : mdIter cfg env m ev = some (m', es)) (sym : Fin kMaxSymbols)
    (hsym : sym.val ≠ ev.symbolId) (side : OrdSide) : m'.slot sym side = m.slot sym side := by
  obtain ⟨sym', m₁, m₂, es₁, es₂, ss, hsym', h₁, h₂, homs, -⟩ := mdIter_sideSteps h
  have hne : ∀ side' : OrdSide, ¬ (sym = sym' ∧ side = side') := by
    rintro side' ⟨rfl, -⟩
    exact hsym hsym'
  rw [slot_of_oms homs, h₂.slot_other _ _ _ _ _ _ _ sym side (hne .sell),
    h₁.slot_other _ _ _ _ _ _ _ sym side (hne .buy), slot_applyMd]

/-- INTERNAL: a turn on an event for a known symbol goes through: no access leaves `q_` or
`books_`.
SRCLINE: src/strategy/market_maker.hpp:54, 71 -/
theorem strategyStep_total (cfg : EngineConfig) (m : MarketMaker) (i : Input)
    (hlt : i.symbolId < kMaxSymbols) : ∃ m' es, strategyStep cfg m i = some (m', es) := by
  cases i with
  | exec e =>
    have hlt : e.symbolId < kMaxSymbols := hlt
    show ∃ m' es, m.execIter e = some (m', es)
    unfold execIter OrderManager.onExec
    rw [dif_pos hlt]
    exact ⟨_, _, rfl⟩
  | md ev env =>
    have hlt : ev.symbolId < kMaxSymbols := hlt
    show ∃ m' es, mdIter cfg env m ev = some (m', es)
    unfold mdIter
    rw [dif_pos hlt]
    exact ⟨_, _, rfl⟩

/-- INTERNAL: a run on events for known symbols goes through. -/
theorem strategyRun_total (cfg : EngineConfig) (x : MarketMaker × List Effect) (is : List Input)
    (hin : ∀ i ∈ is, i.symbolId < kMaxSymbols) :
    ∃ y, run (recorded (strategyStep cfg)) x is = some y := by
  apply run_total
  intro i hi s
  obtain ⟨m', es, h⟩ := strategyStep_total cfg s.1 i (hin i hi)
  exact ⟨(m', s.2 ++ es), recorded_eq_some.mpr ⟨es, h, rfl⟩⟩

/-! ## The rule for invariants of the loop -/

/-- An invariant of the slots, the id counter and the history that survives everything a
market-data turn for a symbol in `S` can do, if it cancels only orders `A` allows. -/
structure KeptMd (cfg : EngineConfig) (S : Fin kMaxSymbols → Prop)
    (A : Fin kMaxSymbols → OrdSide → Quote → Prop) (I : MarketMaker → List Effect → Prop) :
    Prop where
  /-- Only the slots and the id counter matter. -/
  view : ∀ m m' h, m'.oms = m.oms → m'.clOrdSeed = m.clOrdSeed → I m h → I m' h
  quiet : ∀ m h x, Quiet x → I m h → I m (h ++ [x])
  refused : ∀ m h c, I m h → I m.bumpSeed (h ++ [.refused c])
  placed : ∀ env m h sym side px tMd, S sym → (m.slot sym side).state = .none → I m h →
    I (m.bumpSeed.setSlot sym side (placedQuote m sym side (newCmd cfg env m sym side px tMd)))
      (h ++ [.pushed (newCmd cfg env m sym side px tMd)])
  canceled : ∀ env m h sym side tMd, S sym → A sym side (m.slot sym side) →
    (m.slot sym side).state = .live → I m h →
    I (m.bumpSeed.setSlot sym side { m.slot sym side with state := .pendingCancel })
      (h ++ [.pushed (cancelCmd env m sym side tMd)])

/-- An invariant that survives every turn, on whatever symbol and with whatever cancels, and
every report as well. -/
structure Kept (cfg : EngineConfig) (I : MarketMaker → List Effect → Prop) : Prop
    extends KeptMd cfg (fun _ => True) (fun _ _ _ => True) I where
  consumed : ∀ m h (e : ExecEvent) (sym : Fin kMaxSymbols), sym.val = e.symbolId → I m h →
    I (takeExec m sym e) (h ++ [.consumed e])

namespace KeptMd

variable {cfg : EngineConfig} {S : Fin kMaxSymbols → Prop}
  {A : Fin kMaxSymbols → OrdSide → Quote → Prop} {I : MarketMaker → List Effect → Prop}

theorem quiets (hI : KeptMd cfg S A I) {m : MarketMaker} {h : List Effect} (ss : List Effect)
    (hss : ∀ x ∈ ss, Quiet x) (hm : I m h) : I m (h ++ ss) := by
  induction ss generalizing h with
  | nil => simpa using hm
  | cons x ss ih =>
    have hx : I m (h ++ [x]) := hI.quiet m h x (hss x (by simp)) hm
    simpa using ih (fun y hy => hss y (by simp [hy])) hx

/-- INTERNAL: a side step keeps the invariant, if the cancel it may start is allowed. -/
theorem sideStep (hI : KeptMd cfg S A I) {env : MdEnv} {sym : Fin kMaxSymbols} {side : OrdSide}
    {px : ℚ} {tMd : ℤ} {m m' : MarketMaker} {h es : List Effect} (hS : S sym)
    (hA : (m.slot sym side).state = .live → (m'.slot sym side).state = .pendingCancel →
      A sym side (m.slot sym side))
    (hs : SideStep cfg env sym side px tMd m m' es) (hm : I m h) : I m' (h ++ es) := by
  cases hs with
  | idle => simpa using hm
  | refused c => exact hI.refused m h c hm
  | placed hnone =>
    have := hI.quiet _ _ (.logged (newLog (newCmd cfg env m sym side px tMd))) trivial
      (hI.placed env m h sym side px tMd hS hnone hm)
    simpa using this
  | canceled hlive =>
    have hallowed := hA hlive (by rw [slot_setSlot_self])
    have := hI.quiet _ _ (.logged (cancelLog (cancelCmd env m sym side tMd) (m.slot sym side)))
      trivial (hI.canceled env m h sym side tMd hS hallowed hlive hm)
    simpa using this

/-- INTERNAL: **a market-data turn keeps the invariant**, if the cancels it starts are allowed.
SRCLINE: src/strategy/market_maker.hpp:66-82 -/
theorem mdIter (hI : KeptMd cfg S A I) {env : MdEnv} {m m' : MarketMaker} {ev : MdEvent}
    {h es : List Effect} (hs : m.mdIter cfg env ev = some (m', es))
    (hS : ∀ sym : Fin kMaxSymbols, sym.val = ev.symbolId → S sym)
    (hA : ∀ (sym : Fin kMaxSymbols) (side : OrdSide), sym.val = ev.symbolId →
      (m.slot sym side).state = .live → (m'.slot sym side).state = .pendingCancel →
      A sym side (m.slot sym side)) (hm : I m h) : I m' (h ++ es) := by
  obtain ⟨sym, m₁, m₂, es₁, es₂, ss, hsym, h₁, h₂, homs, hseed, -, rfl, hss⟩ := mdIter_sideSteps hs
  have hm₂ := slot_of_oms homs sym
  have hbuy : m₂.slot sym .buy = m₁.slot sym .buy := h₂.slot_other _ _ _ _ _ _ _ sym .buy (by simp)
  have hsell : m₁.slot sym .sell = m.slot sym .sell :=
    h₁.slot_other _ _ _ _ _ _ _ sym .sell (by simp)
  have ha : I (m.applyMd cfg sym ev) (h ++ [.took ev]) :=
    hI.quiet _ _ _ trivial (hI.view m _ h rfl rfl hm)
  have hallowBuy : ((m.applyMd cfg sym ev).slot sym .buy).state = .live →
      (m₁.slot sym .buy).state = .pendingCancel →
      A sym .buy ((m.applyMd cfg sym ev).slot sym .buy) := by
    intro hlive hpend
    exact hA sym .buy hsym hlive (by rw [hm₂, hbuy]; exact hpend)
  have hallowSell : (m₁.slot sym .sell).state = .live → (m₂.slot sym .sell).state = .pendingCancel →
      A sym .sell (m₁.slot sym .sell) := by
    intro hlive hpend
    rw [hsell] at hlive ⊢
    exact hA sym .sell hsym hlive (by rw [hm₂]; exact hpend)
  have hb₁ := hI.sideStep (hS sym hsym) hallowBuy h₁ ha
  have hb₂ := hI.sideStep (hS sym hsym) hallowSell h₂ hb₁
  have hv := hI.view m₂ m' _ homs hseed hb₂
  have hq := hI.quiets ss (fun x hx => by obtain ⟨s, rfl⟩ := hss x hx; trivial) hv
  simpa using hq

/-- INTERNAL: the effects that follow a consumed report change nothing. -/
theorem execTail (hI : KeptMd cfg S A I) {m : MarketMaker} {h : List Effect} (e : ExecEvent)
    (hm : I m (h ++ [.consumed e])) :
    I m (h ++ .consumed e :: if e.kind.isFill then [.trade e, .logged (execLog e)] else []) := by
  have hq := hI.quiets (if e.kind.isFill then [.trade e, .logged (execLog e)] else [])
    (by intro x hx; split at hx <;> simp at hx; rcases hx with rfl | rfl <;> trivial) hm
  simpa using hq

end KeptMd

namespace Kept

variable {cfg : EngineConfig} {I : MarketMaker → List Effect → Prop}

/-- INTERNAL: **one strategy-loop step keeps the invariant.**
SRCLINE: src/strategy/market_maker.hpp:49-85 -/
theorem strategyStep (hI : Kept cfg I) {m m' : MarketMaker} {h es : List Effect} {i : Input}
    (hs : strategyStep cfg m i = some (m', es)) (hm : I m h) : I m' (h ++ es) := by
  cases i with
  | exec e =>
    obtain ⟨sym, hsym, rfl, rfl⟩ := execIter_takeExec hs
    exact hI.execTail e (hI.consumed m h e sym hsym hm)
  | md ev env => exact hI.mdIter hs (fun _ _ => trivial) (fun _ _ _ _ _ => trivial) hm

/-- INTERNAL: **a whole run of the strategy keeps the invariant.** -/
theorem strategyRun (hI : Kept cfg I) {x y : MarketMaker × List Effect} {is : List Input}
    (hrun : run (recorded (Model.strategyStep cfg)) x is = some y) (hx : I x.1 x.2) :
    I y.1 y.2 := by
  refine run_invariant' (I := fun z => I z.1 z.2) ?_ hx hrun
  intro s i t hs ht
  obtain ⟨es, hes, hh⟩ := recorded_eq_some.mp ht
  rw [hh]
  exact hI.strategyStep hes hs

end Kept

end MmEngine.Interface
