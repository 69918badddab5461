import MmEngine.Interface.StrategyRules

/-!
# What a snapshot decides

`SideStep` says what one side of a market-data turn may do; this module says what it does.
`sideCmd` is the command a side decides, as a function of the book, the slot and the next
order id, and `sideAct` is all the turn then does with it: the command is accepted, and the
slot follows it, or it is refused, and only its id is spent.  `mdIter_decides` puts the two
sides together, so later proofs speak about commands and never about `decide`.
-/

set_option autoImplicit false

namespace MmEngine.Interface

open MmEngine.Model MmEngine.Model.MarketMaker MmEngine.Lib

/-- What the book asks of one side. -/
inductive Decision where
  | stay
  | place
  | withdraw
  deriving DecidableEq

/-- The decision for a slot once the snapshot left the book `ob`.
SRCLINE: src/strategy/market_maker.hpp:75, 90-116, 133 -/
def decision (cfg : EngineConfig) (ob : OrderBook) (side : OrdSide) (q : Quote) : Decision :=
  if ob.hasBba then
    if ob.spread ≥ cfg.minimumSpread then
      if wouldCross cfg ob then .stay
      else
        match q.state with
        | .pendingNew | .pendingCancel => .stay
        | .live => if |q.price - target cfg ob side| < cfg.tickSize * (1 / 2) then .stay else .withdraw
        | .none => .place
    else if q.state = .live then .withdraw else .stay
  else .stay

/-- The command of the decision; `id` is the next order id.
SRCLINE: src/strategy/market_maker.hpp:117-121, 134-139 -/
def sideCmd (cfg : EngineConfig) (env : MdEnv) (sym : Fin kMaxSymbols) (side : OrdSide)
    (ob : OrderBook) (tMd : ℤ) (id : UInt64) (q : Quote) : Option OrderCmd :=
  match decision cfg ob side q with
  | .stay => none
  | .place => some
    { type := .new, side := side, symbolId := sym, price := target cfg ob side,
      qty := cfg.orderQty, clOrdId := id, tMdNs := tMd, tDecidedNs := env.now side }
  | .withdraw => some
    { type := .cancel, side := side, symbolId := sym, qty := q.qty, origClOrdId := q.clOrdId,
      clOrdId := id, tMdNs := tMd, tDecidedNs := env.now side }

/-- INTERNAL: an order is placed in a free slot of a wide market that the targets do not cross. -/
theorem decision_eq_place {cfg : EngineConfig} {ob : OrderBook} {side : OrdSide} {q : Quote} :
    decision cfg ob side q = .place ↔
      ob.hasBba = true ∧ ob.spread ≥ cfg.minimumSpread ∧ wouldCross cfg ob = false ∧
        q.state = .none := by
  unfold decision
  by_cases hbba : ob.hasBba = true
  · by_cases hwide : ob.spread ≥ cfg.minimumSpread
    · cases hcross : wouldCross cfg ob with
      | true =>
        rw [if_pos hbba, if_pos hwide]
        simp
      | false =>
        rw [if_pos hbba, if_pos hwide]
        cases hq : q.state with
        | live =>
          simp only [Bool.false_eq_true, if_false]
          split <;> simp
        | none => simpa [hbba] using hwide
        | pendingNew => simp
        | pendingCancel => simp
    · rw [if_pos hbba, if_neg hwide]
      by_cases hlive : q.state = .live <;> simp [hlive, hwide]
  · simp [hbba]

section SideCmd

variable {cfg : EngineConfig} {env : MdEnv} {sym : Fin kMaxSymbols} {side : OrdSide}
  {ob : OrderBook} {tMd : ℤ} {id : UInt64} {q : Quote} {c : OrderCmd}

/-- INTERNAL: **what a decision sends**: an order placed at the target, or the cancel of the one
in the slot, for its own symbol and side and with the next id. -/
theorem sideCmd_cases (h : sideCmd cfg env sym side ob tMd id q = some c) :
    c.symbolId = sym ∧ c.side = side ∧ c.clOrdId = id ∧
      ((decision cfg ob side q = .place ∧ c.type = .new ∧ c.price = target cfg ob side) ∨
        (decision cfg ob side q = .withdraw ∧ c.type = .cancel)) := by
  unfold sideCmd at h
  cases hd : decision cfg ob side q with
  | stay =>
    rw [hd] at h
    cases h
  | place =>
    rw [hd] at h
    obtain rfl := Option.some.inj h
    exact ⟨rfl, rfl, rfl, Or.inl ⟨rfl, rfl, rfl⟩⟩
  | withdraw =>
    rw [hd] at h
    obtain rfl := Option.some.inj h
    exact ⟨rfl, rfl, rfl, Or.inr ⟨rfl, rfl⟩⟩

theorem sideCmd_names (h : sideCmd cfg env sym side ob tMd id q = some c) :
    c.symbolId = sym ∧ c.side = side ∧ c.clOrdId = id := by
  obtain ⟨hsym, hside, hid, -⟩ := sideCmd_cases h
  exact ⟨hsym, hside, hid⟩

theorem sideCmd_new (h : sideCmd cfg env sym side ob tMd id q = some c) (hnew : c.type = .new) :
    decision cfg ob side q = .place ∧ c.price = target cfg ob side := by
  obtain ⟨-, -, -, ⟨hplace, -, hpx⟩ | ⟨-, hcancel⟩⟩ := sideCmd_cases h
  · exact ⟨hplace, hpx⟩
  · rw [hnew] at hcancel
    cases hcancel

end SideCmd

/-- The slot behind an accepted command.
SRCLINE: src/strategy/market_maker.hpp:123, 141 -/
def afterCmd (q : Quote) (c : OrderCmd) : Quote :=
  match c.type with
  | .new => { q with state := .pendingNew, clOrdId := c.clOrdId, price := c.price, qty := c.qty }
  | .cancel => { q with state := .pendingCancel }

/-- The log line of an accepted command. -/
def cmdLog (c : OrderCmd) (q : Quote) : LogRecord :=
  match c.type with
  | .new => newLog c
  | .cancel => cancelLog c q

/-- The commands of a side are accepted: this is no dry run and the ring has room. -/
def accepts (cfg : EngineConfig) (env : MdEnv) (side : OrdSide) : Bool :=
  !cfg.dryRun && env.room side

/-- What a side does with its command.
SRCLINE: src/strategy/market_maker.hpp:122-128, 140-146 -/
def sideAct (cfg : EngineConfig) (env : MdEnv) (m : MarketMaker) (sym : Fin kMaxSymbols)
    (side : OrdSide) : Option OrderCmd → MarketMaker × List Effect
  | none => (m, [])
  | some c =>
    if accepts cfg env side then
      (m.bumpSeed.setSlot sym side (afterCmd (m.slot sym side) c),
        [.pushed c, .logged (cmdLog c (m.slot sym side))])
    else (m.bumpSeed, [.refused c])

/-- The command the side decides in strategy `m`. -/
def decided (cfg : EngineConfig) (env : MdEnv) (m : MarketMaker) (sym : Fin kMaxSymbols)
    (side : OrdSide) (ob : OrderBook) (tMd : ℤ) : Option OrderCmd :=
  sideCmd cfg env sym side ob tMd m.clOrdSeed (m.slot sym side)

section Sides

variable (cfg : EngineConfig) (env : MdEnv) (m : MarketMaker) (sym : Fin kMaxSymbols)
  (side : OrdSide) (ob : OrderBook) (tMd : ℤ)

/-- INTERNAL: `cancel_side` in a narrow market is the decided command.
SRCLINE: src/strategy/market_maker.hpp:131-147 -/
theorem cancelSide_eq (hbba : ob.hasBba = true) (hnarrow : ¬ ob.spread ≥ cfg.minimumSpread) :
    cancelSide cfg env m sym side tMd =
      sideAct cfg env m sym side (decided cfg env m sym side ob tMd) := by
  unfold cancelSide decided sideCmd decision
  rw [if_pos hbba, if_neg hnarrow]
  by_cases hlive : (m.slot sym side).state = .live
  · simp only [hlive, ne_eq, not_true_eq_false, if_false, if_true]
    rfl
  · simp only [ne_eq, hlive, not_false_eq_true, if_true, if_false]
    rfl

/-- INTERNAL: `requote` in a wide market is the decided command.
SRCLINE: src/strategy/market_maker.hpp:107-129 -/
theorem requote_eq (hbba : ob.hasBba = true) (hwide : ob.spread ≥ cfg.minimumSpread)
    (hcross : wouldCross cfg ob = false) :
    requote cfg env m sym side (target cfg ob side) tMd =
      sideAct cfg env m sym side (decided cfg env m sym side ob tMd) := by
  unfold requote decided sideCmd decision
  rw [if_pos hbba, if_pos hwide, hcross]
  simp only [Bool.false_eq_true, if_false]
  cases hq : (m.slot sym side).state with
  | none => rfl
  | pendingNew => rfl
  | pendingCancel => rfl
  | live =>
    simp only
    split
    · rfl
    · unfold cancelSide
      simp only [hq, ne_eq, not_true_eq_false, if_false]
      rfl

theorem sideAct_books (c : Option OrderCmd) : (sideAct cfg env m sym side c).1.books = m.books := by
  cases c with
  | none => rfl
  | some c =>
    simp only [sideAct]
    split <;> rfl

theorem sideAct_slot_other (c : Option OrderCmd) (sym' : Fin kMaxSymbols) (side' : OrdSide)
    (hne : ¬ (sym' = sym ∧ side' = side)) :
    (sideAct cfg env m sym side c).1.slot sym' side' = m.slot sym' side' := by
  cases c with
  | none => rfl
  | some c =>
    simp only [sideAct]
    split
    · rw [slot_setSlot, if_neg hne, slot_bumpSeed]
    · rfl

/-- The slot of a side after a command it decided. -/
def answered (ok : Bool) (q : Quote) : Option OrderCmd → Quote
  | none => q
  | some c => if ok then afterCmd q c else q

theorem sideAct_slot (c : Option OrderCmd) :
    (sideAct cfg env m sym side c).1.slot sym side =
      answered (accepts cfg env side) (m.slot sym side) c := by
  cases c with
  | none => rfl
  | some c =>
    simp only [sideAct, answered]
    split
    · rw [slot_setSlot_self]
    · rfl

/-- The next order id after a command was decided. -/
def spend (id : UInt64) (c : Option OrderCmd) : UInt64 := if c.isSome then id + 1 else id

theorem sideAct_clOrdSeed (c : Option OrderCmd) :
    (sideAct cfg env m sym side c).1.clOrdSeed = spend m.clOrdSeed c := by
  cases c with
  | none => rfl
  | some c =>
    simp only [sideAct]
    split <;> rfl

/-- What the rings see of a command. -/
def sideEffects (ok : Bool) (q : Quote) : Option OrderCmd → List Effect
  | none => []
  | some c => if ok then [.pushed c, .logged (cmdLog c q)] else [.refused c]

theorem sideAct_effects (c : Option OrderCmd) :
    (sideAct cfg env m sym side c).2 = sideEffects (accepts cfg env side) (m.slot sym side) c := by
  cases c with
  | none => rfl
  | some c =>
    simp only [sideAct, sideEffects]
    split <;> rfl

/-- The command as the order ring sees it. -/
def sent (ok : Bool) (c : Option OrderCmd) : List OrderCmd := if ok then c.toList else []

theorem mem_sent {ok : Bool} {c : OrderCmd} {d : Option OrderCmd} :
    c ∈ sent ok d ↔ ok = true ∧ d = some c := by
  unfold sent
  cases ok <;> simp

theorem pushedCmds_sideEffects (ok : Bool) (q : Quote) (c : Option OrderCmd) :
    pushedCmds (sideEffects ok q c) = sent ok c := by
  cases c with
  | none => cases ok <;> rfl
  | some c => cases ok <;> rfl

end Sides

theorem pushedCmds_append (es es' : List Effect) :
    pushedCmds (es ++ es') = pushedCmds es ++ pushedCmds es' :=
  List.filterMap_append

theorem pushedCmds_cons_took (ev : MdEvent) (es : List Effect) :
    pushedCmds (.took ev :: es) = pushedCmds es := rfl

/-- INTERNAL: **a decision** is the command of `Buy` and then that of `Sell`.
SRCLINE: src/strategy/market_maker.hpp:75, 90-105 -/
theorem decideTurn_eq (cfg : EngineConfig) (env : MdEnv) (a : MarketMaker)
    (sym : Fin kMaxSymbols) (tMd : ℤ) :
    decideTurn cfg env a sym tMd =
      let b := sideAct cfg env a sym .buy (decided cfg env a sym .buy (a.books sym) tMd)
      let s := sideAct cfg env b.1 sym .sell (decided cfg env b.1 sym .sell (a.books sym) tMd)
      (s.1, b.2 ++ s.2) := by
  have hstay : (∀ q side, decision cfg (a.books sym) side q = .stay) → ∀ (b : MarketMaker) side,
      sideAct cfg env b sym side (decided cfg env b sym side (a.books sym) tMd) = (b, []) := by
    intro h b side
    unfold decided sideCmd
    rw [h]
    rfl
  unfold decideTurn
  by_cases hbba : (a.books sym).hasBba = true
  · rw [if_pos hbba]
    unfold MarketMaker.decide
    by_cases hwide : (a.books sym).spread ≥ cfg.minimumSpread
    · rw [if_pos hwide]
      cases hcross : wouldCross cfg (a.books sym) with
      | true =>
        rw [if_pos rfl]
        have h := hstay (by intro q side; simp [decision, hbba, hwide, hcross])
        simp only [h]
        rfl
      | false =>
        simp only [Bool.false_eq_true, if_false]
        rw [requote_eq cfg env a sym .buy (a.books sym) tMd hbba hwide hcross,
          requote_eq cfg env _ sym .sell (a.books sym) tMd hbba hwide hcross]
    · rw [if_neg hwide]
      simp only
      rw [cancelSide_eq cfg env a sym .buy (a.books sym) tMd hbba hwide,
        cancelSide_eq cfg env _ sym .sell (a.books sym) tMd hbba hwide]
  · rw [if_neg hbba]
    have h := hstay (by intro q side; simp [decision, hbba])
    simp only [h]
    rfl

section Turns

variable (cfg : EngineConfig) (env : MdEnv) (m : MarketMaker) (sym : Fin kMaxSymbols) (ev : MdEvent)

/-- The book of the symbol once the snapshot is applied. -/
def nextBook : OrderBook := (m.books sym).applySnapshot ev cfg.bookDepth

/-- The command `Buy` decides on the snapshot. -/
def buyCmd : Option OrderCmd :=
  sideCmd cfg env sym .buy (nextBook cfg m sym ev) ev.tRecvNs m.clOrdSeed (m.slot sym .buy)

/-- The command `Sell` decides on the snapshot, after `Buy`. -/
def sellCmd : Option OrderCmd :=
  sideCmd cfg env sym .sell (nextBook cfg m sym ev) ev.tRecvNs
    (spend m.clOrdSeed (buyCmd cfg env m sym ev)) (m.slot sym .sell)

/-- All of a market-data turn that later turns or other threads can see. -/
structure Decides (m' : MarketMaker) (es : List Effect) : Prop where
  books : m'.books = Function.update m.books sym (nextBook cfg m sym ev)
  seed : m'.clOrdSeed = spend (spend m.clOrdSeed (buyCmd cfg env m sym ev)) (sellCmd cfg env m sym ev)
  buy : m'.slot sym .buy =
    answered (accepts cfg env .buy) (m.slot sym .buy) (buyCmd cfg env m sym ev)
  sell : m'.slot sym .sell =
    answered (accepts cfg env .sell) (m.slot sym .sell) (sellCmd cfg env m sym ev)
  other : ∀ sym' side, sym' ≠ sym → m'.slot sym' side = m.slot sym' side
  shown : ∃ ss, (∀ x ∈ ss, ∃ s, x = .snapshot s) ∧ es = .took ev ::
    (sideEffects (accepts cfg env .buy) (m.slot sym .buy) (buyCmd cfg env m sym ev) ++
      sideEffects (accepts cfg env .sell) (m.slot sym .sell) (sellCmd cfg env m sym ev)) ++ ss

end Turns

/-- INTERNAL: **a market-data turn**, for the symbol its snapshot names.
SRCLINE: src/strategy/market_maker.hpp:66-147 -/
theorem mdIter_decides {cfg : EngineConfig} {env : MdEnv} {m m' : MarketMaker} {ev : MdEvent}
    {es : List Effect} (h : mdIter cfg env m ev = some (m', es)) (sym : Fin kMaxSymbols)
    (hsym : sym.val = ev.symbolId) : Decides cfg env m sym ev m' es := by
  rw [mdIter_eq cfg env m ev sym hsym] at h
  obtain ⟨rfl, rfl⟩ := Prod.mk.inj (Option.some.inj h)
  obtain ⟨homs, hseed, hbooks, hss⟩ := snapshotTimer_quiet cfg
    (decideTurn cfg env (m.applyMd cfg sym ev) sym ev.tRecvNs).1 env.tDeq
  have hbook : (m.applyMd cfg sym ev).books sym = nextBook cfg m sym ev := by
    simp [applyMd, nextBook]
  have hturn := decideTurn_eq cfg env (m.applyMd cfg sym ev) sym ev.tRecvNs
  rw [hbook] at hturn
  -- the two commands as the strategy state before the turn has them
  have hb : decided cfg env (m.applyMd cfg sym ev) sym .buy (nextBook cfg m sym ev) ev.tRecvNs =
      buyCmd cfg env m sym ev := rfl
  have hs : decided cfg env
      (sideAct cfg env (m.applyMd cfg sym ev) sym .buy (buyCmd cfg env m sym ev)).1 sym .sell
      (nextBook cfg m sym ev) ev.tRecvNs = sellCmd cfg env m sym ev := by
    unfold decided sellCmd
    rw [sideAct_clOrdSeed, sideAct_slot_other cfg env _ sym .buy _ sym .sell (by simp)]
    rfl
  simp only [hb, hs] at hturn
  rw [hturn] at homs hseed hbooks hss ⊢
  constructor
  · rw [hbooks, sideAct_books, sideAct_books]
    rfl
  · rw [hseed, sideAct_clOrdSeed, sideAct_clOrdSeed]
    rfl
  · rw [slot_of_oms homs, sideAct_slot_other _ _ _ _ _ _ sym .buy (by simp), sideAct_slot]
    rfl
  · rw [slot_of_oms homs, sideAct_slot, sideAct_slot_other _ _ _ _ _ _ sym .sell (by simp)]
    rfl
  · intro sym' side hne
    have hother : ∀ side', ¬ (sym' = sym ∧ side = side') := fun _ hc => hne hc.1
    rw [slot_of_oms homs, sideAct_slot_other _ _ _ _ _ _ sym' side (hother _),
      sideAct_slot_other _ _ _ _ _ _ sym' side (hother _)]
    rfl
  · refine ⟨_, hss, ?_⟩
    rw [sideAct_effects, sideAct_effects, sideAct_slot_other _ _ _ _ _ _ sym .sell (by simp)]
    rfl

/-- INTERNAL: the commands of a turn are those the two sides decided and the ring accepted, in
that order. -/
theorem Decides.cmds {cfg : EngineConfig} {env : MdEnv} {m m' : MarketMaker} {ev : MdEvent}
    {sym : Fin kMaxSymbols} {es : List Effect} (hd : Decides cfg env m sym ev m' es) :
    pushedCmds es = sent (accepts cfg env .buy) (buyCmd cfg env m sym ev) ++
      sent (accepts cfg env .sell) (sellCmd cfg env m sym ev) := by
  obtain ⟨ss, hss, rfl⟩ := hd.shown
  have hquiet : pushedCmds ss = [] := by
    apply List.filterMap_eq_nil_iff.mpr
    intro x hx
    obtain ⟨s, rfl⟩ := hss x hx
    rfl
  rw [List.cons_append, pushedCmds_cons_took, pushedCmds_append, pushedCmds_append, hquiet,
    pushedCmds_sideEffects, pushedCmds_sideEffects, List.append_nil]

theorem Decides.mem_cmds {cfg : EngineConfig} {env : MdEnv} {m m' : MarketMaker} {ev : MdEvent}
    {sym : Fin kMaxSymbols} {es : List Effect} (hd : Decides cfg env m sym ev m' es) {c : OrderCmd} :
    c ∈ pushedCmds es ↔
      accepts cfg env .buy = true ∧ buyCmd cfg env m sym ev = some c ∨
        accepts cfg env .sell = true ∧ sellCmd cfg env m sym ev = some c := by
  rw [hd.cmds, List.mem_append, mem_sent, mem_sent]

/-- INTERNAL: **a pushed `New` command** prices an order of the snapshot's symbol at the target
of a two-sided and wide book, in a slot that was free. -/
theorem Decides.new {cfg : EngineConfig} {env : MdEnv} {m m' : MarketMaker} {ev : MdEvent}
    {sym : Fin kMaxSymbols} {es : List Effect} (hd : Decides cfg env m sym ev m' es) {c : OrderCmd}
    (hc : c ∈ pushedCmds es) (hnew : c.type = .new) :
    c.symbolId = sym ∧ c.price = target cfg (nextBook cfg m sym ev) c.side ∧
      (nextBook cfg m sym ev).hasBba = true ∧
      (nextBook cfg m sym ev).spread ≥ cfg.minimumSpread ∧
      wouldCross cfg (nextBook cfg m sym ev) = false ∧ (m.slot sym c.side).state = .none := by
  rcases hd.mem_cmds.mp hc with ⟨-, hcmd⟩ | ⟨-, hcmd⟩
  · obtain ⟨hsym, hside, -⟩ := sideCmd_names hcmd
    obtain ⟨hplace, hprice⟩ := sideCmd_new hcmd hnew
    rw [hside]
    exact ⟨hsym, hprice, decision_eq_place.mp hplace⟩
  · obtain ⟨hsym, hside, -⟩ := sideCmd_names hcmd
    obtain ⟨hplace, hprice⟩ := sideCmd_new hcmd hnew
    rw [hside]
    exact ⟨hsym, hprice, decision_eq_place.mp hplace⟩

end MmEngine.Interface
