import MmEngine.Analysis.MockMarket
import MmEngine.Analysis.StuckQuotes
import MmEngine.Interface.RenamingRules

/-!
# Orders at the mock exchange

What is known of a command when it is pushed is known of all that follows from it on its way to the
mock and back: of the message, of the reports that echo it and of their events (`Flows`).  Whole runs
are then governed by what the strategy may push.

A slot that waits for a cancel when nothing is in flight waits for good (`stuck_for_good`): the mock has
answered under the id of the request, which no slot stores, and ids that come later are new.
-/

set_option autoImplicit false

namespace MmEngine.Analysis

open MmEngine.Model MmEngine.Model.MarketMaker MmEngine.Interface MmEngine.Lib

/-! ## What follows from a command -/

section Flows

variable (cfg : EngineConfig) (P : UInt64 → Fin kMaxSymbols → OrdSide → Prop)
  (Q : Fin kMaxSymbols → OrdSide → ℚ → ℚ → Prop)

/-- What is known of a command: `P` of its names, and `Q` of the price and the quantity it orders. -/
def CmdSays (c : OrderCmd) : Prop :=
  ∃ sym : Fin kMaxSymbols, c.symbolId = sym ∧ Canonical (FixApp.init cfg) sym ∧ P c.clOrdId sym c.side ∧
    (c.type = .new → Q sym c.side c.price c.qty)

/-- The same of a message. -/
inductive MsgSays : OrderMsg → Prop where
  | newOrderSingle (o : NewOrderSingle) (sym : Fin kMaxSymbols) (side : OrdSide)
      (hsym : o.symbol = (FixApp.init cfg).symbols sym) (hside : o.side = FixApp.sideChar side)
      (hcanon : Canonical (FixApp.init cfg) sym) (hP : P (strtoull o.clOrdID) sym side)
      (hQ : Q sym side o.price o.orderQty) : MsgSays (.newOrderSingle o)
  | orderCancelRequest (x : OrderCancelRequest) (sym : Fin kMaxSymbols) (side : OrdSide)
      (hsym : x.symbol = (FixApp.init cfg).symbols sym) (hside : x.side = FixApp.sideChar side)
      (hcanon : Canonical (FixApp.init cfg) sym) (hP : P (strtoull x.clOrdID) sym side) :
      MsgSays (.orderCancelRequest x)

/-- The same of an event. -/
def EventSays (e : ExecEvent) : Prop :=
  ∃ (sym : Fin kMaxSymbols) (side : OrdSide), e.symbolId = sym ∧ e.side = some side ∧ P e.clOrdId sym side ∧
    (e.kind.isFill = true → Q sym side e.lastPx e.lastQty ∧ e.leavesQty = 0)

/-- The same of all that is in flight. -/
structure Flows (s : MockPath) : Prop where
  cmds : ∀ c ∈ s.ordRing, CmdSays cfg P Q c
  msgs : ∀ m ∈ s.toExch, MsgSays cfg P Q m
  reports : ∀ r ∈ s.toEngine, ∀ now e, (FixApp.init cfg).onExecutionReport r now = .ok e → EventSays P Q e
  events : ∀ e ∈ s.execRing, EventSays P Q e

end Flows

section Steps

variable {cfg : EngineConfig} {P : UInt64 → Fin kMaxSymbols → OrdSide → Prop}
  {Q : Fin kMaxSymbols → OrdSide → ℚ → ℚ → Prop}

/-- INTERNAL: the sender passes on what a command says.
SRCLINE: src/fix/fix_app.hpp:192-229 -/
theorem CmdSays.sent {c : OrderCmd} {m : OrderMsg} (hc : CmdSays cfg P Q c)
    (hmsg : (FixApp.init cfg).sendOrderCmd c = some m) : MsgSays cfg P Q m := by
  obtain ⟨⟨n, hlt⟩, hsym, hcanon, hP, hQ⟩ := hc
  have hn : c.symbolId = n := hsym
  subst hn
  rw [FixApp.sendOrderCmd, dif_pos hlt] at hmsg
  cases htype : c.type with
  | new =>
    rw [htype] at hmsg
    obtain rfl := Option.some.inj hmsg
    refine .newOrderSingle _ ⟨c.symbolId, hlt⟩ c.side rfl rfl hcanon ?_ (hQ htype)
    rw [strtoull_printId]
    exact hP
  | cancel =>
    rw [htype] at hmsg
    obtain rfl := Option.some.inj hmsg
    refine .orderCancelRequest _ ⟨c.symbolId, hlt⟩ c.side rfl rfl hcanon ?_
    rw [strtoull_printId]
    exact hP

/-- INTERNAL: a converted report carries the side and the last fill of its fields too.
SRCLINE: src/fix/fix_app.hpp:171-181 -/
theorem fill_onExecutionReport {app : FixApp} {msg : ExecutionReport} {now : ℤ} {e : ExecEvent}
    (h : app.onExecutionReport msg now = .ok e) :
    msg.side.getIfSet none (fun s => some (if s = '1' then OrdSide.buy else .sell)) = .ok e.side ∧
      msg.lastPx.getIfSet 0 id = .ok e.lastPx ∧ msg.lastQty.getIfSet 0 id = .ok e.lastQty := by
  unfold FixApp.onExecutionReport at h
  obtain ⟨clOrdId, -, h⟩ := except_bind_eq_ok.mp h
  obtain ⟨kind, -, h⟩ := except_bind_eq_ok.mp h
  obtain ⟨side, hside, h⟩ := except_bind_eq_ok.mp h
  obtain ⟨symbolId, -, h⟩ := except_bind_eq_ok.mp h
  obtain ⟨lastPx, hpx, h⟩ := except_bind_eq_ok.mp h
  obtain ⟨lastQty, hqty, h⟩ := except_bind_eq_ok.mp h
  obtain ⟨leavesQty, -, h⟩ := except_bind_eq_ok.mp h
  obtain ⟨orderId, -, h⟩ := except_bind_eq_ok.mp h
  cases h
  exact ⟨hside, hpx, hqty⟩

theorem isFill_execKindOf {c : Char} (h : (execKindOf c).isFill = true) : c = 'F' := by
  unfold execKindOf at h
  split_ifs at h with hnew hcanceled hfilled <;> first | exact hfilled | cases h

/-- INTERNAL: a report of the mock as the engine reads it.
SRCLINE: scripts/mock_exchange.py:117-134, src/fix/fix_app.hpp:148-183 -/
theorem onExecutionReport_execReport {x : MockSession} {m : Echo} {sym : Fin kMaxSymbols} {side : OrdSide}
    (hsym : m.symbol = (FixApp.init cfg).symbols sym) (hside : m.side = FixApp.sideChar side)
    (hcanon : Canonical (FixApp.init cfg) sym) {execType ordStatus : Char} {leaves : ℚ} {last : Option (ℚ × ℚ)}
    {now : ℤ} {e : ExecEvent}
    (hconv : (FixApp.init cfg).onExecutionReport (x.execReport m execType ordStatus leaves last).2 now = .ok e) :
    e.clOrdId = strtoull m.clOrdID ∧ e.symbolId = sym ∧ e.side = some side ∧ e.leavesQty = leaves ∧
      (e.kind.isFill = true → execType = 'F') ∧
      ∀ px qty, last = some (px, qty) → e.lastPx = px ∧ e.lastQty = qty := by
  obtain ⟨hid, hkind, hsymbol, hleaves⟩ := onExecutionReport_eq_ok hconv
  obtain ⟨hsides, hpx, hqty⟩ := fill_onExecutionReport hconv
  refine ⟨(Except.ok.inj hid).symm, ?_, ?_, (Except.ok.inj hleaves).symm, ?_, ?_⟩
  · rw [← Except.ok.inj hsymbol, hsym]
    exact hcanon
  · rw [← Except.ok.inj hsides, hside]
    cases side <;> rfl
  · intro hfill
    rw [reportKind_of_values rfl rfl hkind] at hfill
    split at hfill
    · next hfilled => exact isFill_execKindOf (by rw [hfilled]; rfl)
    · exact isFill_execKindOf hfill
  · rintro px qty rfl
    exact ⟨(Except.ok.inj hpx).symm, (Except.ok.inj hqty).symm⟩

/-- INTERNAL: the mock passes on what a message says.
SRCLINE: scripts/mock_exchange.py:183-193 -/
theorem MsgSays.handled {x : MockSession} {m : OrderMsg} (hm : MsgSays cfg P Q m) {r : ExecutionReport}
    (hr : r ∈ (x.handle m).2) {now : ℤ} {e : ExecEvent}
    (hconv : (FixApp.init cfg).onExecutionReport r now = .ok e) : EventSays P Q e := by
  cases hm with
  | newOrderSingle o sym side hsym hside hcanon hP hQ =>
    have hack : ∀ {y : MockSession} {r : ExecutionReport},
        r = (y.execReport { clOrdID := o.clOrdID, symbol := o.symbol, side := o.side } '0' '0' o.orderQty none).2 →
          (FixApp.init cfg).onExecutionReport r now = .ok e → EventSays P Q e := by
      rintro y r rfl hconv
      obtain ⟨hid, hsymbol, hsides, -, hfill, -⟩ := onExecutionReport_execReport hsym hside hcanon hconv
      refine ⟨sym, side, hsymbol, hsides, hid ▸ hP, fun h => ?_⟩
      exact absurd (hfill h) (by decide)
    rw [MockSession.handle] at hr
    dsimp only at hr
    split at hr
    · rcases List.mem_cons.mp hr with hr | hr
      · exact hack hr hconv
      · -- the fill is at the price and for the quantity of the order
        rw [List.mem_singleton] at hr
        subst hr
        obtain ⟨hid, hsymbol, hsides, hleaves, -, hlast⟩ := onExecutionReport_execReport hsym hside hcanon hconv
        obtain ⟨hpx, hqty⟩ := hlast _ _ rfl
        refine ⟨sym, side, hsymbol, hsides, hid ▸ hP, fun _ => ⟨?_, hleaves⟩⟩
        rw [hpx, hqty]
        exact hQ
    · exact hack (List.mem_singleton.mp hr) hconv
  | orderCancelRequest o sym side hsym hside hcanon hP =>
    rw [MockSession.handle] at hr
    dsimp only at hr
    rw [List.mem_singleton] at hr
    subst hr
    obtain ⟨hid, hsymbol, hsides, -, hfill, -⟩ := onExecutionReport_execReport hsym hside hcanon hconv
    refine ⟨sym, side, hsymbol, hsides, hid ▸ hP, fun h => ?_⟩
    exact absurd (hfill h) (by decide)

/-- INTERNAL: **one step** of a party passes on what it takes; what the strategy pushes is up to it. -/
theorem Flows.step {s t : MockPath} {a : PathAct mockExchange} {es : List Effect} (hs : Flows cfg P Q s)
    (hstep : PathStep cfg s a t es) (hnew : ∀ c ∈ pushedCmds es, CmdSays cfg P Q c) : Flows cfg P Q t := by
  obtain ⟨hcmds, hmsgs, hreports, hevents⟩ := hs
  cases hstep with
  | md seq msg now env ev m es hconv hiter =>
    refine ⟨?_, hmsgs, hreports, hevents⟩
    intro c hc
    rcases List.mem_append.mp hc with hc | hc
    · exact hcmds c hc
    · exact hnew c hc
  | exec e rest sym hring hsym =>
    exact ⟨hcmds, hmsgs, hreports, fun e' he' => hevents e' (hring ▸ List.mem_cons_of_mem _ he')⟩
  | send c rest m hring hmsg =>
    refine ⟨fun c' hc' => hcmds c' (hring ▸ List.mem_cons_of_mem _ hc'), ?_, hreports, hevents⟩
    intro m' hm'
    rcases List.mem_append.mp hm' with hm' | hm'
    · exact hmsgs m' hm'
    · rw [List.mem_singleton.mp hm']
      exact (hcmds c (hring ▸ List.mem_cons_self)).sent hmsg
  | recv m rest hring =>
    refine ⟨hcmds, fun m' hm' => hmsgs m' (hring ▸ List.mem_cons_of_mem _ hm'), ?_, hevents⟩
    intro r hr now e hconv
    rcases List.mem_append.mp hr with hr | hr
    · exact hreports r hr now e hconv
    · exact (hmsgs m (hring ▸ List.mem_cons_self)).handled hr hconv
  | act a => exact nomatch a
  | reported now r rest e hring hconv =>
    refine ⟨hcmds, hmsgs, fun r' hr' => hreports r' (hring ▸ List.mem_cons_of_mem _ hr'), ?_⟩
    intro e' he'
    rcases List.mem_append.mp he' with he' | he'
    · exact hevents e' he'
    · rw [List.mem_singleton.mp he']
      exact hreports r (hring ▸ List.mem_cons_self) now e hconv
  | dropped now r rest err hring hconv =>
    exact ⟨hcmds, hmsgs, fun r' hr' => hreports r' (hring ▸ List.mem_cons_of_mem _ hr'), hevents⟩

end Steps

/-! ## The ids of a turn -/

/-- INTERNAL: **the ids a turn pushes** are among those it counts.
SRCLINE: src/strategy/market_maker.hpp:120, 138, 164 -/
theorem pushed_ids {cfg : EngineConfig} {env : MdEnv} {m m' : MarketMaker} {ev : MdEvent}
    {sym : Fin kMaxSymbols} {es : List Effect} {n : ℕ} (hd : Decides cfg env m sym ev m' es)
    (hn : m.clOrdSeed = UInt64.ofNat n) (hlt : n + spent es < 2 ^ 64) {c : OrderCmd} (hc : c ∈ pushedCmds es) :
    n ≤ c.clOrdId.toNat ∧ c.clOrdId.toNat < n + spent es := by
  have hspent := hd.spent_eq
  rcases hd.mem_cmds.mp hc with ⟨-, hcmd⟩ | ⟨-, hcmd⟩
  · obtain ⟨-, -, hid⟩ := sideCmd_names hcmd
    rw [hcmd] at hspent
    rw [Option.toList_some, List.length_singleton] at hspent
    rw [hid, hn, UInt64.toNat_ofNat', Nat.mod_eq_of_lt (by omega)]
    omega
  · obtain ⟨-, -, hid⟩ := sideCmd_names hcmd
    rw [hcmd, Option.toList_some, List.length_singleton] at hspent
    rw [hid, spend_eq, hn, ← UInt64.ofNat_add, UInt64.toNat_ofNat', Nat.mod_eq_of_lt (by omega)]
    omega

/-- INTERNAL: the ids the slots store stand through a turn on a snapshot. -/
theorem slotIds_kept (cfg : EngineConfig) :
    KeptFresh cfg (fun _ => True) (fun _ _ _ => True) fun m _ => SlotIds m where
  view := by
    intro m m' h homs hseed hm
    refine hm.of_same ?_ ?_ (le_of_eq (congrArg UInt64.toNat hseed.symm))
    · exact fun sym side => congrArg Quote.clOrdId (slot_of_oms homs sym side)
    · exact fun sym side => by rw [slot_of_oms homs]
  quiet := fun _ _ _ _ hm => hm
  refused := fun _ _ _ hroom hm =>
    hm.of_same (fun _ _ => rfl) (fun _ _ => Iff.rfl) (clOrdSeed_lt_bumpSeed hroom).le
  placed := fun _ _ _ _ _ _ _ hroom _ _ hm => hm.placed hroom
  canceled := fun _ _ _ _ _ _ hroom _ _ hlive hm => hm.canceled hroom hlive

/-- The slots store counted ids, and whatever is in flight names an order. -/
structure Orders (cfg : EngineConfig) (Q : Fin kMaxSymbols → OrdSide → ℚ → ℚ → Prop) (s : MockPath) : Prop where
  ids : SlotIds s.mm
  flows : Flows cfg (fun id _ _ => id ≠ 0) Q s

section Runs

variable {cfg : EngineConfig} {Q : Fin kMaxSymbols → OrdSide → ℚ → ℚ → Prop}

/-- INTERNAL: **one step**, if new orders are priced as `Q` says. -/
theorem Orders.step {s t : MockPath} {a : PathAct mockExchange} {es : List Effect} {n : ℕ} (hs : Orders cfg Q s)
    (hstep : PathStep cfg s a t es) (hn : s.mm.clOrdSeed = UInt64.ofNat n) (hlt : n + spent es < 2 ^ 64)
    (hQ : ∀ c ∈ pushedCmds es, c.type = .new → ∀ sym : Fin kMaxSymbols, c.symbolId = sym → Q sym c.side c.price c.qty) :
    Orders cfg Q t := by
  have hpos : n ≠ 0 := by
    rintro rfl
    exact hs.ids.seed hn
  refine ⟨?_, hs.flows.step hstep ?_⟩
  · cases hstep with
    | md seq msg now env ev m es hconv hiter =>
      exact (slotIds_kept cfg).mdIter hiter hn (fun _ _ => trivial) (fun _ _ _ _ _ => trivial) hs.ids hlt
    | exec e rest sym hring hsym =>
      obtain ⟨-, -, -, -, hid, -⟩ := hs.flows.events e (hring ▸ List.mem_cons_self)
      exact hs.ids.takeExec (hs.ids.idle_takeExec sym hid)
    | send | recv | reported | dropped => exact hs.ids
    | act a => exact nomatch a
  · intro c hc
    cases hstep with
    | md seq msg now env ev m es hconv hiter =>
      obtain ⟨sym, hsym, hcanon⟩ := onMarketData_canonical hconv
      have hd := mdIter_decides hiter sym hsym.symm
      have hrow : c.symbolId = sym := by
        rcases hd.mem_cmds.mp hc with ⟨-, hcmd⟩ | ⟨-, hcmd⟩ <;> exact (sideCmd_names hcmd).1
      refine ⟨sym, hrow, hcanon, ?_, fun hnew => hQ c hc hnew sym hrow⟩
      rintro hzero
      have hcount := (pushed_ids hd hn hlt hc).1
      rw [hzero, UInt64.toNat_zero] at hcount
      omega
    | exec e rest sym hring hsym =>
      split at hc <;> cases hc
    | send | recv | reported | dropped => cases hc
    | act a => exact nomatch a

/-- INTERNAL: a step of the path counts the ids it spends. -/
theorem seed_step {s t : MockPath} {a : PathAct mockExchange} {es : List Effect} {n : ℕ}
    (hstep : PathStep cfg s a t es) (hn : s.mm.clOrdSeed = UInt64.ofNat n) :
    t.mm.clOrdSeed = UInt64.ofNat (n + spent es) := by
  cases hstep with
  | md seq msg now env ev m es hconv hiter => exact clOrdSeed_mdIter hiter hn
  | exec e rest sym hring hsym =>
    have hnone : spent (.consumed e :: if e.kind.isFill then [.trade e, .logged (execLog e)] else []) = 0 := by
      split <;> rfl
    rw [hnone]
    exact hn
  | send | recv | reported | dropped => exact hn
  | act a => exact nomatch a

/-- INTERNAL: **the rule for runs** in which the counter does not wrap. -/
theorem counted_run {G : PathAct mockExchange → Prop} {I : MockPath → List Effect → Prop} {n : ℕ}
    (hI : ∀ {s t : MockPath} {a : PathAct mockExchange} {h es : List Effect}, I s h → G a →
      s.mm.clOrdSeed = UInt64.ofNat (n + spent h) → n + spent h + spent es < 2 ^ 64 →
      PathStep cfg s a t es → I t (h ++ es))
    {s t : MockPath} {h h' : List Effect} {as : List (PathAct mockExchange)} (hs : I s h)
    (hn : s.mm.clOrdSeed = UInt64.ofNat (n + spent h)) (hG : ∀ a ∈ as, G a)
    (hrun : run (recorded (OrderPath.step cfg)) (s, h) as = some (t, h')) (hlt : n + spent h' < 2 ^ 64) :
    t.mm.clOrdSeed = UInt64.ofNat (n + spent h') ∧ I t h' := by
  have hcount : t.mm.clOrdSeed = UInt64.ofNat (n + spent h') ∧ (n + spent h' < 2 ^ 64 → I t h') := by
    refine run_invariant (I := fun x => x.1.mm.clOrdSeed = UInt64.ofNat (n + spent x.2) ∧
      (n + spent x.2 < 2 ^ 64 → I x.1 x.2)) ?_ ⟨hn, fun _ => hs⟩ ((along_true _ as).and_mem hG) hrun
    rintro ⟨s, h⟩ a ⟨t, h'⟩ ⟨hn, hs⟩ ⟨-, hGa⟩ hact
    obtain ⟨es, hes, rfl⟩ := recorded_eq_some.mp hact
    have hstep := step_pathStep hes
    dsimp only at hn hs hstep ⊢
    rw [spent_append, ← Nat.add_assoc]
    exact ⟨seed_step hstep hn, fun hlt => hI (hs (by omega)) hGa hn hlt hstep⟩
  exact ⟨hcount.1, hcount.2 hlt⟩

end Runs

/-! ## A slot that waits for good -/

/-- INTERNAL: a slot that waits for a cancel decides nothing.
SRCLINE: src/strategy/market_maker.hpp:107-116, 131-133 -/
theorem decision_pendingCancel (cfg : EngineConfig) (ob : OrderBook) (side : OrdSide) {q : Quote}
    (hq : q.state = .pendingCancel) : decision cfg ob side q = .stay := by
  unfold decision
  rw [hq]
  split_ifs <;> first | rfl | contradiction

/-- INTERNAL: a turn on a snapshot leaves such a slot alone, and pushes nothing for it. -/
theorem waiting_mdIter {cfg : EngineConfig} {env : MdEnv} {m m' : MarketMaker} {ev : MdEvent}
    {sym : Fin kMaxSymbols} {es : List Effect} (hd : Decides cfg env m sym ev m' es) {side : OrdSide}
    (hq : (m.slot sym side).state = .pendingCancel) :
    m'.slot sym side = m.slot sym side ∧ ∀ c ∈ pushedCmds es, c.side ≠ side := by
  have hnone : ∀ ob tMd id, sideCmd cfg env sym side ob tMd id (m.slot sym side) = none := by
    intro ob tMd id
    unfold sideCmd
    rw [decision_pendingCancel cfg ob side hq]
  constructor
  · cases side with
    | buy =>
      rw [hd.buy, buyCmd, hnone]
      rfl
    | sell =>
      rw [hd.sell, sellCmd, hnone]
      rfl
  · rintro c hc rfl
    rcases hd.mem_cmds.mp hc with ⟨-, hcmd⟩ | ⟨-, hcmd⟩
    · have hside := (sideCmd_names hcmd).2.1
      rw [hside] at hnone
      rw [buyCmd, hnone] at hcmd
      cases hcmd
    · have hside := (sideCmd_names hcmd).2.1
      rw [hside] at hnone
      rw [sellCmd, hnone] at hcmd
      cases hcmd

/-- The slot is `q`, whose id is counted, and nothing in flight has that id or is for the slot. -/
structure StuckAt (cfg : EngineConfig) (sym : Fin kMaxSymbols) (side : OrdSide) (q : Quote) (s : MockPath) :
    Prop where
  slot : s.mm.slot sym side = q
  counted : q.clOrdId.toNat < s.mm.clOrdSeed.toNat
  flows : Flows cfg (fun id sym' side' => id ≠ q.clOrdId ∧ ¬ (sym' = sym ∧ side' = side))
    (fun _ _ _ _ => True) s

/-- INTERNAL: **one step** of a party. -/
theorem StuckAt.step {cfg : EngineConfig} {sym : Fin kMaxSymbols} {side : OrdSide} {q : Quote}
    (hq : q.state = .pendingCancel) {s t : MockPath} {a : PathAct mockExchange} {es : List Effect} {n : ℕ}
    (hs : StuckAt cfg sym side q s) (hstep : PathStep cfg s a t es) (hn : s.mm.clOrdSeed = UInt64.ofNat n)
    (hlt : n + spent es < 2 ^ 64) : StuckAt cfg sym side q t := by
  have hcount := hs.counted
  rw [hn, UInt64.toNat_ofNat', Nat.mod_eq_of_lt (by omega)] at hcount
  have hseed : q.clOrdId.toNat < t.mm.clOrdSeed.toNat := by
    rw [seed_step hstep hn, UInt64.toNat_ofNat', Nat.mod_eq_of_lt hlt]
    omega
  have hslot := hs.slot
  refine ⟨?_, hseed, hs.flows.step hstep ?_⟩
  · cases hstep with
    | md seq msg now env ev m es hconv hiter =>
      obtain ⟨sym', hsym, -⟩ := onMarketData_canonical hconv
      have hd := mdIter_decides hiter sym' hsym.symm
      by_cases hrow : sym = sym'
      · subst hrow
        exact (waiting_mdIter hd (by rw [hslot]; exact hq)).1.trans hslot
      · exact (hd.other sym side hrow).trans hslot
    | exec e rest sym' hring hsym =>
      obtain ⟨-, -, -, -, ⟨hid, -⟩, -⟩ := hs.flows.events e (hring ▸ List.mem_cons_self)
      rcases slot_takeExec s.mm sym' e sym side with hsame | ⟨rfl, heq, -⟩
      · exact hsame.trans hslot
      · rw [hslot] at heq
        exact absurd heq.symm hid
    | send | recv | reported | dropped => exact hslot
    | act a => exact nomatch a
  · intro c hc
    cases hstep with
    | md seq msg now env ev m es hconv hiter =>
      obtain ⟨sym', hsym, hcanon⟩ := onMarketData_canonical hconv
      have hd := mdIter_decides hiter sym' hsym.symm
      have hrow : c.symbolId = sym' := by
        rcases hd.mem_cmds.mp hc with ⟨-, hcmd⟩ | ⟨-, hcmd⟩ <;> exact (sideCmd_names hcmd).1
      refine ⟨sym', hrow, hcanon, ⟨?_, ?_⟩, fun _ => trivial⟩
      · -- a new id is above those that are counted
        intro heq
        have hnew := (pushed_ids hd hn hlt hc).1
        rw [heq] at hnew
        omega
      · rintro ⟨rfl, hside⟩
        exact (waiting_mdIter hd (by rw [hslot]; exact hq)).2 c hc hside
    | exec e rest sym' hring hsym =>
      split at hc <;> cases hc
    | send | recv | reported | dropped => cases hc
    | act a => exact nomatch a

theorem flows_of_quiescent {cfg : EngineConfig} {P : UInt64 → Fin kMaxSymbols → OrdSide → Prop}
    {Q : Fin kMaxSymbols → OrdSide → ℚ → ℚ → Prop} {s : MockPath} (hs : Quiescent s) : Flows cfg P Q s := by
  obtain ⟨hord, hexch, heng, hexec⟩ := hs
  refine ⟨?_, ?_, ?_, ?_⟩
  · rw [hord]
    exact fun c hc => absurd hc List.not_mem_nil
  · rw [hexch]
    exact fun m hm => absurd hm List.not_mem_nil
  · rw [heng]
    exact fun r hr => absurd hr List.not_mem_nil
  · rw [hexec]
    exact fun e he => absurd he List.not_mem_nil

/-- INTERNAL: the engine connects to the mock. -/
theorem orders_start {cfg : EngineConfig} {Q : Fin kMaxSymbols → OrdSide → ℚ → ℚ → Prop} {tCtor tRun : ℤ}
    (hseed : (MarketMaker.init tCtor tRun).clOrdSeed ≠ 0) : Orders cfg Q (mockStart tCtor tRun) :=
  ⟨SlotIds.init hseed, flows_of_quiescent ⟨rfl, rfl, rfl, rfl⟩⟩

/-- **A slot that waits for a cancel when nothing is in flight waits for good.**  Whatever the market
does after that, and in whatever order the parties move, the slot never changes, and the order ring
never holds a command for it again.
SRCLINE: src/strategy/market_maker.hpp:107-147, src/oms/order_manager.hpp:26-47,
scripts/mock_exchange.py:117-134, 183-193 -/
theorem stuck_for_good {cfg : EngineConfig} {tCtor tRun : ℤ} {as bs : List (PathAct mockExchange)}
    {s t : MockPath} {h h' : List Effect} (hseed : (MarketMaker.init tCtor tRun).clOrdSeed ≠ 0)
    (hrun : run (recorded (OrderPath.step cfg)) (mockStart tCtor tRun, []) as = some (s, h))
    (hquiet : Quiescent s) {sym : Fin kMaxSymbols} {side : OrdSide}
    (hwait : (s.mm.slot sym side).state = .pendingCancel)
    (hlater : run (recorded (OrderPath.step cfg)) (s, h) bs = some (t, h'))
    (hwrap : (MarketMaker.init tCtor tRun).clOrdSeed.toNat + spent h' < 2 ^ 64) :
    t.mm.slot sym side = s.mm.slot sym side ∧ ∀ c ∈ t.ordRing, ¬ (c.symbolId = sym.val ∧ c.side = side) := by
  have hle : spent h ≤ spent h' := by
    rw [run_recorded, Option.map_eq_some_iff] at hlater
    obtain ⟨y, -, hy⟩ := hlater
    rw [← (Prod.mk.inj hy).2, spent_append]
    exact Nat.le_add_right _ _
  have hstart : (mockStart tCtor tRun).mm.clOrdSeed =
      UInt64.ofNat ((MarketMaker.init tCtor tRun).clOrdSeed.toNat + spent []) := by
    rw [spent_nil, Nat.add_zero, UInt64.ofNat_toNat]
    rfl
  obtain ⟨hn, horders⟩ := counted_run (I := fun s _ => Orders cfg (fun _ _ _ _ => True) s) (G := fun _ => True)
    (fun hs _ hn hlt hstep => hs.step hstep hn hlt fun _ _ _ _ _ => trivial) (orders_start hseed) hstart
    (fun _ _ => trivial) hrun (by omega)
  have hstuck : StuckAt cfg sym side (s.mm.slot sym side) s :=
    ⟨rfl, (horders.ids.counted sym side (by rw [hwait]; decide)).2, flows_of_quiescent hquiet⟩
  obtain ⟨-, hend⟩ := counted_run (I := fun t _ => StuckAt cfg sym side (s.mm.slot sym side) t)
    (G := fun _ => True) (fun hs _ hn hlt hstep => hs.step hwait hstep hn hlt) hstuck hn (fun _ _ => trivial)
    hlater hwrap
  refine ⟨hend.slot, ?_⟩
  rintro c hc ⟨hrow, hside⟩
  obtain ⟨sym', hsym', -, ⟨-, hother⟩, -⟩ := hend.flows.cmds c hc
  exact hother ⟨Fin.ext (hsym'.symm.trans hrow), hside⟩

/-- Both slots wait when the market opens again. -/
theorem stuck_for_good_opened :
    ∃ s h t h', run (recorded (OrderPath.step { tickSize := 1 / 2, symbols := ["DLR".toList] }))
        (mockStart 1000000000 0, []) lockedMarket = some (s, h) ∧
      run (recorded (OrderPath.step { tickSize := 1 / 2, symbols := ["DLR".toList] })) (s, h)
        [.md 3 (twoSided "DLR".toList 99 101) 0 quickEnv] = some (t, h') ∧
      (t.mm.slot 0 .buy).state = .pendingCancel ∧ ∀ c ∈ t.ordRing, ¬ (c.symbolId = 0 ∧ c.side = .buy) := by
  have heval : ((run (recorded (OrderPath.step { tickSize := 1 / 2, symbols := ["DLR".toList] }))
      (mockStart 1000000000 0, []) lockedMarket).bind fun x =>
        (run (recorded (OrderPath.step { tickSize := 1 / 2, symbols := ["DLR".toList] })) x
          [.md 3 (twoSided "DLR".toList 99 101) 0 quickEnv]).map fun y =>
          (decide (Quiescent x.1), (x.1.mm.slot 0 .buy).state, spent y.2)) =
      some (true, .pendingCancel, 4) := by
    decide +kernel
  obtain ⟨⟨s, h⟩, hrun, heval⟩ := Option.bind_eq_some_iff.mp heval
  obtain ⟨⟨t, h'⟩, hlater, heval⟩ := Option.map_eq_some_iff.mp heval
  simp only [Prod.mk.injEq, decide_eq_true_eq] at heval
  obtain ⟨hquiet, hwait, hspent⟩ := heval
  have hgood := stuck_for_good (by decide) hrun hquiet hwait hlater (by rw [hspent]; decide)
  exact ⟨s, h, t, h', hrun, hlater, by rw [hgood.1]; exact hwait, hgood.2⟩

end MmEngine.Analysis
