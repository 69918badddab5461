import MmEngine.Model.MockExchange
import MmEngine.Interface.OrderPathRules

/-!
# When a quote gets stuck against the mock exchange

`cancel_side` sends its request under a fresh id and leaves the slot under the order's id
(market_maker.hpp:134-141).  The mock exchange confirms the request under the id of the
request (mock_exchange.py:123, 193), and `on_exec` looks for the id of the order: the
confirmation matches no slot, and the slot stays in `PendingCancel` for good.  Only a fill
that was already under way when the cancel was started still frees it.

So in every quiescent state no slot waits for an answer, as long as no snapshot starts a
cancel of a live order whose fill is not already on its way back.  The invariant says where
the answer of every waiting slot is: the acknowledgement of a new order anywhere on the path
from the order ring round to the exec ring, and for a slot in `PendingCancel` its fill
between the exchange and the strategy.
-/

set_option autoImplicit false

namespace MmEngine.Analysis

open MmEngine.Model MmEngine.Model.MarketMaker MmEngine.Interface MmEngine.Lib

/-- The engine and the mock exchange. -/
abbrev MockPath := OrderPath mockExchange

/-- The report becomes an event of this kind, for this symbol and with this id. -/
def ReportOf (cfg : EngineConfig) (kind : ExecKind) (sym : Fin kMaxSymbols) (id : UInt64)
    (r : ExecutionReport) : Prop :=
  ∀ now, ∃ e, (FixApp.init cfg).onExecutionReport r now = .ok e ∧ e.kind = kind ∧
    e.symbolId = sym ∧ e.clOrdId = id

/-- A report of this kind about the order is between the exchange and the strategy. -/
def Carried (cfg : EngineConfig) (s : MockPath) (kind : ExecKind) (sym : Fin kMaxSymbols)
    (id : UInt64) : Prop :=
  (∃ r ∈ s.toEngine, ReportOf cfg kind sym id r) ∨
    ∃ e ∈ s.execRing, e.kind = kind ∧ e.symbolId = sym ∧ e.clOrdId = id

/-- The order is on its way to the exchange, or its acknowledgement on its way back. -/
def Awaited (cfg : EngineConfig) (s : MockPath) (sym : Fin kMaxSymbols) (id : UInt64) : Prop :=
  (∃ c ∈ s.ordRing, c.type = .new ∧ c.symbolId = sym ∧ c.clOrdId = id) ∨
    (∃ o, .newOrderSingle o ∈ s.toExch ∧ o.symbol = (FixApp.init cfg).symbols sym ∧
      strtoull o.clOrdID = id) ∨
    Carried cfg s .new sym id

/-- Nothing is in flight. -/
def Quiescent (s : MockPath) : Prop :=
  s.ordRing = [] ∧ s.toExch = [] ∧ s.toEngine = [] ∧ s.execRing = []

instance (s : MockPath) : Decidable (Quiescent s) :=
  inferInstanceAs (Decidable (_ ∧ _ ∧ _ ∧ _))

/-- The snapshot that left book `ob` starts a cancel of the slot. -/
def StartsCancel (cfg : EngineConfig) (ob : OrderBook) (side : OrdSide) (ok : Bool) (q : Quote) :
    Prop :=
  q.state = .live ∧ ob.hasBba = true ∧ ok = true ∧
    (¬ ob.spread ≥ cfg.minimumSpread ∨
      wouldCross cfg ob = false ∧ ¬ |q.price - target cfg ob side| < cfg.tickSize * (1 / 2))

/-- The condition on a step: a snapshot starts a cancel only of an order whose fill is on its
way to the strategy. -/
def CancelsFilled (cfg : EngineConfig) (s : MockPath) : PathAct mockExchange → Prop
  | .md seq msg now env => ∀ ev, (FixApp.init cfg).onMarketData seq msg now = .ok (some ev) →
      ∀ (sym : Fin kMaxSymbols) (side : OrdSide), sym.val = ev.symbolId →
        StartsCancel cfg ((s.mm.books sym).applySnapshot ev cfg.bookDepth) side
          (!cfg.dryRun && env.room side) (s.mm.slot sym side) →
        Carried cfg s .filled sym (s.mm.slot sym side).clOrdId
  | _ => True

/-- What holds between two steps of the path. -/
structure Answered (cfg : EngineConfig) (s : MockPath) : Prop where
  news : ∀ sym side, (s.mm.slot sym side).state = .pendingNew →
    Awaited cfg s sym (s.mm.slot sym side).clOrdId
  cancels : ∀ sym side, (s.mm.slot sym side).state = .pendingCancel →
    Carried cfg s .filled sym (s.mm.slot sym side).clOrdId
  canonical : ∀ sym side, (s.mm.slot sym side).state ≠ .none → Canonical (FixApp.init cfg) sym
  ids : SlotIds s.mm
  cmds : ∀ c ∈ s.ordRing, c.clOrdId ≠ 0 ∧
    ∃ sym : Fin kMaxSymbols, c.symbolId = sym ∧ Canonical (FixApp.init cfg) sym
  msgs : ∀ m ∈ s.toExch, strtoull m.clOrdID ≠ 0 ∧
    ∃ sym, m.symbol = (FixApp.init cfg).symbols sym ∧ Canonical (FixApp.init cfg) sym
  reports : ∀ r ∈ s.toEngine, ∀ now e, (FixApp.init cfg).onExecutionReport r now = .ok e →
    e.clOrdId ≠ 0 ∧ e.symbolId < kMaxSymbols
  events : ∀ e ∈ s.execRing, e.clOrdId ≠ 0 ∧ e.symbolId < kMaxSymbols

/-- INTERNAL: what a snapshot turns into `PendingCancel` is what it starts to cancel.
SRCLINE: src/strategy/market_maker.hpp:90-147 -/
theorem startsCancel_of_nextQuote {cfg : EngineConfig} {ob : OrderBook} {side : OrdSide}
    {ok : Bool} {id : UInt64} {q : Quote} (hlive : q.state = .live)
    (hpend : (nextQuote cfg ob side ok id q).state = .pendingCancel) :
    StartsCancel cfg ob side ok q := by
  unfold nextQuote at hpend
  unfold StartsCancel
  by_cases hbba : ob.hasBba = true
  · rw [if_pos hbba] at hpend
    by_cases hwide : ob.spread ≥ cfg.minimumSpread
    · rw [if_pos hwide] at hpend
      cases hcross : wouldCross cfg ob with
      | true => simp [hcross, hlive] at hpend
      | false =>
        simp only [hcross, hlive, Bool.false_eq_true, if_false] at hpend
        split at hpend
        · simp [hlive] at hpend
        · next hfar =>
          cases ok with
          | false => simp [hlive] at hpend
          | true => exact ⟨hlive, hbba, rfl, Or.inr ⟨rfl, hfar⟩⟩
    · rw [if_neg hwide] at hpend
      cases ok with
      | false => simp [hlive] at hpend
      | true => exact ⟨hlive, hbba, rfl, Or.inl hwide⟩
  · rw [if_neg hbba, hlive] at hpend
    cases hpend

/-! ## The mock exchange -/

/-- INTERNAL: every answer of the mock exchange echoes the id and the symbol of the message.
SRCLINE: scripts/mock_exchange.py:117-134, 183-193 -/
theorem handle_echo {cfg : EngineConfig} {x : MockSession} {m : OrderMsg} {r : ExecutionReport}
    (hr : r ∈ (x.handle m).2) {now : ℤ} {e : ExecEvent}
    (hconv : (FixApp.init cfg).onExecutionReport r now = .ok e) :
    e.clOrdId = strtoull m.clOrdID ∧ e.symbolId = (FixApp.init cfg).symbolId m.symbol := by
  have hfields : r.clOrdID = .value m.clOrdID ∧ r.symbol = .value m.symbol := by
    cases m with
    | newOrderSingle o =>
      simp only [MockSession.handle] at hr
      split at hr
      · simp only [List.mem_cons, List.not_mem_nil, or_false] at hr
        rcases hr with rfl | rfl <;> exact ⟨rfl, rfl⟩
      · rw [List.mem_singleton.mp hr]
        exact ⟨rfl, rfl⟩
    | orderCancelRequest o =>
      rw [List.mem_singleton.mp hr]
      exact ⟨rfl, rfl⟩
  obtain ⟨hcl, -, hsym, -⟩ := onExecutionReport_eq_ok hconv
  rw [hfields.1] at hcl
  rw [hfields.2] at hsym
  exact ⟨(Except.ok.inj hcl).symm, (Except.ok.inj hsym).symm⟩

/-- INTERNAL: a new order is acknowledged under its own id.
SRCLINE: scripts/mock_exchange.py:183-190 -/
theorem handle_acknowledges {cfg : EngineConfig} (x : MockSession) (o : NewOrderSingle)
    {sym : Fin kMaxSymbols} (hsym : o.symbol = (FixApp.init cfg).symbols sym)
    (hcanon : Canonical (FixApp.init cfg) sym) :
    ∃ r ∈ (x.handle (.newOrderSingle o)).2, ReportOf cfg .new sym (strtoull o.clOrdID) r := by
  have hack : ReportOf cfg .new sym (strtoull o.clOrdID)
      (x.execReport { clOrdID := o.clOrdID, symbol := o.symbol, side := o.side } '0' '0'
        o.orderQty none).2 := by
    intro now
    refine ⟨_, rfl, rfl, ?_, rfl⟩
    show (FixApp.init cfg).symbolId o.symbol = sym
    rw [hsym]
    exact hcanon
  simp only [MockSession.handle]
  split
  · exact ⟨_, List.mem_cons_self, hack⟩
  · exact ⟨_, List.mem_cons_self, hack⟩

/-! ## The strategy's turn on a snapshot -/

/-- INTERNAL: a report stays on its way when the channels back keep what they hold. -/
theorem Carried.mono {cfg : EngineConfig} {s t : MockPath} {kind : ExecKind}
    {sym : Fin kMaxSymbols} {id : UInt64} (h : Carried cfg s kind sym id)
    (heng : ∀ r ∈ s.toEngine, r ∈ t.toEngine) (hexec : ∀ e ∈ s.execRing, e ∈ t.execRing) :
    Carried cfg t kind sym id := by
  rcases h with ⟨r, hr, hof⟩ | ⟨e, he, hof⟩
  · exact Or.inl ⟨r, heng r hr, hof⟩
  · exact Or.inr ⟨e, hexec e he, hof⟩

/-- INTERNAL: an order stays awaited when all channels keep what they hold. -/
theorem Awaited.mono {cfg : EngineConfig} {s t : MockPath} {sym : Fin kMaxSymbols} {id : UInt64}
    (h : Awaited cfg s sym id) (hord : ∀ c ∈ s.ordRing, c ∈ t.ordRing)
    (hexch : ∀ m ∈ s.toExch, m ∈ t.toExch) (heng : ∀ r ∈ s.toEngine, r ∈ t.toEngine)
    (hexec : ∀ e ∈ s.execRing, e ∈ t.execRing) : Awaited cfg t sym id := by
  rcases h with ⟨c, hc, hof⟩ | ⟨o, ho, hof⟩ | h
  · exact Or.inl ⟨c, hord c hc, hof⟩
  · exact Or.inr (Or.inl ⟨o, hexch _ ho, hof⟩)
  · exact Or.inr (Or.inr (h.mono heng hexec))

/-- INTERNAL: the path goes on when no slot gets or loses an order and no slot comes to wait
for an answer that is not on its way. -/
theorem Answered.carry_on {cfg : EngineConfig} {s : MockPath} {m m' : MarketMaker}
    {es es' : List Effect} (hs : Answered cfg (afterTurn s m es))
    (hid : ∀ sym side, (m'.slot sym side).clOrdId = (m.slot sym side).clOrdId)
    (hnone : ∀ sym side, (m'.slot sym side).state = .none ↔ (m.slot sym side).state = .none)
    (hnew : ∀ sym side, (m'.slot sym side).state = .pendingNew →
      (m.slot sym side).state = .pendingNew)
    (hcxl : ∀ sym side, (m'.slot sym side).state = .pendingCancel →
      (m.slot sym side).state = .pendingCancel ∨
        Carried cfg s .filled sym (m.slot sym side).clOrdId)
    (hseed : m.clOrdSeed.toNat ≤ m'.clOrdSeed.toNat)
    (hkeep : ∀ c ∈ pushedCmds es, c ∈ pushedCmds es')
    (hcmds : ∀ c ∈ pushedCmds es', c ∈ pushedCmds es ∨ c.clOrdId ≠ 0 ∧
      ∃ sym : Fin kMaxSymbols, c.symbolId = sym ∧ Canonical (FixApp.init cfg) sym) :
    Answered cfg (afterTurn s m' es') := by
  refine ⟨?_, ?_, ?_, hs.ids.of_same hid hnone hseed, ?_, hs.msgs, hs.reports, hs.events⟩
  · intro sym side hpend
    have hwait := hs.news sym side (hnew sym side hpend)
    show Awaited cfg _ sym (m'.slot sym side).clOrdId
    rw [hid]
    refine hwait.mono ?_ (fun _ h => h) (fun _ h => h) (fun _ h => h)
    intro c hc
    rcases List.mem_append.mp hc with hc | hc
    · exact List.mem_append_left _ hc
    · exact List.mem_append_right _ (hkeep c hc)
  · intro sym side hpend
    show Carried cfg _ .filled sym (m'.slot sym side).clOrdId
    rw [hid]
    rcases hcxl sym side hpend with hpend' | hfill
    · exact (hs.cancels sym side hpend').mono (fun _ h => h) (fun _ h => h)
    · exact hfill.mono (fun _ h => h) (fun _ h => h)
  · exact fun sym side hne => hs.canonical sym side fun hn => hne ((hnone sym side).mpr hn)
  · intro c hc
    rcases List.mem_append.mp hc with hc | hc
    · exact hs.cmds c (List.mem_append_left _ hc)
    · rcases hcmds c hc with hc | hc
      · exact hs.cmds c (List.mem_append_right _ hc)
      · exact hc

/-- INTERNAL: a placed order starts on its way, under an id no slot stores.
SRCLINE: src/strategy/market_maker.hpp:116-128 -/
theorem answered_placed {cfg : EngineConfig} {s : MockPath} {env : MdEnv} {m : MarketMaker}
    {es : List Effect} {sym : Fin kMaxSymbols} {side : OrdSide} {px : ℚ} {tMd : ℤ}
    (hroom : m.clOrdSeed.toNat + 1 < 2 ^ 64) (hcanon : Canonical (FixApp.init cfg) sym)
    (hs : Answered cfg (afterTurn s m es)) :
    Answered cfg (afterTurn s
      (m.bumpSeed.setSlot sym side (placedQuote m sym side (newCmd cfg env m sym side px tMd)))
      (es ++ [.pushed (newCmd cfg env m sym side px tMd)])) := by
  have hself : (m.bumpSeed.setSlot sym side (placedQuote m sym side
      (newCmd cfg env m sym side px tMd))).slot sym side =
      placedQuote m sym side (newCmd cfg env m sym side px tMd) := slot_setSlot_self _ _ _ _
  have hother : ∀ sym' side', ¬ (sym' = sym ∧ side' = side) →
      (m.bumpSeed.setSlot sym side (placedQuote m sym side
        (newCmd cfg env m sym side px tMd))).slot sym' side' = m.slot sym' side' := by
    intro sym' side' hne
    rw [slot_setSlot, if_neg hne, slot_bumpSeed]
  refine ⟨?_, ?_, ?_, hs.ids.placed hroom, ?_, hs.msgs, hs.reports, hs.events⟩
  · intro sym' side' hpend
    have hpend : ((m.bumpSeed.setSlot sym side _).slot sym' side').state = .pendingNew := hpend
    show Awaited cfg _ sym' ((m.bumpSeed.setSlot sym side _).slot sym' side').clOrdId
    by_cases hslot : sym' = sym ∧ side' = side
    · -- the order itself has just joined the ring
      obtain ⟨rfl, rfl⟩ := hslot
      rw [hself]
      refine Or.inl ⟨newCmd cfg env m sym' side' px tMd, List.mem_append_right _ ?_, rfl, rfl, rfl⟩
      rw [pushedCmds_concat_pushed]
      exact List.mem_append_right _ (List.mem_singleton.mpr rfl)
    · rw [hother sym' side' hslot] at hpend ⊢
      refine (hs.news sym' side' hpend).mono ?_ (fun _ h => h) (fun _ h => h) (fun _ h => h)
      intro c hc
      rcases List.mem_append.mp hc with hc | hc
      · exact List.mem_append_left _ hc
      · apply List.mem_append_right _
        rw [pushedCmds_concat_pushed]
        exact List.mem_append_left _ hc
  · intro sym' side' hpend
    have hpend : ((m.bumpSeed.setSlot sym side _).slot sym' side').state = .pendingCancel := hpend
    show Carried cfg _ .filled sym' ((m.bumpSeed.setSlot sym side _).slot sym' side').clOrdId
    by_cases hslot : sym' = sym ∧ side' = side
    · obtain ⟨rfl, rfl⟩ := hslot
      rw [hself] at hpend
      cases hpend
    · rw [hother sym' side' hslot] at hpend ⊢
      exact (hs.cancels sym' side' hpend).mono (fun _ h => h) (fun _ h => h)
  · intro sym' side' hne
    have hne : ((m.bumpSeed.setSlot sym side _).slot sym' side').state ≠ .none := hne
    by_cases hslot : sym' = sym ∧ side' = side
    · rw [hslot.1]
      exact hcanon
    · rw [hother sym' side' hslot] at hne
      exact hs.canonical sym' side' hne
  · intro c hc
    rcases List.mem_append.mp hc with hc | hc
    · exact hs.cmds c (List.mem_append_left _ hc)
    · rw [pushedCmds_concat_pushed] at hc
      rcases List.mem_append.mp hc with hc | hc
      · exact hs.cmds c (List.mem_append_right _ hc)
      · rw [List.mem_singleton.mp hc]
        exact ⟨hs.ids.seed, sym, rfl, hcanon⟩

/-- INTERNAL: everything a turn on a snapshot does keeps the answers on their way, if it
cancels filled orders only.
SRCLINE: src/strategy/market_maker.hpp:66-147 -/
theorem answered_turn (cfg : EngineConfig) (s : MockPath) :
    KeptFresh cfg (Canonical (FixApp.init cfg))
      (fun sym _ q => Carried cfg s .filled sym q.clOrdId)
      fun m es => Answered cfg (afterTurn s m es) where
  view := by
    intro m m' es homs hseed hs
    have hslot := slot_of_oms homs
    refine hs.carry_on ?_ ?_ ?_ ?_ (le_of_eq (congrArg UInt64.toNat hseed.symm)) (fun _ h => h)
      (fun _ h => Or.inl h)
    · exact fun sym side => congrArg Quote.clOrdId (hslot sym side)
    · exact fun sym side => by rw [hslot]
    · exact fun sym side hpend => hslot sym side ▸ hpend
    · exact fun sym side hpend => Or.inl (hslot sym side ▸ hpend)
  quiet := by
    intro m es x hx hs
    have hcmds : pushedCmds (es ++ [x]) = pushedCmds es := by
      apply pushedCmds_concat_of_not_pushed es
      rintro c rfl
      exact hx
    exact hs.carry_on (fun _ _ => rfl) (fun _ _ => Iff.rfl) (fun _ _ h => h)
      (fun _ _ h => Or.inl h) le_rfl (fun c hc => hcmds ▸ hc) fun c hc => Or.inl (hcmds ▸ hc)
  refused := by
    intro m es c hroom hs
    have hcmds : pushedCmds (es ++ [.refused c]) = pushedCmds es :=
      pushedCmds_concat_of_not_pushed es (by simp)
    refine hs.carry_on (fun _ _ => rfl) (fun _ _ => Iff.rfl) (fun _ _ h => h)
      (fun _ _ h => Or.inl h) ?_ (fun c hc => hcmds ▸ hc) fun c hc => Or.inl (hcmds ▸ hc)
    exact (clOrdSeed_lt_bumpSeed hroom).le
  placed := fun _ _ _ _ _ _ _ hroom hcanon _ hs => answered_placed hroom hcanon hs
  canceled := by
    intro env m es sym side tMd hroom hcanon hfill hlive hs
    refine hs.carry_on ?_ (state_canceled_eq_none hlive) ?_ ?_ ?_ ?_ ?_
    · exact fun sym' side' => clOrdId_canceled m sym sym' side side'
    · intro sym' side' hpend
      rw [slot_setSlot] at hpend
      split at hpend
      · cases hpend
      · exact hpend
    · intro sym' side' hpend
      rw [slot_setSlot] at hpend
      split at hpend
      · next hslot =>
        rw [hslot.1, hslot.2]
        exact Or.inr hfill
      · exact Or.inl hpend
    · exact (clOrdSeed_lt_bumpSeed hroom).le
    · intro c hc
      rw [pushedCmds_concat_pushed]
      exact List.mem_append_left _ hc
    · intro c hc
      rw [pushedCmds_concat_pushed] at hc
      rcases List.mem_append.mp hc with hc | hc
      · exact Or.inl hc
      · rw [List.mem_singleton.mp hc]
        exact Or.inr ⟨hs.ids.seed, sym, rfl, hcanon⟩

/-- INTERNAL: the condition on the run allows the cancels a snapshot starts. -/
theorem carried_of_cancelsFilled {cfg : EngineConfig} {s : MockPath} {seq : ℕ}
    {msg : MarketDataSnapshot} {now : ℤ} {env : MdEnv} {ev : MdEvent} {m : MarketMaker}
    {es : List Effect} (hG : CancelsFilled cfg s (.md seq msg now env))
    (hconv : (FixApp.init cfg).onMarketData seq msg now = .ok (some ev))
    (hiter : s.mm.mdIter cfg env ev = some (m, es)) {sym : Fin kMaxSymbols} {side : OrdSide}
    (hsym : sym.val = ev.symbolId) (hlive : (s.mm.slot sym side).state = .live)
    (hpend : (m.slot sym side).state = .pendingCancel) :
    Carried cfg s .filled sym (s.mm.slot sym side).clOrdId := by
  apply hG ev hconv sym side hsym
  obtain ⟨id, hslot⟩ := mdIter_slot hiter sym hsym side
  rw [mdIter_book hiter sym hsym] at hslot
  rw [hslot] at hpend
  exact startsCancel_of_nextQuote hlive hpend

/-! ## The strategy's turn on a report -/

/-- INTERNAL: a slot that still waits after a report waited before it, for another report.
SRCLINE: src/oms/order_manager.hpp:26-47 -/
theorem waits_takeExec {m : MarketMaker} (hm : SlotIds m) {sym sym' : Fin kMaxSymbols}
    {e : ExecEvent} {side : OrdSide} {st : QuoteState} (hst : st = .pendingNew ∨ st = .pendingCancel)
    (hpend : ((takeExec m sym e).slot sym' side).state = st) :
    (m.slot sym' side).state = st ∧
      ((takeExec m sym e).slot sym' side).clOrdId = (m.slot sym' side).clOrdId ∧
      ¬ (sym' = sym ∧ (m.slot sym' side).clOrdId = e.clOrdId ∧ (e.kind = .new ∨ e.kind = .filled)) := by
  have hact : ((takeExec m sym e).slot sym' side).state ≠ .none := by
    rw [hpend]
    rcases hst with rfl | rfl <;> simp
  have hstate : (m.slot sym' side).state = st := by
    rcases slot_takeExec m sym e sym' side with hs | ⟨rfl, -, hs⟩
    · rw [← hs]
      exact hpend
    · rw [hs] at hpend
      unfold Quote.onExec at hpend
      rcases hst with rfl | rfl <;> cases hk : e.kind <;> simp_all
  refine ⟨hstate, (slot_takeExec_working hact).1, ?_⟩
  rintro ⟨rfl, hid, hkind⟩
  have hwork : (m.slot sym' side).state ≠ .none := by
    rw [hstate]
    rcases hst with rfl | rfl <;> simp
  rw [hm.slot_takes hwork hid] at hpend
  unfold Quote.onExec at hpend
  rcases hst with rfl | rfl <;> rcases hkind with hk | hk <;> simp [hk] at hpend

/-- INTERNAL: an answer that the slot still waits for is not the report just consumed. -/
theorem Carried.consumed {cfg : EngineConfig} {s : MockPath} {m : MarketMaker} {e : ExecEvent}
    {rest : List ExecEvent} {kind : ExecKind} {sym : Fin kMaxSymbols} {id : UInt64}
    (h : Carried cfg s kind sym id) (hring : s.execRing = e :: rest)
    (hne : ¬ (e.kind = kind ∧ e.symbolId = sym ∧ e.clOrdId = id)) :
    Carried cfg { s with mm := m, execRing := rest } kind sym id := by
  rcases h with h | ⟨e', he', hof⟩
  · exact Or.inl h
  · rw [hring] at he'
    rcases List.mem_cons.mp he' with rfl | he'
    · exact absurd hof hne
    · exact Or.inr ⟨e', he', hof⟩

/-- INTERNAL: a consumed report keeps the other answers on their way. -/
theorem answered_exec {cfg : EngineConfig} {s : MockPath} {e : ExecEvent} {rest : List ExecEvent}
    {sym : Fin kMaxSymbols} (hs : Answered cfg s) (hring : s.execRing = e :: rest)
    (hsym : sym.val = e.symbolId) :
    Answered cfg { s with mm := takeExec s.mm sym e, execRing := rest } := by
  have hid : e.clOrdId ≠ 0 := (hs.events e (hring ▸ List.mem_cons_self)).1
  have hidle := hs.ids.idle_takeExec sym hid
  refine ⟨?_, ?_, ?_, hs.ids.takeExec hidle, hs.cmds, hs.msgs, hs.reports, ?_⟩
  · intro sym' side hpend
    obtain ⟨hwait, hsame, hother⟩ := waits_takeExec hs.ids (Or.inl rfl) hpend
    show Awaited cfg _ sym' ((takeExec s.mm sym e).slot sym' side).clOrdId
    rw [hsame]
    rcases hs.news sym' side hwait with h | h | h
    · exact Or.inl h
    · exact Or.inr (Or.inl h)
    · refine Or.inr (Or.inr (h.consumed hring ?_))
      rintro ⟨hkind, hrow, hcl⟩
      exact hother ⟨Fin.ext (hrow.symm.trans hsym.symm), hcl.symm, Or.inl hkind⟩
  · intro sym' side hpend
    obtain ⟨hwait, hsame, hother⟩ := waits_takeExec hs.ids (Or.inr rfl) hpend
    show Carried cfg _ .filled sym' ((takeExec s.mm sym e).slot sym' side).clOrdId
    rw [hsame]
    refine (hs.cancels sym' side hwait).consumed hring ?_
    rintro ⟨hkind, hrow, hcl⟩
    exact hother ⟨Fin.ext (hrow.symm.trans hsym.symm), hcl.symm, Or.inr hkind⟩
  · exact fun sym' side hne => hs.canonical sym' side fun hn => hne (hidle sym' side hn)
  · exact fun e' he' => hs.events e' (hring ▸ List.mem_cons_of_mem _ he')

/-! ## The other parties -/

theorem answered_send {cfg : EngineConfig} {s : MockPath} {c : OrderCmd} {rest : List OrderCmd}
    {m : OrderMsg} (hs : Answered cfg s) (hring : s.ordRing = c :: rest)
    (hmsg : (FixApp.init cfg).sendOrderCmd c = some m) :
    Answered cfg { s with ordRing := rest, toExch := s.toExch ++ [m] } := by
  obtain ⟨hzero, sym, hsym, hcanon⟩ := hs.cmds c (hring ▸ List.mem_cons_self)
  obtain ⟨m', hmsg', hid, htext, hnew, -⟩ := sendOrderCmd_spec (FixApp.init cfg) hsym
  rw [hmsg] at hmsg'
  obtain rfl := Option.some.inj hmsg'
  refine ⟨?_, hs.cancels, hs.canonical, hs.ids, ?_, ?_, hs.reports, hs.events⟩
  · intro sym' side hpend
    rcases hs.news sym' side hpend with ⟨c', hc', htype, hrow, hcl⟩ | ⟨o, ho, hof⟩ | h
    · rw [hring] at hc'
      rcases List.mem_cons.mp hc' with rfl | hc'
      · obtain ⟨o, rfl, -⟩ := hnew htype
        obtain rfl : sym = sym' := Fin.ext (hsym.symm.trans hrow)
        exact Or.inr (Or.inl ⟨o, List.mem_append_right _ (List.mem_singleton.mpr rfl), htext,
          hid.trans hcl⟩)
      · exact Or.inl ⟨c', hc', htype, hrow, hcl⟩
    · exact Or.inr (Or.inl ⟨o, List.mem_append_left _ ho, hof⟩)
    · exact Or.inr (Or.inr h)
  · exact fun c' hc' => hs.cmds c' (hring ▸ List.mem_cons_of_mem _ hc')
  · intro m' hm'
    rcases List.mem_append.mp hm' with hm' | hm'
    · exact hs.msgs m' hm'
    · rw [List.mem_singleton.mp hm', hid]
      exact ⟨hzero, sym, htext, hcanon⟩

theorem answered_recv {cfg : EngineConfig} {s : MockPath} {m : OrderMsg} {rest : List OrderMsg}
    (hs : Answered cfg s) (hring : s.toExch = m :: rest) :
    Answered cfg { s with toExch := rest, exch := (mockExchange.recv s.exch m).1,
                          toEngine := s.toEngine ++ (mockExchange.recv s.exch m).2 } := by
  obtain ⟨hzero, sym, htext, hcanon⟩ := hs.msgs m (hring ▸ List.mem_cons_self)
  refine ⟨?_, ?_, hs.canonical, hs.ids, hs.cmds, ?_, ?_, hs.events⟩
  · intro sym' side hpend
    rcases hs.news sym' side hpend with h | ⟨o, ho, hrow, hcl⟩ | h
    · exact Or.inl h
    · rw [hring] at ho
      rcases List.mem_cons.mp ho with rfl | ho
      · have hcanon' := hs.canonical sym' side (by rw [hpend]; simp)
        obtain ⟨r, hr, hof⟩ := handle_acknowledges s.exch o hrow hcanon'
        rw [hcl] at hof
        exact Or.inr (Or.inr (Or.inl ⟨r, List.mem_append_right _ hr, hof⟩))
      · exact Or.inr (Or.inl ⟨o, ho, hrow, hcl⟩)
    · exact Or.inr (Or.inr (h.mono (fun _ h => List.mem_append_left _ h) fun _ h => h))
  · intro sym' side hpend
    exact (hs.cancels sym' side hpend).mono (fun _ h => List.mem_append_left _ h) fun _ h => h
  · exact fun m' hm' => hs.msgs m' (hring ▸ List.mem_cons_of_mem _ hm')
  · intro r hr now e hconv
    rcases List.mem_append.mp hr with hr | hr
    · exact hs.reports r hr now e hconv
    · obtain ⟨hid, hrow⟩ := handle_echo hr hconv
      rw [hid, hrow, htext]
      refine ⟨hzero, ?_⟩
      rw [show (FixApp.init cfg).symbolId ((FixApp.init cfg).symbols sym) = sym from hcanon]
      exact sym.isLt

theorem Carried.reported {cfg : EngineConfig} {s : MockPath} {now : ℤ} {r : ExecutionReport}
    {rest : List ExecutionReport} {e : ExecEvent} {kind : ExecKind} {sym : Fin kMaxSymbols}
    {id : UInt64} (h : Carried cfg s kind sym id) (hring : s.toEngine = r :: rest)
    (hconv : (FixApp.init cfg).onExecutionReport r now = .ok e) :
    Carried cfg { s with toEngine := rest, execRing := s.execRing ++ [e] } kind sym id := by
  rcases h with ⟨r', hr', hof⟩ | ⟨e', he', hof⟩
  · rw [hring] at hr'
    rcases List.mem_cons.mp hr' with rfl | hr'
    · obtain ⟨e', hconv', hof⟩ := hof now
      rw [hconv] at hconv'
      obtain rfl := Except.ok.inj hconv'
      exact Or.inr ⟨e, List.mem_append_right _ (List.mem_singleton.mpr rfl), hof⟩
    · exact Or.inl ⟨r', hr', hof⟩
  · exact Or.inr ⟨e', List.mem_append_left _ he', hof⟩

/-- INTERNAL: a report that does not convert carries no answer. -/
theorem Carried.dropped {cfg : EngineConfig} {s : MockPath} {now : ℤ} {r : ExecutionReport}
    {rest : List ExecutionReport} {err : FixError} {kind : ExecKind} {sym : Fin kMaxSymbols}
    {id : UInt64} (h : Carried cfg s kind sym id) (hring : s.toEngine = r :: rest)
    (hconv : (FixApp.init cfg).onExecutionReport r now = .error err) :
    Carried cfg { s with toEngine := rest } kind sym id := by
  rcases h with ⟨r', hr', hof⟩ | h
  · rw [hring] at hr'
    rcases List.mem_cons.mp hr' with rfl | hr'
    · obtain ⟨e, hok, -⟩ := hof now
      rw [hconv] at hok
      cases hok
    · exact Or.inl ⟨r', hr', hof⟩
  · exact Or.inr h

/-- INTERNAL: **the answer of every waiting slot is on its way**, in every step of every
party. -/
theorem answered_kept (cfg : EngineConfig) :
    PathKept cfg (CancelsFilled cfg) (fun s sym _ q => Carried cfg s .filled sym q.clOrdId)
      (Answered cfg) where
  turn := answered_turn cfg
  allow := by
    intro s seq msg now env ev m es _ hG hconv hiter sym side hsym hlive hpend
    exact carried_of_cancelsFilled hG hconv hiter hsym hlive hpend
  exec := fun _ _ _ _ hs hring hsym => answered_exec hs hring hsym
  send := fun _ _ _ _ hs hring hmsg => answered_send hs hring hmsg
  recv := fun _ _ _ hs hring => answered_recv hs hring
  act := fun _ a => nomatch a
  reported := by
    intro s now r rest e hs hring hconv
    refine ⟨?_, ?_, hs.canonical, hs.ids, hs.cmds, hs.msgs, ?_, ?_⟩
    · intro sym side hpend
      rcases hs.news sym side hpend with h | h | h
      · exact Or.inl h
      · exact Or.inr (Or.inl h)
      · exact Or.inr (Or.inr (h.reported hring hconv))
    · exact fun sym side hpend => (hs.cancels sym side hpend).reported hring hconv
    · exact fun r' hr' => hs.reports r' (hring ▸ List.mem_cons_of_mem _ hr')
    · intro e' he'
      rcases List.mem_append.mp he' with he' | he'
      · exact hs.events e' he'
      · rw [List.mem_singleton.mp he']
        exact hs.reports r (hring ▸ List.mem_cons_self) now e hconv
  dropped := by
    intro s now r rest err hs hring hconv
    refine ⟨?_, ?_, hs.canonical, hs.ids, hs.cmds, hs.msgs, ?_, hs.events⟩
    · intro sym side hpend
      rcases hs.news sym side hpend with h | h | h
      · exact Or.inl h
      · exact Or.inr (Or.inl h)
      · exact Or.inr (Or.inr (h.dropped hring hconv))
    · exact fun sym side hpend => (hs.cancels sym side hpend).dropped hring hconv
    · exact fun r' hr' => hs.reports r' (hring ▸ List.mem_cons_of_mem _ hr')

/-! ## Quiescent states -/

/-- The engine connects to the mock exchange. -/
def mockStart (tCtor tRun : ℤ) : MockPath :=
  { mm := MarketMaker.init tCtor tRun, exch := ({} : MockSession) }

theorem answered_start {cfg : EngineConfig} {tCtor tRun : ℤ}
    (hseed : (MarketMaker.init tCtor tRun).clOrdSeed ≠ 0) :
    Answered cfg (mockStart tCtor tRun) where
  news := fun _ _ hpend => nomatch hpend
  cancels := fun _ _ hpend => nomatch hpend
  canonical := fun _ _ hne => absurd rfl hne
  ids := SlotIds.init hseed
  cmds := fun _ hc => nomatch hc
  msgs := fun _ hm => nomatch hm
  reports := fun _ hr => nomatch hr
  events := fun _ he => nomatch he

/-- INTERNAL: where nothing is in flight, no slot waits. -/
theorem Answered.settled {cfg : EngineConfig} {s : MockPath} (hs : Answered cfg s)
    (hq : Quiescent s) (sym : Fin kMaxSymbols) (side : OrdSide) :
    ¬ InFlight (s.mm.slot sym side) := by
  obtain ⟨hord, hexch, heng, hexec⟩ := hq
  have hnone : ∀ kind id, ¬ Carried cfg s kind sym id := by
    intro kind id hcar
    unfold Carried at hcar
    rw [heng, hexec] at hcar
    simp at hcar
  rintro (hpend | hpend)
  · have hwait := hs.news sym side hpend
    unfold Awaited at hwait
    rw [hord, hexch] at hwait
    rcases hwait with ⟨c, hc, -⟩ | ⟨o, ho, -⟩ | hcar
    · cases hc
    · cases ho
    · exact hnone _ _ hcar
  · exact hnone _ _ (hs.cancels sym side hpend)

/-- **Every quiescent state is settled.**  In every run in which cancels are started of filled
orders only, no slot waits for an answer when nothing is in flight, and every report that
arrives is for a slot of the table. -/
theorem settled_when_quiescent (cfg : EngineConfig) (tCtor tRun : ℤ)
    (as : List (PathAct mockExchange)) (s : MockPath) (h : List Effect)
    (hseed : (MarketMaker.init tCtor tRun).clOrdSeed ≠ 0)
    (hG : Along (recorded (OrderPath.step cfg)) (fun x a => CancelsFilled cfg x.1 a)
      (mockStart tCtor tRun, []) as)
    (hrun : run (recorded (OrderPath.step cfg)) (mockStart tCtor tRun, []) as = some (s, h))
    (hwrap : (MarketMaker.init tCtor tRun).clOrdSeed.toNat + spent h < 2 ^ 64) :
    (Quiescent s → ∀ sym side, ¬ InFlight (s.mm.slot sym side)) ∧
      ∀ e ∈ s.execRing, e.symbolId < kMaxSymbols := by
  have hs : Answered cfg s := (answered_kept cfg).run (answered_start hseed) hG hrun hwrap
  exact ⟨hs.settled, fun e he => (hs.events e he).2⟩

/-- Two commands go all the way: sent, answered, reported and consumed. -/
def roundTrip : List (PathAct mockExchange) :=
  [.send, .send, .recv, .recv, .report 0, .report 0, .exec, .exec]

/-- A snapshot that quotes both sides, and the round trip of the two orders. -/
def bothQuoted : List (PathAct mockExchange) :=
  .md 1 (twoSided "DLR".toList 99 101) 0 quickEnv :: roundTrip

/-- After the round trip both orders are live. -/
theorem settled_when_quiescent_both_live :
    ∃ s h, run (recorded (OrderPath.step { tickSize := 1 / 2, symbols := ["DLR".toList] }))
        (mockStart 1000000000 0, []) bothQuoted = some (s, h) ∧ Quiescent s ∧
      (s.mm.slot 0 .buy).state = .live ∧ (s.mm.slot 0 .sell).state = .live ∧
      ∀ sym side, ¬ InFlight (s.mm.slot sym side) := by
  have heval : ((run (recorded (OrderPath.step { tickSize := 1 / 2, symbols := ["DLR".toList] }))
      (mockStart 1000000000 0, []) bothQuoted).map fun x =>
        (decide (Quiescent x.1), (x.1.mm.slot 0 .buy).state, (x.1.mm.slot 0 .sell).state,
          spent x.2)) = some (true, .live, .live, 2) := by
    decide +kernel
  obtain ⟨⟨s, h⟩, hrun, hx⟩ := Option.map_eq_some_iff.mp heval
  simp only [Prod.mk.injEq, decide_eq_true_eq] at hx
  obtain ⟨hquiet, hbuy, hsell, hspent⟩ := hx
  have hall := settled_when_quiescent { tickSize := 1 / 2, symbols := ["DLR".toList] } 1000000000 0
    bothQuoted s h (by decide) ?_ hrun (by rw [hspent]; decide)
  · exact ⟨s, h, hrun, hquiet, hbuy, hsell, hall.1 hquiet⟩
  · -- the only snapshot finds no live order
    refine ⟨?_, fun _ _ => ⟨trivial, fun _ _ => ⟨trivial, fun _ _ => ⟨trivial, fun _ _ =>
      ⟨trivial, fun _ _ => ⟨trivial, fun _ _ => ⟨trivial, fun _ _ => ⟨trivial, fun _ _ =>
      ⟨trivial, fun _ _ => trivial⟩⟩⟩⟩⟩⟩⟩⟩⟩
    intro ev _ sym side _ hstarts
    exact nomatch hstarts.1

/-- Both orders are live when the market locks, and their two cancels make the round trip. -/
def lockedMarket : List (PathAct mockExchange) :=
  bothQuoted ++ .md 2 (twoSided "DLR".toList 100 100) 0 quickEnv :: roundTrip

/-- Nothing is in flight any more, and both slots still wait for their cancels. -/
theorem lockedMarket_sticks :
    ∃ s h, run (recorded (OrderPath.step { tickSize := 1 / 2, symbols := ["DLR".toList] }))
        (mockStart 1000000000 0, []) lockedMarket = some (s, h) ∧ Quiescent s ∧
      (s.mm.slot 0 .buy).state = .pendingCancel ∧
      (s.mm.slot 0 .sell).state = .pendingCancel := by
  have heval : ((run (recorded (OrderPath.step { tickSize := 1 / 2, symbols := ["DLR".toList] }))
      (mockStart 1000000000 0, []) lockedMarket).map fun x =>
        (decide (Quiescent x.1), (x.1.mm.slot 0 .buy).state, (x.1.mm.slot 0 .sell).state)) =
      some (true, .pendingCancel, .pendingCancel) := by
    decide +kernel
  obtain ⟨⟨s, h⟩, hrun, hx⟩ := Option.map_eq_some_iff.mp heval
  simp only [Prod.mk.injEq, decide_eq_true_eq] at hx
  obtain ⟨hquiet, hbuy, hsell⟩ := hx
  exact ⟨s, h, hrun, hquiet, hbuy, hsell⟩

end MmEngine.Analysis
