import MmEngine.Interface.StrategyRules
import MmEngine.Lib.History

/-!
# The engine never double-quotes an unacknowledged order

Over any run of the strategy, from any state, on any stream of snapshots and execution
reports and with any pattern of refused pushes (README.md:46-52):

* two `New` commands for one (symbol, side) are separated by a terminal report for the
  first one's id;
* two `Cancel` commands for one order of a slot are separated by a `New` report for that
  order;
* a refused push leaves slots and operations log alone, an accepted one changes exactly
  its slot and offers exactly one matching log record.

The invariant behind the first two is `Recorded`: a `New` command that nothing terminal
has answered still occupies its slot under its own id, and a `Cancel` command that no
`New` report has answered has left its slot not live under that id.
-/

set_option autoImplicit false

namespace MmEngine.Analysis

open MmEngine.Model MmEngine.Model.MarketMaker MmEngine.Interface MmEngine.Lib

/-- Both effects are accepted `New` commands for one (symbol, side). -/
def SameSlotNew (a b : Effect) : Prop :=
  ∃ c c', a = .pushed c ∧ b = .pushed c' ∧ c.type = .new ∧ c'.type = .new ∧
    c.symbolId = c'.symbolId ∧ c.side = c'.side

/-- The second effect consumes a terminal report for the order the first one sent. -/
def EndsOrder (a x : Effect) : Prop :=
  ∃ c e, a = .pushed c ∧ x = .consumed e ∧ e.kind.terminal = true ∧
    e.symbolId = c.symbolId ∧ e.clOrdId = c.clOrdId

/-- Both effects are accepted `Cancel` commands for one order of one slot. -/
def SameCancel (a b : Effect) : Prop :=
  ∃ c c', a = .pushed c ∧ b = .pushed c' ∧ c.type = .cancel ∧ c'.type = .cancel ∧
    c.symbolId = c'.symbolId ∧ c.side = c'.side ∧ c.origClOrdId = c'.origClOrdId

/-- The second effect consumes a `New` report for the order the first one cancels. -/
def AcksOrder (a x : Effect) : Prop :=
  ∃ c e, a = .pushed c ∧ x = .consumed e ∧ e.kind = .new ∧
    e.symbolId = c.symbolId ∧ e.clOrdId = c.origClOrdId

/-- What the slots remember of the commands that are still unanswered. -/
structure Recorded (m : MarketMaker) (h : List Effect) : Prop where
  occupied : ∀ c, c.type = .new → Pending (EndsOrder (.pushed c)) h (.pushed c) →
    ∀ sym : Fin kMaxSymbols, sym.val = c.symbolId →
      (m.slot sym c.side).state ≠ .none ∧ (m.slot sym c.side).clOrdId = c.clOrdId
  notLive : ∀ c, c.type = .cancel → Pending (AcksOrder (.pushed c)) h (.pushed c) →
    ∀ sym : Fin kMaxSymbols, sym.val = c.symbolId →
      ¬ ((m.slot sym c.side).state = .live ∧ (m.slot sym c.side).clOrdId = c.origClOrdId)
  news : Separated SameSlotNew EndsOrder h
  cancels : Separated SameCancel AcksOrder h

/-- INTERNAL: an effect that pushes nothing leaves what is pending to the events before it,
and keeps a history separated. -/
theorem recorded_of_no_push {m m' : MarketMaker} {h : List Effect} {x : Effect}
    (hx : ∀ c, x ≠ .pushed c) (hr : Recorded m h)
    (hocc : ∀ c, c.type = .new → ¬ EndsOrder (.pushed c) x →
      ∀ sym : Fin kMaxSymbols, sym.val = c.symbolId →
        (m.slot sym c.side).state ≠ .none ∧ (m.slot sym c.side).clOrdId = c.clOrdId →
        (m'.slot sym c.side).state ≠ .none ∧ (m'.slot sym c.side).clOrdId = c.clOrdId)
    (hlive : ∀ c, c.type = .cancel → ¬ AcksOrder (.pushed c) x →
      ∀ sym : Fin kMaxSymbols, sym.val = c.symbolId →
        ¬ ((m.slot sym c.side).state = .live ∧ (m.slot sym c.side).clOrdId = c.origClOrdId) →
        ¬ ((m'.slot sym c.side).state = .live ∧
          (m'.slot sym c.side).clOrdId = c.origClOrdId)) :
    Recorded m' (h ++ [x]) where
  occupied := by
    intro c hc hp sym hsym
    rcases (pending_concat _ _ _ _).mp hp with heq | ⟨hp, hn⟩
    · exact absurd heq.symm (hx c)
    · exact hocc c hc hn sym hsym (hr.occupied c hc hp sym hsym)
  notLive := by
    intro c hc hp sym hsym
    rcases (pending_concat _ _ _ _).mp hp with heq | ⟨hp, hn⟩
    · exact absurd heq.symm (hx c)
    · exact hlive c hc hn sym hsym (hr.notLive c hc hp sym hsym)
  news := by
    apply hr.news.concat
    rintro a - ⟨c, c', -, hb, -⟩
    exact hx c' hb
  cancels := by
    apply hr.cancels.concat
    rintro a - ⟨c, c', -, hb, -⟩
    exact hx c' hb

/-- INTERNAL: a report keeps the record: a slot it does not match is untouched, and one it
matches loses its order only to a terminal report, and turns live only on a `New` one.
SRCLINE: src/oms/order_manager.hpp:26-47 -/
theorem recorded_consumed {m : MarketMaker} {h : List Effect} (e : ExecEvent)
    (sym₀ : Fin kMaxSymbols) (hsym₀ : sym₀.val = e.symbolId) (hr : Recorded m h) :
    Recorded (takeExec m sym₀ e) (h ++ [.consumed e]) := by
  apply recorded_of_no_push (by simp) hr
  · intro c hc hn sym hsym hq
    rcases slot_takeExec m sym₀ e sym c.side with hs | ⟨rfl, hid, hs⟩
    · rw [hs]
      exact hq
    · have hid' : e.clOrdId = c.clOrdId := by rw [← hid, hq.2]
      have hterm : e.kind.terminal = false := by
        by_contra hne
        exact hn ⟨c, e, rfl, rfl, by simpa using hne, by rw [← hsym₀, hsym], hid'⟩
      rw [hs]
      unfold Quote.onExec
      cases hk : e.kind <;> simp_all [ExecKind.terminal]
  · intro c hc hn sym hsym hq
    rcases slot_takeExec m sym₀ e sym c.side with hs | ⟨rfl, hid, hs⟩
    · rw [hs]
      exact hq
    · rw [hs]
      unfold Quote.onExec
      cases hk : e.kind with
      | new =>
        rintro ⟨-, hid'⟩
        exact hn ⟨c, e, rfl, rfl, hk, by rw [← hsym₀, hsym], by rw [← hid]; exact hid'⟩
      | canceled | filled | rejected => simp
      | partFill => exact hq
      | replaced | other => exact hq

/-- INTERNAL: a pushed command keeps the record when its slot holds an order that is not live
afterwards: a `New` finds the slot free and is what it then holds, a `Cancel` finds the order it
names live there. -/
theorem recorded_pushed {m : MarketMaker} {h : List Effect} {c₀ : OrderCmd} {sym : Fin kMaxSymbols}
    {q : Quote} (hsym₀ : c₀.symbolId = sym) (hworking : q.state ≠ .none) (hlive : q.state ≠ .live)
    (hkept : (m.slot sym c₀.side).state ≠ .none → q.clOrdId = (m.slot sym c₀.side).clOrdId)
    (hnew : c₀.type = .new → (m.slot sym c₀.side).state = .none ∧ q.clOrdId = c₀.clOrdId)
    (hcancel : c₀.type = .cancel →
      (m.slot sym c₀.side).state = .live ∧ (m.slot sym c₀.side).clOrdId = c₀.origClOrdId)
    (hr : Recorded m h) :
    Recorded (m.bumpSeed.setSlot sym c₀.side q) (h ++ [.pushed c₀]) where
  occupied := by
    intro c hc hp sym' hsym
    rw [slot_setSlot]
    rcases (pending_concat _ _ _ _).mp hp with heq | ⟨hp, -⟩
    · obtain rfl := Effect.pushed.inj heq
      rw [if_pos ⟨Fin.ext (hsym.trans hsym₀), rfl⟩]
      exact ⟨hworking, (hnew hc).2⟩
    · have hq := hr.occupied c hc hp sym' hsym
      by_cases hslot : sym' = sym ∧ c.side = c₀.side
      · rw [if_pos hslot]
        rw [hslot.1, hslot.2] at hq
        exact ⟨hworking, (hkept hq.1).trans hq.2⟩
      · rw [if_neg hslot]
        exact hq
  notLive := by
    intro c hc hp sym' hsym
    rw [slot_setSlot]
    by_cases hslot : sym' = sym ∧ c.side = c₀.side
    · rw [if_pos hslot]
      exact fun hq => hlive hq.1
    · rw [if_neg hslot]
      rcases (pending_concat _ _ _ _).mp hp with heq | ⟨hp, -⟩
      · obtain rfl := Effect.pushed.inj heq
        exact absurd ⟨Fin.ext (hsym.trans hsym₀), rfl⟩ hslot
      · exact hr.notLive c hc hp sym' hsym
  news := by
    apply hr.news.concat
    rintro a hp ⟨c, c', rfl, hb, hc, hc', hsym, hside⟩
    obtain rfl := Effect.pushed.inj hb
    have hq := hr.occupied c hc hp sym (hsym.trans hsym₀).symm
    rw [hside] at hq
    exact hq.1 (hnew hc').1
  cancels := by
    apply hr.cancels.concat
    rintro a hp ⟨c, c', rfl, hb, hc, hc', hsym, hside, horig⟩
    obtain rfl := Effect.pushed.inj hb
    have hq := hr.notLive c hc hp sym (hsym.trans hsym₀).symm
    rw [hside, horig] at hq
    exact hq (hcancel hc')

/-- INTERNAL: placing an order in a free slot keeps the record: nothing pending could have
been recorded in that slot.
SRCLINE: src/strategy/market_maker.hpp:116-128 -/
theorem recorded_placed {cfg : EngineConfig} {env : MdEnv} {m : MarketMaker} {h : List Effect}
    {sym : Fin kMaxSymbols} {side : OrdSide} {px : ℚ} {tMd : ℤ}
    (hnone : (m.slot sym side).state = .none) (hr : Recorded m h) :
    Recorded
      (m.bumpSeed.setSlot sym side (placedQuote m sym side (newCmd cfg env m sym side px tMd)))
      (h ++ [.pushed (newCmd cfg env m sym side px tMd)]) := by
  apply @recorded_pushed _ _ (newCmd cfg env m sym side px tMd) sym _ rfl
  · simp [placedQuote]
  · simp [placedQuote]
  · exact fun hne => absurd hnone hne
  · exact fun _ => ⟨hnone, rfl⟩
  · exact fun hc => nomatch hc
  · exact hr

/-- INTERNAL: starting a cancel keeps the record: the slot was live, so no earlier cancel of
the same order can be unanswered.
SRCLINE: src/strategy/market_maker.hpp:131-146 -/
theorem recorded_canceled {env : MdEnv} {m : MarketMaker} {h : List Effect}
    {sym : Fin kMaxSymbols} {side : OrdSide} {tMd : ℤ}
    (hlive : (m.slot sym side).state = .live) (hr : Recorded m h) :
    Recorded (m.bumpSeed.setSlot sym side { m.slot sym side with state := .pendingCancel })
      (h ++ [.pushed (cancelCmd env m sym side tMd)]) := by
  apply @recorded_pushed _ _ (cancelCmd env m sym side tMd) sym _ rfl
  · simp
  · simp
  · exact fun _ => rfl
  · exact fun hc => nomatch hc
  · exact fun _ => ⟨hlive, rfl⟩
  · exact hr

theorem recorded_kept (cfg : EngineConfig) : Kept cfg Recorded where
  view := by
    intro m m' h homs _ hr
    have hslot := slot_of_oms homs
    exact ⟨fun c hc hp sym hsym => by rw [hslot]; exact hr.occupied c hc hp sym hsym,
      fun c hc hp sym hsym => by rw [hslot]; exact hr.notLive c hc hp sym hsym,
      hr.news, hr.cancels⟩
  quiet := by
    intro m h x hx hr
    refine recorded_of_no_push ?_ hr (fun _ _ _ _ _ hq => hq) (fun _ _ _ _ _ hq => hq)
    rintro c rfl
    exact hx
  refused := by
    intro m h c hr
    exact recorded_of_no_push (by simp) hr (fun _ _ _ _ _ hq => hq) (fun _ _ _ _ _ hq => hq)
  consumed := fun _ _ e sym hsym hr => recorded_consumed e sym hsym hr
  placed := fun _ _ _ _ _ _ _ _ hnone hr => recorded_placed hnone hr
  canceled := fun _ _ _ _ _ _ _ _ hlive hr => recorded_canceled hlive hr

/-! ## What an accepted and a refused push do -/

/-- The log record that matches an accepted command: the order's id, its symbol and side,
the command's quantity, and the price of the new order or of the slot being cancelled. -/
def MatchingLog (q : Quote) (c : OrderCmd) (r : LogRecord) : Prop :=
  r.tNs = c.tDecidedNs ∧ r.symbolId = c.symbolId ∧ r.side = some c.side ∧ r.qty = c.qty ∧
    match c.type with
    | .new => r.kind = .orderNew ∧ r.px = c.price ∧ r.clOrdId = c.clOrdId
    | .cancel => r.kind = .orderCxl ∧ r.px = q.price ∧ r.clOrdId = c.origClOrdId

/-- What one call for one side may do: nothing, a refused push that leaves slots and log
alone, or an accepted push that changes exactly the slot of the side and is followed by
exactly one log record, the matching one. -/
def PushOutcome (cfg : EngineConfig) (env : MdEnv) (sym : Fin kMaxSymbols) (side : OrdSide)
    (m m' : MarketMaker) (es : List Effect) : Prop :=
  (m'.oms = m.oms ∧ es = []) ∨
  (m'.oms = m.oms ∧ ∃ c, es = [.refused c] ∧ (cfg.dryRun = true ∨ env.room side = false)) ∨
  (∃ c r, es = [.pushed c, .logged r] ∧ c.symbolId = sym ∧ c.side = side ∧
    MatchingLog (m.slot sym side) c r ∧ m'.slot sym side ≠ m.slot sym side ∧
    ∀ sym' side', ¬ (sym' = sym ∧ side' = side) → m'.slot sym' side' = m.slot sym' side')

/-- INTERNAL: every side step is one of the three outcomes.
SRCLINE: src/strategy/market_maker.hpp:122-128, 140-146 -/
theorem sideStep_pushOutcome {cfg : EngineConfig} {env : MdEnv} {sym : Fin kMaxSymbols}
    {side : OrdSide} {px : ℚ} {tMd : ℤ} {m m' : MarketMaker} {es : List Effect}
    (hs : SideStep cfg env sym side px tMd m m' es) : PushOutcome cfg env sym side m m' es := by
  cases hs with
  | idle => exact Or.inl ⟨rfl, rfl⟩
  | refused c _ hshut => exact Or.inr (Or.inl ⟨rfl, c, rfl, hshut⟩)
  | placed hnone =>
    refine Or.inr (Or.inr ⟨_, _, rfl, rfl, rfl, ⟨rfl, rfl, rfl, rfl, rfl, rfl, rfl⟩, ?_, ?_⟩)
    · rw [slot_setSlot_self]
      intro heq
      have hstate := congrArg Quote.state heq
      rw [hnone] at hstate
      cases hstate
    · intro sym' side' hne
      rw [slot_setSlot, if_neg hne]
      rfl
  | canceled hlive =>
    refine Or.inr (Or.inr ⟨_, _, rfl, rfl, rfl, ⟨rfl, rfl, rfl, rfl, rfl, rfl, rfl⟩, ?_, ?_⟩)
    · rw [slot_setSlot_self]
      intro heq
      have hstate := congrArg Quote.state heq
      rw [hlive] at hstate
      cases hstate
    · intro sym' side' hne
      rw [slot_setSlot, if_neg hne]
      rfl

/-- One turn of the loop as a sequence of push attempts: an execution turn attempts none; a
market-data turn makes one call for `Buy` and one for `Sell`, each with its own outcome. -/
def TurnOutcome (cfg : EngineConfig) (m m' : MarketMaker) (es : List Effect) : Input → Prop
  | .exec _ => ∀ c, .pushed c ∉ es ∧ .refused c ∉ es
  | .md ev env => ∃ (sym : Fin kMaxSymbols) (m₁ m₂ : MarketMaker) (es₁ es₂ ss : List Effect),
      sym.val = ev.symbolId ∧
      PushOutcome cfg env sym .buy (m.applyMd cfg sym ev) m₁ es₁ ∧
      PushOutcome cfg env sym .sell m₁ m₂ es₂ ∧ m'.oms = m₂.oms ∧
      es = .took ev :: es₁ ++ es₂ ++ ss ∧ ∀ x ∈ ss, ∃ s, x = .snapshot s

/-- INTERNAL: every turn of the loop is such a sequence of attempts.
SRCLINE: src/strategy/market_maker.hpp:49-85 -/
theorem strategyStep_turnOutcome {cfg : EngineConfig} {m m' : MarketMaker} {es : List Effect}
    {i : Input} (hs : strategyStep cfg m i = some (m', es)) : TurnOutcome cfg m m' es i := by
  cases i with
  | exec e =>
    have hs : m.execIter e = some (m', es) := hs
    unfold execIter at hs
    obtain ⟨o, -, ho⟩ := Option.map_eq_some_iff.mp hs
    obtain ⟨-, rfl⟩ := Prod.mk.inj ho
    intro c
    cases e.kind.isFill <;> simp
  | md ev env =>
    obtain ⟨sym, m₁, m₂, es₁, es₂, ss, hsym, h₁, h₂, homs, -, -, hes, hss⟩ :=
      mdIter_sideSteps hs
    exact ⟨sym, m₁, m₂, es₁, es₂, ss, hsym, sideStep_pushOutcome h₁, sideStep_pushOutcome h₂,
      homs, hes, hss⟩

/-! ## The result -/

/-- **The engine never double-quotes.**  Every run of the strategy, from any state and on any
inputs for known symbols, goes through, whatever is refused.  In its history the `New`
commands of a slot are separated by a terminal report for the earlier one and the `Cancel`
commands of an order by a `New` report for it, and from the state it reaches every further
turn pushes only as `TurnOutcome` says.
SRCLINE: README.md:46-52 -/
theorem never_double_quotes (cfg : EngineConfig) (m₀ : MarketMaker) (is : List Input)
    (hin : ∀ i ∈ is, i.symbolId < kMaxSymbols) :
    ∃ m h, run (recorded (strategyStep cfg)) (m₀, []) is = some (m, h) ∧
      Separated SameSlotNew EndsOrder h ∧ Separated SameCancel AcksOrder h ∧
      ∀ i m' es, strategyStep cfg m i = some (m', es) → TurnOutcome cfg m m' es i := by
  obtain ⟨⟨m, h⟩, hrun⟩ := strategyRun_total cfg (m₀, []) is hin
  have hinit : Recorded m₀ [] :=
    ⟨fun _ _ hp => absurd hp (not_pending_nil _ _), fun _ _ hp => absurd hp (not_pending_nil _ _),
      separated_nil _ _, separated_nil _ _⟩
  have hr : Recorded m h := (recorded_kept cfg).strategyRun hrun hinit
  exact ⟨m, h, hrun, hr.news, hr.cancels, fun i m' es hs => strategyStep_turnOutcome hs⟩

/-- A snapshot that quotes both sides, a report for each of the two orders and a snapshot
that moves the market is such a run. -/
theorem never_double_quotes_moving_market :
    ∃ m h, run (recorded (strategyStep { tickSize := 1 / 2 }))
        ({ clOrdSeed := 1, nextSnapshotNs := 0 }, [])
        [.md (topOfBook 0 1469 1471) quickEnv, .exec { clOrdId := 1 },
          .exec { clOrdId := 2, kind := .filled }, .md (topOfBook 0 1459 1461) quickEnv] =
          some (m, h) ∧
      Separated SameSlotNew EndsOrder h ∧ Separated SameCancel AcksOrder h ∧
      ∀ i m' es, strategyStep { tickSize := 1 / 2 } m i = some (m', es) →
        TurnOutcome { tickSize := 1 / 2 } m m' es i :=
  never_double_quotes _ _ _ (by decide)

end MmEngine.Analysis
