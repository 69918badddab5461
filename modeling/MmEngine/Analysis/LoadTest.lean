import MmEngine.Analysis.MarketView
import MmEngine.Analysis.SenderGate
import MmEngine.Analysis.ConcurrentHistogram
import MmEngine.Model.Bench
import Mathlib.Data.Fintype.Card
import Mathlib.Data.Finset.Card

/-!
# What the load test loads

Nothing answers the orders of the load test, so a quote it has placed is never acknowledged, moved or
canceled: each of the two slots of a symbol takes one order, at the first snapshot that can be quoted,
and none after it (`BenchInv`).  However many messages it pushes, the order path of the strategy runs
at most sixteen times, and the printed number of orders depends on the configuration and on the number
of messages alone.
-/

set_option autoImplicit false

namespace MmEngine.Analysis

open MmEngine.Model MmEngine.Model.MarketMaker MmEngine.Model.LatencyHistogram MmEngine.Interface
open MmEngine.Lib

/-! ## Slots that nothing answers -/

/-- A book the strategy places orders for.
SRCLINE: src/strategy/market_maker.hpp:75, 93-97 -/
def Quotable (cfg : EngineConfig) (ob : OrderBook) : Prop :=
  ob.hasBba = true ∧ ob.spread ≥ cfg.minimumSpread ∧ wouldCross cfg ob = false

instance (cfg : EngineConfig) (ob : OrderBook) : Decidable (Quotable cfg ob) :=
  inferInstanceAs (Decidable (_ ∧ _ ∧ _))

/-- The state of a slot whose orders stay unanswered. -/
def unanswered (placed : Bool) : QuoteState := if placed then .pendingNew else .none

/-- INTERNAL: such a slot is only ever filled. -/
theorem decision_unanswered (cfg : EngineConfig) {ob : OrderBook} {side : OrdSide} {q : Quote} {placed : Bool}
    (hq : q.state = unanswered placed) :
    decision cfg ob side q = if Quotable cfg ob ∧ placed = false then .place else .stay := by
  have hcases : q.state = .none ∧ placed = false ∨ q.state = .pendingNew ∧ placed = true := by
    cases placed with
    | false => exact Or.inl ⟨hq, rfl⟩
    | true => exact Or.inr ⟨hq, rfl⟩
  clear hq
  by_cases hquot : Quotable cfg ob
  · rcases hcases with ⟨hq, rfl⟩ | ⟨hq, rfl⟩
    · rw [if_pos ⟨hquot, rfl⟩]
      exact decision_eq_place.mpr ⟨hquot.1, hquot.2.1, hquot.2.2, hq⟩
    · rw [if_neg (by simp)]
      unfold decision
      rw [if_pos hquot.1, if_pos hquot.2.1, hquot.2.2, hq]
      rfl
  · rw [if_neg fun h => hquot h.1]
    unfold decision
    by_cases hbba : ob.hasBba = true
    · by_cases hwide : ob.spread ≥ cfg.minimumSpread
      · have hcross : wouldCross cfg ob = true := by
          by_contra hno
          exact hquot ⟨hbba, hwide, by simpa using hno⟩
        rw [if_pos hbba, if_pos hwide, if_pos hcross]
      · rw [if_pos hbba, if_neg hwide, if_neg]
        rcases hcases with ⟨hq, -⟩ | ⟨hq, -⟩ <;> rw [hq] <;> decide
    · rw [if_neg hbba]

section Turn

variable {cfg : EngineConfig} {env : MdEnv} {m m' : MarketMaker} {ev : MdEvent} {es : List Effect}
  {sym : Fin kMaxSymbols} {placed : Bool}

/-- INTERNAL: **a turn** of the strategy in which the order ring has room: both slots of the symbol
are filled, or nothing happens.
SRCLINE: src/strategy/market_maker.hpp:90-129 -/
theorem turn_unanswered (hiter : mdIter { cfg with dryRun := false } env m ev = some (m', es))
    (hsym : sym.val = ev.symbolId) (hroom : ∀ side, env.room side = true)
    (hslots : ∀ side, (m.slot sym side).state = unanswered placed) :
    (∀ side, (m'.slot sym side).state =
        unanswered (placed || decide (Quotable cfg (bookOf cfg ev)))) ∧
      (∀ c ∈ pushedCmds es, c.type = .new) ∧
      (pushedCmds es).length = if Quotable cfg (bookOf cfg ev) ∧ placed = false then 2 else 0 := by
  have hd := mdIter_decides hiter sym hsym
  have hbook : nextBook { cfg with dryRun := false } m sym ev = bookOf cfg ev := rfl
  have hok : ∀ side, accepts { cfg with dryRun := false } env side = true := fun side => by
    simp [accepts, hroom side]
  have hdec : ∀ side, decision { cfg with dryRun := false } (bookOf cfg ev) side (m.slot sym side) =
      if Quotable cfg (bookOf cfg ev) ∧ placed = false then .place else .stay :=
    fun side => decision_unanswered { cfg with dryRun := false } (hslots side)
  -- what one side decides, whatever the next order id
  have hcmd : ∀ side id,
      let d := sideCmd { cfg with dryRun := false } env sym side (bookOf cfg ev) ev.tRecvNs id (m.slot sym side)
      if Quotable cfg (bookOf cfg ev) ∧ placed = false then ∃ c, d = some c ∧ c.type = .new else d = none := by
    intro side id
    unfold sideCmd
    dsimp only
    rw [hdec side]
    by_cases hplace : Quotable cfg (bookOf cfg ev) ∧ placed = false
    · rw [if_pos hplace, if_pos hplace]
      exact ⟨_, rfl, rfl⟩
    · rw [if_neg hplace, if_neg hplace]
  have hbuy := hcmd .buy m.clOrdSeed
  have hsell := hcmd .sell (spend m.clOrdSeed (buyCmd { cfg with dryRun := false } env m sym ev))
  have hpushed := hd.cmds
  have hslotBuy := hd.buy
  have hslotSell := hd.sell
  rw [hok] at hslotBuy hslotSell
  rw [hok, hok] at hpushed
  unfold sellCmd at hpushed hslotSell
  unfold buyCmd at hpushed hslotBuy hsell hslotSell
  rw [hbook] at hpushed hslotBuy hslotSell hsell
  by_cases hplace : Quotable cfg (bookOf cfg ev) ∧ placed = false
  · rw [if_pos hplace] at hbuy hsell
    obtain ⟨b, hb, hbnew⟩ := hbuy
    obtain ⟨c, hc, hcnew⟩ := hsell
    rw [hc] at hpushed hslotSell
    rw [hb] at hpushed hslotBuy
    have hfilled : unanswered (placed || decide (Quotable cfg (bookOf cfg ev))) = .pendingNew := by
      simp [unanswered, hplace.1]
    rw [hpushed, if_pos hplace, hfilled]
    refine ⟨?_, ?_, rfl⟩
    · rintro (_ | _)
      · rw [hslotBuy]
        simp [answered, afterCmd, hbnew]
      · rw [hslotSell]
        simp [answered, afterCmd, hcnew]
    · intro x hx
      rcases List.mem_append.mp hx with hx | hx
      · rw [List.mem_singleton.mp hx, hbnew]
      · rw [List.mem_singleton.mp hx, hcnew]
  · rw [if_neg hplace] at hbuy hsell
    rw [hsell] at hpushed hslotSell
    rw [hbuy] at hpushed hslotBuy
    have hkept : (placed || decide (Quotable cfg (bookOf cfg ev))) = placed := by
      cases placed with
      | true => rfl
      | false => simpa using hplace
    rw [hpushed, if_neg hplace, hkept]
    refine ⟨?_, by simp [sent], rfl⟩
    rintro (_ | _)
    · rw [hslotBuy]
      exact hslots .buy
    · rw [hslotSell]
      exact hslots .sell

end Turn

/-! ## The symbols that quote -/

/-- The symbols for which one of the snapshots can be quoted. -/
def quotable (cfg : EngineConfig) (evs : List MdEvent) : Finset (Fin kMaxSymbols) :=
  Finset.univ.filter fun sym => ∃ ev ∈ evs, ev.symbolId = sym.val ∧ Quotable cfg (bookOf cfg ev)

theorem mem_quotable {cfg : EngineConfig} {evs : List MdEvent} {sym : Fin kMaxSymbols} :
    sym ∈ quotable cfg evs ↔ ∃ ev ∈ evs, ev.symbolId = sym.val ∧ Quotable cfg (bookOf cfg ev) := by
  unfold quotable
  rw [Finset.mem_filter]
  exact and_iff_right (Finset.mem_univ _)

theorem mem_quotable_concat {cfg : EngineConfig} {evs : List MdEvent} {ev : MdEvent} {sym : Fin kMaxSymbols} :
    sym ∈ quotable cfg (evs ++ [ev]) ↔
      sym ∈ quotable cfg evs ∨ ev.symbolId = sym.val ∧ Quotable cfg (bookOf cfg ev) := by
  simp only [mem_quotable, List.mem_append, List.mem_singleton]
  constructor
  · rintro ⟨x, hx | rfl, h⟩
    · exact Or.inl ⟨x, hx, h⟩
    · exact Or.inr h
  · rintro (⟨x, hx, h⟩ | h)
    · exact ⟨x, Or.inl hx, h⟩
    · exact ⟨ev, Or.inr rfl, h⟩

/-- INTERNAL: one snapshot more adds its symbol, if it can be quoted and none before it could. -/
theorem card_quotable_concat (cfg : EngineConfig) (evs : List MdEvent) {ev : MdEvent} {sym : Fin kMaxSymbols}
    (hsym : sym.val = ev.symbolId) : (quotable cfg (evs ++ [ev])).card = (quotable cfg evs).card +
      if Quotable cfg (bookOf cfg ev) ∧ decide (sym ∈ quotable cfg evs) = false then 1 else 0 := by
  by_cases hnew : Quotable cfg (bookOf cfg ev) ∧ decide (sym ∈ quotable cfg evs) = false
  · have hinsert : quotable cfg (evs ++ [ev]) = insert sym (quotable cfg evs) := by
      ext x
      rw [mem_quotable_concat, Finset.mem_insert, ← hsym, ← Fin.ext_iff]
      constructor
      · rintro (hx | ⟨rfl, -⟩)
        · exact Or.inr hx
        · exact Or.inl rfl
      · rintro (rfl | hx)
        · exact Or.inr ⟨rfl, hnew.1⟩
        · exact Or.inl hx
    rw [if_pos hnew, hinsert, Finset.card_insert_of_notMem (by simpa using hnew.2)]
  · have hsame : quotable cfg (evs ++ [ev]) = quotable cfg evs := by
      ext x
      rw [mem_quotable_concat, ← hsym, ← Fin.ext_iff]
      constructor
      · rintro (hx | ⟨rfl, hq⟩)
        · exact hx
        · by_contra hno
          exact hnew ⟨hq, by simpa using hno⟩
      · exact Or.inl
    rw [if_neg hnew, hsame, Nat.add_zero]

/-! ## The invariant -/

/-- What the strategy of the load test did. -/
def strategyObs (h : List BenchObs) : List Obs :=
  h.filterMap fun
    | .engine o => some o
    | _ => none

/-- The snapshots the ring took. -/
def queuedEvents (h : List BenchObs) : List MdEvent :=
  h.filterMap fun
    | .queued ev => some ev
    | _ => none

/-- The commands the sink popped. -/
def drainedCmds (h : List BenchObs) : List OrderCmd :=
  h.filterMap fun
    | .drained c => some c
    | _ => none

/-- The snapshots the strategy took. -/
def processed (h : List BenchObs) : List MdEvent := appliedSnapshots (strategyObs h)

theorem strategyObs_append (h h' : List BenchObs) : strategyObs (h ++ h') = strategyObs h ++ strategyObs h' :=
  List.filterMap_append

theorem queuedEvents_append (h h' : List BenchObs) :
    queuedEvents (h ++ h') = queuedEvents h ++ queuedEvents h' := List.filterMap_append

theorem drainedCmds_append (h h' : List BenchObs) :
    drainedCmds (h ++ h') = drainedCmds h ++ drainedCmds h' := List.filterMap_append

theorem processed_append (h h' : List BenchObs) : processed (h ++ h') = processed h ++ processed h' := by
  unfold processed
  rw [strategyObs_append, appliedSnapshots_append]

/-- The snapshots are the messages of the producer from the first one on. -/
def Messages (cfg : EngineConfig) (evs : List MdEvent) : Prop :=
  ∀ k ev, evs[k]? = some ev → ∃ jig now, ev = benchEvent cfg.nSyms k jig now

/-- Where the producer stands and what it has queued. -/
def GeneratorInv (cfg : EngineConfig) (n : ℕ) (s : Bench) (queued : ℕ) : Prop :=
  queued ≤ n ∧ match s.producer with
    | .testing i => queued = i ∨ s.running = false
    | .pushing i ev => queued = i ∧ i < n ∧ ∃ jig now, ev = benchEvent cfg.nSyms i jig now
    | .done => True

/-- The threads of the load test agree on what has passed between them, and the slots show which
symbols have had a snapshot that can be quoted. -/
structure BenchInv (cfg : EngineConfig) (n : ℕ) (s : Bench) (h : List BenchObs) : Prop where
  noFault : s.engine.faulted = false
  noReports : s.engine.execRing = []
  queued : queuedEvents h = processed h ++ s.engine.mdRing
  messages : Messages cfg (queuedEvents h)
  producer : GeneratorInv cfg n s (queuedEvents h).length
  commands : pushes (strategyObs h) = drainedCmds h ++ s.engine.ordRing
  slots : ∀ sym side, (s.engine.mm.slot sym side).state =
    unanswered (decide (sym ∈ quotable cfg (processed h)))
  orders : (pushes (strategyObs h)).length = 2 * (quotable cfg (processed h)).card
  news : ∀ c ∈ pushes (strategyObs h), c.type = .new
  sent : s.metrics.ordersSentTotal = UInt64.ofNat (drainedCmds h).length
  canceled : s.metrics.cancelsSentTotal = 0
  timed : s.metrics.tickToTrade.count = s.metrics.ordersSentTotal

section Steps

variable {cfg : EngineConfig} {n : ℕ} {s t : Bench} {h os : List BenchObs}

/-- INTERNAL: **what a step beside the strategy has to show**: what it queues is the next message, what
it drains is what the ring held, and it counts what it drains. -/
theorem BenchInv.relay (hx : BenchInv cfg n s h) (hobs : strategyObs os = [])
    (hfault : t.engine.faulted = s.engine.faulted) (hexec : t.engine.execRing = s.engine.execRing)
    (hmm : t.engine.mm = s.engine.mm) (hmd : s.engine.mdRing ++ queuedEvents os = t.engine.mdRing)
    (hord : s.engine.ordRing = drainedCmds os ++ t.engine.ordRing)
    (hmessages : Messages cfg (queuedEvents h ++ queuedEvents os))
    (hproducer : GeneratorInv cfg n t ((queuedEvents h).length + (queuedEvents os).length))
    (hsent : t.metrics.ordersSentTotal = UInt64.ofNat ((drainedCmds h).length + (drainedCmds os).length))
    (hcanceled : t.metrics.cancelsSentTotal = 0)
    (htimed : t.metrics.tickToTrade.count = t.metrics.ordersSentTotal) : BenchInv cfg n t (h ++ os) := by
  have hengine : strategyObs (h ++ os) = strategyObs h := by
    rw [strategyObs_append, hobs, List.append_nil]
  have hprocessed : processed (h ++ os) = processed h := by
    rw [processed, hengine, processed]
  constructor
  · rw [hfault, hx.noFault]
  · rw [hexec, hx.noReports]
  · rw [queuedEvents_append, hprocessed, hx.queued, List.append_assoc, hmd]
  · rw [queuedEvents_append]
    exact hmessages
  · rw [queuedEvents_append, List.length_append]
    exact hproducer
  · rw [hengine, drainedCmds_append, hx.commands, hord, List.append_assoc]
  · rw [hprocessed, hmm]
    exact hx.slots
  · rw [hengine, hprocessed, hx.orders]
  · rw [hengine]
    exact hx.news
  · rw [drainedCmds_append, List.length_append, hsent]
  · exact hcanceled
  · exact htimed

/-- INTERNAL: a step that shows nothing and leaves the engine alone. -/
theorem BenchInv.silent (hx : BenchInv cfg n s h) (hengine : t.engine = s.engine)
    (hsent : t.metrics.ordersSentTotal = s.metrics.ordersSentTotal)
    (hcanceled : t.metrics.cancelsSentTotal = s.metrics.cancelsSentTotal)
    (htimed : t.metrics.tickToTrade = s.metrics.tickToTrade)
    (hproducer : GeneratorInv cfg n t (queuedEvents h).length) : BenchInv cfg n t (h ++ []) := by
  refine hx.relay rfl ?_ ?_ ?_ ?_ ?_ ?_ hproducer ?_ ?_ ?_
  · rw [hengine]
  · rw [hengine]
  · rw [hengine]
  · rw [hengine]
    exact List.append_nil _
  · rw [hengine]
    rfl
  · exact (List.append_nil (queuedEvents h)).symm ▸ hx.messages
  · rw [hsent, hx.sent]
    rfl
  · rw [hcanceled, hx.canceled]
  · rw [htimed, hsent, hx.timed]

theorem BenchInv.generate (hx : BenchInv cfg n s h) {jig : ℚ} {now : ℤ}
    (hstep : s.generate cfg n jig now = some (t, os)) : BenchInv cfg n t (h ++ os) := by
  have hproducer := hx.producer
  unfold Bench.generate at hstep
  unfold GeneratorInv at hproducer
  cases hat : s.producer with
  | testing i =>
    rw [hat] at hproducer
    simp only [hat] at hstep
    by_cases hgo : i < n ∧ s.running = true
    · rw [if_pos hgo] at hstep
      obtain ⟨rfl, rfl⟩ := Prod.mk.inj (Option.some.inj hstep)
      refine hx.silent rfl rfl rfl rfl ⟨hproducer.1, ?_, hgo.1, jig, now, rfl⟩
      rcases hproducer.2 with hi | hstopped
      · exact hi
      · rw [hgo.2] at hstopped
        cases hstopped
    · rw [if_neg hgo] at hstep
      obtain ⟨rfl, rfl⟩ := Prod.mk.inj (Option.some.inj hstep)
      exact hx.silent rfl rfl rfl rfl ⟨hproducer.1, trivial⟩
  | pushing i ev => simp [hat] at hstep
  | done => simp [hat] at hstep

/-- One message more. -/
theorem Messages.concat {evs : List MdEvent} (hevs : Messages cfg evs) (jig : ℚ) (now : ℤ) :
    Messages cfg (evs ++ [benchEvent cfg.nSyms evs.length jig now]) := by
  intro k x hk
  rcases Nat.lt_trichotomy k evs.length with hlt | rfl | hgt
  · rw [List.getElem?_append_left hlt] at hk
    exact hevs k x hk
  · rw [List.getElem?_concat_length] at hk
    exact ⟨jig, now, (Option.some.inj hk).symm⟩
  · rw [List.getElem?_eq_none (by rw [List.length_append, List.length_singleton]; omega)] at hk
    cases hk

theorem BenchInv.push (hx : BenchInv cfg n s h) (hstep : s.push = some (t, os)) :
    BenchInv cfg n t (h ++ os) := by
  have hproducer := hx.producer
  unfold Bench.push at hstep
  unfold GeneratorInv at hproducer
  cases hat : s.producer with
  | testing i => simp [hat] at hstep
  | done => simp [hat] at hstep
  | pushing i ev =>
    rw [hat] at hproducer
    obtain ⟨-, rfl, hlt, jig, now, rfl⟩ := hproducer
    simp only [hat] at hstep
    by_cases hroom : s.engine.mdRing.length < mdCap
    · rw [offer_of_lt _ hroom] at hstep
      obtain ⟨rfl, rfl⟩ := Prod.mk.inj (Option.some.inj hstep)
      exact hx.relay rfl rfl rfl rfl rfl rfl (hx.messages.concat jig now) ⟨hlt, Or.inl rfl⟩ hx.sent hx.canceled
        hx.timed
    · rw [offer_of_not_lt _ hroom] at hstep
      simp only [Bool.false_eq_true, if_false] at hstep
      by_cases hrun : s.running = true
      · rw [if_pos hrun] at hstep
        obtain ⟨rfl, rfl⟩ := Prod.mk.inj (Option.some.inj hstep)
        exact hx.silent rfl rfl rfl rfl hx.producer
      · rw [if_neg hrun] at hstep
        obtain ⟨rfl, rfl⟩ := Prod.mk.inj (Option.some.inj hstep)
        exact hx.silent rfl rfl rfl rfl ⟨hx.producer.1, Or.inr (by simpa using hrun)⟩

theorem BenchInv.sink (hx : BenchInv cfg n s h) {now : ℤ} (hstep : s.sink now = some (t, os)) :
    BenchInv cfg n t (h ++ os) := by
  unfold Bench.sink at hstep
  cases hup : s.sinkUp with
  | false => simp [hup] at hstep
  | true =>
    cases hring : s.engine.ordRing with
    | nil => simp [hup, hring] at hstep
    | cons c rest =>
      simp only [hup, hring] at hstep
      obtain ⟨rfl, rfl⟩ := Prod.mk.inj (Option.some.inj hstep)
      have hcommands := hx.commands
      rw [hring] at hcommands
      have hnew : c.type = .new := by
        apply hx.news
        rw [hcommands]
        exact List.mem_append_right _ List.mem_cons_self
      have hcounted : s.metrics.onSent c now = { s.metrics with
          tickToTrade := s.metrics.tickToTrade.record (elapsed now c.tMdNs)
          ordersSentTotal := s.metrics.ordersSentTotal + 1 } := by
        simp only [Metrics.onSent, hnew]
      refine hx.relay rfl rfl rfl rfl (List.append_nil _) hring ?_ hx.producer ?_ ?_ ?_
      · exact (List.append_nil (queuedEvents h)).symm ▸ hx.messages
      · rw [hcounted]
        exact (congrArg (· + 1) hx.sent).trans (ofNat_succ _)
      · rw [hcounted]
        exact hx.canceled
      · rw [hcounted]
        exact congrArg (· + 1) hx.timed

/-- INTERNAL: no more than two orders for each symbol are ever pushed, so the order ring has room. -/
theorem BenchInv.room (hx : BenchInv cfg n s h) {env : MdEnv} (hroom : roomFits s.engine.ordRing env)
    (side : OrdSide) : env.room side = true := by
  have hcard : (quotable cfg (processed h)).card ≤ kMaxSymbols := by
    have := Finset.card_le_univ (quotable cfg (processed h))
    rwa [Fintype.card_fin] at this
  have hlen := congrArg List.length hx.commands
  rw [hx.orders, List.length_append] at hlen
  have hsmall : s.engine.ordRing.length + 1 < ordCap := by
    have : 2 * kMaxSymbols + 1 < ordCap := by decide
    omega
  by_contra hno
  rw [Bool.not_eq_true] at hno
  cases side with
  | buy => exact absurd (hroom.1 hno) (by omega)
  | sell => exact absurd (hroom.2 hno) (by omega)

/-- INTERNAL: the snapshot the strategy takes next. -/
theorem BenchInv.next (hx : BenchInv cfg n s h) (hsyms : cfg.symbols ≠ []) {ev : MdEvent} {rest : List MdEvent}
    (hring : s.engine.mdRing = ev :: rest) : ev.symbolId < kMaxSymbols := by
  have hat : (queuedEvents h)[(processed h).length]? = some ev := by
    rw [hx.queued, hring, List.getElem?_append_right (Nat.le_refl _), Nat.sub_self]
    rfl
  obtain ⟨jig, now, rfl⟩ := hx.messages _ _ hat
  have hpos : 0 < cfg.nSyms := lt_min (List.length_pos_iff.mpr hsyms) (by decide)
  exact (Nat.mod_lt _ hpos).trans_le (min_le_right _ _)

/-- INTERNAL: the strategy writes the times of its snapshot and no counter of commands.
SRCLINE: src/strategy/market_maker.hpp:68-73 -/
theorem foldl_onStamped_strategy (es : List Effect) (env : MdEnv) (now : ℤ) (k : Metrics) :
    let k' := ((es.map Obs.strategy).map (stamp (.md env) now)).foldl Metrics.onStamped k
    k'.ordersSentTotal = k.ordersSentTotal ∧ k'.cancelsSentTotal = k.cancelsSentTotal ∧
      k'.tickToTrade = k.tickToTrade := by
  induction es generalizing k with
  | nil => exact ⟨rfl, rfl, rfl⟩
  | cons x es ih =>
    have hrest := ih (k.onStamped (stamp (.md env) now (.strategy x)))
    dsimp only at hrest ⊢
    rw [List.map_cons, List.map_cons, List.foldl_cons, hrest.1, hrest.2.1, hrest.2.2]
    cases x <;> exact ⟨rfl, rfl, rfl⟩

/-- INTERNAL: **a turn of the strategy.**
SRCLINE: src/strategy/market_maker.hpp:66-129 -/
theorem BenchInv.md (hx : BenchInv cfg n s h) (hsyms : cfg.symbols ≠ []) {env : MdEnv} {now : ℤ}
    (hroom : roomFits s.engine.ordRing env) (hstep : s.strategy cfg (.md env) now = some (t, os)) :
    BenchInv cfg n t (h ++ os) := by
  unfold Bench.strategy at hstep
  by_cases hup : s.strategyUp = true
  · rw [if_pos hup, Option.map_eq_some_iff] at hstep
    obtain ⟨⟨u, obs⟩, hengine, heq⟩ := hstep
    obtain ⟨rfl, rfl⟩ := Prod.mk.inj heq
    cases (step_engineStep hengine).2 with
    | mdFault _ ev rest hring hbad => exact absurd (hx.next hsyms hring) hbad
    | md _ ev rest m es hring hiter =>
      have hlt := hx.next hsyms hring
      let sym : Fin kMaxSymbols := ⟨ev.symbolId, hlt⟩
      have hsym : sym.val = ev.symbolId := rfl
      obtain ⟨hslots, hnews, hlen⟩ := turn_unanswered hiter hsym (hx.room hroom) (hx.slots sym)
      have hobs : strategyObs (h ++ (es.map Obs.strategy).map .engine) = strategyObs h ++ es.map .strategy := by
        rw [strategyObs_append]
        congr 1
        rw [strategyObs, List.filterMap_map]
        exact List.filterMap_some
      have hquiet : queuedEvents ((es.map Obs.strategy).map .engine) = [] ∧
          drainedCmds ((es.map Obs.strategy).map .engine) = [] := by
        constructor
        · unfold queuedEvents
          simp
        · unfold drainedCmds
          simp
      have hprocessed : processed (h ++ (es.map Obs.strategy).map .engine) = processed h ++ [ev] := by
        rw [processed, hobs, appliedSnapshots_append]
        congr 1
        rw [appliedSnapshots, effects_map_strategy, tookEvents_mdIter hiter]
      have hpushes : pushes (strategyObs (h ++ (es.map Obs.strategy).map .engine)) =
          pushes (strategyObs h) ++ pushedCmds es := by
        rw [hobs, pushes_append, pushes_map_strategy]
      obtain ⟨hsent, hcanceled, htimed⟩ := foldl_onStamped_strategy es env now s.metrics
      constructor
      · exact hx.noFault
      · exact hx.noReports
      · rw [queuedEvents_append, hquiet.1, List.append_nil, hprocessed, hx.queued, hring, List.append_assoc]
        rfl
      · rw [queuedEvents_append, hquiet.1, List.append_nil]
        exact hx.messages
      · rw [queuedEvents_append, hquiet.1, List.append_nil]
        exact hx.producer
      · rw [hpushes, drainedCmds_append, hquiet.2, List.append_nil, hx.commands, List.append_assoc]
      · intro sym' side
        rw [hprocessed]
        by_cases hsym : sym'.val = ev.symbolId
        · have hmem : decide (sym ∈ quotable cfg (processed h ++ [ev])) =
              (decide (sym ∈ quotable cfg (processed h)) || decide (Quotable cfg (bookOf cfg ev))) := by
            rw [Bool.eq_iff_iff, Bool.or_eq_true, decide_eq_true_iff, decide_eq_true_iff, decide_eq_true_iff,
              mem_quotable_concat, and_iff_right (show ev.symbolId = sym.val from rfl)]
          rw [show sym' = sym from Fin.ext hsym, hmem]
          exact hslots side
        · have hmem : sym' ∈ quotable cfg (processed h ++ [ev]) ↔ sym' ∈ quotable cfg (processed h) := by
            rw [mem_quotable_concat]
            exact or_iff_left fun hc => hsym hc.1.symm
          rw [decide_eq_decide.mpr hmem, ← hx.slots sym' side]
          exact congrArg Quote.state (mdIter_slot_other hiter sym' hsym side)
      · rw [hpushes, List.length_append, hx.orders, hlen, hprocessed,
          card_quotable_concat cfg (processed h) (show sym.val = ev.symbolId from rfl)]
        split <;> omega
      · intro c hc
        rw [hpushes] at hc
        rcases List.mem_append.mp hc with hc | hc
        · exact hx.news c hc
        · exact hnews c hc
      · rw [drainedCmds_append, hquiet.2, List.append_nil]
        exact hsent.trans hx.sent
      · exact hcanceled.trans hx.canceled
      · exact (congrArg LatencyHistogram.count htimed).trans (hx.timed.trans hsent.symm)
  · rw [if_neg hup] at hstep
    cases hstep

theorem BenchInv.step (hx : BenchInv cfg n s h) (hsyms : cfg.symbols ≠ []) {a : BenchAct}
    (hstep : s.step cfg n a = some (t, os)) : BenchInv cfg n t (h ++ os) := by
  unfold Bench.step at hstep
  rw [if_neg (by simp [hx.noFault])] at hstep
  cases a with
  | generate jig now => exact hx.generate hstep
  | push => exact hx.push hstep
  | exec =>
    -- nobody pushes to the execution ring
    have hnone : s.engine.step { cfg with dryRun := false } .exec = none := by
      simp [Engine.step, Engine.exec, hx.noFault, hx.noReports]
    simp only [Bench.strategy, hnone, Option.map_none, ite_self] at hstep
    cases hstep
  | md env now =>
    dsimp only at hstep
    by_cases hroom : roomFits s.engine.ordRing env
    · rw [if_pos hroom] at hstep
      exact hx.md hsyms hroom hstep
    · rw [if_neg hroom] at hstep
      cases hstep
  | sink now => exact hx.sink hstep
  | stop =>
    obtain ⟨rfl, rfl⟩ := Prod.mk.inj (Option.some.inj hstep)
    refine hx.silent rfl rfl rfl rfl ⟨hx.producer.1, ?_⟩
    have hat := hx.producer.2
    cases hp : s.producer with
    | testing i => exact Or.inr rfl
    | pushing i ev =>
      rw [hp] at hat
      exact hat
    | done => trivial
  | strategyReturns =>
    dsimp only at hstep
    split at hstep
    · cases hstep
    · obtain ⟨rfl, rfl⟩ := Prod.mk.inj (Option.some.inj hstep)
      exact hx.silent rfl rfl rfl rfl hx.producer
  | sinkReturns =>
    dsimp only at hstep
    split at hstep
    · cases hstep
    · obtain ⟨rfl, rfl⟩ := Prod.mk.inj (Option.some.inj hstep)
      exact hx.silent rfl rfl rfl rfl hx.producer

end Steps

/-- INTERNAL: **a whole run** of the load test. -/
theorem benchInv_run {cfg : EngineConfig} {n : ℕ} (hsyms : cfg.symbols ≠ []) {tCtor tRun : ℤ}
    {as : List BenchAct} {s : Bench} {h : List BenchObs}
    (hrun : run (recorded (Bench.step cfg n)) (Bench.init tCtor tRun, []) as = some (s, h)) :
    BenchInv cfg n s h := by
  refine run_invariant' (I := fun x => BenchInv cfg n x.1 x.2) ?_ ?_ hrun
  · rintro ⟨s, h⟩ a ⟨t, h'⟩ hx hstep
    obtain ⟨os, hos, rfl⟩ := recorded_eq_some.mp hstep
    exact hx.step hsyms hos
  · have hnone : ∀ sym, sym ∉ quotable cfg (processed []) := by
      intro sym hmem
      obtain ⟨ev, hev, -⟩ := mem_quotable.mp hmem
      cases hev
    refine ⟨rfl, rfl, rfl, ?_, ⟨Nat.zero_le _, Or.inl rfl⟩, rfl, ?_, ?_, ?_, rfl, rfl, rfl⟩
    · intro k ev hk
      cases hk
    · intro sym side
      rw [decide_eq_false (hnone sym)]
      rfl
    · rw [Finset.eq_empty_of_forall_notMem hnone]
      rfl
    · intro c hc
      cases hc

/-! ## What the messages ask for -/

/-- Message `i` leaves a book that the strategy places orders for: some of the five levels are
visible, and the spread is wide enough and leaves room for two ticks. -/
def wideAt (cfg : EngineConfig) (i : ℕ) : Prop :=
  0 < OrderBook.cutDepth 5 cfg.bookDepth ∧ cfg.minimumSpread ≤ 2 * benchHalf i ∧
    cfg.tickSize * (1 / 2) ≤ 2 * benchHalf i - 2 * cfg.tickSize

instance (cfg : EngineConfig) (i : ℕ) : Decidable (wideAt cfg i) :=
  inferInstanceAs (Decidable (_ ∧ _ ∧ _))

/-- The symbols for which one of the first `k` messages is such a one. -/
def wideSymbols (cfg : EngineConfig) (k : ℕ) : Finset (Fin kMaxSymbols) :=
  Finset.univ.filter fun sym => ∃ i < k, i % cfg.nSyms = sym.val ∧ wideAt cfg i

/-- INTERNAL: the random middle of a message does not matter.
SRCLINE: src/main.cpp:117-123 -/
theorem quotable_benchEvent (cfg : EngineConfig) (i : ℕ) (jig : ℚ) (now : ℤ) :
    Quotable cfg (bookOf cfg (benchEvent cfg.nSyms i jig now)) ↔ wideAt cfg i := by
  have hspread : (bookOf cfg (benchEvent cfg.nSyms i jig now)).spread = 2 * benchHalf i := by
    unfold OrderBook.spread bookOf OrderBook.applySnapshot benchEvent
    dsimp only
    ring
  have htargets : target cfg (bookOf cfg (benchEvent cfg.nSyms i jig now)) .sell -
      target cfg (bookOf cfg (benchEvent cfg.nSyms i jig now)) .buy = 2 * benchHalf i - 2 * cfg.tickSize := by
    unfold target OrderBook.bestBid OrderBook.bestAsk bookOf OrderBook.applySnapshot benchEvent
    dsimp only
    ring
  unfold Quotable wideAt
  refine and_congr ?_ (and_congr ?_ ?_)
  · unfold OrderBook.hasBba bookOf OrderBook.applySnapshot benchEvent
    simp
  · rw [hspread]
  · unfold wouldCross
    rw [htargets, decide_eq_false_iff_not, not_lt]

/-- INTERNAL: the symbols that can be quoted after the first messages. -/
theorem quotable_messages {cfg : EngineConfig} {evs : List MdEvent} (hevs : Messages cfg evs) :
    quotable cfg evs = wideSymbols cfg evs.length := by
  ext sym
  rw [mem_quotable, wideSymbols, Finset.mem_filter, and_iff_right (Finset.mem_univ _)]
  constructor
  · rintro ⟨ev, hev, hsym, hquot⟩
    obtain ⟨i, hi, rfl⟩ := List.getElem_of_mem hev
    obtain ⟨jig, now, heq⟩ := hevs i _ (List.getElem?_eq_getElem hi)
    rw [heq] at hsym hquot
    exact ⟨i, hi, hsym, (quotable_benchEvent cfg i jig now).mp hquot⟩
  · rintro ⟨i, hi, hsym, hwide⟩
    obtain ⟨jig, now, heq⟩ := hevs i _ (List.getElem?_eq_getElem hi)
    refine ⟨evs[i], List.getElem_mem hi, ?_, ?_⟩
    · rw [heq]
      exact hsym
    · rw [heq]
      exact (quotable_benchEvent cfg i jig now).mpr hwide

/-- What the load test shows of the strategy. -/
structure BenchReport (cfg : EngineConfig) (n : ℕ) (s : Bench) (h : List BenchObs) : Prop where
  noFault : s.engine.faulted = false
  /-- The strategy takes the first messages, in order. -/
  messages : Messages cfg (processed h)
  bounded : (processed h).length + s.engine.mdRing.length ≤ n
  noCancels : (∀ c ∈ pushes (strategyObs h), c.type = .new) ∧ s.metrics.cancelsSentTotal = 0
  timed : s.metrics.tickToTrade.count = s.metrics.ordersSentTotal
  orders : s.metrics.ordersSentTotal + UInt64.ofNat s.engine.ordRing.length =
    UInt64.ofNat (2 * (wideSymbols cfg (processed h).length).card)
  few : s.metrics.ordersSentTotal.toNat ≤ 2 * kMaxSymbols

/-- Three messages for two symbols, the first of them narrow, all of them processed and drained. -/
def threeMessages : List BenchAct :=
  [.generate 0 10, .push, .generate (1 / 4) 20, .md quickEnv 25, .push, .generate (-1 / 3) 30, .push,
    .md quickEnv 35, .sink 40, .generate 0 45, .md quickEnv 50, .sink 60, .sink 60, .stop, .strategyReturns,
    .sink 70, .sinkReturns]

end MmEngine.Analysis
