import MmEngine.Interface.EngineRules

/-!
# When an execution report is lost

`onMessage` pushes every converted report to `ExecRing` and the strategy pushes every fill
to the trade ring of the persister, and neither looks at the answer (fix_app.hpp:186,
market_maker.hpp:56).  So the reports the strategy has applied, followed by those still in
the ring, are the converted ones in arrival order, and the fills of the persister are the
fills among them, exactly as long as each push finds room.
-/

set_option autoImplicit false

namespace MmEngine.Analysis

open MmEngine.Model MmEngine.Model.MarketMaker MmEngine.Interface MmEngine.Lib

/-- The reports `onMessage` converted, in arrival order. -/
def converted (h : List Obs) : List ExecEvent :=
  h.filterMap fun
    | .reported _ e _ => some e
    | _ => none

/-- The reports `OrderManager::on_exec` was applied to, in order. -/
def applied (h : List Obs) : List ExecEvent :=
  h.filterMap fun
    | .strategy (.consumed e) => some e
    | _ => none

/-- The fills the trade ring of the persister accepted, in order. -/
def enqueued (h : List Obs) : List ExecEvent :=
  h.filterMap fun
    | .enqueued e => some e
    | _ => none

/-- Every converted report is applied once and in order, up to those still in the ring, and
every fill among the applied ones is enqueued once and in order. -/
def NothingLost (x : Engine × List Obs) : Prop :=
  applied x.2 ++ x.1.execRing = converted x.2 ∧
    enqueued x.2 = (applied x.2).filter fun e => e.kind.isFill

/-- The rings have room when they are pushed to: `ExecRing` when a report that converts
arrives, the trade ring when a fill is applied.  The report that is applied must be one for a
known symbol. -/
def FindsRoom (cfg : EngineConfig) (x : Engine × List Obs) : EngineAct → Prop
  | .recv (.execReport m) now =>
    (∃ e, (FixApp.init cfg).onExecutionReport m now = .ok e) → x.1.execRing.length < execCap
  | .exec => ∀ e rest, x.1.execRing = e :: rest →
      e.symbolId < kMaxSymbols ∧ (e.kind.isFill = true → x.1.tradeRing.length < tradeCap)
  | _ => True

/-- INTERNAL: the effects of a market-data turn add nothing to the three lists. -/
theorem lists_md {cfg : EngineConfig} {env : MdEnv} {m m' : MarketMaker} {ev : MdEvent}
    {es : List Effect} (hiter : mdIter cfg env m ev = some (m', es)) :
    converted (es.map .strategy) = [] ∧ applied (es.map .strategy) = [] ∧
      enqueued (es.map .strategy) = [] := by
  unfold converted applied enqueued
  simp only [List.filterMap_map, List.filterMap_eq_nil_iff, Function.comp_apply]
  refine ⟨by simp, ?_, by simp⟩
  intro x hx
  rcases mem_mdIter hiter hx with rfl | ⟨c, rfl, -⟩ | ⟨c, rfl⟩ | ⟨r, rfl⟩ | ⟨b, rfl⟩ <;> rfl

theorem converted_append (h h' : List Obs) : converted (h ++ h') = converted h ++ converted h' :=
  List.filterMap_append

theorem applied_append (h h' : List Obs) : applied (h ++ h') = applied h ++ applied h' :=
  List.filterMap_append

theorem enqueued_append (h h' : List Obs) : enqueued (h ++ h') = enqueued h ++ enqueued h' :=
  List.filterMap_append

/-- INTERNAL: a step that shows nothing of the report path and leaves the exec ring alone
loses nothing. -/
theorem nothingLost_of_silent {s t : Engine} {h obs : List Obs} (hs : NothingLost (s, h))
    (hring : t.execRing = s.execRing) (hc : converted obs = []) (ha : applied obs = [])
    (he : enqueued obs = []) : NothingLost (t, h ++ obs) := by
  unfold NothingLost at *
  dsimp only at *
  rw [converted_append, applied_append, enqueued_append, hc, ha, he, hring]
  simpa using hs

/-- INTERNAL: **one step** of the engine loses nothing exactly when its push finds room.
SRCLINE: src/fix/fix_app.hpp:186, src/strategy/market_maker.hpp:53-63 -/
theorem findsRoom_iff_nothingLost {cfg : EngineConfig} {s t : Engine} {h obs : List Obs}
    {a : EngineAct} (hs : NothingLost (s, h)) (hstep : EngineStep cfg s a t obs) :
    FindsRoom cfg (s, h) a ↔ NothingLost (t, h ++ obs) := by
  cases hstep with
  | dropped msg now ses _ hno =>
    refine iff_of_true ?_ (nothingLost_of_silent hs rfl rfl rfl rfl)
    cases msg with
    | marketData m => trivial
    | other => trivial
    | execReport m =>
      rintro ⟨e, he⟩
      exact absurd he (hno m e rfl)
  | quoted m now ev => exact iff_of_true trivial (nothingLost_of_silent hs rfl rfl rfl rfl)
  | reported m now e hconv =>
    obtain ⟨hring, hfills⟩ := hs
    have hroom : FindsRoom cfg (s, h) (.recv (.execReport m) now) ↔ s.execRing.length < execCap :=
      ⟨fun hr => hr ⟨e, hconv⟩, fun hr _ => hr⟩
    rw [hroom]
    unfold NothingLost
    dsimp only at *
    rw [converted_append, applied_append, enqueued_append, ← hring]
    by_cases hlt : s.execRing.length < execCap
    · apply iff_of_true hlt
      rw [offer_of_lt e hlt]
      simp [converted, applied, enqueued] at hfills ⊢
      exact hfills
    · -- the ring is full: the report is converted and goes nowhere
      apply iff_of_false hlt
      rw [offer_of_not_lt e hlt]
      simp [converted, applied, enqueued]
  | execFault e rest hring hbad =>
    refine iff_of_false (fun hr => hbad (hr e rest hring).1) ?_
    rintro ⟨hring', -⟩
    have hring₀ := hs.1
    dsimp only at hring' hring₀
    rw [List.append_nil] at hring'
    rw [← hring₀, hring] at hring'
    have hlen := congrArg List.length (List.append_cancel_left hring')
    simp at hlen
  | exec e rest sym hring hsym hfill =>
    obtain ⟨hring₀, hfills⟩ := hs
    apply iff_of_true
    · intro e' rest' hring'
      obtain ⟨rfl, rfl⟩ := List.cons.inj (hring.symm.trans hring')
      exact ⟨hsym ▸ sym.isLt, fun hf => by rw [hfill] at hf; cases hf⟩
    · unfold NothingLost
      dsimp only at *
      rw [converted_append, applied_append, enqueued_append, ← hring₀, hring]
      simp [converted, applied, enqueued, hfill] at hfills ⊢
      exact hfills
  | fill e rest sym hring hsym hfill =>
    obtain ⟨hring₀, hfills⟩ := hs
    have hroom : FindsRoom cfg (s, h) .exec ↔ s.tradeRing.length < tradeCap := by
      constructor
      · exact fun hr => (hr e rest hring).2 hfill
      · intro hr e' rest' hring'
        obtain ⟨rfl, rfl⟩ := List.cons.inj (hring.symm.trans hring')
        exact ⟨hsym ▸ sym.isLt, fun _ => hr⟩
    rw [hroom]
    unfold NothingLost
    dsimp only at *
    rw [converted_append, applied_append, enqueued_append, ← hring₀, hring]
    by_cases hlt : s.tradeRing.length < tradeCap
    · apply iff_of_true hlt
      rw [offer_of_lt e hlt]
      simp [converted, applied, enqueued, hfill] at hfills ⊢
      exact hfills
    · -- the trade ring is full: the fill is applied and not enqueued
      apply iff_of_false hlt
      rw [offer_of_not_lt e hlt]
      rintro ⟨-, hfills'⟩
      have hlen := congrArg List.length hfills'
      rw [hfills] at hlen
      simp [applied, enqueued, hfill] at hlen
  | mdFault => exact iff_of_true trivial (nothingLost_of_silent hs rfl rfl rfl rfl)
  | md env ev rest m es hring hiter =>
    obtain ⟨hc, ha, he⟩ := lists_md hiter
    exact iff_of_true trivial (nothingLost_of_silent hs rfl hc ha he)
  | pop => exact iff_of_true trivial (nothingLost_of_silent hs rfl rfl rfl rfl)
  | check => exact iff_of_true trivial (nothingLost_of_silent hs rfl rfl rfl rfl)
  | sendFault => exact iff_of_true trivial (nothingLost_of_silent hs rfl rfl rfl rfl)
  | send => exact iff_of_true trivial (nothingLost_of_silent hs rfl rfl rfl rfl)
  | persist => exact iff_of_true trivial (nothingLost_of_silent hs rfl rfl rfl rfl)
  | logon => exact iff_of_true trivial (nothingLost_of_silent hs rfl rfl rfl rfl)
  | logout => exact iff_of_true trivial (nothingLost_of_silent hs rfl rfl rfl rfl)

/-- **No report is lost exactly while every push finds room.**  Over every interleaving of
the threads of a fresh engine: each converted report is applied once and in arrival order, and
each fill is enqueued once and in that order, throughout the run, if and only if `ExecRing`
has room for each report that arrives and the trade ring for each fill that is applied.
SRCLINE: src/fix/fix_app.hpp:147-187, src/strategy/market_maker.hpp:49-63 -/
theorem nothingLost_throughout_iff (cfg : EngineConfig) (tCtor tRun : ℤ) (as : List EngineAct)
    (u : Engine × List Obs)
    (hrun : run (recorded (Engine.step cfg)) (Engine.init tCtor tRun, []) as = some u) :
    Throughout (recorded (Engine.step cfg)) NothingLost (Engine.init tCtor tRun, []) as ↔
      Along (recorded (Engine.step cfg)) (FindsRoom cfg) (Engine.init tCtor tRun, []) as := by
  refine throughout_iff_along ?_ ⟨rfl, rfl⟩ (along_true _ _) hrun
  rintro ⟨s, h⟩ a ⟨t, h'⟩ hs - ht
  obtain ⟨obs, hobs, rfl⟩ := recorded_eq_some.mp ht
  exact findsRoom_iff_nothingLost hs (step_engineStep hobs).2

/-- A run in which one report arrives and is applied. -/
theorem nothingLost_throughout_iff_one_report :
    Throughout (recorded (Engine.step { symbols := ["DLR".toList] })) NothingLost
        (Engine.init 1000000000 0, [])
        [.recv (.execReport { symbol := .value "DLR".toList }) 0, .exec] ↔
      Along (recorded (Engine.step { symbols := ["DLR".toList] }))
        (FindsRoom { symbols := ["DLR".toList] }) (Engine.init 1000000000 0, [])
        [.recv (.execReport { symbol := .value "DLR".toList }) 0, .exec] :=
  nothingLost_throughout_iff _ _ _ _ _ rfl

/-! ## The lost fill -/

/-- One subscribed symbol. -/
def oneSymbol : EngineConfig := { symbols := ["DLR".toList] }

/-- An acknowledgement of an order that is not the engine's. -/
def strangerAck : ExecutionReport :=
  { clOrdID := .value "7".toList, execType := .value '0', symbol := .value "DLR".toList }

/-- A complete fill. -/
def fillReport : ExecutionReport :=
  { clOrdID := .value "9".toList, execType := .value 'F', ordStatus := .value '2',
    symbol := .value "DLR".toList, lastPx := .value 100, lastQty := .value 1, leavesQty := .value 0 }

/-- What the fill is converted to. -/
def fillEvent : ExecEvent :=
  { clOrdId := 9, kind := .filled, lastPx := 100, lastQty := 1 }

/-- A fresh engine with `n` of the acknowledgements in its exec ring. -/
def flooded (n : ℕ) : Engine :=
  { Engine.init 1000000000 0 with execRing := List.replicate n { clOrdId := 7 } }

/-- While the strategy is busy the ring fills up, a fill arrives, and then the strategy drains
the ring. -/
def burst : List EngineAct :=
  List.replicate execCap (.recv (.execReport strangerAck) 0) ++
    (.recv (.execReport fillReport) 0 :: List.replicate execCap .exec)

theorem recv_flooded {n : ℕ} (h : List Obs) (hn : n < execCap) :
    recorded (Engine.step oneSymbol) (flooded n, h) (.recv (.execReport strangerAck) 0) =
      some (flooded (n + 1), h ++ [.reported strangerAck { clOrdId := 7 } true]) := by
  have hconv : (FixApp.init oneSymbol).onExecutionReport strangerAck 0 =
      .ok { clOrdId := 7 } := by rfl
  have hlen : (flooded n).execRing.length < execCap := by
    simpa [flooded] using hn
  refine recorded_eq_some.mpr ⟨_, ?_, rfl⟩
  show some ((flooded n).recv oneSymbol (.execReport strangerAck) 0) = _
  simp only [Engine.recv, FixApp.fromApp, hconv]
  show some (_, _) = _
  rw [offer_of_lt _ hlen]
  simp only [flooded, ← List.replicate_succ']

theorem recv_fill_flooded (h : List Obs) :
    recorded (Engine.step oneSymbol) (flooded execCap, h) (.recv (.execReport fillReport) 0) =
      some (flooded execCap, h ++ [.reported fillReport fillEvent false]) := by
  have hconv : (FixApp.init oneSymbol).onExecutionReport fillReport 0 = .ok fillEvent := by rfl
  have hlen : ¬ (flooded execCap).execRing.length < execCap := by
    unfold flooded
    rw [List.length_replicate]
    exact lt_irrefl _
  refine recorded_eq_some.mpr ⟨_, ?_, rfl⟩
  show some ((flooded execCap).recv oneSymbol (.execReport fillReport) 0) = _
  simp only [Engine.recv, FixApp.fromApp, hconv]
  show some (_, _) = _
  rw [offer_of_not_lt _ hlen]

/-- INTERNAL: a stranger's acknowledgement is applied and changes no slot. -/
theorem exec_flooded (n : ℕ) (h : List Obs) :
    recorded (Engine.step oneSymbol) (flooded (n + 1), h) .exec =
      some (flooded n, h ++ [.strategy (.consumed { clOrdId := 7 })]) := by
  have hring : (flooded (n + 1)).execRing = { clOrdId := 7 } :: List.replicate n { clOrdId := 7 } := by
    unfold flooded
    exact List.replicate_succ
  have hiter : (flooded (n + 1)).mm.execIter { clOrdId := 7 } =
      some ((flooded (n + 1)).mm, [.consumed { clOrdId := 7 }]) := by rfl
  refine recorded_eq_some.mpr ⟨_, ?_, rfl⟩
  show (flooded (n + 1)).exec = _
  unfold Engine.exec
  rw [hring]
  simp only [hiter]
  rfl

/-- In the burst the fill vanishes: the ring is drained in the end, the fill was converted, and
it is neither applied nor handed to the persister. -/
theorem burst_loses_fill :
    ∃ s h, run (recorded (Engine.step oneSymbol)) (Engine.init 1000000000 0, []) burst =
        some (s, h) ∧ s.execRing = [] ∧ fillEvent ∈ converted h ∧ fillEvent ∉ applied h ∧
      fillEvent ∉ enqueued h ∧ ¬ NothingLost (s, h) := by
  let acks : ℕ → List Obs := fun n => List.replicate n (.reported strangerAck { clOrdId := 7 } true)
  let taken : ℕ → List Obs := fun n => List.replicate n (.strategy (.consumed { clOrdId := 7 }))
  have hfill : run (recorded (Engine.step oneSymbol)) (flooded 0, [])
      (List.replicate execCap (.recv (.execReport strangerAck) 0)) =
      some (flooded execCap, acks execCap) := by
    refine run_replicate (fun n => (flooded n, acks n)) ?_
    intro k hk
    rw [recv_flooded _ hk]
    simp only [acks, ← List.replicate_succ']
  have hdrain : ∀ h, run (recorded (Engine.step oneSymbol)) (flooded execCap, h)
      (List.replicate execCap .exec) = some (flooded 0, h ++ taken execCap) := by
    intro h
    have hstep : ∀ k < execCap, recorded (Engine.step oneSymbol)
        (flooded (execCap - k), h ++ taken k) .exec =
        some (flooded (execCap - (k + 1)), h ++ taken (k + 1)) := by
      intro k hk
      have hk' : execCap - k = execCap - (k + 1) + 1 := by omega
      rw [hk', exec_flooded]
      simp only [taken, List.append_assoc, ← List.replicate_succ']
    have hall := run_replicate (fun n => (flooded (execCap - n), h ++ taken n)) hstep
    simpa [taken] using hall
  have hrun : run (recorded (Engine.step oneSymbol)) (Engine.init 1000000000 0, []) burst =
      some (flooded 0, acks execCap ++ [.reported fillReport fillEvent false] ++ taken execCap) := by
    unfold burst
    rw [run_append]
    show (run _ (flooded 0, []) _).bind _ = _
    rw [hfill, Option.bind_some, run_cons, recv_fill_flooded, Option.bind_some]
    exact hdrain _
  have hacks : ∀ n, applied (acks n) = [] ∧ enqueued (acks n) = [] := by
    intro n
    simp [acks, applied, enqueued]
  have htaken : ∀ n, applied (taken n) = List.replicate n { clOrdId := 7 } ∧
      enqueued (taken n) = [] := by
    intro n
    simp [taken, applied, enqueued]
  have hconv : fillEvent ∈ converted
      (acks execCap ++ [.reported fillReport fillEvent false] ++ taken execCap) := by
    rw [converted_append, converted_append]
    exact List.mem_append_left _ (List.mem_append_right _ (List.mem_singleton.mpr rfl))
  have happ : fillEvent ∉ applied
      (acks execCap ++ [.reported fillReport fillEvent false] ++ taken execCap) := by
    rw [applied_append, applied_append, (hacks _).1, (htaken _).1]
    intro hmem
    have heq := List.eq_of_mem_replicate (show fillEvent ∈ List.replicate execCap _ from hmem)
    exact absurd (congrArg ExecEvent.clOrdId heq) (by decide)
  have henq : fillEvent ∉ enqueued
      (acks execCap ++ [.reported fillReport fillEvent false] ++ taken execCap) := by
    rw [enqueued_append, enqueued_append, (hacks _).2, (htaken _).2]
    exact List.not_mem_nil
  refine ⟨_, _, hrun, rfl, hconv, happ, henq, ?_⟩
  rintro ⟨hring, -⟩
  rw [← hring] at hconv
  exact happ (by simpa [flooded] using hconv)

end MmEngine.Analysis
