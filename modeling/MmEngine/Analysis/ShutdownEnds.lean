import MmEngine.Analysis.LastRecords
import MmEngine.Interface.DecisionRules

/-!
# The shutdown comes to an end

`main` clears the flag and then joins the three threads, each of which first finishes what it is at
and empties its rings, while the others may still be filling them.  `stepsLeft` is a potential that
every step of a stopped engine lowers: a record in a ring of the persister is worth seven steps, one
in the ring of the logger four, and an effect the strategy has still to perform pays for the record
it may become.  Only a report that is still delivered raises it.  A thread that has not returned can
always take a step, so the joins return.
-/

set_option autoImplicit false

namespace MmEngine.Analysis

open MmEngine.Model MmEngine.Model.MarketMaker MmEngine.Interface MmEngine.Lib

/-! ## What is left to do -/

/-- A bound on the steps of a persister that is told to stop.  A cycle that finds a record pays for
its six other steps with it. -/
def persisterLeft {S E : Type} (p : LmdbPersister S E) : ℕ :=
  let n := 7 * (p.snapRing.length + p.tradeRing.length)
  match p.pc with
  | .returned => 0
  | .tradeSize => n + 1
  | .snapSize => n + 2
  | .flag => n + 3
  | .commit => n + 4
  | .trades => if p.tradeRing.length = 0 then n + 5 else n - 1
  | .snaps => if n = 0 then 6 else n

/-- A bound on the steps of a logger that is told to stop. -/
def loggerLeft (l : AsyncLogger) : ℕ :=
  let n := 4 * l.ring.length
  match l.pc with
  | .returned => 0
  | .size => n + 1
  | .flag => n + 2
  | .popping => if n = 0 then 3 else n

/-- A bound on what the strategy can still do: one turn on a snapshot performs at most thirteen
effects. -/
def strategyLeft (s : Threads) : ℕ :=
  8 * s.todo.length + match s.pc with
    | .returned => 0
    | .flag => 1
    | .draining => 106

def stepsLeft (s : Threads) : ℕ := strategyLeft s + persisterLeft s.db + loggerLeft s.logger

/-! ## One step -/

section Persister

variable {S E : Type} {p q : LmdbPersister S E}

/-- INTERNAL: every step of a stopped persister is paid for.
SRCLINE: src/storage/lmdb_persister.hpp:47-73 -/
theorem persisterLeft_step {ps : List (Put S E)} (h : p.step false = some (q, ps)) :
    persisterLeft q + 1 ≤ persisterLeft p := by
  unfold LmdbPersister.step at h
  cases hpc : p.pc with
  | returned => simp [hpc] at h
  | flag | commit =>
    simp only [hpc] at h
    obtain ⟨rfl, -⟩ := Prod.mk.inj (Option.some.inj h)
    simp [persisterLeft, hpc]
  | snapSize =>
    simp only [hpc] at h
    obtain ⟨rfl, -⟩ := Prod.mk.inj (Option.some.inj h)
    cases hs : p.snapRing <;> simp [persisterLeft, hpc, hs]
  | tradeSize =>
    simp only [hpc] at h
    obtain ⟨rfl, -⟩ := Prod.mk.inj (Option.some.inj h)
    cases ht : p.tradeRing <;> simp [persisterLeft, hpc, ht]
  | snaps =>
    simp only [hpc] at h
    cases hs : p.snapRing <;>
    · simp only [hs] at h
      obtain ⟨rfl, -⟩ := Prod.mk.inj (Option.some.inj h)
      simp only [persisterLeft, hpc, hs, List.length_nil, List.length_cons]
      split_ifs <;> omega
  | trades =>
    simp only [hpc] at h
    cases ht : p.tradeRing <;>
    · simp only [ht] at h
      obtain ⟨rfl, -⟩ := Prod.mk.inj (Option.some.inj h)
      simp only [persisterLeft, hpc, ht, List.length_nil, List.length_cons]
      split_ifs <;> omega

/-- INTERNAL: a record that enters a ring costs at most seven steps. -/
theorem persisterLeft_snapshot (s : S) :
    persisterLeft { p with snapRing := p.snapRing ++ [s] } ≤ persisterLeft p + 7 := by
  unfold persisterLeft
  cases p.pc with
  | flag | snapSize | tradeSize | commit | returned =>
    simp only [List.length_append, List.length_singleton]
    omega
  | snaps | trades =>
    simp only [List.length_append, List.length_singleton]
    split_ifs <;> omega

theorem persisterLeft_trade (e : E) :
    persisterLeft { p with tradeRing := p.tradeRing ++ [e] } ≤ persisterLeft p + 7 := by
  unfold persisterLeft
  cases p.pc with
  | flag | snapSize | tradeSize | commit | returned =>
    simp only [List.length_append, List.length_singleton]
    omega
  | snaps | trades =>
    simp only [List.length_append, List.length_singleton]
    split <;> split <;> omega

end Persister

/-- INTERNAL: every step of a stopped logger is paid for.
SRCLINE: src/common/async_logger.hpp:46-61 -/
theorem loggerLeft_step {l l' : AsyncLogger} {rs : List LogRecord} (h : l.step false = some (l', rs)) :
    loggerLeft l' + 1 ≤ loggerLeft l := by
  unfold AsyncLogger.step at h
  cases hpc : l.pc with
  | returned => simp [hpc] at h
  | flag =>
    simp only [hpc] at h
    obtain ⟨rfl, -⟩ := Prod.mk.inj (Option.some.inj h)
    simp [loggerLeft, hpc]
  | size =>
    simp only [hpc] at h
    obtain ⟨rfl, -⟩ := Prod.mk.inj (Option.some.inj h)
    cases hring : l.ring <;> simp [loggerLeft, hpc, hring]
  | popping =>
    simp only [hpc] at h
    cases hring : l.ring with
    | nil =>
      simp only [hring] at h
      obtain ⟨rfl, -⟩ := Prod.mk.inj (Option.some.inj h)
      simp [loggerLeft, hpc, hring]
    | cons r rest =>
      simp only [hring] at h
      obtain ⟨rfl, -⟩ := Prod.mk.inj (Option.some.inj h)
      simp only [loggerLeft, hpc, hring, List.length_cons]
      split <;> split <;> omega

theorem loggerLeft_log {l : AsyncLogger} (r : LogRecord) :
    loggerLeft { l with ring := l.ring ++ [r] } ≤ loggerLeft l + 4 := by
  unfold loggerLeft
  cases l.pc with
  | flag | size | returned =>
    simp only [List.length_append, List.length_singleton]
    omega
  | popping =>
    simp only [List.length_append, List.length_singleton]
    split_ifs <;> omega

/-- INTERNAL: a turn on a report performs at most three effects.
SRCLINE: src/strategy/market_maker.hpp:53-63 -/
theorem length_execIter {m m' : MarketMaker} {e : Model.ExecEvent} {es : List Effect}
    (h : m.execIter e = some (m', es)) : es.length ≤ 3 := by
  obtain ⟨o, -, heq⟩ := Option.map_eq_some_iff.mp h
  obtain ⟨-, rfl⟩ := Prod.mk.inj heq
  split <;> simp

theorem length_snapshotTimer (cfg : EngineConfig) (m : MarketMaker) (tDeq : ℤ) :
    (snapshotTimer cfg m tDeq).2.length ≤ 8 := by
  unfold snapshotTimer
  split
  · have hle := List.length_filterMap_le (fun s : Fin kMaxSymbols =>
      if (m.books s).nBids = 0 ∧ (m.books s).nAsks = 0 then none
      else some (Effect.snapshot (bookSnapshot tDeq s (m.books s)))) (List.finRange kMaxSymbols)
    rwa [List.length_finRange] at hle
  · simp

/-- INTERNAL: a turn on a snapshot performs at most thirteen.
SRCLINE: src/strategy/market_maker.hpp:66-82 -/
theorem length_mdIter {cfg : EngineConfig} {env : MdEnv} {m m' : MarketMaker} {ev : MdEvent}
    {es : List Effect} (h : mdIter cfg env m ev = some (m', es)) : es.length ≤ 13 := by
  have hlt := symbolId_lt_of_mdIter h
  rw [mdIter_eq cfg env m ev ⟨ev.symbolId, hlt⟩ rfl] at h
  obtain ⟨-, rfl⟩ := Prod.mk.inj (Option.some.inj h)
  obtain ⟨m₁, es₁, es₂, h₁, h₂, hes⟩ :=
    decideTurn_sideSteps cfg env (m.applyMd cfg ⟨ev.symbolId, hlt⟩ ev) ⟨ev.symbolId, hlt⟩ ev.tRecvNs
  have hside : ∀ {side : OrdSide} {px : ℚ} {a b : MarketMaker} {fs : List Effect},
      SideStep cfg env ⟨ev.symbolId, hlt⟩ side px ev.tRecvNs a b fs → fs.length ≤ 2 := by
    intro side px a b fs hs
    cases hs <;> simp
  have hbuy := hside h₁
  have hsell := hside h₂
  have htimer := length_snapshotTimer cfg
    (decideTurn cfg env (m.applyMd cfg ⟨ev.symbolId, hlt⟩ ev) ⟨ev.symbolId, hlt⟩ ev.tRecvNs).1 env.tDeq
  rw [hes, List.length_append, List.length_cons, List.length_append]
  omega

/-- A report is delivered. -/
def delivers : ThreadAct → Bool
  | .exec _ => true
  | _ => false

variable {cfg : EngineConfig} {s t : Threads} {a : ThreadAct} {obs : List SaveObs}

/-- INTERNAL: an effect pays for the record it becomes.
SRCLINE: src/strategy/market_maker.hpp:56, 60, 127, 145, 160 -/
theorem stepsLeft_perform {x : Effect} {rest : List Effect} (htodo : s.todo = x :: rest)
    (h : Threads.perform { s with todo := rest } x = (t, obs)) :
    t.running = s.running ∧ stepsLeft t + 1 ≤ stepsLeft s := by
  have hkeeps : t.running = s.running ∧ t.todo = rest ∧ t.pc = s.pc := by
    cases x <;> obtain ⟨rfl, -⟩ := Prod.mk.inj h <;> exact ⟨rfl, rfl, rfl⟩
  obtain ⟨hrunning, hrest, hpc⟩ := hkeeps
  refine ⟨hrunning, ?_⟩
  unfold stepsLeft strategyLeft
  rw [hrest, hpc, htodo, List.length_cons]
  obtain ⟨hdb, hlog, -⟩ | ⟨e, hdb, hlog, -⟩ | ⟨b, hdb, hlog, -⟩ | ⟨r, hdb, hlog, -⟩ := perform_rings htodo h
  · rw [hdb, hlog]
    omega
  · have hcost : persisterLeft t.db ≤ persisterLeft s.db + 7 := by
      rw [hdb]
      exact persisterLeft_trade e
    rw [hlog]
    omega
  · have hcost : persisterLeft t.db ≤ persisterLeft s.db + 7 := by
      rw [hdb]
      exact persisterLeft_snapshot b
    rw [hlog]
    omega
  · have hcost : loggerLeft t.logger ≤ loggerLeft s.logger + 4 := by
      rw [hlog]
      exact loggerLeft_log r
    rw [hdb]
    omega

/-- INTERNAL: **one step of a stopped engine** lowers the potential, but for the delivery of a
report. -/
theorem stepsLeft_step (hstopped : s.running = false) (hne : a ≠ .stop) (h : s.step cfg a = some (t, obs)) :
    t.running = false ∧ stepsLeft t + 1 ≤ stepsLeft s + if delivers a then 25 else 0 := by
  cases a with
  | stop => exact absurd rfl hne
  | turn =>
    simp only [Threads.step] at h
    split at h
    · next hpc =>
      obtain ⟨rfl, -⟩ := Prod.mk.inj (Option.some.inj h)
      refine ⟨hstopped, ?_⟩
      simp only [stepsLeft, strategyLeft, hpc.1, hpc.2, hstopped, Bool.false_eq_true, if_false, delivers]
      omega
    · cases h
  | idle =>
    simp only [Threads.step] at h
    split at h
    · next hpc =>
      obtain ⟨rfl, -⟩ := Prod.mk.inj (Option.some.inj h)
      refine ⟨hstopped, ?_⟩
      simp only [stepsLeft, strategyLeft, hpc.1, hpc.2, delivers]
      omega
    · cases h
  | exec e =>
    simp only [Threads.step] at h
    split at h
    · next hpc =>
      obtain ⟨⟨m, es⟩, hturn, heq⟩ := Option.map_eq_some_iff.mp h
      obtain ⟨rfl, -⟩ := Prod.mk.inj heq
      have hlen := length_execIter hturn
      refine ⟨hstopped, ?_⟩
      simp only [stepsLeft, strategyLeft, hpc.1, hpc.2, delivers, List.length_nil, if_true]
      omega
    · cases h
  | md ev env =>
    simp only [Threads.step] at h
    split at h
    · next hpc =>
      obtain ⟨⟨m, es⟩, hturn, heq⟩ := Option.map_eq_some_iff.mp h
      obtain ⟨rfl, -⟩ := Prod.mk.inj heq
      have hlen := length_mdIter hturn
      refine ⟨hstopped, ?_⟩
      simp only [stepsLeft, strategyLeft, hpc.1, hpc.2, delivers, List.length_nil]
      omega
    · cases h
  | effect =>
    simp only [Threads.step] at h
    cases htodo : s.todo with
    | nil => simp [htodo] at h
    | cons x rest =>
      simp only [htodo] at h
      obtain ⟨hrunning, hspent⟩ := stepsLeft_perform htodo (Option.some.inj h)
      exact ⟨hrunning.trans hstopped, by simpa [delivers] using hspent⟩
  | persist =>
    obtain ⟨⟨db, ps⟩, hdb, heq⟩ := Option.map_eq_some_iff.mp h
    obtain ⟨rfl, -⟩ := Prod.mk.inj heq
    rw [hstopped] at hdb
    have hspent := persisterLeft_step hdb
    refine ⟨hstopped, ?_⟩
    simp only [stepsLeft, strategyLeft, delivers]
    omega
  | log =>
    obtain ⟨⟨logger, rs⟩, hlog, heq⟩ := Option.map_eq_some_iff.mp h
    obtain ⟨rfl, -⟩ := Prod.mk.inj heq
    rw [hstopped] at hlog
    have hspent := loggerLeft_step hlog
    refine ⟨hstopped, ?_⟩
    simp only [stepsLeft, strategyLeft, delivers]
    omega

/-- INTERNAL: **no thread waits for another**: one that has not returned can take a step of its
own. -/
theorem enabled_of_not_returned (hret : ¬ s.Returned) :
    ∃ a, a ≠ .stop ∧ delivers a = false ∧ (s.step cfg a).isSome = true := by
  by_cases htodo : s.todo = []
  · cases hpc : s.pc with
    | flag => exact ⟨.turn, by simp, rfl, by simp [Threads.step, hpc, htodo]⟩
    | draining => exact ⟨.idle, by simp, rfl, by simp [Threads.step, hpc, htodo]⟩
    | returned =>
      by_cases hdb : s.db.pc = .returned
      · have hlog : s.logger.pc ≠ .returned := fun hl => hret ⟨hpc, hdb, hl⟩
        refine ⟨.log, by simp, rfl, ?_⟩
        unfold Threads.step AsyncLogger.step
        cases hl : s.logger.pc with
        | flag | size => simp
        | popping => cases s.logger.ring <;> simp
        | returned => exact absurd hl hlog
      · refine ⟨.persist, by simp, rfl, ?_⟩
        unfold Threads.step LmdbPersister.step
        cases hd : s.db.pc with
        | flag | snapSize | tradeSize | commit => simp
        | snaps => cases s.db.snapRing <;> simp
        | trades => cases s.db.tradeRing <;> simp
        | returned => exact absurd hd hdb
  · obtain ⟨x, rest, hx⟩ := List.exists_cons_of_ne_nil htodo
    exact ⟨.effect, by simp, rfl, by simp [Threads.step, hx]⟩

/-- **The shutdown comes to an end.**  Once the flag is cleared, every interleaving of the strategy,
persister and logger threads is finite: it has at most `stepsLeft` steps, and 25 more for each report
that is still delivered; and as long as one of the three has not returned from `run`, one of them can
take a step.
SRCLINE: src/main.cpp:42, 204-229, src/strategy/market_maker.hpp:49-85, src/storage/lmdb_persister.hpp:47-73,
src/common/async_logger.hpp:46-61 -/
theorem shutdown_ends (cfg : EngineConfig) (s t : Threads) (hist h : List SaveObs) (acts : List ThreadAct)
    (hstopped : s.running = false) (hacts : .stop ∉ acts)
    (hrun : run (recorded (Threads.step cfg)) (s, hist) acts = some (t, h)) :
    acts.length ≤ stepsLeft s + 25 * acts.countP delivers ∧
      (¬ t.Returned → ∃ a, a ≠ .stop ∧ delivers a = false ∧ (t.step cfg a).isSome = true) := by
  have hstep : ∀ (x : Threads × List SaveObs) (a : ThreadAct) (y : Threads × List SaveObs), x.1.running = false →
      True ∧ a ≠ .stop → recorded (Threads.step cfg) x a = some y →
        y.1.running = false ∧ stepsLeft y.1 + 1 ≤ stepsLeft x.1 + if delivers a then 25 else 0 := by
    rintro ⟨u, hu⟩ a ⟨v, hv⟩ hI ⟨-, hne⟩ hstep
    obtain ⟨obs, hact, -⟩ := recorded_eq_some.mp hstep
    exact stepsLeft_step hI hne hact
  have hbound : acts.length + stepsLeft t ≤ stepsLeft s + 25 * acts.countP delivers :=
    run_length_le (fun x : Threads × List SaveObs => stepsLeft x.1) delivers 25 hstep hstopped
      ((along_true _ _).and_mem fun a ha heq => hacts (heq ▸ ha)) hrun
  exact ⟨by omega, fun hret => enabled_of_not_returned hret⟩

/-- An engine that is stopped while a fill is on its way to the store. -/
private def stoppedEarly : Threads :=
  { Threads.init 0 0 true with running := false, pc := .draining, todo := [.trade unitFill] }

/-- The strategy stores the fill and returns, then the persister and the logger do. -/
private def wayOut : List ThreadAct :=
  [.effect, .exec unitFill, .effect, .effect, .effect, .idle, .turn] ++ List.replicate 10 .persist ++
    List.replicate 6 .log

theorem shutdown_ends_lateFill : ∃ t h, run (recorded (Threads.step {})) (stoppedEarly, []) wayOut = some (t, h) ∧
    wayOut.length ≤ stepsLeft stoppedEarly + 25 * wayOut.countP delivers ∧
      (¬ t.Returned → ∃ a, a ≠ .stop ∧ delivers a = false ∧ (t.step {} a).isSome = true) :=
  ⟨_, _, rfl, shutdown_ends {} stoppedEarly _ [] _ wayOut rfl (by simp [wayOut]) rfl⟩

end MmEngine.Analysis
