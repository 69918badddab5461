import MmEngine.Model.Persister

/-!
# The threads around the persister and the logger

The strategy thread, the persister thread, the logger thread and the flag that stops them
(src/main.cpp:42, 204-229).  The strategy thread reads the flag at the top of its loop only; the
records it hands to the rings in between are taken off its list of effects one at a time, so
every other thread may move between any two of them.  What `exec_.try_pop` and `md_.try_pop`
deliver comes from the FIX thread and is any event.  A turn that leaves a fixed array has no
continuation.
-/

set_option autoImplicit false

namespace MmEngine.Model

open MmEngine.Lib

/-- SRCLINE: src/common/async_logger.hpp:66 -/
abbrev logCap : ℕ := 2 ^ 14

/-- Where the logger thread stands.
SRCLINE: src/common/async_logger.hpp:46-61 -/
inductive LoggerAt where
  /-- Before `running.load()`. -/
  | flag
  /-- Before `ring_.size_approx()`. -/
  | size
  /-- Before `ring_.try_pop(r)`. -/
  | popping
  /-- After the loop. -/
  | returned
  deriving DecidableEq

/-- SRCLINE: src/common/async_logger.hpp:65-68 -/
structure AsyncLogger where
  pc : LoggerAt := .flag
  /-- `fopen` succeeded. -/
  file : Bool := true
  ring : List LogRecord := []

namespace AsyncLogger

/-- SRCLINE: src/common/async_logger.hpp:32-36 -/
def log (l : AsyncLogger) (r : LogRecord) : AsyncLogger × Bool :=
  let (ring, taken) := offer logCap l.ring r
  ({ l with ring := ring }, taken)

/-- One step of the thread, with the record it prints to the file.
SRCLINE: src/common/async_logger.hpp:46-61 -/
def step (running : Bool) (l : AsyncLogger) : Option (AsyncLogger × List LogRecord) :=
  match l.pc with
  | .flag => some ({ l with pc := if running then .popping else .size }, [])
  | .size => some ({ l with pc := if l.ring.isEmpty then .returned else .popping }, [])
  | .popping =>
    match l.ring with
    | [] => some ({ l with pc := .flag }, [])
    | r :: rest => some ({ l with ring := rest }, if l.file then [r] else [])
  | .returned => none

end AsyncLogger

/-- Where the strategy thread stands between its effects.
SRCLINE: src/strategy/market_maker.hpp:49-85 -/
inductive StrategyAt where
  /-- Before `running.load()`. -/
  | flag
  /-- Before `exec_.try_pop(ex)`. -/
  | draining
  /-- After the loop. -/
  | returned
  deriving DecidableEq

/-- A record that one of the three rings takes. -/
inductive Saved where
  | snap (s : BookSnapshot)
  | trade (e : ExecEvent)
  | log (r : LogRecord)

/-- What becomes of a record. -/
inductive SaveObs where
  /-- `push_snapshot`, `push_trade` or `log` returned true. -/
  | accepted (x : Saved)
  /-- The record is in the store, committed, or in the file. -/
  | written (x : Saved)

/-- The threads and what they share. -/
structure Threads where
  running : Bool := true
  mm : MarketMaker
  pc : StrategyAt := .flag
  /-- What is left of the turn the strategy is in. -/
  todo : List Effect := []
  db : LmdbPersister BookSnapshot ExecEvent := {}
  logger : AsyncLogger := {}

/-- One step of one thread. -/
inductive ThreadAct where
  /-- `g_running.store(false)`. -/
  | stop
  /-- The strategy reads the flag. -/
  | turn
  /-- `exec_.try_pop` delivered a report. -/
  | exec (e : ExecEvent)
  /-- The exec ring is empty, and `md_.try_pop` delivered a snapshot. -/
  | md (ev : MdEvent) (env : MdEnv)
  /-- Both rings are empty. -/
  | idle
  /-- The strategy does the next thing of its turn. -/
  | effect
  /-- A step of the persister. -/
  | persist
  /-- A step of the logger. -/
  | log

namespace Threads

/-- What an effect of the strategy does to the three rings.
SRCLINE: src/strategy/market_maker.hpp:56, 60, 127, 145, 160 -/
def perform (s : Threads) : Effect → Threads × List SaveObs
  | .trade e =>
    let (db, taken) := s.db.pushTrade e
    ({ s with db := db }, if taken then [.accepted (.trade e)] else [])
  | .snapshot x =>
    let (db, taken) := s.db.pushSnapshot x
    ({ s with db := db }, if taken then [.accepted (.snap x)] else [])
  | .logged r =>
    let (logger, taken) := s.logger.log r
    ({ s with logger := logger }, if taken then [.accepted (.log r)] else [])
  | _ => (s, [])

/-- The record of a put. -/
def savedOf : Put BookSnapshot ExecEvent → Saved
  | .snap _ s => .snap s
  | .trade _ e => .trade e

/-- One step, with what it did to the records.
SRCLINE: src/main.cpp:42, 204-229, src/strategy/market_maker.hpp:49-85 -/
def step (cfg : EngineConfig) (s : Threads) : ThreadAct → Option (Threads × List SaveObs)
  | .stop => some ({ s with running := false }, [])
  | .turn =>
    if s.pc = .flag ∧ s.todo = [] then
      some ({ s with pc := if s.running then .draining else .returned }, [])
    else none
  | .exec e =>
    if s.pc = .draining ∧ s.todo = [] then
      (s.mm.execIter e).map fun (m, es) => ({ s with mm := m, todo := es }, [])
    else none
  | .md ev env =>
    if s.pc = .draining ∧ s.todo = [] then
      (s.mm.mdIter cfg env ev).map fun (m, es) => ({ s with mm := m, todo := es, pc := .flag }, [])
    else none
  | .idle =>
    if s.pc = .draining ∧ s.todo = [] then some ({ s with pc := .flag }, []) else none
  | .effect =>
    match s.todo with
    | [] => none
    | x :: rest => some (perform { s with todo := rest } x)
  | .persist =>
    (s.db.step s.running).map fun (db, ps) => ({ s with db := db }, ps.map fun p => .written (savedOf p))
  | .log =>
    (s.logger.step s.running).map fun (logger, rs) =>
      ({ s with logger := logger }, rs.map fun r => .written (.log r))

/-- The engine at its start; `file` says whether the log file could be opened.
SRCLINE: src/main.cpp:180-212 -/
def init (tCtor tRun : ℤ) (file : Bool) : Threads :=
  { mm := MarketMaker.init tCtor tRun, logger := { file := file } }

/-- All three threads have returned from `run`. -/
def Returned (s : Threads) : Prop :=
  s.pc = .returned ∧ s.db.pc = .returned ∧ s.logger.pc = .returned

end Threads

end MmEngine.Model
