import MmEngine.Model.Metrics

/-!
# The offline load test

`run_bench` of src/main.cpp:62-157: a producer that makes up snapshots and spins until the ring has
room, the strategy thread as it is in the live engine, and a sink that drains the order ring and
counts.  No reader, no session and no persister of executions: nothing is ever pushed to the
execution ring.

The flag `g_running` is cleared by a signal at any time, or by the producer's thread when it is
through.  The random numbers and the clock come with the actions.
-/

set_option autoImplicit false

namespace MmEngine.Model

open MmEngine.Lib

/-- SRCLINE: src/strategy/market_maker.hpp:35 -/
abbrev ordCap : ℕ := 2 ^ 12

/-- `n_syms`.
SRCLINE: src/main.cpp:109 -/
def EngineConfig.nSyms (cfg : EngineConfig) : ℕ := min cfg.symbols.length kMaxSymbols

/-- The distance of the best levels from the middle of message `i`.
SRCLINE: src/main.cpp:118 -/
def benchHalf (i : ℕ) : ℚ := if i % 7 = 0 then 1 / 100 else 1 / 10

/-- Message `i`; `jig` is the random number drawn for it.
SRCLINE: src/main.cpp:113-123 -/
def benchEvent (nSyms i : ℕ) (jig : ℚ) (now : ℤ) : MdEvent :=
  let mid := 1050 + jig
  { tRecvNs := now, symbolId := i % nSyms, seq := i % 2 ^ 32, nBids := 5, nAsks := 5,
    bidPx := fun d => mid - benchHalf i - d.val * (5 / 100), bidQty := fun d => 10 + d.val,
    askPx := fun d => mid + benchHalf i + d.val * (5 / 100), askQty := fun d => 10 + d.val,
    lastPx := 0 }

/-- Where the producer stands.
SRCLINE: src/main.cpp:112-129 -/
inductive BenchAt where
  /-- Before the test of the loop, with message `i` next. -/
  | testing (i : ℕ)
  /-- Spinning on `md.try_push(ev)`. -/
  | pushing (i : ℕ) (ev : MdEvent)
  | done

structure Bench where
  engine : Engine
  metrics : Metrics := {}
  producer : BenchAt := .testing 0
  running : Bool := true
  strategyUp : Bool := true
  sinkUp : Bool := true

/-- One step of one thread. -/
inductive BenchAct where
  | generate (jig : ℚ) (now : ℤ)
  | push
  | exec
  /-- The strategy takes a snapshot; `now` is its reading of the clock when the book is updated. -/
  | md (env : MdEnv) (now : ℤ)
  | sink (now : ℤ)
  /-- `g_running.store(false)`. -/
  | stop
  /-- The strategy finds the flag cleared. -/
  | strategyReturns
  /-- So does the sink. -/
  | sinkReturns

/-- What is seen of it. -/
inductive BenchObs where
  /-- `md.try_push` took the snapshot. -/
  | queued (ev : MdEvent)
  | engine (o : Obs)
  /-- The sink popped a command. -/
  | drained (c : OrderCmd)

/-- The order ring refuses a command only when it is full; the sink may pop, and nobody else pushes,
between the two pushes of a turn.
SRCLINE: src/common/spsc_ring.hpp:39-50 -/
def roomFits (ring : List OrderCmd) (env : MdEnv) : Prop :=
  (env.room .buy = false → ordCap ≤ ring.length) ∧ (env.room .sell = false → ordCap ≤ ring.length + 1)

instance (ring : List OrderCmd) (env : MdEnv) : Decidable (roomFits ring env) :=
  inferInstanceAs (Decidable (_ ∧ _))

namespace Bench

/-- The producer draws a message, or leaves the loop.
SRCLINE: src/main.cpp:112-124 -/
def generate (cfg : EngineConfig) (n : ℕ) (s : Bench) (jig : ℚ) (now : ℤ) :
    Option (Bench × List BenchObs) :=
  match s.producer with
  | .testing i =>
    if i < n ∧ s.running = true then
      some ({ s with producer := .pushing i (benchEvent cfg.nSyms i jig now),
                     metrics := { s.metrics with mdMsgsTotal := s.metrics.mdMsgsTotal + 1 } }, [])
    else some ({ s with producer := .done }, [])
  | _ => none

/-- The producer tries to push, and tries again while the flag is set.
SRCLINE: src/main.cpp:125-127 -/
def push (s : Bench) : Option (Bench × List BenchObs) :=
  match s.producer with
  | .pushing i ev =>
    let (ring, taken) := offer mdCap s.engine.mdRing ev
    if taken then
      some ({ s with engine := { s.engine with mdRing := ring }, producer := .testing (i + 1) }, [.queued ev])
    else if s.running then some (s, [])
    else some ({ s with producer := .testing (i + 1) }, [])
  | _ => none

/-- The strategy thread takes a step of the engine.
SRCLINE: src/main.cpp:83-87 -/
def strategy (cfg : EngineConfig) (s : Bench) (a : EngineAct) (now : ℤ) : Option (Bench × List BenchObs) :=
  if s.strategyUp then
    (s.engine.step { cfg with dryRun := false } a).map fun (t, os) =>
      ({ s with engine := t, metrics := (os.map (stamp a now)).foldl Metrics.onStamped s.metrics },
        os.map .engine)
  else none

/-- The sink pops a command and counts it.
SRCLINE: src/main.cpp:88-103 -/
def sink (s : Bench) (now : ℤ) : Option (Bench × List BenchObs) :=
  match s.sinkUp, s.engine.ordRing with
  | true, c :: rest =>
    some ({ s with engine := { s.engine with ordRing := rest }, metrics := s.metrics.onSent c now }, [.drained c])
  | _, _ => none

/-- One step of one of the threads; none moves after a fault. -/
def step (cfg : EngineConfig) (n : ℕ) (s : Bench) (a : BenchAct) : Option (Bench × List BenchObs) :=
  if s.engine.faulted then none
  else
    match a with
    | .generate jig now => s.generate cfg n jig now
    | .push => s.push
    | .exec => s.strategy cfg .exec 0
    | .md env now => if roomFits s.engine.ordRing env then s.strategy cfg (.md env) now else none
    | .sink now => s.sink now
    | .stop => some ({ s with running := false }, [])
    | .strategyReturns => if s.running then none else some ({ s with strategyUp := false }, [])
    | .sinkReturns => if s.running then none else some ({ s with sinkUp := false }, [])

/-- SRCLINE: src/main.cpp:63-79 -/
def init (tCtor tRun : ℤ) : Bench := { engine := Engine.init tCtor tRun }

end Bench

end MmEngine.Model
