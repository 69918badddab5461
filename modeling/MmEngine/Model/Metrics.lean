import MmEngine.Model.Engine
import MmEngine.Model.LatencyHistogram

/-!
# The metrics of the engine

The registry of src/metrics/metrics.hpp beside the threads that write it.  Three histograms and
five counters are written on the way of a snapshot through the engine: the reader counts it, the
strategy takes the clock when it has popped it and again when the book is updated, and the sender
takes the clock when the order is handed to the socket.

A step of the metered engine is a step of one of its threads together with the clock reading that
the thread takes for the registry; the reading at the dequeue is already part of `MdEnv`.  The
high-water marks of the rings are in `Model.QueueMarks`, and the threads that write one histogram
at the same time in `Model.HistogramThreads`.
-/

set_option autoImplicit false

namespace MmEngine.Model

/-- SRCLINE: src/metrics/metrics.hpp:20-31 -/
structure Metrics where
  mdProcessing : LatencyHistogram := {}
  tickToTrade : LatencyHistogram := {}
  queueWait : LatencyHistogram := {}
  mdMsgsTotal : UInt64 := 0
  mdDroppedTotal : UInt64 := 0
  ordersSentTotal : UInt64 := 0
  cancelsSentTotal : UInt64 := 0
  execsTotal : UInt64 := 0

/-- What a thread did, with its readings of the clock: `deq` at the dequeue of a snapshot, `now`
when the thread was done with what it did. -/
structure Stamped where
  obs : Obs
  deq : ℤ
  now : ℤ

/-- A time that has passed, as `record` takes it. -/
def elapsed (now start : ℤ) : Int64 := Int64.ofInt (now - start)

namespace Metrics

/-- A snapshot that was taken off the ring and applied to its book.
SRCLINE: src/strategy/market_maker.hpp:68-73 -/
def onTook (k : Metrics) (ev : MdEvent) (deq now : ℤ) : Metrics :=
  { k with queueWait := k.queueWait.record (elapsed deq ev.tRecvNs),
           mdProcessing := k.mdProcessing.record (elapsed now ev.tRecvNs) }

/-- A command that was handed to the socket.
SRCLINE: src/fix/fix_app.hpp:210-211, 227 -/
def onSent (k : Metrics) (c : OrderCmd) (now : ℤ) : Metrics :=
  match c.type with
  | .new =>
    { k with tickToTrade := k.tickToTrade.record (elapsed now c.tMdNs),
             ordersSentTotal := k.ordersSentTotal + 1 }
  | .cancel => { k with cancelsSentTotal := k.cancelsSentTotal + 1 }

/-- What the thread writes into the registry.
SRCLINE: src/fix/fix_app.hpp:140-142, 185, src/strategy/market_maker.hpp:68-73 -/
def onStamped (k : Metrics) (o : Stamped) : Metrics :=
  match o.obs with
  | .quoted _ _ taken =>
    { k with mdMsgsTotal := k.mdMsgsTotal + 1,
             mdDroppedTotal := if taken then k.mdDroppedTotal else k.mdDroppedTotal + 1 }
  | .reported _ _ _ => { k with execsTotal := k.execsTotal + 1 }
  | .strategy (.took ev) => k.onTook ev o.deq o.now
  | .sent c _ => k.onSent c o.now
  | _ => k

end Metrics

/-- The readings that belong to what the step showed. -/
def stamp (a : EngineAct) (now : ℤ) (o : Obs) : Stamped :=
  match a with
  | .md env => { obs := o, deq := env.tDeq, now := now }
  | _ => { obs := o, deq := now, now := now }

/-- The engine with its registry. -/
structure Metered where
  engine : Engine
  metrics : Metrics := {}

namespace Metered

/-- One step of one of the threads, and the clock as that thread reads it. -/
def step (cfg : EngineConfig) (s : Metered) (a : EngineAct × ℤ) : Option (Metered × List Stamped) :=
  (s.engine.step cfg a.1).map fun (t, obs) =>
    let os := obs.map (stamp a.1 a.2)
    ({ engine := t, metrics := os.foldl Metrics.onStamped s.metrics }, os)

/-- The engine and the registry at start-up. -/
def init (tCtor tRun : ℤ) : Metered := { engine := Engine.init tCtor tRun }

end Metered

end MmEngine.Model
