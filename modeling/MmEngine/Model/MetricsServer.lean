import MmEngine.Model.Metrics
import MmEngine.Model.QueueMarks
import Mathlib.Algebra.Order.Ring.Rat

/-!
# The metrics server

The loop of src/metrics/metrics_server.hpp: once a second a pass over the registry, one load after the
other, while the threads of the engine go on writing it.  What a scrape returns are gauges and counters:
`Set` replaces the value of a gauge; a counter only goes up, so `set_counter` adds what is missing and
leaves a counter that is ahead as it is.

`snapshot()` of a histogram is one load here; its own loads are in `Model.HistogramThreads`.  A pass takes
the high-water marks, which are in `Model.QueueMarks`, as they are when it loads them.
-/

set_option autoImplicit false

namespace MmEngine.Model

/-- The label `flow` of `mm_latency_ns`. -/
inductive Flow where
  | mdProcessing
  | tickToTrade
  | queueWait
  deriving DecidableEq

/-- The label `q` of `mm_latency_ns`. -/
inductive Quantile where
  | p50
  | p90
  | p99
  | max
  deriving DecidableEq

/-- The label `type` of `mm_events_total`. -/
inductive EventType where
  | md
  | mdDropped
  | orders
  | cancels
  | execs
  deriving DecidableEq

/-- The values a scrape returns.
SRCLINE: src/metrics/metrics_server.hpp:23-47 -/
structure Published where
  latencyNs : Flow → Quantile → ℚ := fun _ _ => 0
  throughput : ℚ := 0
  eventsTotal : EventType → ℚ := fun _ => 0
  /-- By the mark that is published. -/
  queueBacklogMax : QueueName → ℚ := fun _ => 0

namespace Metrics

/-- The histogram of a flow.
SRCLINE: src/metrics/metrics_server.hpp:63-65 -/
def histogram (k : Metrics) : Flow → LatencyHistogram
  | .mdProcessing => k.mdProcessing
  | .tickToTrade => k.tickToTrade
  | .queueWait => k.queueWait

/-- The counter of a type.
SRCLINE: src/metrics/metrics_server.hpp:58, 68-71 -/
def total (k : Metrics) : EventType → UInt64
  | .md => k.mdMsgsTotal
  | .mdDropped => k.mdDroppedTotal
  | .orders => k.ordersSentTotal
  | .cancels => k.cancelsSentTotal
  | .execs => k.execsTotal

end Metrics

/-- SRCLINE: src/metrics/metrics_server.hpp:88-93 -/
def quantileOf (p : Percentiles) : Quantile → ℚ
  | .p50 => p.p50
  | .p90 => p.p90
  | .p99 => p.p99
  | .max => p.max

/-- What `set_counter` makes of the value of a counter.
SRCLINE: src/metrics/metrics_server.hpp:94-97 -/
def setCounter (cur target : ℚ) : ℚ := if target > cur then cur + (target - cur) else cur

/-- The statements of a pass, each with one load from the registry; `setMd` takes the local `md`.
SRCLINE: src/metrics/metrics_server.hpp:58-75 -/
inductive PassStmt where
  | loadMd
  | publish (flow : Flow)
  | setMd
  | setCounter (type : EventType)
  | setQueue (queue : QueueName)
  deriving DecidableEq

/-- SRCLINE: src/metrics/metrics_server.hpp:58-75 -/
def passStmts : List PassStmt :=
  [.loadMd, .publish .mdProcessing, .publish .tickToTrade, .publish .queueWait, .setMd, .setCounter .mdDropped,
    .setCounter .orders, .setCounter .cancels, .setCounter .execs, .setQueue .mdQueueMax,
    .setQueue .ordQueueMax, .setQueue .logQueueMax]

/-- The server: its locals, what it has published, and what is left of the pass. -/
structure MetricsServer where
  lastMd : UInt64 := 0
  md : UInt64 := 0
  published : Published := {}
  todo : List PassStmt := []
  ended : Bool := false

/-- The value of a gauge or a counter. -/
def toDouble (n : UInt64) : ℚ := n.toNat

namespace MetricsServer

/-- One statement; the difference of the two counts is one of `uint64_t`.
SRCLINE: src/metrics/metrics_server.hpp:58-75 -/
def run (k : Metrics) (queueMax : QueueName → UInt64) (s : MetricsServer) : PassStmt → MetricsServer
  | .loadMd =>
    { s with md := k.mdMsgsTotal, lastMd := k.mdMsgsTotal,
             published := { s.published with throughput := toDouble (k.mdMsgsTotal - s.lastMd) } }
  | .publish flow =>
    { s with published := { s.published with
        latencyNs := Function.update s.published.latencyNs flow (quantileOf (k.histogram flow).snapshot) } }
  | .setMd =>
    { s with published := { s.published with
        eventsTotal := Function.update s.published.eventsTotal .md
          (Model.setCounter (s.published.eventsTotal .md) (toDouble s.md)) } }
  | .setCounter type =>
    { s with published := { s.published with
        eventsTotal := Function.update s.published.eventsTotal type
          (Model.setCounter (s.published.eventsTotal type) (toDouble (k.total type))) } }
  | .setQueue queue =>
    { s with published := { s.published with
        queueBacklogMax := Function.update s.published.queueBacklogMax queue (toDouble (queueMax queue)) } }

end MetricsServer

/-- The engine with its registry, and the server beside it. -/
structure Monitored where
  metered : Metered
  server : MetricsServer := {}
  running : Bool := true

inductive MonitorAct where
  /-- A thread of the engine. -/
  | engine (a : EngineAct) (now : ℤ)
  /-- The flag becomes false. -/
  | stop
  /-- The server goes on; `queueMax` are the marks as it finds them. -/
  | server (queueMax : QueueName → UInt64)

inductive MonitorObs where
  | engine (o : Stamped)
  /-- A pass has begun, with this throughput. -/
  | began (tps : ℚ)

namespace Monitored

/-- One step of one thread.
SRCLINE: src/metrics/metrics_server.hpp:52-85 -/
def step (cfg : EngineConfig) (s : Monitored) : MonitorAct → Option (Monitored × List MonitorObs)
  | .engine a now => (s.metered.step cfg (a, now)).map fun (t, os) => ({ s with metered := t }, os.map .engine)
  | .stop => some ({ s with running := false }, [])
  | .server queueMax =>
    if s.server.ended then none
    else
      match s.server.todo with
      | [] =>
        if s.running then some ({ s with server := { s.server with todo := passStmts } }, [])
        else some ({ s with server := { s.server with ended := true } }, [])
      | stmt :: rest =>
        let server := { s.server.run s.metered.metrics queueMax stmt with todo := rest }
        some ({ s with server := server }, if stmt = .loadMd then [.began server.published.throughput] else [])

/-- Everything at start-up. -/
def init (tCtor tRun : ℤ) : Monitored := { metered := Metered.init tCtor tRun }

end Monitored

end MmEngine.Model
