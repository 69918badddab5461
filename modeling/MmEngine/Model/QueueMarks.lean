import MmEngine.Model.Events
import MmEngine.Model.SpscRing

/-!
# The high-water marks of the rings

A producer that has pushed takes the size of its ring and raises a counter of
src/metrics/metrics.hpp to it.  `size_approx` loads `head_` and `tail_` one after the other, and
`track_max` is a compare-and-swap loop, so the consumer can move between any two of these steps.
`queueStep` goes on from `ringStep`: a `Gauge` is where the producer's thread stands outside
`try_push`.  A weak compare-and-swap may fail although the counter is as expected; whether it does
is the Boolean of the action.

The three rings with a mark run side by side in `queuesStep`.
-/

set_option autoImplicit false

namespace MmEngine.Model

open MmEngine.Lib

/-- The places that push to a ring with a mark. -/
inductive CallSite where
  /-- SRCLINE: src/fix/fix_app.hpp:141-143 -/
  | onMessage
  /-- SRCLINE: src/strategy/market_maker.hpp:122-124 -/
  | requote
  /-- SRCLINE: src/strategy/market_maker.hpp:140-146 -/
  | cancelSide
  /-- SRCLINE: src/common/async_logger.hpp:32-36 -/
  | log
  /-- `running` is the flag as it is read when the ring is full.
  SRCLINE: src/main.cpp:125-128 -/
  | runBench (running : Bool)

/-- Whether `track_max` is called after `try_push` returned `ok`; `run_bench` tries again instead,
as long as it is running. -/
def CallSite.tracks : CallSite → Bool → Bool
  | .onMessage, _ => true
  | .requote, ok => ok
  | .cancelSide, _ => false
  | .log, _ => true
  | .runBench running, ok => ok || !running

/-- Where the producer's thread stands. -/
inductive Gauge where
  | idle
  | pushing (site : CallSite)
  /-- About to load `head_`. -/
  | sizing
  /-- About to load `tail_`. -/
  | headLoaded (h : UInt64)
  /-- In `track_max`, about to load the mark. -/
  | sized (v : UInt64)
  /-- In `track_max`, about to compare and to swap. -/
  | comparing (v cur : UInt64)

/-- A ring with its mark. -/
structure QueueState (T : Type) (N : ℕ) where
  ring : RingState T N
  gauge : Gauge := .idle
  mark : UInt64 := 0

/-- A step of one of the two threads of a ring. -/
inductive QueueAct (T : Type) where
  | push (site : CallSite) (item : T)
  /-- The producer's next step; `spurious` makes a compare-and-swap fail. -/
  | producer (spurious : Bool)
  | tryPop
  | consumer

variable {T : Type} {N : ℕ} [NeZero N]

/-- Where an answer of `try_push` leaves the thread. -/
def afterPush (site : CallSite) : List (FifoEvent T) → Gauge
  | .pushOk _ :: _ => if site.tracks true then .sizing else .idle
  | .pushFull _ :: _ => if site.tracks false then .sizing else .idle
  | _ => .pushing site

/-- The next step of the producer's thread; reported is the value `track_max` is called with.
SRCLINE: src/common/spsc_ring.hpp:64-68, src/metrics/metrics.hpp:37-40 -/
def QueueState.producerStep (s : QueueState T N) (spurious : Bool) : Option (QueueState T N × List UInt64) :=
  match s.gauge with
  | .idle => none
  | .pushing site => (ringStep s.ring .producer).map fun (ring, es) =>
      ({ s with ring := ring, gauge := afterPush site es }, [])
  | .sizing => some ({ s with gauge := .headLoaded s.ring.ring.head }, [])
  | .headLoaded h =>
    let v := h - s.ring.ring.tail
    some ({ s with gauge := .sized v }, [v])
  | .sized v => some ({ s with gauge := .comparing v s.mark }, [])
  | .comparing v cur =>
    if v > cur then
      if s.mark = cur ∧ spurious = false then some ({ s with mark := v, gauge := .idle }, [])
      else some ({ s with gauge := .comparing v s.mark }, [])
    else some ({ s with gauge := .idle }, [])

/-- One step of one of the two threads. -/
def queueStep (s : QueueState T N) : QueueAct T → Option (QueueState T N × List UInt64)
  | .push site item => match s.gauge with
    | .idle => (ringStep s.ring (.tryPush item)).map fun (ring, _) =>
        ({ s with ring := ring, gauge := .pushing site }, [])
    | _ => none
  | .producer spurious => s.producerStep spurious
  | .tryPop => (ringStep s.ring .tryPop).map fun (ring, _) => ({ s with ring := ring }, [])
  | .consumer => (ringStep s.ring .consumer).map fun (ring, _) => ({ s with ring := ring }, [])

/-! ## The rings of the engine -/

/-- The marks of the metrics registry.
SRCLINE: src/metrics/metrics.hpp:33-35 -/
inductive QueueName where
  | mdQueueMax
  | ordQueueMax
  | logQueueMax
  deriving DecidableEq

namespace QueueName

/-- What the ring of a mark holds. -/
abbrev Item : QueueName → Type
  | mdQueueMax => MdEvent
  | ordQueueMax => OrderCmd
  | logQueueMax => LogRecord

/-- SRCLINE: src/fix/fix_app.hpp:48-50, src/common/async_logger.hpp:64 -/
def capacity : QueueName → ℕ
  | mdQueueMax => 2 ^ 14
  | ordQueueMax => 2 ^ 12
  | logQueueMax => 2 ^ 14

instance (name : QueueName) : NeZero name.capacity := by
  cases name <;> exact ⟨by decide⟩

end QueueName

/-- All rings with a mark. -/
abbrev Queues : Type := ∀ name : QueueName, QueueState name.Item name.capacity

/-- Fresh rings, whatever their buffers hold, and marks of zero.
SRCLINE: src/common/spsc_ring.hpp:36, src/metrics/metrics.hpp:33-35 -/
def Queues.init (bufs : ∀ name : QueueName, Fin name.capacity → name.Item) : Queues :=
  fun name => { ring := RingState.init (bufs name) }

/-- One step of one of the threads of one ring, with the mark the reported value is for. -/
def queuesStep (q : Queues) (act : (name : QueueName) × QueueAct name.Item) :
    Option (Queues × List (QueueName × UInt64)) :=
  (queueStep (q act.1) act.2).map fun (s, vs) => (Function.update q act.1 s, vs.map fun v => (act.1, v))

end MmEngine.Model
