import MmEngine.Lib.BoundedFifo
import Mathlib.Algebra.GroupWithZero.Nat
import Mathlib.Data.Fin.Basic
import Mathlib.Logic.Function.Basic

/-!
# The lock-free ring, step by step

`SpscRing<T, N>` of src/common/spsc_ring.hpp with one producer in `try_push` and one
consumer in `try_pop`.  Each operation is cut into the steps another thread can see
between: the load of its own index, the check against the cached copy of the opposite
index, the refresh of that copy (an acquire load, with the second check), the copy of the
slot, and the publishing store of its own index, which is also where it returns.  A
`Producer` or `Consumer` value is the program counter of the thread with the locals it
holds there.

The machine `ringStep` interleaves the two threads freely; what it reports are the
answers of the operations, as events of the bounded queue.
-/

set_option autoImplicit false

namespace MmEngine.Model

open MmEngine.Lib

variable {T : Type} {N : ℕ}

/-- SRCLINE: src/common/spsc_ring.hpp:75-79 -/
structure SpscRing (T : Type) (N : ℕ) where
  head : UInt64
  tail : UInt64
  cachedHead : UInt64
  cachedTail : UInt64
  buf : Fin N → T

/-- `buf_[i & kMask]` is always inside the buffer.
SRCLINE: src/common/spsc_ring.hpp:46, 58, 73 -/
def slotIndex (N : ℕ) [NeZero N] (i : UInt64) : Fin N :=
  ⟨i.toNat &&& (N - 1), by
    have := Nat.and_le_right (n := i.toNat) (m := N - 1)
    have := Nat.pos_of_ne_zero (NeZero.ne N)
    omega⟩

/-- Where the producer stands in `try_push`. -/
inductive Producer (T : Type) where
  | idle
  | loaded (item : T) (head : UInt64)
  | refreshing (item : T) (head : UInt64)
  | copying (item : T) (head : UInt64)
  | publishing (item : T) (head : UInt64)

/-- Where the consumer stands in `try_pop`. -/
inductive Consumer (T : Type) where
  | idle
  | loaded (tail : UInt64)
  | refreshing (tail : UInt64)
  | copying (tail : UInt64)
  | publishing (out : T) (tail : UInt64)

/-- The ring with its two threads. -/
structure RingState (T : Type) (N : ℕ) where
  ring : SpscRing T N
  producer : Producer T
  consumer : Consumer T

/-- SRCLINE: src/common/spsc_ring.hpp:36 -/
def RingState.init (buf : Fin N → T) : RingState T N :=
  { ring := { head := 0, tail := 0, cachedHead := 0, cachedTail := 0, buf := buf }
    producer := .idle
    consumer := .idle }

/-- A thread starts an operation, or does the next step of the one it is in. -/
inductive RingAction (T : Type) where
  | tryPush (item : T)
  | producer
  | tryPop
  | consumer

/-- `next - cached_tail_ > CapacityPow2`, in wrapping 64-bit arithmetic.
SRCLINE: src/common/spsc_ring.hpp:42, 44 -/
def looksFull (N : ℕ) (head tail : UInt64) : Bool := (head + 1 - tail).toNat > N

variable [NeZero N]

/-- The next step of `try_push`.
SRCLINE: src/common/spsc_ring.hpp:39-49 -/
def producerStep (s : RingState T N) : Option (RingState T N × List (FifoEvent T)) :=
  match s.producer with
  | .idle => none
  | .loaded item head =>
    if looksFull N head s.ring.cachedTail then
      some ({ s with producer := .refreshing item head }, [])
    else some ({ s with producer := .copying item head }, [])
  | .refreshing item head =>
    let ring := { s.ring with cachedTail := s.ring.tail }
    if looksFull N head ring.cachedTail then
      some ({ s with ring := ring, producer := .idle }, [.pushFull item])
    else some ({ s with ring := ring, producer := .copying item head }, [])
  | .copying item head =>
    some ({ s with
      ring := { s.ring with buf := Function.update s.ring.buf (slotIndex N head) item }
      producer := .publishing item head }, [])
  | .publishing item head =>
    some ({ s with ring := { s.ring with head := head + 1 }, producer := .idle }, [.pushOk item])

/-- The next step of `try_pop`.
SRCLINE: src/common/spsc_ring.hpp:52-61 -/
def consumerStep (s : RingState T N) : Option (RingState T N × List (FifoEvent T)) :=
  match s.consumer with
  | .idle => none
  | .loaded tail =>
    if tail = s.ring.cachedHead then some ({ s with consumer := .refreshing tail }, [])
    else some ({ s with consumer := .copying tail }, [])
  | .refreshing tail =>
    let ring := { s.ring with cachedHead := s.ring.head }
    if tail = ring.cachedHead then
      some ({ s with ring := ring, consumer := .idle }, [.popEmpty])
    else some ({ s with ring := ring, consumer := .copying tail }, [])
  | .copying tail =>
    some ({ s with consumer := .publishing (s.ring.buf (slotIndex N tail)) tail }, [])
  | .publishing out tail =>
    some ({ s with ring := { s.ring with tail := tail + 1 }, consumer := .idle }, [.popOk out])

/-- One step of one of the two threads. -/
def ringStep (s : RingState T N) : RingAction T → Option (RingState T N × List (FifoEvent T))
  | .tryPush item => match s.producer with
    | .idle => some ({ s with producer := .loaded item s.ring.head }, [])
    | _ => none
  | .producer => producerStep s
  | .tryPop => match s.consumer with
    | .idle => some ({ s with consumer := .loaded s.ring.tail }, [])
    | _ => none
  | .consumer => consumerStep s

end MmEngine.Model
