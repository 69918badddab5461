import MmEngine.Lib.Runs
import Mathlib.Algebra.Group.Nat.Defs

/-!
# The object pool

`ObjectPool<T, N>` of src/common/object_pool.hpp: a stack of the indices of the free objects in
an array of `uint32_t`.  The objects themselves are the caller's; a `T*` into `storage_` is the
index of the object it points at.  A read or a write outside the arrays, or a failed assertion,
is `none`.

`callStep` is a caller at work: it keeps the pointers `acquire` returned and `release` was not
given since.
-/

set_option autoImplicit false

namespace MmEngine.Model

variable {N : ℕ}

/-- SRCLINE: src/common/object_pool.hpp:31-33 -/
structure ObjectPool (N : ℕ) where
  free : Vector UInt32 N
  top : ℕ

namespace ObjectPool

/-- SRCLINE: src/common/object_pool.hpp:15-18 -/
def init (N : ℕ) : ObjectPool N :=
  { free := Vector.ofFn fun i => UInt32.ofNat (N - 1 - i.val)
    top := N }

/-- The pointer is `none` for `nullptr`.
SRCLINE: src/common/object_pool.hpp:19-22 -/
def acquire (pool : ObjectPool N) : Option (Option ℕ × ObjectPool N) :=
  if pool.top = 0 then some (none, pool)
  else
    match pool.free[pool.top - 1]? with
    | none => none
    | some idx =>
      if idx.toNat < N then some (some idx.toNat, { pool with top := pool.top - 1 }) else none

/-- SRCLINE: src/common/object_pool.hpp:23-27 -/
def release (pool : ObjectPool N) (p : ℕ) : Option (ObjectPool N) :=
  let idx := UInt32.ofNat p
  if idx.toNat < N then
    if h : pool.top < N then some { free := pool.free.set pool.top idx h, top := pool.top + 1 }
    else none
  else none

/-- SRCLINE: src/common/object_pool.hpp:28 -/
def available (pool : ObjectPool N) : ℕ := pool.top

end ObjectPool

/-- A pool and the pointers outstanding. -/
structure PoolState (N : ℕ) where
  pool : ObjectPool N
  outstanding : List ℕ

/-- A call of one of the two operations. -/
inductive PoolCall where
  | acquire
  | release (p : ℕ)

/-- A pool nobody has called yet. -/
def PoolState.init (N : ℕ) : PoolState N := { pool := ObjectPool.init N, outstanding := [] }

/-- One call. -/
def callStep (s : PoolState N) : PoolCall → Option (PoolState N)
  | .acquire => s.pool.acquire.map fun r =>
      { pool := r.2, outstanding := r.1.toList ++ s.outstanding }
  | .release p => (s.pool.release p).map fun pool =>
      { pool := pool, outstanding := s.outstanding.erase p }

/-- `release` is only given a pointer that is outstanding. -/
def ReleasesOutstanding (s : PoolState N) (call : PoolCall) : Prop :=
  ∀ p, call = .release p → p ∈ s.outstanding

end MmEngine.Model
