import MmEngine.Lib.Stock
import MmEngine.Model.ObjectPool
import Mathlib.Data.List.OfFn

/-!
# The object pool lends each object once

The part of `free_` below `top_`, read from the top, is the stock of a lender (`stockOf`):
`acquire` lends and `release` takes back (`acquire_lends`, `release_takesBack`), whatever is left
in the slots above.  The constructor fills the stock with the indices below `N`, each of which an
`uint32_t` holds.  So the accounts are kept by every call (`PoolInv.step`), no call leaves the
arrays, and the promises of the pool are those of the accounts (`pool_sound`).
-/

set_option autoImplicit false

namespace MmEngine.Analysis

open MmEngine.Model MmEngine.Lib

variable {N : ℕ}

/-- The free objects, the next to be handed out first. -/
def frees (pool : ObjectPool N) : List ℕ :=
  ((pool.free.toList.take pool.top).map UInt32.toNat).reverse

/-- The stock the array stands for. -/
def stockOf (s : PoolState N) : Stock ℕ := { free := frees s.pool, out := s.outstanding }

/-- The indices below `N` are accounted for, and the stack is within its array. -/
structure PoolInv (s : PoolState N) : Prop where
  top_le : s.pool.top ≤ N
  accounts : (stockOf s).Accounts (List.range N)

/-- What a caller relies on between two calls. -/
structure PoolSound (s : PoolState N) : Prop where
  /-- The free objects and those outstanding are all there are. -/
  available : s.pool.available + s.outstanding.length = N
  /-- No object is outstanding twice. -/
  distinct : s.outstanding.Nodup
  /-- `acquire` returns `nullptr` exactly when all are outstanding, and otherwise one that is not. -/
  acquires : ∃ p pool, s.pool.acquire = some (p, pool) ∧ (p = none ↔ s.outstanding.length = N) ∧
    ∀ x, p = some x → x < N ∧ x ∉ s.outstanding

/-! ## The array as a stack -/

/-- INTERNAL: the last used slot is on top. -/
theorem frees_succ (free : Vector UInt32 N) {k : ℕ} (h : k < N) :
    frees { free := free, top := k + 1 } = free[k].toNat :: frees { free := free, top := k } := by
  unfold frees
  have hk : k < free.toList.length := by rwa [Vector.length_toList]
  rw [List.take_succ_eq_append_getElem hk, List.map_append, List.reverse_append, Vector.getElem_toList]
  rfl

/-- INTERNAL: what is written on top covers a stale slot. -/
theorem frees_set (free : Vector UInt32 N) (idx : UInt32) {k : ℕ} (h : k < N) :
    frees { free := free.set k idx h, top := k + 1 } = idx.toNat :: frees { free := free, top := k } := by
  rw [frees_succ _ h, Vector.getElem_set_self]
  unfold frees
  rw [Vector.toList_set, List.take_set_of_le le_rfl]

theorem length_frees {pool : ObjectPool N} (h : pool.top ≤ N) : (frees pool).length = pool.top := by
  unfold frees
  rw [List.length_reverse, List.length_map, List.length_take, Vector.length_toList]
  exact min_eq_left h

/-- INTERNAL: the constructor stacks up the indices below `N`. -/
theorem frees_init (hN : N < 2 ^ 32) : frees (ObjectPool.init N) = List.range N := by
  unfold frees ObjectPool.init
  rw [Vector.toList_ofFn, List.take_of_length_le (by simp)]
  apply List.ext_getElem
  · simp
  · intro i hi hi'
    rw [List.length_range] at hi'
    simp only [List.getElem_reverse, List.getElem_map, List.getElem_ofFn, List.length_map,
      List.length_ofFn, List.getElem_range, UInt32.toNat_ofNat']
    omega

/-! ## The calls -/

theorem PoolInv.lt_of_free {s : PoolState N} (h : PoolInv s) {x : ℕ} (hx : x ∈ frees s.pool) : x < N :=
  List.mem_range.mp (h.accounts.mem_all_of_free hx)

/-- INTERNAL: **`acquire` lends an object of the stock.** -/
theorem acquire_lends {s : PoolState N} (h : PoolInv s) :
    ∃ pool : ObjectPool N, s.pool.acquire = some ((stockOf s).lend.1, pool) ∧ pool.top ≤ N ∧
      stockOf { pool := pool, outstanding := (stockOf s).lend.1.toList ++ s.outstanding } =
        (stockOf s).lend.2 := by
  obtain ⟨⟨free, top⟩, out⟩ := s
  have htop : top ≤ N := h.top_le
  cases top with
  | zero => exact ⟨{ free := free, top := 0 }, rfl, htop, rfl⟩
  | succ k =>
    have hk : k < N := htop
    have hfrees := frees_succ free hk
    have hlend : (stockOf { pool := { free := free, top := k + 1 }, outstanding := out }).lend =
        (some free[k].toNat,
          { free := frees { free := free, top := k }, out := free[k].toNat :: out }) := by
      unfold stockOf Stock.lend
      rw [hfrees]
    have hlt : free[k].toNat < N := h.lt_of_free (by rw [hfrees]; exact List.mem_cons_self)
    refine ⟨{ free := free, top := k }, ?_, hk.le, ?_⟩
    · rw [hlend]
      unfold ObjectPool.acquire
      simp [Vector.getElem?_eq_getElem hk, hlt]
    · rw [hlend]
      rfl

/-- INTERNAL: **`release` takes an outstanding object back**, and has a slot for it. -/
theorem release_takesBack (hN : N < 2 ^ 32) {s : PoolState N} (h : PoolInv s) {p : ℕ}
    (hp : p ∈ s.outstanding) :
    ∃ pool : ObjectPool N, s.pool.release p = some pool ∧ pool.top ≤ N ∧
      stockOf { pool := pool, outstanding := s.outstanding.erase p } =
        (stockOf s).takeBack p := by
  have hadd := h.accounts.length_add
  have hlt : p < N := List.mem_range.mp (h.accounts.mem_all_of_out hp)
  have hidx : (UInt32.ofNat p).toNat = p := by
    rw [UInt32.toNat_ofNat']
    exact Nat.mod_eq_of_lt (hlt.trans hN)
  have htop : s.pool.top < N := by
    have hpos : 0 < s.outstanding.length := List.length_pos_of_mem hp
    have hlen := length_frees h.top_le
    rw [List.length_range] at hadd
    unfold stockOf at hadd
    dsimp only at hadd
    omega
  refine ⟨{ free := s.pool.free.set s.pool.top (UInt32.ofNat p) htop, top := s.pool.top + 1 }, ?_, htop, ?_⟩
  · unfold ObjectPool.release
    dsimp only
    rw [if_pos (hidx.symm ▸ hlt), dif_pos htop]
  · unfold stockOf Stock.takeBack
    rw [frees_set, hidx]

/-- INTERNAL: a call that a caller may make goes through and keeps the accounts. -/
theorem PoolInv.step (hN : N < 2 ^ 32) (s : PoolState N) (call : PoolCall) (h : PoolInv s)
    (hcall : ReleasesOutstanding s call) : ∃ t, callStep s call = some t ∧ PoolInv t := by
  cases call with
  | acquire =>
    obtain ⟨pool, hacquire, htop, hstock⟩ := acquire_lends h
    refine ⟨_, by rw [callStep, hacquire, Option.map_some], htop, ?_⟩
    rw [hstock]
    exact h.accounts.lend
  | release p =>
    have hp : p ∈ s.outstanding := hcall p rfl
    obtain ⟨pool, hrelease, htop, hstock⟩ := release_takesBack hN h hp
    refine ⟨_, by rw [callStep, hrelease, Option.map_some], htop, ?_⟩
    rw [hstock]
    exact h.accounts.takeBack hp

theorem poolInv_init (hN : N < 2 ^ 32) : PoolInv (PoolState.init N) := by
  refine ⟨le_rfl, List.nodup_range, ?_⟩
  unfold stockOf PoolState.init
  rw [frees_init hN, List.append_nil]

/-- INTERNAL: the promises are read off the accounts. -/
theorem PoolInv.sound {s : PoolState N} (h : PoolInv s) : PoolSound s := by
  have hadd := h.accounts.length_add
  rw [List.length_range] at hadd
  obtain ⟨pool, hacquire, -, -⟩ := acquire_lends h
  refine ⟨?_, h.accounts.out_nodup, _, pool, hacquire, ?_, ?_⟩
  · unfold stockOf at hadd
    dsimp only at hadd
    rwa [length_frees h.top_le] at hadd
  · have hnone := h.accounts.lend_none_iff
    rwa [List.length_range] at hnone
  · intro x hx
    obtain ⟨hout, hall⟩ := h.accounts.fresh hx
    exact ⟨List.mem_range.mp hall, hout⟩

/-- **Every sequence of calls that releases only what is outstanding goes through, and the pool
keeps its promises.**  For every size below `2 ^ 32`.
SRCLINE: src/common/object_pool.hpp:12-34 -/
theorem pool_sound (N : ℕ) (hN : N < 2 ^ 32) (calls : List PoolCall)
    (hcalls : Along callStep ReleasesOutstanding (PoolState.init N) calls) :
    ∃ s, run callStep (PoolState.init N) calls = some s ∧ PoolSound s := by
  obtain ⟨s, hrun, hs⟩ := run_goes_through (PoolInv.step hN) (poolInv_init hN) hcalls
  exact ⟨s, hrun, hs.sound⟩

/-- A pool of one object, taken and returned. -/
theorem pool_sound_one :
    ∃ s, run callStep (PoolState.init 1) [.acquire, .release 0] = some s ∧ PoolSound s := by
  refine pool_sound 1 (by decide) _ ⟨nofun, ?_⟩
  intro t ht
  obtain rfl := Option.some.inj ht
  refine ⟨?_, fun _ _ => trivial⟩
  intro p hp
  obtain rfl := PoolCall.release.inj hp
  exact List.mem_cons_self

end MmEngine.Analysis
