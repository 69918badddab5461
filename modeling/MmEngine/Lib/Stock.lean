import Mathlib.Data.List.Perm.Basic

/-!
# A stock of objects on loan

A stock lends its objects one at a time, the one returned last first.  `Accounts all s` says
that the objects in stock and those on loan are together the objects `all`, each once; lending
and the return of a borrowed object keep the accounts.  What an allocator promises is read off
the accounts: what is lent was not on loan, the stock is out exactly when everything is on
loan, and the two numbers add up.
-/

set_option autoImplicit false

namespace MmEngine.Lib

variable {α : Type*}

/-- The objects in stock, the next to be lent first, and the objects on loan. -/
structure Stock (α : Type*) where
  free : List α
  out : List α

namespace Stock

/-- The next object, if there is one, goes on loan. -/
def lend (s : Stock α) : Option α × Stock α :=
  match s.free with
  | [] => (none, s)
  | x :: free => (some x, { free := free, out := x :: s.out })

/-- An object comes back. -/
def takeBack [DecidableEq α] (s : Stock α) (x : α) : Stock α :=
  { free := x :: s.free, out := s.out.erase x }

/-- Every object is in stock or on loan, and no object twice. -/
structure Accounts (all : List α) (s : Stock α) : Prop where
  nodup : all.Nodup
  perm : (s.free ++ s.out).Perm all

namespace Accounts

variable {all : List α} {s : Stock α}

/-- INTERNAL: lending keeps the accounts. -/
theorem lend (h : Accounts all s) : Accounts all s.lend.2 := by
  refine ⟨h.nodup, ?_⟩
  have hperm := h.perm
  unfold Stock.lend
  cases hfree : s.free with
  | nil => exact hperm
  | cons x free =>
    rw [hfree] at hperm
    exact List.perm_middle.trans hperm

/-- INTERNAL: the return of an object on loan keeps the accounts. -/
theorem takeBack [DecidableEq α] (h : Accounts all s) {x : α} (hx : x ∈ s.out) :
    Accounts all (s.takeBack x) := by
  refine ⟨h.nodup, ?_⟩
  have hback : (s.takeBack x).free ++ (s.takeBack x).out = x :: (s.free ++ s.out.erase x) := rfl
  rw [hback]
  calc (x :: (s.free ++ s.out.erase x)).Perm (s.free ++ x :: s.out.erase x) := List.perm_middle.symm
    List.Perm _ (s.free ++ s.out) := (List.perm_cons_erase hx).symm.append_left s.free
    List.Perm _ all := h.perm

theorem nodup_append (h : Accounts all s) : (s.free ++ s.out).Nodup := h.perm.nodup_iff.mpr h.nodup

/-- No object is on loan twice. -/
theorem out_nodup (h : Accounts all s) : s.out.Nodup := (List.nodup_append.mp h.nodup_append).2.1

/-- An object in stock is not on loan. -/
theorem not_mem_out (h : Accounts all s) {x : α} (hx : x ∈ s.free) : x ∉ s.out :=
  fun hout => (List.nodup_append.mp h.nodup_append).2.2 x hx x hout rfl

theorem mem_all_of_free (h : Accounts all s) {x : α} (hx : x ∈ s.free) : x ∈ all :=
  h.perm.subset (List.mem_append_left _ hx)

theorem mem_all_of_out (h : Accounts all s) {x : α} (hx : x ∈ s.out) : x ∈ all :=
  h.perm.subset (List.mem_append_right _ hx)

/-- The objects in stock and on loan add up. -/
theorem length_add (h : Accounts all s) : s.free.length + s.out.length = all.length := by
  rw [← List.length_append]
  exact h.perm.length_eq

/-- INTERNAL: **what is lent was not on loan.** -/
theorem fresh (h : Accounts all s) {x : α} (hx : s.lend.1 = some x) : x ∉ s.out ∧ x ∈ all := by
  have hmem : x ∈ s.free := by
    unfold Stock.lend at hx
    cases hfree : s.free with
    | nil => simp [hfree] at hx
    | cons y free =>
      rw [hfree, Option.some.injEq] at hx
      exact hx ▸ List.mem_cons_self
  exact ⟨h.not_mem_out hmem, h.mem_all_of_free hmem⟩

/-- INTERNAL: **nothing is lent exactly when everything is on loan.** -/
theorem lend_none_iff (h : Accounts all s) : s.lend.1 = none ↔ s.out.length = all.length := by
  have hempty : s.lend.1 = none ↔ s.free = [] := by
    unfold Stock.lend
    cases s.free <;> simp
  have hadd := h.length_add
  rw [hempty, ← List.length_eq_zero_iff]
  omega

end Accounts

end Stock

end MmEngine.Lib
