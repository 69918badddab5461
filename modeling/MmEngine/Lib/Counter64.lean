import Mathlib.Data.Nat.ModEq
import Mathlib.Tactic.Ring

/-!
# Free-running 64-bit counters

A counter that only ever advances, kept in 64 bits, is `UInt64.ofNat n` for the number
`n` of advances, however often it has wrapped.  As long as two counters are less than
`2 ^ 64` apart their difference and their equality can be read off the wrapped values,
and masking with `2 ^ k - 1` gives the position in a ring of `2 ^ k` slots.
-/

set_option autoImplicit false

namespace MmEngine.Lib

/-- The wrapped difference of two counters is their true distance. -/
theorem toNat_ofNat_sub (a b : ℕ) (hle : a ≤ b) (hlt : b - a < 2 ^ 64) :
    (UInt64.ofNat b - UInt64.ofNat a).toNat = b - a := by
  rw [UInt64.toNat_sub, UInt64.toNat_ofNat', UInt64.toNat_ofNat']
  have ha := Nat.div_add_mod a (2 ^ 64)
  have hb := Nat.div_add_mod b (2 ^ 64)
  have hra : a % 2 ^ 64 < 2 ^ 64 := Nat.mod_lt _ (by decide)
  have hrb : b % 2 ^ 64 < 2 ^ 64 := Nat.mod_lt _ (by decide)
  omega

/-- Wrapped counters that are close are equal only if the counters are. -/
theorem ofNat_eq_iff (a b : ℕ) (hle : a ≤ b) (hlt : b - a < 2 ^ 64) :
    UInt64.ofNat a = UInt64.ofNat b ↔ a = b := by
  constructor
  · intro h
    have hzero : (UInt64.ofNat b - UInt64.ofNat a).toNat = 0 := by
      rw [h, UInt64.sub_self]
      rfl
    rw [toNat_ofNat_sub a b hle hlt] at hzero
    omega
  · rintro rfl
    rfl

/-- Wrapped counters are equal exactly when the counters agree modulo `2 ^ 64`. -/
theorem ofNat_eq_iff_mod {a b : ℕ} : UInt64.ofNat a = UInt64.ofNat b ↔ a % 2 ^ 64 = b % 2 ^ 64 := by
  rw [← UInt64.toNat_inj, UInt64.toNat_ofNat', UInt64.toNat_ofNat']

/-- One advance of a wrapped counter. -/
theorem ofNat_succ (a : ℕ) : UInt64.ofNat a + 1 = UInt64.ofNat (a + 1) := by
  rw [UInt64.ofNat_add]
  rfl

/-- A wrapped counter that advances for some of the elements of a list. -/
theorem foldl_count {α : Type*} (p : α → Bool) (l : List α) (n : ℕ) :
    l.foldl (fun k x => if p x then k + 1 else k) (UInt64.ofNat n) = UInt64.ofNat (n + l.countP p) := by
  induction l generalizing n with
  | nil => rfl
  | cons x l ih =>
    rw [List.foldl_cons, List.countP_cons]
    by_cases hx : p x = true
    · rw [if_pos hx, if_pos hx, ofNat_succ, ih]
      congr 1
      omega
    · rw [if_neg hx, if_neg hx, ih]
      rfl

/-- The ring position of a wrapped counter is that of the counter itself. -/
theorem ofNat_and_mask (a k : ℕ) (hk : k ≤ 64) :
    (UInt64.ofNat a).toNat &&& (2 ^ k - 1) = a % 2 ^ k := by
  rw [UInt64.toNat_ofNat', Nat.and_two_pow_sub_one_eq_mod,
    Nat.mod_mod_of_dvd _ (Nat.pow_dvd_pow 2 hk)]

/-- Two counters less than a whole ring apart have different positions. -/
theorem mod_ne_of_lt (a b n : ℕ) (hlt : a < b) (hn : b - a < n) : a % n ≠ b % n := by
  intro heq
  have hdvd : n ∣ b - a := (Nat.modEq_iff_dvd' hlt.le).mp heq
  have hle := Nat.le_of_dvd (by omega) hdvd
  omega

end MmEngine.Lib
