import MmEngine.Lib.DecimalOrder
import MmEngine.Model.Events
import Mathlib.Data.List.TakeWhile

/-!
# The C string routines at the FIX edge

`strtoull` reads the ids of execution reports and `snprintf("%llu")` writes the ids of
outgoing orders (src/fix/fix_app.hpp:152, 193-194, 213-214).  `strtoull` is the C
library's: it skips blanks, takes an optional sign, reads as many decimal digits as there
are, negates modulo `2 ^ 64` after a minus sign, saturates at `ULLONG_MAX` and yields `0`
when there is no digit at all.
-/

set_option autoImplicit false

namespace MmEngine.Model

/-- `s.c_str()` as a C routine reads it: up to the first NUL. -/
def cStr (t : Text) : Text := t.takeWhile fun c => c ≠ Char.ofNat 0

/-- `isspace` in the C locale. -/
def isCSpace (c : Char) : Bool :=
  c = ' ' || (9 ≤ c.toNat && c.toNat ≤ 13)

/-- The sign `strtoull` accepts, and the rest of the text. -/
def takeSign : Text → Bool × Text
  | [] => (false, [])
  | c :: rest => if c = '-' then (true, rest) else if c = '+' then (false, rest) else (false, c :: rest)

/-- `std::strtoull(text, nullptr, 10)`.
SRCLINE: src/fix/fix_app.hpp:152 -/
def strtoull (t : Text) : UInt64 :=
  let (neg, body) := takeSign ((cStr t).dropWhile isCSpace)
  let n := Nat.ofDigitChars 10 (body.takeWhile Char.isDigit) 0
  if 2 ^ 64 ≤ n then UInt64.ofNat (2 ^ 64 - 1)
  else if neg then 0 - UInt64.ofNat n else UInt64.ofNat n

/-- `snprintf(buf, 24, "%llu", id)`: the decimal digits, cut to what 24 bytes hold besides the
terminating NUL.
SRCLINE: src/fix/fix_app.hpp:193-194, 213-214 -/
def printId (id : UInt64) : Text := (Nat.toDigits 10 id.toNat).take 23

/-- `strncpy(ev.order_id, s, sizeof(ev.order_id) - 1)` into a zeroed array of 24 bytes.
SRCLINE: src/fix/fix_app.hpp:182 -/
def copyOrderId (t : Text) : Text := (cStr t).take 23

/-- INTERNAL: the decimal text of an id fits its buffer: `2 ^ 64` has twenty digits. -/
theorem printId_eq (id : UInt64) : printId id = Nat.toDigits 10 id.toNat := by
  have hlt : id.toNat < 10 ^ 20 := by
    have := id.toNat_lt
    omega
  have hlen : (Nat.toDigits 10 id.toNat).length ≤ 20 :=
    (Nat.length_toDigits_le_iff (by decide) (by decide)).mpr hlt
  unfold printId
  exact List.take_of_length_le (by omega)

theorem isDigit_of_mem_printId {id : UInt64} {c : Char} (h : c ∈ printId id) : c.isDigit = true := by
  rw [printId_eq] at h
  exact Nat.isDigit_of_mem_toDigits (by decide) (by decide) h

/-- INTERNAL: **an id survives the trip over the wire**: the text the sender prints is read
back as the id.
SRCLINE: src/fix/fix_app.hpp:152, 193-194 -/
theorem strtoull_printId (id : UInt64) : strtoull (printId id) = id := by
  have hdig : ∀ c ∈ printId id, c.isDigit = true := fun c hc => isDigit_of_mem_printId hc
  have hstr : cStr (printId id) = printId id := by
    unfold cStr
    rw [List.takeWhile_eq_self_iff]
    intro c hc
    have hlo := (Lib.toNat_of_isDigit (hdig c hc)).1
    rw [decide_eq_true_eq]
    rintro rfl
    simp at hlo
  obtain ⟨d, ds, hds⟩ : ∃ d ds, printId id = d :: ds := by
    cases hp : printId id with
    | nil =>
      rw [printId_eq] at hp
      exact absurd hp Nat.toDigits_ne_nil
    | cons d ds => exact ⟨d, ds, rfl⟩
  have hd := Lib.toNat_of_isDigit (hdig d (by simp [hds]))
  have hspace : isCSpace d = false := by
    unfold isCSpace
    simp only [Bool.or_eq_false_iff, Bool.and_eq_false_iff, decide_eq_false_iff_not]
    refine ⟨?_, Or.inr (by omega)⟩
    rintro rfl
    simp at hd
  have hdrop : (printId id).dropWhile isCSpace = printId id := by
    rw [hds, List.dropWhile_cons_of_neg (by simp [hspace])]
  have hsign : takeSign (printId id) = (false, printId id) := by
    rw [hds]
    have hminus : d ≠ '-' := by
      rintro rfl
      simp at hd
    have hplus : d ≠ '+' := by
      rintro rfl
      simp at hd
    simp only [takeSign, if_neg hminus, if_neg hplus]
  have htake : (printId id).takeWhile Char.isDigit = printId id := by
    rw [List.takeWhile_eq_self_iff]
    exact hdig
  have hval : Nat.ofDigitChars 10 (printId id) 0 = id.toNat := by
    rw [printId_eq]
    exact Nat.ofDigitChars_ten_toDigits
  unfold strtoull
  rw [hstr, hdrop, hsign]
  simp only [htake, hval, Bool.false_eq_true, if_false]
  rw [if_neg (by have := id.toNat_lt; omega)]
  exact UInt64.ofNat_toNat

end MmEngine.Model
