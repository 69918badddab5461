import Mathlib.Algebra.Group.Nat.Defs
import Mathlib.Data.List.Lex

/-!
# The order of decimal texts

Decimal texts of one length are ordered, character by character, as the numbers they write: the
first place where they differ decides, since what follows it is worth less than one unit of it.
-/

set_option autoImplicit false

namespace MmEngine.Lib

/-- The characters of a text as numbers. -/
def codes (t : List Char) : List ℕ := t.map Char.toNat

theorem codes_append (s t : List Char) : codes (s ++ t) = codes s ++ codes t := List.map_append

/-- Texts with the same beginning are ordered as their ends. -/
theorem codes_append_lt_iff (s : List Char) {t u : List Char} :
    codes (s ++ t) < codes (s ++ u) ↔ codes t < codes u := by
  rw [codes_append, codes_append]
  induction codes s with
  | nil => exact Iff.rfl
  | cons a as ih =>
    rw [List.cons_append, List.cons_append, List.cons_lt_cons_self]
    exact ih

/-- A text that does not begin another is before all it is before, whatever follows. -/
theorem codes_append_lt {s t : List Char} (h : codes s < codes t) (hbegins : ¬ s <+: t) (u v : List Char) :
    codes (s ++ u) < codes (t ++ v) := by
  induction s generalizing t with
  | nil => exact absurd List.nil_prefix hbegins
  | cons a s ih =>
    cases t with
    | nil => exact absurd h (List.not_lt_nil _)
    | cons b t =>
      unfold codes at h
      rw [List.map_cons, List.map_cons, List.cons_lt_cons_iff] at h
      unfold codes
      rw [List.cons_append, List.cons_append, List.map_cons, List.map_cons, List.cons_lt_cons_iff]
      obtain hlt | ⟨heq, hrest⟩ := h
      · exact Or.inl hlt
      · obtain rfl := Char.toNat_inj.mp heq
        refine Or.inr ⟨rfl, ih hrest ?_⟩
        rw [List.prefix_cons_inj] at hbegins
        exact hbegins

/-- The number of a decimal text. -/
def decimalValue (t : List Char) : ℕ := Nat.ofDigitChars 10 t 0

theorem decimalValue_cons (c : Char) (t : List Char) :
    decimalValue (c :: t) = 10 ^ t.length * (c.toNat - 48) + decimalValue t := by
  unfold decimalValue
  rw [Nat.ofDigitChars_cons, Nat.ofDigitChars_eq_ofDigitChars_zero, Nat.mul_zero, Nat.zero_add]
  rfl

theorem toNat_of_isDigit {c : Char} (hc : c.isDigit = true) : 48 ≤ c.toNat ∧ c.toNat ≤ 57 := by
  unfold Char.isDigit at hc
  simp only [Bool.and_eq_true, decide_eq_true_eq, ge_iff_le, UInt32.le_iff_toNat_le] at hc
  exact hc

/-- A decimal text of length `n` writes a number below `10 ^ n`. -/
theorem decimalValue_lt {t : List Char} (ht : ∀ c ∈ t, c.isDigit = true) : decimalValue t < 10 ^ t.length := by
  induction t with
  | nil => exact Nat.one_pos
  | cons c t ih =>
    have hdigit := toNat_of_isDigit (ht c List.mem_cons_self)
    have hrest := ih fun d hd => ht d (List.mem_cons_of_mem _ hd)
    rw [decimalValue_cons, List.length_cons, pow_succ]
    calc
      10 ^ t.length * (c.toNat - 48) + decimalValue t < 10 ^ t.length * (c.toNat - 48) + 10 ^ t.length :=
        Nat.add_lt_add_left hrest _
      _ = 10 ^ t.length * (c.toNat - 48 + 1) := by rw [Nat.mul_succ]
      _ ≤ 10 ^ t.length * 10 := Nat.mul_le_mul_left _ (by omega)

/-- The leading place decides unless it is the same. -/
theorem leading_lt_iff {b p q r s : ℕ} (hr : r < b) (hs : s < b) :
    b * p + r < b * q + s ↔ p < q ∨ p = q ∧ r < s := by
  rcases Nat.lt_trichotomy p q with hlt | rfl | hgt
  · refine iff_of_true ?_ (Or.inl hlt)
    calc
      b * p + r < b * p + b := Nat.add_lt_add_left hr _
      _ = b * (p + 1) := (Nat.mul_succ b p).symm
      _ ≤ b * q := Nat.mul_le_mul_left _ hlt
      _ ≤ b * q + s := Nat.le_add_right _ _
  · rw [Nat.add_lt_add_iff_left]
    simp
  · refine iff_of_false ?_ (by omega)
    rw [Nat.not_lt]
    calc
      b * q + s ≤ b * q + b := Nat.add_le_add_left hs.le _
      _ = b * (q + 1) := (Nat.mul_succ b q).symm
      _ ≤ b * p := Nat.mul_le_mul_left _ hgt
      _ ≤ b * p + r := Nat.le_add_right _ _

/-- **Decimal texts of one length are ordered as their numbers.** -/
theorem codes_lt_iff_value {t u : List Char} (ht : ∀ c ∈ t, c.isDigit = true)
    (hu : ∀ c ∈ u, c.isDigit = true) (hlen : t.length = u.length) :
    codes t < codes u ↔ decimalValue t < decimalValue u := by
  induction t generalizing u with
  | nil =>
    obtain rfl := List.length_eq_zero_iff.mp hlen.symm
    exact iff_of_false (List.not_lt_nil _) (Nat.lt_irrefl _)
  | cons c t ih =>
    cases u with
    | nil => cases hlen
    | cons d u =>
      have hlen' : t.length = u.length := Nat.succ.inj hlen
      have ht' : ∀ x ∈ t, x.isDigit = true := fun x hx => ht x (List.mem_cons_of_mem _ hx)
      have hu' : ∀ x ∈ u, x.isDigit = true := fun x hx => hu x (List.mem_cons_of_mem _ hx)
      have hc := toNat_of_isDigit (ht c List.mem_cons_self)
      have hd := toNat_of_isDigit (hu d List.mem_cons_self)
      have hvt := decimalValue_lt ht'
      rw [hlen'] at hvt
      rw [decimalValue_cons, decimalValue_cons, hlen', leading_lt_iff hvt (decimalValue_lt hu')]
      unfold codes
      rw [List.map_cons, List.map_cons, List.cons_lt_cons_iff]
      have htail := ih ht' hu' hlen'
      unfold codes at htail
      rw [htail]
      have hlt : c.toNat < d.toNat ↔ c.toNat - 48 < d.toNat - 48 := by omega
      have heq : c.toNat = d.toNat ↔ c.toNat - 48 = d.toNat - 48 := by omega
      rw [hlt, heq]

end MmEngine.Lib
