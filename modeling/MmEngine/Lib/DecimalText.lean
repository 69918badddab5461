import MmEngine.Lib.DecimalOrder
import Mathlib.Algebra.Order.Field.Rat
import Mathlib.Data.List.TakeWhile
import Mathlib.Data.Rat.Floor
import Mathlib.Tactic.Linarith
import Mathlib.Tactic.Positivity
import Mathlib.Tactic.Ring

/-!
# Numbers with a fixed count of decimal places

`fixedText k q` is what `printf` prints for `%.kf`, `k` at least one: the multiple of `10 ^ -k`
nearest to `q`, and of two that are equally near the one that ends in an even digit.  `readFixed`
reads such a text.  What is read back is that multiple (`readFixed_fixedText`), which is at most
half a unit of the last place away (`abs_nearest_sub_le`) and is `q` itself when `q` has no more
places than that (`nearest_eq_self`).
-/

set_option autoImplicit false

namespace MmEngine.Lib

/-! ## Whole numbers -/

/-- A whole number in decimal digits, with a minus sign in front of a negative one. -/
def intText : ℤ → List Char
  | .ofNat n => Nat.toDigits 10 n
  | .negSucc n => '-' :: Nat.toDigits 10 (n + 1)

/-- The number of a text of digits. -/
def readNat (t : List Char) : Option ℕ :=
  if t ≠ [] ∧ t.all Char.isDigit then some (decimalValue t) else none

/-- The number of a text of digits with or without a minus sign. -/
def readInt : List Char → Option ℤ
  | [] => none
  | c :: t => if c = '-' then (readNat t).map fun n => -(n : ℤ) else (readNat (c :: t)).map fun n => (n : ℤ)

theorem all_isDigit_toDigits (n : ℕ) : (Nat.toDigits 10 n).all Char.isDigit = true :=
  List.all_eq_true.mpr fun _ hc => Nat.isDigit_of_mem_toDigits (by decide) (by decide) hc

theorem decimalValue_toDigits (n : ℕ) : decimalValue (Nat.toDigits 10 n) = n := Nat.ofDigitChars_ten_toDigits

theorem readNat_toDigits (n : ℕ) : readNat (Nat.toDigits 10 n) = some n := by
  unfold readNat
  rw [if_pos ⟨Nat.toDigits_ne_nil, all_isDigit_toDigits n⟩, decimalValue_toDigits]

theorem toDigits_eq_cons (n : ℕ) : ∃ c t, Nat.toDigits 10 n = c :: t ∧ c ≠ '-' := by
  cases h : Nat.toDigits 10 n with
  | nil => exact absurd h Nat.toDigits_ne_nil
  | cons c t =>
    refine ⟨c, t, rfl, ?_⟩
    rintro rfl
    have hdigit : '-'.isDigit = true :=
      Nat.isDigit_of_mem_toDigits (b := 10) (n := n) (by decide) (by decide) (h ▸ List.mem_cons_self)
    revert hdigit
    decide

/-- **A whole number is read as it was printed.** -/
theorem readInt_intText (n : ℤ) : readInt (intText n) = some n := by
  cases n with
  | ofNat n =>
    obtain ⟨c, t, heq, hc⟩ := toDigits_eq_cons n
    rw [intText, heq, readInt, if_neg hc, ← heq, readNat_toDigits]
    rfl
  | negSucc n =>
    rw [intText, readInt, if_pos rfl, readNat_toDigits]
    rfl

/-! ## Rounding -/

/-- The whole number nearest to `x`, and of two the even one. -/
def roundEven (x : ℚ) : ℤ :=
  if x - ⌊x⌋ < 1 / 2 then ⌊x⌋
  else if 1 / 2 < x - ⌊x⌋ then ⌊x⌋ + 1
  else if ⌊x⌋ % 2 = 0 then ⌊x⌋ else ⌊x⌋ + 1

theorem abs_roundEven_sub_le (x : ℚ) : |(roundEven x : ℚ) - x| ≤ 1 / 2 := by
  have hlow := Int.floor_le x
  have hhigh := Int.lt_floor_add_one x
  unfold roundEven
  rw [abs_le]
  split_ifs <;> push_cast <;> constructor <;> linarith

theorem roundEven_intCast (n : ℤ) : roundEven n = n := by
  unfold roundEven
  simp

theorem roundEven_nonneg {x : ℚ} (hx : 0 ≤ x) : 0 ≤ roundEven x := by
  have hfloor : 0 ≤ ⌊x⌋ := Int.floor_nonneg.mpr hx
  unfold roundEven
  split_ifs <;> omega

/-- How many units of the last of `k` places the absolute value is rounded to. -/
def scaled (k : ℕ) (q : ℚ) : ℕ := (roundEven (|q| * 10 ^ k)).toNat

/-- The multiple of `10 ^ -k` nearest to `q`. -/
def nearest (k : ℕ) (q : ℚ) : ℚ := (if q < 0 then -1 else 1) * (scaled k q / 10 ^ k)

theorem scaled_cast (k : ℕ) (q : ℚ) : (scaled k q : ℚ) = roundEven (|q| * 10 ^ k) := by
  have hnonneg : 0 ≤ roundEven (|q| * 10 ^ k) := roundEven_nonneg (by positivity)
  unfold scaled
  rw [← Int.cast_natCast, Int.toNat_of_nonneg hnonneg]

/-- **Rounding moves a number by at most half a unit of the last place.** -/
theorem abs_nearest_sub_le (k : ℕ) (q : ℚ) : |nearest k q - q| ≤ 1 / (2 * 10 ^ k) := by
  have hpow : (0 : ℚ) < 10 ^ k := by positivity
  have hround := abs_roundEven_sub_le (|q| * 10 ^ k)
  have hunit : abs ((scaled k q : ℚ) / 10 ^ k - |q|) ≤ 1 / (2 * 10 ^ k) := by
    rw [scaled_cast]
    have hsplit : (roundEven (|q| * 10 ^ k) : ℚ) / 10 ^ k - |q| =
        ((roundEven (|q| * 10 ^ k) : ℚ) - |q| * 10 ^ k) / 10 ^ k := by
      field_simp
    rw [hsplit, abs_div, abs_of_pos hpow, div_le_div_iff₀ hpow (by positivity)]
    nlinarith
  unfold nearest
  split
  · next hneg =>
    rw [abs_of_neg hneg] at hunit
    rw [← abs_neg]
    calc |-(-1 * ((scaled k q : ℚ) / 10 ^ k) - q)| = |(scaled k q : ℚ) / 10 ^ k - -q| := by ring_nf
      _ ≤ 1 / (2 * 10 ^ k) := hunit
  · next hpos =>
    rw [abs_of_nonneg (not_lt.mp hpos)] at hunit
    rwa [one_mul]

/-- A number with no more places than are printed is not moved. -/
theorem nearest_eq_self {k : ℕ} {q : ℚ} {n : ℤ} (h : q * 10 ^ k = n) : nearest k q = q := by
  have hpow : (10 : ℚ) ^ k ≠ 0 := by positivity
  have habs : |q| * 10 ^ k = ((|n| : ℤ) : ℚ) := by
    rw [Int.cast_abs, ← h, abs_mul, abs_of_pos (by positivity : (0 : ℚ) < 10 ^ k)]
  have hscaled : (scaled k q : ℚ) / 10 ^ k = |q| := by
    rw [scaled_cast, habs, roundEven_intCast, ← habs, mul_div_assoc, div_self hpow, mul_one]
  unfold nearest
  rw [hscaled]
  split
  · next hneg =>
    rw [abs_of_neg hneg]
    ring
  · next hpos => rw [abs_of_nonneg (not_lt.mp hpos), one_mul]

/-! ## Texts -/

/-- A number in at least `width` digits. -/
def zeroPadded (width n : ℕ) : List Char :=
  List.replicate (width - (Nat.toDigits 10 n).length) '0' ++ Nat.toDigits 10 n

/-- What `printf` prints for `%.kf`. -/
def fixedText (k : ℕ) (q : ℚ) : List Char :=
  (if q < 0 then ['-'] else []) ++ Nat.toDigits 10 (scaled k q / 10 ^ k) ++
    '.' :: zeroPadded k (scaled k q % 10 ^ k)

/-- The number of digits around a point. -/
def readPoint (t : List Char) : Option ℚ :=
  match t.dropWhile Char.isDigit with
  | '.' :: frac =>
    match readNat (t.takeWhile Char.isDigit), readNat frac with
    | some n, some m => some ((n : ℚ) + m / 10 ^ frac.length)
    | _, _ => none
  | _ => none

/-- The number of a text with a point and with or without a minus sign. -/
def readFixed : List Char → Option ℚ
  | [] => none
  | c :: t => if c = '-' then (readPoint t).map fun q => -q else readPoint (c :: t)

theorem decimalValue_zeros (j : ℕ) (t : List Char) : decimalValue (List.replicate j '0' ++ t) = decimalValue t := by
  induction j with
  | zero => rfl
  | succ j ih =>
    rw [List.replicate_succ, List.cons_append, decimalValue_cons, ih]
    simp

theorem all_isDigit_zeroPadded (k n : ℕ) : (zeroPadded k n).all Char.isDigit = true := by
  unfold zeroPadded
  rw [List.all_append, all_isDigit_toDigits, Bool.and_true, List.all_eq_true]
  intro c hc
  rw [List.eq_of_mem_replicate hc]
  decide

theorem readNat_zeroPadded (k n : ℕ) : readNat (zeroPadded k n) = some n := by
  have hne : zeroPadded k n ≠ [] := by
    unfold zeroPadded
    simp
  unfold readNat
  rw [if_pos ⟨hne, all_isDigit_zeroPadded k n⟩]
  unfold zeroPadded
  rw [decimalValue_zeros, decimalValue_toDigits]

theorem length_zeroPadded {k n : ℕ} (hk : 0 < k) (hn : n < 10 ^ k) : (zeroPadded k n).length = k := by
  have hlen : (Nat.toDigits 10 n).length ≤ k := (Nat.length_toDigits_le_iff (by decide) hk).mpr hn
  unfold zeroPadded
  rw [List.length_append, List.length_replicate]
  omega

theorem readPoint_digits {k n m : ℕ} (hk : 0 < k) (hm : m < 10 ^ k) :
    readPoint (Nat.toDigits 10 n ++ '.' :: zeroPadded k m) = some ((n : ℚ) + m / 10 ^ k) := by
  have hpoint : ¬ '.'.isDigit = true := by decide
  have hall := List.all_eq_true.mp (all_isDigit_toDigits n)
  unfold readPoint
  rw [List.dropWhile_append_of_pos hall, List.takeWhile_append_of_pos hall, List.dropWhile_cons_of_neg hpoint,
    List.takeWhile_cons_of_neg hpoint, List.append_nil]
  simp only [readNat_toDigits, readNat_zeroPadded, length_zeroPadded hk hm]

/-- **A number is read as it was rounded.** -/
theorem readFixed_fixedText {k : ℕ} (hk : 0 < k) (q : ℚ) : readFixed (fixedText k q) = some (nearest k q) := by
  have hpow : (10 : ℚ) ^ k ≠ 0 := by positivity
  have hread := readPoint_digits (n := scaled k q / 10 ^ k) hk (Nat.mod_lt (scaled k q) (by positivity))
  have hvalue : ((scaled k q / 10 ^ k : ℕ) : ℚ) + ((scaled k q % 10 ^ k : ℕ) : ℚ) / 10 ^ k =
      (scaled k q : ℚ) / 10 ^ k := by
    have hdiv := congrArg (Nat.cast (R := ℚ)) (Nat.div_add_mod (scaled k q) (10 ^ k))
    push_cast at hdiv
    rw [← hdiv]
    field_simp
  rw [hvalue] at hread
  unfold fixedText nearest
  obtain ⟨c, t, heq, hc⟩ := toDigits_eq_cons (scaled k q / 10 ^ k)
  by_cases hneg : q < 0
  · rw [if_pos hneg, if_pos hneg, List.append_assoc, List.singleton_append, readFixed, if_pos rfl, hread]
    simp
  · rw [heq, List.cons_append] at hread
    rw [if_neg hneg, if_neg hneg, List.nil_append, heq, List.cons_append, readFixed, if_neg hc, hread, one_mul]

/-- A text of digits has no point in it. -/
theorem readFixed_of_readInt {t : List Char} {n : ℤ} (h : readInt t = some n) : readFixed t = none := by
  have hpoint : ∀ {t : List Char} {n : ℕ}, readNat t = some n → readPoint t = none := by
    intro t n ht
    unfold readNat at ht
    split at ht
    · next hd =>
      unfold readPoint
      rw [List.dropWhile_eq_nil_iff.mpr (List.all_eq_true.mp hd.2)]
    · cases ht
  cases t with
  | nil => cases h
  | cons c t =>
    rw [readInt] at h
    rw [readFixed]
    split at h
    · next hc =>
      rw [if_pos hc]
      cases hn : readNat t with
      | none =>
        rw [hn] at h
        cases h
      | some k =>
        rw [hpoint hn]
        rfl
    · next hc =>
      rw [if_neg hc]
      cases hn : readNat (c :: t) with
      | none =>
        rw [hn] at h
        cases h
      | some k => exact hpoint hn

/-- What is printed has no other characters than digits, the point and the minus sign. -/
theorem mem_fixedText {k : ℕ} {q : ℚ} {c : Char} (h : c ∈ fixedText k q) :
    c.isDigit = true ∨ c = '.' ∨ c = '-' := by
  unfold fixedText at h
  rcases List.mem_append.mp h with h | h
  · rcases List.mem_append.mp h with h | h
    · split at h
      · exact Or.inr (Or.inr (List.mem_singleton.mp h))
      · simp at h
    · exact Or.inl (List.all_eq_true.mp (all_isDigit_toDigits _) c h)
  · rcases List.mem_cons.mp h with rfl | h
    · exact Or.inr (Or.inl rfl)
    · exact Or.inl (List.all_eq_true.mp (all_isDigit_zeroPadded _ _) c h)

theorem mem_intText {n : ℤ} {c : Char} (h : c ∈ intText n) : c.isDigit = true ∨ c = '-' := by
  cases n with
  | ofNat n => exact Or.inl (List.all_eq_true.mp (all_isDigit_toDigits n) c h)
  | negSucc n =>
    rcases List.mem_cons.mp h with rfl | h
    · exact Or.inr rfl
    · exact Or.inl (List.all_eq_true.mp (all_isDigit_toDigits _) c h)

end MmEngine.Lib
