import MmEngine.Interface.PersisterRules

/-!
# The keys of the store

The two kinds of keys, their lengths and their order.  A number has at most twenty digits and at
least the ten its padding gives it, so no key is cut by its buffer (`snapKey_inBuffer`,
`tradeKey_inBuffer`), and below `10 ^ 10` all numbers have ten places and the keys of one kind
are in the order of the numbers (`tradeKey_before_iff`, `snapKey_before_iff`).
-/

set_option autoImplicit false

namespace MmEngine.Interface

open MmEngine.Model MmEngine.Lib

/-- What a key is made of. -/
inductive KeyParts where
  | ob (sym : UInt32) (seq : UInt64)
  | tr (seq : UInt64)
  deriving DecidableEq

/-- SRCLINE: src/storage/lmdb_persister.hpp:54-57, 63-66 -/
def KeyParts.key : KeyParts → Text
  | .ob sym seq => snapKey sym seq
  | .tr seq => tradeKey seq

/-- INTERNAL: **different parts give different keys.** -/
theorem key_injective : Function.Injective KeyParts.key := by
  intro a b h
  cases a with
  | ob sym n =>
    cases b with
    | ob sym' m =>
      obtain ⟨rfl, rfl⟩ := snapKey_inj.mp h
      rfl
    | tr m => exact absurd h.symm (tradeKey_ne_snapKey _ _ _)
  | tr n =>
    cases b with
    | ob sym' m => exact absurd h (tradeKey_ne_snapKey _ _ _)
    | tr m =>
      obtain rfl := tradeKey_inj.mp h
      rfl

/-! ## Lengths -/

theorem length_toDigits_le {n k : ℕ} (hk : 0 < k) (hn : n < 10 ^ k) : (Nat.toDigits 10 n).length ≤ k :=
  (Nat.length_toDigits_le_iff (by decide) hk).mpr hn

theorem length_padDigits (n : UInt64) :
    (padDigits n).length = max 10 (Nat.toDigits 10 n.toNat).length := by
  unfold padDigits
  rw [List.length_append, List.length_replicate]
  omega

theorem length_padDigits_le (n : UInt64) : (padDigits n).length ≤ 20 := by
  have hlen : (Nat.toDigits 10 n.toNat).length ≤ 20 :=
    length_toDigits_le (by decide) (n.toNat_lt.trans (by decide))
  rw [length_padDigits]
  omega

theorem snapKey_inBuffer (sym : UInt32) (n : UInt64) : inBuffer 40 (snapKey sym n) = snapKey sym n := by
  have hsym : (Nat.toDigits 10 sym.toNat).length ≤ 10 :=
    length_toDigits_le (by decide) (sym.toNat_lt.trans (by decide))
  have hnum := length_padDigits_le n
  apply List.take_of_length_le
  simp only [snapKey, List.length_append, List.length_cons]
  omega

theorem tradeKey_inBuffer (n : UInt64) : inBuffer 32 (tradeKey n) = tradeKey n := by
  have hnum := length_padDigits_le n
  apply List.take_of_length_le
  simp only [tradeKey, List.length_cons]
  omega

/-! ## Order -/

theorem isDigit_of_mem_padDigits {n : UInt64} {c : Char} (hc : c ∈ padDigits n) : c.isDigit = true := by
  rcases List.mem_append.mp hc with hzero | hdigit
  · rw [(List.mem_replicate.mp hzero).2]
    rfl
  · exact Nat.isDigit_of_mem_toDigits (by decide) (by decide) hdigit

/-- INTERNAL: below `10 ^ 10` padded numbers are ordered as numbers. -/
theorem padDigits_lt_iff {n m : UInt64} (hn : n.toNat < 10 ^ 10) (hm : m.toNat < 10 ^ 10) :
    codes (padDigits n) < codes (padDigits m) ↔ n < m := by
  have hlen : ∀ k : UInt64, k.toNat < 10 ^ 10 → (padDigits k).length = 10 := by
    intro k hk
    have := length_toDigits_le (by decide) hk
    rw [length_padDigits]
    omega
  rw [codes_lt_iff_value (fun _ hc => isDigit_of_mem_padDigits hc) (fun _ hc => isDigit_of_mem_padDigits hc)
    ((hlen n hn).trans (hlen m hm).symm)]
  unfold decimalValue
  rw [ofDigitChars_padDigits, ofDigitChars_padDigits]
  exact UInt64.lt_iff_toNat_lt.symm

theorem tradeKey_before_iff {n m : UInt64} (hn : n.toNat < 10 ^ 10) (hm : m.toNat < 10 ^ 10) :
    keyBefore (tradeKey n) (tradeKey m) ↔ n < m := by
  rw [← padDigits_lt_iff hn hm]
  exact codes_append_lt_iff ['t', 'r', '|']

theorem snapKey_before_iff (sym : UInt32) {n m : UInt64} (hn : n.toNat < 10 ^ 10) (hm : m.toNat < 10 ^ 10) :
    keyBefore (snapKey sym n) (snapKey sym m) ↔ n < m := by
  have hsplit : ∀ k, snapKey sym k =
      ('o' :: 'b' :: '|' :: Nat.toDigits 10 sym.toNat ++ ['|']) ++ padDigits k := by
    intro k
    simp [snapKey]
  unfold keyBefore
  rw [hsplit, hsplit, codes_append_lt_iff, padDigits_lt_iff hn hm]

end MmEngine.Interface
