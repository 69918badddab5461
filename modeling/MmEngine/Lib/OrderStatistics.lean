import Mathlib.Order.Basic
import Mathlib.Data.List.Sort
import Mathlib.Data.List.GetD

/-!
# Order statistics by counting

The element of rank `t` of a list is the `t`-th of the sorted list.  A property that holds
downwards holds of that element exactly when at least `t` elements of the list have it
(`le_countP_iff`): so a loop that counts upwards finds the element without sorting.
-/

set_option autoImplicit false

namespace MmEngine.Lib

variable {α : Type*}

/-- **Rank by counting.**  In a sorted list, the element at position `t` has a downward
property exactly when more than `t` elements have it. -/
theorem lt_countP_iff [Preorder α] {l : List α} (hl : l.Pairwise (· ≤ ·)) {p : α → Bool}
    (hp : ∀ a b, a ≤ b → p b = true → p a = true) {t : ℕ} (ht : t < l.length) :
    t < l.countP p ↔ p l[t] = true := by
  have hle : ∀ i (hi : i < l.length) j (hj : j < l.length), i ≤ j → l[i] ≤ l[j] := by
    intro i hi j hj hij
    rcases Nat.lt_or_eq_of_le hij with hlt | rfl
    · exact List.pairwise_iff_getElem.mp hl i j hi hj hlt
    · exact le_refl _
  constructor
  · -- if position `t` lacks it, so does everything from there on
    intro hcount
    by_contra hno
    have hdrop : (l.drop t).countP p = 0 := by
      apply List.countP_eq_zero.mpr
      intro x hx hpx
      obtain ⟨i, hi, rfl⟩ := List.getElem_of_mem hx
      rw [List.length_drop] at hi
      rw [List.getElem_drop] at hpx
      exact hno (hp _ _ (hle t ht (t + i) (by omega) (by omega)) hpx)
    have htake : (l.take t).countP p ≤ t := by
      have := List.countP_le_length (p := p) (l := l.take t)
      rw [List.length_take] at this
      omega
    have hsplit : l.countP p = (l.take t).countP p + (l.drop t).countP p := by
      rw [← List.countP_append, List.take_append_drop]
    omega
  · -- if position `t` has it, so does everything up to it
    intro hpt
    have htake : (l.take (t + 1)).countP p = t + 1 := by
      have hall : ∀ x ∈ l.take (t + 1), p x = true := by
        intro x hx
        obtain ⟨i, hi, rfl⟩ := List.getElem_of_mem hx
        rw [List.length_take] at hi
        rw [List.getElem_take]
        exact hp _ _ (hle i (by omega) t ht (by omega)) hpt
      rw [List.countP_eq_length.mpr hall, List.length_take]
      omega
    have hsub := (List.take_sublist (t + 1) l).countP_le (p := p)
    omega

/-- The element of rank `t`, counted from one, of a list in ascending order. -/
def ranked [LE α] [DecidableLE α] [Inhabited α] (l : List α) (t : ℕ) : α :=
  (l.mergeSort fun a b => a ≤ b).getD (t - 1) default

/-- A downward property holds of the element of rank `t` exactly when at least `t` elements of
the list have it. -/
theorem le_countP_iff [LinearOrder α] [Inhabited α] {l : List α} {p : α → Bool}
    (hp : ∀ a b, a ≤ b → p b = true → p a = true) {t : ℕ} (ht : 1 ≤ t) (ht' : t ≤ l.length) :
    t ≤ l.countP p ↔ p (ranked l t) = true := by
  have hperm : (l.mergeSort fun a b => a ≤ b).Perm l := List.mergeSort_perm l _
  have hsort : (l.mergeSort fun a b => a ≤ b).Pairwise (· ≤ ·) := by
    have hord := @List.pairwise_mergeSort α (fun a b => decide (a ≤ b))
      (by simpa using fun a b c => le_trans) (by simpa using le_total) l
    simpa using hord
  have hlen : t - 1 < (l.mergeSort fun a b => a ≤ b).length := by
    rw [hperm.length_eq]
    omega
  unfold ranked
  rw [List.getD_eq_getElem _ _ hlen, ← lt_countP_iff hsort hp hlen, hperm.countP_eq]
  omega

/-- Ranks are in order. -/
theorem ranked_mono [LinearOrder α] [Inhabited α] {l : List α} {t t' : ℕ} (ht : 1 ≤ t)
    (htt : t ≤ t') (ht' : t' ≤ l.length) : ranked l t ≤ ranked l t' := by
  have hp : ∀ a b : α, a ≤ b → decide (b ≤ ranked l t') = true → decide (a ≤ ranked l t') = true := by
    intro a b hab hb
    rw [decide_eq_true_eq] at hb ⊢
    exact hab.trans hb
  have hcount := (le_countP_iff hp (by omega) ht').mpr (by simp)
  have := (le_countP_iff hp ht (htt.trans ht')).mp (by omega)
  simpa using this

/-- Elements without repetition, sorted by a key that tells them apart, increase in it. -/
theorem pairwise_lt_insertionSort {β : Type*} [LinearOrder β] {key : α → β} (hkey : Function.Injective key)
    {l : List α} (hl : l.Nodup) :
    (l.insertionSort fun a b => key a ≤ key b).Pairwise fun a b => key a < key b := by
  have : Std.Total fun a b => key a ≤ key b := ⟨fun a b => le_total _ _⟩
  have : IsTrans α fun a b => key a ≤ key b := ⟨fun _ _ _ => le_trans⟩
  have hle := List.pairwise_insertionSort (fun a b => key a ≤ key b) l
  have hne := (List.perm_insertionSort (fun a b => key a ≤ key b) l).nodup_iff.mpr hl
  exact (hle.and hne).imp fun ⟨hab, hnab⟩ => lt_of_le_of_ne hab (hkey.ne hnab)

/-- The element of a rank is one of the elements. -/
theorem ranked_mem [LinearOrder α] [Inhabited α] {l : List α} {t : ℕ} (ht : 1 ≤ t) (ht' : t ≤ l.length) :
    ranked l t ∈ l := by
  have hperm := List.mergeSort_perm l fun a b => decide (a ≤ b)
  unfold ranked
  rw [List.getD_eq_getElem _ _ (by rw [hperm.length_eq]; omega)]
  exact hperm.mem_iff.mp (List.getElem_mem _)

/-- A list that another one exceeds place by place has at least as many elements below a bound. -/
theorem countP_le_countP [LinearOrder α] {l l' : List α} (h : List.Forall₂ (· ≤ ·) l l') (c : α) :
    l'.countP (fun b => decide (b ≤ c)) ≤ l.countP fun a => decide (a ≤ c) := by
  induction h with
  | nil => exact Nat.le_refl _
  | @cons a b l l' hab _ ih =>
    rw [List.countP_cons, List.countP_cons]
    simp only [decide_eq_true_eq]
    by_cases hb : b ≤ c
    · rw [if_pos hb, if_pos (hab.trans hb)]
      omega
    · rw [if_neg hb]
      omega

/-- The element of a rank in such a list does not exceed the other's of that rank. -/
theorem ranked_le_ranked [LinearOrder α] [Inhabited α] {l l' : List α} (h : List.Forall₂ (· ≤ ·) l l')
    {t : ℕ} (ht : 1 ≤ t) (ht' : t ≤ l.length) : ranked l t ≤ ranked l' t := by
  have hp : ∀ a b : α, a ≤ b → decide (b ≤ ranked l' t) = true → decide (a ≤ ranked l' t) = true := by
    intro a b hab hb
    rw [decide_eq_true_eq] at hb ⊢
    exact hab.trans hb
  have hall := (le_countP_iff hp ht (h.length_eq ▸ ht')).mpr (by simp)
  have hcount := (le_countP_iff hp ht ht').mp (hall.trans (countP_le_countP h _))
  simpa using hcount

/-- A monotone map takes the element of a rank to the element of that rank. -/
theorem ranked_map {β : Type*} [LinearOrder α] [Inhabited α] [LinearOrder β] [Inhabited β]
    {f : α → β} (hf : Monotone f) {l : List α} {t : ℕ} (ht : 1 ≤ t) (ht' : t ≤ l.length) :
    ranked (l.map f) t = f (ranked l t) := by
  apply eq_of_forall_ge_iff
  intro c
  have hmap : t ≤ (l.map f).countP (fun b => decide (b ≤ c)) ↔
      decide (ranked (l.map f) t ≤ c) = true := by
    apply le_countP_iff _ ht (by rw [List.length_map]; exact ht')
    intro a b hab hb
    rw [decide_eq_true_eq] at hb ⊢
    exact hab.trans hb
  have hsame : t ≤ l.countP (fun a => decide (f a ≤ c)) ↔ decide (f (ranked l t) ≤ c) = true := by
    apply le_countP_iff _ ht ht'
    intro a b hab hb
    rw [decide_eq_true_eq] at hb ⊢
    exact (hf hab).trans hb
  rw [List.countP_map, decide_eq_true_eq] at hmap
  rw [decide_eq_true_eq] at hsame
  exact hmap.symm.trans hsame

end MmEngine.Lib
