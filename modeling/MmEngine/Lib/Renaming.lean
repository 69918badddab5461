import Mathlib.Logic.Equiv.Basic
import Mathlib.Data.List.Nodup
import Mathlib.Data.List.Forall2

/-!
# Renamings of fresh names

A run that draws names from a shared supply is compared with another run of the same work by a
permutation of the names.  `exists_perm_map` builds it: two lists of distinct names of the same
length are related, name by name, by a permutation that leaves every other name alone.  The runs
themselves are compared entry by entry, by `List.Forall₂`.
-/

set_option autoImplicit false

namespace MmEngine.Lib

variable {α : Type*}

/-- **A renaming of one list of names into another.**  By induction: the renaming of the tails,
followed by the swap that brings the first name home. -/
theorem exists_perm_map [DecidableEq α] {a b : List α} (ha : a.Nodup) (hb : b.Nodup) (hlen : a.length = b.length) :
    ∃ ρ : Equiv.Perm α, a.map ρ = b ∧ ∀ x, x ∉ a → x ∉ b → ρ x = x := by
  induction a generalizing b with
  | nil =>
    have hnil : b = [] := List.length_eq_zero_iff.mp hlen.symm
    exact ⟨Equiv.refl α, by simp [hnil], fun _ _ _ => rfl⟩
  | cons x a ih =>
    cases b with
    | nil => cases hlen
    | cons y b =>
      obtain ⟨hxa, ha⟩ := List.nodup_cons.mp ha
      obtain ⟨hyb, hb⟩ := List.nodup_cons.mp hb
      obtain ⟨ρ, hmap, hoff⟩ := ih ha hb (Nat.succ.inj hlen)
      refine ⟨ρ.trans (Equiv.swap (ρ x) y), ?_, ?_⟩
      · have htail : ∀ z ∈ a, Equiv.swap (ρ x) y (ρ z) = ρ z := by
          intro z hz
          apply Equiv.swap_apply_of_ne_of_ne
          · intro heq
            exact hxa (ρ.injective heq ▸ hz)
          · intro heq
            apply hyb
            rw [← hmap, ← heq]
            exact List.mem_map_of_mem hz
        rw [List.map_cons]
        congr 1
        · exact Equiv.swap_apply_left (ρ x) y
        · rw [← hmap]
          exact List.map_congr_left htail
      · intro z hza hzb
        have hzx : z ≠ x := fun h => hza (h ▸ List.mem_cons_self)
        have hzy : z ≠ y := fun h => hzb (h ▸ List.mem_cons_self)
        have hz : ρ z = z := hoff z (fun h => hza (List.mem_cons_of_mem x h))
          (fun h => hzb (List.mem_cons_of_mem y h))
        show Equiv.swap (ρ x) y (ρ z) = z
        rw [hz]
        apply Equiv.swap_apply_of_ne_of_ne _ hzy
        intro heq
        exact hzx (ρ.injective (hz.trans heq))

/-- What is related to two lists in a row is two lists in a row. -/
theorem forall₂_append_left {β : Type*} {R : α → β → Prop} {a b : List α} {l : List β}
    (h : List.Forall₂ R (a ++ b) l) :
    ∃ l₁ l₂, l = l₁ ++ l₂ ∧ List.Forall₂ R a l₁ ∧ List.Forall₂ R b l₂ := by
  induction a generalizing l with
  | nil => exact ⟨[], l, rfl, List.Forall₂.nil, h⟩
  | cons x a ih =>
    obtain ⟨y, l', hxy, hl', rfl⟩ := List.forall₂_cons_left_iff.mp h
    obtain ⟨l₁, l₂, rfl, h₁, h₂⟩ := ih hl'
    exact ⟨y :: l₁, l₂, rfl, List.Forall₂.cons hxy h₁, h₂⟩

end MmEngine.Lib
