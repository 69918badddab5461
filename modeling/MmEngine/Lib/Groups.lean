import Mathlib.Data.List.Basic

/-!
# Repeating groups

A list of fields in which certain elements begin a group: a group is such an element with what
follows it up to the next one, and what stands before the first is no part of any.  Groups written
one after the other are read as they were written (`groupsAt_flatten`), whatever is in front of them
(`groupsAt_append`).
-/

set_option autoImplicit false

namespace MmEngine.Lib

variable {α : Type*} {p : α → Bool}

/-- The groups of a list; `p` holds of the elements that begin one. -/
def groupsAt (p : α → Bool) : List α → List (List α)
  | [] => []
  | a :: l => if p a then (a :: l.takeWhile fun b => !p b) :: groupsAt p l else groupsAt p l

/-- A beginning, and nothing after it that begins. -/
def IsGroup (p : α → Bool) : List α → Prop
  | [] => False
  | a :: rest => p a = true ∧ ∀ b ∈ rest, p b = false

/-- Elements in front of the first group. -/
theorem groupsAt_append {l l' : List α} (hl : ∀ a ∈ l, p a = false) : groupsAt p (l ++ l') = groupsAt p l' := by
  induction l with
  | nil => rfl
  | cons a l ih =>
    have ha := hl a List.mem_cons_self
    rw [List.cons_append, groupsAt, if_neg (by rw [ha]; decide)]
    exact ih fun b hb => hl b (List.mem_cons_of_mem _ hb)

/-- Nothing of the next group is taken for the last one. -/
theorem takeWhile_flatten {gs : List (List α)} (hgs : ∀ g ∈ gs, IsGroup p g) :
    gs.flatten.takeWhile (fun b => !p b) = [] := by
  cases gs with
  | nil => rfl
  | cons g gs =>
    have hg := hgs g List.mem_cons_self
    cases g with
    | nil => exact hg.elim
    | cons a rest => rw [List.flatten_cons, List.cons_append, List.takeWhile_cons_of_neg (by simp [hg.1])]

/-- **Groups are read as they were written.** -/
theorem groupsAt_flatten {gs : List (List α)} (hgs : ∀ g ∈ gs, IsGroup p g) : groupsAt p gs.flatten = gs := by
  induction gs with
  | nil => rfl
  | cons g gs ih =>
    have hg := hgs g List.mem_cons_self
    have hrest : ∀ g' ∈ gs, IsGroup p g' := fun g' hg' => hgs g' (List.mem_cons_of_mem _ hg')
    cases g with
    | nil => exact hg.elim
    | cons a rest =>
      have htake : (rest ++ gs.flatten).takeWhile (fun b => !p b) = rest := by
        rw [List.takeWhile_append_of_pos (by simpa using hg.2), takeWhile_flatten hrest, List.append_nil]
      rw [List.flatten_cons, List.cons_append, groupsAt, if_pos hg.1, htake, groupsAt_append hg.2, ih hrest]

end MmEngine.Lib
