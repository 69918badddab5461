import Mathlib.Data.List.Infix
import Mathlib.Data.Set.Insert
import Mathlib.Logic.Function.Basic

/-!
# Reading a growing log cell by cell

Items are added at the end of a log, and each of them belongs to a cell, its key.  A reader goes
through the cells and takes from each what is in it at that moment, while the log goes on growing.
What it has in the end was never in the log all at once, but it is not arbitrary either: some
selection `l` of the log, which has every item the log had when the reader started, has in each
cell exactly what the reader took (`Collected`).

`Collected.begin`, `Collected.growAll` and `Collected.take` are the three things that can happen.
-/

set_option autoImplicit false

namespace MmEngine.Lib

variable {α κ : Type*} [DecidableEq κ]

/-- What is in a cell of the log. -/
def cell (key : α → κ) (log : List α) (k : κ) : List α := log.filter fun x => key x = k

/-- Two logs with the same cells have the same items. -/
theorem perm_of_cells [DecidableEq α] {key : α → κ} {l l' : List α} (h : ∀ k, cell key l k = cell key l' k) :
    l.Perm l' := by
  rw [List.perm_iff_count]
  intro x
  have hcount : ∀ m : List α, (cell key m (key x)).count x = m.count x :=
    fun m => List.count_filter (decide_eq_true rfl)
  rw [← hcount l, ← hcount l', h]

/-- `l` is a selection of the log, with all of its beginning `start`, that agrees with what was
taken (`got`) in the cells that have been read, and with the log in all others. -/
structure Collected (key : α → κ) (start log : List α) (seen : Set κ) (got : κ → List α)
    (l : List α) : Prop where
  start : start <+: l
  sub : l.Sublist log
  read : ∀ k ∈ seen, cell key l k = got k
  unread : ∀ k ∉ seen, cell key l k = cell key log k

variable {key : α → κ} {start log l : List α} {seen : Set κ} {got : κ → List α}

theorem cell_append_singleton_self (log : List α) (x : α) :
    cell key (log ++ [x]) (key x) = cell key log (key x) ++ [x] := by
  simp [cell]

theorem cell_append_singleton_of_ne (log : List α) {x : α} {k : κ} (h : key x ≠ k) :
    cell key (log ++ [x]) k = cell key log k := by
  simp [cell, h]

namespace Collected

/-- Before the first cell is read, the whole log is what there is. -/
theorem begin (key : α → κ) (log : List α) (got : κ → List α) : Collected key log log ∅ got log where
  start := List.prefix_rfl
  sub := List.Sublist.refl _
  read _ hk := hk.elim
  unread _ _ := rfl

/-- The log grows by one item: an item of a cell that has been read is missed, one of another cell will be
seen. -/
theorem grow (h : Collected key start log seen got l) (x : α) :
    ∃ l', Collected key start (log ++ [x]) seen got l' := by
  by_cases hx : key x ∈ seen
  · refine ⟨l, h.start, h.sub.trans (List.sublist_append_left _ _), h.read, ?_⟩
    intro k hk
    have hne : key x ≠ k := fun heq => hk (heq ▸ hx)
    rw [h.unread k hk, cell_append_singleton_of_ne log hne]
  · refine ⟨l ++ [x], h.start.trans (List.prefix_append _ _), h.sub.append (List.Sublist.refl _), ?_, ?_⟩
    · intro k hk
      have hne : key x ≠ k := fun heq => hx (heq ▸ hk)
      rw [cell_append_singleton_of_ne l hne, h.read k hk]
    · intro k hk
      by_cases heq : key x = k
      · subst heq
        rw [cell_append_singleton_self, cell_append_singleton_self, h.unread _ hk]
      · rw [cell_append_singleton_of_ne l heq, cell_append_singleton_of_ne log heq, h.unread k hk]

/-- **The log grows.** -/
theorem growAll (h : Collected key start log seen got l) (xs : List α) :
    ∃ l', Collected key start (log ++ xs) seen got l' := by
  induction xs generalizing log l with
  | nil => exact ⟨l, by rwa [List.append_nil]⟩
  | cons x xs ih =>
    obtain ⟨l', h'⟩ := h.grow x
    rw [List.append_cons]
    exact ih h'

/-- **A cell is read.** -/
theorem take (h : Collected key start log seen got l) {k : κ} (hk : k ∉ seen) :
    Collected key start log (insert k seen) (Function.update got k (cell key log k)) l where
  start := h.start
  sub := h.sub
  read k' hk' := by
    by_cases heq : k' = k
    · subst heq
      rw [Function.update_self, h.unread _ hk]
    · rw [Function.update_of_ne heq, h.read k' (hk'.resolve_left heq)]
  unread k' hk' := h.unread k' fun hs => hk' (Set.mem_insert_of_mem k hs)

end Collected

end MmEngine.Lib
