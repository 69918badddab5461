import Mathlib.Data.List.Forall2

/-!
# The lines of a text

A text is a list of symbols, one of which ends a line.  `linesOf` are the lines a reader gets
that asks for one line after the other until there is nothing left: the last line need not be
ended, and nothing comes after the end of the last one.
-/

set_option autoImplicit false

namespace MmEngine.Lib

variable {α : Type*} [DecidableEq α]

/-- The lines of a text, without what ends them. -/
def linesOf (sep : α) : List α → List (List α)
  | [] => []
  | c :: t =>
    if c = sep then [] :: linesOf sep t
    else match linesOf sep t with
      | [] => [[c]]
      | l :: ls => (c :: l) :: ls

/-- The text with `x` in front of every end of a line. -/
def endWith (x sep : α) (t : List α) : List α := t.flatMap fun c => if c = sep then [x, sep] else [c]

variable {sep : α}

theorem linesOf_cons_sep (t : List α) : linesOf sep (sep :: t) = [] :: linesOf sep t := by
  rw [linesOf, if_pos rfl]

/-- A symbol that ends no line is the first one of the first line. -/
theorem linesOf_cons_of_ne {c : α} (hc : c ≠ sep) (t : List α) :
    linesOf sep (c :: t) = (c :: (linesOf sep t).headD []) :: (linesOf sep t).tail := by
  rw [linesOf, if_neg hc]
  cases linesOf sep t <;> rfl

/-- The first line of a text is what stands before the first end of a line. -/
theorem linesOf_append_sep {l : List α} (hl : sep ∉ l) (t : List α) :
    linesOf sep (l ++ sep :: t) = l :: linesOf sep t := by
  induction l with
  | nil => exact linesOf_cons_sep t
  | cons c l ih =>
    have hc : c ≠ sep := fun heq => hl (heq ▸ List.mem_cons_self)
    rw [List.cons_append, linesOf_cons_of_ne hc, ih fun hmem => hl (List.mem_cons_of_mem _ hmem)]
    rfl

/-- **A text of ended lines has these lines.** -/
theorem linesOf_flatMap {β : Type*} (line : β → List α) (bs : List β) (h : ∀ b ∈ bs, sep ∉ line b) :
    linesOf sep (bs.flatMap fun b => line b ++ [sep]) = bs.map line := by
  induction bs with
  | nil => rfl
  | cons b bs ih =>
    rw [List.flatMap_cons, List.append_assoc, List.singleton_append, linesOf_append_sep (h b List.mem_cons_self),
      ih fun x hx => h x (List.mem_cons_of_mem _ hx), List.map_cons]

/-- Every line of the text gets `x` at its end, but for a last one that is not ended. -/
theorem linesOf_endWith {x : α} (hx : x ≠ sep) (t : List α) :
    List.Forall₂ (fun l l' => l' = l ∨ l' = l ++ [x]) (linesOf sep t) (linesOf sep (endWith x sep t)) := by
  induction t with
  | nil => exact List.Forall₂.nil
  | cons c t ih =>
    unfold endWith at ih ⊢
    rw [List.flatMap_cons]
    by_cases hc : c = sep
    · rw [if_pos hc, hc, linesOf_cons_sep, List.cons_append, List.singleton_append, linesOf_cons_of_ne hx,
        linesOf_cons_sep]
      exact List.Forall₂.cons (Or.inr rfl) ih
    · rw [if_neg hc, List.singleton_append, linesOf_cons_of_ne hc, linesOf_cons_of_ne hc]
      generalize linesOf sep t = ls at ih ⊢
      generalize linesOf sep (t.flatMap fun c => if c = sep then [x, sep] else [c]) = ls' at ih ⊢
      cases ih with
      | nil => exact List.Forall₂.cons (Or.inl rfl) List.Forall₂.nil
      | cons hhead htail =>
        apply List.Forall₂.cons _ htail
        rcases hhead with hsame | hmore
        · exact Or.inl (congrArg (c :: ·) hsame)
        · exact Or.inr (congrArg (c :: ·) hmore)

end MmEngine.Lib
