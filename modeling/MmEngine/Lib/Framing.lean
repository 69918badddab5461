import Mathlib.Data.List.Infix
import Mathlib.Data.Set.Defs

/-!
# Cutting a stream into frames

`findSub` is the first place where one list starts inside another.

A reader that gets a stream in pieces asks `next` for the first frame of what it has so far, and
waits when there is none.  `FrameCode next code` says that `next` recognises the words of `code`: a
word is cut off whatever follows it, and no proper beginning of a word is taken for a frame.  Then
what the reader has of a stream of words starts with the next word or waits for the rest of it
(`FrameCode.next_of_beginning`), however the stream was cut into pieces.
-/

set_option autoImplicit false

namespace MmEngine.Lib

variable {α : Type*}

section Find

variable [DecidableEq α]

/-- The first place where `sub` starts. -/
def findSub (sub : List α) : List α → Option ℕ
  | [] => if sub.isPrefixOf [] then some 0 else none
  | c :: t => if sub.isPrefixOf (c :: t) then some 0 else (findSub sub t).map (· + 1)

variable {sub t : List α} {c : α}

theorem findSub_of_starts (h : sub <+: t) : findSub sub t = some 0 := by
  have hstarts : sub.isPrefixOf t = true := List.isPrefixOf_iff_prefix.mpr h
  cases t with
  | nil => rw [findSub, if_pos hstarts]
  | cons c t => rw [findSub, if_pos hstarts]

theorem findSub_cons (h : ¬ sub <+: c :: t) : findSub sub (c :: t) = (findSub sub t).map (· + 1) := by
  rw [findSub, if_neg]
  rwa [List.isPrefixOf_iff_prefix]

theorem findSub_nil (h : sub ≠ []) : findSub sub [] = none := by
  rw [findSub, if_neg]
  rw [List.isPrefixOf_iff_prefix]
  exact fun hstarts => h (List.prefix_nil.mp hstarts)

/-- A text that starts with none of the symbols of `x` starts after them, or not at all. -/
theorem findSub_append_of_not_mem {d : α} (x : List α) (h : d ∉ x) :
    findSub (d :: sub) (x ++ t) = (findSub (d :: sub) t).map (· + x.length) := by
  induction x with
  | nil => simp
  | cons c x ih =>
    rw [List.mem_cons, not_or] at h
    have hno : ¬ d :: sub <+: c :: (x ++ t) := fun hstarts => h.1 (List.cons_prefix_cons.mp hstarts).1
    rw [List.cons_append, findSub_cons hno, ih h.2, Option.map_map]
    rfl

/-- Then it is not found in `x` itself. -/
theorem findSub_of_not_mem {d : α} (x : List α) (h : d ∉ x) : findSub (d :: sub) x = none := by
  have hnil : findSub (d :: sub) (x ++ []) = _ := findSub_append_of_not_mem x h
  rwa [List.append_nil, findSub_nil (List.cons_ne_nil d sub)] at hnil

/-- What is found lies within the text. -/
theorem le_length_of_findSub {i : ℕ} (h : findSub sub t = some i) : i + sub.length ≤ t.length := by
  induction t generalizing i with
  | nil =>
    rw [findSub] at h
    split at h
    · next hstarts =>
      obtain rfl := Option.some.inj h
      have hnil := List.prefix_nil.mp (List.isPrefixOf_iff_prefix.mp hstarts)
      rw [hnil]
      exact le_rfl
    · cases h
  | cons c t ih =>
    by_cases hstarts : sub <+: c :: t
    · rw [findSub_of_starts hstarts] at h
      obtain rfl := Option.some.inj h
      rw [Nat.zero_add]
      exact hstarts.length_le
    · rw [findSub_cons hstarts] at h
      obtain ⟨j, hj, rfl⟩ := Option.map_eq_some_iff.mp h
      have := ih hj
      rw [List.length_cons]
      omega

/-- What is found in a text is found at the same place when the text goes on. -/
theorem findSub_append {i : ℕ} (h : findSub sub t = some i) (u : List α) : findSub sub (t ++ u) = some i := by
  induction t generalizing i with
  | nil =>
    have hlen := le_length_of_findSub h
    obtain rfl : i = 0 := by
      rw [List.length_nil] at hlen
      omega
    obtain rfl : sub = [] := List.length_eq_zero_iff.mp (by rw [List.length_nil] at hlen; omega)
    exact findSub_of_starts List.nil_prefix
  | cons c t ih =>
    by_cases hstarts : sub <+: c :: t
    · rw [findSub_of_starts hstarts] at h
      rw [← h]
      exact findSub_of_starts (hstarts.trans (List.prefix_append _ _))
    · rw [findSub_cons hstarts] at h
      obtain ⟨j, hj, rfl⟩ := Option.map_eq_some_iff.mp h
      have hno : ¬ sub <+: c :: (t ++ u) := by
        intro hlong
        -- `sub` starts later in `t`, so it is shorter than `c :: t`
        have hlen := le_length_of_findSub hj
        have hshort := List.prefix_of_prefix_length_le hlong (List.prefix_append (c :: t) u)
          (by rw [List.length_cons]; omega)
        exact hstarts hshort
      rw [List.cons_append, findSub_cons hno, ih hj]
      rfl

end Find

/-- `next` recognises the words of `code` at the front of a stream. -/
structure FrameCode (next : List α → Option (List α × List α)) (code : Set (List α)) : Prop where
  nil : next [] = none
  whole : ∀ m ∈ code, ∀ rest, next (m ++ rest) = some (m, rest)
  part : ∀ m ∈ code, ∀ p, p <+: m → p ≠ m → next p = none

namespace FrameCode

variable {next : List α → Option (List α × List α)} {code : Set (List α)}

/-- **What a reader has of a stream of words** starts with the next word, which is cut off, or with
no whole word. -/
theorem next_of_beginning (h : FrameCode next code) {ms : List (List α)} (hms : ∀ m ∈ ms, m ∈ code)
    {buf : List α} (hbuf : buf <+: ms.flatten) :
    (∃ m ms' rest, ms = m :: ms' ∧ buf = m ++ rest ∧ rest <+: ms'.flatten ∧ next buf = some (m, rest)) ∨
      (next buf = none ∧ ∀ m ms', ms = m :: ms' → ¬ m <+: buf) := by
  cases ms with
  | nil =>
    rw [List.flatten_nil, List.prefix_nil] at hbuf
    refine Or.inr ⟨hbuf ▸ h.nil, ?_⟩
    rintro m ms' heq
    cases heq
  | cons m ms =>
    have hm : m ∈ code := hms m List.mem_cons_self
    rw [List.flatten_cons] at hbuf
    by_cases hwhole : m <+: buf
    · obtain ⟨rest, rfl⟩ := hwhole
      exact Or.inl ⟨m, ms, rest, rfl, rfl, (List.prefix_append_right_inj m).mp hbuf, h.whole m hm rest⟩
    · have hpart : buf <+: m :=
        (List.prefix_or_prefix_of_prefix hbuf (List.prefix_append m _)).resolve_right hwhole
      have hne : buf ≠ m := fun heq => hwhole (heq ▸ List.prefix_rfl)
      refine Or.inr ⟨h.part m hm buf hpart hne, ?_⟩
      rintro m' ms' heq
      obtain ⟨rfl, rfl⟩ := List.cons.inj heq
      exact hwhole

end FrameCode

end MmEngine.Lib
