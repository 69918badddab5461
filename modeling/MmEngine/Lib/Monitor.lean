import MmEngine.Lib.Runs

/-!
# Data that a lock guards

A `Monitor` is a piece of data, and the thread that holds the lock of it with how far it has come in
its critical section.  What a section does is a function `inside`: from the data and the place in
the section, on an action, to the data and the next place, or to none when the section is left.

Whatever the other threads do in between, the sections of a run are as good as done one after the
other, in the order in which the lock was taken (`Serialized`).  `enter` and `proceed` keep that,
so a machine whose steps are these two, and others that leave the monitor alone, has it of every
run.
-/

set_option autoImplicit false

namespace MmEngine.Lib

section Monitor

variable {ι σ ℓ α : Type*}

/-- What the lock guards, and who is inside. -/
structure Monitor (ι σ ℓ : Type*) where
  data : σ
  holder : Option (ι × ℓ) := none

/-- A section: who does it, where it began, and what happened in it so far. -/
structure Section (ι ℓ α : Type*) where
  thread : ι
  start : ℓ
  acts : List α

namespace Monitor

/-- A thread takes the lock, if it is free. -/
def enter (s : Monitor ι σ ℓ) (i : ι) (start : ℓ) : Option (Monitor ι σ ℓ) :=
  match s.holder with
  | none => some { s with holder := some (i, start) }
  | some _ => none

/-- The thread that holds the lock goes on, and gives the lock back when its section is left. -/
def proceed (inside : σ → ℓ → α → Option (σ × Option ℓ)) (s : Monitor ι σ ℓ) (a : α) : Option (Monitor ι σ ℓ) :=
  match s.holder with
  | none => none
  | some (i, l) => (inside s.data l a).map fun (data, next) => { data := data, holder := next.map (i, ·) }

end Monitor

variable {inside : σ → ℓ → α → Option (σ × Option ℓ)}

/-- A part of a section: from its start, through the actions, to where it stands, or out of it. -/
inductive Goes (inside : σ → ℓ → α → Option (σ × Option ℓ)) (d : σ) (start : ℓ) : List α → σ → Option ℓ → Prop where
  | begun : Goes inside d start [] d (some start)
  | onward {acts : List α} {d' d'' : σ} {l : ℓ} {next : Option ℓ} {a : α}
    (before : Goes inside d start acts d' (some l)) (move : inside d' l a = some (d'', next)) :
    Goes inside d start (acts ++ [a]) d'' next

/-- Whole sections one after the other. -/
inductive Serial (inside : σ → ℓ → α → Option (σ × Option ℓ)) (d : σ) : List (Section ι ℓ α) → σ → Prop where
  | none : Serial inside d [] d
  | one {done : List (Section ι ℓ α)} {d' d'' : σ} {x : Section ι ℓ α} (before : Serial inside d done d')
    (whole : Goes inside d' x.start x.acts d'' none) : Serial inside d (done ++ [x]) d''

/-- The sections `done` were left, one after the other, and then so much is done of the section of the
holder. -/
inductive Serialized (inside : σ → ℓ → α → Option (σ × Option ℓ)) (d : σ) (done : List (Section ι ℓ α)) :
    Option (Section ι ℓ α) → Monitor ι σ ℓ → Prop where
  | free {d' : σ} (before : Serial inside d done d') : Serialized inside d done none { data := d' }
  | held {d' d'' : σ} {x : Section ι ℓ α} {l : ℓ} (before : Serial inside d done d')
    (part : Goes inside d' x.start x.acts d'' (some l)) :
    Serialized inside d done (some x) { data := d'', holder := some (x.thread, l) }

namespace Serialized

variable {d : σ} {done : List (Section ι ℓ α)} {opened : Option (Section ι ℓ α)} {s s' : Monitor ι σ ℓ}

theorem enter {i : ι} {start : ℓ} (h : Serialized inside d done opened s) (henter : s.enter i start = some s') :
    opened = none ∧ Serialized inside d done (some ⟨i, start, []⟩) s' := by
  cases h with
  | free before =>
    obtain rfl := Option.some.inj henter
    exact ⟨rfl, .held before .begun⟩
  | held before part => cases henter

/-- **The holder goes on**: he stays in his section, or it comes after those that were left. -/
theorem proceed {a : α} (h : Serialized inside d done opened s) (hproceed : s.proceed inside a = some s') :
    ∃ x : Section ι ℓ α, opened = some x ∧
      (s'.holder.isSome ∧ Serialized inside d done (some { x with acts := x.acts ++ [a] }) s' ∨
        s'.holder.isNone ∧ Serialized inside d (done ++ [{ x with acts := x.acts ++ [a] }]) none s') := by
  cases h with
  | free before => cases hproceed
  | @held d' d'' x l before part =>
    obtain ⟨⟨data, next⟩, hinside, rfl⟩ := Option.map_eq_some_iff.mp hproceed
    have honward := part.onward hinside
    refine ⟨x, rfl, ?_⟩
    cases next with
    | some l' => exact Or.inl ⟨rfl, .held (x := { x with acts := x.acts ++ [a] }) before honward⟩
    | none => exact Or.inr ⟨rfl, .free (before.one (x := { x with acts := x.acts ++ [a] }) honward)⟩

theorem holder_eq (h : Serialized inside d done opened s) : s.holder.map Prod.fst = opened.map Section.thread := by
  cases h <;> rfl

end Serialized

end Monitor

end MmEngine.Lib
