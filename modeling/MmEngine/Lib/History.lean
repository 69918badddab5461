import Mathlib.Data.List.Basic

/-!
# What lies between two events of a history

A history is a list of events, oldest first.  `Pending r h a` says that `a` occurs in
`h` and that nothing satisfying `r` has happened since.  `Separated p r h` says that
between any two events related by `p` something happened that `r` asks for of the
earlier one.  `AtEach p h` says that `p` relates what came before an event to the event.

`Separated.concat` reduces the second to the first: a history stays separated when the
event added to it is not related to anything still pending.  A component that keeps
"whatever is pending is still recorded in my state" as an invariant gets separation of
its whole history from a fact about single steps.
-/

set_option autoImplicit false

namespace MmEngine.Lib

variable {ε : Type*}

/-- `a` occurs in the history and no event after it satisfies `r`. -/
def Pending (r : ε → Prop) (h : List ε) (a : ε) : Prop :=
  ∃ earlier later, h = earlier ++ a :: later ∧ ∀ c ∈ later, ¬ r c

/-- Between any two events related by `p` lies one that `r` relates to the earlier. -/
def Separated (p r : ε → ε → Prop) (h : List ε) : Prop :=
  ∀ earlier a between b later, h = earlier ++ a :: between ++ b :: later → p a b →
    ∃ c ∈ between, r a c

theorem not_pending_nil (r : ε → Prop) (a : ε) : ¬ Pending r [] a := by
  rintro ⟨earlier, later, h, -⟩
  simp at h

/-- **Where an event of a grown history stands**: it is the new event, or it stands where it
stood before. -/
theorem concat_eq_split {h earlier later : List ε} {a b : ε}
    (heq : h ++ [b] = earlier ++ a :: later) :
    (h = earlier ∧ b = a ∧ later = []) ∨
      ∃ later', h = earlier ++ a :: later' ∧ later = later' ++ [b] := by
  rcases List.eq_nil_or_concat later with rfl | ⟨later', x, rfl⟩
  · obtain ⟨hh, hb⟩ := List.append_inj' heq rfl
    exact Or.inl ⟨hh, (List.cons.inj hb).1, rfl⟩
  · have heq' : h ++ [b] = (earlier ++ a :: later') ++ [x] := by simpa using heq
    obtain ⟨hh, hx⟩ := List.append_inj' heq' rfl
    rw [(List.cons.inj hx).1]
    exact Or.inr ⟨later', hh, List.concat_eq_append⟩

/-- Every event stands in relation to the history before it. -/
def AtEach (p : List ε → ε → Prop) (h : List ε) : Prop :=
  ∀ earlier a later, h = earlier ++ a :: later → p earlier a

theorem atEach_nil (p : List ε → ε → Prop) : AtEach p [] := by
  intro earlier a later h
  simp at h

theorem atEach_concat {p : List ε → ε → Prop} {h : List ε} {b : ε} : AtEach p (h ++ [b]) ↔ AtEach p h ∧ p h b := by
  constructor
  · intro hp
    refine ⟨?_, hp h b [] rfl⟩
    rintro earlier a later rfl
    exact hp earlier a (later ++ [b]) (by simp)
  · rintro ⟨hp, hb⟩ earlier a later heq
    rcases concat_eq_split heq with ⟨rfl, rfl, -⟩ | ⟨later', hh, -⟩
    · exact hb
    · exact hp earlier a later' hh

/-- Several events at once, each in relation to what is before it. -/
theorem atEach_append {p : List ε → ε → Prop} {h es : List ε} (hp : AtEach p h)
    (hes : ∀ before b after, es = before ++ b :: after → p (h ++ before) b) : AtEach p (h ++ es) := by
  induction es generalizing h with
  | nil =>
    rw [List.append_nil]
    exact hp
  | cons b es ih =>
    have hone : p h b := by simpa using hes [] b es rfl
    rw [List.append_cons]
    refine ih (atEach_concat.mpr ⟨hp, hone⟩) ?_
    rintro before c after rfl
    simpa using hes (b :: before) c after rfl

/-- An event is pending after one more event when it is that event, or was pending
before and the new event does not settle it. -/
theorem pending_concat (r : ε → Prop) (h : List ε) (a b : ε) :
    Pending r (h ++ [b]) a ↔ a = b ∨ (Pending r h a ∧ ¬ r b) := by
  constructor
  · rintro ⟨earlier, later, heq, hlater⟩
    rcases concat_eq_split heq with ⟨-, hba, -⟩ | ⟨later', hh, rfl⟩
    · exact Or.inl hba.symm
    · refine Or.inr ⟨⟨earlier, later', hh, ?_⟩, hlater b (by simp)⟩
      exact fun c hc => hlater c (List.mem_append_left _ hc)
  · rintro (rfl | ⟨⟨earlier, later, rfl, hlater⟩, hb⟩)
    · exact ⟨h, [], rfl, by simp⟩
    · refine ⟨earlier, later ++ [b], by simp, ?_⟩
      intro c hc
      rcases List.mem_append.mp hc with hc | hc
      · exact hlater c hc
      · rw [List.mem_singleton.mp hc]
        exact hb

theorem separated_nil (p r : ε → ε → Prop) : Separated p r [] := by
  intro earlier a between b later h
  simp at h

/-- A separated history stays separated when the new event is not related to an event
that is still pending. -/
theorem Separated.concat {p r : ε → ε → Prop} {h : List ε} {b : ε} (hs : Separated p r h)
    (hb : ∀ a, Pending (r a) h a → ¬ p a b) : Separated p r (h ++ [b]) := by
  intro earlier a between x later heq hp
  rcases concat_eq_split heq with ⟨hh, hbx, -⟩ | ⟨later', hh, -⟩
  · -- the later of the two events is the new one
    by_contra hno
    push Not at hno
    exact hb a ⟨earlier, between, hh, hno⟩ (hbx ▸ hp)
  · exact hs earlier a between x later' hh hp

/-- A part of a state that follows some of the events is what these events make of it. -/
theorem foldl_filterMap_eq {σ τ γ : Type*} {step : σ → ε → σ} (part : σ → τ) {f : ε → Option γ} {g : τ → γ → τ}
    (hstep : ∀ s a, part (step s a) = (f a).elim (part s) (g (part s))) (s : σ) (h : List ε) :
    part (h.foldl step s) = (h.filterMap f).foldl g (part s) := by
  induction h generalizing s with
  | nil => rfl
  | cons a h ih =>
    rw [List.foldl_cons, ih, hstep]
    cases hf : f a with
    | none => rw [List.filterMap_cons_none hf, Option.elim_none]
    | some b => rw [List.filterMap_cons_some hf, Option.elim_some, List.foldl_cons]

end MmEngine.Lib
