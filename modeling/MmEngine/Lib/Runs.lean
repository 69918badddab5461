import Mathlib.Data.Option.Basic
import Mathlib.Data.List.Basic

/-!
# Runs of a machine whose steps may be disabled

A machine is a function `step : σ → α → Option σ`: in state `s` the action `a` is
enabled when `step s a` is `some t`, and `t` is then the next state.  A run takes a list
of actions one after the other.  Whoever chooses the actions (a scheduler, an
environment) is the list, so a statement about every list of actions is a statement
about every interleaving.

`Along step G s as` says that each action of the run meets the guard `G` in the state it
is taken in.  `run_invariant` is the only induction over runs: an invariant that guarded
steps preserve holds at the end of every guarded run.

`recorded` turns a machine that reports what each step did into one whose state carries
the whole history, so that facts about histories are invariants too.
-/

set_option autoImplicit false

namespace MmEngine.Lib

section Runs

variable {σ α : Type*}

/-- The state after the actions of the list, when each of them is enabled in turn. -/
def run (step : σ → α → Option σ) : σ → List α → Option σ
  | s, [] => some s
  | s, a :: as => (step s a).bind fun t => run step t as

/-- Every action of the run is taken in a state in which `G` holds of it. -/
def Along (step : σ → α → Option σ) (G : σ → α → Prop) : σ → List α → Prop
  | _, [] => True
  | s, a :: as => G s a ∧ ∀ t, step s a = some t → Along step G t as

/-- `P` holds of every state the run goes through, the first and the last included. -/
def Throughout (step : σ → α → Option σ) (P : σ → Prop) : σ → List α → Prop
  | s, [] => P s
  | s, a :: as => P s ∧ ∀ t, step s a = some t → Throughout step P t as

variable {step : σ → α → Option σ} {G : σ → α → Prop}

@[simp] theorem run_nil (s : σ) : run step s [] = some s := rfl

theorem run_cons (s : σ) (a : α) (as : List α) :
    run step s (a :: as) = (step s a).bind fun t => run step t as := rfl

theorem run_cons_eq_some {s u : σ} {a : α} {as : List α} :
    run step s (a :: as) = some u ↔ ∃ t, step s a = some t ∧ run step t as = some u := by
  rw [run_cons]
  exact Option.bind_eq_some_iff

/-- Two runs one after the other are one run. -/
theorem run_append (s : σ) (as bs : List α) :
    run step s (as ++ bs) = (run step s as).bind fun t => run step t bs := by
  induction as generalizing s with
  | nil => rfl
  | cons a as ih =>
      rw [List.cons_append, run_cons, run_cons, Option.bind_assoc]
      congr 1
      funext t
      exact ih t

/-- **The invariant rule.**  What every guarded step preserves holds at the end of every
guarded run. -/
theorem run_invariant {I : σ → Prop}
    (hstep : ∀ s a t, I s → G s a → step s a = some t → I t)
    {s t : σ} {as : List α} (hs : I s) (hG : Along step G s as)
    (h : run step s as = some t) : I t := by
  induction as generalizing s with
  | nil =>
      rw [run_nil, Option.some.injEq] at h
      exact h ▸ hs
  | cons a as ih =>
      obtain ⟨u, hu, h⟩ := run_cons_eq_some.mp h
      exact ih (hstep s a u hs hG.1 hu) (hG.2 u hu) h

/-- A guard and a property of the actions hold together along a run. -/
theorem Along.and_mem {Q : α → Prop} {s : σ} {as : List α} (hG : Along step G s as)
    (hQ : ∀ a ∈ as, Q a) : Along step (fun s a => G s a ∧ Q a) s as := by
  induction as generalizing s with
  | nil => trivial
  | cons a as ih =>
      refine ⟨⟨hG.1, hQ a List.mem_cons_self⟩, ?_⟩
      intro t ht
      exact ih (hG.2 t ht) fun b hb => hQ b (List.mem_cons_of_mem _ hb)

/-- Every run meets the trivial guard. -/
theorem along_true (s : σ) (as : List α) : Along step (fun _ _ => True) s as := by
  induction as generalizing s with
  | nil => trivial
  | cons a as ih => exact ⟨trivial, fun t _ => ih t⟩

/-- The invariant rule for steps that need no guard. -/
theorem run_invariant' {I : σ → Prop} (hstep : ∀ s a t, I s → step s a = some t → I t)
    {s t : σ} {as : List α} (hs : I s) (h : run step s as = some t) : I t :=
  run_invariant (fun s a t hs _ h => hstep s a t hs h) hs (along_true s as) h

/-- **The exact rule.**  If, among the steps that meet the domain `D`, exactly those that
meet `G` preserve `P`, then `P` holds throughout a run of the domain exactly when the run
meets `G` at every step. -/
theorem throughout_iff_along {P : σ → Prop} {D : σ → α → Prop}
    (hstep : ∀ s a t, P s → D s a → step s a = some t → (G s a ↔ P t))
    {s u : σ} {as : List α} (hs : P s) (hD : Along step D s as) (hrun : run step s as = some u) :
    Throughout step P s as ↔ Along step G s as := by
  induction as generalizing s with
  | nil => exact iff_of_true hs trivial
  | cons a as ih =>
      obtain ⟨t, ht, hrun⟩ := run_cons_eq_some.mp hrun
      have hiff := hstep s a t hs hD.1 ht
      have hfst : ∀ {Q : σ → Prop}, (∀ t', step s a = some t' → Q t') ↔ Q t := by
        intro Q
        constructor
        · exact fun h => h t ht
        · intro h t' ht'
          rw [ht] at ht'
          exact Option.some.inj ht' ▸ h
      simp only [Throughout, Along, hfst]
      constructor
      · rintro ⟨-, h⟩
        have hPt : P t := by
          cases as with
          | nil => exact h
          | cons b bs => exact h.1
        exact ⟨hiff.mpr hPt, (ih hPt (hD.2 t ht) hrun).mp h⟩
      · rintro ⟨hG, h⟩
        exact ⟨hs, (ih (hiff.mp hG) (hD.2 t ht) hrun).mpr h⟩

/-- What no step restores from a state of the invariant `I` holds throughout a run exactly when
it holds at its end. -/
theorem throughout_iff_end_of {I P : σ → Prop} (hinv : ∀ s a t, I s → step s a = some t → I t)
    (hback : ∀ s a t, I s → step s a = some t → P t → P s)
    {s u : σ} {as : List α} (hs : I s) (hrun : run step s as = some u) :
    Throughout step P s as ↔ P u := by
  induction as generalizing s with
  | nil =>
      obtain rfl := Option.some.inj hrun
      exact Iff.rfl
  | cons a as ih =>
      obtain ⟨t, ht, hrun⟩ := run_cons_eq_some.mp hrun
      have hrest := ih (hinv s a t hs ht) hrun
      constructor
      · rintro ⟨-, h⟩
        exact hrest.mp (h t ht)
      · intro hu
        have htail := hrest.mpr hu
        have hPt : P t := by
          cases as with
          | nil => exact htail
          | cons b bs => exact htail.1
        refine ⟨hback s a t hs ht hPt, ?_⟩
        intro t' ht'
        rw [ht] at ht'
        exact Option.some.inj ht' ▸ htail

/-- What no step restores holds throughout a run exactly when it holds at its end. -/
theorem throughout_iff_end {P : σ → Prop} (hback : ∀ s a t, step s a = some t → P t → P s)
    {s u : σ} {as : List α} (hrun : run step s as = some u) : Throughout step P s as ↔ P u :=
  throughout_iff_end_of (I := fun _ => True) (fun _ _ _ _ _ => trivial)
    (fun s a t _ => hback s a t) trivial hrun

/-- An invariant that enables every guarded step and that the step preserves lets every guarded run
go through, and holds at its end. -/
theorem run_goes_through {I : σ → Prop} (hstep : ∀ s a, I s → G s a → ∃ t, step s a = some t ∧ I t)
    {s : σ} {as : List α} (hs : I s) (hG : Along step G s as) : ∃ t, run step s as = some t ∧ I t := by
  induction as generalizing s with
  | nil => exact ⟨s, rfl, hs⟩
  | cons a as ih =>
      obtain ⟨u, hu, hIu⟩ := hstep s a hs hG.1
      obtain ⟨t, ht, hIt⟩ := ih hIu (hG.2 u hu)
      exact ⟨t, run_cons_eq_some.mpr ⟨u, hu, ht⟩, hIt⟩

/-- A run whose actions are enabled in every state goes through. -/
theorem run_total {s : σ} {as : List α} (h : ∀ a ∈ as, ∀ s, ∃ t, step s a = some t) :
    ∃ t, run step s as = some t := by
  induction as generalizing s with
  | nil => exact ⟨s, rfl⟩
  | cons a as ih =>
      obtain ⟨u, hu⟩ := h a (by simp) s
      obtain ⟨t, ht⟩ := ih (s := u) (fun b hb => h b (by simp [hb]))
      exact ⟨t, run_cons_eq_some.mpr ⟨u, hu, ht⟩⟩

/-- A run that repeats one action goes through the states the action leads to in turn. -/
theorem run_replicate {a : α} (f : ℕ → σ) {n : ℕ}
    (h : ∀ k < n, step (f k) a = some (f (k + 1))) :
    run step (f 0) (List.replicate n a) = some (f n) := by
  induction n with
  | zero => rfl
  | succ n ih =>
      rw [List.replicate_succ', run_append, ih fun k hk => h k (by omega)]
      exact run_cons_eq_some.mpr ⟨f (n + 1), h n (by omega), rfl⟩

/-- A run of one machine is a run of another, when its states and actions are seen as the other's and
every step is one there. -/
theorem run_map {τ β : Type*} {step' : τ → β → Option τ} {f : σ → τ} {g : α → β}
    (h : ∀ s a t, step s a = some t → step' (f s) (g a) = some (f t)) {s t : σ} {as : List α}
    (hrun : run step s as = some t) : run step' (f s) (as.map g) = some (f t) := by
  induction as generalizing s with
  | nil =>
      obtain rfl := Option.some.inj hrun
      rfl
  | cons a as ih =>
      obtain ⟨u, hu, hrun⟩ := run_cons_eq_some.mp hrun
      exact run_cons_eq_some.mpr ⟨f u, h s a u hu, ih hrun⟩

/-- **The rule of the potential.**  When every step spends at least one unit of `μ`, and only actions
of `p` add to it, at most `k` each, then no run is longer than the potential it starts with and
what is added on the way. -/
theorem run_length_le {I : σ → Prop} (μ : σ → ℕ) (p : α → Bool) (k : ℕ)
    (hstep : ∀ s a t, I s → G s a → step s a = some t → I t ∧ μ t + 1 ≤ μ s + if p a then k else 0)
    {s t : σ} {as : List α} (hs : I s) (hG : Along step G s as) (h : run step s as = some t) :
    as.length + μ t ≤ μ s + k * as.countP p := by
  induction as generalizing s with
  | nil =>
      obtain rfl := Option.some.inj h
      simp
  | cons a as ih =>
      obtain ⟨u, hu, h⟩ := run_cons_eq_some.mp h
      obtain ⟨hI, hspent⟩ := hstep s a u hs hG.1 hu
      have hrest := ih hI (hG.2 u hu) h
      rw [List.length_cons, List.countP_cons, Nat.mul_add]
      split at hspent <;> simp_all <;> omega

end Runs

section Recorded

variable {σ α ε : Type*}

/-- The machine that also keeps everything its steps report, oldest first. -/
def recorded (step : σ → α → Option (σ × List ε)) (x : σ × List ε) (a : α) :
    Option (σ × List ε) :=
  (step x.1 a).map fun y => (y.1, x.2 ++ y.2)

theorem recorded_eq_some {step : σ → α → Option (σ × List ε)} {x y : σ × List ε} {a : α} :
    recorded step x a = some y ↔ ∃ es, step x.1 a = some (y.1, es) ∧ y.2 = x.2 ++ es := by
  unfold recorded
  rw [Option.map_eq_some_iff]
  constructor
  · rintro ⟨z, hz, rfl⟩
    exact ⟨z.2, hz, rfl⟩
  · rintro ⟨es, hes, hy⟩
    exact ⟨(y.1, es), hes, Prod.ext rfl hy.symm⟩

/-- What was recorded before a run stays in front of what the run records. -/
theorem run_recorded (step : σ → α → Option (σ × List ε)) (s : σ) (h : List ε) (as : List α) :
    run (recorded step) (s, h) as =
      (run (recorded step) (s, []) as).map fun y => (y.1, h ++ y.2) := by
  induction as generalizing s h with
  | nil => simp
  | cons a as ih =>
      rw [run_cons, run_cons]
      unfold recorded
      dsimp only
      cases step s a with
      | none => rfl
      | some y =>
          simp only [Option.map_some, Option.bind_some, List.nil_append]
          have hrest := ih y.1 (h ++ y.2)
          have hrest' := ih y.1 y.2
          unfold recorded at hrest hrest'
          rw [hrest, hrest', Option.map_map]
          congr 1
          funext z
          simp

/-- The first step of a recorded run, and the rest of it. -/
theorem run_recorded_cons {step : σ → α → Option (σ × List ε)} {s u : σ} {h : List ε} {a : α}
    {as : List α} :
    run (recorded step) (s, []) (a :: as) = some (u, h) ↔
      ∃ t es es', step s a = some (t, es) ∧ run (recorded step) (t, []) as = some (u, es') ∧
        h = es ++ es' := by
  rw [run_cons_eq_some]
  constructor
  · rintro ⟨⟨t, es⟩, ht, hrun⟩
    obtain ⟨es₀, hstep, hes⟩ := recorded_eq_some.mp ht
    rw [run_recorded, Option.map_eq_some_iff] at hrun
    obtain ⟨⟨u', es'⟩, hrun, hu⟩ := hrun
    obtain ⟨rfl, rfl⟩ := Prod.mk.inj hu
    rw [show es = es₀ from hes] at *
    exact ⟨t, es₀, es', hstep, hrun, rfl⟩
  · rintro ⟨t, es, es', hstep, hrun, rfl⟩
    refine ⟨(t, es), recorded_eq_some.mpr ⟨es, hstep, rfl⟩, ?_⟩
    rw [run_recorded, hrun]
    rfl

/-- A recorded run in two parts. -/
theorem run_recorded_append {step : σ → α → Option (σ × List ε)} {s u : σ} {h : List ε}
    {as bs : List α} :
    run (recorded step) (s, []) (as ++ bs) = some (u, h) ↔
      ∃ t es es', run (recorded step) (s, []) as = some (t, es) ∧
        run (recorded step) (t, []) bs = some (u, es') ∧ h = es ++ es' := by
  rw [run_append, Option.bind_eq_some_iff]
  constructor
  · rintro ⟨⟨t, es⟩, hfst, hsnd⟩
    rw [run_recorded, Option.map_eq_some_iff] at hsnd
    obtain ⟨⟨u', es'⟩, hsnd, hu⟩ := hsnd
    obtain ⟨rfl, rfl⟩ := Prod.mk.inj hu
    exact ⟨t, es, es', hfst, hsnd, rfl⟩
  · rintro ⟨t, es, es', hfst, hsnd, rfl⟩
    refine ⟨(t, es), hfst, ?_⟩
    rw [run_recorded, hsnd]
    rfl

end Recorded

end MmEngine.Lib
