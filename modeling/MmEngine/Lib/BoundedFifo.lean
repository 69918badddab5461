import MmEngine.Lib.Runs

/-!
# The bounded first-in first-out queue

The specification of a queue of capacity `cap` as a machine on its contents: the events
are the answers its callers get, and an event is enabled exactly when a queue with those
contents may give that answer.  A component refines the queue when the answers it gives,
in order, are a run of this machine.
-/

set_option autoImplicit false

namespace MmEngine.Lib

variable {T : Type*}

/-- An answer of the queue to its producer or its consumer. -/
inductive FifoEvent (T : Type*) where
  | pushOk (x : T)
  | pushFull (x : T)
  | popOk (x : T)
  | popEmpty
  deriving DecidableEq

/-- The queue of capacity `cap`: an item is accepted only below capacity and refused only at
it, the oldest item leaves first, and only an empty queue reports empty. -/
def fifoStep [DecidableEq T] (cap : ℕ) (q : List T) : FifoEvent T → Option (List T)
  | .pushOk x => if q.length < cap then some (q ++ [x]) else none
  | .pushFull _ => if q.length = cap then some q else none
  | .popOk x => match q with
    | [] => none
    | y :: q => if y = x then some q else none
  | .popEmpty => if q = [] then some q else none

/-- A caller that offers an item once and lives with the answer: the contents afterwards, and
whether the item was accepted. -/
def offer [DecidableEq T] (cap : ℕ) (q : List T) (x : T) : List T × Bool :=
  match fifoStep cap q (.pushOk x) with
  | some q' => (q', true)
  | none => (q, false)

/-- The items whose push was accepted, in order. -/
def accepted : List (FifoEvent T) → List T
  | [] => []
  | .pushOk x :: h => x :: accepted h
  | _ :: h => accepted h

/-- The items handed out, in order. -/
def popped : List (FifoEvent T) → List T
  | [] => []
  | .popOk x :: h => x :: popped h
  | _ :: h => popped h

theorem accepted_append (h h' : List (FifoEvent T)) :
    accepted (h ++ h') = accepted h ++ accepted h' := by
  induction h with
  | nil => rfl
  | cons e h ih => cases e <;> simp [accepted, ih]

theorem popped_append (h h' : List (FifoEvent T)) : popped (h ++ h') = popped h ++ popped h' := by
  induction h with
  | nil => rfl
  | cons e h ih => cases e <;> simp [popped, ih]

/-- Two stretches of a queue, one after the other: what left it and what stays is what it held
and what entered, in order. -/
theorem fifo_stretches {left left' entered entered' q q' q'' : List T} (h : left ++ q' = q ++ entered)
    (h' : left' ++ q'' = q' ++ entered') : (left ++ left') ++ q'' = q ++ (entered ++ entered') := by
  calc
    (left ++ left') ++ q'' = left ++ (q' ++ entered') := by rw [List.append_assoc, h']
    _ = (q ++ entered) ++ entered' := by rw [← List.append_assoc, h]
    _ = q ++ (entered ++ entered') := List.append_assoc _ _ _

variable [DecidableEq T]

theorem offer_of_lt {cap : ℕ} {q : List T} (x : T) (h : q.length < cap) :
    offer cap q x = (q ++ [x], true) := by
  simp only [offer, fifoStep, if_pos h]

theorem offer_of_not_lt {cap : ℕ} {q : List T} (x : T) (h : ¬ q.length < cap) :
    offer cap q x = (q, false) := by
  simp only [offer, fifoStep, if_neg h]

/-- An item is accepted exactly when there is room. -/
theorem offer_accepts_iff {cap : ℕ} {q : List T} {x : T} :
    (offer cap q x).2 = true ↔ q.length < cap := by
  by_cases h : q.length < cap
  · rw [offer_of_lt x h]
    exact iff_of_true rfl h
  · rw [offer_of_not_lt x h]
    exact iff_of_false (by simp) h

/-- What the queue holds after an offer it held before, or has just accepted. -/
theorem mem_offer {cap : ℕ} {q : List T} {x y : T} (hy : y ∈ (offer cap q x).1) :
    y ∈ q ∨ y = x ∧ (offer cap q x).2 = true := by
  by_cases h : q.length < cap
  · rw [offer_of_lt x h] at hy ⊢
    rcases List.mem_append.mp hy with hy | hy
    · exact Or.inl hy
    · exact Or.inr ⟨List.mem_singleton.mp hy, rfl⟩
  · rw [offer_of_not_lt x h] at hy
    exact Or.inl hy

/-- What one answer does to the contents. -/
theorem fifoStep_eq_some {cap : ℕ} {q q' : List T} {e : FifoEvent T}
    (h : fifoStep cap q e = some q') (hcap : q.length ≤ cap) :
    q ++ accepted [e] = popped [e] ++ q' ∧ q'.length ≤ cap := by
  cases e with
  | pushOk x =>
    simp only [fifoStep] at h
    split at h
    · next hlt =>
      obtain rfl := Option.some.inj h
      refine ⟨rfl, ?_⟩
      rw [List.length_append]
      exact hlt
    · cases h
  | pushFull x =>
    simp only [fifoStep] at h
    split at h
    · obtain rfl := Option.some.inj h
      exact ⟨by simp [accepted, popped], hcap⟩
    · cases h
  | popOk x =>
    cases q with
    | nil => cases h
    | cons y q =>
      simp only [fifoStep] at h
      split at h
      · next hyx =>
        obtain rfl := Option.some.inj h
        rw [hyx]
        refine ⟨by simp [accepted, popped], ?_⟩
        rw [List.length_cons] at hcap
        omega
      · cases h
  | popEmpty =>
    simp only [fifoStep] at h
    split at h
    · obtain rfl := Option.some.inj h
      exact ⟨by simp [accepted, popped], hcap⟩
    · cases h

/-- **First in, first out.**  Along every run of the queue from empty, the accepted items are
the ones handed out followed by the ones still inside, and no more than `cap` are inside. -/
theorem fifo_run {cap : ℕ} {h : List (FifoEvent T)} {q : List T}
    (hrun : run (fifoStep cap) [] h = some q) :
    accepted h = popped h ++ q ∧ q.length ≤ cap := by
  have hgen : ∀ (h : List (FifoEvent T)) (p : List T), p.length ≤ cap →
      run (fifoStep cap) p h = some q → p ++ accepted h = popped h ++ q ∧ q.length ≤ cap := by
    intro h
    induction h with
    | nil =>
      intro p hp hr
      obtain rfl := Option.some.inj hr
      exact ⟨by simp [accepted, popped], hp⟩
    | cons e h ih =>
      intro p hp hr
      obtain ⟨r, hr1, hr2⟩ := run_cons_eq_some.mp hr
      obtain ⟨hstep, hlen⟩ := fifoStep_eq_some hr1 hp
      obtain ⟨hrest, hq⟩ := ih r hlen hr2
      have hboth := fifo_stretches hstep.symm hrest.symm
      rw [← popped_append, ← accepted_append, List.singleton_append] at hboth
      exact ⟨hboth.symm, hq⟩
  have := hgen h [] (Nat.zero_le _) hrun
  simpa using this

end MmEngine.Lib
