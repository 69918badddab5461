import Mathlib.Data.List.Induction
import Mathlib.Logic.Function.Basic

/-!
# Writing to a map

A map that survives its writers: a write inserts or overwrites.  Nothing that was written is
lost exactly when no key was written with two values (`forall_kept_iff`).  Writers that come one
after the other and number their keys from zero on lie over one another (`getElem?_overlay`).
-/

set_option autoImplicit false

namespace MmEngine.Lib

variable {κ β : Type*} [DecidableEq κ]

/-- The map after the writes, in order. -/
def putAll (db : κ → Option β) (ps : List (κ × β)) : κ → Option β :=
  ps.foldl (fun db p => Function.update db p.1 (some p.2)) db

theorem putAll_append (db : κ → Option β) (ps qs : List (κ × β)) :
    putAll db (ps ++ qs) = putAll (putAll db ps) qs := List.foldl_append

/-- A key holds the value it was written with last. -/
theorem putAll_apply (db : κ → Option β) (ps : List (κ × β)) (k : κ) :
    putAll db ps k = ((ps.filter fun p => p.1 = k).getLast?.map Prod.snd).or (db k) := by
  induction ps using List.reverseRecOn with
  | nil => rfl
  | append_singleton ps p ih =>
    rw [putAll_append, List.filter_append]
    show Function.update (putAll db ps) p.1 (some p.2) k = _
    by_cases hk : p.1 = k
    · rw [List.filter_cons_of_pos (by simpa using hk), List.filter_nil, List.getLast?_concat, ← hk,
        Function.update_self]
      rfl
    · rw [List.filter_cons_of_neg (by simpa using hk), List.filter_nil, List.append_nil,
        Function.update_of_ne (Ne.symm hk), ih]

/-- What a map that was empty holds was written to it. -/
theorem mem_of_putAll {ps : List (κ × β)} {k : κ} {v : β} (h : putAll (fun _ => none) ps k = some v) :
    (k, v) ∈ ps := by
  rw [putAll_apply, Option.or_none, Option.map_eq_some_iff] at h
  obtain ⟨⟨k', v'⟩, hlast, rfl⟩ := h
  have hmem := List.mem_filter.mp (List.mem_of_getLast? hlast)
  rw [← (of_decide_eq_true hmem.2 : k' = k)]
  exact hmem.1

/-- A written key holds one of the values it was written with. -/
theorem exists_mem_of_putAll (db : κ → Option β) {ps : List (κ × β)} {p : κ × β} (hp : p ∈ ps) :
    ∃ q ∈ ps, q.1 = p.1 ∧ putAll db ps p.1 = some q.2 := by
  induction ps using List.reverseRecOn with
  | nil => exact absurd hp List.not_mem_nil
  | append_singleton ps r ih =>
    rw [putAll_append]
    show ∃ q ∈ ps ++ [r], q.1 = p.1 ∧ Function.update (putAll db ps) r.1 (some r.2) p.1 = some q.2
    by_cases hr : r.1 = p.1
    · refine ⟨r, by simp, hr, ?_⟩
      rw [hr, Function.update_self]
    · -- the last write was to another key
      have hp' : p ∈ ps := by
        rcases List.mem_append.mp hp with hp | hp
        · exact hp
        · exact absurd (congrArg Prod.fst (List.mem_singleton.mp hp)).symm hr
      obtain ⟨q, hq, hkey, hval⟩ := ih hp'
      refine ⟨q, List.mem_append_left _ hq, hkey, ?_⟩
      rw [Function.update_of_ne (Ne.symm hr), hval]

/-- **Nothing written is lost** exactly when no key was written with two values. -/
theorem forall_kept_iff (db : κ → Option β) (ps : List (κ × β)) :
    (∀ p ∈ ps, putAll db ps p.1 = some p.2) ↔ ∀ p ∈ ps, ∀ q ∈ ps, p.1 = q.1 → p.2 = q.2 := by
  constructor
  · intro h p hp q hq hkey
    have hpq : some p.2 = some q.2 := by rw [← h p hp, ← h q hq, hkey]
    exact Option.some_inj.mp hpq
  · intro h p hp
    obtain ⟨q, hq, hkey, hval⟩ := exists_mem_of_putAll db hp
    rw [hval, h q hq p hp hkey]

/-- **The last writer of a key decides**: several lists of writes, one after the other. -/
theorem foldl_putAll_apply (db : κ → Option β) (runs : List (List (κ × β))) (k : κ) :
    runs.foldl putAll db k = runs.foldl (fun old ps => (putAll (fun _ => none) ps k).or old) (db k) := by
  induction runs generalizing db with
  | nil => rfl
  | cons ps runs ih =>
    have hhead : putAll db ps k = (putAll (fun _ => none) ps k).or (db k) := by
      rw [putAll_apply, putAll_apply, Option.or_none]
    rw [List.foldl_cons, List.foldl_cons, ih, hhead]

/-- Lists laid over one another: each covers the front of those before it. -/
def overlay {α : Type*} (runs : List (List α)) : List α :=
  runs.foldl (fun old new => new ++ old.drop new.length) []

/-- A position shows the last list that reaches it. -/
theorem getElem?_overlay {α : Type*} (runs : List (List α)) (n : ℕ) :
    (overlay runs)[n]? = runs.foldl (fun old new => new[n]?.or old) none := by
  unfold overlay
  induction runs using List.reverseRecOn with
  | nil => rfl
  | append_singleton runs new ih =>
    rw [List.foldl_append, List.foldl_append, ← ih]
    show (new ++ _)[n]? = new[n]?.or _
    rcases Nat.lt_or_ge n new.length with hlt | hge
    · rw [List.getElem?_append_left hlt, List.getElem?_eq_getElem hlt]
      rfl
    · rw [List.getElem?_append_right hge, List.getElem?_drop, List.getElem?_eq_none hge,
        Nat.add_sub_cancel' hge]
      rfl

/-- What a position shows at the end stands there in one of the lists. -/
theorem exists_mem_of_foldl_or {ι α : Type*} {own : ι → Option α} {runs : List ι} {a : α}
    (h : runs.foldl (fun old r => (own r).or old) none = some a) : ∃ r ∈ runs, own r = some a := by
  induction runs using List.reverseRecOn with
  | nil => cases h
  | append_singleton runs r ih =>
    rw [List.foldl_append] at h
    change (own r).or _ = some a at h
    rcases Option.or_eq_some_iff.mp h with hown | ⟨-, hold⟩
    · exact ⟨r, List.mem_append_right _ List.mem_cons_self, hown⟩
    · obtain ⟨q, hq, hown⟩ := ih hold
      exact ⟨q, List.mem_append_left _ hq, hown⟩

/-- What is shown may be translated before or after. -/
theorem foldl_or_map {ι α γ : Type*} (own : ι → Option α) (f : α → γ) (runs : List ι) :
    runs.foldl (fun old r => ((own r).map f).or old) none =
      (runs.foldl (fun old r => (own r).or old) none).map f := by
  induction runs using List.reverseRecOn with
  | nil => rfl
  | append_singleton runs r ih =>
    rw [List.foldl_append, List.foldl_append, ih]
    show ((own r).map f).or _ = ((own r).or _).map f
    cases own r <;> rfl

/-- Two lists in the same strict order with the same elements are the same. -/
theorem eq_of_pairwise_of_mem {α : Type*} {r : α → α → Prop} (hasymm : ∀ a b, r a b → ¬ r b a)
    {l l' : List α} (hl : l.Pairwise r) (hl' : l'.Pairwise r) (hmem : ∀ a, a ∈ l ↔ a ∈ l') : l = l' := by
  have hnodup : ∀ {k : List α}, k.Pairwise r → k.Nodup := by
    intro k hk
    apply hk.imp
    rintro a b hab rfl
    exact hasymm a a hab hab
  have hperm : l.Perm l' := (List.perm_ext_iff_of_nodup (hnodup hl) (hnodup hl')).mpr hmem
  exact hperm.eq_of_pairwise (fun a b _ _ hab hba => absurd hba (hasymm a b hab)) hl hl'

end MmEngine.Lib
