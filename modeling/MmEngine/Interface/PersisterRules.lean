import MmEngine.Model.Persister
import MmEngine.Model.CString

/-!
# What the persister does

One inversion of the thread's step (`LmdbPersister.step_cases`), and from it the two facts the
analysis uses: the records pass from the rings through the transaction to the store in order
(`step_snaps`, `step_trades`), and they are numbered from zero on in every process
(`committed_inSequence`).
Different numbers give different keys (`tradeKey_inj`, `snapKey_inj`).
-/

set_option autoImplicit false

namespace MmEngine.Interface

open MmEngine.Model MmEngine.Lib

variable {S E : Type}

/-! ## Puts -/

theorem putSnaps_append (ps qs : List (Put S E)) : putSnaps (ps ++ qs) = putSnaps ps ++ putSnaps qs :=
  List.filterMap_append

theorem putTrades_append (ps qs : List (Put S E)) :
    putTrades (ps ++ qs) = putTrades ps ++ putTrades qs := List.filterMap_append

/-- The snapshots among the puts, with their numbers. -/
def snapNums (ps : List (Put S E)) : List (UInt64 × S) :=
  ps.filterMap fun
    | .snap n s => some (n, s)
    | .trade _ _ => none

/-- The fills among the puts, with their numbers. -/
def tradeNums (ps : List (Put S E)) : List (UInt64 × E) :=
  ps.filterMap fun
    | .snap _ _ => none
    | .trade n e => some (n, e)

theorem snapNums_append (ps qs : List (Put S E)) : snapNums (ps ++ qs) = snapNums ps ++ snapNums qs :=
  List.filterMap_append

theorem tradeNums_append (ps qs : List (Put S E)) :
    tradeNums (ps ++ qs) = tradeNums ps ++ tradeNums qs := List.filterMap_append

theorem map_snd_snapNums (ps : List (Put S E)) : (snapNums ps).map Prod.snd = putSnaps ps := by
  unfold snapNums putSnaps
  rw [List.map_filterMap]
  congr 1
  funext p
  cases p <;> rfl

theorem map_snd_tradeNums (ps : List (Put S E)) : (tradeNums ps).map Prod.snd = putTrades ps := by
  unfold tradeNums putTrades
  rw [List.map_filterMap]
  congr 1
  funext p
  cases p <;> rfl

theorem mem_snapNums {ps : List (Put S E)} {n : UInt64} {s : S} :
    (n, s) ∈ snapNums ps ↔ .snap n s ∈ ps := by
  unfold snapNums
  rw [List.mem_filterMap]
  constructor
  · rintro ⟨p, hp, heq⟩
    cases p with
    | snap n' s' =>
      obtain ⟨rfl, rfl⟩ := Prod.mk.inj (Option.some.inj heq)
      exact hp
    | trade n' e' => cases heq
  · exact fun hp => ⟨_, hp, rfl⟩

theorem mem_tradeNums {ps : List (Put S E)} {n : UInt64} {e : E} :
    (n, e) ∈ tradeNums ps ↔ .trade n e ∈ ps := by
  unfold tradeNums
  rw [List.mem_filterMap]
  constructor
  · rintro ⟨p, hp, heq⟩
    cases p with
    | snap n' s' => cases heq
    | trade n' e' =>
      obtain ⟨rfl, rfl⟩ := Prod.mk.inj (Option.some.inj heq)
      exact hp
  · exact fun hp => ⟨_, hp, rfl⟩

/-! ## One step of the thread -/

/-- The thread is outside the body of its loop. -/
def atCondition : PersisterAt → Bool
  | .flag | .snapSize | .tradeSize | .returned => true
  | .snaps | .trades | .commit => false

/-- INTERNAL: **what a step of the thread can be**: a test, a pop with its put, or a commit.  It
leaves the loop only on seeing the trade ring empty. -/
theorem step_cases {running : Bool} {p p' : LmdbPersister S E} {ps : List (Put S E)}
    (h : p.step running = some (p', ps)) :
    (∃ pc, p' = { p with pc := pc } ∧ ps = [] ∧ (atCondition pc = true → atCondition p.pc = true) ∧
        p.pc ≠ .returned ∧ (pc = .returned ↔ p.pc = .tradeSize ∧ p.tradeRing = [])) ∨
      (∃ s rest, p.pc = .snaps ∧ p.snapRing = s :: rest ∧ ps = [] ∧
        p' = { p with snapRing := rest, txn := p.txn ++ [.snap p.snapSeq s], snapSeq := p.snapSeq + 1 }) ∨
      (∃ e rest, p.pc = .trades ∧ p.tradeRing = e :: rest ∧ ps = [] ∧
        p' = { p with tradeRing := rest, txn := p.txn ++ [.trade p.tradeSeq e],
                      tradeSeq := p.tradeSeq + 1 }) ∨
      (p.pc = .commit ∧ ps = p.txn ∧ p' = { p with pc := .flag, txn := [] }) := by
  unfold LmdbPersister.step at h
  cases hpc : p.pc with
  | flag =>
    rw [hpc] at h
    obtain ⟨rfl, rfl⟩ := Prod.mk.inj (Option.some.inj h)
    refine Or.inl ⟨_, rfl, rfl, fun _ => rfl, by decide, ?_⟩
    cases running <;> simp
  | snapSize =>
    rw [hpc] at h
    obtain ⟨rfl, rfl⟩ := Prod.mk.inj (Option.some.inj h)
    refine Or.inl ⟨_, rfl, rfl, fun _ => rfl, by decide, ?_⟩
    cases p.snapRing <;> simp
  | tradeSize =>
    rw [hpc] at h
    obtain ⟨rfl, rfl⟩ := Prod.mk.inj (Option.some.inj h)
    refine Or.inl ⟨_, rfl, rfl, fun _ => rfl, by decide, ?_⟩
    cases p.tradeRing <;> simp
  | snaps =>
    rw [hpc] at h
    cases hring : p.snapRing with
    | nil =>
      rw [hring] at h
      obtain ⟨rfl, rfl⟩ := Prod.mk.inj (Option.some.inj h)
      exact Or.inl ⟨_, rfl, rfl, fun hc => (nomatch hc), by decide, by simp⟩
    | cons s rest =>
      rw [hring] at h
      obtain ⟨rfl, rfl⟩ := Prod.mk.inj (Option.some.inj h)
      exact Or.inr (Or.inl ⟨s, rest, rfl, rfl, rfl, rfl⟩)
  | trades =>
    rw [hpc] at h
    cases hring : p.tradeRing with
    | nil =>
      rw [hring] at h
      obtain ⟨rfl, rfl⟩ := Prod.mk.inj (Option.some.inj h)
      exact Or.inl ⟨_, rfl, rfl, fun hc => (nomatch hc), by decide, by simp⟩
    | cons e rest =>
      rw [hring] at h
      obtain ⟨rfl, rfl⟩ := Prod.mk.inj (Option.some.inj h)
      exact Or.inr (Or.inr (Or.inl ⟨e, rest, rfl, rfl, rfl, rfl⟩))
  | commit =>
    rw [hpc] at h
    obtain ⟨rfl, rfl⟩ := Prod.mk.inj (Option.some.inj h)
    exact Or.inr (Or.inr (Or.inr ⟨rfl, rfl, rfl⟩))
  | returned =>
    rw [hpc] at h
    cases h

section Step

variable {running : Bool} {p p' : LmdbPersister S E} {ps : List (Put S E)}
  (h : p.step running = some (p', ps))

include h

/-- INTERNAL: snapshots pass from the ring through the transaction to the store, in order. -/
theorem step_snaps :
    putSnaps ps ++ (putSnaps p'.txn ++ p'.snapRing) = putSnaps p.txn ++ p.snapRing := by
  obtain ⟨pc, rfl, rfl, -⟩ | ⟨s, rest, -, hring, rfl, rfl⟩ | ⟨e, rest, -, -, rfl, rfl⟩ |
    ⟨-, rfl, rfl⟩ := step_cases h
  · rfl
  · rw [hring, putSnaps_append, List.append_assoc]
    rfl
  · rw [putSnaps_append]
    simp [putSnaps]
  · rfl

theorem step_trades :
    putTrades ps ++ (putTrades p'.txn ++ p'.tradeRing) = putTrades p.txn ++ p.tradeRing := by
  obtain ⟨pc, rfl, rfl, -⟩ | ⟨s, rest, -, -, rfl, rfl⟩ | ⟨e, rest, -, hring, rfl, rfl⟩ |
    ⟨-, rfl, rfl⟩ := step_cases h
  · rfl
  · rw [putTrades_append]
    simp [putTrades]
  · rw [hring, putTrades_append, List.append_assoc]
    rfl
  · rfl

/-- INTERNAL: outside the body of the loop no transaction is open. -/
theorem step_txn_nil (hp : atCondition p.pc = true → p.txn = []) :
    atCondition p'.pc = true → p'.txn = [] := by
  obtain ⟨pc, rfl, -, hpc, -⟩ | ⟨s, rest, hat, -, -, rfl⟩ | ⟨e, rest, hat, -, -, rfl⟩ |
    ⟨-, -, rfl⟩ := step_cases h
  · exact fun hc => hp (hpc hc)
  · intro hc
    dsimp only at hc
    rw [hat] at hc
    cases hc
  · intro hc
    dsimp only at hc
    rw [hat] at hc
    cases hc
  · exact fun _ => rfl

end Step

/-! ## Numbers -/

/-- The records are numbered by their positions, modulo `2 ^ 64`. -/
def InSequence {α : Type} (l : List (UInt64 × α)) : Prop :=
  ∀ i x, l[i]? = some x → x.1 = UInt64.ofNat i

theorem InSequence.concat {α : Type} {l : List (UInt64 × α)} (hl : InSequence l) (a : α) :
    InSequence (l ++ [(UInt64.ofNat l.length, a)]) := by
  intro i x hx
  rcases Nat.lt_trichotomy i l.length with hlt | rfl | hgt
  · rw [List.getElem?_append_left hlt] at hx
    exact hl i x hx
  · rw [List.getElem?_concat_length] at hx
    rw [← Option.some.inj hx]
  · rw [List.getElem?_eq_none (by simp; omega)] at hx
    cases hx

theorem InSequence.of_append {α : Type} {l l' : List (UInt64 × α)} (h : InSequence (l ++ l')) :
    InSequence l := by
  intro i x hx
  apply h i x
  rw [List.getElem?_append_left (List.getElem?_eq_some_iff.mp hx).1]
  exact hx

/-- INTERNAL: a numbered list holds the record of a position under its number. -/
theorem InSequence.mem_of_position {α : Type} {l : List (UInt64 × α)} (hl : InSequence l) {i : ℕ} {a : α}
    (ha : (l.map Prod.snd)[i]? = some a) : (UInt64.ofNat i, a) ∈ l := by
  rw [List.getElem?_map, Option.map_eq_some_iff] at ha
  obtain ⟨⟨n, b⟩, hx, rfl⟩ := ha
  have hn : n = UInt64.ofNat i := hl i _ hx
  rw [← hn]
  exact List.mem_of_getElem? hx

/-- Committed and open puts are numbered, and the counters stand at the next numbers. -/
structure NumberedPuts (p : LmdbPersister S E) (h : List (Put S E)) : Prop where
  snaps : InSequence (snapNums (h ++ p.txn))
  snapSeq : p.snapSeq = UInt64.ofNat (snapNums (h ++ p.txn)).length
  trades : InSequence (tradeNums (h ++ p.txn))
  tradeSeq : p.tradeSeq = UInt64.ofNat (tradeNums (h ++ p.txn)).length

theorem numberedPuts_init : NumberedPuts ({} : LmdbPersister S E) [] :=
  ⟨fun i x hx => by simp [snapNums] at hx, rfl, fun i x hx => by simp [tradeNums] at hx, rfl⟩

/-- INTERNAL: the counter numbers one more record. -/
theorem InSequence.next {α : Type} {l : List (UInt64 × α)} {n : UInt64} (hl : InSequence l)
    (hn : n = UInt64.ofNat l.length) (a : α) :
    InSequence (l ++ [(n, a)]) ∧ n + 1 = UInt64.ofNat (l ++ [(n, a)]).length := by
  rw [List.length_append, hn]
  exact ⟨hl.concat a, (UInt64.ofNat_add _ 1).symm⟩

section NumberedPuts

variable {p p' : LmdbPersister S E} {h h' ps : List (Put S E)}

/-- INTERNAL: puts may be committed, and everything else may change but the counters. -/
theorem NumberedPuts.of_same (hp : NumberedPuts p h) (hputs : h' ++ p'.txn = h ++ p.txn)
    (hsnap : p'.snapSeq = p.snapSeq) (htrade : p'.tradeSeq = p.tradeSeq) : NumberedPuts p' h' := by
  refine ⟨?_, ?_, ?_, ?_⟩
  · rw [hputs]
    exact hp.snaps
  · rw [hputs, hsnap]
    exact hp.snapSeq
  · rw [hputs]
    exact hp.trades
  · rw [hputs, htrade]
    exact hp.tradeSeq

/-- INTERNAL: a step of the thread keeps the numbering. -/
theorem NumberedPuts.step {running : Bool} (hp : NumberedPuts p h)
    (hstep : p.step running = some (p', ps)) : NumberedPuts p' (h ++ ps) := by
  obtain ⟨pc, rfl, rfl, -⟩ | ⟨s, rest, -, -, rfl, rfl⟩ | ⟨e, rest, -, -, rfl, rfl⟩ |
    ⟨-, rfl, rfl⟩ := step_cases hstep
  · rw [List.append_nil]
    exact hp.of_same rfl rfl rfl
  · have hsnap : snapNums (h ++ [] ++ (p.txn ++ [.snap p.snapSeq s])) =
        snapNums (h ++ p.txn) ++ [(p.snapSeq, s)] := by
      rw [List.append_nil, ← List.append_assoc, snapNums_append]
      rfl
    have htrade : tradeNums (h ++ [] ++ (p.txn ++ [.snap p.snapSeq s])) = tradeNums (h ++ p.txn) := by
      rw [List.append_nil, ← List.append_assoc, tradeNums_append]
      simp [tradeNums]
    obtain ⟨hnums, hseq⟩ := hp.snaps.next hp.snapSeq s
    exact ⟨hsnap ▸ hnums, hsnap ▸ hseq, htrade ▸ hp.trades, htrade ▸ hp.tradeSeq⟩
  · have htrade : tradeNums (h ++ [] ++ (p.txn ++ [.trade p.tradeSeq e])) =
        tradeNums (h ++ p.txn) ++ [(p.tradeSeq, e)] := by
      rw [List.append_nil, ← List.append_assoc, tradeNums_append]
      rfl
    have hsnap : snapNums (h ++ [] ++ (p.txn ++ [.trade p.tradeSeq e])) = snapNums (h ++ p.txn) := by
      rw [List.append_nil, ← List.append_assoc, snapNums_append]
      simp [snapNums]
    obtain ⟨hnums, hseq⟩ := hp.trades.next hp.tradeSeq e
    exact ⟨hsnap ▸ hp.snaps, hsnap ▸ hp.snapSeq, htrade ▸ hnums, htrade ▸ hseq⟩
  · -- the transaction moves to the store as it is
    exact hp.of_same (List.append_nil _) rfl rfl

end NumberedPuts

/-- INTERNAL: **in every process the committed records are numbered from zero on.** -/
theorem committed_inSequence {acts : List ProcessAct} {p : Process}
    {h : List (Put Stored.BookSnapshot Stored.ExecEvent)}
    (hrun : run (recorded Process.step) ({}, []) acts = some (p, h)) :
    InSequence (snapNums h) ∧ InSequence (tradeNums h) := by
  have hinv : NumberedPuts p.db h := by
    apply run_invariant' (I := fun x : Process × List (Put Stored.BookSnapshot Stored.ExecEvent) =>
      NumberedPuts x.1.db x.2) _ numberedPuts_init hrun
    rintro ⟨q, hq⟩ act ⟨q', hq'⟩ hI hstep
    obtain ⟨ps, hact, rfl⟩ := recorded_eq_some.mp hstep
    cases act with
    | pushSnapshot s =>
      obtain ⟨rfl, rfl⟩ := Prod.mk.inj (Option.some.inj hact)
      rw [List.append_nil]
      exact hI.of_same rfl rfl rfl
    | pushTrade e =>
      obtain ⟨rfl, rfl⟩ := Prod.mk.inj (Option.some.inj hact)
      rw [List.append_nil]
      exact hI.of_same rfl rfl rfl
    | persist =>
      obtain ⟨⟨db, qs⟩, hdb, heq⟩ := Option.map_eq_some_iff.mp hact
      obtain ⟨rfl, rfl⟩ := Prod.mk.inj heq
      exact hI.step hdb
    | stop =>
      obtain ⟨rfl, rfl⟩ := Prod.mk.inj (Option.some.inj hact)
      rw [List.append_nil]
      exact hI.of_same rfl rfl rfl
  have hsnaps := hinv.snaps
  have htrades := hinv.trades
  rw [snapNums_append] at hsnaps
  rw [tradeNums_append] at htrades
  exact ⟨hsnaps.of_append, htrades.of_append⟩

/-! ## Keys -/

theorem ofDigitChars_padDigits (n : UInt64) : Nat.ofDigitChars 10 (padDigits n) 0 = n.toNat := by
  unfold padDigits
  rw [Nat.ofDigitChars_append, Nat.ofDigitChars_replicate_zero, Nat.mul_zero]
  exact Nat.ofDigitChars_ten_toDigits

theorem padDigits_inj {n m : UInt64} (h : padDigits n = padDigits m) : n = m := by
  apply UInt64.toNat_inj.mp
  rw [← ofDigitChars_padDigits n, ← ofDigitChars_padDigits m, h]

theorem tradeKey_inj {n m : UInt64} : tradeKey n = tradeKey m ↔ n = m := by
  constructor
  · intro h
    unfold tradeKey at h
    simp only [List.cons.injEq, true_and] at h
    exact padDigits_inj h
  · rintro rfl
    rfl

/-- INTERNAL: the symbol in a snapshot's key ends at the bar. -/
theorem takeWhile_digits (n : ℕ) (t : Text) :
    (Nat.toDigits 10 n ++ '|' :: t).takeWhile Char.isDigit = Nat.toDigits 10 n := by
  rw [List.takeWhile_append_of_pos fun c hc => Nat.isDigit_of_mem_toDigits (by decide) (by decide) hc]
  simp

/-- INTERNAL: different symbols or numbers of snapshots give different keys. -/
theorem snapKey_inj {sym sym' : UInt32} {n m : UInt64} :
    snapKey sym n = snapKey sym' m ↔ sym = sym' ∧ n = m := by
  constructor
  · intro h
    unfold snapKey at h
    simp only [List.cons_append, List.cons.injEq, true_and] at h
    have hdigits : Nat.toDigits 10 sym.toNat = Nat.toDigits 10 sym'.toNat := by
      rw [← takeWhile_digits sym.toNat (padDigits n), h, takeWhile_digits]
    have hsym : sym.toNat = sym'.toNat := by
      rw [← Nat.ofDigitChars_ten_toDigits (n := sym.toNat), hdigits, Nat.ofDigitChars_ten_toDigits]
    rw [hdigits] at h
    have hrest := List.append_cancel_left h
    simp only [List.cons.injEq, true_and] at hrest
    exact ⟨UInt32.toNat_inj.mp hsym, padDigits_inj hrest⟩
  · rintro ⟨rfl, rfl⟩
    rfl

theorem tradeKey_ne_snapKey (n m : UInt64) (sym : UInt32) : tradeKey n ≠ snapKey sym m := by
  unfold tradeKey snapKey
  simp

end MmEngine.Interface
