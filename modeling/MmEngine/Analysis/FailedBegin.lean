import MmEngine.Analysis.TradeHistory

/-!
# A transaction that cannot be opened

The persister opens the transaction of a cycle for the first record it has popped
(src/storage/lmdb_persister.hpp:52-53, 60-61).  When `mdb_txn_begin` fails, `break` leaves the
loop and the record is in no ring and in no transaction.  Every other record a cycle pops is
committed, once and in the order of its ring: over any number of cycles all popped records are
committed exactly when no `mdb_txn_begin` that is called fails (`drained_once_iff`).
-/

set_option autoImplicit false

namespace MmEngine.Analysis

open MmEngine.Model MmEngine.Lib MmEngine.Interface

/-- What is seen of the records. -/
abbrev DrainHistory := List (DrainKind × (Stored.BookSnapshot ⊕ Stored.ExecEvent))

/-- The snapshots that were accepted, popped or committed, in order. -/
def drainSnaps (k : DrainKind) (h : DrainHistory) : List Stored.BookSnapshot :=
  h.filterMap fun o => if o.1 = k then o.2.getLeft? else none

/-- The fills that were accepted, popped or committed, in order. -/
def drainTrades (k : DrainKind) (h : DrainHistory) : List Stored.ExecEvent :=
  h.filterMap fun o => if o.1 = k then o.2.getRight? else none

theorem drainSnaps_append (k : DrainKind) (h h' : DrainHistory) :
    drainSnaps k (h ++ h') = drainSnaps k h ++ drainSnaps k h' := List.filterMap_append

theorem drainTrades_append (k : DrainKind) (h h' : DrainHistory) :
    drainTrades k (h ++ h') = drainTrades k h ++ drainTrades k h' := List.filterMap_append

/-- Every popped record is committed exactly once, in the order of the pops. -/
def DrainedOnce (h : DrainHistory) : Prop :=
  drainSnaps .committed h = drainSnaps .popped h ∧ drainTrades .committed h = drainTrades .popped h

/-- The pops are in ring order: first what the ring held, then what it accepted. -/
def InRingOrder (p q : Process) (h : DrainHistory) : Prop :=
  drainSnaps .popped h ++ q.db.snapRing = p.db.snapRing ++ drainSnaps .accepted h ∧
    drainTrades .popped h ++ q.db.tradeRing = p.db.tradeRing ++ drainTrades .accepted h

/-- The next step of the thread calls `mdb_txn_begin`: it pops a record with no transaction
open. -/
def callsBegin {S E : Type} (p : LmdbPersister S E) : Prop :=
  p.txn = [] ∧ (p.pc = .snaps ∧ p.snapRing ≠ [] ∨ p.pc = .trades ∧ p.tradeRing ≠ [])

/-- The step does not fail to open a transaction. -/
def BeginSucceeds (p : Process) : BeginAct → Prop
  | .persist begins => callsBegin p.db → begins = true
  | _ => True

/-! ## One step -/

/-- INTERNAL: a step that is not at a record to pop leaves the rings, opens no transaction, and
puts what it commits. -/
theorem step_of_no_pop {S E : Type} {running : Bool} {p q : LmdbPersister S E} {ps : List (Put S E)}
    (h : p.step running = some (q, ps)) (hsnaps : p.pc = .snaps → p.snapRing = [])
    (htrades : p.pc = .trades → p.tradeRing = []) :
    q.snapRing = p.snapRing ∧ q.tradeRing = p.tradeRing ∧ (p.pc ≠ .commit → ps = []) ∧ ¬ callsBegin p := by
  have hcalls : ¬ callsBegin p := by
    rintro ⟨-, ⟨hat, hne⟩ | ⟨hat, hne⟩⟩
    · exact hne (hsnaps hat)
    · exact hne (htrades hat)
  obtain ⟨pc, rfl, rfl, -⟩ | ⟨s, rest, hat, hring, -⟩ | ⟨e, rest, hat, hring, -⟩ | ⟨hat, -, rfl⟩ := step_cases h
  · exact ⟨rfl, rfl, fun _ => rfl, hcalls⟩
  · rw [hsnaps hat] at hring
    cases hring
  · rw [htrades hat] at hring
    cases hring
  · exact ⟨rfl, rfl, fun hne => absurd hat hne, hcalls⟩

/-- INTERNAL: **what a step of the thread can be** when transactions may not open: a step that
pops nothing, a pop with its put, or a pop whose record is left behind. -/
theorem stepBegin_cases {S E : Type} {begins running : Bool} {p q : LmdbPersister S E}
    {obs : List (DrainKind × (S ⊕ E))} (h : p.stepBegin begins running = some (q, obs)) :
    (∃ ps, p.step running = some (q, ps) ∧ q.snapRing = p.snapRing ∧ q.tradeRing = p.tradeRing ∧
        obs = ps.map (fun x => (.committed, x.item)) ∧ ¬ callsBegin p) ∨
      (∃ s rest, p.snapRing = s :: rest ∧ obs = [(.popped, .inl s)] ∧ (callsBegin p → begins = true) ∧
        p.pc = .snaps ∧
        q = { p with snapRing := rest, txn := p.txn ++ [.snap p.snapSeq s], snapSeq := p.snapSeq + 1 }) ∨
      (∃ e rest, p.tradeRing = e :: rest ∧ obs = [(.popped, .inr e)] ∧ (callsBegin p → begins = true) ∧
        p.pc = .trades ∧
        q = { p with tradeRing := rest, txn := p.txn ++ [.trade p.tradeSeq e],
                     tradeSeq := p.tradeSeq + 1 }) ∨
      (∃ s rest, p.snapRing = s :: rest ∧ obs = [(.popped, .inl s)] ∧ callsBegin p ∧ begins = false ∧
        q = { p with pc := .trades, snapRing := rest }) ∨
      (∃ e rest, p.tradeRing = e :: rest ∧ obs = [(.popped, .inr e)] ∧ callsBegin p ∧ begins = false ∧
        q = { p with pc := .commit, tradeRing := rest }) := by
  unfold LmdbPersister.stepBegin at h
  cases hpc : p.pc with
  | snaps =>
    rw [hpc] at h
    cases hring : p.snapRing with
    | nil =>
      rw [hring] at h
      obtain ⟨⟨q', ps⟩, hq, heq⟩ := Option.map_eq_some_iff.mp h
      obtain ⟨rfl, rfl⟩ := Prod.mk.inj heq
      obtain ⟨hsnap, htrade, hputs, hcalls⟩ := step_of_no_pop hq (fun _ => hring) (by simp [hpc])
      exact Or.inl ⟨ps, hq, hsnap.trans hring, htrade, by simp [hputs (by simp [hpc])], hcalls⟩
    | cons s rest =>
      rw [hring] at h
      dsimp only at h
      split at h
      · next hfail =>
        obtain ⟨rfl, rfl⟩ := Prod.mk.inj (Option.some.inj h)
        rw [Bool.and_eq_true, List.isEmpty_iff, Bool.not_eq_true'] at hfail
        exact Or.inr (Or.inr (Or.inr (Or.inl ⟨s, rest, rfl, rfl,
          ⟨hfail.1, Or.inl ⟨hpc, by simp [hring]⟩⟩, hfail.2, rfl⟩)))
      · next hopen =>
        simp only [LmdbPersister.step, hpc, hring, Option.map_some] at h
        obtain ⟨rfl, rfl⟩ := Prod.mk.inj (Option.some.inj h)
        refine Or.inr (Or.inl ⟨s, rest, rfl, rfl, ?_, rfl, rfl⟩)
        rintro ⟨htxn, -⟩
        simpa [htxn] using hopen
  | trades =>
    rw [hpc] at h
    cases hring : p.tradeRing with
    | nil =>
      rw [hring] at h
      obtain ⟨⟨q', ps⟩, hq, heq⟩ := Option.map_eq_some_iff.mp h
      obtain ⟨rfl, rfl⟩ := Prod.mk.inj heq
      obtain ⟨hsnap, htrade, hputs, hcalls⟩ := step_of_no_pop hq (by simp [hpc]) (fun _ => hring)
      exact Or.inl ⟨ps, hq, hsnap, htrade.trans hring, by simp [hputs (by simp [hpc])], hcalls⟩
    | cons e rest =>
      rw [hring] at h
      dsimp only at h
      split at h
      · next hfail =>
        obtain ⟨rfl, rfl⟩ := Prod.mk.inj (Option.some.inj h)
        rw [Bool.and_eq_true, List.isEmpty_iff, Bool.not_eq_true'] at hfail
        exact Or.inr (Or.inr (Or.inr (Or.inr ⟨e, rest, rfl, rfl,
          ⟨hfail.1, Or.inr ⟨hpc, by simp [hring]⟩⟩, hfail.2, rfl⟩)))
      · next hopen =>
        simp only [LmdbPersister.step, hpc, hring, Option.map_some] at h
        obtain ⟨rfl, rfl⟩ := Prod.mk.inj (Option.some.inj h)
        refine Or.inr (Or.inr (Or.inl ⟨e, rest, rfl, rfl, ?_, rfl, rfl⟩))
        rintro ⟨htxn, -⟩
        simpa [htxn] using hopen
  | flag | snapSize | tradeSize | commit | returned =>
    rw [hpc] at h
    obtain ⟨⟨q', ps⟩, hq, heq⟩ := Option.map_eq_some_iff.mp h
    obtain ⟨rfl, rfl⟩ := Prod.mk.inj heq
    obtain ⟨hsnap, htrade, -, hcalls⟩ := step_of_no_pop hq (by simp [hpc]) (by simp [hpc])
    exact Or.inl ⟨ps, hq, hsnap, htrade, rfl, hcalls⟩

/-! ## The records of a step -/

section Puts

variable (ps : Committed) (k : DrainKind)

/-- INTERNAL: the puts of a commit are committed, and neither accepted nor popped. -/
theorem filterMap_committed {β : Type} (f : Stored.BookSnapshot ⊕ Stored.ExecEvent → Option β) :
    (ps.map fun x => (DrainKind.committed, x.item)).filterMap (fun o => if o.1 = k then f o.2 else none) =
      if k = .committed then ps.filterMap fun x => f x.item else [] := by
  rw [List.filterMap_map]
  split
  · next hk =>
    congr 1
    funext x
    exact if_pos hk.symm
  · next hk =>
    apply List.filterMap_eq_nil_iff.mpr
    intro x _
    exact if_neg (Ne.symm hk)

theorem drainSnaps_committed :
    drainSnaps k (ps.map fun x => (.committed, x.item)) = if k = .committed then putSnaps ps else [] := by
  have hitem : ps.filterMap (fun x => x.item.getLeft?) = putSnaps ps := by
    unfold putSnaps
    congr 1
    funext x
    cases x <;> rfl
  unfold drainSnaps
  rw [filterMap_committed, hitem]

theorem drainTrades_committed :
    drainTrades k (ps.map fun x => (.committed, x.item)) = if k = .committed then putTrades ps else [] := by
  have hitem : ps.filterMap (fun x => x.item.getRight?) = putTrades ps := by
    unfold putTrades
    congr 1
    funext x
    cases x <;> rfl
  unfold drainTrades
  rw [filterMap_committed, hitem]

end Puts

/-- The snapshots that are committed or in the open transaction. -/
def keptSnaps (p : Process) (h : DrainHistory) : List Stored.BookSnapshot :=
  drainSnaps .committed h ++ putSnaps p.db.txn

/-- The fills that are committed or in the open transaction. -/
def keptTrades (p : Process) (h : DrainHistory) : List Stored.ExecEvent :=
  drainTrades .committed h ++ putTrades p.db.txn

/-- What a step adds to the kept records, where `xs` and `es` are what it pops. -/
def Keeps (p q : Process) (obs : DrainHistory) (xs : List Stored.BookSnapshot)
    (es : List Stored.ExecEvent) : Prop :=
  ∀ h, keptSnaps q (h ++ obs) = keptSnaps p h ++ xs ∧ keptTrades q (h ++ obs) = keptTrades p h ++ es

section Step

variable {p q : Process} {a : BeginAct} {obs : DrainHistory}

/-- INTERNAL: **what a step does to the records**: what it pops is what it keeps, or the begin
fails, one record is popped and none is kept. -/
theorem stepBegin_records (hstep : p.stepBegin a = some (q, obs)) :
    (BeginSucceeds p a ∧ Keeps p q obs (drainSnaps .popped obs) (drainTrades .popped obs)) ∨
      (¬ BeginSucceeds p a ∧ Keeps p q obs [] [] ∧
        (drainSnaps .popped obs ≠ [] ∨ drainTrades .popped obs ≠ [])) := by
  cases a with
  | pushSnapshot _ | pushTrade _ =>
    obtain ⟨rfl, rfl⟩ := Prod.mk.inj (Option.some.inj hstep)
    refine Or.inl ⟨trivial, fun h => ?_⟩
    unfold keptSnaps keptTrades
    rw [drainSnaps_append, drainTrades_append]
    split <;> simp [drainSnaps, drainTrades]
  | stop =>
    obtain ⟨rfl, rfl⟩ := Prod.mk.inj (Option.some.inj hstep)
    refine Or.inl ⟨trivial, fun h => ?_⟩
    simp [keptSnaps, keptTrades, drainSnaps, drainTrades]
  | persist begins =>
    obtain ⟨⟨db, obs'⟩, hdb, heq⟩ := Option.map_eq_some_iff.mp hstep
    obtain ⟨rfl, rfl⟩ := Prod.mk.inj heq
    obtain ⟨ps, hps, hsnap, htrade, rfl, hcalls⟩ | ⟨s, rest, -, rfl, hok, -, rfl⟩ |
      ⟨e, rest, -, rfl, hok, -, rfl⟩ | ⟨s, rest, -, rfl, hcalls, hfail, rfl⟩ |
      ⟨e, rest, -, rfl, hcalls, hfail, rfl⟩ := stepBegin_cases hdb
    · refine Or.inl ⟨fun hc => absurd hc hcalls, fun h => ?_⟩
      -- nothing leaves the rings, so the puts stay what they were
      have hsnaps := step_snaps hps
      have htrades := step_trades hps
      rw [hsnap, ← List.append_assoc, List.append_cancel_right_eq] at hsnaps
      rw [htrade, ← List.append_assoc, List.append_cancel_right_eq] at htrades
      unfold keptSnaps keptTrades
      rw [drainSnaps_append, drainTrades_append, drainSnaps_committed, drainTrades_committed,
        drainSnaps_committed, drainTrades_committed, if_pos rfl, if_pos rfl, if_neg (by decide),
        if_neg (by decide), List.append_nil, List.append_nil, List.append_assoc, List.append_assoc,
        hsnaps, htrades]
      exact ⟨rfl, rfl⟩
    · refine Or.inl ⟨hok, fun h => ?_⟩
      unfold keptSnaps keptTrades
      rw [drainSnaps_append, drainTrades_append, putSnaps_append, putTrades_append]
      simp [drainSnaps, drainTrades, putSnaps, putTrades]
    · refine Or.inl ⟨hok, fun h => ?_⟩
      unfold keptSnaps keptTrades
      rw [drainSnaps_append, drainTrades_append, putSnaps_append, putTrades_append]
      simp [drainSnaps, drainTrades, putSnaps, putTrades]
    · refine Or.inr ⟨fun hc => absurd (hc hcalls) (by simp [hfail]), fun h => ?_, Or.inl (by simp [drainSnaps])⟩
      unfold keptSnaps keptTrades
      rw [drainSnaps_append, drainTrades_append]
      simp [drainSnaps, drainTrades]
    · refine Or.inr ⟨fun hc => absurd (hc hcalls) (by simp [hfail]), fun h => ?_, Or.inr (by simp [drainTrades])⟩
      unfold keptSnaps keptTrades
      rw [drainSnaps_append, drainTrades_append]
      simp [drainSnaps, drainTrades]

/-- INTERNAL: a step takes from the front of a ring and adds at its end. -/
theorem inRingOrder_step (hstep : p.stepBegin a = some (q, obs)) : InRingOrder p q obs := by
  cases a with
  | pushSnapshot s =>
    unfold Process.stepBegin LmdbPersister.pushSnapshot at hstep
    by_cases hroom : p.db.snapRing.length < snapCap
    · simp only [offer_of_lt s hroom] at hstep
      obtain ⟨rfl, rfl⟩ := Prod.mk.inj (Option.some.inj hstep)
      exact ⟨rfl, (List.append_nil _).symm⟩
    · simp only [offer_of_not_lt s hroom] at hstep
      obtain ⟨rfl, rfl⟩ := Prod.mk.inj (Option.some.inj hstep)
      exact ⟨(List.append_nil _).symm, (List.append_nil _).symm⟩
  | pushTrade e =>
    unfold Process.stepBegin LmdbPersister.pushTrade at hstep
    by_cases hroom : p.db.tradeRing.length < tradeCap
    · simp only [offer_of_lt e hroom] at hstep
      obtain ⟨rfl, rfl⟩ := Prod.mk.inj (Option.some.inj hstep)
      exact ⟨(List.append_nil _).symm, rfl⟩
    · simp only [offer_of_not_lt e hroom] at hstep
      obtain ⟨rfl, rfl⟩ := Prod.mk.inj (Option.some.inj hstep)
      exact ⟨(List.append_nil _).symm, (List.append_nil _).symm⟩
  | stop =>
    obtain ⟨rfl, rfl⟩ := Prod.mk.inj (Option.some.inj hstep)
    exact ⟨(List.append_nil _).symm, (List.append_nil _).symm⟩
  | persist begins =>
    obtain ⟨⟨db, obs'⟩, hdb, heq⟩ := Option.map_eq_some_iff.mp hstep
    obtain ⟨rfl, rfl⟩ := Prod.mk.inj heq
    unfold InRingOrder
    obtain ⟨ps, -, hsnap, htrade, rfl, -⟩ | ⟨s, rest, hring, rfl, -, -, rfl⟩ |
      ⟨e, rest, hring, rfl, -, -, rfl⟩ | ⟨s, rest, hring, rfl, -, -, rfl⟩ |
      ⟨e, rest, hring, rfl, -, -, rfl⟩ := stepBegin_cases hdb
    · dsimp only
      rw [hsnap, htrade, drainSnaps_committed, drainTrades_committed, drainSnaps_committed,
        drainTrades_committed, if_neg (by decide), if_neg (by decide), if_neg (by decide),
        if_neg (by decide)]
      exact ⟨(List.append_nil _).symm, (List.append_nil _).symm⟩
    · exact ⟨by rw [hring]; exact (List.append_nil _).symm, (List.append_nil _).symm⟩
    · exact ⟨(List.append_nil _).symm, by rw [hring]; exact (List.append_nil _).symm⟩
    · exact ⟨by rw [hring]; exact (List.append_nil _).symm, (List.append_nil _).symm⟩
    · exact ⟨(List.append_nil _).symm, by rw [hring]; exact (List.append_nil _).symm⟩

/-- INTERNAL: outside the body of the loop no transaction is open. -/
theorem stepBegin_txn_nil (hstep : p.stepBegin a = some (q, obs))
    (hp : atCondition p.db.pc = true → p.db.txn = []) :
    atCondition q.db.pc = true → q.db.txn = [] := by
  cases a with
  | pushSnapshot s | pushTrade e | stop =>
    obtain ⟨rfl, -⟩ := Prod.mk.inj (Option.some.inj hstep)
    exact hp
  | persist begins =>
    obtain ⟨⟨db, obs'⟩, hdb, heq⟩ := Option.map_eq_some_iff.mp hstep
    obtain ⟨rfl, rfl⟩ := Prod.mk.inj heq
    obtain ⟨ps, hps, -⟩ | ⟨s, rest, -, -, -, hpc, rfl⟩ | ⟨e, rest, -, -, -, hpc, rfl⟩ |
      ⟨s, rest, -, -, -, -, rfl⟩ | ⟨e, rest, -, -, -, -, rfl⟩ := stepBegin_cases hdb
    · exact step_txn_nil hps hp
    · intro hc
      dsimp only at hc
      rw [hpc] at hc
      cases hc
    · intro hc
      dsimp only at hc
      rw [hpc] at hc
      cases hc
    · exact fun hc => (nomatch hc)
    · exact fun hc => (nomatch hc)

end Step

/-! ## Whole runs -/

/-- The kept records are among the popped ones, in order, and no transaction is open between
two cycles. -/
structure KeptInOrder (p : Process) (h : DrainHistory) : Prop where
  snaps : (keptSnaps p h).Sublist (drainSnaps .popped h)
  trades : (keptTrades p h).Sublist (drainTrades .popped h)
  txn : atCondition p.db.pc = true → p.db.txn = []

/-- Every popped record is kept. -/
def AllPoppedKept (p : Process) (h : DrainHistory) : Prop :=
  keptSnaps p h = drainSnaps .popped h ∧ keptTrades p h = drainTrades .popped h

section Step

variable {p q : Process} {a : BeginAct} {h obs : DrainHistory}
  (hstep : p.stepBegin a = some (q, obs))

include hstep

theorem KeptInOrder.step (hp : KeptInOrder p h) : KeptInOrder q (h ++ obs) := by
  have htxn := stepBegin_txn_nil hstep hp.txn
  obtain ⟨-, hkeeps⟩ | ⟨-, hkeeps, -⟩ := stepBegin_records hstep
  · refine ⟨?_, ?_, htxn⟩
    · rw [(hkeeps h).1, drainSnaps_append]
      exact hp.snaps.append (List.Sublist.refl _)
    · rw [(hkeeps h).2, drainTrades_append]
      exact hp.trades.append (List.Sublist.refl _)
  · refine ⟨?_, ?_, htxn⟩
    · rw [(hkeeps h).1, drainSnaps_append]
      exact hp.snaps.append (List.nil_sublist _)
    · rw [(hkeeps h).2, drainTrades_append]
      exact hp.trades.append (List.nil_sublist _)

/-- INTERNAL: **one step keeps what it pops exactly when its begin succeeds.** -/
theorem beginSucceeds_iff (hp : AllPoppedKept p h) :
    BeginSucceeds p a ↔ AllPoppedKept q (h ++ obs) := by
  unfold AllPoppedKept
  rw [drainSnaps_append, drainTrades_append, ← hp.1, ← hp.2]
  obtain ⟨hok, hkeeps⟩ | ⟨hfail, hkeeps, hpopped⟩ := stepBegin_records hstep
  · exact iff_of_true hok (hkeeps h)
  · refine iff_of_false hfail ?_
    rw [(hkeeps h).1, (hkeeps h).2, List.append_cancel_left_eq, List.append_cancel_left_eq]
    rintro ⟨hsnaps, htrades⟩
    rcases hpopped with hne | hne
    · exact hne hsnaps.symm
    · exact hne htrades.symm

/-- INTERNAL: a record that is not kept is not kept later. -/
theorem allPoppedKept_of_step (hp : KeptInOrder p h) (hq : AllPoppedKept q (h ++ obs)) :
    AllPoppedKept p h := by
  unfold AllPoppedKept at hq
  rw [drainSnaps_append, drainTrades_append] at hq
  obtain ⟨-, hkeeps⟩ | ⟨-, hkeeps, -⟩ := stepBegin_records hstep
  · rw [(hkeeps h).1, (hkeeps h).2, List.append_cancel_right_eq, List.append_cancel_right_eq] at hq
    exact hq
  · rw [(hkeeps h).1, (hkeeps h).2, List.append_nil, List.append_nil] at hq
    constructor
    · apply hp.snaps.eq_of_length_le
      rw [hq.1, List.length_append]
      omega
    · apply hp.trades.eq_of_length_le
      rw [hq.2, List.length_append]
      omega

end Step

/-- INTERNAL: the pops of a run are in ring order. -/
theorem inRingOrder_run {p q : Process} {acts : List BeginAct} {h : DrainHistory}
    (hrun : run (recorded Process.stepBegin) (p, []) acts = some (q, h)) : InRingOrder p q h := by
  apply run_invariant' (I := fun x : Process × DrainHistory => InRingOrder p x.1 x.2) _ _ hrun
  · rintro ⟨u, hu⟩ act ⟨v, hv⟩ ⟨hsnaps, htrades⟩ hstep
    obtain ⟨obs, hact, rfl⟩ := recorded_eq_some.mp hstep
    obtain ⟨hsnaps', htrades'⟩ := inRingOrder_step hact
    unfold InRingOrder
    rw [drainSnaps_append, drainSnaps_append, drainTrades_append, drainTrades_append]
    exact ⟨fifo_stretches hsnaps hsnaps', fifo_stretches htrades htrades'⟩
  · exact ⟨(List.append_nil _).symm, (List.append_nil _).symm⟩

/-- **Popped records are committed exactly once and in ring order exactly when no transaction
fails to open.**  For every contents of the rings, every interleaving with their producers and
every pattern of successes and failures, over any number of cycles.
SRCLINE: src/storage/lmdb_persister.hpp:47-73 -/
theorem drained_once_iff (p q : Process) (htxn : p.db.txn = [])
    (acts : List BeginAct) (h : DrainHistory)
    (hrun : run (recorded Process.stepBegin) (p, []) acts = some (q, h))
    (hend : atCondition q.db.pc = true) :
    InRingOrder p q h ∧
      (DrainedOnce h ↔
        Along (recorded Process.stepBegin) (fun x a => BeginSucceeds x.1 a) (p, []) acts) := by
  refine ⟨inRingOrder_run hrun, ?_⟩
  have hinit : KeptInOrder p [] := by
    refine ⟨?_, ?_, fun _ => htxn⟩
    · simp [keptSnaps, htxn, drainSnaps, putSnaps]
    · simp [keptTrades, htxn, drainTrades, putTrades]
  have hnone : AllPoppedKept p [] :=
    ⟨List.sublist_nil.mp hinit.snaps, List.sublist_nil.mp hinit.trades⟩
  have hinv : ∀ x a y, KeptInOrder x.1 x.2 → recorded Process.stepBegin x a = some y →
      KeptInOrder y.1 y.2 := by
    rintro ⟨u, hu⟩ act ⟨v, hv⟩ hI hstep
    obtain ⟨obs, hact, rfl⟩ := recorded_eq_some.mp hstep
    exact hI.step hact
  have hlast := run_invariant' hinv hinit hrun
  have hthroughout := throughout_iff_end_of
    (P := fun x : Process × DrainHistory => AllPoppedKept x.1 x.2) hinv (by
      rintro ⟨u, hu⟩ act ⟨v, hv⟩ hI hstep hkept
      obtain ⟨obs, hact, rfl⟩ := recorded_eq_some.mp hstep
      exact allPoppedKept_of_step hact hI hkept) hinit hrun
  have halong := throughout_iff_along (G := fun x a => BeginSucceeds x.1 a) (D := fun _ _ => True)
    (P := fun x : Process × DrainHistory => AllPoppedKept x.1 x.2) (by
      rintro ⟨u, hu⟩ act ⟨v, hv⟩ hkept - hstep
      obtain ⟨obs, hact, rfl⟩ := recorded_eq_some.mp hstep
      exact beginSucceeds_iff hact hkept) hnone (along_true _ _) hrun
  -- between two cycles everything that is kept is committed
  have hcommitted : DrainedOnce h ↔ AllPoppedKept q h := by
    unfold DrainedOnce AllPoppedKept keptSnaps keptTrades
    rw [show q.db.txn = [] from hlast.txn hend]
    simp [putSnaps, putTrades]
  rw [hcommitted, ← hthroughout, halong]

/-- A process with one fill in its ring. -/
def oneFill : Process := { db := { tradeRing := [fillOf 1000] } }

/-- Steps of the thread, with the same answer to every `mdb_txn_begin`. -/
def persistSteps (n : ℕ) (begins : Bool) : List BeginAct := List.replicate n (.persist begins)

/-- The fill is committed when its transaction opens. -/
theorem drained_once_iff_oneFill :
    ∃ q h, run (recorded Process.stepBegin) (oneFill, []) (persistSteps 5 true) = some (q, h) ∧
      InRingOrder oneFill q h ∧ (DrainedOnce h ↔ Along (recorded Process.stepBegin)
        (fun x a => BeginSucceeds x.1 a) (oneFill, []) (persistSteps 5 true)) ∧ DrainedOnce h :=
  have hiff := drained_once_iff oneFill _ rfl (persistSteps 5 true) _ rfl rfl
  ⟨_, _, rfl, hiff.1, hiff.2, ⟨rfl, rfl⟩⟩

/-- The fill is popped and in no transaction when its begin fails. -/
theorem failed_begin_loses_fill :
    ∃ q h, run (recorded Process.stepBegin) (oneFill, []) (persistSteps 4 false) = some (q, h) ∧
      atCondition q.db.pc = true ∧ drainTrades .popped h = [fillOf 1000] ∧
      drainTrades .committed h = [] ∧ q.db.tradeRing = [] ∧ ¬ DrainedOnce h := by
  refine ⟨_, _, rfl, rfl, rfl, rfl, rfl, ?_⟩
  rintro ⟨-, htrades⟩
  cases htrades

end MmEngine.Analysis
