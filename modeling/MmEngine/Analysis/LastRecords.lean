import MmEngine.Model.Shutdown
import MmEngine.Interface.PersisterRules

/-!
# The last records

The persister and the logger leave their loops when the flag is down and their rings look empty,
but the strategy thread may still be inside its last turn: a record it pushes then is accepted
and never written.  The persister also looks at its two rings one after the other, so a snapshot
pushed between the two looks is lost when the second ring is empty.  Nothing else is lost: when
no ring accepts a record after its reader has left and the persister leaves with both rings
empty, every accepted record is written exactly once and in order, and conversely
(`saved_once_iff`).
-/

set_option autoImplicit false

namespace MmEngine.Analysis

open MmEngine.Model MmEngine.Lib MmEngine.Interface

/-! ## Accepted and written records -/

def snapOf : Saved → Option Model.BookSnapshot
  | .snap s => some s
  | _ => none

def tradeOf : Saved → Option Model.ExecEvent
  | .trade e => some e
  | _ => none

def logOf : Saved → Option LogRecord
  | .log r => some r
  | _ => none

section Records

variable {α : Type} (sel : Saved → Option α)

/-- The accepted records of a kind, in order. -/
def acceptedOf (h : List SaveObs) : List α :=
  h.filterMap fun
    | .accepted x => sel x
    | .written _ => none

/-- The written records of a kind, in order. -/
def writtenOf (h : List SaveObs) : List α :=
  h.filterMap fun
    | .accepted _ => none
    | .written x => sel x

theorem acceptedOf_append (h h' : List SaveObs) :
    acceptedOf sel (h ++ h') = acceptedOf sel h ++ acceptedOf sel h' := List.filterMap_append

theorem writtenOf_append (h h' : List SaveObs) :
    writtenOf sel (h ++ h') = writtenOf sel h ++ writtenOf sel h' := List.filterMap_append

theorem acceptedOf_written {β : Type} (f : β → Saved) (xs : List β) :
    acceptedOf sel (xs.map fun x => .written (f x)) = [] := by
  unfold acceptedOf
  rw [List.filterMap_map]
  exact List.filterMap_eq_nil_iff.mpr fun _ _ => rfl

theorem writtenOf_written {β : Type} (f : β → Saved) (xs : List β) :
    writtenOf sel (xs.map fun x => .written (f x)) = xs.filterMap fun x => sel (f x) := by
  unfold writtenOf
  rw [List.filterMap_map]
  rfl

end Records

/-- Every accepted record is written exactly once, in the order of the pushes. -/
def SavedOnce (h : List SaveObs) : Prop :=
  writtenOf snapOf h = acceptedOf snapOf h ∧ writtenOf tradeOf h = acceptedOf tradeOf h ∧
    writtenOf logOf h = acceptedOf logOf h

theorem snaps_of_puts (ps : List (Put Model.BookSnapshot Model.ExecEvent)) :
    (ps.filterMap fun p => snapOf (Threads.savedOf p)) = putSnaps ps := by
  unfold putSnaps
  congr 1
  funext p
  cases p <;> rfl

theorem trades_of_puts (ps : List (Put Model.BookSnapshot Model.ExecEvent)) :
    (ps.filterMap fun p => tradeOf (Threads.savedOf p)) = putTrades ps := by
  unfold putTrades
  congr 1
  funext p
  cases p <;> rfl

theorem logs_of_puts (ps : List (Put Model.BookSnapshot Model.ExecEvent)) :
    (ps.filterMap fun p => logOf (Threads.savedOf p)) = [] := by
  apply List.filterMap_eq_nil_iff.mpr
  intro p _
  cases p <;> rfl

/-! ## What a step does to the rings -/

/-- No ring accepts a record whose reader has left, the log ring none without a file, and the
persister leaves its loop only with the snapshot ring empty too. -/
def DrainedInTime (s : Threads) : ThreadAct → Prop
  | .effect =>
    match s.todo with
    | .trade _ :: _ => s.db.tradeRing.length < tradeCap → s.db.pc ≠ .returned
    | .snapshot _ :: _ => s.db.snapRing.length < snapCap → s.db.pc ≠ .returned
    | .logged _ :: _ =>
      s.logger.ring.length < logCap → s.logger.pc ≠ .returned ∧ s.logger.file = true
    | _ => True
  | .persist => s.db.pc = .tradeSize → s.db.tradeRing = [] → s.db.snapRing = []
  | _ => True

section Perform

variable {s : Threads}

theorem perform_trade (e : Model.ExecEvent) (h : s.db.tradeRing.length < tradeCap) :
    s.perform (.trade e) = ({ s with db := { s.db with tradeRing := s.db.tradeRing ++ [e] } },
      [.accepted (.trade e)]) := by
  unfold Threads.perform LmdbPersister.pushTrade
  dsimp only
  rw [offer_of_lt e h]
  rfl

theorem perform_trade_full (e : Model.ExecEvent) (h : ¬ s.db.tradeRing.length < tradeCap) :
    s.perform (.trade e) = (s, []) := by
  unfold Threads.perform LmdbPersister.pushTrade
  dsimp only
  rw [offer_of_not_lt e h]
  rfl

theorem perform_snapshot (b : Model.BookSnapshot) (h : s.db.snapRing.length < snapCap) :
    s.perform (.snapshot b) = ({ s with db := { s.db with snapRing := s.db.snapRing ++ [b] } },
      [.accepted (.snap b)]) := by
  unfold Threads.perform LmdbPersister.pushSnapshot
  dsimp only
  rw [offer_of_lt b h]
  rfl

theorem perform_snapshot_full (b : Model.BookSnapshot) (h : ¬ s.db.snapRing.length < snapCap) :
    s.perform (.snapshot b) = (s, []) := by
  unfold Threads.perform LmdbPersister.pushSnapshot
  dsimp only
  rw [offer_of_not_lt b h]
  rfl

theorem perform_logged (r : LogRecord) (h : s.logger.ring.length < logCap) :
    s.perform (.logged r) = ({ s with logger := { s.logger with ring := s.logger.ring ++ [r] } },
      [.accepted (.log r)]) := by
  unfold Threads.perform AsyncLogger.log
  dsimp only
  rw [offer_of_lt r h]
  rfl

theorem perform_logged_full (r : LogRecord) (h : ¬ s.logger.ring.length < logCap) :
    s.perform (.logged r) = (s, []) := by
  unfold Threads.perform AsyncLogger.log
  dsimp only
  rw [offer_of_not_lt r h]
  rfl

end Perform

/-- INTERNAL: **what an effect does to the rings**: nothing, or one accepted record. -/
theorem perform_rings {s t : Threads} {x : Effect} {rest : List Effect} {obs : List SaveObs}
    (htodo : s.todo = x :: rest) (h : Threads.perform { s with todo := rest } x = (t, obs)) :
    (t.db = s.db ∧ t.logger = s.logger ∧ obs = [] ∧ DrainedInTime s .effect) ∨
      (∃ e, t.db = { s.db with tradeRing := s.db.tradeRing ++ [e] } ∧ t.logger = s.logger ∧
        obs = [.accepted (.trade e)] ∧ (DrainedInTime s .effect ↔ s.db.pc ≠ .returned)) ∨
      (∃ b, t.db = { s.db with snapRing := s.db.snapRing ++ [b] } ∧ t.logger = s.logger ∧
        obs = [.accepted (.snap b)] ∧ (DrainedInTime s .effect ↔ s.db.pc ≠ .returned)) ∨
      (∃ r, t.db = s.db ∧ t.logger = { s.logger with ring := s.logger.ring ++ [r] } ∧
        obs = [.accepted (.log r)] ∧
        (DrainedInTime s .effect ↔ s.logger.pc ≠ .returned ∧ s.logger.file = true)) := by
  unfold DrainedInTime
  dsimp only
  rw [htodo]
  cases x with
  | trade e =>
    by_cases hroom : s.db.tradeRing.length < tradeCap
    · rw [perform_trade (s := { s with todo := rest }) e hroom] at h
      obtain ⟨rfl, rfl⟩ := Prod.mk.inj h
      exact Or.inr (Or.inl ⟨e, rfl, rfl, rfl, fun hin => hin hroom, fun hin _ => hin⟩)
    · rw [perform_trade_full (s := { s with todo := rest }) e hroom] at h
      obtain ⟨rfl, rfl⟩ := Prod.mk.inj h
      exact Or.inl ⟨rfl, rfl, rfl, fun hlt => absurd hlt hroom⟩
  | snapshot b =>
    by_cases hroom : s.db.snapRing.length < snapCap
    · rw [perform_snapshot (s := { s with todo := rest }) b hroom] at h
      obtain ⟨rfl, rfl⟩ := Prod.mk.inj h
      exact Or.inr (Or.inr (Or.inl ⟨b, rfl, rfl, rfl, fun hin => hin hroom, fun hin _ => hin⟩))
    · rw [perform_snapshot_full (s := { s with todo := rest }) b hroom] at h
      obtain ⟨rfl, rfl⟩ := Prod.mk.inj h
      exact Or.inl ⟨rfl, rfl, rfl, fun hlt => absurd hlt hroom⟩
  | logged r =>
    by_cases hroom : s.logger.ring.length < logCap
    · rw [perform_logged (s := { s with todo := rest }) r hroom] at h
      obtain ⟨rfl, rfl⟩ := Prod.mk.inj h
      exact Or.inr (Or.inr (Or.inr ⟨r, rfl, rfl, rfl, fun hin => hin hroom, fun hin _ => hin⟩))
    · rw [perform_logged_full (s := { s with todo := rest }) r hroom] at h
      obtain ⟨rfl, rfl⟩ := Prod.mk.inj h
      exact Or.inl ⟨rfl, rfl, rfl, fun hlt => absurd hlt hroom⟩
  | consumed e | took ev | pushed c | refused c =>
    obtain ⟨rfl, rfl⟩ := Prod.mk.inj h
    exact Or.inl ⟨rfl, rfl, rfl, trivial⟩

/-- INTERNAL: **what a step does to the rings**: nothing, one accepted record, or a step of one of
the two readers. -/
theorem step_rings {cfg : EngineConfig} {s t : Threads} {a : ThreadAct} {obs : List SaveObs}
    (h : s.step cfg a = some (t, obs)) :
    (t.db = s.db ∧ t.logger = s.logger ∧ obs = [] ∧ DrainedInTime s a) ∨
      (∃ e, t.db = { s.db with tradeRing := s.db.tradeRing ++ [e] } ∧ t.logger = s.logger ∧
        obs = [.accepted (.trade e)] ∧ (DrainedInTime s a ↔ s.db.pc ≠ .returned)) ∨
      (∃ x, t.db = { s.db with snapRing := s.db.snapRing ++ [x] } ∧ t.logger = s.logger ∧
        obs = [.accepted (.snap x)] ∧ (DrainedInTime s a ↔ s.db.pc ≠ .returned)) ∨
      (∃ r, t.db = s.db ∧ t.logger = { s.logger with ring := s.logger.ring ++ [r] } ∧
        obs = [.accepted (.log r)] ∧
        (DrainedInTime s a ↔ s.logger.pc ≠ .returned ∧ s.logger.file = true)) ∨
      (∃ ps, s.db.step s.running = some (t.db, ps) ∧ t.logger = s.logger ∧
        obs = ps.map (fun p => .written (Threads.savedOf p)) ∧
        (DrainedInTime s a ↔ (s.db.pc = .tradeSize → s.db.tradeRing = [] → s.db.snapRing = []))) ∨
      (∃ rs, s.logger.step s.running = some (t.logger, rs) ∧ t.db = s.db ∧
        obs = rs.map (fun r => .written (.log r)) ∧ DrainedInTime s a) := by
  cases a with
  | stop =>
    obtain ⟨rfl, rfl⟩ := Prod.mk.inj (Option.some.inj h)
    exact Or.inl ⟨rfl, rfl, rfl, trivial⟩
  | turn | idle =>
    unfold Threads.step at h
    dsimp only at h
    split at h
    · obtain ⟨rfl, rfl⟩ := Prod.mk.inj (Option.some.inj h)
      exact Or.inl ⟨rfl, rfl, rfl, trivial⟩
    · cases h
  | exec _ | md _ _ =>
    unfold Threads.step at h
    dsimp only at h
    split at h
    · obtain ⟨⟨m, es⟩, -, heq⟩ := Option.map_eq_some_iff.mp h
      obtain ⟨rfl, rfl⟩ := Prod.mk.inj heq
      exact Or.inl ⟨rfl, rfl, rfl, trivial⟩
    · cases h
  | effect =>
    unfold Threads.step at h
    dsimp only at h
    cases htodo : s.todo with
    | nil =>
      rw [htodo] at h
      cases h
    | cons x rest =>
      rw [htodo] at h
      rcases perform_rings htodo (Option.some.inj h) with hnone | htrade | hsnap | hlog
      · exact Or.inl hnone
      · exact Or.inr (Or.inl htrade)
      · exact Or.inr (Or.inr (Or.inl hsnap))
      · exact Or.inr (Or.inr (Or.inr (Or.inl hlog)))
  | persist =>
    obtain ⟨⟨db, ps⟩, hdb, heq⟩ := Option.map_eq_some_iff.mp h
    obtain ⟨rfl, rfl⟩ := Prod.mk.inj heq
    exact Or.inr (Or.inr (Or.inr (Or.inr (Or.inl ⟨ps, hdb, rfl, rfl, Iff.rfl⟩))))
  | log =>
    obtain ⟨⟨logger, rs⟩, hlog, heq⟩ := Option.map_eq_some_iff.mp h
    obtain ⟨rfl, rfl⟩ := Prod.mk.inj heq
    exact Or.inr (Or.inr (Or.inr (Or.inr (Or.inr ⟨rs, hlog, rfl, rfl, trivial⟩))))

/-- INTERNAL: **what a step of the logger can be**: a test, or a pop with its line. -/
theorem logger_cases {running : Bool} {l l' : AsyncLogger} {rs : List LogRecord}
    (h : l.step running = some (l', rs)) :
    (∃ pc, l' = { l with pc := pc } ∧ rs = [] ∧ l.pc ≠ .returned ∧ (pc = .returned → l.ring = [])) ∨
      (∃ r rest, l.pc = .popping ∧ l.ring = r :: rest ∧ l' = { l with ring := rest } ∧
        rs = if l.file then [r] else []) := by
  unfold AsyncLogger.step at h
  cases hpc : l.pc with
  | flag =>
    rw [hpc] at h
    obtain ⟨rfl, rfl⟩ := Prod.mk.inj (Option.some.inj h)
    refine Or.inl ⟨_, rfl, rfl, by decide, ?_⟩
    cases running <;> simp
  | size =>
    rw [hpc] at h
    obtain ⟨rfl, rfl⟩ := Prod.mk.inj (Option.some.inj h)
    refine Or.inl ⟨_, rfl, rfl, by decide, ?_⟩
    cases l.ring <;> simp
  | popping =>
    rw [hpc] at h
    cases hring : l.ring with
    | nil =>
      rw [hring] at h
      obtain ⟨rfl, rfl⟩ := Prod.mk.inj (Option.some.inj h)
      exact Or.inl ⟨_, rfl, rfl, by decide, fun _ => rfl⟩
    | cons r rest =>
      rw [hring] at h
      obtain ⟨rfl, rfl⟩ := Prod.mk.inj (Option.some.inj h)
      exact Or.inr ⟨r, rest, rfl, rfl, rfl, rfl⟩
  | returned =>
    rw [hpc] at h
    cases h

/-! ## Nothing is lost -/

/-- No ring holds a record whose reader has left, and no log record was accepted without a
file. -/
structure NoneLost (p : LmdbPersister Model.BookSnapshot Model.ExecEvent) (l : AsyncLogger)
    (h : List SaveObs) : Prop where
  db : p.pc = .returned → p.snapRing = [] ∧ p.tradeRing = []
  logger : l.pc = .returned → l.ring = []
  file : l.file = false → acceptedOf logOf h = []

/-- A record accepted while its reader is there is not lost. -/
theorem NoneLost.accepted {p p' : LmdbPersister Model.BookSnapshot Model.ExecEvent} {l : AsyncLogger}
    {h obs : List SaveObs} (hs : NoneLost p l h) (hpc : p'.pc ≠ .returned)
    (hobs : acceptedOf logOf obs = []) : NoneLost p' l (h ++ obs) := by
  refine ⟨fun hret => absurd hret hpc, hs.logger, fun hfile => ?_⟩
  rw [acceptedOf_append, hs.file hfile, hobs]
  rfl

section Step

variable {cfg : EngineConfig} {s t : Threads} {a : ThreadAct} {h obs : List SaveObs}
  (hstep : s.step cfg a = some (t, obs))

include hstep

/-- INTERNAL: **one step loses nothing exactly when it is in time.** -/
theorem drainedInTime_iff (hs : NoneLost s.db s.logger h) :
    DrainedInTime s a ↔ NoneLost t.db t.logger (h ++ obs) := by
  obtain ⟨hdb, hlog, rfl, hin⟩ | ⟨e, hdb, hlog, rfl, hin⟩ | ⟨b, hdb, hlog, rfl, hin⟩ |
    ⟨r, hdb, hlog, rfl, hin⟩ | ⟨ps, hdb, hlog, rfl, hin⟩ | ⟨rs, hlog, hdb, rfl, hin⟩ :=
    step_rings hstep
  · rw [hdb, hlog, List.append_nil]
    exact iff_of_true hin hs
  · rw [hin, hdb, hlog]
    constructor
    · exact fun hpc => hs.accepted hpc rfl
    · intro ht hret
      exact absurd (ht.db hret).2 (by simp)
  · rw [hin, hdb, hlog]
    constructor
    · exact fun hpc => hs.accepted hpc rfl
    · intro ht hret
      exact absurd (ht.db hret).1 (by simp)
  · rw [hin, hdb, hlog]
    constructor
    · rintro ⟨hpc, hfile⟩
      refine ⟨hs.db, fun hret => absurd hret hpc, fun hnone => ?_⟩
      rw [show s.logger.file = false from hnone] at hfile
      cases hfile
    · intro ht
      refine ⟨fun hret => absurd (ht.logger hret) (by simp), ?_⟩
      by_contra hnone
      have hacc := ht.file (Bool.eq_false_iff.mpr hnone)
      rw [acceptedOf_append] at hacc
      exact absurd (List.append_eq_nil_iff.mp hacc).2 (by simp [acceptedOf, logOf])
  · rw [hin, hlog]
    have hfile : s.logger.file = false →
        acceptedOf logOf (h ++ ps.map fun p => .written (Threads.savedOf p)) = [] := by
      intro hnone
      rw [acceptedOf_append, acceptedOf_written, List.append_nil]
      exact hs.file hnone
    obtain ⟨pc, heq, -, -, -, hret⟩ | ⟨b, rest, hpc, -, -, heq⟩ | ⟨e, rest, hpc, -, -, heq⟩ |
      ⟨hpc, -, heq⟩ := step_cases hdb
    · rw [heq]
      constructor
      · intro hdrained
        refine ⟨fun hc => ?_, hs.logger, hfile⟩
        obtain ⟨hsize, htrades⟩ := hret.mp hc
        exact ⟨hdrained hsize htrades, htrades⟩
      · intro ht hsize htrades
        exact (ht.db (hret.mpr ⟨hsize, htrades⟩)).1
    · rw [heq, hpc]
      exact iff_of_true (fun hc => (nomatch hc)) ⟨fun hc => (nomatch hc), hs.logger, hfile⟩
    · rw [heq, hpc]
      exact iff_of_true (fun hc => (nomatch hc)) ⟨fun hc => (nomatch hc), hs.logger, hfile⟩
    · rw [heq, hpc]
      exact iff_of_true (fun hc => (nomatch hc)) ⟨fun hc => (nomatch hc), hs.logger, hfile⟩
  · rw [hdb]
    have hacc : acceptedOf logOf (h ++ rs.map fun r => .written (.log r)) = acceptedOf logOf h := by
      rw [acceptedOf_append, acceptedOf_written, List.append_nil]
    obtain ⟨pc, heq, -, -, hret⟩ | ⟨r, rest, hpc, -, heq, -⟩ := logger_cases hlog
    · rw [heq]
      exact iff_of_true hin ⟨hs.db, hret, fun hfile => hacc ▸ hs.file hfile⟩
    · rw [heq]
      refine iff_of_true hin ⟨hs.db, fun hc => ?_, fun hfile => hacc ▸ hs.file hfile⟩
      dsimp only at hc
      rw [hpc] at hc
      cases hc

/-- INTERNAL: what is lost stays lost. -/
theorem noneLost_of_step (ht : NoneLost t.db t.logger (h ++ obs)) : NoneLost s.db s.logger h := by
  have hacc : acceptedOf logOf (h ++ obs) = [] → acceptedOf logOf h = [] := by
    intro hnil
    rw [acceptedOf_append] at hnil
    exact (List.append_eq_nil_iff.mp hnil).1
  obtain ⟨hdb, hlog, -⟩ | ⟨e, hdb, hlog, -⟩ | ⟨b, hdb, hlog, -⟩ | ⟨r, hdb, hlog, -⟩ |
    ⟨ps, hdb, hlog, -⟩ | ⟨rs, hlog, hdb, -⟩ := step_rings hstep
  · rw [hdb, hlog] at ht
    exact ⟨ht.db, ht.logger, fun hfile => hacc (ht.file hfile)⟩
  · rw [hdb, hlog] at ht
    exact ⟨fun hret => absurd (ht.db hret).2 (by simp), ht.logger, fun hfile => hacc (ht.file hfile)⟩
  · rw [hdb, hlog] at ht
    exact ⟨fun hret => absurd (ht.db hret).1 (by simp), ht.logger, fun hfile => hacc (ht.file hfile)⟩
  · rw [hdb, hlog] at ht
    exact ⟨ht.db, fun hret => absurd (ht.logger hret) (by simp), fun hfile => hacc (ht.file hfile)⟩
  · rw [hlog] at ht
    refine ⟨fun hret => ?_, ht.logger, fun hfile => hacc (ht.file hfile)⟩
    -- a thread that has returned does not step
    unfold LmdbPersister.step at hdb
    rw [hret] at hdb
    cases hdb
  · rw [hdb] at ht
    refine ⟨ht.db, fun hret => ?_, fun hfile => hacc (ht.file ?_)⟩
    · unfold AsyncLogger.step at hlog
      rw [hret] at hlog
      cases hlog
    · obtain ⟨pc, heq, -⟩ | ⟨r, rest, -, -, heq, -⟩ := logger_cases hlog
      · rw [heq]
        exact hfile
      · rw [heq]
        exact hfile

end Step

/-! ## Where the accepted records are -/

/-- The accepted records are the written ones, followed by those in the open transaction and in
the ring; without a file nothing is written to it. -/
structure AllKept (s : Threads) (h : List SaveObs) : Prop where
  snaps : acceptedOf snapOf h = writtenOf snapOf h ++ (putSnaps s.db.txn ++ s.db.snapRing)
  trades : acceptedOf tradeOf h = writtenOf tradeOf h ++ (putTrades s.db.txn ++ s.db.tradeRing)
  logs : ∃ gone, acceptedOf logOf h = gone ++ s.logger.ring ∧
    writtenOf logOf h = if s.logger.file then gone else []
  txn : atCondition s.db.pc = true → s.db.txn = []

theorem acceptedOf_concat {α : Type} (sel : Saved → Option α) (h : List SaveObs) (x : Saved) :
    acceptedOf sel (h ++ [.accepted x]) = acceptedOf sel h ++ (sel x).toList := by
  rw [acceptedOf_append]
  cases hx : sel x <;> simp [acceptedOf, hx]

theorem writtenOf_concat {α : Type} (sel : Saved → Option α) (h : List SaveObs) (x : Saved) :
    writtenOf sel (h ++ [.accepted x]) = writtenOf sel h := by
  rw [writtenOf_append]
  exact List.append_nil _

namespace AllKept

variable {s t : Threads} {h : List SaveObs}

/-- INTERNAL: an accepted record is at the end of its ring. -/
theorem accept (hs : AllKept s h) (x : Saved)
    (hsnap : t.db.snapRing = s.db.snapRing ++ (snapOf x).toList)
    (htrade : t.db.tradeRing = s.db.tradeRing ++ (tradeOf x).toList)
    (hlog : t.logger.ring = s.logger.ring ++ (logOf x).toList)
    (hfile : t.logger.file = s.logger.file) (htxn : t.db.txn = s.db.txn)
    (hpc : t.db.pc = s.db.pc) : AllKept t (h ++ [.accepted x]) := by
  obtain ⟨gone, hgone, hwritten⟩ := hs.logs
  refine ⟨?_, ?_, ⟨gone, ?_, ?_⟩, ?_⟩
  · rw [acceptedOf_concat, writtenOf_concat, hs.snaps, hsnap, htxn]
    simp only [List.append_assoc]
  · rw [acceptedOf_concat, writtenOf_concat, hs.trades, htrade, htxn]
    simp only [List.append_assoc]
  · rw [acceptedOf_concat, hgone, hlog, List.append_assoc]
  · rw [writtenOf_concat, hwritten, hfile]
  · rw [hpc, htxn]
    exact hs.txn

/-- INTERNAL: the persister moves records from the rings through its transaction to the store. -/
theorem persist {running : Bool} {ps : List (Put Model.BookSnapshot Model.ExecEvent)}
    (hs : AllKept s h) (hdb : s.db.step running = some (t.db, ps)) (hlog : t.logger = s.logger) :
    AllKept t (h ++ ps.map fun p => .written (Threads.savedOf p)) := by
  obtain ⟨gone, hgone, hwritten⟩ := hs.logs
  refine ⟨?_, ?_, ⟨gone, ?_, ?_⟩, step_txn_nil hdb hs.txn⟩
  · rw [acceptedOf_append, acceptedOf_written, writtenOf_append, writtenOf_written, snaps_of_puts,
      List.append_nil, List.append_assoc, step_snaps hdb, hs.snaps]
  · rw [acceptedOf_append, acceptedOf_written, writtenOf_append, writtenOf_written, trades_of_puts,
      List.append_nil, List.append_assoc, step_trades hdb, hs.trades]
  · rw [hlog, acceptedOf_append, acceptedOf_written, List.append_nil, hgone]
  · rw [hlog, writtenOf_append, writtenOf_written, logs_of_puts, List.append_nil, hwritten]

/-- INTERNAL: the logger moves records from its ring to the file, if there is one. -/
theorem logged {running : Bool} {rs : List LogRecord} (hs : AllKept s h)
    (hlog : s.logger.step running = some (t.logger, rs)) (hdb : t.db = s.db) :
    AllKept t (h ++ rs.map fun r => .written (.log r)) := by
  obtain ⟨gone, hgone, hwritten⟩ := hs.logs
  have hsnap : writtenOf snapOf (rs.map fun r => .written (.log r)) = [] := by
    rw [writtenOf_written]
    exact List.filterMap_eq_nil_iff.mpr fun _ _ => rfl
  have htrade : writtenOf tradeOf (rs.map fun r => .written (.log r)) = [] := by
    rw [writtenOf_written]
    exact List.filterMap_eq_nil_iff.mpr fun _ _ => rfl
  have hlogs : writtenOf logOf (rs.map fun r => .written (.log r)) = rs := by
    rw [writtenOf_written]
    exact List.filterMap_some
  refine ⟨?_, ?_, ?_, ?_⟩
  · rw [hdb, acceptedOf_append, acceptedOf_written, writtenOf_append, hsnap, List.append_nil,
      List.append_nil, hs.snaps]
  · rw [hdb, acceptedOf_append, acceptedOf_written, writtenOf_append, htrade, List.append_nil,
      List.append_nil, hs.trades]
  · rw [acceptedOf_append, acceptedOf_written, writtenOf_append, hlogs, List.append_nil, hgone, hwritten]
    obtain ⟨pc, heq, rfl, -⟩ | ⟨r, rest, -, hring, heq, rfl⟩ := logger_cases hlog
    · rw [heq]
      exact ⟨gone, rfl, by rw [List.append_nil]⟩
    · rw [heq, hring]
      refine ⟨gone ++ [r], by simp, ?_⟩
      cases hfile : s.logger.file <;> simp
  · rw [hdb]
    exact hs.txn

/-- INTERNAL: **every step keeps the account.** -/
theorem step {cfg : EngineConfig} {a : ThreadAct} {obs : List SaveObs} (hs : AllKept s h)
    (hstep : s.step cfg a = some (t, obs)) : AllKept t (h ++ obs) := by
  obtain ⟨hdb, hlog, rfl, -⟩ | ⟨e, hdb, hlog, rfl, -⟩ | ⟨b, hdb, hlog, rfl, -⟩ |
    ⟨r, hdb, hlog, rfl, -⟩ | ⟨ps, hdb, hlog, rfl, -⟩ | ⟨rs, hlog, hdb, rfl, -⟩ := step_rings hstep
  · rw [List.append_nil]
    refine ⟨?_, ?_, ?_, ?_⟩
    · rw [hdb, hs.snaps]
    · rw [hdb, hs.trades]
    · rw [hlog]
      exact hs.logs
    · rw [hdb]
      exact hs.txn
  · refine hs.accept (.trade e) ?_ ?_ ?_ ?_ ?_ ?_ <;> simp [hdb, hlog, snapOf, tradeOf, logOf]
  · refine hs.accept (.snap b) ?_ ?_ ?_ ?_ ?_ ?_ <;> simp [hdb, hlog, snapOf, tradeOf, logOf]
  · refine hs.accept (.log r) ?_ ?_ ?_ ?_ ?_ ?_ <;> simp [hdb, hlog, snapOf, tradeOf, logOf]
  · exact hs.persist hdb hlog
  · exact hs.logged hlog hdb

end AllKept

/-- INTERNAL: once all threads have returned, every record is written exactly when none is
lost. -/
theorem savedOnce_iff_noneLost {s : Threads} {h : List SaveObs} (hs : AllKept s h)
    (hret : s.Returned) : SavedOnce h ↔ NoneLost s.db s.logger h := by
  obtain ⟨-, hdb, hlog⟩ := hret
  have htxn : s.db.txn = [] := hs.txn (by rw [hdb]; rfl)
  have hsnaps := hs.snaps
  have htrades := hs.trades
  rw [htxn] at hsnaps htrades
  obtain ⟨gone, hgone, hwritten⟩ := hs.logs
  constructor
  · rintro ⟨h₁, h₂, h₃⟩
    refine ⟨fun _ => ⟨?_, ?_⟩, fun _ => ?_, fun hfile => ?_⟩
    · rw [h₁] at hsnaps
      exact List.self_eq_append_right.mp hsnaps
    · rw [h₂] at htrades
      exact List.self_eq_append_right.mp htrades
    · cases hfile : s.logger.file with
      | true =>
        rw [hfile, if_pos rfl] at hwritten
        rw [← h₃, hwritten] at hgone
        exact List.self_eq_append_right.mp hgone
      | false =>
        rw [hfile, if_neg (by decide)] at hwritten
        rw [← h₃, hwritten] at hgone
        exact (List.append_eq_nil_iff.mp hgone.symm).2
    · rw [hfile, if_neg (by decide)] at hwritten
      rw [← h₃, hwritten]
  · intro hnone
    obtain ⟨hsnap, htrade⟩ := hnone.db hdb
    have hring := hnone.logger hlog
    refine ⟨?_, ?_, ?_⟩
    · rw [hsnaps, hsnap]
      exact (List.append_nil _).symm
    · rw [htrades, htrade]
      exact (List.append_nil _).symm
    · cases hfile : s.logger.file with
      | true =>
        rw [hwritten, hfile, if_pos rfl, hgone, hring, List.append_nil]
      | false =>
        rw [hwritten, hfile, if_neg (by decide), hnone.file hfile]

/-- **Every accepted record is written exactly once and in order exactly when every step is in
time.**  For every interleaving that ends with the three threads returned.
SRCLINE: src/storage/lmdb_persister.hpp:47-73, src/common/async_logger.hpp:46-61,
src/strategy/market_maker.hpp:49-85 -/
theorem saved_once_iff (cfg : EngineConfig) (tCtor tRun : ℤ) (file : Bool) (acts : List ThreadAct)
    (s : Threads) (h : List SaveObs)
    (hrun : run (recorded (Threads.step cfg)) (Threads.init tCtor tRun file, []) acts = some (s, h))
    (hret : s.Returned) :
    SavedOnce h ↔
      Along (recorded (Threads.step cfg)) (fun x a => DrainedInTime x.1 a)
        (Threads.init tCtor tRun file, []) acts := by
  have hacc : AllKept s h := by
    apply run_invariant' (I := fun x : Threads × List SaveObs => AllKept x.1 x.2) _ _ hrun
    · rintro ⟨u, hu⟩ act ⟨v, hv⟩ hI hstep
      obtain ⟨obs, hact, rfl⟩ := recorded_eq_some.mp hstep
      exact hI.step hact
    · exact ⟨rfl, rfl, ⟨[], rfl, by cases file <;> rfl⟩, fun _ => rfl⟩
  have hinit : NoneLost (Threads.init tCtor tRun file).db (Threads.init tCtor tRun file).logger [] :=
    ⟨fun hc => (nomatch hc), fun hc => (nomatch hc), fun _ => rfl⟩
  rw [savedOnce_iff_noneLost hacc hret]
  have hend := throughout_iff_end
    (P := fun x : Threads × List SaveObs => NoneLost x.1.db x.1.logger x.2) (by
      rintro ⟨u, hu⟩ act ⟨v, hv⟩ hstep hv'
      obtain ⟨obs, hact, rfl⟩ := recorded_eq_some.mp hstep
      exact noneLost_of_step hact hv') hrun
  have halong := throughout_iff_along (G := fun x a => DrainedInTime x.1 a) (D := fun _ _ => True)
    (P := fun x : Threads × List SaveObs => NoneLost x.1.db x.1.logger x.2) (by
      rintro ⟨u, hu⟩ act ⟨v, hv⟩ hu' - hstep
      obtain ⟨obs, hact, rfl⟩ := recorded_eq_some.mp hstep
      exact drainedInTime_iff hact hu') hinit (along_true _ _) hrun
  exact hend.symm.trans halong

/-- A fill of one unit at one. -/
def unitFill : Model.ExecEvent :=
  { kind := .filled, side := some .buy, symbolId := 0, clOrdId := 1000, lastPx := 1, lastQty := 1 }

/-- The strategy takes the fill and finishes its turn. -/
def fillTurn : List ThreadAct := [.exec unitFill, .effect, .effect, .effect, .idle]

/-- A run in which the strategy returns before its readers look for the last time. -/
def orderlyStop : List ThreadAct :=
  [.turn] ++ fillTurn ++ [.stop, .turn] ++ List.replicate 10 .persist ++ List.replicate 6 .log

/-- A run in which the persister leaves while the strategy is inside its last turn. -/
def lateFill : List ThreadAct :=
  [.turn, .stop] ++ List.replicate 3 .persist ++ fillTurn ++ [.turn] ++ List.replicate 6 .log

/-- The fill of an orderly stop is stored and logged. -/
theorem saved_once_iff_orderlyStop :
    ∃ s h, run (recorded (Threads.step {})) (Threads.init 0 0 true, []) orderlyStop = some (s, h) ∧
      s.Returned ∧ (SavedOnce h ↔ Along (recorded (Threads.step {})) (fun x a => DrainedInTime x.1 a)
        (Threads.init 0 0 true, []) orderlyStop) ∧ SavedOnce h :=
  ⟨_, _, rfl, ⟨rfl, rfl, rfl⟩, saved_once_iff {} 0 0 true orderlyStop _ _ rfl ⟨rfl, rfl, rfl⟩,
    ⟨rfl, rfl, rfl⟩⟩

/-- The late fill is accepted and never stored. -/
theorem lateFill_not_saved :
    ∃ s h, run (recorded (Threads.step {})) (Threads.init 0 0 true, []) lateFill = some (s, h) ∧
      s.Returned ∧ acceptedOf tradeOf h = [unitFill] ∧ writtenOf tradeOf h = [] ∧ ¬ SavedOnce h := by
  refine ⟨_, _, rfl, ⟨rfl, rfl, rfl⟩, rfl, rfl, ?_⟩
  rintro ⟨-, htrades, -⟩
  cases htrades

end MmEngine.Analysis
