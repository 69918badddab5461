import MmEngine.Analysis.LastRecords
import MmEngine.Interface.StrategyRules
import MmEngine.Lib.Lines
import MmEngine.Model.LoggerFile

/-!
# The operations log read back

The log is there to be analysed after trading, so a reader has to get from its lines what the
strategy logged.  `readLog` is that reader.  Every line has eight cells (`splitOn_csvLine`) and
every cell is read as what was printed, prices and quantities rounded to the places of their
format, as long as the note of a record does not itself hold a comma or an end of a line; and no
record the strategy logs has a note (`logged_plain`).
-/

set_option autoImplicit false

namespace MmEngine.Analysis

open MmEngine.Model MmEngine.Model.MarketMaker MmEngine.Interface MmEngine.Lib

/-- A line of the log as its reader has it. -/
structure LogRow where
  tNs : ℤ
  kind : LogKind
  symbolId : ℕ
  side : Option OrdSide
  px : ℚ
  qty : ℚ
  clOrdId : ℕ
  text : Text
  deriving DecidableEq

def readKind (t : Text) : Option LogKind :=
  [LogKind.mdTick, .orderNew, .orderCxl, .exec, .info].find? fun k => kinds.getD k.code [] = t

def readSide : ℕ → Option (Option OrdSide)
  | 0 => some none
  | 1 => some (some .buy)
  | 2 => some (some .sell)
  | _ => none

/-- The reader of a line's cells. -/
def readCells : List Text → Option LogRow
  | [t, k, sym, side, px, qty, id, text] => do
    return { tNs := ← readInt t, kind := ← readKind k, symbolId := ← readNat sym,
             side := ← (← readNat side) |> readSide, px := ← readFixed px, qty := ← readFixed qty,
             clOrdId := ← readNat id, text := text }
  | _ => none

/-- The reader of the file: the first line names the columns. -/
def readLog (file : Text) : Option (List LogRow) :=
  (linesOf '\n' file).tail.mapM fun line => readCells (line.splitOn ',')

/-- What a record's line says: all of the record, with `px` to six places and `qty` to two. -/
def roundedRow (r : LogRecord) : LogRow :=
  { tNs := r.tNs, kind := r.kind, symbolId := r.symbolId, side := r.side, px := nearest 6 r.px,
    qty := nearest 2 r.qty, clOrdId := r.clOrdId.toNat, text := cStr r.text }

/-! ## One line -/

theorem readKind_kinds (k : LogKind) : readKind (kinds.getD k.code []) = some k := by
  cases k <;> decide

theorem readSide_sideCode (side : Option OrdSide) : readSide (sideCode side) = some side := by
  rcases side with - | side
  · rfl
  · cases side <;> rfl

/-- INTERNAL: the cells of a line are read as what was printed in them.
SRCLINE: src/common/async_logger.hpp:52-55 -/
theorem readCells_cells (r : LogRecord) : readCells r.cells = some (roundedRow r) := by
  unfold LogRecord.cells readCells roundedRow
  simp only [readInt_intText, readKind_kinds, readNat_toDigits, readFixed_fixedText (by decide : 0 < 6),
    readFixed_fixedText (by decide : 0 < 2), Option.bind_eq_bind, Option.bind_some, readSide_sideCode]
  rfl

/-- A record whose note is one cell of one line. -/
def OneCell (r : LogRecord) : Prop := ',' ∉ r.text ∧ '\n' ∉ r.text

/-- INTERNAL: no cell but the note can hold anything else than digits, letters, points and minus
signs. -/
theorem not_mem_cells {r : LogRecord} {c : Char} (hc : c = ',' ∨ c = '\n') (hr : c ∉ r.text) :
    ∀ t ∈ r.cells, c ∉ t := by
  have hdigit : c.isDigit = false := by rcases hc with rfl | rfl <;> decide
  have hpoint : c ≠ '.' := by rcases hc with rfl | rfl <;> decide
  have hminus : c ≠ '-' := by rcases hc with rfl | rfl <;> decide
  have hdigits : ∀ n : ℕ, c ∉ Nat.toDigits 10 n := by
    intro n hmem
    have := List.all_eq_true.mp (all_isDigit_toDigits n) c hmem
    rw [hdigit] at this
    cases this
  have hfixed : ∀ k q, c ∉ fixedText k q := by
    intro k q hmem
    rcases mem_fixedText hmem with hd | hp | hm
    · rw [hdigit] at hd
      cases hd
    · exact hpoint hp
    · exact hminus hm
  have hint : c ∉ intText r.tNs := by
    intro hmem
    rcases mem_intText hmem with hd | hm
    · rw [hdigit] at hd
      cases hd
    · exact hminus hm
  have hkind : c ∉ kinds.getD r.kind.code [] := by
    rcases hc with rfl | rfl <;> cases r.kind <;> decide
  have htext : c ∉ cStr r.text := fun hmem => hr ((List.takeWhile_sublist _).subset hmem)
  unfold LogRecord.cells
  simp only [List.forall_mem_cons, List.not_mem_nil, false_implies, implies_true, and_true]
  exact ⟨hint, hkind, hdigits _, hdigits _, hfixed _ _, hfixed _ _, hdigits _, htext⟩

theorem splitOn_csvLine {r : LogRecord} (hr : OneCell r) : r.csvLine.splitOn ',' = r.cells :=
  List.splitOn_intercalate ',' (not_mem_cells (Or.inl rfl) hr.1) (by simp [LogRecord.cells])

theorem mem_intercalate {sep c : Char} (hne : c ≠ sep) {ts : List Text} (h : c ∈ [sep].intercalate ts) :
    ∃ t ∈ ts, c ∈ t := by
  induction ts with
  | nil => simp at h
  | cons t ts ih =>
    cases ts with
    | nil => exact ⟨t, by simp, by simpa using h⟩
    | cons u us =>
      rw [List.intercalate_cons_cons] at h
      rcases List.mem_append.mp h with h | h
      · rcases List.mem_append.mp h with h | h
        · exact ⟨t, by simp, h⟩
        · exact absurd (List.mem_singleton.mp h) hne
      · obtain ⟨t', ht', hc⟩ := ih h
        exact ⟨t', List.mem_cons_of_mem _ ht', hc⟩

theorem csvLine_one_line {r : LogRecord} (hr : OneCell r) : '\n' ∉ r.csvLine := by
  intro hmem
  obtain ⟨t, ht, hc⟩ := mem_intercalate (by decide) hmem
  exact not_mem_cells (Or.inr rfl) hr.2 t ht hc

/-- INTERNAL: **the file is read as its records.**
SRCLINE: src/common/async_logger.hpp:22-25, 51-55 -/
theorem readLog_opsFile {rs : List LogRecord} (hrs : ∀ r ∈ rs, OneCell r) :
    readLog (opsFile rs) = some (rs.map roundedRow) := by
  have hheader : '\n' ∉ logHeader := by decide
  unfold readLog opsFile
  rw [linesOf_append_sep hheader, linesOf_flatMap _ _ fun r hr => csvLine_one_line (hrs r hr), List.tail_cons]
  induction rs with
  | nil => rfl
  | cons r rs ih =>
    have hrest := ih fun x hx => hrs x (List.mem_cons_of_mem _ hx)
    rw [List.map_cons, List.mapM_cons, hrest, splitOn_csvLine (hrs r List.mem_cons_self), readCells_cells]
    rfl

/-! ## What the strategy logs -/

/-- A log record of the strategy has no note. -/
def PlainLog : Effect → Prop
  | .logged r => r.text = []
  | _ => True

/-- INTERNAL: no turn on a snapshot logs a note.
SRCLINE: src/strategy/market_maker.hpp:125-127, 142-145 -/
theorem mdIter_plain {cfg : EngineConfig} {env : MdEnv} {m m' : MarketMaker} {ev : MdEvent} {es : List Effect}
    (h : mdIter cfg env m ev = some (m', es)) : ∀ x ∈ es, PlainLog x := by
  obtain ⟨sym, m₁, m₂, es₁, es₂, ss, -, h₁, h₂, -, -, -, rfl, hss⟩ := mdIter_sideSteps h
  have hside : ∀ {side : OrdSide} {px : ℚ} {a b : MarketMaker} {fs : List Effect},
      SideStep cfg env sym side px ev.tRecvNs a b fs → ∀ x ∈ fs, PlainLog x := by
    intro side px a b fs hs
    cases hs <;> simp [PlainLog, newLog, cancelLog]
  intro x hx
  simp only [List.cons_append, List.mem_cons, List.mem_append] at hx
  rcases hx with rfl | (hx | hx) | hx
  · trivial
  · exact hside h₁ x hx
  · exact hside h₂ x hx
  · obtain ⟨b, rfl⟩ := hss x hx
    trivial

/-- INTERNAL: nor does one on an execution report.
SRCLINE: src/strategy/market_maker.hpp:57-60 -/
theorem execIter_plain {m m' : MarketMaker} {e : Model.ExecEvent} {es : List Effect}
    (h : m.execIter e = some (m', es)) : ∀ x ∈ es, PlainLog x := by
  unfold execIter at h
  obtain ⟨o, -, heq⟩ := Option.map_eq_some_iff.mp h
  obtain ⟨-, rfl⟩ := Prod.mk.inj heq
  split <;> simp [PlainLog, execLog]

/-- INTERNAL: an accepted log record is one the strategy logged. -/
theorem acceptedOf_perform {s t : Threads} {x : Effect} {obs : List SaveObs} (h : s.perform x = (t, obs))
    (hx : PlainLog x) : t.todo = s.todo ∧ ∀ r ∈ acceptedOf logOf obs, r.text = [] := by
  cases x with
  | logged r =>
    unfold Threads.perform at h
    obtain ⟨rfl, rfl⟩ := Prod.mk.inj h
    refine ⟨rfl, ?_⟩
    split
    · intro r' hr'
      rw [List.mem_singleton.mp hr']
      exact hx
    · simp [acceptedOf]
  | trade e | snapshot b =>
    unfold Threads.perform at h
    obtain ⟨rfl, rfl⟩ := Prod.mk.inj h
    refine ⟨rfl, ?_⟩
    split <;> simp [acceptedOf, logOf]
  | consumed e | took ev | pushed c | refused c =>
    obtain ⟨rfl, rfl⟩ := Prod.mk.inj h
    exact ⟨rfl, by simp [acceptedOf]⟩

/-- INTERNAL: what the strategy has still to do, and what the log ring has taken, is without
notes. -/
structure PlainLogs (s : Threads) (h : List SaveObs) : Prop where
  todo : ∀ x ∈ s.todo, PlainLog x
  accepted : ∀ r ∈ acceptedOf logOf h, r.text = []

/-- INTERNAL: **one step** keeps it so. -/
theorem PlainLogs.step {cfg : EngineConfig} {s t : Threads} {a : ThreadAct} {h obs : List SaveObs}
    (hs : PlainLogs s h) (hstep : s.step cfg a = some (t, obs)) : PlainLogs t (h ++ obs) := by
  have hquiet : acceptedOf logOf obs = [] → ∀ r ∈ acceptedOf logOf (h ++ obs), r.text = [] := by
    intro hnone
    rw [acceptedOf_append, hnone, List.append_nil]
    exact hs.accepted
  cases a with
  | stop =>
    obtain ⟨rfl, rfl⟩ := Prod.mk.inj (Option.some.inj hstep)
    exact ⟨hs.todo, hquiet rfl⟩
  | turn | idle =>
    simp only [Threads.step] at hstep
    split at hstep
    · obtain ⟨rfl, rfl⟩ := Prod.mk.inj (Option.some.inj hstep)
      exact ⟨hs.todo, hquiet rfl⟩
    · cases hstep
  | exec e =>
    simp only [Threads.step] at hstep
    split at hstep
    · obtain ⟨⟨m, es⟩, hturn, heq⟩ := Option.map_eq_some_iff.mp hstep
      obtain ⟨rfl, rfl⟩ := Prod.mk.inj heq
      exact ⟨execIter_plain hturn, hquiet rfl⟩
    · cases hstep
  | md ev env =>
    simp only [Threads.step] at hstep
    split at hstep
    · obtain ⟨⟨m, es⟩, hturn, heq⟩ := Option.map_eq_some_iff.mp hstep
      obtain ⟨rfl, rfl⟩ := Prod.mk.inj heq
      exact ⟨mdIter_plain hturn, hquiet rfl⟩
    · cases hstep
  | effect =>
    simp only [Threads.step] at hstep
    cases htodo : s.todo with
    | nil => simp [htodo] at hstep
    | cons x rest =>
      simp only [htodo] at hstep
      have hall := hs.todo
      rw [htodo] at hall
      obtain ⟨hrest, hacc⟩ := acceptedOf_perform (Option.some.inj hstep) (hall x List.mem_cons_self)
      refine ⟨?_, ?_⟩
      · rw [hrest]
        exact fun y hy => hall y (List.mem_cons_of_mem _ hy)
      · rw [acceptedOf_append]
        exact fun r hr => (List.mem_append.mp hr).elim (hs.accepted r) (hacc r)
  | persist =>
    obtain ⟨⟨db, ps⟩, -, heq⟩ := Option.map_eq_some_iff.mp hstep
    obtain ⟨rfl, rfl⟩ := Prod.mk.inj heq
    exact ⟨hs.todo, hquiet (acceptedOf_written _ _ ps)⟩
  | log =>
    obtain ⟨⟨logger, rs⟩, -, heq⟩ := Option.map_eq_some_iff.mp hstep
    obtain ⟨rfl, rfl⟩ := Prod.mk.inj heq
    exact ⟨hs.todo, hquiet (acceptedOf_written _ _ rs)⟩

/-- INTERNAL: a log file that is open stays open. -/
theorem logger_file_step {cfg : EngineConfig} {s t : Threads} {a : ThreadAct} {obs : List SaveObs}
    (hstep : s.step cfg a = some (t, obs)) : t.logger.file = s.logger.file := by
  obtain ⟨-, hlog, -⟩ | ⟨e, -, hlog, -⟩ | ⟨b, -, hlog, -⟩ | ⟨r, -, hlog, -⟩ | ⟨ps, -, hlog, -⟩ |
    ⟨rs, hlog, -⟩ := step_rings hstep
  · rw [hlog]
  · rw [hlog]
  · rw [hlog]
  · rw [hlog]
  · rw [hlog]
  · obtain ⟨pc, heq, -⟩ | ⟨r, rest, -, -, heq, -⟩ := logger_cases hlog <;> rw [heq]

end MmEngine.Analysis
