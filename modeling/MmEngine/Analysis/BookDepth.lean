import MmEngine.Interface.ConfigRules
import MmEngine.Interface.DecisionRules

/-!
# The depth of the book

`apply_snapshot` compares the counts of a snapshot with the configured depth as `int`s and casts
the smaller to `uint16_t` (src/book/order_book.hpp:33-34); `BOOK_DEPTH` is any `int` the file
holds.  A depth that is not negative cuts the counts as meant.  A negative one is below every
count, and the cast makes a count of it that no snapshot has, unless its low sixteen bits are
zero (`cutDepth_le_iff`).  What the book shows, what has two sides and what is stored is within
the snapshot exactly in the first case and in that exception (`book_depth_kept_iff`).
-/

set_option autoImplicit false

namespace MmEngine.Analysis

open MmEngine.Model MmEngine.Lib MmEngine.Interface

/-- The counts of a snapshot are within its arrays. -/
def CountsFit (e : MdEvent) : Prop := e.nBids ≤ kMaxDepth ∧ e.nAsks ≤ kMaxDepth

/-- The book after the snapshots, in order. -/
def applyAll (depth : ℤ) (ob : OrderBook) (es : List MdEvent) : OrderBook :=
  es.foldl (fun ob e => ob.applySnapshot e depth) ob

/-- What the depth is for. -/
structure DepthKept (c : EngineConfig) : Prop where
  /-- After every snapshot the book shows no more than the snapshot had. -/
  book : ∀ (ob : OrderBook) (es : List MdEvent) (e : MdEvent), (∀ x ∈ es ++ [e], CountsFit x) →
    (applyAll c.bookDepth ob (es ++ [e])).nBids ≤ e.nBids ∧
      (applyAll c.bookDepth ob (es ++ [e])).nAsks ≤ e.nAsks ∧
      ((applyAll c.bookDepth ob (es ++ [e])).hasBba = true → 0 < e.nBids ∧ 0 < e.nAsks)
  /-- The counts of every snapshot pushed to the store are within its arrays. -/
  stored : ∀ (m m' : MarketMaker) (inputs : List Input) (h : List Effect),
    (∀ sym, (m.books sym).nBids ≤ kMaxDepth ∧ (m.books sym).nAsks ≤ kMaxDepth) →
    (∀ ev env, .md ev env ∈ inputs → CountsFit ev) →
    run (recorded (strategyStep c)) (m, []) inputs = some (m', h) →
    ∀ s, .snapshot s ∈ h → s.nBids ≤ kMaxDepth ∧ s.nAsks ≤ kMaxDepth

/-! ## One count -/

/-- INTERNAL: **a depth cuts every count exactly when it is not negative or its low sixteen bits
are zero.** -/
theorem cutDepth_le_iff (d : ℤ) :
    (∀ n ≤ kMaxDepth, OrderBook.cutDepth n d ≤ n) ↔ 0 ≤ d ∨ 65536 ∣ d := by
  unfold OrderBook.cutDepth OrderBook.toUint16
  constructor
  · intro h
    by_contra hno
    push Not at hno
    have hzero := h 0 (Nat.zero_le _)
    rw [if_pos (by omega)] at hzero
    omega
  · rintro hd n hn
    unfold kMaxDepth at hn
    split <;> omega

/-! ## Runs -/

theorem snapshot_not_mem_sideStep {c : EngineConfig} {env : MdEnv} {sym : Fin kMaxSymbols} {side : OrdSide}
    {px : ℚ} {tMd : ℤ} {m m' : MarketMaker} {es : List Effect}
    (h : SideStep c env sym side px tMd m m' es) (s : Model.BookSnapshot) : .snapshot s ∉ es := by
  cases h <;> simp

/-- INTERNAL: the snapshots a market-data turn pushes are of its books. -/
theorem snapshot_of_mdIter {c : EngineConfig} {env : MdEnv} {m m' : MarketMaker} {ev : MdEvent}
    {es : List Effect} (h : m.mdIter c env ev = some (m', es)) {s : Model.BookSnapshot}
    (hs : .snapshot s ∈ es) : ∃ sym, s.nBids = (m'.books sym).nBids ∧ s.nAsks = (m'.books sym).nAsks := by
  have hlt := symbolId_lt_of_mdIter h
  rw [mdIter_eq c env m ev ⟨ev.symbolId, hlt⟩ rfl] at h
  obtain ⟨rfl, rfl⟩ := Prod.mk.inj (Option.some.inj h)
  obtain ⟨m₁, es₁, es₂, h₁, h₂, hes⟩ :=
    decideTurn_sideSteps c env (m.applyMd c ⟨ev.symbolId, hlt⟩ ev) ⟨ev.symbolId, hlt⟩ ev.tRecvNs
  rw [(snapshotTimer_quiet c _ env.tDeq).2.2.1]
  rw [hes, List.mem_append, List.mem_cons, List.mem_append] at hs
  obtain (htook | hbuy | hsell) | htimer := hs
  · cases htook
  · exact absurd hbuy (snapshot_not_mem_sideStep h₁ s)
  · exact absurd hsell (snapshot_not_mem_sideStep h₂ s)
  · unfold MarketMaker.snapshotTimer at htimer
    split at htimer
    · obtain ⟨sym, -, hsym⟩ := List.mem_filterMap.mp htimer
      split at hsym
      · cases hsym
      · obtain rfl := Effect.snapshot.inj (Option.some.inj hsym)
        exact ⟨sym, rfl, rfl⟩
    · cases htimer

/-- The books and the pushed snapshots are within their arrays. -/
structure WithinArrays (m : MarketMaker) (h : List Effect) : Prop where
  books : ∀ sym, (m.books sym).nBids ≤ kMaxDepth ∧ (m.books sym).nAsks ≤ kMaxDepth
  stored : ∀ s, .snapshot s ∈ h → s.nBids ≤ kMaxDepth ∧ s.nAsks ≤ kMaxDepth

/-- INTERNAL: a turn of the strategy keeps everything within the arrays. -/
theorem WithinArrays.step {c : EngineConfig} (hdepth : ∀ n ≤ kMaxDepth, OrderBook.cutDepth n c.bookDepth ≤ n)
    {m m' : MarketMaker} {i : Input} {h es : List Effect} (hm : WithinArrays m h)
    (hi : ∀ ev env, i = .md ev env → CountsFit ev) (hstep : strategyStep c m i = some (m', es)) :
    WithinArrays m' (h ++ es) := by
  cases i with
  | exec e =>
    obtain ⟨sym, -, rfl, rfl⟩ := execIter_takeExec hstep
    refine ⟨hm.books, fun s hs => ?_⟩
    rcases List.mem_append.mp hs with hold | hnew
    · exact hm.stored s hold
    · -- a report pushes a fill and a log line at most
      exfalso
      revert hnew
      split <;> simp
  | md ev env =>
    obtain ⟨hbids, hasks⟩ := hi ev env rfl
    have hlt := symbolId_lt_of_mdIter hstep
    have hbooks : ∀ sym, (m'.books sym).nBids ≤ kMaxDepth ∧ (m'.books sym).nAsks ≤ kMaxDepth := by
      intro sym
      rw [(mdIter_decides hstep ⟨ev.symbolId, hlt⟩ rfl).books]
      by_cases hsym : sym = ⟨ev.symbolId, hlt⟩
      · rw [hsym, Function.update_self]
        exact ⟨(hdepth _ hbids).trans hbids, (hdepth _ hasks).trans hasks⟩
      · rw [Function.update_of_ne hsym]
        exact hm.books sym
    refine ⟨hbooks, fun s hs => ?_⟩
    rcases List.mem_append.mp hs with hold | hnew
    · exact hm.stored s hold
    · obtain ⟨sym, hb, ha⟩ := snapshot_of_mdIter hstep hnew
      rw [hb, ha]
      exact hbooks sym

/-- INTERNAL: a depth that cuts every count keeps the books of every run. -/
theorem depthKept_of_cut {c : EngineConfig} (hdepth : ∀ n ≤ kMaxDepth, OrderBook.cutDepth n c.bookDepth ≤ n) :
    DepthKept c := by
  constructor
  · intro ob es e hes
    obtain ⟨hbids, hasks⟩ := hes e (by simp)
    unfold applyAll
    rw [List.foldl_append]
    have hb := hdepth _ hbids
    have ha := hdepth _ hasks
    refine ⟨hb, ha, ?_⟩
    intro hbba
    unfold OrderBook.hasBba at hbba
    rw [Bool.and_eq_true, decide_eq_true_eq, decide_eq_true_eq] at hbba
    exact ⟨lt_of_lt_of_le hbba.1 hb, lt_of_lt_of_le hbba.2 ha⟩
  · intro m m' inputs h hm hinputs hrun
    have hguard := (@along_true _ _ (recorded (strategyStep c)) (m, []) inputs).and_mem
      (Q := fun i => ∀ ev env, i = .md ev env → CountsFit ev)
      (fun i hi ev env heq => hinputs ev env (heq ▸ hi))
    have hend : WithinArrays m' h := by
      apply run_invariant (I := fun x : MarketMaker × List Effect => WithinArrays x.1 x.2) _
        ⟨hm, by simp⟩ hguard hrun
      rintro ⟨u, hu⟩ i ⟨v, hv⟩ hI hG hstep
      obtain ⟨es, hes, rfl⟩ := recorded_eq_some.mp hstep
      exact hI.step hdepth hG.2 hes
    exact hend.stored

/-- INTERNAL: an empty snapshot finds out a depth that does not cut. -/
theorem cut_of_depthKept {c : EngineConfig} (h : DepthKept c) (n : ℕ) (hn : n ≤ kMaxDepth) :
    OrderBook.cutDepth n c.bookDepth ≤ n := by
  have hbook := h.book {} [] { topOfBook 0 0 0 with nBids := n } (by
    intro x hx
    rw [List.nil_append, List.mem_singleton] at hx
    rw [hx]
    exact ⟨hn, (by decide : 1 ≤ kMaxDepth)⟩)
  exact hbook.1

/-- **The book depth is kept exactly when `BOOK_DEPTH` is not negative or a multiple of
`2 ^ 16`.**  For every file the loader accepts.
SRCLINE: src/book/order_book.hpp:32-43, src/common/config.hpp:44-57,
src/strategy/market_maker.hpp:71-75, 149-162 -/
theorem book_depth_kept_iff (strtod : Strtod) (cfg : Text) (files : Text → Text) (c : EngineConfig)
    (hload : EngineConfig.load strtod cfg files = .ok c) :
    DepthKept c ↔
      ∃ d, EngineConfig.getInt (EngineConfig.parseMap cfg) "BOOK_DEPTH".toList 5 = .ok d ∧
        (0 ≤ d ∨ 65536 ∣ d) := by
  have hdepth := (load_eq_ok hload).1
  constructor
  · intro hkept
    exact ⟨_, hdepth, (cutDepth_le_iff _).mp (cut_of_depthKept hkept)⟩
  · rintro ⟨d, hd, hcond⟩
    have heq : c.bookDepth = d := Except.ok.inj (hdepth.symm.trans hd)
    rw [← heq] at hcond
    exact depthKept_of_cut ((cutDepth_le_iff _).mpr hcond)

/-- A depth of three. -/
theorem book_depth_kept_iff_three :
    ∃ c, EngineConfig.load (fun _ => .error .invalidArgument) "BOOK_DEPTH=3\n".toList (fun _ => []) = .ok c ∧
      (DepthKept c ↔
        ∃ d, EngineConfig.getInt (EngineConfig.parseMap "BOOK_DEPTH=3\n".toList) "BOOK_DEPTH".toList 5 = .ok d ∧
          (0 ≤ d ∨ 65536 ∣ d)) :=
  ⟨_, rfl, book_depth_kept_iff (fun _ => .error .invalidArgument) "BOOK_DEPTH=3\n".toList (fun _ => []) _ rfl⟩

/-- A snapshot of an empty book. -/
def emptySnapshot : MdEvent :=
  { tRecvNs := 0, symbolId := 0, nBids := 0, nAsks := 0, bidPx := fun _ => 0, bidQty := fun _ => 0,
    askPx := fun _ => 0, askQty := fun _ => 0, lastPx := 0, seq := 0 }

/-- With a depth of minus one an empty book shows 65535 levels on both sides. -/
theorem negative_depth_shows_empty_book :
    ∃ c, EngineConfig.load (fun _ => .error .invalidArgument) "BOOK_DEPTH=-1\n".toList (fun _ => []) = .ok c ∧
      ((({} : OrderBook).applySnapshot emptySnapshot c.bookDepth).nBids = 65535 ∧
        (({} : OrderBook).applySnapshot emptySnapshot c.bookDepth).hasBba = true) ∧ ¬ DepthKept c := by
  refine ⟨_, rfl, ⟨rfl, rfl⟩, ?_⟩
  intro hkept
  have hbook := (hkept.book {} [] emptySnapshot fun x hx => by
    rw [List.mem_singleton.mp hx]
    exact ⟨Nat.zero_le _, Nat.zero_le _⟩).1
  exact absurd hbook (by decide)

end MmEngine.Analysis
