import MmEngine.Interface.EngineRules
import MmEngine.Interface.DecisionRules
import MmEngine.Interface.SnapshotRules
import MmEngine.Lib.Counter64

/-!
# The book is the latest message

Between the reader thread, a lossy ring and the strategy loop, the book of a symbol shows
what the venue last said about it.  The carrying invariant is `InStep`: the snapshots the ring
accepted are those the strategy took followed by those still in the ring, each accepted one is
a conversion of its message, and the book of each symbol is the last snapshot taken for it.
When the ring is empty, the last one taken is the last one accepted.
-/

set_option autoImplicit false

namespace MmEngine.Analysis

open MmEngine.Model MmEngine.Model.MarketMaker MmEngine.Interface MmEngine.Lib

/-! ## What a history says about market data -/

/-- The messages whose snapshot the ring accepted, with that snapshot, in arrival order. -/
def acceptedQuotes (h : List Obs) : List (MarketDataSnapshot × MdEvent) :=
  h.filterMap fun
    | .quoted m ev true => some (m, ev)
    | _ => none

/-- The snapshots among the effects of the strategy. -/
def tookEvents (es : List Effect) : List MdEvent :=
  es.filterMap fun
    | .took ev => some ev
    | _ => none

/-- The snapshots the strategy applied, in order. -/
def appliedSnapshots (h : List Obs) : List MdEvent := tookEvents (effects h)

/-- The latest message about the symbol whose push succeeded. -/
def latestFor (h : List Obs) (t : Text) : Option MarketDataSnapshot :=
  ((acceptedQuotes h).filter fun p => p.1.symbol = .value t).getLast?.map Prod.fst

theorem acceptedQuotes_append (h h' : List Obs) :
    acceptedQuotes (h ++ h') = acceptedQuotes h ++ acceptedQuotes h' :=
  List.filterMap_append

theorem tookEvents_append (es es' : List Effect) :
    tookEvents (es ++ es') = tookEvents es ++ tookEvents es' :=
  List.filterMap_append

theorem appliedSnapshots_append (h h' : List Obs) :
    appliedSnapshots (h ++ h') = appliedSnapshots h ++ appliedSnapshots h' := by
  unfold appliedSnapshots
  rw [effects_append, tookEvents_append]

theorem tookEvents_sideStep {cfg : EngineConfig} {env : MdEnv} {sym : Fin kMaxSymbols}
    {side : OrdSide} {px : ℚ} {tMd : ℤ} {m m' : MarketMaker} {es : List Effect}
    (hs : SideStep cfg env sym side px tMd m m' es) : tookEvents es = [] := by
  cases hs <;> rfl

/-- INTERNAL: a market-data turn takes exactly its snapshot. -/
theorem tookEvents_mdIter {cfg : EngineConfig} {env : MdEnv} {m m' : MarketMaker} {ev : MdEvent}
    {es : List Effect} (h : mdIter cfg env m ev = some (m', es)) : tookEvents es = [ev] := by
  obtain ⟨sym, m₁, m₂, es₁, es₂, ss, -, h₁, h₂, -, -, -, rfl, hss⟩ := mdIter_sideSteps h
  have hquiet : tookEvents ss = [] := by
    apply List.filterMap_eq_nil_iff.mpr
    intro x hx
    obtain ⟨s, rfl⟩ := hss x hx
    rfl
  have hcons : ∀ es, tookEvents (.took ev :: es) = ev :: tookEvents es := fun _ => rfl
  rw [List.cons_append, List.cons_append, hcons, tookEvents_append, tookEvents_append,
    tookEvents_sideStep h₁, tookEvents_sideStep h₂, hquiet]
  rfl

/-! ## The invariant -/

/-- The book a snapshot leaves, whatever the book before it was. -/
def bookOf (cfg : EngineConfig) (ev : MdEvent) : OrderBook :=
  OrderBook.applySnapshot {} ev cfg.bookDepth

/-- The book the last of the snapshots for the symbol leaves. -/
def lastBook (cfg : EngineConfig) (evs : List MdEvent) (sym : Fin kMaxSymbols) : OrderBook :=
  (evs.filter fun ev => ev.symbolId = sym.val).getLast?.elim {} (bookOf cfg)

/-- The reader, the ring and the strategy agree. -/
structure InStep (cfg : EngineConfig) (x : Engine × List Obs) : Prop where
  queue : (acceptedQuotes x.2).map Prod.snd = appliedSnapshots x.2 ++ x.1.mdRing
  origin : ∀ p ∈ acceptedQuotes x.2,
    ∃ seq now, (FixApp.init cfg).onMarketData seq p.1 now = .ok (some p.2)
  books : ∀ sym, x.1.mm.books sym = lastBook cfg (appliedSnapshots x.2) sym
  counters : (mdCounters x.2).mdMsgsTotal - (mdCounters x.2).mdDroppedTotal =
    UInt64.ofNat (acceptedQuotes x.2).length

/-- INTERNAL: a snapshot in the ring is for a known symbol. -/
theorem InStep.symbolId_lt {cfg : EngineConfig} {x : Engine × List Obs} (hx : InStep cfg x)
    {ev : MdEvent} (hev : ev ∈ x.1.mdRing) : ev.symbolId < kMaxSymbols := by
  have hmem : ev ∈ (acceptedQuotes x.2).map Prod.snd := by
    rw [hx.queue]
    exact List.mem_append_right _ hev
  obtain ⟨p, hp, rfl⟩ := List.mem_map.mp hmem
  obtain ⟨seq, now, hconv⟩ := hx.origin p hp
  obtain ⟨t, -, hload, hid⟩ := onMarketData_eq_ok hconv
  rw [hid]
  exact (symbolId_lt_iff _ t).mpr hload

theorem lastBook_concat (cfg : EngineConfig) (evs : List MdEvent) (ev : MdEvent)
    (sym : Fin kMaxSymbols) :
    lastBook cfg (evs ++ [ev]) sym =
      if ev.symbolId = sym.val then bookOf cfg ev else lastBook cfg evs sym := by
  unfold lastBook
  rw [List.filter_append]
  by_cases h : ev.symbolId = sym.val
  · rw [if_pos h, List.filter_cons_of_pos (by simpa using h)]
    simp
  · rw [if_neg h, List.filter_cons_of_neg (by simpa using h)]
    simp

theorem mdCounters_append (h h' : List Obs) :
    mdCounters (h ++ h') = h'.foldl MdCounters.onObs (mdCounters h) :=
  List.foldl_append

/-- INTERNAL: a step that shows nothing of the market-data path. -/
theorem InStep.silent {cfg : EngineConfig} {s t : Engine} {h obs : List Obs}
    (hs : InStep cfg (s, h)) (hring : t.mdRing = s.mdRing) (hbooks : t.mm.books = s.mm.books)
    (ha : acceptedQuotes obs = []) (ht : appliedSnapshots obs = [])
    (hc : ∀ k, obs.foldl MdCounters.onObs k = k) : InStep cfg (t, h ++ obs) := by
  obtain ⟨hqueue, horigin, hbook, hcount⟩ := hs
  dsimp only at *
  constructor
  · simp only [acceptedQuotes_append, appliedSnapshots_append, ha, ht, List.append_nil, hring]
    exact hqueue
  · simp only [acceptedQuotes_append, ha, List.append_nil]
    exact horigin
  · simp only [appliedSnapshots_append, ht, List.append_nil, hbooks]
    exact hbook
  · simp only [acceptedQuotes_append, ha, List.append_nil, mdCounters_append, hc]
    exact hcount

/-- INTERNAL: the reader's step on a converted snapshot.
SRCLINE: src/fix/fix_app.hpp:140-144 -/
theorem InStep.quoted {cfg : EngineConfig} {s : Engine} {h : List Obs} (hs : InStep cfg (s, h))
    {m : MarketDataSnapshot} {now : ℤ} {ev : MdEvent} {seq : ℕ} (ses : FixSession)
    (hconv : (FixApp.init cfg).onMarketData seq m now = .ok (some ev)) :
    InStep cfg ({ s with ses := ses, mdRing := (offer mdCap s.mdRing ev).1 },
      h ++ [.quoted m ev (offer mdCap s.mdRing ev).2]) := by
  have hcount := hs.counters
  dsimp only at hcount
  by_cases hroom : s.mdRing.length < mdCap
  · rw [offer_of_lt ev hroom]
    have ha : acceptedQuotes [.quoted m ev true] = [(m, ev)] := rfl
    have ht : appliedSnapshots [.quoted m ev true] = [] := rfl
    constructor
    · have hqueue := hs.queue
      dsimp only at hqueue ⊢
      rw [acceptedQuotes_append, appliedSnapshots_append, ha, ht, List.map_append, hqueue]
      simp
    · intro p hp
      dsimp only at hp
      rw [acceptedQuotes_append, ha] at hp
      rcases List.mem_append.mp hp with hp | hp
      · exact hs.origin p hp
      · obtain rfl := List.mem_singleton.mp hp
        exact ⟨seq, now, hconv⟩
    · have hbooks := hs.books
      dsimp only at hbooks ⊢
      rw [appliedSnapshots_append, ht, List.append_nil]
      exact hbooks
    · dsimp only
      rw [acceptedQuotes_append, ha, mdCounters_append, List.length_append, List.length_singleton,
        ← ofNat_succ, ← hcount]
      simp only [List.foldl_cons, List.foldl_nil, MdCounters.onObs, if_true]
      grind
  · -- a full ring: the snapshot is counted twice, once as dropped
    rw [offer_of_not_lt ev hroom]
    have hqueue := hs.queue
    have hbooks := hs.books
    have ha : acceptedQuotes (h ++ [.quoted m ev false]) = acceptedQuotes h := by
      rw [acceptedQuotes_append]
      exact List.append_nil _
    have ht : appliedSnapshots (h ++ [.quoted m ev false]) = appliedSnapshots h := by
      rw [appliedSnapshots_append]
      exact List.append_nil _
    constructor
    · dsimp only at hqueue ⊢
      rw [ha, ht]
      exact hqueue
    · dsimp only
      rw [ha]
      exact hs.origin
    · dsimp only at hbooks ⊢
      rw [ht]
      exact hbooks
    · dsimp only
      rw [ha, mdCounters_append, ← hcount]
      simp only [List.foldl_cons, List.foldl_nil, MdCounters.onObs, Bool.false_eq_true, if_false]
      grind

/-- INTERNAL: the strategy's step on a snapshot.
SRCLINE: src/strategy/market_maker.hpp:66-82 -/
theorem InStep.md {cfg : EngineConfig} {s : Engine} {h : List Obs} (hs : InStep cfg (s, h))
    {env : MdEnv} {ev : MdEvent} {rest : List MdEvent} {m : MarketMaker} {es : List Effect}
    (hring : s.mdRing = ev :: rest) (hiter : mdIter cfg env s.mm ev = some (m, es)) :
    InStep cfg ({ s with mdRing := rest, mm := m, ordRing := s.ordRing ++ pushedCmds es },
      h ++ es.map .strategy) := by
  have ha : acceptedQuotes (h ++ es.map .strategy) = acceptedQuotes h := by
    have hnone : acceptedQuotes (es.map .strategy) = [] := by
      apply List.filterMap_eq_nil_iff.mpr
      simp
    rw [acceptedQuotes_append, hnone, List.append_nil]
  have ht : appliedSnapshots (h ++ es.map .strategy) = appliedSnapshots h ++ [ev] := by
    have hone : appliedSnapshots (es.map .strategy) = [ev] := by
      unfold appliedSnapshots
      rw [effects_map_strategy, tookEvents_mdIter hiter]
    rw [appliedSnapshots_append, hone]
  have hfold : ∀ (es : List Effect) k, (es.map Obs.strategy).foldl MdCounters.onObs k = k := by
    intro es
    induction es with
    | nil => exact fun _ => rfl
    | cons x es ih => exact fun k => ih k
  constructor
  · have hqueue := hs.queue
    dsimp only at hqueue ⊢
    rw [ha, ht, hqueue, hring]
    simp
  · dsimp only
    rw [ha]
    exact hs.origin
  · intro sym
    have hlt := symbolId_lt_of_mdIter hiter
    have hd := mdIter_decides hiter ⟨ev.symbolId, hlt⟩ rfl
    have hbooks := hs.books sym
    dsimp only at hbooks ⊢
    rw [ht, lastBook_concat, hd.books, ← hbooks]
    by_cases hsym : ev.symbolId = sym.val
    · obtain rfl : sym = ⟨ev.symbolId, hlt⟩ := Fin.ext hsym.symm
      rw [if_pos rfl, Function.update_self]
      rfl
    · rw [if_neg hsym, Function.update_of_ne]
      intro hc
      exact hsym (by rw [hc])
  · have hcount := hs.counters
    dsimp only at hcount ⊢
    rw [ha, mdCounters_append, hfold]
    exact hcount

/-- INTERNAL: **one step** of the engine, by whichever thread, keeps the agreement. -/
theorem InStep.step {cfg : EngineConfig} {s t : Engine} {h obs : List Obs} {a : EngineAct}
    (hs : InStep cfg (s, h)) (hstep : EngineStep cfg s a t obs) : InStep cfg (t, h ++ obs) := by
  cases hstep with
  | quoted m now ev seq ses _ hconv => exact hs.quoted ses hconv
  | md env ev rest m es hring hiter => exact hs.md hring hiter
  | mdFault env ev rest hring hbad =>
    have hmem : ev ∈ s.mdRing := by
      rw [hring]
      exact List.mem_cons_self
    exact absurd (hs.symbolId_lt hmem) hbad
  | fill e rest sym hring hsym hfill =>
    refine hs.silent rfl rfl ?_ ?_ ?_
    · cases (offer tradeCap s.tradeRing e).2 <;> rfl
    · cases (offer tradeCap s.tradeRing e).2 <;> rfl
    · intro k
      cases (offer tradeCap s.tradeRing e).2 <;> rfl
  | dropped | reported | execFault | exec | pop | check | sendFault | send | persist | logon
  | logout => exact hs.silent rfl rfl rfl rfl fun _ => rfl

/-- INTERNAL: **a whole run** of the engine keeps the agreement. -/
theorem inStep_run {cfg : EngineConfig} {tCtor tRun : ℤ} {acts : List EngineAct}
    {x : Engine × List Obs}
    (hrun : run (recorded (Engine.step cfg)) (Engine.init tCtor tRun, []) acts = some x) :
    InStep cfg x := by
  refine run_invariant' ?_ ?_ hrun
  · intro s a t hs ht
    obtain ⟨obs, hobs, hh⟩ := recorded_eq_some.mp ht
    have hnext := hs.step (step_engineStep hobs).2
    rw [← hh] at hnext
    exact hnext
  · have hzero : (mdCounters []).mdMsgsTotal - (mdCounters []).mdDroppedTotal = UInt64.ofNat 0 := by
      decide
    exact ⟨rfl, fun p hp => (nomatch hp), fun _ => rfl, hzero⟩

/-! ## The book against the message -/

/-- `n` levels that are exactly the first `depth` of at most five of the entries, in message
order. -/
structure LevelsOf (depth : ℤ) (n : ℕ) (px qty : Fin kMaxDepth → ℚ) (gs : List MdEntry) : Prop where
  count : (n : ℤ) = min depth (min (kMaxDepth : ℤ) gs.length)
  level : ∀ i : Fin kMaxDepth, i.val < n → ∃ g, gs[i.val]? = some g ∧
    px i = numberOr0 g.mdEntryPx ∧ qty i = numberOr0 g.mdEntrySize

/-- The book shows the message: nothing before the first message, its first entries
afterwards. -/
def BookShows (cfg : EngineConfig) (ob : OrderBook) : Option MarketDataSnapshot → Prop
  | none => ob = {}
  | some msg =>
    LevelsOf cfg.bookDepth ob.nBids ob.bidPx ob.bidQty (entriesOf '0' (readGroups msg)) ∧
      LevelsOf cfg.bookDepth ob.nAsks ob.askPx ob.askQty (entriesOf '1' (readGroups msg))

/-- INTERNAL: the levels the depth leaves of a side.
SRCLINE: src/book/order_book.hpp:33-38 -/
theorem levelsOf_of_sideShows {depth : ℤ} (hd : 1 ≤ depth) (hd' : depth ≤ 5) {n : ℕ}
    {px qty : Fin kMaxDepth → ℚ} {gs : List MdEntry} (hs : SideShows n px qty gs) :
    LevelsOf depth (OrderBook.cutDepth n depth) px qty gs := by
  have hcount := hs.count
  have hcut : (OrderBook.cutDepth n depth : ℤ) = min depth n := by
    unfold OrderBook.cutDepth OrderBook.toUint16
    split <;> omega
  constructor
  · rw [hcut, hcount]
    omega
  · intro i hi
    have hlt : i.val < gs.length := by omega
    refine ⟨gs[i.val], List.getElem?_eq_getElem hlt, ?_, ?_⟩
    · rw [hs.px i, List.getElem?_eq_getElem hlt]
      rfl
    · rw [hs.qty i, List.getElem?_eq_getElem hlt]
      rfl

/-- INTERNAL: the accepted snapshots of an index are those of the messages about its symbol. -/
theorem filter_symbol {cfg : EngineConfig} {ps : List (MarketDataSnapshot × MdEvent)}
    (horigin : ∀ p ∈ ps, ∃ seq now, (FixApp.init cfg).onMarketData seq p.1 now = .ok (some p.2))
    {t : Text} {sym : Fin kMaxSymbols} (hsym : (FixApp.init cfg).symbolId t = sym) :
    ps.filter (fun p => p.2.symbolId = sym.val) = ps.filter fun p => p.1.symbol = .value t := by
  apply List.filter_congr
  intro p hp
  obtain ⟨seq, now, hconv⟩ := horigin p hp
  obtain ⟨t', hmsg, hload, hid⟩ := onMarketData_eq_ok hconv
  rw [decide_eq_decide, hmsg, hid, Field.value.injEq]
  constructor
  · intro h
    rw [← (symbols_symbolId h).1, (symbols_symbolId hsym).1]
  · rintro rfl
    exact hsym

/-- INTERNAL: with nothing left in the ring, the book shows the latest accepted message. -/
theorem InStep.bookShows {cfg : EngineConfig} (hd : 1 ≤ cfg.bookDepth) (hd' : cfg.bookDepth ≤ 5)
    {s : Engine} {h : List Obs} (hs : InStep cfg (s, h)) (hempty : s.mdRing = []) {t : Text}
    {sym : Fin kMaxSymbols} (hsym : (FixApp.init cfg).symbolId t = sym) :
    BookShows cfg (s.mm.books sym) (latestFor h t) := by
  have hqueue := hs.queue
  have hbooks := hs.books sym
  dsimp only at hqueue hbooks
  rw [hempty, List.append_nil] at hqueue
  rw [hbooks]
  unfold lastBook latestFor
  rw [← hqueue, List.filter_map, List.getLast?_map]
  have hfilter := filter_symbol hs.origin hsym
  dsimp only at hfilter
  rw [← hfilter]
  cases hlast : ((acceptedQuotes h).filter fun p => p.2.symbolId = sym.val).getLast? with
  | none =>
    have hcomp : ((acceptedQuotes h).filter
        ((fun ev : MdEvent => decide (ev.symbolId = sym.val)) ∘ Prod.snd)).getLast? = none := hlast
    rw [hcomp]
    rfl
  | some p =>
    have hcomp : ((acceptedQuotes h).filter
        ((fun ev : MdEvent => decide (ev.symbolId = sym.val)) ∘ Prod.snd)).getLast? = some p := hlast
    rw [hcomp]
    have hmem := List.mem_of_mem_filter (List.mem_of_getLast? hlast)
    obtain ⟨seq, now, hconv⟩ := hs.origin p hmem
    have hreads := onMarketData_readsAs hconv
    exact ⟨levelsOf_of_sideShows hd hd' hreads.bids, levelsOf_of_sideShows hd hd' hreads.asks⟩

/-- INTERNAL: a step changes the book of a symbol only if it takes a snapshot for it. -/
theorem books_of_step {cfg : EngineConfig} {s t : Engine} {obs : List Obs} {a : EngineAct}
    (hstep : EngineStep cfg s a t obs) (sym : Fin kMaxSymbols)
    (hother : ∀ ev ∈ appliedSnapshots obs, ev.symbolId ≠ sym.val) :
    t.mm.books sym = s.mm.books sym := by
  cases hstep with
  | md env ev rest m es hring hiter =>
    have hlt := symbolId_lt_of_mdIter hiter
    have hne : ev.symbolId ≠ sym.val := by
      apply hother
      unfold appliedSnapshots
      rw [effects_map_strategy, tookEvents_mdIter hiter]
      exact List.mem_singleton_self ev
    dsimp only
    rw [(mdIter_decides hiter ⟨ev.symbolId, hlt⟩ rfl).books, Function.update_of_ne]
    intro hc
    exact hne (by rw [hc])
  | dropped | quoted | reported | execFault | exec | fill | mdFault | pop | check | sendFault
  | send | persist | logon | logout => rfl

end MmEngine.Analysis
