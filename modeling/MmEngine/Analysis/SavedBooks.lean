import MmEngine.Analysis.MarketView
import MmEngine.Lib.History

/-!
# When the books are saved

The strategy has no timer of its own.  Behind each snapshot it looks at the clock it took at the
dequeue, and when the interval has passed it offers every book that has a level to the persister.  So a
record shows the book as the latest snapshot of its symbol left it, two records of a symbol are an
interval apart, and a turn that comes an interval after all the others leaves out no book
(`books_saved`).
-/

set_option autoImplicit false

namespace MmEngine.Analysis

open MmEngine.Model MmEngine.Model.MarketMaker MmEngine.Interface MmEngine.Lib

/-! ## The batch of a turn -/

/-- The nanoseconds between two batches.
SRCLINE: src/strategy/market_maker.hpp:47 -/
def snapEvery (cfg : EngineConfig) : ℤ := cfg.snapshotIntervalMs * 1000000

/-- The book has a level. -/
def HasLevel (ob : OrderBook) : Prop := ¬ (ob.nBids = 0 ∧ ob.nAsks = 0)

/-- What the turn offers to the persister. -/
def batch (m m' : MarketMaker) (tDeq : ℤ) : List Effect :=
  if tDeq ≥ m.nextSnapshotNs then m'.pushSnapshots tDeq else []

section Turn

variable {cfg : EngineConfig} {env : MdEnv} {m m' : MarketMaker}

theorem nextSnapshotNs_sideStep {sym : Fin kMaxSymbols} {side : OrdSide} {px : ℚ} {tMd : ℤ} {es : List Effect}
    (hs : SideStep cfg env sym side px tMd m m' es) :
    m'.nextSnapshotNs = m.nextSnapshotNs ∧ ∀ r, .snapshot r ∉ es := by
  cases hs <;> exact ⟨rfl, by simp⟩

/-- INTERNAL: **a turn ends with its batch**, and moves the deadline with it.
SRCLINE: src/strategy/market_maker.hpp:66-82, 149-162 -/
theorem mdIter_batch {ev : MdEvent} {es : List Effect} (h : mdIter cfg env m ev = some (m', es)) :
    ∃ front, es = front ++ batch m m' env.tDeq ∧ (∀ r, .snapshot r ∉ front) ∧
      m'.nextSnapshotNs = if env.tDeq ≥ m.nextSnapshotNs then env.tDeq + snapEvery cfg else m.nextSnapshotNs := by
  have hlt := symbolId_lt_of_mdIter h
  rw [mdIter_eq cfg env m ev ⟨ev.symbolId, hlt⟩ rfl] at h
  obtain ⟨rfl, rfl⟩ := Prod.mk.inj (Option.some.inj h)
  obtain ⟨m₁, es₁, es₂, h₁, h₂, hes⟩ :=
    decideTurn_sideSteps cfg env (m.applyMd cfg ⟨ev.symbolId, hlt⟩ ev) ⟨ev.symbolId, hlt⟩ ev.tRecvNs
  obtain ⟨hnext₁, hno₁⟩ := nextSnapshotNs_sideStep h₁
  obtain ⟨hnext₂, hno₂⟩ := nextSnapshotNs_sideStep h₂
  have hnext : (decideTurn cfg env (m.applyMd cfg ⟨ev.symbolId, hlt⟩ ev) ⟨ev.symbolId, hlt⟩ ev.tRecvNs).1.nextSnapshotNs =
      m.nextSnapshotNs := hnext₂.trans hnext₁
  refine ⟨.took ev :: (es₁ ++ es₂), ?_, ?_, ?_⟩
  · rw [hes]
    congr 1
    unfold snapshotTimer batch
    rw [hnext]
    by_cases hdue : env.tDeq ≥ m.nextSnapshotNs
    · rw [if_pos hdue, if_pos hdue]
      rfl
    · rw [if_neg hdue, if_neg hdue]
  · intro r hr
    rcases List.mem_cons.mp hr with hr | hr
    · cases hr
    · rcases List.mem_append.mp hr with hr | hr
      · exact hno₁ r hr
      · exact hno₂ r hr
  · unfold snapshotTimer
    rw [hnext]
    by_cases hdue : env.tDeq ≥ m.nextSnapshotNs
    · rw [if_pos hdue, if_pos hdue]
      rfl
    · rw [if_neg hdue, if_neg hdue]
      exact hnext

/-- INTERNAL: a record of the batch is the book of its symbol. -/
theorem mem_batch {tDeq : ℤ} {x : Effect} (hx : x ∈ batch m m' tDeq) :
    tDeq ≥ m.nextSnapshotNs ∧
      ∃ sym, x = .snapshot (bookSnapshot tDeq sym (m'.books sym)) ∧ HasLevel (m'.books sym) := by
  unfold batch at hx
  split at hx
  · next hdue =>
    obtain ⟨sym, -, hsym⟩ := List.mem_filterMap.mp hx
    split at hsym
    · cases hsym
    · next hlevel => exact ⟨hdue, sym, (Option.some.inj hsym).symm, hlevel⟩
  · cases hx

/-- INTERNAL: and no book is in it twice. -/
theorem batch_pairwise (m m' : MarketMaker) (tDeq : ℤ) :
    (batch m m' tDeq).Pairwise fun x y => ∀ r r', x = .snapshot r → y = .snapshot r' → r.symbolId ≠ r'.symbolId := by
  unfold batch
  split
  · unfold pushSnapshots
    rw [List.pairwise_filterMap]
    refine (List.nodup_finRange kMaxSymbols).imp ?_
    rintro sym sym' hne x hx y hy r r' rfl rfl heq
    split at hx
    · cases hx
    · split at hy
      · cases hy
      · obtain rfl := Effect.snapshot.inj (Option.some.inj hx)
        obtain rfl := Effect.snapshot.inj (Option.some.inj hy)
        exact hne (Fin.ext heq)
  · exact List.Pairwise.nil

end Turn

/-! ## Runs -/

/-- A record shows the book as the latest snapshot taken for its symbol left it, and comes an interval
after every record of the symbol before it. -/
def SavedInTime (cfg : EngineConfig) (before : List Obs) : Obs → Prop
  | .strategy (.snapshot r) => ∃ sym : Fin kMaxSymbols,
      r = bookSnapshot r.tNs sym (lastBook cfg (appliedSnapshots before) sym) ∧
        HasLevel (lastBook cfg (appliedSnapshots before) sym) ∧
        ∀ r', .strategy (.snapshot r') ∈ before → r'.symbolId = r.symbolId → r'.tNs + snapEvery cfg ≤ r.tNs
  | _ => True

/-- INTERNAL: the invariant. -/
structure SavedInv (cfg : EngineConfig) (x : Engine × List Obs) : Prop where
  market : InStep cfg x
  saved : AtEach (SavedInTime cfg) x.2
  deadline : ∀ r, .strategy (.snapshot r) ∈ x.2 → r.tNs + snapEvery cfg ≤ x.1.mm.nextSnapshotNs

section Steps

variable {cfg : EngineConfig}

theorem savedInTime_of_ne {before : List Obs} {o : Obs} (ho : ∀ r, o ≠ .strategy (.snapshot r)) :
    SavedInTime cfg before o := by
  unfold SavedInTime
  split
  · next r => exact absurd rfl (ho r)
  · trivial

/-- INTERNAL: a step that records nothing. -/
theorem SavedInv.quiet {s t : Engine} {h obs : List Obs} (hs : SavedInv cfg (s, h))
    (hmarket : InStep cfg (t, h ++ obs)) (hnext : t.mm.nextSnapshotNs = s.mm.nextSnapshotNs)
    (hno : ∀ r, .strategy (.snapshot r) ∉ obs) : SavedInv cfg (t, h ++ obs) := by
  refine ⟨hmarket, atEach_append hs.saved ?_, ?_⟩
  · rintro before o after rfl
    refine savedInTime_of_ne ?_
    rintro r rfl
    exact hno r (List.mem_append_right _ List.mem_cons_self)
  · intro r hr
    dsimp only at hr ⊢
    rw [hnext]
    rcases List.mem_append.mp hr with hr | hr
    · exact hs.deadline r hr
    · exact absurd hr (hno r)

theorem mem_map_strategy {r : BookSnapshot} {es : List Effect} (h : Obs.strategy (.snapshot r) ∈ es.map .strategy) :
    .snapshot r ∈ es := by
  obtain ⟨x, hx, heq⟩ := List.mem_map.mp h
  rw [← Obs.strategy.inj heq]
  exact hx

theorem mem_append_strategy {r : BookSnapshot} {h : List Obs} {es : List Effect} :
    Obs.strategy (.snapshot r) ∈ h ++ es.map .strategy ↔ .strategy (.snapshot r) ∈ h ∨ .snapshot r ∈ es := by
  rw [List.mem_append]
  refine or_congr_right ⟨mem_map_strategy, fun hr => List.mem_map.mpr ⟨_, hr, rfl⟩⟩

/-- INTERNAL: a record stands in the batch, behind the rest of the turn. -/
theorem split_batch {front bs before after : List Effect} {r : BookSnapshot} (hfront : ∀ r, .snapshot r ∉ front)
    (h : front ++ bs = before ++ .snapshot r :: after) :
    ∃ before', before = front ++ before' ∧ bs = before' ++ .snapshot r :: after := by
  obtain ⟨before', hbefore, hbs⟩ | ⟨rest, hrest, hafter⟩ := List.append_eq_append_iff.mp h
  · exact ⟨before', hbefore, hbs⟩
  · cases rest with
    | nil =>
      rw [List.append_nil] at hrest
      exact ⟨[], by rw [hrest, List.append_nil], hafter.symm⟩
    | cons x rest =>
      obtain ⟨rfl, -⟩ := List.cons.inj hafter
      refine absurd ?_ (hfront r)
      rw [hrest]
      exact List.mem_append_right _ List.mem_cons_self

/-- INTERNAL: what is in a batch takes no snapshot. -/
theorem tookEvents_of_batch (m m' : MarketMaker) {tDeq : ℤ} (es : List Effect) (h : ∀ x ∈ es, x ∈ batch m m' tDeq) :
    tookEvents es = [] := by
  apply List.filterMap_eq_nil_iff.mpr
  intro x hx
  obtain ⟨-, sym, rfl, -⟩ := mem_batch (h x hx)
  rfl

/-- INTERNAL: **a market-data turn** records in time.
SRCLINE: src/strategy/market_maker.hpp:66-82, 149-162 -/
theorem SavedInv.md (hevery : 0 ≤ snapEvery cfg) {s t : Engine} {h : List Obs} {env : MdEnv} {ev : MdEvent} {m : MarketMaker} {es : List Effect}
    (hs : SavedInv cfg (s, h)) (hmarket : InStep cfg (t, h ++ es.map .strategy)) (hmm : t.mm = m)
    (hiter : mdIter cfg env s.mm ev = some (m, es)) : SavedInv cfg (t, h ++ es.map .strategy) := by
  obtain ⟨front, hes, hfront, hnext⟩ := mdIter_batch hiter
  have hdeadline : ∀ r, .strategy (.snapshot r) ∈ h → r.tNs + snapEvery cfg ≤ s.mm.nextSnapshotNs := hs.deadline
  have hbooks : ∀ sym, m.books sym = lastBook cfg (appliedSnapshots (h ++ es.map .strategy)) sym := by
    intro sym
    rw [← hmm]
    exact hmarket.books sym
  refine ⟨hmarket, atEach_append hs.saved ?_, ?_⟩
  · intro before o after heq
    by_cases ho : ∀ r, o ≠ .strategy (.snapshot r)
    · exact savedInTime_of_ne ho
    push Not at ho
    obtain ⟨r, rfl⟩ := ho
    obtain ⟨before, rest, hsplit, rfl, hrest⟩ := List.map_eq_append_iff.mp heq
    obtain ⟨x, after, rfl, hx, rfl⟩ := List.map_eq_cons_iff.mp hrest
    obtain rfl := Obs.strategy.inj hx
    rw [hes] at hsplit
    obtain ⟨before, rfl, hbatch⟩ := split_batch hfront hsplit
    obtain ⟨hdue, sym, hr, hlevel⟩ := mem_batch (m := s.mm) (x := .snapshot r)
      (by rw [hbatch]; exact List.mem_append_right _ List.mem_cons_self)
    obtain rfl := Effect.snapshot.inj hr
    -- the rest of the batch takes no snapshot, so the book is already the one at the end of the turn
    have hbook : m.books sym = lastBook cfg (appliedSnapshots (h ++ (front ++ before).map .strategy)) sym := by
      rw [hbooks, hes, hbatch, appliedSnapshots_append, appliedSnapshots_append]
      unfold appliedSnapshots
      rw [effects_map_strategy, effects_map_strategy, ← List.append_assoc, tookEvents_append,
        tookEvents_of_batch s.mm m (.snapshot _ :: after) (fun x hx => hbatch ▸ List.mem_append_right _ hx),
        List.append_nil]
    rw [hbook] at hlevel
    refine ⟨sym, by rw [← hbook]; rfl, hlevel, ?_⟩
    intro r' hr' hsame
    rcases mem_append_strategy.mp hr' with hr' | hr'
    · exact le_trans (hdeadline r' hr') hdue
    · rcases List.mem_append.mp hr' with hr' | hr'
      · exact absurd hr' (hfront r')
      · have hpair := batch_pairwise s.mm m env.tDeq
        rw [hbatch, List.pairwise_append] at hpair
        exact absurd hsame (hpair.2.2 _ hr' _ List.mem_cons_self r' _ rfl rfl)
  · intro r hr
    dsimp only at hr ⊢
    rw [hmm, hnext]
    rcases mem_append_strategy.mp hr with hr | hr
    · have hbefore := hdeadline r hr
      split
      · next hdue => exact (hbefore.trans hdue).trans (le_add_of_nonneg_right hevery)
      · exact hbefore
    · rw [hes] at hr
      rcases List.mem_append.mp hr with hr | hr
      · exact absurd hr (hfront r)
      · obtain ⟨hdue, sym, heq, -⟩ := mem_batch hr
        obtain rfl := Effect.snapshot.inj heq
        rw [if_pos hdue]
        exact le_refl _

/-- INTERNAL: **one step** of the engine, by whichever thread. -/
theorem SavedInv.step (hevery : 0 ≤ snapEvery cfg) {s t : Engine} {h obs : List Obs} {a : EngineAct}
    (hs : SavedInv cfg (s, h)) (hstep : EngineStep cfg s a t obs) : SavedInv cfg (t, h ++ obs) := by
  have hmarket := hs.market.step hstep
  cases hstep with
  | md env ev rest m es hring hiter => exact hs.md hevery hmarket rfl hiter
  | fill e rest sym hring hsym hfill =>
    refine hs.quiet hmarket rfl ?_
    cases (offer tradeCap s.tradeRing e).2 <;> simp
  | dropped | quoted | reported | execFault | exec | mdFault | pop | check | sendFault | send | persist | logon
  | logout => exact hs.quiet hmarket rfl (by simp)

/-- INTERNAL: a deadline is at most `T` if `T` is an interval after every dequeue.
SRCLINE: src/strategy/market_maker.hpp:46, 78-81 -/
theorem deadline_le {T : ℤ} {tCtor tRun : ℤ} {acts : List EngineAct} {s : Engine} {h : List Obs} (hrun : tRun ≤ T)
    (hacts : ∀ env, .md env ∈ acts → env.tDeq + snapEvery cfg ≤ T)
    (hreach : run (recorded (Engine.step cfg)) (Engine.init tCtor tRun, []) acts = some (s, h)) :
    s.mm.nextSnapshotNs ≤ T := by
  have hall : ∀ a ∈ acts, ∀ env, a = .md env → env.tDeq + snapEvery cfg ≤ T := by
    rintro a ha env rfl
    exact hacts env ha
  refine run_invariant (I := fun x : Engine × List Obs => x.1.mm.nextSnapshotNs ≤ T) ?_ hrun
    ((along_true _ acts).and_mem hall) hreach
  rintro ⟨s, h⟩ a ⟨t, h'⟩ hs ⟨-, hG⟩ hact
  obtain ⟨obs, hobs, -⟩ := recorded_eq_some.mp hact
  have hstep := (step_engineStep hobs).2
  dsimp only at hs hstep ⊢
  cases hstep with
  | md env ev rest m es hring hiter =>
    obtain ⟨-, -, -, hnext⟩ := mdIter_batch hiter
    dsimp only
    rw [hnext]
    split
    · exact hG env rfl
    · exact hs
  | dropped | quoted | reported | execFault | exec | fill | mdFault | pop | check | sendFault | send | persist
  | logon | logout => exact hs

/-- **The books are saved in time.**  In every run of the engine, by whatever interleaving of its threads:
each record offered to the persister shows the book as the latest snapshot taken for its symbol left it,
with at least one level, and comes the configured interval after every earlier record of the symbol; and
a turn of the strategy that comes at least the interval after all earlier ones, and not before the loop
started, offers every book that has a level.
SRCLINE: src/strategy/market_maker.hpp:45-47, 65-82, 149-162 -/
theorem books_saved (hinterval : 0 ≤ cfg.snapshotIntervalMs) {tCtor tRun : ℤ} {acts : List EngineAct} {s : Engine}
    {h : List Obs} (hreach : run (recorded (Engine.step cfg)) (Engine.init tCtor tRun, []) acts = some (s, h)) :
    AtEach (SavedInTime cfg) h ∧
      ∀ env t obs, tRun ≤ env.tDeq → (∀ env', .md env' ∈ acts → env'.tDeq + snapEvery cfg ≤ env.tDeq) →
        s.step cfg (.md env) = some (t, obs) → t.faulted = false →
          ∀ sym, HasLevel (t.mm.books sym) →
            .strategy (.snapshot (bookSnapshot env.tDeq sym (t.mm.books sym))) ∈ obs := by
  have hevery : 0 ≤ snapEvery cfg := by
    unfold snapEvery
    omega
  constructor
  · have hinv : SavedInv cfg (s, h) := by
      refine run_invariant' ?_ ?_ hreach
      · rintro ⟨s, h⟩ a ⟨t, h'⟩ hs hact
        obtain ⟨obs, hobs, rfl⟩ := recorded_eq_some.mp hact
        exact hs.step hevery (step_engineStep hobs).2
      · have hnone : run (recorded (Engine.step cfg)) (Engine.init tCtor tRun, []) [] =
            some (Engine.init tCtor tRun, []) := rfl
        exact ⟨inStep_run hnone, atEach_nil _, fun r hr => absurd hr List.not_mem_nil⟩
    exact hinv.saved
  · intro env t obs hrun hacts hstep hok sym hlevel
    have hdue := deadline_le hrun hacts hreach
    cases (step_engineStep hstep).2 with
    | mdFault _ ev rest hring hbad => cases hok
    | md _ ev rest m es hring hiter =>
      obtain ⟨front, rfl, -, -⟩ := mdIter_batch hiter
      refine List.mem_map.mpr ⟨_, List.mem_append_right _ ?_, rfl⟩
      unfold batch
      rw [if_pos hdue]
      refine List.mem_filterMap.mpr ⟨sym, List.mem_finRange sym, ?_⟩
      rw [if_neg hlevel]

end Steps

/-- Two snapshots, taken a second apart, and a third half a second later. -/
def threeTaken : List EngineAct :=
  [.recv (.marketData (twoSided "DLR".toList 99 101)) 0, .recv (.marketData (twoSided "DLR".toList 98 102)) 0,
    .recv (.marketData (twoSided "DLR".toList 97 103)) 0, .md { quickEnv with tDeq := 0 },
    .md { quickEnv with tDeq := 1000000000 }, .md { quickEnv with tDeq := 1500000000 }]

/-- The records of the symbol: its best bids, and when they were saved. -/
theorem books_saved_threeTaken :
    ∃ s h, run (recorded (Engine.step { symbols := ["DLR".toList], snapshotIntervalMs := 1000 }))
        (Engine.init 1000000000 0, []) threeTaken = some (s, h) ∧
      (h.filterMap fun o => match o with
        | .strategy (.snapshot r) => some (r.tNs, r.bidPx 0)
        | _ => none) = [(0, 99), (1000000000, 98)] ∧
      AtEach (SavedInTime { symbols := ["DLR".toList], snapshotIntervalMs := 1000 }) h := by
  have heval : (run (recorded (Engine.step { symbols := ["DLR".toList], snapshotIntervalMs := 1000 }))
      (Engine.init 1000000000 0, []) threeTaken).map (fun x => x.2.filterMap fun o => match o with
        | .strategy (.snapshot r) => some (r.tNs, r.bidPx 0)
        | _ => none) = some [(0, 99), (1000000000, 98)] := by
    decide +kernel
  obtain ⟨⟨s, h⟩, hrun, hrecords⟩ := Option.map_eq_some_iff.mp heval
  exact ⟨s, h, hrun, hrecords, (books_saved (by decide) hrun).1⟩

end MmEngine.Analysis
