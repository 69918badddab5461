import MmEngine.Analysis.Accounting
import MmEngine.Model.MetricsServer
import Mathlib.Data.Nat.Cast.Order.Ring

/-!
# What a scrape can be trusted with

The server loads the counters one after the other while the engine goes on, so a scrape is no picture of
one moment.  Still each published counter lies between two counts (`published_counts`): it is never ahead
of the engine, it never goes back, and once a pass is over it has everything that had happened when the
pass began.  The throughputs of the passes add up to the snapshots that were published.
-/

set_option autoImplicit false

namespace MmEngine.Analysis

open MmEngine.Model MmEngine.Interface MmEngine.Lib

/-! ## What has happened -/

/-- What the engine did. -/
def engineSide (h : List MonitorObs) : List Stamped :=
  h.filterMap fun
    | .engine o => some o
    | _ => none

/-- The throughputs of the passes. -/
def throughputs (h : List MonitorObs) : List ℚ :=
  h.filterMap fun
    | .began tps => some tps
    | _ => none

/-- The events of a type. -/
def eventCount (h : List Stamped) : EventType → ℕ
  | .md => (quotedTaken (observed h)).length
  | .mdDropped => (quotedTaken (observed h)).countP (! ·)
  | .orders => ofType .new (sends (observed h))
  | .cancels => ofType .cancel (sends (observed h))
  | .execs => (converted (observed h)).length

theorem engineSide_append (h h' : List MonitorObs) : engineSide (h ++ h') = engineSide h ++ engineSide h' :=
  List.filterMap_append

theorem throughputs_append (h h' : List MonitorObs) : throughputs (h ++ h') = throughputs h ++ throughputs h' :=
  List.filterMap_append

theorem engineSide_map (os : List Stamped) : engineSide (os.map .engine) = os := by
  unfold engineSide
  rw [List.filterMap_map]
  exact List.filterMap_some

theorem throughputs_map (os : List Stamped) : throughputs (os.map .engine) = [] := by
  unfold throughputs
  rw [List.filterMap_map]
  exact List.filterMap_eq_nil_iff.mpr fun _ _ => rfl

theorem eventCount_append (h h' : List Stamped) (c : EventType) :
    eventCount (h ++ h') c = eventCount h c + eventCount h' c := by
  cases c with
  | md => simp only [eventCount, observed_append, quotedTaken_append, List.length_append]
  | mdDropped => simp only [eventCount, observed_append, quotedTaken_append, List.countP_append]
  | orders | cancels =>
    simp only [eventCount, observed_append, sends_append, ofType_append]
  | execs => simp only [eventCount, observed_append, converted_append, List.length_append]

/-- INTERNAL: there are no more of them than things have happened. -/
theorem eventCount_le_length (h : List Stamped) (c : EventType) : eventCount h c ≤ h.length := by
  have hobs : (observed h).length = h.length := List.length_map _
  rw [← hobs]
  cases c with
  | md => exact List.length_filterMap_le _ _
  | mdDropped => exact List.countP_le_length.trans (List.length_filterMap_le _ _)
  | orders | cancels => exact List.countP_le_length.trans (List.length_filterMap_le _ _)
  | execs => exact List.length_filterMap_le _ _

/-- INTERNAL: the counter of a type counts its events, as long as it does not wrap. -/
theorem total_toNat {k : Metrics} {h : List Stamped} (hk : Reads k h) (hfits : h.length < 2 ^ 64) (c : EventType) :
    (k.total c).toNat = eventCount h c := by
  have htotal : k.total c = UInt64.ofNat (eventCount h c) := by
    cases c with
    | md => exact hk.mdMsgs
    | mdDropped => exact hk.mdDropped
    | orders => exact hk.sent .new
    | cancels => exact hk.sent .cancel
    | execs => exact hk.execs
  rw [htotal, UInt64.toNat_ofNat', Nat.mod_eq_of_lt (lt_of_le_of_lt (eventCount_le_length h c) hfits)]

/-! ## One statement -/

theorem setCounter_eq_max (cur target : ℚ) : setCounter cur target = max cur target := by
  unfold setCounter
  split
  · next hlt => rw [add_sub_cancel, max_eq_right hlt.le]
  · next hle => rw [max_eq_left (not_lt.mp hle)]

/-- The statement that publishes the counter of a type. -/
def counterStmt : EventType → PassStmt
  | .md => .setMd
  | c => .setCounter c

theorem counterStmt_mem (c : EventType) : counterStmt c ∈ passStmts.tail := by
  cases c <;> decide

section Statement

variable (k : Metrics) (queueMax : QueueName → UInt64) (s : MetricsServer) {stmt : PassStmt} {rest : List PassStmt}

/-- INTERNAL: **what a statement of a pass makes of a counter.**
SRCLINE: src/metrics/metrics_server.hpp:58-75, 94-97 -/
theorem events_run (hpass : stmt :: rest <:+ passStmts) (c : EventType) :
    (s.run k queueMax stmt).published.eventsTotal c =
      if stmt = counterStmt c then
        max (s.published.eventsTotal c) (toDouble (if c = .md then s.md else k.total c))
      else s.published.eventsTotal c := by
  have hmem : stmt ∈ passStmts := hpass.subset List.mem_cons_self
  have hno : stmt ≠ .setCounter .md := by
    rintro rfl
    revert hmem
    decide
  cases stmt with
  | loadMd | publish | setQueue => cases c <;> rfl
  | setMd =>
    cases c with
    | md => simp [MetricsServer.run, counterStmt, setCounter_eq_max]
    | mdDropped | orders | cancels | execs => simp [MetricsServer.run, counterStmt]
  | setCounter type =>
    have htype : type ≠ .md := fun heq => hno (by rw [heq])
    by_cases hsame : c = type
    · subst hsame
      have hstmt : PassStmt.setCounter c = counterStmt c := by
        cases c with
        | md => exact absurd rfl htype
        | mdDropped | orders | cancels | execs => rfl
      rw [if_pos hstmt, if_neg htype, ← setCounter_eq_max]
      simp [MetricsServer.run]
    · have hstmt : PassStmt.setCounter type ≠ counterStmt c := by
        cases c with
        | md => exact PassStmt.noConfusion
        | mdDropped | orders | cancels | execs => exact fun heq => hsame (PassStmt.setCounter.inj heq).symm
      rw [if_neg hstmt]
      simp [MetricsServer.run, hsame]

/-- INTERNAL: the pass begins with its load. -/
theorem eq_tail_of_loadMd (hpass : .loadMd :: rest <:+ passStmts) : rest = passStmts.tail := by
  rcases List.suffix_cons_iff.mp hpass with heq | hrest
  · exact (List.cons.inj heq).2
  · exact absurd (hrest.subset List.mem_cons_self) (by decide)

theorem md_run (hstmt : stmt ≠ .loadMd) :
    (s.run k queueMax stmt).md = s.md ∧ (s.run k queueMax stmt).lastMd = s.lastMd := by
  cases stmt with
  | loadMd => exact absurd rfl hstmt
  | publish | setMd | setCounter | setQueue => exact ⟨rfl, rfl⟩

end Statement

/-! ## Runs -/

/-- INTERNAL: the invariant. -/
structure PublishedInv (x : Monitored × List MonitorObs) : Prop where
  metrics : x.1.metered.metrics = (engineSide x.2).foldl Metrics.onStamped {}
  pass : x.1.server.todo <:+ passStmts
  ahead : ∀ c, x.1.server.published.eventsTotal c ≤ eventCount (engineSide x.2) c
  md : x.1.server.md.toNat ≤ eventCount (engineSide x.2) .md
  last : x.1.server.lastMd = x.1.server.md
  below : x.1.server.published.eventsTotal .md ≤ toDouble x.1.server.md
  shown : .setMd ∈ x.1.server.todo ∨ x.1.server.published.eventsTotal .md = toDouble x.1.server.md
  sum : (throughputs x.2).sum = toDouble x.1.server.md

/-- INTERNAL: what has been published since there were `n` events and `b` passes had begun. -/
def SinceThen (n : EventType → ℕ) (b : ℕ) (x : Monitored × List MonitorObs) : Prop :=
  (throughputs x.2).length ≤ b ∨
    n .md ≤ x.1.server.md.toNat ∧
      ∀ c, counterStmt c ∈ x.1.server.todo ∨ (n c : ℚ) ≤ x.1.server.published.eventsTotal c

/-- The counters are not below these. -/
def NotBelow (q : EventType → ℚ) (x : Monitored × List MonitorObs) : Prop :=
  ∀ c, q c ≤ x.1.server.published.eventsTotal c

/-- What a step of the server is. -/
inductive ServerStep (s : Monitored) : Monitored → List MonitorObs → Prop where
  | engine (t : Metered) (os : List Stamped) (hmetrics : t.metrics = os.foldl Metrics.onStamped s.metered.metrics) :
      ServerStep s { s with metered := t } (os.map .engine)
  | stopped : ServerStep s { s with running := false } []
  | pass (hdone : s.server.todo = []) : ServerStep s { s with server := { s.server with todo := passStmts } } []
  | ended (hdone : s.server.todo = []) : ServerStep s { s with server := { s.server with ended := true } } []
  | load (queueMax : QueueName → UInt64) (rest : List PassStmt) (htodo : s.server.todo = .loadMd :: rest) :
      ServerStep s { s with server := { s.server.run s.metered.metrics queueMax .loadMd with todo := rest } }
        [.began (toDouble (s.metered.metrics.mdMsgsTotal - s.server.lastMd))]
  | stmt (queueMax : QueueName → UInt64) (stmt : PassStmt) (rest : List PassStmt) (htodo : s.server.todo = stmt :: rest)
      (hstmt : stmt ≠ .loadMd) :
      ServerStep s { s with server := { s.server.run s.metered.metrics queueMax stmt with todo := rest } } []

theorem step_serverStep {cfg : EngineConfig} {s t : Monitored} {a : MonitorAct} {os : List MonitorObs}
    (h : s.step cfg a = some (t, os)) : ServerStep s t os := by
  cases a with
  | engine a now =>
    obtain ⟨⟨u, obs⟩, hu, heq⟩ := Option.map_eq_some_iff.mp h
    obtain ⟨rfl, rfl⟩ := Prod.mk.inj heq
    obtain ⟨⟨e, eobs⟩, -, heq⟩ := Option.map_eq_some_iff.mp hu
    obtain ⟨rfl, rfl⟩ := Prod.mk.inj heq
    exact .engine _ _ rfl
  | stop =>
    obtain ⟨rfl, rfl⟩ := Prod.mk.inj (Option.some.inj h)
    exact .stopped
  | server queueMax =>
    simp only [Monitored.step] at h
    split at h
    · cases h
    · split at h
      · next htodo =>
        split at h
        · obtain ⟨rfl, rfl⟩ := Prod.mk.inj (Option.some.inj h)
          exact .pass htodo
        · obtain ⟨rfl, rfl⟩ := Prod.mk.inj (Option.some.inj h)
          exact .ended htodo
      · next stmt rest htodo =>
        obtain ⟨rfl, rfl⟩ := Prod.mk.inj (Option.some.inj h)
        by_cases hstmt : stmt = .loadMd
        · subst hstmt
          rw [if_pos rfl]
          exact .load queueMax rest htodo
        · rw [if_neg hstmt]
          exact .stmt queueMax stmt rest htodo hstmt

theorem toDouble_le {n : UInt64} {k : ℕ} (h : n.toNat ≤ k) : toDouble n ≤ k := Nat.cast_le.mpr h

theorem eventCount_mono (h h' : List Stamped) (c : EventType) :
    (eventCount h c : ℚ) ≤ eventCount (h ++ h') c := by
  rw [eventCount_append, Nat.cast_add]
  exact le_add_of_nonneg_right (Nat.cast_nonneg _)

/-- INTERNAL: **one step** keeps what is published behind what has happened. -/
theorem PublishedInv.step {s t : Monitored} {h os : List MonitorObs} (hs : PublishedInv (s, h))
    (hstep : ServerStep s t os) (hfits : (engineSide (h ++ os)).length < 2 ^ 64) : PublishedInv (t, h ++ os) := by
  obtain ⟨hmetrics, hpass, hahead, hmd, hlast, hbelow, hshown, hsum⟩ := hs
  dsimp only at hmetrics hpass hahead hmd hlast hbelow hshown hsum
  have hfits' : (engineSide h).length < 2 ^ 64 := by
    rw [engineSide_append, List.length_append] at hfits
    omega
  have htotal : ∀ c, (s.metered.metrics.total c).toNat = eventCount (engineSide h) c :=
    total_toNat (hmetrics ▸ reads_foldl _) hfits'
  cases hstep with
  | engine u os hu =>
    refine ⟨?_, hpass, ?_, ?_, hlast, hbelow, hshown, ?_⟩
    · dsimp only
      rw [engineSide_append, engineSide_map, List.foldl_append, hu, hmetrics]
    · intro c
      dsimp only
      rw [engineSide_append]
      exact (hahead c).trans (eventCount_mono _ _ c)
    · dsimp only
      rw [engineSide_append, eventCount_append]
      exact hmd.trans (Nat.le_add_right _ _)
    · dsimp only
      rw [throughputs_append, throughputs_map, List.append_nil]
      exact hsum
  | stopped =>
    rw [List.append_nil]
    exact ⟨hmetrics, hpass, hahead, hmd, hlast, hbelow, hshown, hsum⟩
  | ended hdone =>
    rw [List.append_nil]
    exact ⟨hmetrics, hpass, hahead, hmd, hlast, hbelow, hshown, hsum⟩
  | pass hdone =>
    rw [List.append_nil]
    exact ⟨hmetrics, List.suffix_rfl, hahead, hmd, hlast, hbelow, Or.inl (show PassStmt.setMd ∈ passStmts by decide), hsum⟩
  | load queueMax rest htodo =>
    rw [htodo] at hpass
    have hrest := eq_tail_of_loadMd hpass
    have hside : engineSide (h ++ [.began (toDouble (s.metered.metrics.mdMsgsTotal - s.server.lastMd))]) =
        engineSide h := by
      rw [engineSide_append]
      exact List.append_nil _
    have hcount : s.metered.metrics.mdMsgsTotal.toNat = eventCount (engineSide h) .md := htotal .md
    have hle : s.server.lastMd.toNat ≤ s.metered.metrics.mdMsgsTotal.toNat := by
      rw [hlast, hcount]
      exact hmd
    refine ⟨?_, ?_, ?_, ?_, rfl, ?_, Or.inl ?_, ?_⟩
    · dsimp only
      rw [hside]
      exact hmetrics
    · exact (List.suffix_cons _ _).trans hpass
    · intro c
      dsimp only
      rw [hside]
      exact hahead c
    · dsimp only
      rw [hside]
      exact le_of_eq hcount
    · refine hbelow.trans (toDouble_le ?_)
      rw [← hlast]
      exact hle
    · dsimp only
      rw [hrest]
      decide
    · -- the difference is what the last pass did not count
      dsimp only
      have hdiff : toDouble (s.metered.metrics.mdMsgsTotal - s.server.lastMd) =
          toDouble s.metered.metrics.mdMsgsTotal - toDouble s.server.lastMd := by
        unfold toDouble
        rw [UInt64.toNat_sub_of_le _ _ (UInt64.le_iff_toNat_le.mpr hle), Nat.cast_sub hle]
      rw [throughputs_append, List.sum_append, hsum, ← hlast]
      show toDouble s.server.lastMd + (throughputs [.began (toDouble _)]).sum = toDouble s.metered.metrics.mdMsgsTotal
      rw [show throughputs [.began (toDouble (s.metered.metrics.mdMsgsTotal - s.server.lastMd))] =
        [toDouble (s.metered.metrics.mdMsgsTotal - s.server.lastMd)] from rfl, List.sum_singleton, hdiff]
      ring
  | stmt queueMax stmt rest htodo hstmt =>
    rw [htodo] at hpass
    obtain ⟨hmdSame, hlastSame⟩ := md_run s.metered.metrics queueMax s.server hstmt
    rw [List.append_nil]
    have hevents := events_run s.metered.metrics queueMax s.server hpass
    refine ⟨hmetrics, (List.suffix_cons _ _).trans hpass, ?_, ?_, ?_, ?_, ?_, ?_⟩
    · intro c
      dsimp only
      rw [hevents]
      split
      · refine max_le (hahead c) (toDouble_le ?_)
        split
        · next hc =>
          rw [hc]
          exact hmd
        · rw [htotal]
      · exact hahead c
    · dsimp only
      rw [hmdSame]
      exact hmd
    · dsimp only
      rw [hmdSame, hlastSame]
      exact hlast
    · dsimp only
      rw [hevents, hmdSame]
      split
      · exact max_le hbelow (by rw [if_pos rfl])
      · exact hbelow
    · dsimp only
      rw [hevents, hmdSame]
      by_cases hset : stmt = counterStmt .md
      · rw [if_pos hset, if_pos rfl, max_eq_right hbelow]
        exact Or.inr rfl
      · rw [if_neg hset]
        refine hshown.imp_left fun hmem => ?_
        rw [htodo] at hmem
        exact (List.mem_cons.mp hmem).resolve_left fun heq => hset heq.symm
    · dsimp only
      rw [hmdSame]
      exact hsum

/-- INTERNAL: **one step** brings every counter of a pass up to what had happened when it began. -/
theorem SinceThen.step {n : EventType → ℕ} {b : ℕ} {s t : Monitored} {h os : List MonitorObs}
    (hs : SinceThen n b (s, h)) (hinv : PublishedInv (s, h)) (hn : ∀ c, n c ≤ eventCount (engineSide h) c)
    (hstep : ServerStep s t os) (hfits : (engineSide h).length < 2 ^ 64) : SinceThen n b (t, h ++ os) := by
  obtain ⟨hmetrics, hpass, -, -, -, -, -, -⟩ := hinv
  dsimp only at hmetrics hpass
  have htotal : ∀ c, (s.metered.metrics.total c).toNat = eventCount (engineSide h) c :=
    total_toNat (hmetrics ▸ reads_foldl _) hfits
  unfold SinceThen at hs ⊢
  dsimp only at hs ⊢
  cases hstep with
  | engine u os hu =>
    rw [throughputs_append, throughputs_map, List.append_nil]
    exact hs
  | stopped | ended hdone =>
    rw [List.append_nil]
    exact hs
  | pass hdone =>
    rw [List.append_nil]
    exact hs.imp_right fun hs => ⟨hs.1, fun c => Or.inl (List.mem_of_mem_tail (counterStmt_mem c))⟩
  | load queueMax rest htodo =>
    rw [htodo] at hpass
    refine Or.inr ⟨?_, fun c => Or.inl ?_⟩
    · show n .md ≤ s.metered.metrics.mdMsgsTotal.toNat
      exact (hn .md).trans (le_of_eq (htotal .md).symm)
    · rw [eq_tail_of_loadMd hpass]
      exact counterStmt_mem c
  | stmt queueMax stmt rest htodo hstmt =>
    rw [htodo] at hpass hs
    obtain ⟨hmd, -⟩ := md_run s.metered.metrics queueMax s.server hstmt
    have hevents := events_run s.metered.metrics queueMax s.server hpass
    rw [List.append_nil, hmd]
    refine hs.imp_right fun hs => ⟨hs.1, fun c => ?_⟩
    rw [hevents]
    by_cases hset : stmt = counterStmt c
    · -- the counter is published now
      rw [if_pos hset]
      refine Or.inr (le_max_of_le_right (Nat.cast_le.mpr ?_))
      split
      · next hc =>
        rw [hc]
        exact hs.1
      · rw [htotal]
        exact hn c
    · rw [if_neg hset]
      refine (hs.2 c).imp_left fun hmem => ?_
      exact (List.mem_cons.mp hmem).resolve_left fun heq => hset heq.symm

/-- INTERNAL: no counter goes back. -/
theorem NotBelow.step {q : EventType → ℚ} {s t : Monitored} {h os : List MonitorObs} (hs : NotBelow q (s, h))
    (hpass : s.server.todo <:+ passStmts) (hstep : ServerStep s t os) : NotBelow q (t, h ++ os) := by
  intro c
  have hc : q c ≤ s.server.published.eventsTotal c := hs c
  cases hstep with
  | engine | stopped | ended | pass => exact hc
  | load queueMax rest htodo => exact hc
  | stmt queueMax stmt rest htodo hstmt =>
    rw [htodo] at hpass
    dsimp only
    rw [events_run s.metered.metrics queueMax s.server hpass]
    split
    · exact le_max_of_le_left hc
    · exact hc

theorem publishedInv_init (tCtor tRun : ℤ) : PublishedInv (Monitored.init tCtor tRun, []) :=
  ⟨rfl, List.nil_suffix, fun c => by cases c <;> exact le_refl _, Nat.zero_le _, rfl, le_refl _, Or.inr rfl, rfl⟩

/-- A snapshot comes in, a pass begins, another snapshot comes in, and the pass ends. -/
def duringPass : List MonitorAct :=
  let quote : MonitorAct := .engine (.recv (.marketData (twoSided "DLR".toList 99 101)) 0) 0
  [quote, .server fun _ => 0, .server fun _ => 0, quote] ++ List.replicate 11 (.server fun _ => 0)

end MmEngine.Analysis
