import MmEngine.Analysis.ConcurrentHistogram
import MmEngine.Analysis.LostReports
import MmEngine.Analysis.MarketView
import MmEngine.Analysis.PercentileAccuracy
import MmEngine.Analysis.SenderGate
import MmEngine.Model.Metrics

/-!
# What the metrics add up to

The registry is written by three threads, each of which sees a part of what happens to a snapshot
or a command.  Its counters and histograms are those of the history (`Reads`), and the histories of
the threads fit together (`InStep`, `Relayed`), so they balance: what has come in is what was
dropped, what was processed and what is still waiting.

The strategy reads the clock twice for a snapshot, and the second reading is not the earlier one.
So the percentiles of the processing time are not below those of the time in the queue, wherever
`bucket_upper` is in order.
-/

set_option autoImplicit false

namespace MmEngine.Analysis

open MmEngine.Model MmEngine.Model.MarketMaker MmEngine.Model.LatencyHistogram MmEngine.Interface
open MmEngine.Lib

/-! ## What a stamped history says -/

/-- The history without the clock readings. -/
def observed (h : List Stamped) : List Obs := h.map Stamped.obs

/-- The snapshots the strategy took, with the readings at the dequeue and after the update. -/
def takes (h : List Stamped) : List (MdEvent × ℤ × ℤ) :=
  h.filterMap fun o => match o.obs with
    | .strategy (.took ev) => some (ev, o.deq, o.now)
    | _ => none

/-- The times in the queue. -/
def waits (h : List Stamped) : List Int64 := (takes h).map fun x => elapsed x.2.1 x.1.tRecvNs

/-- The times from the entry to the updated book. -/
def processings (h : List Stamped) : List Int64 := (takes h).map fun x => elapsed x.2.2 x.1.tRecvNs

/-- The times from the entry of a snapshot to the order it made the strategy send. -/
def orderTimes (h : List Stamped) : List Int64 :=
  h.filterMap fun o => match o.obs with
    | .sent c _ => if c.type = .new then some (elapsed o.now c.tMdNs) else none
    | _ => none

/-- The snapshots that were converted, with the answers of the ring. -/
def quotedTaken (h : List Obs) : List Bool :=
  h.filterMap fun
    | .quoted _ _ taken => some taken
    | _ => none

/-- How many of the commands are of the type. -/
def ofType (ty : OrdCmdType) (cs : List OrderCmd) : ℕ := cs.countP fun c => c.type = ty

/-- The counter of the commands of the type. -/
def sentTotal (k : Metrics) : OrdCmdType → UInt64
  | .new => k.ordersSentTotal
  | .cancel => k.cancelsSentTotal

/-- The registry holds what the history says. -/
structure Reads (k : Metrics) (h : List Stamped) : Prop where
  queueWait : k.queueWait = recordAll (waits h)
  mdProcessing : k.mdProcessing = recordAll (processings h)
  tickToTrade : k.tickToTrade = recordAll (orderTimes h)
  mdMsgs : k.mdMsgsTotal = UInt64.ofNat (quotedTaken (observed h)).length
  mdDropped : k.mdDroppedTotal = UInt64.ofNat ((quotedTaken (observed h)).countP (! ·))
  sent : ∀ ty, sentTotal k ty = UInt64.ofNat (ofType ty (sends (observed h)))
  execs : k.execsTotal = UInt64.ofNat (converted (observed h)).length

theorem observed_append (h h' : List Stamped) : observed (h ++ h') = observed h ++ observed h' :=
  List.map_append

theorem takes_append (h h' : List Stamped) : takes (h ++ h') = takes h ++ takes h' :=
  List.filterMap_append

theorem orderTimes_append (h h' : List Stamped) :
    orderTimes (h ++ h') = orderTimes h ++ orderTimes h' := List.filterMap_append

theorem quotedTaken_append (h h' : List Obs) :
    quotedTaken (h ++ h') = quotedTaken h ++ quotedTaken h' := List.filterMap_append

theorem ofType_append (ty : OrdCmdType) (cs cs' : List OrderCmd) :
    ofType ty (cs ++ cs') = ofType ty cs + ofType ty cs' := List.countP_append

/-- INTERNAL: a counter that advances for some of the observed events. -/
theorem counter_foldl {γ : Type} (part : Metrics → UInt64) {f : Obs → Option γ} (p : γ → Bool)
    (hzero : part {} = 0) (hstep : ∀ k o, part (Metrics.onStamped k o) =
      (f o.obs).elim (part k) fun x => if p x then part k + 1 else part k) (h : List Stamped) :
    part (h.foldl Metrics.onStamped {}) = UInt64.ofNat (((observed h).filterMap f).countP p) := by
  rw [foldl_filterMap_eq part (f := f ∘ Stamped.obs) (g := fun n x => if p x then n + 1 else n) hstep, hzero,
    observed, List.filterMap_map]
  exact (foldl_count p _ 0).trans (by rw [Nat.zero_add])

/-- INTERNAL: **the registry after a history** is the one the history tells of.
SRCLINE: src/metrics/metrics.hpp:20-31 -/
theorem reads_foldl (h : List Stamped) : Reads (h.foldl Metrics.onStamped {}) h where
  queueWait := by
    rw [waits, recordAll, List.foldl_map]
    refine foldl_filterMap_eq Metrics.queueWait ?_ {} h
    rintro k ⟨obs, deq, now⟩
    cases obs with
    | strategy x => cases x <;> rfl
    | sent c m => cases hty : c.type <;> simp [Metrics.onStamped, Metrics.onSent, hty]
    | _ => rfl
  mdProcessing := by
    rw [processings, recordAll, List.foldl_map]
    refine foldl_filterMap_eq Metrics.mdProcessing ?_ {} h
    rintro k ⟨obs, deq, now⟩
    cases obs with
    | strategy x => cases x <;> rfl
    | sent c m => cases hty : c.type <;> simp [Metrics.onStamped, Metrics.onSent, hty]
    | _ => rfl
  tickToTrade := by
    refine foldl_filterMap_eq Metrics.tickToTrade ?_ {} h
    rintro k ⟨obs, deq, now⟩
    cases obs with
    | strategy x => cases x <;> rfl
    | sent c m => cases hty : c.type <;> simp [Metrics.onStamped, Metrics.onSent, hty]
    | _ => rfl
  mdMsgs := by
    rw [← List.countP_true]
    refine counter_foldl Metrics.mdMsgsTotal (fun _ => true) rfl ?_ h
    rintro k ⟨obs, deq, now⟩
    cases obs with
    | strategy x => cases x <;> rfl
    | sent c m => cases hty : c.type <;> simp [Metrics.onStamped, Metrics.onSent, hty]
    | _ => rfl
  mdDropped := by
    refine counter_foldl Metrics.mdDroppedTotal (! ·) rfl ?_ h
    rintro k ⟨obs, deq, now⟩
    cases obs with
    | quoted m ev taken => cases taken <;> rfl
    | strategy x => cases x <;> rfl
    | sent c m => cases hty : c.type <;> simp [Metrics.onStamped, Metrics.onSent, hty]
    | _ => rfl
  sent := by
    intro ty
    refine counter_foldl (sentTotal · ty) (fun c : OrderCmd => c.type = ty)
      (by cases ty <;> rfl) ?_ h
    rintro k ⟨obs, deq, now⟩
    cases obs with
    | strategy x => cases ty <;> cases x <;> rfl
    | sent c m => cases ty <;> cases hty : c.type <;> simp [Metrics.onStamped, Metrics.onSent, hty, sentTotal]
    | _ => cases ty <;> rfl
  execs := by
    rw [← List.countP_true]
    refine counter_foldl Metrics.execsTotal (fun _ => true) rfl ?_ h
    rintro k ⟨obs, deq, now⟩
    cases obs with
    | strategy x => cases x <;> rfl
    | sent c m => cases hty : c.type <;> simp [Metrics.onStamped, Metrics.onSent, hty]
    | _ => rfl

/-! ## The registry beside the engine -/

/-- INTERNAL: a run of the metered engine is a run of the engine, and its registry is that of its
history. -/
theorem metered_run {cfg : EngineConfig} {tCtor tRun : ℤ} {as : List (EngineAct × ℤ)} {s : Metered}
    {h : List Stamped}
    (hrun : run (recorded (Metered.step cfg)) (Metered.init tCtor tRun, []) as = some (s, h)) :
    run (recorded (Engine.step cfg)) (Engine.init tCtor tRun, []) (as.map Prod.fst) =
        some (s.engine, observed h) ∧
      Reads s.metrics h := by
  constructor
  · refine run_map (f := fun x : Metered × List Stamped => (x.1.engine, observed x.2)) ?_ hrun
    rintro ⟨s, h⟩ ⟨a, now⟩ ⟨t, h'⟩ hstep
    obtain ⟨os, hos, rfl⟩ := recorded_eq_some.mp hstep
    obtain ⟨⟨t', obs⟩, hobs, heq⟩ := Option.map_eq_some_iff.mp hos
    obtain ⟨rfl, rfl⟩ := Prod.mk.inj heq
    refine recorded_eq_some.mpr ⟨obs, hobs, ?_⟩
    have hstamp : observed (obs.map (stamp a now)) = obs := by
      rw [observed, List.map_map]
      conv_rhs => rw [← List.map_id obs]
      congr 1
      funext o
      cases a <;> rfl
    rw [observed_append, hstamp]
  · have hmetrics : s.metrics = h.foldl Metrics.onStamped {} := by
      refine run_invariant' (I := fun x : Metered × List Stamped => x.1.metrics = x.2.foldl Metrics.onStamped {})
        ?_ rfl hrun
      rintro ⟨s, h⟩ ⟨a, now⟩ ⟨t, h'⟩ hs hstep
      obtain ⟨os, hos, rfl⟩ := recorded_eq_some.mp hstep
      obtain ⟨⟨t', obs⟩, hobs, heq⟩ := Option.map_eq_some_iff.mp hos
      obtain ⟨rfl, rfl⟩ := Prod.mk.inj heq
      dsimp only at hs ⊢
      rw [List.foldl_append, hs]
    rw [hmetrics]
    exact reads_foldl h

/-! ## What balances -/

/-- The commands the sender has popped and not sent. -/
def inHand (s : Sender) : List OrderCmd := unchecked s ++ unsent s

/-- The commands the sender dropped because the session was down. -/
def discarded (h : List Obs) : List OrderCmd := ((checks h).filter fun x => !x.2).map Prod.fst

/-- The reports the exec ring had no room for. -/
def lostReports (h : List Obs) : List ExecEvent :=
  h.filterMap fun
    | .reported _ e false => some e
    | _ => none

/-- INTERNAL: each converted snapshot was accepted or dropped. -/
theorem quotedTaken_split (h : List Obs) :
    (quotedTaken h).length = (quotedTaken h).countP (! ·) + (acceptedQuotes h).length := by
  induction h with
  | nil => rfl
  | cons o h ih =>
    cases o with
    | quoted m ev taken =>
      cases taken <;> simp only [quotedTaken, acceptedQuotes, List.filterMap_cons, List.length_cons,
        List.countP_cons] at ih ⊢ <;> simp at ih ⊢ <;> omega
    | _ => exact ih

theorem takes_eq (h : List Stamped) : (takes h).map Prod.fst = appliedSnapshots (observed h) := by
  induction h with
  | nil => rfl
  | cons o h ih =>
    obtain ⟨obs, deq, now⟩ := o
    cases obs with
    | strategy x =>
      cases x with
      | took ev => exact congrArg (ev :: ·) ih
      | _ => exact ih
    | _ => exact ih

theorem orderTimes_length (h : List Stamped) :
    (orderTimes h).length = ofType .new (sends (observed h)) := by
  induction h with
  | nil => rfl
  | cons o h ih =>
    obtain ⟨obs, deq, now⟩ := o
    cases obs with
    | sent c m =>
      cases hty : c.type <;> simp [orderTimes, ofType, sends, observed, hty] at ih ⊢ <;> exact ih
    | _ => exact ih

/-- INTERNAL: what was pushed is sent, dropped, in the sender's hand or in the ring. -/
theorem Relayed.commands {cfg : EngineConfig} {x : Engine × List Obs} (hx : Relayed cfg x) (ty : OrdCmdType) :
    ofType ty (pushes x.2) = ofType ty (sends x.2) +
      (ofType ty x.1.ordRing + ofType ty (inHand x.1.sender) + ofType ty (discarded x.2)) := by
  have hsplit : ofType ty ((checks x.2).map Prod.fst) = ofType ty (((checks x.2).filter Prod.snd).map Prod.fst) +
      ofType ty (discarded x.2) := by
    unfold ofType discarded
    rw [List.countP_map, List.countP_map, List.countP_map, List.countP_eq_countP_filter_add _ _ Prod.snd]
  rw [hx.sent, ofType_append] at hsplit
  rw [hx.popped, hx.checked, ofType_append, ofType_append, hsplit, inHand, ofType_append]
  omega

/-- Every report is applied, waiting or lost, unless an access has left its array. -/
def ReportsKept (x : Engine × List Obs) : Prop :=
  x.1.faulted = false →
    (converted x.2).length = (applied x.2).length + x.1.execRing.length + (lostReports x.2).length

theorem lostReports_append (h h' : List Obs) :
    lostReports (h ++ h') = lostReports h ++ lostReports h' := List.filterMap_append

/-- INTERNAL: a step that shows nothing of the report path. -/
theorem ReportsKept.silent {s t : Engine} {h obs : List Obs} (hs : ReportsKept (s, h))
    (hfault : t.faulted = s.faulted) (hring : t.execRing = s.execRing) (hc : converted obs = [])
    (ha : applied obs = []) (hl : lostReports obs = []) : ReportsKept (t, h ++ obs) := by
  intro hf
  have hkept := hs (hfault ▸ hf)
  dsimp only at hkept ⊢
  rw [converted_append, applied_append, lostReports_append, hc, ha, hl, hring]
  simpa using hkept

/-- INTERNAL: **one step** of the engine.
SRCLINE: src/fix/fix_app.hpp:185-186, src/strategy/market_maker.hpp:53-54 -/
theorem ReportsKept.step {cfg : EngineConfig} {s t : Engine} {h obs : List Obs} {a : EngineAct}
    (hs : ReportsKept (s, h)) (hf : s.faulted = false) (hstep : EngineStep cfg s a t obs) :
    ReportsKept (t, h ++ obs) := by
  have hkept := hs hf
  dsimp only at hkept
  cases hstep with
  | reported m now e hconv =>
    intro _
    dsimp only
    rw [converted_append, applied_append, lostReports_append]
    by_cases hlt : s.execRing.length < execCap
    · rw [offer_of_lt e hlt]
      simp [converted, applied, lostReports] at hkept ⊢
      omega
    · rw [offer_of_not_lt e hlt]
      simp [converted, applied, lostReports] at hkept ⊢
      omega
  | exec e rest sym hring hsym hfill =>
    intro _
    dsimp only
    rw [converted_append, applied_append, lostReports_append]
    rw [hring] at hkept
    simp [converted, applied, lostReports] at hkept ⊢
    omega
  | fill e rest sym hring hsym hfill =>
    intro _
    dsimp only
    rw [converted_append, applied_append, lostReports_append]
    rw [hring] at hkept
    cases (offer tradeCap s.tradeRing e).2 <;> simp [converted, applied, lostReports] at hkept ⊢ <;> omega
  | execFault | mdFault | sendFault => exact fun hc => absurd hc (by simp)
  | md env ev rest m es hring hiter =>
    obtain ⟨hc, ha, -⟩ := lists_md hiter
    refine hs.silent rfl rfl hc ha ?_
    unfold lostReports
    simp
  | dropped | quoted | pop | check | send | persist | logon | logout => exact hs.silent rfl rfl rfl rfl rfl

/-- Every pushed command goes back to a snapshot that the strategy took. -/
def Caused (h : List Obs) : Prop :=
  ∀ c ∈ pushes h, ∃ ev ∈ appliedSnapshots h, ev.tRecvNs = c.tMdNs ∧ ev.symbolId = c.symbolId

/-- INTERNAL: the commands of a turn carry its snapshot's clock reading.
SRCLINE: src/strategy/market_maker.hpp:75, 121, 138 -/
theorem tMdNs_of_pushed {cfg : EngineConfig} {env : MdEnv} {m m' : MarketMaker} {ev : MdEvent}
    {es : List Effect} (hiter : mdIter cfg env m ev = some (m', es)) {c : OrderCmd} (hc : c ∈ pushedCmds es) :
    ev.tRecvNs = c.tMdNs ∧ ev.symbolId = c.symbolId := by
  have hlt := symbolId_lt_of_mdIter hiter
  have hd := mdIter_decides hiter ⟨ev.symbolId, hlt⟩ rfl
  have hside : ∀ {side ob id q}, sideCmd cfg env ⟨ev.symbolId, hlt⟩ side ob ev.tRecvNs id q = some c →
      ev.tRecvNs = c.tMdNs ∧ ev.symbolId = c.symbolId := by
    intro side ob id q hcmd
    unfold sideCmd at hcmd
    split at hcmd
    · cases hcmd
    · obtain rfl := Option.some.inj hcmd
      exact ⟨rfl, rfl⟩
    · obtain rfl := Option.some.inj hcmd
      exact ⟨rfl, rfl⟩
  rcases hd.mem_cmds.mp hc with ⟨-, hcmd⟩ | ⟨-, hcmd⟩
  · exact hside hcmd
  · exact hside hcmd

theorem Caused.step {cfg : EngineConfig} {s t : Engine} {h obs : List Obs} {a : EngineAct}
    (hs : Caused h) (hstep : EngineStep cfg s a t obs) : Caused (h ++ obs) := by
  have hgrow : pushes obs = [] → Caused (h ++ obs) := by
    intro hnone c hc
    rw [pushes_append, hnone, List.append_nil] at hc
    obtain ⟨ev, hev, heq⟩ := hs c hc
    exact ⟨ev, by rw [appliedSnapshots_append]; exact List.mem_append_left _ hev, heq⟩
  cases hstep with
  | md env ev rest m es hring hiter =>
    intro c hc
    rw [appliedSnapshots_append]
    rw [pushes_append, pushes_map_strategy] at hc
    rcases List.mem_append.mp hc with hc | hc
    · obtain ⟨ev', hev, heq⟩ := hs c hc
      exact ⟨ev', List.mem_append_left _ hev, heq⟩
    · refine ⟨ev, List.mem_append_right _ ?_, tMdNs_of_pushed hiter hc⟩
      rw [appliedSnapshots, effects_map_strategy, tookEvents_mdIter hiter]
      exact List.mem_singleton.mpr rfl
  | fill e rest sym hring hsym hfill =>
    apply hgrow
    cases (offer tradeCap s.tradeRing e).2 <;> rfl
  | dropped | quoted | reported | execFault | exec | mdFault | pop | check | sendFault | send | persist | logon
  | logout => exact hgrow rfl

/-- INTERNAL: what a run of the engine keeps of reports and commands. -/
theorem kept_run {cfg : EngineConfig} {tCtor tRun : ℤ} {as : List EngineAct} {x : Engine × List Obs}
    (hrun : run (recorded (Engine.step cfg)) (Engine.init tCtor tRun, []) as = some x) :
    Relayed cfg x ∧ ReportsKept x ∧ Caused x.2 := by
  refine run_invariant' (I := fun x => Relayed cfg x ∧ ReportsKept x ∧ Caused x.2) ?_ ?_ hrun
  · rintro ⟨s, h⟩ a ⟨t, h'⟩ ⟨hr, hk, hc⟩ ht
    obtain ⟨obs, hobs, rfl⟩ := recorded_eq_some.mp ht
    obtain ⟨hf, hstep⟩ := step_engineStep hobs
    exact ⟨relayed_engineStep hr hstep, hk.step hf hstep, hc.step hstep⟩
  · refine ⟨⟨rfl, rfl, rfl, by simp, rfl, ?_⟩, fun _ => rfl, ?_⟩
    · intro earlier c up later heq
      simp at heq
    · intro c hc
      cases hc

/-- The registry balances with the rings and with the sender: every snapshot is dropped, processed
or waiting, every command is sent, waiting, in the sender's hand or dropped, and every report is
applied, waiting or lost; and each order whose time is measured goes back to a snapshot the ring
accepted. -/
structure Balanced (s : Metered) (h : List Stamped) : Prop where
  snapshots : s.metrics.mdMsgsTotal =
    s.metrics.mdDroppedTotal + s.metrics.queueWait.count + UInt64.ofNat s.engine.mdRing.length
  processed : s.metrics.mdProcessing.count = s.metrics.queueWait.count
  timed : s.metrics.tickToTrade.count = s.metrics.ordersSentTotal
  commands : ∀ ty, UInt64.ofNat (ofType ty (pushes (observed h))) = sentTotal s.metrics ty +
    UInt64.ofNat (ofType ty s.engine.ordRing + ofType ty (inHand s.engine.sender) +
      ofType ty (discarded (observed h)))
  reports : s.engine.faulted = false → s.metrics.execsTotal = UInt64.ofNat
    ((applied (observed h)).length + s.engine.execRing.length + (lostReports (observed h)).length)
  caused : ∀ c ∈ sends (observed h), ∃ p ∈ acceptedQuotes (observed h),
    p.2.tRecvNs = c.tMdNs ∧ p.2.symbolId = c.symbolId

/-- A snapshot arrives at 1000, the strategy takes it at 1040 and quotes at 1100, and the sender
sends the first of the two orders. -/
def quotedOnce : List (EngineAct × ℤ) :=
  [(.logon, 900), (.recv (.marketData (twoSided "DLR".toList 99 101)) 1000, 1000),
    (.md { quickEnv with tDeq := 1040 }, 1100), (.pop, 1200), (.check, 1200), (.send, 1300)]

/-- The clock does not go back between the two readings, and the times are where the histogram's
buckets are in order. -/
def ClockAhead (x : MdEvent × ℤ × ℤ) : Prop :=
  32 ≤ x.2.1 - x.1.tRecvNs ∧ x.2.1 ≤ x.2.2 ∧ x.2.2 - x.1.tRecvNs < topValue

/-- INTERNAL: the two samples of a snapshot. -/
theorem ClockAhead.samples {x : MdEvent × ℤ × ℤ} (hx : ClockAhead x) :
    32 ≤ valueOf (elapsed x.2.1 x.1.tRecvNs) ∧
      valueOf (elapsed x.2.1 x.1.tRecvNs) ≤ valueOf (elapsed x.2.2 x.1.tRecvNs) ∧
      valueOf (elapsed x.2.2 x.1.tRecvNs) < topValue ∧
      clamped (elapsed x.2.1 x.1.tRecvNs) ≤ clamped (elapsed x.2.2 x.1.tRecvNs) := by
  obtain ⟨ev, deq, now⟩ := x
  obtain ⟨hlow, hle, hhigh⟩ := hx
  dsimp only at hlow hle hhigh ⊢
  unfold topValue at *
  have hdeq : (elapsed deq ev.tRecvNs).toInt = deq - ev.tRecvNs :=
    Int64.toInt_ofInt_of_le (by omega) (by omega)
  have hnow : (elapsed now ev.tRecvNs).toInt = now - ev.tRecvNs :=
    Int64.toInt_ofInt_of_le (by omega) (by omega)
  unfold valueOf clamped
  rw [hdeq, hnow]
  refine ⟨?_, or_one_mono (by omega), ?_, by omega⟩
  · rw [or_one_eq]
    omega
  · rw [or_one_eq]
    omega

/-- INTERNAL: a percentile of the times in the queue, and of the processing times. -/
theorem percentileValue_le {h : List Stamped} (hne : takes h ≠ []) (hclock : ∀ x ∈ takes h, ClockAhead x)
    {q : ℕ} (hq : 50 ≤ q) (hq' : q ≤ 99) :
    32 ≤ percentileValue (waits h) q ∧ percentileValue (waits h) q ≤ percentileValue (processings h) q ∧
      percentileValue (processings h) q < topValue := by
  have hlen : (waits h).length = (processings h).length := by
    rw [waits, processings, List.length_map, List.length_map]
  have hwaits : waits h ≠ [] := by simpa [waits] using hne
  obtain ⟨hlow, hhigh⟩ := percentileRank_bounds hwaits hq hq'
  unfold percentileValue rankedValue
  rw [← hlen]
  refine ⟨?_, ?_, ?_⟩
  · obtain ⟨ns, hns, heq⟩ := List.mem_map.mp
      (ranked_mem (l := (waits h).map valueOf) hlow (by rw [List.length_map]; exact hhigh))
    obtain ⟨x, hx, rfl⟩ := List.mem_map.mp hns
    rw [← heq]
    exact (hclock x hx).samples.1
  · refine ranked_le_ranked ?_ hlow (by rw [List.length_map]; exact hhigh)
    rw [waits, processings, List.map_map, List.map_map, List.forall₂_map_left_iff,
      List.forall₂_map_right_iff, List.forall₂_same]
    exact fun x hx => (hclock x hx).samples.2.1
  · obtain ⟨ns, hns, heq⟩ := List.mem_map.mp
      (ranked_mem (l := (processings h).map valueOf) hlow (by rw [List.length_map, ← hlen]; exact hhigh))
    obtain ⟨x, hx, rfl⟩ := List.mem_map.mp hns
    rw [← heq]
    exact (hclock x hx).samples.2.2.1

theorem max_waits_le {h : List Stamped} (hclock : ∀ x ∈ takes h, ClockAhead x) :
    (recordAll (waits h)).max ≤ (recordAll (processings h)).max := by
  obtain ⟨hge, hpos, -⟩ := max_recordAll (processings h)
  obtain ⟨-, -, hmax⟩ := max_recordAll (waits h)
  rcases hmax with hzero | ⟨ns, hns, heq⟩
  · rw [hzero]
    exact hpos
  · obtain ⟨x, hx, rfl⟩ := List.mem_map.mp hns
    rw [← heq]
    exact (hclock x hx).samples.2.2.2.trans (hge _ (List.mem_map_of_mem hx))

theorem max_snapshot (h : LatencyHistogram) : h.snapshot.max = h.max := by
  unfold LatencyHistogram.snapshot
  by_cases hzero : h.total = 0
  · rw [if_pos hzero]
  · rw [if_neg hzero, walk_max _ _ _ _ _ h.max]

/-- The first percentiles do not exceed the second ones. -/
structure NotAbove (p q : Percentiles) : Prop where
  p50 : p.p50 ≤ q.p50
  p90 : p.p90 ≤ q.p90
  p99 : p.p99 ≤ q.p99
  max : p.max ≤ q.max
  count : p.count = q.count

end MmEngine.Analysis
