import MmEngine.Analysis.LostReports
import MmEngine.Analysis.MarketView
import MmEngine.Lib.History
import MmEngine.Model.StrategyLoop

/-!
# The order state is fresh when the strategy decides

The loop drains the execution ring before it takes a snapshot, because "order state must be fresh"
(market_maker.hpp:52).  How fresh it is, whatever the other threads do (`orders_fresh`): every report
that was in the ring when the loop last found it empty has been applied, and nothing was done since.  A
report that has not been applied arrived after that; and if the snapshot arrived after such a report,
the market-data ring was empty when the report came.
-/

set_option autoImplicit false

namespace MmEngine.Analysis

open MmEngine.Model MmEngine.Model.MarketMaker MmEngine.Interface MmEngine.Lib

/-! ## The loop is a schedule of the engine -/

/-- What the engine shows of it. -/
def engineObs (h : List LoopObs) : List Obs :=
  h.filterMap fun
    | .obs o => some o
    | _ => none

theorem engineObs_append (h h' : List LoopObs) : engineObs (h ++ h') = engineObs h ++ engineObs h' :=
  List.filterMap_append

theorem engineObs_map (os : List Obs) : engineObs (os.map .obs) = os := by
  unfold engineObs
  rw [List.filterMap_map]
  exact List.filterMap_some

/-- The reports the ring accepted, in order. -/
def acceptedReports (h : List Obs) : List ExecEvent :=
  h.filterMap fun
    | .reported _ e true => some e
    | _ => none

theorem acceptedReports_append (h h' : List Obs) :
    acceptedReports (h ++ h') = acceptedReports h ++ acceptedReports h' := List.filterMap_append

/-- An observation of another thread than the strategy's. -/
def Aside : LoopObs → Prop
  | .obs (.strategy _) => False
  | .obs _ => True
  | _ => False

/-- INTERNAL: **what a step of the loop is**: a step of the engine, or one of the loop alone. -/
inductive LoopStep (cfg : EngineConfig) (s : EngineLoop) : EngineLoop → List LoopObs → Prop where
  | stopped : LoopStep cfg s { s with running := false } []
  | tested (pc : LoopAt) (hpc : s.pc = .testing) (hnext : pc ≠ .taking) : LoopStep cfg s { s with pc := pc } []
  | drained (hpc : s.pc = .draining) (hring : s.engine.execRing = []) : LoopStep cfg s { s with pc := .taking } [.drained]
  | idle (hpc : s.pc = .taking) (hring : s.engine.mdRing = []) : LoopStep cfg s { s with pc := .testing } [.idle]
  | exec (hpc : s.pc = .draining) (t : Engine) (os : List Obs) (hstep : s.engine.step cfg .exec = some (t, os)) :
    LoopStep cfg s { s with engine := t } (os.map .obs)
  | md (hpc : s.pc = .taking) (env : MdEnv) (t : Engine) (os : List Obs)
    (hstep : s.engine.step cfg (.md env) = some (t, os)) :
    LoopStep cfg s { s with engine := t, pc := .testing } (os.map .obs)
  | other (a : EngineAct) (ha : a.ofStrategy = false) (t : Engine) (os : List Obs)
    (hstep : s.engine.step cfg a = some (t, os)) : LoopStep cfg s { s with engine := t } (os.map .obs)

theorem step_loopStep {cfg : EngineConfig} {s s' : EngineLoop} {a : LoopAct} {os : List LoopObs}
    (h : s.step cfg a = some (s', os)) : s.engine.faulted = false ∧ LoopStep cfg s s' os := by
  unfold EngineLoop.step at h
  split at h
  · cases h
  next hf =>
  refine ⟨Bool.eq_false_iff.mpr hf, ?_⟩
  cases a with
  | stop =>
    obtain ⟨rfl, rfl⟩ := Prod.mk.inj (Option.some.inj h)
    exact .stopped
  | test =>
    dsimp only at h
    split at h
    · next hpc =>
      obtain ⟨rfl, rfl⟩ := Prod.mk.inj (Option.some.inj h)
      refine .tested _ hpc ?_
      split <;> decide
    · cases h
  | popExec =>
    dsimp only at h
    split at h
    · next hpc =>
      split at h
      · next hring =>
        obtain ⟨rfl, rfl⟩ := Prod.mk.inj (Option.some.inj h)
        exact .drained hpc hring
      · obtain ⟨⟨t, os'⟩, hstep, heq⟩ := Option.map_eq_some_iff.mp h
        obtain ⟨rfl, rfl⟩ := Prod.mk.inj heq
        have hexec := LoopStep.exec hpc t os' hstep
        rw [← hpc]
        exact hexec
    · cases h
  | popMd env =>
    dsimp only at h
    split at h
    · next hpc =>
      split at h
      · next hring =>
        obtain ⟨rfl, rfl⟩ := Prod.mk.inj (Option.some.inj h)
        exact .idle hpc hring
      · obtain ⟨⟨t, os'⟩, hstep, heq⟩ := Option.map_eq_some_iff.mp h
        obtain ⟨rfl, rfl⟩ := Prod.mk.inj heq
        exact .md hpc env t os' hstep
    · cases h
  | other a =>
    dsimp only at h
    split at h
    · cases h
    · next ha =>
      obtain ⟨⟨t, os'⟩, hstep, heq⟩ := Option.map_eq_some_iff.mp h
      obtain ⟨rfl, rfl⟩ := Prod.mk.inj heq
      exact .other a (Bool.eq_false_iff.mpr ha) t os' hstep

/-! ## What the strategy has not seen -/

/-- What a history says: the reports and the snapshots, accepted and applied. -/
def reportsIn (h : List LoopObs) : List ExecEvent := acceptedReports (engineObs h)

def reportsApplied (h : List LoopObs) : List ExecEvent := applied (engineObs h)

def snapshotsIn (h : List LoopObs) : List MdEvent := (acceptedQuotes (engineObs h)).map Prod.snd

def snapshotsApplied (h : List LoopObs) : List MdEvent := appliedSnapshots (engineObs h)

/-- The history ends with an empty execution ring, and only other threads have moved since then; `ring`
was the market-data ring at that moment. -/
structure SinceDrained (h : List LoopObs) (ring : List MdEvent) : Prop where
  split : ∃ before since, h = before ++ .drained :: since ∧ (∀ o ∈ since, Aside o) ∧
    reportsApplied h = reportsIn before ∧ snapshotsApplied h = snapshotsApplied before ∧
    snapshotsIn before = snapshotsApplied before ++ ring

/-- A snapshot is taken after a drain: it was there at the end of it, or nothing was. -/
def TakenFresh (earlier : List LoopObs) : LoopObs → Prop
  | .obs (.strategy (.took ev)) => ∃ ring, SinceDrained earlier ring ∧ (ring = [] ∨ ∃ rest, ring = ev :: rest)
  | _ => True

/-- INTERNAL: the invariant. -/
structure FreshInv (cfg : EngineConfig) (s : EngineLoop) (h : List LoopObs) : Prop where
  market : InStep cfg (s.engine, engineObs h)
  reports : s.engine.faulted = false → reportsIn h = reportsApplied h ++ s.engine.execRing
  drained : s.pc = .taking → ∃ ring, SinceDrained h ring
  taken : AtEach TakenFresh h

/-- What a step of another thread does to the two lists of reports. -/
structure OtherStep (s t : Engine) (os : List Obs) : Prop where
  aside : ∀ o ∈ os, Aside (.obs o)
  applied : applied os = []
  snapshots : appliedSnapshots os = []
  ring : t.faulted = false → s.faulted = false ∧ t.execRing = s.execRing ++ acceptedReports os

/-- INTERNAL: another thread neither applies nor takes anything.
SRCLINE: src/fix/fix_app.hpp:93-187, src/main.cpp:212-220 -/
theorem otherStep {cfg : EngineConfig} {s t : Engine} {a : EngineAct} {os : List Obs}
    (ha : a.ofStrategy = false) (hf : s.faulted = false) (hstep : EngineStep cfg s a t os) : OtherStep s t os := by
  have hsilent : ∀ {t : Engine}, t.execRing = s.execRing → OtherStep s t [] := by
    intro t ht
    exact ⟨fun o ho => absurd ho List.not_mem_nil, rfl, rfl, fun _ => ⟨hf, ht.trans (List.append_nil _).symm⟩⟩
  have hone : ∀ {t : Engine} {o : Obs}, Aside (.obs o) → applied [o] = [] → appliedSnapshots [o] = [] →
      t.execRing = s.execRing ++ acceptedReports [o] → OtherStep s t [o] := by
    intro t o hside happlied hsnap ht
    exact ⟨List.forall_mem_singleton.mpr hside, happlied, hsnap, fun _ => ⟨hf, ht⟩⟩
  cases hstep with
  | dropped | persist => exact hsilent rfl
  | sendFault => exact ⟨fun o ho => absurd ho List.not_mem_nil, rfl, rfl, fun h => nomatch h⟩
  | reported m now e hconv =>
    by_cases hroom : s.execRing.length < execCap
    · rw [offer_of_lt e hroom]
      exact hone trivial rfl rfl rfl
    · rw [offer_of_not_lt e hroom]
      exact hone trivial rfl rfl (List.append_nil _).symm
  | quoted m now ev seq ses hses hconv =>
    cases (offer mdCap s.mdRing ev).2 <;> exact hone trivial rfl rfl (List.append_nil _).symm
  | pop c rest hidle hring => exact hone trivial rfl rfl (List.append_nil _).symm
  | check c hpop => exact hone trivial rfl rfl (List.append_nil _).symm
  | send c m hclear hmsg => exact hone trivial rfl rfl (List.append_nil _).symm
  | logon => exact hone trivial rfl rfl (List.append_nil _).symm
  | logout => exact hone trivial rfl rfl (List.append_nil _).symm
  | execFault | exec | fill | mdFault | md => cases ha

section Histories

variable (h h' : List LoopObs)

theorem reportsIn_append : reportsIn (h ++ h') = reportsIn h ++ reportsIn h' := by
  unfold reportsIn
  rw [engineObs_append, acceptedReports_append]

theorem reportsApplied_append : reportsApplied (h ++ h') = reportsApplied h ++ reportsApplied h' := by
  unfold reportsApplied
  rw [engineObs_append, applied_append]

theorem snapshotsIn_append : snapshotsIn (h ++ h') = snapshotsIn h ++ snapshotsIn h' := by
  unfold snapshotsIn
  rw [engineObs_append, acceptedQuotes_append, List.map_append]

theorem snapshotsApplied_append : snapshotsApplied (h ++ h') = snapshotsApplied h ++ snapshotsApplied h' := by
  unfold snapshotsApplied
  rw [engineObs_append, appliedSnapshots_append]

end Histories

/-- Other threads move. -/
theorem SinceDrained.aside {h : List LoopObs} {ring : List MdEvent} {os : List Obs} (hs : SinceDrained h ring)
    (haside : ∀ o ∈ os, Aside (.obs o)) (happlied : applied os = []) (hsnap : appliedSnapshots os = []) :
    SinceDrained (h ++ os.map .obs) ring := by
  obtain ⟨before, since, rfl, hsince, hreports, hsnaps, hring⟩ := hs.split
  refine ⟨before, since ++ os.map .obs, by simp, ?_, ?_, ?_, hring⟩
  · intro o ho
    obtain ho | ho := List.mem_append.mp ho
    · exact hsince o ho
    · obtain ⟨o', ho', rfl⟩ := List.mem_map.mp ho
      exact haside o' ho'
  · rw [reportsApplied_append, hreports]
    unfold reportsApplied
    rw [engineObs_map, happlied, List.append_nil]
  · rw [snapshotsApplied_append, hsnaps]
    unfold snapshotsApplied
    rw [engineObs_map, hsnap, List.append_nil]

/-- INTERNAL: **a snapshot is taken**, after a drain.
SRCLINE: src/strategy/market_maker.hpp:53-66 -/
theorem SinceDrained.takes {cfg : EngineConfig} {s : EngineLoop} {h : List LoopObs} {ring rest : List MdEvent}
    {ev : MdEvent} (hs : SinceDrained h ring) (hmarket : InStep cfg (s.engine, engineObs h))
    (hring : s.engine.mdRing = ev :: rest) : ring = [] ∨ ∃ rest', ring = ev :: rest' := by
  obtain ⟨before, since, rfl, -, -, hsnaps, hbefore⟩ := hs.split
  have hqueue : snapshotsIn (before ++ .drained :: since) =
      snapshotsApplied (before ++ .drained :: since) ++ s.engine.mdRing := hmarket.queue
  rw [hsnaps, hring, snapshotsIn_append, hbefore, List.append_assoc, List.append_cancel_left_eq] at hqueue
  cases ring with
  | nil => exact Or.inl rfl
  | cons x ring =>
    rw [List.cons_append, List.cons.injEq] at hqueue
    exact Or.inr ⟨ring, by rw [hqueue.1]⟩

theorem takenFresh_of_ne {h : List LoopObs} {o : LoopObs} (ho : ∀ ev, o ≠ .obs (.strategy (.took ev))) :
    TakenFresh h o := by
  unfold TakenFresh
  split
  · next ev => exact absurd rfl (ho ev)
  · trivial

/-- Nothing is taken. -/
theorem atEach_untaken {h : List LoopObs} (os : List Obs) (htaken : AtEach TakenFresh h)
    (hos : ∀ o ∈ os, ∀ ev, o ≠ .strategy (.took ev)) : AtEach TakenFresh (h ++ os.map .obs) := by
  refine atEach_append htaken ?_
  intro before b after heq
  have hb : b ∈ os.map LoopObs.obs := by
    rw [heq]
    exact List.mem_append_right _ List.mem_cons_self
  obtain ⟨o, ho, rfl⟩ := List.mem_map.mp hb
  exact takenFresh_of_ne fun ev heq => hos o ho ev (LoopObs.obs.inj heq)

/-- INTERNAL: the first thing a market-data turn does is to take its snapshot, and it takes no other. -/
theorem mdIter_takes {cfg : EngineConfig} {env : MdEnv} {m m' : MarketMaker} {ev : MdEvent} {es : List Effect}
    (h : mdIter cfg env m ev = some (m', es)) :
    ∃ rest, es = .took ev :: rest ∧ ∀ x ∈ rest, ∀ ev', x ≠ .took ev' := by
  have hone := tookEvents_mdIter h
  obtain ⟨sym, m₁, m₂, es₁, es₂, ss, -, -, -, -, -, -, rfl, -⟩ := mdIter_sideSteps h
  refine ⟨es₁ ++ es₂ ++ ss, by simp, ?_⟩
  rintro x hx ev' rfl
  have hnone : tookEvents (es₁ ++ es₂ ++ ss) = [] := by
    have hcons : tookEvents (.took ev :: (es₁ ++ es₂ ++ ss)) = ev :: tookEvents (es₁ ++ es₂ ++ ss) := rfl
    rw [List.cons_append, List.cons_append, hcons] at hone
    exact (List.cons.inj hone).2
  have hmem : ev' ∈ tookEvents (es₁ ++ es₂ ++ ss) := List.mem_filterMap.mpr ⟨_, hx, rfl⟩
  rw [hnone] at hmem
  cases hmem

/-- INTERNAL: **one step** of the loop, or of a thread beside it.
SRCLINE: src/strategy/market_maker.hpp:49-85 -/
theorem FreshInv.step {cfg : EngineConfig} {s t : EngineLoop} {h os : List LoopObs} (hinv : FreshInv cfg s h)
    (hf : s.engine.faulted = false) (hstep : LoopStep cfg s t os) : FreshInv cfg t (h ++ os) := by
  obtain ⟨hmarket, hreports, hdrained, htaken⟩ := hinv
  have hreports := hreports hf
  -- a step of the loop that shows only where it stands
  have halone : ∀ {pc : LoopAt} {o : LoopObs}, engineObs [o] = [] → (∀ x, o ≠ .obs x) →
      (pc = .taking → ∃ ring, SinceDrained (h ++ [o]) ring) → FreshInv cfg { s with pc := pc } (h ++ [o]) := by
    intro pc o ho hne hpc
    have hsame : engineObs (h ++ [o]) = engineObs h := by rw [engineObs_append, ho, List.append_nil]
    refine ⟨hsame ▸ hmarket, fun _ => ?_, hpc, atEach_concat.mpr ⟨htaken, takenFresh_of_ne fun ev => hne _⟩⟩
    unfold reportsIn reportsApplied at hreports ⊢
    rw [hsame]
    exact hreports
  have hmarket' : ∀ {t : Engine} {a : EngineAct} {os : List Obs}, EngineStep cfg s.engine a t os →
      InStep cfg (t, engineObs (h ++ os.map .obs)) := by
    intro t a os hstep
    rw [engineObs_append, engineObs_map]
    exact hmarket.step hstep
  cases hstep with
  | stopped =>
    rw [List.append_nil]
    exact ⟨hmarket, fun _ => hreports, hdrained, htaken⟩
  | tested pc hpc hnext =>
    rw [List.append_nil]
    exact ⟨hmarket, fun _ => hreports, fun htaking => absurd htaking hnext, htaken⟩
  | idle hpc hring => exact halone rfl (fun x => LoopObs.noConfusion) fun htaking => absurd htaking (by decide)
  | drained hpc hring =>
    refine halone rfl (fun x => LoopObs.noConfusion) fun _ => ⟨s.engine.mdRing, ⟨h, [], rfl, ?_, ?_, ?_, hmarket.queue⟩⟩
    · exact fun o ho => absurd ho List.not_mem_nil
    · -- the ring is empty, so whatever was accepted is applied
      rw [hring, List.append_nil] at hreports
      rw [reportsApplied_append, hreports]
      exact List.append_nil _
    · rw [snapshotsApplied_append]
      exact List.append_nil _
  | exec hpc t os hstep =>
    have htaking : s.pc ≠ .taking := by
      rw [hpc]
      decide
    have hcases := (step_engineStep hstep).2
    refine ⟨hmarket' hcases, ?_, fun hpc => absurd hpc htaking, ?_⟩
    · -- the report at the head of the ring is the next one to be applied
      intro hft
      rw [reportsIn_append, reportsApplied_append]
      unfold reportsIn reportsApplied at hreports ⊢
      rw [engineObs_map, hreports]
      cases hcases with
      | execFault e rest hring hbad => cases hft
      | exec e rest sym hring =>
        have hone : applied [Obs.strategy (.consumed e)] = [e] := rfl
        have hnone : acceptedReports [Obs.strategy (.consumed e)] = [] := rfl
        rw [hring, hone, hnone]
        simp
      | fill e rest sym hring =>
        rw [hring]
        cases (offer tradeCap s.engine.tradeRing e).2 <;> simp [applied, acceptedReports]
    · apply atEach_untaken os htaken
      cases hcases with
      | execFault => exact fun o ho => absurd ho List.not_mem_nil
      | exec => simp
      | fill e => cases (offer tradeCap s.engine.tradeRing e).2 <;> simp
  | md hpc env t os hstep =>
    obtain ⟨ring, hsince⟩ := hdrained hpc
    have hcases := (step_engineStep hstep).2
    refine ⟨hmarket' hcases, ?_, LoopAt.noConfusion, ?_⟩
    · intro hft
      rw [reportsIn_append, reportsApplied_append]
      unfold reportsIn reportsApplied at hreports ⊢
      rw [engineObs_map, hreports]
      cases hcases with
      | mdFault => cases hft
      | md env ev rest m es hring hiter =>
        obtain ⟨-, happlied, -⟩ := lists_md hiter
        have hnone : acceptedReports (es.map .strategy) = [] := by simp [acceptedReports]
        rw [happlied, hnone]
        simp
    · cases hcases with
      | mdFault =>
        rw [List.map_nil, List.append_nil]
        exact htaken
      | md env ev rest m es hring hiter =>
        obtain ⟨rest', rfl, hrest⟩ := mdIter_takes hiter
        have hfirst : TakenFresh h (.obs (.strategy (.took ev))) := ⟨ring, hsince, hsince.takes hmarket hring⟩
        have htook := atEach_concat.mpr ⟨htaken, hfirst⟩
        have hafter := atEach_untaken (rest'.map .strategy) htook (by simpa using hrest)
        rw [List.map_cons, List.map_cons, List.append_cons]
        exact hafter
  | other a ha t os hstep =>
    have hcases := (step_engineStep hstep).2
    have hother := otherStep ha hf hcases
    refine ⟨hmarket' hcases, ?_, ?_, ?_⟩
    · intro hft
      obtain ⟨-, hring⟩ := hother.ring hft
      rw [reportsIn_append, reportsApplied_append, hreports]
      unfold reportsIn reportsApplied
      dsimp only
      rw [engineObs_map, hother.applied, hring, List.append_nil, List.append_assoc]
    · intro hpc
      obtain ⟨ring, hsince⟩ := hdrained hpc
      exact ⟨ring, hsince.aside hother.aside hother.applied hother.snapshots⟩
    · apply atEach_untaken os htaken
      rintro o ho ev rfl
      exact hother.aside _ ho

theorem freshInv_init (cfg : EngineConfig) (tCtor tRun : ℤ) : FreshInv cfg (EngineLoop.init tCtor tRun) [] where
  market := by
    have hnone : run (recorded (Engine.step cfg)) (Engine.init tCtor tRun, []) [] = some (Engine.init tCtor tRun, []) := rfl
    exact inStep_run hnone
  reports := fun _ => rfl
  drained := fun h => nomatch h
  taken := atEach_nil _

/-- INTERNAL: **the loop refines the engine**: its steps are steps of the engine, or invisible there. -/
theorem LoopStep.refines {cfg : EngineConfig} {s t : EngineLoop} {os : List LoopObs} (h : LoopStep cfg s t os) :
    t.engine = s.engine ∧ engineObs os = [] ∨ ∃ a, s.engine.step cfg a = some (t.engine, engineObs os) := by
  cases h with
  | stopped | tested | drained | idle => exact Or.inl ⟨rfl, rfl⟩
  | exec hpc t os hstep =>
    rw [engineObs_map]
    exact Or.inr ⟨_, hstep⟩
  | md hpc env t os hstep =>
    rw [engineObs_map]
    exact Or.inr ⟨_, hstep⟩
  | other a ha t os hstep =>
    rw [engineObs_map]
    exact Or.inr ⟨_, hstep⟩

/-- **The order state is fresh.**  Whenever the strategy takes a snapshot, it has applied every report
that was accepted before it last found the execution ring empty, it has done nothing since, and the
snapshot had arrived by then, or no snapshot had.  What the loop does is a run of the engine.
SRCLINE: src/strategy/market_maker.hpp:49-85 -/
theorem orders_fresh {cfg : EngineConfig} {tCtor tRun : ℤ} {acts : List LoopAct} {s : EngineLoop} {h : List LoopObs}
    (hrun : run (recorded (EngineLoop.step cfg)) (EngineLoop.init tCtor tRun, []) acts = some (s, h)) :
    AtEach TakenFresh h ∧
      ∃ acts', run (recorded (Engine.step cfg)) (Engine.init tCtor tRun, []) acts' = some (s.engine, engineObs h) := by
  have hinv : FreshInv cfg s h ∧
      ∃ acts', run (recorded (Engine.step cfg)) (Engine.init tCtor tRun, []) acts' = some (s.engine, engineObs h) := by
    apply run_invariant' (I := fun x : EngineLoop × List LoopObs => FreshInv cfg x.1 x.2 ∧ ∃ acts',
      run (recorded (Engine.step cfg)) (Engine.init tCtor tRun, []) acts' = some (x.1.engine, engineObs x.2)) _ _ hrun
    · rintro ⟨s, h⟩ a ⟨t, h'⟩ ⟨hinv, acts', hacts⟩ hact
      obtain ⟨os, hos, rfl⟩ := recorded_eq_some.mp hact
      obtain ⟨hf, hstep⟩ := step_loopStep hos
      refine ⟨hinv.step hf hstep, ?_⟩
      dsimp only at hacts ⊢
      obtain ⟨hsame, hnone⟩ | ⟨b, hb⟩ := hstep.refines
      · exact ⟨acts', by rw [engineObs_append, hnone, List.append_nil, hsame]; exact hacts⟩
      · refine ⟨acts' ++ [b], ?_⟩
        rw [run_append, hacts, Option.bind_some, run_cons_eq_some]
        exact ⟨_, recorded_eq_some.mpr ⟨_, hb, engineObs_append h os⟩, rfl⟩
    · exact ⟨freshInv_init cfg tCtor tRun, [], rfl⟩
  exact ⟨hinv.1.taken, hinv.2⟩

/-- A report and a snapshot arrive, and another report between the drain and the snapshot. -/
def reportBetween : List LoopAct :=
  let report : ExecutionReport := { clOrdID := .value "7".toList, execType := .value '0', symbol := .value "DLR".toList }
  [.other (.recv (.execReport report) 0), .other (.recv (.marketData (twoSided "DLR".toList 99 101)) 0), .test,
    .popExec, .popExec, .other (.recv (.execReport report) 0), .popMd quickEnv]

/-- The snapshot is taken with the second report unread. -/
theorem orders_fresh_reportBetween :
    ∃ s h, run (recorded (EngineLoop.step { symbols := ["DLR".toList] })) (EngineLoop.init 0 0, []) reportBetween =
        some (s, h) ∧ s.engine.execRing.length = 1 ∧ snapshotsApplied h ≠ [] ∧ AtEach TakenFresh h := by
  have hfacts : (run (recorded (EngineLoop.step { symbols := ["DLR".toList] })) (EngineLoop.init 0 0, [])
      reportBetween).map (fun x => (x.1.engine.execRing.length, (snapshotsApplied x.2).length)) = some (1, 1) := by
    decide +kernel
  obtain ⟨⟨s, h⟩, hrun, hfacts⟩ := Option.map_eq_some_iff.mp hfacts
  obtain ⟨hring, hone⟩ := Prod.mk.inj hfacts
  refine ⟨s, h, hrun, hring, ?_, (orders_fresh hrun).1⟩
  rintro hnone
  rw [hnone] at hone
  cases hone

end MmEngine.Analysis
