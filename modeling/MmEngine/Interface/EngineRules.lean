import MmEngine.Model.Engine
import MmEngine.Interface.FixRules
import MmEngine.Interface.StrategyRules

/-!
# What one step of the engine can do

`EngineStep` lists the outcomes of `Engine.step`, one constructor for each way a thread can
move, with everything that must have been the case before it.  The analyses of the engine
are case distinctions over it.
-/

set_option autoImplicit false

namespace MmEngine.Interface

open MmEngine.Model MmEngine.Model.MarketMaker MmEngine.Lib

/-- The outcomes of one step of the engine, with what each requires and shows. -/
inductive EngineStep (cfg : EngineConfig) (s : Engine) :
    EngineAct → Engine → List Obs → Prop where
  /-- The handler threw, or the message is not for us. -/
  | dropped (msg : AppMsg) (now : ℤ) (ses : FixSession) (hses : ses.loggedOn = s.ses.loggedOn)
      (hno : ∀ m e, msg = .execReport m → (FixApp.init cfg).onExecutionReport m now ≠ .ok e) :
      EngineStep cfg s (.recv msg now) { s with ses := ses } []
  | quoted (m : MarketDataSnapshot) (now : ℤ) (ev : MdEvent) (seq : ℕ) (ses : FixSession)
      (hses : ses.loggedOn = s.ses.loggedOn)
      (hconv : (FixApp.init cfg).onMarketData seq m now = .ok (some ev)) :
      EngineStep cfg s (.recv (.marketData m) now)
        { s with ses := ses, mdRing := (offer mdCap s.mdRing ev).1 }
        [.quoted m ev (offer mdCap s.mdRing ev).2]
  | reported (m : ExecutionReport) (now : ℤ) (e : ExecEvent)
      (hconv : (FixApp.init cfg).onExecutionReport m now = .ok e) :
      EngineStep cfg s (.recv (.execReport m) now)
        { s with execRing := (offer execCap s.execRing e).1 }
        [.reported m e (offer execCap s.execRing e).2]
  | execFault (e : ExecEvent) (rest : List ExecEvent) (hring : s.execRing = e :: rest)
      (hbad : ¬ e.symbolId < kMaxSymbols) :
      EngineStep cfg s .exec { s with execRing := rest, faulted := true } []
  /-- A report that carries no execution. -/
  | exec (e : ExecEvent) (rest : List ExecEvent) (sym : Fin kMaxSymbols)
      (hring : s.execRing = e :: rest) (hsym : sym.val = e.symbolId) (hfill : e.kind.isFill = false) :
      EngineStep cfg s .exec { s with execRing := rest, mm := takeExec s.mm sym e }
        [.strategy (.consumed e)]
  /-- A report that carries an execution. -/
  | fill (e : ExecEvent) (rest : List ExecEvent) (sym : Fin kMaxSymbols)
      (hring : s.execRing = e :: rest) (hsym : sym.val = e.symbolId) (hfill : e.kind.isFill = true) :
      EngineStep cfg s .exec
        { s with execRing := rest, mm := takeExec s.mm sym e,
                 tradeRing := (offer tradeCap s.tradeRing e).1 }
        ([.strategy (.consumed e), .strategy (.trade e), .strategy (.logged (execLog e))] ++
          if (offer tradeCap s.tradeRing e).2 then [.enqueued e] else [])
  | mdFault (env : MdEnv) (ev : MdEvent) (rest : List MdEvent) (hring : s.mdRing = ev :: rest)
      (hbad : ¬ ev.symbolId < kMaxSymbols) :
      EngineStep cfg s (.md env) { s with mdRing := rest, faulted := true } []
  | md (env : MdEnv) (ev : MdEvent) (rest : List MdEvent) (m : MarketMaker) (es : List Effect)
      (hring : s.mdRing = ev :: rest) (hiter : mdIter cfg env s.mm ev = some (m, es)) :
      EngineStep cfg s (.md env)
        { s with mdRing := rest, mm := m, ordRing := s.ordRing ++ pushedCmds es }
        (es.map .strategy)
  | pop (c : OrderCmd) (rest : List OrderCmd) (hidle : s.sender = .idle)
      (hring : s.ordRing = c :: rest) :
      EngineStep cfg s .pop { s with ordRing := rest, sender := .popped c } [.popped c]
  | check (c : OrderCmd) (hpop : s.sender = .popped c) :
      EngineStep cfg s .check { s with sender := if s.ses.loggedOn then .cleared c else .idle }
        [.checked c s.ses.loggedOn]
  | sendFault (c : OrderCmd) (hclear : s.sender = .cleared c) (hbad : ¬ c.symbolId < kMaxSymbols) :
      EngineStep cfg s .send { s with faulted := true } []
  | send (c : OrderCmd) (m : OrderMsg) (hclear : s.sender = .cleared c)
      (hmsg : (FixApp.init cfg).sendOrderCmd c = some m) :
      EngineStep cfg s .send { s with sender := .idle } [.sent c m]
  | persist (e : ExecEvent) (rest : List ExecEvent) (hring : s.tradeRing = e :: rest) :
      EngineStep cfg s .persist { s with tradeRing := rest } []
  | logon : EngineStep cfg s .logon { s with ses := { s.ses with loggedOn := true } } [.logon]
  | logout : EngineStep cfg s .logout { s with ses := { s.ses with loggedOn := false } } [.logout]

section Inversion

variable {cfg : EngineConfig} {s t : Engine} {obs : List Obs}

/-- INTERNAL: the reader's step is a dropped message, a snapshot or a report.
SRCLINE: src/fix/fix_app.hpp:93-187 -/
theorem recv_engineStep (msg : AppMsg) (now : ℤ) :
    EngineStep cfg s (.recv msg now) (s.recv cfg msg now).1 (s.recv cfg msg now).2 := by
  cases msg with
  | marketData m =>
    simp only [Engine.recv, FixApp.fromApp]
    cases hconv : (FixApp.init cfg).onMarketData ((s.ses.mdSeq + 1) % 2 ^ 32) m now with
    | error err => exact .dropped _ _ _ rfl (by simp)
    | ok r =>
      cases r with
      | none => exact .dropped _ _ _ rfl (by simp)
      | some ev => exact .quoted m now ev _ _ rfl hconv
  | execReport m =>
    simp only [Engine.recv, FixApp.fromApp]
    cases hconv : (FixApp.init cfg).onExecutionReport m now with
    | error err =>
      refine .dropped _ _ _ rfl ?_
      intro m' e heq
      obtain rfl := AppMsg.execReport.inj heq
      rw [hconv]
      simp
    | ok e => exact .reported m now e hconv
  | other => exact .dropped _ _ _ rfl (by simp)

/-- INTERNAL: the strategy's step on a report.
SRCLINE: src/strategy/market_maker.hpp:53-63 -/
theorem exec_engineStep (h : s.exec = some (t, obs)) : EngineStep cfg s .exec t obs := by
  unfold Engine.exec at h
  cases hring : s.execRing with
  | nil =>
    rw [hring] at h
    cases h
  | cons e rest =>
    simp only [hring] at h
    cases hiter : s.mm.execIter e with
    | none =>
      simp only [hiter] at h
      obtain ⟨rfl, rfl⟩ := Prod.mk.inj (Option.some.inj h)
      refine .execFault e rest hring ?_
      intro hlt
      obtain ⟨m', es, hsome⟩ := strategyStep_total cfg s.mm (.exec e) hlt
      have hsome : s.mm.execIter e = some (m', es) := hsome
      rw [hsome] at hiter
      cases hiter
    | some r =>
      obtain ⟨m', es⟩ := r
      obtain ⟨sym, hsym, rfl, rfl⟩ := execIter_takeExec hiter
      simp only [hiter] at h
      cases hfill : e.kind.isFill with
      | false =>
        simp [hfill] at h
        obtain ⟨rfl, rfl⟩ := h
        exact .exec e rest sym hring hsym hfill
      | true =>
        simp [hfill] at h
        obtain ⟨rfl, rfl⟩ := h
        exact .fill e rest sym hring hsym hfill

/-- INTERNAL: the strategy's step on a snapshot.
SRCLINE: src/strategy/market_maker.hpp:66-82 -/
theorem md_engineStep {env : MdEnv} (h : s.md cfg env = some (t, obs)) :
    EngineStep cfg s (.md env) t obs := by
  unfold Engine.md at h
  cases hring : s.mdRing with
  | nil =>
    rw [hring] at h
    cases h
  | cons ev rest =>
    simp only [hring] at h
    cases hiter : mdIter cfg env s.mm ev with
    | none =>
      simp only [hiter] at h
      obtain ⟨rfl, rfl⟩ := Prod.mk.inj (Option.some.inj h)
      refine .mdFault env ev rest hring ?_
      intro hlt
      obtain ⟨m', es, hsome⟩ := strategyStep_total cfg s.mm (.md ev env) hlt
      have hsome : mdIter cfg env s.mm ev = some (m', es) := hsome
      rw [hsome] at hiter
      cases hiter
    | some r =>
      simp only [hiter] at h
      obtain ⟨rfl, rfl⟩ := Prod.mk.inj (Option.some.inj h)
      exact .md env ev rest r.1 r.2 hring hiter

/-- INTERNAL: the sender's send.
SRCLINE: src/main.cpp:217 -/
theorem send_engineStep (h : s.send cfg = some (t, obs)) : EngineStep cfg s .send t obs := by
  unfold Engine.send at h
  cases hsend : s.sender with
  | idle => rw [hsend] at h; cases h
  | popped c => rw [hsend] at h; cases h
  | cleared c =>
    simp only [hsend] at h
    cases hmsg : (FixApp.init cfg).sendOrderCmd c with
    | none =>
      simp only [hmsg] at h
      obtain ⟨rfl, rfl⟩ := Prod.mk.inj (Option.some.inj h)
      rw [← hsend]
      refine .sendFault c hsend ?_
      intro hlt
      unfold FixApp.sendOrderCmd at hmsg
      rw [dif_pos hlt] at hmsg
      cases hty : c.type <;> simp [hty] at hmsg
    | some m =>
      simp only [hmsg] at h
      obtain ⟨rfl, rfl⟩ := Prod.mk.inj (Option.some.inj h)
      exact .send c m hsend hmsg

/-- INTERNAL: **every step of the engine is one of the listed outcomes**, and none is taken
after a fault.
SRCLINE: src/main.cpp:199-220 -/
theorem step_engineStep {a : EngineAct} (h : s.step cfg a = some (t, obs)) :
    s.faulted = false ∧ EngineStep cfg s a t obs := by
  unfold Engine.step at h
  by_cases hf : s.faulted = true
  · rw [if_pos hf] at h
    cases h
  · rw [if_neg hf] at h
    refine ⟨by simpa using hf, ?_⟩
    cases a with
    | recv msg now =>
      have hr := @recv_engineStep cfg s msg now
      rw [show s.recv cfg msg now = (t, obs) from Option.some.inj h] at hr
      exact hr
    | exec => exact exec_engineStep h
    | md env => exact md_engineStep h
    | pop =>
      have h : s.pop = some (t, obs) := h
      unfold Engine.pop at h
      cases hsend : s.sender with
      | idle =>
        cases hring : s.ordRing with
        | nil => simp [hsend, hring] at h
        | cons c rest =>
          simp only [hsend, hring] at h
          obtain ⟨rfl, rfl⟩ := Prod.mk.inj (Option.some.inj h)
          exact .pop c rest hsend hring
      | popped c => simp [hsend] at h
      | cleared c => simp [hsend] at h
    | check =>
      have h : s.check = some (t, obs) := h
      unfold Engine.check at h
      cases hsend : s.sender with
      | idle => simp [hsend] at h
      | popped c =>
        simp only [hsend] at h
        obtain ⟨rfl, rfl⟩ := Prod.mk.inj (Option.some.inj h)
        exact .check c hsend
      | cleared c => simp [hsend] at h
    | send => exact send_engineStep h
    | persist =>
      have h : s.persist = some (t, obs) := h
      unfold Engine.persist at h
      cases hring : s.tradeRing with
      | nil => simp [hring] at h
      | cons e rest =>
        simp only [hring] at h
        obtain ⟨rfl, rfl⟩ := Prod.mk.inj (Option.some.inj h)
        exact .persist e rest hring
    | logon =>
      obtain ⟨rfl, rfl⟩ := Prod.mk.inj (Option.some.inj h)
      exact .logon
    | logout =>
      obtain ⟨rfl, rfl⟩ := Prod.mk.inj (Option.some.inj h)
      exact .logout

end Inversion

/-! ## The strategy inside the engine -/

/-- What the strategy did in a history of the engine. -/
def effects (h : List Obs) : List Effect :=
  h.filterMap fun
    | .strategy x => some x
    | _ => none

theorem effects_append (h h' : List Obs) : effects (h ++ h') = effects h ++ effects h' :=
  List.filterMap_append

@[simp] theorem effects_map_strategy (es : List Effect) : effects (es.map .strategy) = es := by
  unfold effects
  rw [List.filterMap_map]
  exact List.filterMap_some

/-- INTERNAL: **what the strategy loop keeps, the engine keeps**, whatever its other threads
do in between. -/
theorem Kept.engineStep {cfg : EngineConfig} {I : MarketMaker → List Effect → Prop}
    (hI : Kept cfg I) {s t : Engine} {h obs : List Obs} {a : EngineAct}
    (hstep : EngineStep cfg s a t obs) (hs : I s.mm (effects h)) :
    I t.mm (effects (h ++ obs)) := by
  rw [effects_append]
  cases hstep with
  | exec e rest sym hring hsym => exact hI.consumed s.mm _ e sym hsym hs
  | fill e rest sym hring hsym =>
    have hc := hI.consumed s.mm _ e sym hsym hs
    have hq := hI.quiets [.trade e, .logged (execLog e)]
      (by intro x hx; simp only [List.mem_cons, List.not_mem_nil, or_false] at hx
          rcases hx with rfl | rfl <;> trivial) hc
    cases hoff : (offer tradeCap s.tradeRing e).2 <;> simpa [effects] using hq
  | md env ev rest m es hring hiter =>
    rw [effects_map_strategy]
    exact hI.mdIter hiter (fun _ _ => trivial) (fun _ _ _ _ _ => trivial) hs
  | dropped | quoted | reported | execFault | mdFault | pop | check | sendFault | send | persist
  | logon | logout => simpa [effects] using hs

end MmEngine.Interface
