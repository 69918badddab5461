import MmEngine.Model.OrderPath
import MmEngine.Interface.FixRules
import MmEngine.Interface.OrderIds

/-!
# The rule for invariants of the order path

`PathStep` lists what one step of the order path can do.  `PathKept` is the rule for
invariants of the path: one obligation for each party, and for the strategy's turn on a
snapshot the obligations of `KeptFresh`, in which the commands of the turn join the order
ring one by one.  `PathKept.run` discharges whole runs, as long as the id counter has not
wrapped.
-/

set_option autoImplicit false

namespace MmEngine.Interface

open MmEngine.Model MmEngine.Model.MarketMaker MmEngine.Lib

variable {X : Exchange}

/-- The outcomes of one step of the order path, with what each requires. -/
inductive PathStep (cfg : EngineConfig) (s : OrderPath X) :
    PathAct X → OrderPath X → List Effect → Prop where
  | md (seq : ℕ) (msg : MarketDataSnapshot) (now : ℤ) (env : MdEnv) (ev : MdEvent) (m : MarketMaker)
      (es : List Effect) (hconv : (FixApp.init cfg).onMarketData seq msg now = .ok (some ev))
      (hiter : s.mm.mdIter cfg env ev = some (m, es)) :
      PathStep cfg s (.md seq msg now env)
        { s with mm := m, ordRing := s.ordRing ++ pushedCmds es } es
  | exec (e : ExecEvent) (rest : List ExecEvent) (sym : Fin kMaxSymbols)
      (hring : s.execRing = e :: rest) (hsym : sym.val = e.symbolId) :
      PathStep cfg s .exec { s with mm := takeExec s.mm sym e, execRing := rest }
        (.consumed e :: if e.kind.isFill then [.trade e, .logged (execLog e)] else [])
  | send (c : OrderCmd) (rest : List OrderCmd) (m : OrderMsg) (hring : s.ordRing = c :: rest)
      (hmsg : (FixApp.init cfg).sendOrderCmd c = some m) :
      PathStep cfg s .send { s with ordRing := rest, toExch := s.toExch ++ [m] } []
  | recv (m : OrderMsg) (rest : List OrderMsg) (hring : s.toExch = m :: rest) :
      PathStep cfg s .recv
        { s with toExch := rest, exch := (X.recv s.exch m).1,
                 toEngine := s.toEngine ++ (X.recv s.exch m).2 } []
  | act (a : X.Act) (x : X.State) (rs : List ExecutionReport) (hact : X.act s.exch a = some (x, rs)) :
      PathStep cfg s (.act a) { s with exch := x, toEngine := s.toEngine ++ rs } []
  | reported (now : ℤ) (r : ExecutionReport) (rest : List ExecutionReport) (e : ExecEvent)
      (hring : s.toEngine = r :: rest)
      (hconv : (FixApp.init cfg).onExecutionReport r now = .ok e) :
      PathStep cfg s (.report now) { s with toEngine := rest, execRing := s.execRing ++ [e] } []
  | dropped (now : ℤ) (r : ExecutionReport) (rest : List ExecutionReport) (err : FixError)
      (hring : s.toEngine = r :: rest)
      (hconv : (FixApp.init cfg).onExecutionReport r now = .error err) :
      PathStep cfg s (.report now) { s with toEngine := rest } []

/-- INTERNAL: every step of the order path is one of the listed outcomes. -/
theorem step_pathStep {cfg : EngineConfig} {s t : OrderPath X} {a : PathAct X} {es : List Effect}
    (h : s.step cfg a = some (t, es)) : PathStep cfg s a t es := by
  cases a with
  | md seq msg now env =>
    simp only [OrderPath.step, OrderPath.md] at h
    cases hconv : (FixApp.init cfg).onMarketData seq msg now with
    | error err => simp [hconv] at h
    | ok r =>
      cases r with
      | none => simp [hconv] at h
      | some ev =>
        simp only [hconv, Option.map_eq_some_iff] at h
        obtain ⟨r, hiter, hr⟩ := h
        obtain ⟨rfl, rfl⟩ := Prod.mk.inj hr
        exact .md seq msg now env ev r.1 r.2 hconv hiter
  | exec =>
    simp only [OrderPath.step, OrderPath.exec] at h
    cases hring : s.execRing with
    | nil => simp [hring] at h
    | cons e rest =>
      simp only [hring, Option.map_eq_some_iff] at h
      obtain ⟨r, hiter, hr⟩ := h
      obtain ⟨rfl, rfl⟩ := Prod.mk.inj hr
      obtain ⟨sym, hsym, hm, hes⟩ := execIter_takeExec (show s.mm.execIter e = some (r.1, r.2) from hiter)
      rw [hm, hes]
      exact .exec e rest sym hring hsym
  | send =>
    simp only [OrderPath.step, OrderPath.send] at h
    cases hring : s.ordRing with
    | nil => simp [hring] at h
    | cons c rest =>
      simp only [hring, Option.map_eq_some_iff] at h
      obtain ⟨m, hmsg, hr⟩ := h
      obtain ⟨rfl, rfl⟩ := Prod.mk.inj hr
      exact .send c rest m hring hmsg
  | recv =>
    simp only [OrderPath.step, OrderPath.recv] at h
    cases hring : s.toExch with
    | nil => simp [hring] at h
    | cons m rest =>
      simp only [hring] at h
      obtain ⟨rfl, rfl⟩ := Prod.mk.inj (Option.some.inj h)
      exact .recv m rest hring
  | act a =>
    simp only [OrderPath.step, Option.map_eq_some_iff] at h
    obtain ⟨r, hact, hr⟩ := h
    obtain ⟨rfl, rfl⟩ := Prod.mk.inj hr
    exact .act a r.1 r.2 hact
  | report now =>
    simp only [OrderPath.step, OrderPath.report] at h
    cases hring : s.toEngine with
    | nil => simp [hring] at h
    | cons r rest =>
      simp only [hring] at h
      cases hconv : (FixApp.init cfg).onExecutionReport r now with
      | ok e =>
        simp only [hconv] at h
        obtain ⟨rfl, rfl⟩ := Prod.mk.inj (Option.some.inj h)
        exact .reported now r rest e hring hconv
      | error err =>
        simp only [hconv] at h
        obtain ⟨rfl, rfl⟩ := Prod.mk.inj (Option.some.inj h)
        exact .dropped now r rest err hring hconv

/-! ## What the sender makes of a command -/

theorem pushedCmds_concat_pushed (es : List Effect) (c : OrderCmd) :
    pushedCmds (es ++ [.pushed c]) = pushedCmds es ++ [c] := List.filterMap_append

theorem pushedCmds_concat_of_not_pushed (es : List Effect) {x : Effect}
    (hx : ∀ c, x ≠ .pushed c) : pushedCmds (es ++ [x]) = pushedCmds es := by
  unfold pushedCmds
  rw [List.filterMap_append]
  cases x with
  | pushed c => exact absurd rfl (hx c)
  | consumed | took | refused | logged | trade | snapshot => exact List.append_nil _

/-- INTERNAL: **a command for a slot of the table is sent**, under its own id and with the text
of its symbol.
SRCLINE: src/fix/fix_app.hpp:192-229 -/
theorem sendOrderCmd_spec (app : FixApp) {c : OrderCmd} {sym : Fin kMaxSymbols}
    (hsym : c.symbolId = sym) :
    ∃ m, app.sendOrderCmd c = some m ∧ strtoull m.clOrdID = c.clOrdId ∧
      m.symbol = app.symbols sym ∧
      (c.type = .new → ∃ o, m = .newOrderSingle o ∧ o.side = FixApp.sideChar c.side) ∧
      (c.type = .cancel → ∃ x, m = .orderCancelRequest x) := by
  obtain ⟨n, hlt⟩ := sym
  have hn : c.symbolId = n := hsym
  subst hn
  unfold FixApp.sendOrderCmd
  rw [dif_pos hlt]
  cases htype : c.type with
  | new =>
    refine ⟨_, rfl, strtoull_printId c.clOrdId, rfl, fun _ => ⟨_, rfl, rfl⟩, ?_⟩
    intro hne
    cases hne
  | cancel =>
    refine ⟨_, rfl, strtoull_printId c.clOrdId, rfl, ?_, fun _ => ⟨_, rfl⟩⟩
    intro hne
    cases hne

section UnderWay

variable {app : FixApp} {ring : List OrderCmd} {sent : List OrderMsg} {c : OrderCmd} {m : OrderMsg}

/-- INTERNAL: a pushed command puts one message under way. -/
theorem perm_pushed (es : List Effect) (hmsg : app.sendOrderCmd c = some m) :
    ((ring ++ pushedCmds (es ++ [.pushed c])).filterMap app.sendOrderCmd ++ sent).Perm
      (m :: ((ring ++ pushedCmds es).filterMap app.sendOrderCmd ++ sent)) := by
  rw [pushedCmds_concat_pushed, ← List.append_assoc, List.filterMap_append,
    List.filterMap_cons_some hmsg, List.filterMap_nil, List.append_assoc]
  exact List.perm_middle

/-- INTERNAL: a sent command is under way as before. -/
theorem perm_sent (hmsg : app.sendOrderCmd c = some m) :
    (ring.filterMap app.sendOrderCmd ++ (sent ++ [m])).Perm
      ((c :: ring).filterMap app.sendOrderCmd ++ sent) := by
  rw [List.filterMap_cons_some hmsg, List.cons_append, ← List.append_assoc]
  exact List.perm_append_singleton _ _

end UnderWay

/-! ## The rule -/

/-- The path after a turn of the strategy that left `m` and pushed the commands of `es`. -/
def afterTurn (s : OrderPath X) (m : MarketMaker) (es : List Effect) : OrderPath X :=
  { s with mm := m, ordRing := s.ordRing ++ pushedCmds es }

/-- An invariant of the order path under the guard `G`, with the cancels `A` allows in a
state. -/
structure PathKept (cfg : EngineConfig) (G : OrderPath X → PathAct X → Prop)
    (A : OrderPath X → Fin kMaxSymbols → OrdSide → Quote → Prop) (J : OrderPath X → Prop) :
    Prop where
  turn : ∀ s, KeptFresh cfg (Canonical (FixApp.init cfg)) (A s) fun m es => J (afterTurn s m es)
  allow : ∀ s seq msg now env ev m es, J s → G s (.md seq msg now env) →
    (FixApp.init cfg).onMarketData seq msg now = .ok (some ev) →
    s.mm.mdIter cfg env ev = some (m, es) →
    ∀ (sym : Fin kMaxSymbols) (side : OrdSide), sym.val = ev.symbolId →
      (s.mm.slot sym side).state = .live → (m.slot sym side).state = .pendingCancel →
      A s sym side (s.mm.slot sym side)
  exec : ∀ s e rest (sym : Fin kMaxSymbols), J s → s.execRing = e :: rest → sym.val = e.symbolId →
    J { s with mm := takeExec s.mm sym e, execRing := rest }
  send : ∀ s c rest m, J s → s.ordRing = c :: rest → (FixApp.init cfg).sendOrderCmd c = some m →
    J { s with ordRing := rest, toExch := s.toExch ++ [m] }
  recv : ∀ s m rest, J s → s.toExch = m :: rest →
    J { s with toExch := rest, exch := (X.recv s.exch m).1,
               toEngine := s.toEngine ++ (X.recv s.exch m).2 }
  act : ∀ s a x rs, J s → G s (.act a) → X.act s.exch a = some (x, rs) →
    J { s with exch := x, toEngine := s.toEngine ++ rs }
  reported : ∀ s now r rest e, J s → s.toEngine = r :: rest →
    (FixApp.init cfg).onExecutionReport r now = .ok e →
    J { s with toEngine := rest, execRing := s.execRing ++ [e] }
  dropped : ∀ s now r rest err, J s → s.toEngine = r :: rest →
    (FixApp.init cfg).onExecutionReport r now = .error err → J { s with toEngine := rest }

namespace PathKept

variable {cfg : EngineConfig} {G : OrderPath X → PathAct X → Prop}
  {A : OrderPath X → Fin kMaxSymbols → OrdSide → Quote → Prop} {J : OrderPath X → Prop}

/-- The path with the counter: it started at `n`, and `J` holds if it has not wrapped. -/
def Counted (n : ℕ) (J : OrderPath X → Prop) (x : OrderPath X × List Effect) : Prop :=
  x.1.mm.clOrdSeed = UInt64.ofNat (n + spent x.2) ∧ (n + spent x.2 < 2 ^ 64 → J x.1)

theorem counted_of_unspent {n : ℕ} {s t : OrderPath X} {h es : List Effect}
    (hs : Counted n J (s, h)) (hes : spent es = 0) (hseed : t.mm.clOrdSeed = s.mm.clOrdSeed)
    (hstep : J s → J t) : Counted n J (t, h ++ es) := by
  unfold Counted at *
  dsimp only at *
  rw [spent_append, hes, Nat.add_zero, hseed]
  exact ⟨hs.1, fun hlt => hstep (hs.2 hlt)⟩

/-- INTERNAL: **one step** of the order path keeps the invariant. -/
theorem step (hJ : PathKept cfg G A J) {n : ℕ} {s t : OrderPath X} {h es : List Effect}
    {a : PathAct X} (hstep : PathStep cfg s a t es) (hG : G s a) (hs : Counted n J (s, h)) :
    Counted n J (t, h ++ es) := by
  cases hstep with
  | md seq msg now env ev m es hconv hiter =>
    unfold Counted at *
    dsimp only at *
    rw [spent_append, ← Nat.add_assoc]
    refine ⟨clOrdSeed_mdIter hiter hs.1, fun hlt => ?_⟩
    have hJs : J s := hs.2 (by omega)
    obtain ⟨sym, hid, hcanon⟩ := onMarketData_canonical hconv
    refine (hJ.turn s).mdIter hiter hs.1 ?_
      (hJ.allow s seq msg now env ev m es hJs hG hconv hiter) ?_ hlt
    · intro sym' hsym'
      obtain rfl : sym' = sym := Fin.ext (hsym'.trans hid)
      exact hcanon
    · show J { s with ordRing := s.ordRing ++ [] }
      rw [List.append_nil]
      exact hJs
  | exec e rest sym hring hsym =>
    refine counted_of_unspent hs ?_ rfl fun hJs => hJ.exec s e rest sym hJs hring hsym
    cases e.kind.isFill <;> rfl
  | send c rest m hring hmsg =>
    exact counted_of_unspent hs rfl rfl fun hJs => hJ.send s c rest m hJs hring hmsg
  | recv m rest hring =>
    exact counted_of_unspent hs rfl rfl fun hJs => hJ.recv s m rest hJs hring
  | act a x rs hact =>
    exact counted_of_unspent hs rfl rfl fun hJs => hJ.act s a x rs hJs hG hact
  | reported now r rest e hring hconv =>
    exact counted_of_unspent hs rfl rfl fun hJs => hJ.reported s now r rest e hJs hring hconv
  | dropped now r rest err hring hconv =>
    exact counted_of_unspent hs rfl rfl fun hJs => hJ.dropped s now r rest err hJs hring hconv

/-- INTERNAL: **a whole run** of the order path keeps the invariant, if the counter has not
wrapped in it. -/
theorem run (hJ : PathKept cfg G A J) {s t : OrderPath X} {h : List Effect} {as : List (PathAct X)}
    (hs : J s) (hG : Along (recorded (OrderPath.step cfg)) (fun x a => G x.1 a) (s, []) as)
    (hrun : Lib.run (recorded (OrderPath.step cfg)) (s, []) as = some (t, h))
    (hwrap : s.mm.clOrdSeed.toNat + spent h < 2 ^ 64) : J t := by
  have hcount : Counted s.mm.clOrdSeed.toNat J (t, h) := by
    refine run_invariant (I := Counted s.mm.clOrdSeed.toNat J) ?_ ?_ hG hrun
    · rintro ⟨s, h⟩ a ⟨t, h'⟩ hs hG hstep
      obtain ⟨es, hes, rfl⟩ := recorded_eq_some.mp hstep
      exact hJ.step (step_pathStep hes) hG hs
    · refine ⟨?_, fun _ => hs⟩
      rw [spent_nil, Nat.add_zero, UInt64.ofNat_toNat]
  exact hcount.2 hwrap

end PathKept

end MmEngine.Interface
