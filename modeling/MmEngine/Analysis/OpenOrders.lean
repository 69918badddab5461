import MmEngine.Model.Venue
import MmEngine.Interface.OrderPathRules
import Mathlib.Data.List.Nodup

/-!
# One order per slot at the venue

An execution becomes `PartFill` when its OrdStatus is PartiallyFilled, and `Filled` otherwise;
LeavesQty is not looked at (fix_app.hpp:166-170).  A partial execution reported as
PendingCancel is therefore taken for the last one: `on_exec` frees the slot, and the next
snapshot sends a second order while the first is open.

Without such reports a slot is freed only for an order that is closed.  The invariant keeps
two sets of ids apart.  A working order, in flight or open at the venue, is the order of the
slot of its symbol and side.  An id is retired if a terminal report under it may still arrive:
the order is closed, or the id is that of a cancel request, or the report is on its way.
-/

set_option autoImplicit false

namespace MmEngine.Analysis

open MmEngine.Model MmEngine.Model.MarketMaker MmEngine.Interface MmEngine.Lib

/-- The engine and a conformant venue. -/
abbrev VenuePath := OrderPath venue

/-- The orders the venue has received. -/
def venueOrders (s : VenuePath) : List VenueOrder := s.exch

/-- An order as the engine tracks it. -/
structure WorkingOrder where
  id : UInt64
  symbol : Text
  side : Char
  deriving DecidableEq

/-- The order a message brings. -/
def newOrder : OrderMsg → Option WorkingOrder
  | .newOrderSingle o => some { id := strtoull o.clOrdID, symbol := o.symbol, side := o.side }
  | .orderCancelRequest _ => none

/-- The order, while it is open. -/
def openOrder (o : VenueOrder) : Option WorkingOrder :=
  if o.isOpen then some { id := strtoull o.clOrdID, symbol := o.symbol, side := o.side } else none

/-- The messages on their way to the venue, those still to be sent included. -/
def underWay (cfg : EngineConfig) (s : VenuePath) : List OrderMsg :=
  s.ordRing.filterMap (FixApp.init cfg).sendOrderCmd ++ s.toExch

/-- The orders in flight towards the venue, and those open at the venue. -/
def workingOrders (cfg : EngineConfig) (s : VenuePath) : List WorkingOrder :=
  (underWay cfg s).filterMap newOrder ++ (venueOrders s).filterMap openOrder

/-- The slot of the order's symbol and side tracks the order. -/
def TrackedBy (cfg : EngineConfig) (m : MarketMaker) (w : WorkingOrder) : Prop :=
  ∃ (sym : Fin kMaxSymbols) (side : OrdSide), (FixApp.init cfg).symbolId w.symbol = sym ∧
    w.side = FixApp.sideChar side ∧ (m.slot sym side).state ≠ .none ∧
    (m.slot sym side).clOrdId = w.id

/-- A terminal report under the id is on its way, or may still be sent. -/
inductive Retired (cfg : EngineConfig) (s : VenuePath) : UInt64 → Prop where
  | request (x : OrderCancelRequest) (hx : .orderCancelRequest x ∈ underWay cfg s) :
      Retired cfg s (strtoull x.clOrdID)
  | pending (o : VenueOrder) (t : Text) (ho : o ∈ venueOrders s) (ht : t ∈ o.pending) :
      Retired cfg s (strtoull t)
  | closed (o : VenueOrder) (ho : o ∈ venueOrders s) (hclosed : o.isOpen = false) :
      Retired cfg s (strtoull o.clOrdID)
  | report (r : ExecutionReport) (now : ℤ) (e : ExecEvent) (hr : r ∈ s.toEngine)
      (hconv : (FixApp.init cfg).onExecutionReport r now = .ok e) (hterm : e.kind.terminal = true) :
      Retired cfg s e.clOrdId
  | event (e : ExecEvent) (he : e ∈ s.execRing) (hterm : e.kind.terminal = true) :
      Retired cfg s e.clOrdId

/-- The condition on a step: the venue reports no execution that leaves quantity as
PendingCancel. -/
def PartialsMarked (s : VenuePath) : PathAct venue → Prop
  | .act a => ∀ o px qty, (venueOrders s)[VenueAct.order a]? = some o →
      VenueAct.act a = .trade px qty true → o.leaves - qty = 0
  | _ => True

/-! ## The two sets of ids -/

/-- Working orders are tracked, under ids of their own that were counted, and no working order
carries a retired id. -/
structure Apart (cfg : EngineConfig) (m : MarketMaker) (ws : List WorkingOrder)
    (R : UInt64 → Prop) : Prop where
  tracked : ∀ w ∈ ws, TrackedBy cfg m w
  distinct : (ws.map WorkingOrder.id).Nodup
  counted : ∀ w ∈ ws, w.id.toNat < m.clOrdSeed.toNat
  retired : ∀ id, R id → id.toNat < m.clOrdSeed.toNat ∧ ∀ w ∈ ws, w.id ≠ id

namespace Apart

variable {cfg : EngineConfig} {m m' : MarketMaker} {ws ws' : List WorkingOrder}
  {R R' : UInt64 → Prop}

/-- INTERNAL: the order of the lists does not matter, and ids may be forgotten. -/
theorem mono (h : Apart cfg m ws R) (hws : ws'.Perm ws) (hR : ∀ id, R' id → R id) :
    Apart cfg m ws' R' where
  tracked := fun w hw => h.tracked w (hws.mem_iff.mp hw)
  distinct := (hws.map WorkingOrder.id).nodup_iff.mpr h.distinct
  counted := fun w hw => h.counted w (hws.mem_iff.mp hw)
  retired := by
    intro id hid
    obtain ⟨hlt, hne⟩ := h.retired id (hR id hid)
    exact ⟨hlt, fun w hw => hne w (hws.mem_iff.mp hw)⟩

/-- INTERNAL: the strategy may change as long as it goes on tracking the working orders. -/
theorem of_tracked (h : Apart cfg m ws R) (hw : ∀ w ∈ ws, TrackedBy cfg m w → TrackedBy cfg m' w)
    (hseed : m.clOrdSeed.toNat ≤ m'.clOrdSeed.toNat) : Apart cfg m' ws R where
  tracked := fun w hmem => hw w hmem (h.tracked w hmem)
  distinct := h.distinct
  counted := fun w hmem => lt_of_lt_of_le (h.counted w hmem) hseed
  retired := fun id hid => ⟨lt_of_lt_of_le (h.retired id hid).1 hseed, (h.retired id hid).2⟩

/-- INTERNAL: an order under the next id joins. -/
theorem place (h : Apart cfg m ws R) {w : WorkingOrder} (hw : TrackedBy cfg m' w)
    (hid : w.id = m.clOrdSeed) (hws : ∀ w ∈ ws, TrackedBy cfg m w → TrackedBy cfg m' w)
    (hseed : m'.clOrdSeed.toNat = m.clOrdSeed.toNat + 1) : Apart cfg m' (w :: ws) R := by
  have hold := h.of_tracked hws (by omega)
  have hfresh : ∀ id : UInt64, id.toNat < m.clOrdSeed.toNat → w.id ≠ id := by
    rintro id hlt rfl
    rw [hid] at hlt
    exact absurd hlt (lt_irrefl _)
  refine ⟨?_, ?_, ?_, ?_⟩
  · exact List.forall_mem_cons.mpr ⟨hw, hold.tracked⟩
  · rw [List.map_cons, List.nodup_cons]
    refine ⟨?_, h.distinct⟩
    intro hmem
    obtain ⟨w', hw', heq⟩ := List.mem_map.mp hmem
    exact hfresh w'.id (h.counted w' hw') heq.symm
  · refine List.forall_mem_cons.mpr ⟨?_, hold.counted⟩
    rw [hid]
    omega
  · intro id hR
    refine ⟨(hold.retired id hR).1, List.forall_mem_cons.mpr ⟨?_, (h.retired id hR).2⟩⟩
    exact hfresh id (h.retired id hR).1

/-- INTERNAL: the next id is retired at once. -/
theorem retire (h : Apart cfg m ws R) (hws : ∀ w ∈ ws, TrackedBy cfg m w → TrackedBy cfg m' w)
    (hseed : m'.clOrdSeed.toNat = m.clOrdSeed.toNat + 1)
    (hR : ∀ id, R' id → R id ∨ id = m.clOrdSeed) : Apart cfg m' ws R' := by
  have hold := h.of_tracked hws (by omega)
  refine ⟨hold.tracked, hold.distinct, hold.counted, ?_⟩
  intro id hid
  rcases hR id hid with hid | rfl
  · exact hold.retired id hid
  · refine ⟨by omega, ?_⟩
    intro w hw heq
    have hlt := h.counted w hw
    rw [heq] at hlt
    exact absurd hlt (lt_irrefl _)

/-- INTERNAL: a working order is closed, and its id is retired. -/
theorem close (h : Apart cfg m ws R) (w : WorkingOrder) (hws : ws.Perm (w :: ws'))
    (hR : ∀ id, R' id → R id ∨ id = w.id) : Apart cfg m ws' R' := by
  have hperm := h.mono hws.symm fun _ hid => hid
  have hnd := hperm.distinct
  rw [List.map_cons, List.nodup_cons] at hnd
  have hne : ∀ w' ∈ ws', w'.id ≠ w.id := by
    intro w' hw' heq
    exact hnd.1 (List.mem_map.mpr ⟨w', hw', heq⟩)
  refine ⟨?_, hnd.2, ?_, ?_⟩
  · exact fun w' hw' => hperm.tracked w' (List.mem_cons_of_mem _ hw')
  · exact fun w' hw' => hperm.counted w' (List.mem_cons_of_mem _ hw')
  · intro id hid
    rcases hR id hid with hid | rfl
    · exact ⟨(hperm.retired id hid).1,
        fun w' hw' => (hperm.retired id hid).2 w' (List.mem_cons_of_mem _ hw')⟩
    · exact ⟨hperm.counted w List.mem_cons_self, hne⟩

/-- INTERNAL: two orders for one symbol and side would be tracked by one slot, and so carry
one id. -/
theorem keys_nodup (h : Apart cfg m ws R) : (ws.map fun w => (w.symbol, w.side)).Nodup := by
  refine List.Nodup.map_on ?_ (List.Nodup.of_map _ h.distinct)
  intro w hw w' hw' hkey
  obtain ⟨hsymbol, hside⟩ := Prod.mk.inj hkey
  obtain ⟨sym, side, hsym, hchar, -, hid⟩ := h.tracked w hw
  obtain ⟨sym', side', hsym', hchar', -, hid'⟩ := h.tracked w' hw'
  obtain rfl : sym = sym' := by
    rw [hsymbol] at hsym
    exact Fin.ext (hsym.symm.trans hsym')
  obtain rfl : side = side' := by
    rw [hside, hchar'] at hchar
    cases side <;> cases side' <;> first | rfl | cases hchar
  exact List.inj_on_of_nodup_map h.distinct hw hw' (hid.symm.trans hid')

end Apart

/-- What holds between two steps of the path. -/
def Tracked (cfg : EngineConfig) (s : VenuePath) : Prop :=
  Apart cfg s.mm (workingOrders cfg s) (Retired cfg s)

/-- INTERNAL: an id that is retired in a path that holds no more than another is retired in
the other. -/
theorem Retired.mono {cfg : EngineConfig} {s t : VenuePath} {id : UInt64} (h : Retired cfg t id)
    (hway : ∀ x, .orderCancelRequest x ∈ underWay cfg t → .orderCancelRequest x ∈ underWay cfg s)
    (horders : ∀ o ∈ venueOrders t, o ∈ venueOrders s) (hreports : ∀ r ∈ t.toEngine, r ∈ s.toEngine)
    (hevents : ∀ e ∈ t.execRing, e ∈ s.execRing) : Retired cfg s id := by
  cases h with
  | request x hx => exact .request x (hway x hx)
  | pending o t ho ht => exact .pending o t (horders o ho) ht
  | closed o ho hclosed => exact .closed o (horders o ho) hclosed
  | report r now e hr hconv hterm => exact .report r now e (hreports r hr) hconv hterm
  | event e he hterm => exact .event e (hevents e he) hterm

/-! ## The strategy's turn on a snapshot -/

section Turn

variable {cfg : EngineConfig} {s : VenuePath} {m m' : MarketMaker} {es es' : List Effect}

theorem Tracked.keep (h : Tracked cfg (afterTurn s m es)) (hcmds : pushedCmds es' = pushedCmds es)
    (hw : ∀ w, TrackedBy cfg m w → TrackedBy cfg m' w)
    (hseed : m.clOrdSeed.toNat ≤ m'.clOrdSeed.toNat) : Tracked cfg (afterTurn s m' es') := by
  have hway : underWay cfg (afterTurn s m' es') = underWay cfg (afterTurn s m es) := by
    unfold underWay afterTurn
    rw [hcmds]
  have hws : workingOrders cfg (afterTurn s m' es') = workingOrders cfg (afterTurn s m es) := by
    unfold workingOrders
    rw [hway]
    rfl
  have hold : Apart cfg m' (workingOrders cfg (afterTurn s m es)) (Retired cfg (afterTurn s m es)) :=
    h.of_tracked (fun w _ => hw w) hseed
  apply hold.mono (by rw [hws])
  intro id hid
  exact hid.mono (fun x hx => hway ▸ hx) (fun _ h => h) (fun _ h => h) fun _ h => h

theorem underWay_pushed {c : OrderCmd} {msg : OrderMsg}
    (hmsg : (FixApp.init cfg).sendOrderCmd c = some msg) :
    (underWay cfg (afterTurn s m' (es ++ [.pushed c]))).Perm
      (msg :: underWay cfg (afterTurn s m es)) :=
  perm_pushed es hmsg

theorem filterMap_cons_toList {α β : Type} (f : α → Option β) (a : α) (l : List α) :
    (a :: l).filterMap f = (f a).toList ++ l.filterMap f := by
  cases h : f a with
  | none => exact List.filterMap_cons_none h
  | some b => exact List.filterMap_cons_some h

theorem workingOrders_pushed {c : OrderCmd} {msg : OrderMsg}
    (hmsg : (FixApp.init cfg).sendOrderCmd c = some msg) :
    (workingOrders cfg (afterTurn s m' (es ++ [.pushed c]))).Perm
      ((newOrder msg).toList ++ workingOrders cfg (afterTurn s m es)) := by
  unfold workingOrders
  rw [← List.append_assoc]
  apply List.Perm.append_right _
  rw [← filterMap_cons_toList]
  exact (underWay_pushed hmsg).filterMap newOrder

/-- INTERNAL: what a pushed command may retire is the id of a cancel request. -/
theorem retired_pushed {c : OrderCmd} {msg : OrderMsg}
    (hmsg : (FixApp.init cfg).sendOrderCmd c = some msg) {id : UInt64}
    (h : Retired cfg (afterTurn s m' (es ++ [.pushed c])) id) :
    Retired cfg (afterTurn s m es) id ∨
      (∃ x, msg = .orderCancelRequest x) ∧ id = strtoull msg.clOrdID := by
  cases h with
  | request x hx =>
    rcases List.mem_cons.mp ((underWay_pushed hmsg).mem_iff.mp hx) with rfl | hx
    · exact Or.inr ⟨⟨x, rfl⟩, rfl⟩
    · exact Or.inl (.request x hx)
  | pending o t ho ht => exact Or.inl (.pending o t ho ht)
  | closed o ho hclosed => exact Or.inl (.closed o ho hclosed)
  | report r now e hr hconv hterm => exact Or.inl (.report r now e hr hconv hterm)
  | event e he hterm => exact Or.inl (.event e he hterm)

/-- INTERNAL: a placed order is tracked by its slot, under an id no order carries.
SRCLINE: src/strategy/market_maker.hpp:116-128 -/
theorem tracked_placed {env : MdEnv} {sym : Fin kMaxSymbols} {side : OrdSide} {px : ℚ} {tMd : ℤ}
    (hroom : m.clOrdSeed.toNat + 1 < 2 ^ 64) (hcanon : Canonical (FixApp.init cfg) sym)
    (hnone : (m.slot sym side).state = .none) (h : Tracked cfg (afterTurn s m es)) :
    Tracked cfg (afterTurn s
      (m.bumpSeed.setSlot sym side (placedQuote m sym side (newCmd cfg env m sym side px tMd)))
      (es ++ [.pushed (newCmd cfg env m sym side px tMd)])) := by
  obtain ⟨msg, hmsg, hid, htext, hnew, -⟩ := sendOrderCmd_spec (FixApp.init cfg)
    (show (newCmd cfg env m sym side px tMd).symbolId = sym from rfl)
  obtain ⟨o, rfl, hside⟩ := hnew rfl
  have hjoin : Apart cfg (m.bumpSeed.setSlot sym side
      (placedQuote m sym side (newCmd cfg env m sym side px tMd)))
      ({ id := strtoull o.clOrdID, symbol := o.symbol, side := o.side } ::
        workingOrders cfg (afterTurn s m es)) (Retired cfg (afterTurn s m es)) := by
    refine Apart.place h ?_ hid ?_ (toNat_clOrdSeed_bumpSeed hroom)
    · refine ⟨sym, side, ?_, hside, ?_, ?_⟩
      · show (FixApp.init cfg).symbolId o.symbol = sym
        rw [show o.symbol = (FixApp.init cfg).symbols sym from htext]
        exact hcanon
      · rw [slot_setSlot_self]
        simp [placedQuote]
      · rw [slot_setSlot_self]
        exact hid.symm
    · -- the slot was free, so no working order is tracked by it
      rintro w - ⟨sym', side', hsym', hside', hact, hid'⟩
      have hne : ¬ (sym' = sym ∧ side' = side) := by
        rintro ⟨rfl, rfl⟩
        exact hact hnone
      refine ⟨sym', side', hsym', hside', ?_, ?_⟩ <;> rw [slot_setSlot, if_neg hne, slot_bumpSeed]
      · exact hact
      · exact hid'
  apply hjoin.mono (workingOrders_pushed hmsg)
  intro id hret
  rcases retired_pushed hmsg hret with hret | ⟨⟨x, hx⟩, -⟩
  · exact hret
  · cases hx

/-- INTERNAL: a started cancel leaves the order where it is, and its own id is retired at once.
SRCLINE: src/strategy/market_maker.hpp:131-146 -/
theorem tracked_canceled {env : MdEnv} {sym : Fin kMaxSymbols} {side : OrdSide} {tMd : ℤ}
    (hroom : m.clOrdSeed.toNat + 1 < 2 ^ 64) (hlive : (m.slot sym side).state = .live)
    (h : Tracked cfg (afterTurn s m es)) :
    Tracked cfg (afterTurn s
      (m.bumpSeed.setSlot sym side { m.slot sym side with state := .pendingCancel })
      (es ++ [.pushed (cancelCmd env m sym side tMd)])) := by
  obtain ⟨msg, hmsg, hid, -, -, hcxl⟩ := sendOrderCmd_spec (FixApp.init cfg)
    (show (cancelCmd env m sym side tMd).symbolId = sym from rfl)
  obtain ⟨x, rfl⟩ := hcxl rfl
  have hstart : Apart cfg
      (m.bumpSeed.setSlot sym side { m.slot sym side with state := .pendingCancel })
      (workingOrders cfg (afterTurn s m es))
      (Retired cfg (afterTurn s
        (m.bumpSeed.setSlot sym side { m.slot sym side with state := .pendingCancel })
        (es ++ [.pushed (cancelCmd env m sym side tMd)]))) := by
    refine Apart.retire h ?_ (toNat_clOrdSeed_bumpSeed hroom) ?_
    · rintro w - ⟨sym', side', hsym', hside', hact, hid'⟩
      refine ⟨sym', side', hsym', hside', ?_, (clOrdId_canceled m sym sym' side side').trans hid'⟩
      exact fun hnone => hact ((state_canceled_eq_none hlive sym' side').mp hnone)
    · intro id hret
      rcases retired_pushed hmsg hret with hret | ⟨-, hret⟩
      · exact Or.inl hret
      · exact Or.inr (hret.trans hid)
  exact hstart.mono (workingOrders_pushed hmsg) fun _ hret => hret

/-- INTERNAL: everything a turn on a snapshot does keeps the working orders tracked. -/
theorem tracked_turn (cfg : EngineConfig) (s : VenuePath) :
    KeptFresh cfg (Canonical (FixApp.init cfg)) (fun _ _ _ => True)
      fun m es => Tracked cfg (afterTurn s m es) where
  view := by
    intro m m' es homs hseed h
    refine h.keep rfl ?_ (le_of_eq (congrArg UInt64.toNat hseed.symm))
    intro w hw
    unfold TrackedBy at hw ⊢
    simp only [slot_of_oms homs]
    exact hw
  quiet := by
    intro m es x hx h
    refine h.keep (pushedCmds_concat_of_not_pushed es ?_) (fun _ hw => hw) le_rfl
    rintro c rfl
    exact hx
  refused := by
    intro m es c hroom h
    refine h.keep (pushedCmds_concat_of_not_pushed es (by simp)) (fun _ hw => hw) ?_
    exact (clOrdSeed_lt_bumpSeed hroom).le
  placed := fun _ _ _ _ _ _ _ hroom hcanon hnone h => tracked_placed hroom hcanon hnone h
  canceled := fun _ _ _ _ _ _ hroom _ _ hlive h => tracked_canceled hroom hlive h

end Turn

/-! ## Reports and messages -/

section Channels

variable {cfg : EngineConfig} {s : VenuePath}

/-- INTERNAL: a report leaves a slot with its order, unless it ends that order.
SRCLINE: src/oms/order_manager.hpp:26-47 -/
theorem trackedBy_takeExec {m : MarketMaker} {sym : Fin kMaxSymbols} {e : ExecEvent}
    {w : WorkingOrder} (hw : TrackedBy cfg m w)
    (hterm : e.kind.terminal = true → w.id ≠ e.clOrdId) : TrackedBy cfg (takeExec m sym e) w := by
  obtain ⟨sym', side, hsym, hside, hact, hid⟩ := hw
  refine ⟨sym', side, hsym, hside, ?_⟩
  rcases slot_takeExec m sym e sym' side with hs | ⟨rfl, hcl, hs⟩
  · rw [hs]
    exact ⟨hact, hid⟩
  · rw [hs]
    have hopen : e.kind.terminal = false := by
      by_contra hne
      exact hterm (by simpa using hne) (hid.symm.trans hcl)
    unfold Quote.onExec
    cases hk : e.kind with
    | new => exact ⟨by simp, hid⟩
    | partFill | replaced | other => exact ⟨hact, hid⟩
    | filled | canceled | rejected =>
      rw [hk] at hopen
      cases hopen

theorem tracked_exec {e : ExecEvent} {rest : List ExecEvent} (sym : Fin kMaxSymbols)
    (h : Tracked cfg s) (hring : s.execRing = e :: rest) :
    Tracked cfg { s with mm := takeExec s.mm sym e, execRing := rest } := by
  have htracked : Apart cfg (takeExec s.mm sym e) (workingOrders cfg s) (Retired cfg s) := by
    refine Apart.of_tracked h ?_ le_rfl
    intro w hmem hw
    apply trackedBy_takeExec hw
    intro hterm
    exact (h.retired e.clOrdId (.event e (hring ▸ List.mem_cons_self) hterm)).2 w hmem
  apply htracked.mono (List.Perm.refl _)
  intro id hid
  exact hid.mono (fun _ h => h) (fun _ h => h) (fun _ h => h)
    fun e' he' => hring ▸ List.mem_cons_of_mem _ he'

theorem underWay_send {c : OrderCmd} {rest : List OrderCmd} {msg : OrderMsg}
    (hring : s.ordRing = c :: rest) (hmsg : (FixApp.init cfg).sendOrderCmd c = some msg) :
    (underWay cfg { s with ordRing := rest, toExch := s.toExch ++ [msg] }).Perm
      (underWay cfg s) := by
  unfold underWay
  rw [hring]
  exact perm_sent hmsg

theorem underWay_recv {msg : OrderMsg} {rest : List OrderMsg} (os : List VenueOrder)
    (rs : List ExecutionReport) (hring : s.toExch = msg :: rest) :
    (underWay cfg s).Perm
      (msg :: underWay cfg { s with toExch := rest, exch := os, toEngine := rs }) := by
  unfold underWay
  rw [hring]
  exact List.perm_middle

theorem tracked_send {c : OrderCmd} {rest : List OrderCmd} {msg : OrderMsg} (h : Tracked cfg s)
    (hring : s.ordRing = c :: rest) (hmsg : (FixApp.init cfg).sendOrderCmd c = some msg) :
    Tracked cfg { s with ordRing := rest, toExch := s.toExch ++ [msg] } := by
  have hway := underWay_send hring hmsg
  apply h.mono
  · exact List.Perm.append_right _ (hway.filterMap newOrder)
  · intro id hid
    exact hid.mono (fun _ hx => hway.mem_iff.mp hx) (fun _ h => h) (fun _ h => h) fun _ h => h

theorem openOrders_recv (os : List VenueOrder) (msg : OrderMsg) :
    (venueRecv os msg).filterMap openOrder = os.filterMap openOrder ++ (newOrder msg).toList := by
  cases msg with
  | newOrderSingle o => exact List.filterMap_append
  | orderCancelRequest x =>
    simp only [venueRecv, newOrder, Option.toList_none, List.append_nil, List.filterMap_map]
    apply List.filterMap_congr
    intro o _
    dsimp only [Function.comp]
    split <;> rfl

/-- INTERNAL: what a closed order and a pending request were before the message arrived. -/
theorem mem_venueRecv {os : List VenueOrder} {msg : OrderMsg} {o' : VenueOrder}
    (ho' : o' ∈ venueRecv os msg) :
    (o'.isOpen = false → ∃ o ∈ os, o.isOpen = false ∧ o.clOrdID = o'.clOrdID) ∧
      ∀ t ∈ o'.pending, (∃ x, msg = .orderCancelRequest x ∧ t = x.clOrdID) ∨
        ∃ o ∈ os, t ∈ o.pending := by
  cases msg with
  | newOrderSingle o =>
    rcases List.mem_append.mp ho' with ho' | ho'
    · exact ⟨fun hclosed => ⟨o', ho', hclosed, rfl⟩, fun t ht => Or.inr ⟨o', ho', ht⟩⟩
    · rw [List.mem_singleton.mp ho']
      exact ⟨fun hclosed => (nomatch hclosed), fun t ht => (nomatch ht)⟩
  | orderCancelRequest x =>
    obtain ⟨o, ho, rfl⟩ := List.mem_map.mp ho'
    split
    · refine ⟨fun hclosed => ⟨o, ho, hclosed, rfl⟩, ?_⟩
      intro t ht
      rcases List.mem_cons.mp ht with rfl | ht
      · exact Or.inl ⟨x, rfl, rfl⟩
      · exact Or.inr ⟨o, ho, ht⟩
    · exact ⟨fun hclosed => ⟨o, ho, hclosed, rfl⟩, fun t ht => Or.inr ⟨o, ho, ht⟩⟩

/-- INTERNAL: a message that arrives leaves the working orders as they are. -/
theorem tracked_recv {msg : OrderMsg} {rest : List OrderMsg} (h : Tracked cfg s)
    (hring : s.toExch = msg :: rest) :
    Tracked cfg { s with toExch := rest, exch := (venue.recv s.exch msg).1,
                         toEngine := s.toEngine ++ (venue.recv s.exch msg).2 } := by
  have hway : (underWay cfg s).Perm
      (msg :: underWay cfg { s with toExch := rest, exch := (venue.recv s.exch msg).1,
                                    toEngine := s.toEngine ++ (venue.recv s.exch msg).2 }) :=
    underWay_recv _ _ hring
  apply h.mono
  · have hnews := hway.filterMap newOrder
    rw [filterMap_cons_toList] at hnews
    refine List.Perm.trans ?_ (List.Perm.append_right _ hnews).symm
    show (_ ++ (venueRecv (venueOrders s) msg).filterMap openOrder).Perm _
    rw [openOrders_recv, ← List.append_assoc, List.append_assoc (newOrder msg).toList]
    exact List.perm_append_comm
  · intro id hid
    cases hid with
    | request x hx => exact .request x (hway.mem_iff.mpr (List.mem_cons_of_mem _ hx))
    | pending o' t ho' ht =>
      have ho' : o' ∈ venueRecv (venueOrders s) msg := ho'
      rcases (mem_venueRecv ho').2 t ht with ⟨x, rfl, rfl⟩ | ⟨o, ho, ht⟩
      · exact .request x (hway.mem_iff.mpr List.mem_cons_self)
      · exact .pending o t ho ht
    | closed o' ho' hclosed =>
      have ho' : o' ∈ venueRecv (venueOrders s) msg := ho'
      obtain ⟨o, ho, hclosed, hid⟩ := (mem_venueRecv ho').1 hclosed
      rw [← hid]
      exact .closed o ho hclosed
    | report r now e hr hconv hterm =>
      refine .report r now e ?_ hconv hterm
      rcases List.mem_append.mp hr with hr | hr
      · exact hr
      · cases hr
    | event e he hterm => exact .event e he hterm

theorem tracked_reported {now : ℤ} {r : ExecutionReport} {rest : List ExecutionReport}
    {e : ExecEvent} (h : Tracked cfg s) (hring : s.toEngine = r :: rest)
    (hconv : (FixApp.init cfg).onExecutionReport r now = .ok e) :
    Tracked cfg { s with toEngine := rest, execRing := s.execRing ++ [e] } := by
  apply h.mono (List.Perm.refl _)
  intro id hid
  cases hid with
  | request x hx => exact .request x hx
  | pending o t ho ht => exact .pending o t ho ht
  | closed o ho hclosed => exact .closed o ho hclosed
  | report r' now' e' hr' hconv' hterm =>
    exact .report r' now' e' (hring ▸ List.mem_cons_of_mem _ hr') hconv' hterm
  | event e' he' hterm =>
    rcases List.mem_append.mp he' with he' | he'
    · exact .event e' he' hterm
    · rw [List.mem_singleton.mp he'] at hterm ⊢
      exact .report r now e (hring ▸ List.mem_cons_self) hconv hterm

theorem tracked_dropped {r : ExecutionReport} {rest : List ExecutionReport} (h : Tracked cfg s)
    (hring : s.toEngine = r :: rest) : Tracked cfg { s with toEngine := rest } := by
  apply h.mono (List.Perm.refl _)
  intro id hid
  exact hid.mono (fun _ h => h) (fun _ h => h)
    (fun r' hr' => hring ▸ List.mem_cons_of_mem _ hr') fun _ h => h

end Channels

/-! ## The venue's acts -/

/-- What an act does to an order: it keeps its identity, it may be closed, and a terminal
report says so or answers a cancel request. -/
structure Acted (cfg : EngineConfig) (o o' : VenueOrder) (rs : List ExecutionReport) : Prop where
  clOrdID : o'.clOrdID = o.clOrdID
  symbol : o'.symbol = o.symbol
  side : o'.side = o.side
  pending : ∀ t ∈ o'.pending, t ∈ o.pending
  closes : o.isOpen = false → o'.isOpen = false
  about : ∀ r ∈ rs, r.symbol = .value o.symbol
  ends : ∀ r ∈ rs, ∀ now e, (FixApp.init cfg).onExecutionReport r now = .ok e →
    e.kind.terminal = true →
    o'.isOpen = false ∧ e.clOrdId = strtoull o.clOrdID ∨ ∃ t ∈ o.pending, e.clOrdId = strtoull t

/-- INTERNAL: the id and the kind a report of the venue is read with.
SRCLINE: src/fix/fix_app.hpp:148-170 -/
theorem report_reads {cfg : EngineConfig} {o : VenueOrder} {orderID clOrdID : Text}
    {execType ordStatus : Char} {leaves : ℚ} {last : Option (ℚ × ℚ)} {now : ℤ} {e : ExecEvent}
    (h : (FixApp.init cfg).onExecutionReport
      (o.report orderID clOrdID execType ordStatus leaves last) now = .ok e) :
    e.clOrdId = strtoull clOrdID ∧
      e.kind = if execKindOf execType = .filled then
        (if ordStatus = '1' then .partFill else .filled) else execKindOf execType := by
  obtain ⟨hcl, hkind, -, -⟩ := onExecutionReport_eq_ok h
  exact ⟨(Except.ok.inj hcl).symm, reportKind_of_values rfl rfl hkind⟩

/-- INTERNAL: a report of another type ends nothing. -/
theorem terminal_notice {c : Char} (hc : c ∉ ['0', '4', '8', 'F']) :
    (execKindOf c).terminal = false ∧ execKindOf c ≠ .filled := by
  simp only [List.mem_cons, List.not_mem_nil, or_false, not_or] at hc
  obtain ⟨h0, h4, h8, hF⟩ := hc
  unfold execKindOf
  rw [if_neg h0, if_neg h4, if_neg hF, if_neg h8]
  split <;> exact ⟨rfl, by simp⟩

theorem Acted.of_report {cfg : EngineConfig} {o o' : VenueOrder} {orderID clOrdID : Text}
    {execType ordStatus : Char} {leaves : ℚ} {last : Option (ℚ × ℚ)}
    (hid : o'.clOrdID = o.clOrdID) (hsymbol : o'.symbol = o.symbol) (hside : o'.side = o.side)
    (hpending : o'.pending = o.pending) (hcloses : o.isOpen = false → o'.isOpen = false)
    (hends : ∀ e : ExecEvent, e.clOrdId = strtoull clOrdID →
      e.kind = (if execKindOf execType = .filled then
        (if ordStatus = '1' then .partFill else .filled) else execKindOf execType) →
      e.kind.terminal = true → o'.isOpen = false ∧ e.clOrdId = strtoull o.clOrdID ∨
        ∃ t ∈ o.pending, e.clOrdId = strtoull t) :
    Acted cfg o o' [o.report orderID clOrdID execType ordStatus leaves last] := by
  refine ⟨hid, hsymbol, hside, fun t ht => hpending ▸ ht, hcloses, ?_, ?_⟩
  · intro r hr
    rw [List.mem_singleton.mp hr]
    rfl
  · intro r hr now e hconv hterm
    rw [List.mem_singleton.mp hr] at hconv
    obtain ⟨hread, hkind⟩ := report_reads hconv
    exact hends e hread hkind hterm

/-- INTERNAL: **the acts of the venue**, when partial executions are marked as such. -/
theorem acted_of_act {cfg : EngineConfig} {o o' : VenueOrder} {orderID : Text} {a : OrderAct}
    {rs : List ExecutionReport} (h : o.act orderID a = some (o', rs))
    (hmark : ∀ px qty, a = .trade px qty true → o.leaves - qty = 0) : Acted cfg o o' rs := by
  cases a with
  | ack =>
    simp only [VenueOrder.act] at h
    split at h
    · cases h
    · obtain ⟨rfl, rfl⟩ := Prod.mk.inj (Option.some.inj h)
      refine .of_report rfl rfl rfl rfl (fun hc => hc) ?_
      intro e _ hkind hterm
      rw [hkind] at hterm
      exact absurd hterm (by decide)
  | trade px qty cancelPending =>
    simp only [VenueOrder.act] at h
    split at h
    · next hcan =>
      obtain ⟨rfl, rfl⟩ := Prod.mk.inj (Option.some.inj h)
      refine .of_report rfl rfl rfl rfl ?_ ?_
      · intro hclosed
        rw [hclosed] at hcan
        exact absurd hcan.1 (by simp)
      · intro e hid hkind hterm
        refine Or.inl ⟨?_, hid⟩
        by_contra hopen
        have hleft : o.leaves - qty ≠ 0 := by simpa using hopen
        -- some is left, so the execution is marked as partial
        have hplain : cancelPending = false := by
          cases cancelPending with
          | false => rfl
          | true => exact absurd (hmark px qty rfl) hleft
        rw [hkind, hplain] at hterm
        simp only [VenueOrder.tradeStatus, if_neg hleft, Bool.false_eq_true, if_false] at hterm
        exact absurd hterm (by decide)
    · cases h
  | close execType request =>
    simp only [VenueOrder.act] at h
    split at h
    · next hcan =>
      obtain ⟨rfl, rfl⟩ := Prod.mk.inj (Option.some.inj h)
      refine .of_report rfl rfl rfl rfl (fun _ => rfl) ?_
      intro e hid _ _
      cases request with
      | none => exact Or.inl ⟨rfl, hid⟩
      | some t => exact Or.inr ⟨t, hcan.2 t rfl, hid⟩
    · cases h
  | refuse request =>
    simp only [VenueOrder.act] at h
    split at h
    · obtain ⟨rfl, rfl⟩ := Prod.mk.inj (Option.some.inj h)
      exact ⟨rfl, rfl, rfl, fun _ ht => List.mem_of_mem_erase ht, fun hc => hc,
        fun _ hr => (nomatch hr), fun _ hr => (nomatch hr)⟩
    · cases h
  | notice execType ordStatus =>
    simp only [VenueOrder.act] at h
    split at h
    · cases h
    · next hother =>
      obtain ⟨rfl, rfl⟩ := Prod.mk.inj (Option.some.inj h)
      refine .of_report rfl rfl rfl rfl (fun hc => hc) ?_
      intro e _ hkind hterm
      obtain ⟨hnot, hne⟩ := terminal_notice hother
      rw [hkind, if_neg hne, hnot] at hterm
      cases hterm

/-- INTERNAL: an act of the venue is an act on one of its orders. -/
theorem venueAct_eq_some {os os' : List VenueOrder} {a : VenueAct} {rs : List ExecutionReport}
    (h : venueAct os a = some (os', rs)) :
    ∃ before o after o', os = before ++ o :: after ∧ os' = before ++ o' :: after ∧
      os[a.order]? = some o ∧ o.act a.orderID a.act = some (o', rs) := by
  unfold venueAct at h
  obtain ⟨o, ho, h⟩ := Option.bind_eq_some_iff.mp h
  obtain ⟨⟨o', rs'⟩, hact, hr⟩ := Option.map_eq_some_iff.mp h
  obtain ⟨rfl, rfl⟩ := Prod.mk.inj hr
  obtain ⟨hlt, hget⟩ := List.getElem?_eq_some_iff.mp ho
  refine ⟨os.take a.order, o, os.drop (a.order + 1), o', ?_, ?_, ho, hact⟩
  · rw [← hget, List.getElem_cons_drop, List.take_append_drop]
  · rw [List.set_eq_take_append_cons_drop, if_pos hlt]

/-- INTERNAL: an order after an act on `o` is the one `o` became, or was there before. -/
theorem mem_of_mem_acted {before after : List VenueOrder} {o o' x : VenueOrder}
    (hx : x ∈ before ++ o' :: after) : x = o' ∨ x ∈ before ++ o :: after := by
  rcases List.mem_append.mp hx with hx | hx
  · exact Or.inr (List.mem_append_left _ hx)
  · rcases List.mem_cons.mp hx with rfl | hx
    · exact Or.inl rfl
    · exact Or.inr (List.mem_append_right _ (List.mem_cons_of_mem _ hx))

/-- INTERNAL: all an act retires is the order it closed. -/
theorem retired_act {cfg : EngineConfig} {s : VenuePath} {before after : List VenueOrder}
    {o o' : VenueOrder} {rs : List ExecutionReport} (hos : venueOrders s = before ++ o :: after)
    (hacted : Acted cfg o o' rs) {id : UInt64}
    (h : Retired cfg { s with exch := before ++ o' :: after, toEngine := s.toEngine ++ rs } id) :
    Retired cfg s id ∨ o'.isOpen = false ∧ id = strtoull o.clOrdID := by
  have ho : o ∈ venueOrders s := by
    rw [hos]
    exact List.mem_append_right _ List.mem_cons_self
  have hmem : ∀ {x}, x ∈ before ++ o' :: after → x = o' ∨ x ∈ venueOrders s := by
    intro x hx
    rw [hos]
    exact mem_of_mem_acted hx
  cases h with
  | request x hx => exact Or.inl (.request x hx)
  | pending x t hx ht =>
    rcases hmem hx with rfl | hx
    · exact Or.inl (.pending o t ho (hacted.pending t ht))
    · exact Or.inl (.pending x t hx ht)
  | closed x hx hclosed =>
    rcases hmem hx with rfl | hx
    · exact Or.inr ⟨hclosed, congrArg strtoull hacted.clOrdID⟩
    · exact Or.inl (.closed x hx hclosed)
  | report r now e hr hconv hterm =>
    rcases List.mem_append.mp hr with hr | hr
    · exact Or.inl (.report r now e hr hconv hterm)
    · rcases hacted.ends r hr now e hconv hterm with hend | ⟨t, ht, hid⟩
      · exact Or.inr hend
      · rw [hid]
        exact Or.inl (.pending o t ho ht)
  | event e he hterm => exact Or.inl (.event e he hterm)

/-- INTERNAL: an act of the venue keeps the working orders tracked: what it closes is retired. -/
theorem tracked_act {cfg : EngineConfig} {s : VenuePath} {a : VenueAct} {os : List VenueOrder}
    {rs : List ExecutionReport} (h : Tracked cfg s) (hmark : PartialsMarked s (.act a))
    (hact : venueAct (venueOrders s) a = some (os, rs)) :
    Tracked cfg { s with exch := os, toEngine := s.toEngine ++ rs } := by
  obtain ⟨before, o, after, o', hos, rfl, hget, hone⟩ := venueAct_eq_some hact
  have hacted : Acted cfg o o' rs := acted_of_act hone fun px qty => hmark o px qty hget
  have ho : o ∈ venueOrders s := by
    rw [hos]
    exact List.mem_append_right _ List.mem_cons_self
  have hold : workingOrders cfg s = (underWay cfg s).filterMap newOrder ++
      (before.filterMap openOrder ++ ((openOrder o).toList ++ after.filterMap openOrder)) := by
    unfold workingOrders
    rw [hos, List.filterMap_append, filterMap_cons_toList]
  have hws : workingOrders cfg { s with exch := before ++ o' :: after, toEngine := s.toEngine ++ rs } =
      (underWay cfg s).filterMap newOrder ++ (before.filterMap openOrder ++
        ((openOrder o').toList ++ after.filterMap openOrder)) := by
    show (underWay cfg s).filterMap newOrder ++ (before ++ o' :: after).filterMap openOrder = _
    rw [List.filterMap_append, filterMap_cons_toList]
  by_cases hopen : o'.isOpen = o.isOpen
  · -- the order stays what it was
    have hkeep : openOrder o' = openOrder o := by
      unfold openOrder
      rw [hopen, hacted.clOrdID, hacted.symbol, hacted.side]
    apply h.mono
    · rw [hws, hold, hkeep]
    · intro id hid
      rcases retired_act hos hacted hid with hid | ⟨hclosed, rfl⟩
      · exact hid
      · exact .closed o ho (hopen.symm.trans hclosed)
  · -- the order is closed
    have hwas : o.isOpen = true := by
      by_contra hne
      have hfalse : o.isOpen = false := by simpa using hne
      exact hopen ((hacted.closes hfalse).trans hfalse.symm)
    have hnow : o'.isOpen = false := by
      rw [hwas] at hopen
      simpa using hopen
    have hw : openOrder o =
        some { id := strtoull o.clOrdID, symbol := o.symbol, side := o.side } := by
      unfold openOrder
      rw [if_pos hwas]
    have hw' : openOrder o' = none := by
      unfold openOrder
      rw [hnow]
      rfl
    refine Apart.close h { id := strtoull o.clOrdID, symbol := o.symbol, side := o.side } ?_ ?_
    · rw [hws, hold, hw', hw]
      simp only [Option.toList_some, Option.toList_none, List.nil_append, List.singleton_append]
      rw [← List.append_assoc, ← List.append_assoc]
      exact List.perm_middle
    · intro id hid
      rcases retired_act hos hacted hid with hid | ⟨-, hid⟩
      · exact Or.inl hid
      · exact Or.inr hid

/-- INTERNAL: **every working order is tracked**, in every step of every party. -/
theorem tracked_kept (cfg : EngineConfig) :
    PathKept cfg PartialsMarked (fun _ _ _ _ => True) (Tracked cfg) where
  turn := tracked_turn cfg
  allow := fun _ _ _ _ _ _ _ _ _ _ _ _ _ _ _ _ _ => trivial
  exec := fun _ _ _ sym h hring _ => tracked_exec sym h hring
  send := fun _ _ _ _ h hring hmsg => tracked_send h hring hmsg
  recv := fun _ _ _ h hring => tracked_recv h hring
  act := fun _ _ _ _ h hmark hact => tracked_act h hmark hact
  reported := fun _ _ _ _ _ h hring hconv => tracked_reported h hring hconv
  dropped := fun _ _ _ _ _ h hring _ => tracked_dropped h hring

/-! ## The symbols -/

/-- Everything on the path is about subscribed symbols. -/
structure Addressed (cfg : EngineConfig) (s : VenuePath) : Prop where
  msgs : ∀ m ∈ underWay cfg s, Loaded (FixApp.init cfg) m.symbol
  orders : ∀ o ∈ venueOrders s, Loaded (FixApp.init cfg) o.symbol
  reports : ∀ r ∈ s.toEngine, ∃ t, r.symbol = .value t ∧ Loaded (FixApp.init cfg) t
  events : ∀ e ∈ s.execRing, e.symbolId < kMaxSymbols

/-- INTERNAL: a pushed command for a canonical index is about its symbol. -/
theorem Addressed.pushed {cfg : EngineConfig} {s : VenuePath} {m m' : MarketMaker}
    {es : List Effect} {c : OrderCmd} {sym : Fin kMaxSymbols}
    (hcanon : Canonical (FixApp.init cfg) sym) (hsym : c.symbolId = sym)
    (h : Addressed cfg (afterTurn s m es)) :
    Addressed cfg (afterTurn s m' (es ++ [.pushed c])) := by
  obtain ⟨msg, hmsg, -, htext, -⟩ := sendOrderCmd_spec (FixApp.init cfg) hsym
  refine ⟨?_, h.orders, h.reports, h.events⟩
  intro x hx
  have hway : (underWay cfg (afterTurn s m' (es ++ [.pushed c]))).Perm
      (msg :: underWay cfg (afterTurn s m es)) := underWay_pushed hmsg
  rcases List.mem_cons.mp (hway.mem_iff.mp hx) with rfl | hx
  · rw [htext, ← symbolId_lt_iff, show (FixApp.init cfg).symbolId _ = sym from hcanon]
    exact sym.isLt
  · exact h.msgs x hx

theorem Addressed.keep {cfg : EngineConfig} {s : VenuePath} {m m' : MarketMaker}
    {es es' : List Effect} (hcmds : pushedCmds es' = pushedCmds es)
    (h : Addressed cfg (afterTurn s m es)) : Addressed cfg (afterTurn s m' es') := by
  refine ⟨?_, h.orders, h.reports, h.events⟩
  have hmsgs := h.msgs
  unfold underWay afterTurn at hmsgs ⊢
  rw [hcmds]
  exact hmsgs

theorem symbol_venueRecv {os : List VenueOrder} {msg : OrderMsg} {o' : VenueOrder}
    (ho' : o' ∈ venueRecv os msg) : o'.symbol = msg.symbol ∨ ∃ o ∈ os, o'.symbol = o.symbol := by
  cases msg with
  | newOrderSingle o =>
    rcases List.mem_append.mp ho' with ho' | ho'
    · exact Or.inr ⟨o', ho', rfl⟩
    · rw [List.mem_singleton.mp ho']
      exact Or.inl rfl
  | orderCancelRequest x =>
    obtain ⟨o, ho, rfl⟩ := List.mem_map.mp ho'
    refine Or.inr ⟨o, ho, ?_⟩
    split <;> rfl

/-- INTERNAL: **nothing is about a foreign symbol**, in every step of every party. -/
theorem addressed_kept (cfg : EngineConfig) :
    PathKept cfg PartialsMarked (fun _ _ _ _ => True) (Addressed cfg) where
  turn := fun s =>
    { view := fun _ _ _ _ _ h => ⟨h.msgs, h.orders, h.reports, h.events⟩
      quiet := by
        intro m es x hx h
        refine h.keep (pushedCmds_concat_of_not_pushed es ?_)
        rintro c rfl
        exact hx
      refused := fun _ es _ _ h => h.keep (pushedCmds_concat_of_not_pushed es (by simp))
      placed := fun _ _ _ _ _ _ _ _ hcanon _ h => h.pushed hcanon rfl
      canceled := fun _ _ _ _ _ _ _ hcanon _ _ h => h.pushed hcanon rfl }
  allow := fun _ _ _ _ _ _ _ _ _ _ _ _ _ _ _ _ _ => trivial
  exec := by
    intro s e rest sym h hring _
    exact ⟨h.msgs, h.orders, h.reports,
      fun e' he' => h.events e' (hring ▸ List.mem_cons_of_mem _ he')⟩
  send := by
    intro s c rest msg h hring hmsg
    refine ⟨?_, h.orders, h.reports, h.events⟩
    intro x hx
    exact h.msgs x ((underWay_send hring hmsg).mem_iff.mp hx)
  recv := by
    intro s msg rest h hring
    have hway : (underWay cfg s).Perm
        (msg :: underWay cfg { s with toExch := rest, exch := (venue.recv s.exch msg).1,
                                      toEngine := s.toEngine ++ (venue.recv s.exch msg).2 }) :=
      underWay_recv _ _ hring
    refine ⟨fun x hx => h.msgs x (hway.mem_iff.mpr (List.mem_cons_of_mem _ hx)), ?_, ?_, h.events⟩
    · intro o' ho'
      rcases symbol_venueRecv (show o' ∈ venueRecv (venueOrders s) msg from ho') with
        hsymbol | ⟨o, ho, hsymbol⟩
      · rw [hsymbol]
        exact h.msgs msg (hway.mem_iff.mpr List.mem_cons_self)
      · rw [hsymbol]
        exact h.orders o ho
    · intro r hr
      rcases List.mem_append.mp hr with hr | hr
      · exact h.reports r hr
      · cases hr
  act := by
    intro s a os rs h hmark hact
    have hact : venueAct (venueOrders s) a = some (os, rs) := hact
    obtain ⟨before, o, after, o', hos, rfl, hget, hone⟩ := venueAct_eq_some hact
    have hacted : Acted cfg o o' rs := acted_of_act hone fun px qty => hmark o px qty hget
    have ho : Loaded (FixApp.init cfg) o.symbol := by
      apply h.orders o
      rw [hos]
      exact List.mem_append_right _ List.mem_cons_self
    refine ⟨h.msgs, ?_, ?_, h.events⟩
    · intro x hx
      rcases mem_of_mem_acted (show x ∈ before ++ o' :: after from hx) with rfl | hx
      · rw [hacted.symbol]
        exact ho
      · exact h.orders x (hos ▸ hx)
    · intro r hr
      rcases List.mem_append.mp hr with hr | hr
      · exact h.reports r hr
      · exact ⟨o.symbol, hacted.about r hr, ho⟩
  reported := by
    intro s now r rest e h hring hconv
    refine ⟨h.msgs, h.orders, fun r' hr' => h.reports r' (hring ▸ List.mem_cons_of_mem _ hr'), ?_⟩
    intro e' he'
    rcases List.mem_append.mp he' with he' | he'
    · exact h.events e' he'
    · obtain ⟨t, ht, hload⟩ := h.reports r (hring ▸ List.mem_cons_self)
      obtain ⟨-, -, hsym, -⟩ := onExecutionReport_eq_ok hconv
      rw [ht] at hsym
      rw [List.mem_singleton.mp he', ← Except.ok.inj hsym, symbolId_lt_iff]
      exact hload
  dropped := by
    intro s now r rest err h hring _
    exact ⟨h.msgs, h.orders, fun r' hr' => h.reports r' (hring ▸ List.mem_cons_of_mem _ hr'),
      h.events⟩

/-! ## At most one order for each symbol and side -/

/-- The engine connects to a venue that has no orders of it. -/
def venueStart (tCtor tRun : ℤ) : VenuePath :=
  { mm := MarketMaker.init tCtor tRun, exch := ([] : List VenueOrder) }

theorem tracked_start (cfg : EngineConfig) (tCtor tRun : ℤ) :
    Tracked cfg (venueStart tCtor tRun) ∧ Addressed cfg (venueStart tCtor tRun) := by
  refine ⟨⟨fun _ hw => (nomatch hw), List.nodup_nil, fun _ hw => (nomatch hw), ?_⟩,
    ⟨fun _ hm => (nomatch hm), fun _ ho => (nomatch ho), fun _ hr => (nomatch hr),
      fun _ he => (nomatch he)⟩⟩
  intro id hid
  cases hid with
  | request x hx => cases hx
  | pending o t ho ht => cases ho
  | closed o ho hclosed => cases ho
  | report r now e hr hconv hterm => cases hr
  | event e he hterm => cases he

/-- **One order per symbol and side.**  Against every conformant venue that reports no partial
execution as PendingCancel, in every state of every run: of the orders in flight towards the
venue or open there no two are for one symbol and side, each of them is the order of its slot,
which is not free, and every report that arrives is for a slot of the table. -/
theorem one_order_per_slot (cfg : EngineConfig) (tCtor tRun : ℤ) (as : List (PathAct venue))
    (s : VenuePath) (h : List Effect)
    (hmark : Along (recorded (OrderPath.step cfg)) (fun x a => PartialsMarked x.1 a)
      (venueStart tCtor tRun, []) as)
    (hrun : run (recorded (OrderPath.step cfg)) (venueStart tCtor tRun, []) as = some (s, h))
    (hwrap : (MarketMaker.init tCtor tRun).clOrdSeed.toNat + spent h < 2 ^ 64) :
    ((workingOrders cfg s).map fun w => (w.symbol, w.side)).Nodup ∧
      (∀ w ∈ workingOrders cfg s, TrackedBy cfg s.mm w) ∧
      ∀ e ∈ s.execRing, e.symbolId < kMaxSymbols := by
  obtain ⟨htracked, haddressed⟩ := tracked_start cfg tCtor tRun
  have hend : Tracked cfg s := (tracked_kept cfg).run htracked hmark hrun hwrap
  have hsyms : Addressed cfg s := (addressed_kept cfg).run haddressed hmark hrun hwrap
  exact ⟨hend.keys_nodup, hend.tracked, hsyms.events⟩

/-- Orders for two lots, on one symbol. -/
def twoLots : EngineConfig := { tickSize := 1 / 2, orderQty := 2, symbols := ["DLR".toList] }

/-- Both sides are quoted, the orders arrive, and the buy order is acknowledged. -/
def bothOpen : List (PathAct venue) :=
  [.md 1 (twoSided "DLR".toList 99 101) 0 quickEnv, .send, .send, .recv, .recv,
    .act ({ order := 0, act := .ack } : VenueAct), .report 0, .exec]

/-- One of two lots is executed and marked as partial; the slot keeps its order. -/
theorem one_order_per_slot_partly_filled :
    ∃ s h, run (recorded (OrderPath.step twoLots)) (venueStart 1000000000 0, [])
        (bothOpen ++ [.act ({ order := 0, act := .trade (199 / 2) 1 false } : VenueAct), .report 0,
          .exec]) = some (s, h) ∧
      (s.mm.slot 0 .buy).state = .live ∧ (s.mm.slot 0 .buy).qty = 1 ∧
      ((workingOrders twoLots s).map fun w => (w.symbol, w.side)).Nodup ∧
      ∀ w ∈ workingOrders twoLots s, TrackedBy twoLots s.mm w := by
  have heval : ((run (recorded (OrderPath.step twoLots)) (venueStart 1000000000 0, [])
      (bothOpen ++ [.act ({ order := 0, act := .trade (199 / 2) 1 false } : VenueAct), .report 0,
        .exec])).map fun x => ((x.1.mm.slot 0 .buy).state, (x.1.mm.slot 0 .buy).qty, spent x.2)) =
      some (.live, 1, 2) := by
    decide +kernel
  obtain ⟨⟨s, h⟩, hrun, hx⟩ := Option.map_eq_some_iff.mp heval
  simp only [Prod.mk.injEq] at hx
  obtain ⟨hlive, hqty, hspent⟩ := hx
  have hall := one_order_per_slot twoLots 1000000000 0 _ s h ?_ hrun (by rw [hspent]; decide)
  · exact ⟨s, h, hrun, hlive, hqty, hall.1, hall.2.1⟩
  · refine ⟨trivial, fun _ _ => ⟨trivial, fun _ _ => ⟨trivial, fun _ _ => ⟨trivial, fun _ _ =>
      ⟨trivial, fun _ _ => ⟨fun _ _ _ _ hact => (nomatch hact), fun _ _ => ⟨trivial, fun _ _ =>
      ⟨trivial, fun _ _ => ⟨fun _ _ _ _ hact => (nomatch hact), fun _ _ => ⟨trivial, fun _ _ =>
      ⟨trivial, fun _ _ => trivial⟩⟩⟩⟩⟩⟩⟩⟩⟩⟩⟩

/-- The market locks and the buy order is to be cancelled.  While the request is pending one of
its two lots is executed, reported as PendingCancel; then the market opens again. -/
def filledWhilePending : List (PathAct venue) :=
  bothOpen ++ [.md 2 (twoSided "DLR".toList 100 100) 0 quickEnv, .send, .recv,
    .act ({ order := 0, act := .trade (199 / 2) 1 true } : VenueAct), .report 0, .exec,
    .md 3 (twoSided "DLR".toList 99 101) 0 quickEnv]

/-- The slot is freed while a lot of its order is open, and a second buy order goes out. -/
theorem filledWhilePending_doubles :
    ∃ s h, run (recorded (OrderPath.step twoLots)) (venueStart 1000000000 0, [])
        filledWhilePending = some (s, h) ∧
      ((workingOrders twoLots s).map fun w => (w.symbol, w.side)) =
        [("DLR".toList, '1'), ("DLR".toList, '1'), ("DLR".toList, '2')] ∧
      ¬ ((workingOrders twoLots s).map fun w => (w.symbol, w.side)).Nodup := by
  have heval : ((run (recorded (OrderPath.step twoLots)) (venueStart 1000000000 0, [])
      filledWhilePending).map fun x =>
        (workingOrders twoLots x.1).map fun w => (w.symbol, w.side)) =
      some [("DLR".toList, '1'), ("DLR".toList, '1'), ("DLR".toList, '2')] := by
    decide +kernel
  obtain ⟨⟨s, h⟩, hrun, hkeys⟩ := Option.map_eq_some_iff.mp heval
  refine ⟨s, h, hrun, hkeys, ?_⟩
  rw [hkeys]
  decide

end MmEngine.Analysis
