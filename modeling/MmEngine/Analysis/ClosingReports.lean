import MmEngine.Model.OrderLife
import MmEngine.Interface.FixRules
import MmEngine.Interface.OrderIds
import MmEngine.Interface.OrderPathRules
import Mathlib.Data.List.Nodup

/-!
# The last message about an order

`on_exec` frees a slot on `Filled`, `Canceled` and `Rejected`, and an ExecType the engine does not
know becomes `Other` (fix_app.hpp:157-164): an order that expires or is done for the day stays in
its slot.  An OrderCancelReject is not cracked at all, so a slot whose cancel is rejected stays
`PendingCancel`.  Both leave the slot out of step with the venue for the rest of the run.

Without these endings every closing report frees the slot of its order.  The invariant follows
the ids through the channels: a report under the id of an order is about the symbol of its slot,
and the id of a closed order never returns to a slot.
-/

set_option autoImplicit false

namespace MmEngine.Analysis

open MmEngine.Model MmEngine.Model.MarketMaker MmEngine.Interface MmEngine.Lib

/-- After a closing report no slot refers to its order, and after an OrderCancelReject for an
order that is open its slot is `Live`. -/
structure Settled (s : Session) : Prop where
  closed : ∀ r t, .report r ∈ s.consumed → r.closes = true → r.clOrdID = .value t →
    (∃ o ∈ s.orders, o.clOrdID = t) → ∀ sym side, (s.mm.slot sym side).state ≠ .none →
      printId (s.mm.slot sym side).clOrdId ≠ t
  reopened : ∀ t live, .cancelReject t true live ∈ s.consumed → live = true

/-- The condition on a step: the venue lets no order expire and marks none as done for the day,
and it rejects a cancel request only when the order is no longer open. -/
def KnownEnding (s : Session) : SessionAct → Prop
  | .act _ _ .expire => False
  | .act _ _ .doneForDay => False
  | .act order _ (.refuse _) => ∀ o, s.orders[order]? = some o → o.isOpen = false
  | _ => True

/-! ## Ids and slots -/

/-- The id was counted. -/
def Known (m : MarketMaker) (id : UInt64) : Prop := id ≠ 0 ∧ id.toNat < m.clOrdSeed.toNat

/-- A slot that refers to the order with the id is one of the symbol `home`. -/
structure HomeOf (m : MarketMaker) (id : UInt64) (home : ℕ) : Prop where
  known : Known m id
  home : ∀ sym side, (m.slot sym side).state ≠ .none → (m.slot sym side).clOrdId = id → home = sym

/-- No slot refers to the id. -/
structure Spare (m : MarketMaker) (id : UInt64) : Prop where
  known : Known m id
  unused : ∀ sym side, (m.slot sym side).state ≠ .none → (m.slot sym side).clOrdId ≠ id

theorem Spare.homeOf {m : MarketMaker} {id : UInt64} (h : Spare m id) (home : ℕ) :
    HomeOf m id home :=
  ⟨h.known, fun sym side hact hid => absurd hid (h.unused sym side hact)⟩

/-- The strategy moves on: a slot that refers to an order did so before, or refers to an order
under a new id. -/
structure Grows (m m' : MarketMaker) : Prop where
  seed : m.clOrdSeed.toNat ≤ m'.clOrdSeed.toNat
  slot : ∀ sym side, (m'.slot sym side).state ≠ .none →
    (m.slot sym side).state ≠ .none ∧ (m'.slot sym side).clOrdId = (m.slot sym side).clOrdId ∨
      (m'.slot sym side).clOrdId = m.clOrdSeed

section Grows

variable {m m' : MarketMaker} {id : UInt64}

theorem Known.grows (h : Known m id) (hg : Grows m m') : Known m' id :=
  ⟨h.1, lt_of_lt_of_le h.2 hg.seed⟩

theorem Known.ne_seed (h : Known m id) : m.clOrdSeed ≠ id := by
  rintro rfl
  exact absurd h.2 (lt_irrefl _)

theorem HomeOf.grows {home : ℕ} (h : HomeOf m id home) (hg : Grows m m') : HomeOf m' id home := by
  refine ⟨h.known.grows hg, ?_⟩
  intro sym side hact hid
  rcases hg.slot sym side hact with ⟨hact', hsame⟩ | hnew
  · exact h.home sym side hact' (hsame.symm.trans hid)
  · exact absurd (hnew.symm.trans hid) h.known.ne_seed

theorem Spare.grows (h : Spare m id) (hg : Grows m m') : Spare m' id := by
  refine ⟨h.known.grows hg, ?_⟩
  intro sym side hact hid
  rcases hg.slot sym side hact with ⟨hact', hsame⟩ | hnew
  · exact h.unused sym side hact' (hsame.symm.trans hid)
  · exact absurd (hnew.symm.trans hid) h.known.ne_seed

theorem grows_of_same (homs : m'.oms = m.oms) (hseed : m.clOrdSeed.toNat ≤ m'.clOrdSeed.toNat) :
    Grows m m' := by
  refine ⟨hseed, fun sym side hact => Or.inl ?_⟩
  rw [slot_of_oms homs] at hact ⊢
  exact ⟨hact, rfl⟩

/-- INTERNAL: a placed order is under a new id. -/
theorem grows_placed {cfg : EngineConfig} {env : MdEnv} {sym : Fin kMaxSymbols} {side : OrdSide}
    {px : ℚ} {tMd : ℤ} (hroom : m.clOrdSeed.toNat + 1 < 2 ^ 64) :
    Grows m (m.bumpSeed.setSlot sym side
      (placedQuote m sym side (newCmd cfg env m sym side px tMd))) := by
  refine ⟨?_, ?_⟩
  · exact (clOrdSeed_lt_bumpSeed hroom).le
  · intro sym' side' hact
    rw [slot_setSlot] at hact ⊢
    split
    · exact Or.inr rfl
    · next hslot =>
      rw [if_neg hslot] at hact
      exact Or.inl ⟨hact, rfl⟩

theorem grows_canceled {sym : Fin kMaxSymbols} {side : OrdSide}
    (hroom : m.clOrdSeed.toNat + 1 < 2 ^ 64) (hlive : (m.slot sym side).state = .live) :
    Grows m (m.bumpSeed.setSlot sym side { m.slot sym side with state := .pendingCancel }) := by
  refine ⟨?_, ?_⟩
  · exact (clOrdSeed_lt_bumpSeed hroom).le
  · intro sym' side' hact
    refine Or.inl ⟨?_, clOrdId_canceled m sym sym' side side'⟩
    exact fun hnone => hact ((state_canceled_eq_none hlive sym' side').mpr hnone)

theorem grows_takeExec (hm : SlotIds m) (sym : Fin kMaxSymbols) {e : ExecEvent}
    (he : e.clOrdId ≠ 0) : Grows m (takeExec m sym e) := by
  refine ⟨le_rfl, ?_⟩
  intro sym' side hact
  refine Or.inl ⟨fun hnone => hact (hm.idle_takeExec sym he sym' side hnone), ?_⟩
  exact (slot_takeExec_working hact).1

/-- INTERNAL: **a terminal report frees the slot of its order.**
SRCLINE: src/oms/order_manager.hpp:26-47 -/
theorem spare_takeExec (hm : SlotIds m) {sym : Fin kMaxSymbols} {e : ExecEvent}
    (hhome : HomeOf m e.clOrdId e.symbolId) (hsym : sym.val = e.symbolId)
    (hterm : e.kind.terminal = true) : Spare (takeExec m sym e) e.clOrdId := by
  have hgrow := grows_takeExec hm sym hhome.known.1
  refine ⟨hhome.known.grows hgrow, ?_⟩
  intro sym' side hact hid
  rcases hgrow.slot sym' side hact with ⟨hact', hsame⟩ | hnew
  · have hid' : (m.slot sym' side).clOrdId = e.clOrdId := hsame.symm.trans hid
    obtain rfl : sym = sym' := Fin.ext (hsym.trans (hhome.home sym' side hact' hid'))
    rw [hm.slot_takes hact' hid'] at hact
    unfold Quote.onExec at hact
    cases hk : e.kind <;> rw [hk] at hact hterm <;> first | exact hact rfl | cases hterm
  · exact absurd (hnew.symm.trans hid) hhome.known.ne_seed

end Grows

/-! ## What is on its way -/

/-- The messages on their way to the venue, those still to be sent included. -/
def onTheWay (cfg : EngineConfig) (s : Session) : List OrderMsg :=
  s.ordRing.filterMap (FixApp.init cfg).sendOrderCmd ++ s.toVenue

/-- A new order is one of the slot of its symbol, and no slot refers to the id of a request. -/
def MsgSound (cfg : EngineConfig) (m : MarketMaker) : OrderMsg → Prop
  | .newOrderSingle o => HomeOf m (strtoull o.clOrdID) ((FixApp.init cfg).symbolId o.symbol)
  | .orderCancelRequest x => Spare m (strtoull x.clOrdID)

/-- The same for an order at the venue and the requests that are pending for it. -/
structure OrderSound (cfg : EngineConfig) (m : MarketMaker) (o : VenueOrder) : Prop where
  home : HomeOf m (strtoull o.clOrdID) ((FixApp.init cfg).symbolId o.symbol)
  pending : ∀ t ∈ o.pending, Spare m (strtoull t)

/-- A report is about the symbol of its slot, and if it closes its order the engine knows so. -/
structure ReportSound (cfg : EngineConfig) (m : MarketMaker) (r : ExecutionReport) : Prop where
  about : ∃ t y, r.clOrdID = .value t ∧ r.symbol = .value y ∧
    HomeOf m (strtoull t) ((FixApp.init cfg).symbolId y)
  closing : ∀ k, reportKind r = .ok k → r.closes = true → k.terminal = true

/-- No slot refers to an order whose closing report was consumed. -/
def ConsumedSound (m : MarketMaker) : Consumed → Prop
  | .report r => ∀ t, r.closes = true → r.clOrdID = .value t → Spare m (strtoull t)
  | .cancelReject _ _ _ => True

/-- Every id in the session is where it belongs. -/
structure Homed (cfg : EngineConfig) (s : Session) : Prop where
  slots : SlotIds s.mm
  msgs : ∀ x ∈ onTheWay cfg s, MsgSound cfg s.mm x
  orders : ∀ o ∈ s.orders, OrderSound cfg s.mm o
  reports : ∀ r, .report r ∈ s.toEngine → ReportSound cfg s.mm r
  events : ∀ x ∈ s.execRing, ReportSound cfg s.mm x.1 ∧
    ∃ now, (FixApp.init cfg).onExecutionReport x.1 now = .ok x.2
  consumed : ∀ x ∈ s.consumed, ConsumedSound s.mm x

section Homed

variable {cfg : EngineConfig} {m m' : MarketMaker} {s t : Session}

theorem MsgSound.grows {x : OrderMsg} (h : MsgSound cfg m x) (hg : Grows m m') :
    MsgSound cfg m' x := by
  cases x with
  | newOrderSingle o => exact HomeOf.grows h hg
  | orderCancelRequest x => exact Spare.grows h hg

theorem OrderSound.grows {o : VenueOrder} (h : OrderSound cfg m o) (hg : Grows m m') :
    OrderSound cfg m' o :=
  ⟨h.home.grows hg, fun t ht => (h.pending t ht).grows hg⟩

theorem ReportSound.grows {r : ExecutionReport} (h : ReportSound cfg m r) (hg : Grows m m') :
    ReportSound cfg m' r := by
  obtain ⟨t, y, ht, hy, hhome⟩ := h.about
  exact ⟨⟨t, y, ht, hy, hhome.grows hg⟩, h.closing⟩

theorem ConsumedSound.grows {x : Consumed} (h : ConsumedSound m x) (hg : Grows m m') :
    ConsumedSound m' x := by
  cases x with
  | report r => exact fun t hcloses ht => Spare.grows (h t hcloses ht) hg
  | cancelReject t isOpen live => trivial

/-- INTERNAL: in a step only what is new has to be looked at. -/
theorem Homed.mono (h : Homed cfg s) (hg : Grows s.mm t.mm) (hslots : SlotIds t.mm)
    (hmsgs : ∀ x ∈ onTheWay cfg t, x ∈ onTheWay cfg s ∨ MsgSound cfg t.mm x)
    (horders : ∀ o ∈ t.orders, o ∈ s.orders ∨ OrderSound cfg t.mm o)
    (hreports : ∀ r, .report r ∈ t.toEngine → .report r ∈ s.toEngine ∨ ReportSound cfg t.mm r)
    (hevents : ∀ x ∈ t.execRing, x ∈ s.execRing ∨
      ReportSound cfg t.mm x.1 ∧ ∃ now, (FixApp.init cfg).onExecutionReport x.1 now = .ok x.2)
    (hconsumed : ∀ x ∈ t.consumed, x ∈ s.consumed ∨ ConsumedSound t.mm x) : Homed cfg t where
  slots := hslots
  msgs := fun x hx => (hmsgs x hx).elim (fun hx => (h.msgs x hx).grows hg) id
  orders := fun o ho => (horders o ho).elim (fun ho => (h.orders o ho).grows hg) id
  reports := fun r hr => (hreports r hr).elim (fun hr => (h.reports r hr).grows hg) id
  events := fun x hx => (hevents x hx).elim
    (fun hx => ⟨(h.events x hx).1.grows hg, (h.events x hx).2⟩) id
  consumed := fun x hx => (hconsumed x hx).elim (fun hx => (h.consumed x hx).grows hg) id

end Homed

/-- The id of a new order. -/
def newId : OrderMsg → Option UInt64
  | .newOrderSingle o => some (strtoull o.clOrdID)
  | .orderCancelRequest _ => none

/-- The ids of all orders, on their way to the venue or taken by it. -/
def orderIds (cfg : EngineConfig) (s : Session) : List UInt64 :=
  (onTheWay cfg s).filterMap newId ++ s.orders.map fun o => strtoull o.clOrdID

/-- No two orders share an id, and a cancel request was rejected for a closed order only. -/
structure Refusals (cfg : EngineConfig) (s : Session) : Prop where
  ids : (orderIds cfg s).Nodup
  rejects : ∀ x t, .cancelReject x t ∈ s.toEngine → ∃ o ∈ s.orders, o.clOrdID = t ∧ o.isOpen = false
  reopened : ∀ t live, .cancelReject t true live ∉ s.consumed

/-- INTERNAL: an order with the id of a closed one is the closed one. -/
theorem Refusals.isOpenAt {cfg : EngineConfig} {s : Session} (h : Refusals cfg s) {o : VenueOrder}
    (ho : o ∈ s.orders) (hclosed : o.isOpen = false) : s.isOpenAt o.clOrdID = false := by
  have hnodup : (s.orders.map fun o => strtoull o.clOrdID).Nodup :=
    (List.nodup_append.mp h.ids).2.1
  unfold Session.isOpenAt
  rw [List.any_eq_false]
  intro o' ho' hopen
  simp only [decide_eq_true_eq] at hopen
  obtain rfl : o' = o :=
    List.inj_on_of_nodup_map hnodup ho' ho (congrArg strtoull hopen.1)
  rw [hclosed] at hopen
  exact absurd hopen.2 (by simp)

/-- What holds between two steps of the session. -/
structure Sound (cfg : EngineConfig) (s : Session) : Prop where
  homed : Homed cfg s
  refusals : Refusals cfg s

theorem Homed.known_orderIds {cfg : EngineConfig} {s : Session} (h : Homed cfg s) {id : UInt64}
    (hid : id ∈ orderIds cfg s) : Known s.mm id := by
  rcases List.mem_append.mp hid with hid | hid
  · obtain ⟨x, hx, hid⟩ := List.mem_filterMap.mp hid
    cases x with
    | newOrderSingle o =>
      rw [← Option.some.inj hid]
      exact HomeOf.known (h.msgs _ hx)
    | orderCancelRequest x => cases hid
  · obtain ⟨o, ho, rfl⟩ := List.mem_map.mp hid
    exact (h.orders o ho).home.known

/-! ## The strategy's turn on a snapshot -/

section Turn

variable {cfg : EngineConfig} {s : Session} {m m' : MarketMaker} {es es' : List Effect}

/-- The session after a turn of the strategy that left `m` and pushed the commands of `es`. -/
def afterMd (s : Session) (m : MarketMaker) (es : List Effect) : Session :=
  { s with mm := m, ordRing := s.ordRing ++ pushedCmds es }

theorem Sound.keep (h : Sound cfg (afterMd s m es)) (hcmds : pushedCmds es' = pushedCmds es)
    (hg : Grows m m') (hslots : SlotIds m') : Sound cfg (afterMd s m' es') := by
  have hway : onTheWay cfg (afterMd s m' es') = onTheWay cfg (afterMd s m es) := by
    unfold onTheWay afterMd
    rw [hcmds]
  refine ⟨?_, ⟨?_, h.refusals.rejects, h.refusals.reopened⟩⟩
  · refine h.homed.mono hg hslots ?_ (fun _ ho => Or.inl ho) (fun _ hr => Or.inl hr)
      (fun _ hx => Or.inl hx) fun _ hx => Or.inl hx
    rw [hway]
    exact fun _ hx => Or.inl hx
  · have hids := h.refusals.ids
    unfold orderIds at hids ⊢
    rw [hway]
    exact hids

/-- INTERNAL: a pushed command puts its message under way. -/
theorem Sound.pushed (h : Sound cfg (afterMd s m es)) {c : OrderCmd} {msg : OrderMsg}
    (hmsg : (FixApp.init cfg).sendOrderCmd c = some msg) (hid : strtoull msg.clOrdID = m.clOrdSeed)
    (hg : Grows m m') (hslots : SlotIds m') (hsound : MsgSound cfg m' msg) :
    Sound cfg (afterMd s m' (es ++ [.pushed c])) := by
  have hway : (onTheWay cfg (afterMd s m' (es ++ [.pushed c]))).Perm
      (msg :: onTheWay cfg (afterMd s m es)) := perm_pushed es hmsg
  refine ⟨?_, ⟨?_, h.refusals.rejects, h.refusals.reopened⟩⟩
  · refine h.homed.mono hg hslots ?_ (fun _ ho => Or.inl ho) (fun _ hr => Or.inl hr)
      (fun _ hx => Or.inl hx) fun _ hx => Or.inl hx
    intro x hx
    rcases List.mem_cons.mp (hway.mem_iff.mp hx) with rfl | hx
    · exact Or.inr hsound
    · exact Or.inl hx
  · have hids : (orderIds cfg (afterMd s m' (es ++ [.pushed c]))).Perm
        ((msg :: onTheWay cfg (afterMd s m es)).filterMap newId ++
          s.orders.map fun o => strtoull o.clOrdID) := (hway.filterMap newId).append_right _
    rw [hids.nodup_iff]
    cases msg with
    | newOrderSingle o =>
      -- the counter is past every id an order carries
      refine List.nodup_cons.mpr ⟨?_, h.refusals.ids⟩
      intro hmem
      exact (h.homed.known_orderIds hmem).ne_seed hid.symm
    | orderCancelRequest x => exact h.refusals.ids

/-- INTERNAL: a placed order is under way to the slot of its symbol.
SRCLINE: src/strategy/market_maker.hpp:116-128 -/
theorem Sound.placed {env : MdEnv} {sym : Fin kMaxSymbols} {side : OrdSide} {px : ℚ} {tMd : ℤ}
    (h : Sound cfg (afterMd s m es)) (hroom : m.clOrdSeed.toNat + 1 < 2 ^ 64)
    (hcanon : Canonical (FixApp.init cfg) sym) :
    Sound cfg (afterMd s
      (m.bumpSeed.setSlot sym side (placedQuote m sym side (newCmd cfg env m sym side px tMd)))
      (es ++ [.pushed (newCmd cfg env m sym side px tMd)])) := by
  have hm : SlotIds m := h.homed.slots
  obtain ⟨msg, hmsg, hid, htext, hnew, -⟩ := sendOrderCmd_spec (FixApp.init cfg)
    (show (newCmd cfg env m sym side px tMd).symbolId = sym from rfl)
  obtain ⟨o, rfl, -⟩ := hnew rfl
  refine h.pushed hmsg hid (grows_placed hroom) (hm.placed hroom) ?_
  show HomeOf _ (strtoull o.clOrdID) ((FixApp.init cfg).symbolId o.symbol)
  rw [show strtoull o.clOrdID = m.clOrdSeed from hid, show o.symbol = _ from htext]
  refine ⟨⟨hm.seed, ?_⟩, ?_⟩
  · exact clOrdSeed_lt_bumpSeed hroom
  · intro sym' side' _ hseed
    rw [slot_setSlot] at hseed
    split at hseed
    · next hslot =>
      rw [hslot.1]
      exact hcanon
    · exact absurd hseed (hm.ne_seed sym' side')

/-- INTERNAL: no slot refers to the id of a cancel request.
SRCLINE: src/strategy/market_maker.hpp:131-146 -/
theorem Sound.canceled {env : MdEnv} {sym : Fin kMaxSymbols} {side : OrdSide} {tMd : ℤ}
    (h : Sound cfg (afterMd s m es)) (hroom : m.clOrdSeed.toNat + 1 < 2 ^ 64)
    (hlive : (m.slot sym side).state = .live) :
    Sound cfg (afterMd s
      (m.bumpSeed.setSlot sym side { m.slot sym side with state := .pendingCancel })
      (es ++ [.pushed (cancelCmd env m sym side tMd)])) := by
  have hm : SlotIds m := h.homed.slots
  obtain ⟨msg, hmsg, hid, -, -, hcxl⟩ := sendOrderCmd_spec (FixApp.init cfg)
    (show (cancelCmd env m sym side tMd).symbolId = sym from rfl)
  obtain ⟨x, rfl⟩ := hcxl rfl
  refine h.pushed hmsg hid (grows_canceled hroom hlive) (hm.canceled hroom hlive) ?_
  show Spare _ (strtoull x.clOrdID)
  rw [show strtoull x.clOrdID = m.clOrdSeed from hid]
  refine ⟨⟨hm.seed, ?_⟩, ?_⟩
  · exact clOrdSeed_lt_bumpSeed hroom
  · intro sym' side' _
    rw [clOrdId_canceled]
    exact hm.ne_seed sym' side'

/-- INTERNAL: everything a turn on a snapshot does keeps the ids where they belong. -/
theorem sound_turn (cfg : EngineConfig) (s : Session) :
    KeptFresh cfg (Canonical (FixApp.init cfg)) (fun _ _ _ => True)
      fun m es => Sound cfg (afterMd s m es) where
  view := by
    intro m m' es homs hseed h
    have hle : m.clOrdSeed.toNat ≤ m'.clOrdSeed.toNat := by rw [hseed]
    refine h.keep rfl (grows_of_same homs hle) ?_
    have hm : SlotIds m := h.homed.slots
    refine hm.of_same ?_ ?_ hle
    · intro sym side
      rw [slot_of_oms homs]
    · intro sym side
      rw [slot_of_oms homs]
  quiet := by
    intro m es x hx h
    refine h.keep (pushedCmds_concat_of_not_pushed es ?_) (grows_of_same rfl le_rfl) h.homed.slots
    rintro c rfl
    exact hx
  refused := by
    intro m es c hroom h
    have hle : m.clOrdSeed.toNat ≤ m.bumpSeed.clOrdSeed.toNat := (clOrdSeed_lt_bumpSeed hroom).le
    have hm : SlotIds m := h.homed.slots
    exact h.keep (pushedCmds_concat_of_not_pushed es (by simp)) (grows_of_same rfl hle)
      (hm.of_same (fun _ _ => rfl) (fun _ _ => Iff.rfl) hle)
  placed := fun _ _ _ _ _ _ _ hroom hcanon _ h => h.placed hroom hcanon
  canceled := fun _ _ _ _ _ _ hroom _ _ hlive h => h.canceled hroom hlive

end Turn

/-! ## Reports and messages -/

section Channels

variable {cfg : EngineConfig} {s : Session}

/-- INTERNAL: **a consumed report.**  If it closes its order, the slot is freed. -/
theorem Sound.exec {r : ExecutionReport} {e : ExecEvent} {rest : List (ExecutionReport × ExecEvent)}
    {sym : Fin kMaxSymbols} (h : Sound cfg s) (hring : s.execRing = (r, e) :: rest)
    (hsym : sym.val = e.symbolId) :
    Sound cfg { s with mm := takeExec s.mm sym e, execRing := rest,
                       consumed := s.consumed ++ [.report r] } := by
  obtain ⟨hr, now, hconv⟩ := h.homed.events (r, e) (hring ▸ List.mem_cons_self)
  obtain ⟨t, y, ht, hy, hhome⟩ := hr.about
  obtain ⟨hcl, hkind, hsymbol, -⟩ := onExecutionReport_eq_ok hconv
  rw [ht] at hcl
  rw [hy] at hsymbol
  rw [show strtoull t = e.clOrdId from Except.ok.inj hcl,
    show (FixApp.init cfg).symbolId y = e.symbolId from Except.ok.inj hsymbol] at hhome
  have hne : e.clOrdId ≠ 0 := hhome.known.1
  refine ⟨?_, ⟨h.refusals.ids, h.refusals.rejects, ?_⟩⟩
  · refine h.homed.mono (grows_takeExec h.homed.slots sym hne)
      (h.homed.slots.takeExec (h.homed.slots.idle_takeExec sym hne))
      (fun _ hx => Or.inl hx) (fun _ ho => Or.inl ho) (fun _ hr => Or.inl hr) ?_ ?_
    · intro x hx
      exact Or.inl (hring ▸ List.mem_cons_of_mem _ hx)
    · intro x hx
      rcases List.mem_append.mp hx with hx | hx
      · exact Or.inl hx
      · rw [List.mem_singleton.mp hx]
        refine Or.inr fun t' hcloses ht' => ?_
        obtain rfl : t = t' := by
          rw [ht] at ht'
          exact Model.Field.value.inj ht'
        rw [show strtoull t = e.clOrdId from Except.ok.inj hcl]
        exact spare_takeExec h.homed.slots hhome hsym (hr.closing e.kind hkind hcloses)
  · intro t live hmem
    rcases List.mem_append.mp hmem with hmem | hmem
    · exact h.refusals.reopened t live hmem
    · cases List.mem_singleton.mp hmem

theorem Sound.send {c : OrderCmd} {rest : List OrderCmd} {msg : OrderMsg} (h : Sound cfg s)
    (hring : s.ordRing = c :: rest) (hmsg : (FixApp.init cfg).sendOrderCmd c = some msg) :
    Sound cfg { s with ordRing := rest, toVenue := s.toVenue ++ [msg] } := by
  have hway : (onTheWay cfg { s with ordRing := rest, toVenue := s.toVenue ++ [msg] }).Perm
      (onTheWay cfg s) := by
    unfold onTheWay
    rw [hring]
    exact perm_sent hmsg
  refine ⟨?_, ⟨?_, h.refusals.rejects, h.refusals.reopened⟩⟩
  · exact h.homed.mono (grows_of_same rfl le_rfl) h.homed.slots
      (fun _ hx => Or.inl (hway.mem_iff.mp hx)) (fun _ ho => Or.inl ho) (fun _ hr => Or.inl hr)
      (fun _ hx => Or.inl hx) fun _ hx => Or.inl hx
  · exact ((hway.filterMap newId).append_right _).nodup_iff.mpr h.refusals.ids

/-- INTERNAL: what the venue takes stays sound, and no order is lost or reopened. -/
theorem mem_takeOrder {m : MarketMaker} {os : List VenueOrder} {msg : OrderMsg}
    (hos : ∀ o ∈ os, OrderSound cfg m o) (hmsg : MsgSound cfg m msg) :
    (∀ o ∈ takeOrder os msg, OrderSound cfg m o) ∧
      ∀ o ∈ os, ∃ o' ∈ takeOrder os msg, o'.clOrdID = o.clOrdID ∧ o'.isOpen = o.isOpen := by
  cases msg with
  | newOrderSingle n =>
    refine ⟨?_, fun o ho => ⟨o, List.mem_append_left _ ho, rfl, rfl⟩⟩
    intro o ho
    rcases List.mem_append.mp ho with ho | ho
    · exact hos o ho
    · rw [List.mem_singleton.mp ho]
      exact ⟨hmsg, fun _ ht => (nomatch ht)⟩
  | orderCancelRequest x =>
    constructor
    · intro o' ho'
      obtain ⟨o, ho, rfl⟩ := List.mem_map.mp ho'
      split
      · exact ⟨(hos o ho).home, List.forall_mem_cons.mpr ⟨hmsg, (hos o ho).pending⟩⟩
      · exact hos o ho
    · intro o ho
      refine ⟨_, List.mem_map.mpr ⟨o, ho, rfl⟩, ?_⟩
      split <;> exact ⟨rfl, rfl⟩

theorem map_id_takeOrder (os : List VenueOrder) (msg : OrderMsg) :
    ((takeOrder os msg).map fun o => strtoull o.clOrdID) =
      (os.map fun o => strtoull o.clOrdID) ++ (newId msg).toList := by
  cases msg with
  | newOrderSingle o => exact List.map_append
  | orderCancelRequest x =>
    simp only [takeOrder, newId, Option.toList_none, List.append_nil, List.map_map]
    apply List.map_congr_left
    intro o _
    dsimp only [Function.comp]
    split <;> rfl

theorem Sound.recv {msg : OrderMsg} {rest : List OrderMsg} (h : Sound cfg s)
    (hring : s.toVenue = msg :: rest) :
    Sound cfg { s with toVenue := rest, orders := takeOrder s.orders msg } := by
  have hway : (onTheWay cfg s).Perm
      (msg :: onTheWay cfg { s with toVenue := rest, orders := takeOrder s.orders msg }) := by
    unfold onTheWay
    rw [hring]
    exact List.perm_middle
  have hmsg : MsgSound cfg s.mm msg := h.homed.msgs msg (hway.mem_iff.mpr List.mem_cons_self)
  obtain ⟨hsound, hkept⟩ := mem_takeOrder h.homed.orders hmsg
  refine ⟨?_, ⟨?_, ?_, h.refusals.reopened⟩⟩
  · exact h.homed.mono (grows_of_same rfl le_rfl) h.homed.slots
      (fun _ hx => Or.inl (hway.mem_iff.mpr (List.mem_cons_of_mem _ hx)))
      (fun o ho => Or.inr (hsound o ho)) (fun _ hr => Or.inl hr) (fun _ hx => Or.inl hx)
      fun _ hx => Or.inl hx
  · have hids := ((hway.filterMap newId).append_right
      (s.orders.map fun o : VenueOrder => strtoull o.clOrdID)).nodup_iff.mp h.refusals.ids
    unfold orderIds
    dsimp only
    rw [map_id_takeOrder]
    cases msg with
    | newOrderSingle o =>
      rw [← List.append_assoc]
      exact (List.perm_append_singleton _ _).nodup_iff.mpr hids
    | orderCancelRequest x =>
      rw [show newId (.orderCancelRequest x) = none from rfl, Option.toList_none, List.append_nil]
      exact hids
  · intro x t hx
    obtain ⟨o, ho, hid, hclosed⟩ := h.refusals.rejects x t hx
    obtain ⟨o', ho', hid', hopen⟩ := hkept o ho
    exact ⟨o', ho', hid'.trans hid, hopen.trans hclosed⟩

theorem Sound.reported {now : ℤ} {r : ExecutionReport} {rest : List VenueMsg} {e : ExecEvent}
    (h : Sound cfg s) (hring : s.toEngine = .report r :: rest)
    (hconv : (FixApp.init cfg).onExecutionReport r now = .ok e) :
    Sound cfg { s with toEngine := rest, execRing := s.execRing ++ [(r, e)] } := by
  refine ⟨?_, ⟨h.refusals.ids, ?_, h.refusals.reopened⟩⟩
  · refine h.homed.mono (grows_of_same rfl le_rfl) h.homed.slots (fun _ hx => Or.inl hx)
      (fun _ ho => Or.inl ho) ?_ ?_ fun _ hx => Or.inl hx
    · intro r' hr'
      exact Or.inl (hring ▸ List.mem_cons_of_mem _ hr')
    · intro x hx
      rcases List.mem_append.mp hx with hx | hx
      · exact Or.inl hx
      · rw [List.mem_singleton.mp hx]
        exact Or.inr ⟨h.homed.reports r (hring ▸ List.mem_cons_self), now, hconv⟩
  · intro x t hx
    exact h.refusals.rejects x t (hring ▸ List.mem_cons_of_mem _ hx)

/-- INTERNAL: a message that is no event is gone.  What is noted about it is no rejected cancel
of an order that is open. -/
theorem Sound.dropped {msg : VenueMsg} {rest : List VenueMsg} {noted : List Consumed}
    (h : Sound cfg s) (hring : s.toEngine = msg :: rest)
    (hnoted : ∀ x ∈ noted, ∃ t live, x = .cancelReject t false live) :
    Sound cfg { s with toEngine := rest, consumed := s.consumed ++ noted } := by
  refine ⟨?_, ⟨h.refusals.ids, ?_, ?_⟩⟩
  · refine h.homed.mono (grows_of_same rfl le_rfl) h.homed.slots (fun _ hx => Or.inl hx)
      (fun _ ho => Or.inl ho) ?_ (fun _ hx => Or.inl hx) ?_
    · intro r hr
      exact Or.inl (hring ▸ List.mem_cons_of_mem _ hr)
    · intro x hx
      rcases List.mem_append.mp hx with hx | hx
      · exact Or.inl hx
      · obtain ⟨t, live, rfl⟩ := hnoted x hx
        exact Or.inr trivial
  · intro x t hx
    exact h.refusals.rejects x t (hring ▸ List.mem_cons_of_mem _ hx)
  · intro t live hmem
    rcases List.mem_append.mp hmem with hmem | hmem
    · exact h.refusals.reopened t live hmem
    · obtain ⟨t', live', heq⟩ := hnoted _ hmem
      cases heq

end Channels

/-! ## The venue's acts -/

/-- What an act does to an order: it keeps its identity, it may be closed, its reports are about
it, one that closes it is known to the engine, and a cancel is rejected for a closed order. -/
structure Lived (o o' : VenueOrder) (msgs : List VenueMsg) : Prop where
  clOrdID : o'.clOrdID = o.clOrdID
  symbol : o'.symbol = o.symbol
  pending : ∀ t ∈ o'.pending, t ∈ o.pending
  closed : o.isOpen = false → o'.isOpen = false
  about : ∀ r, .report r ∈ msgs → r.symbol = .value o.symbol ∧
    (r.clOrdID = .value o.clOrdID ∨ ∃ t ∈ o.pending, r.clOrdID = .value t)
  closing : ∀ r, .report r ∈ msgs → ∀ k, reportKind r = .ok k → r.closes = true →
    k.terminal = true
  rejects : ∀ x t, .cancelReject x t ∈ msgs → t = o.clOrdID ∧ o'.isOpen = false

/-- INTERNAL: an act with one report, from what the report is read as. -/
theorem Lived.of_report {o o' : VenueOrder} {orderID clOrdID : Text} {execType ordStatus : Char}
    {leaves : ℚ} {last : Option (ℚ × ℚ)} (hid : o'.clOrdID = o.clOrdID)
    (hsymbol : o'.symbol = o.symbol) (hpending : o'.pending = o.pending)
    (hclosed : o.isOpen = false → o'.isOpen = false)
    (habout : clOrdID = o.clOrdID ∨ clOrdID ∈ o.pending)
    (hclosing : isClosing ordStatus = true → (if execKindOf execType = .filled then
      (if ordStatus = '1' then ExecKind.partFill else .filled) else execKindOf execType).terminal =
        true) :
    Lived o o' [.report (o.report orderID clOrdID execType ordStatus leaves last)] where
  clOrdID := hid
  symbol := hsymbol
  pending := fun t ht => hpending ▸ ht
  closed := hclosed
  about := by
    intro r hr
    obtain rfl := VenueMsg.report.inj (List.mem_singleton.mp hr)
    refine ⟨rfl, ?_⟩
    rcases habout with rfl | hmem
    · exact Or.inl rfl
    · exact Or.inr ⟨clOrdID, hmem, rfl⟩
  closing := by
    intro r hr k hk hcloses
    obtain rfl := VenueMsg.report.inj (List.mem_singleton.mp hr)
    rw [reportKind_of_values rfl rfl hk]
    exact hclosing hcloses
  rejects := fun x t hx => (nomatch List.mem_singleton.mp hx)

/-- INTERNAL: an execution with a closing OrdStatus is a fill.
SRCLINE: src/fix/fix_app.hpp:166-170 -/
theorem fill_closes {ordStatus : Char} (h : isClosing ordStatus = true) :
    (if ordStatus = '1' then ExecKind.partFill else .filled).terminal = true := by
  split
  · next hpart =>
    rw [hpart] at h
    exact absurd h (by decide)
  · rfl

/-- INTERNAL: **the acts of the venue**, when it meets the condition. -/
theorem lived_of_live {o o' : VenueOrder} {orderID : Text} {a : LifeAct} {msgs : List VenueMsg}
    (h : o.live orderID a = some (o', msgs)) (hexpire : a ≠ .expire) (hdone : a ≠ .doneForDay)
    (hrefuse : ∀ t, a = .refuse t → o.isOpen = false) : Lived o o' msgs := by
  cases a with
  | ack =>
    simp only [VenueOrder.live] at h
    split at h
    · obtain ⟨rfl, rfl⟩ := Prod.mk.inj (Option.some.inj h)
      exact .of_report rfl rfl rfl id (Or.inl rfl) (by decide)
    · cases h
  | trade px qty cancelPending =>
    simp only [VenueOrder.live] at h
    split at h
    · next hcan =>
      obtain ⟨rfl, rfl⟩ := Prod.mk.inj (Option.some.inj h)
      refine .of_report rfl rfl rfl ?_ (Or.inl rfl) fill_closes
      intro hclosed
      rw [hclosed] at hcan
      exact absurd hcan.1 (by simp)
    · cases h
  | cancel request =>
    simp only [VenueOrder.live] at h
    split at h
    · next hcan =>
      obtain ⟨rfl, rfl⟩ := Prod.mk.inj (Option.some.inj h)
      refine .of_report rfl rfl rfl (fun _ => rfl) ?_ fun _ => rfl
      cases request with
      | none => exact Or.inl rfl
      | some t => exact Or.inr (List.contains_iff_mem.mp hcan.2)
    · cases h
  | reject =>
    simp only [VenueOrder.live] at h
    split at h
    · obtain ⟨rfl, rfl⟩ := Prod.mk.inj (Option.some.inj h)
      exact .of_report rfl rfl rfl (fun _ => rfl) (Or.inl rfl) fun _ => rfl
    · cases h
  | expire => exact absurd rfl hexpire
  | doneForDay => exact absurd rfl hdone
  | refuse request =>
    simp only [VenueOrder.live] at h
    split at h
    · obtain ⟨rfl, rfl⟩ := Prod.mk.inj (Option.some.inj h)
      have hclosed : o.isOpen = false := hrefuse request rfl
      refine ⟨rfl, rfl, fun _ ht => List.mem_of_mem_erase ht, id, ?_, ?_, ?_⟩
      · exact fun r hr => (nomatch List.mem_singleton.mp hr)
      · exact fun r hr => (nomatch List.mem_singleton.mp hr)
      · intro x t hx
        obtain ⟨-, rfl⟩ := VenueMsg.cancelReject.inj (List.mem_singleton.mp hx)
        exact ⟨rfl, hclosed⟩
    · cases h
  | notice execType ordStatus =>
    simp only [VenueOrder.live] at h
    split at h
    · cases h
    · next hother =>
      obtain ⟨rfl, rfl⟩ := Prod.mk.inj (Option.some.inj h)
      refine .of_report rfl rfl rfl id (Or.inl rfl) ?_
      exact fun hclosing => absurd (Or.inr hclosing) hother

theorem Sound.act {cfg : EngineConfig} {s : Session} {order : ℕ} {o o' : VenueOrder}
    {msgs : List VenueMsg} (h : Sound cfg s) (ho : s.orders[order]? = some o)
    (hlived : Lived o o' msgs) :
    Sound cfg { s with orders := s.orders.set order o', toEngine := s.toEngine ++ msgs } := by
  obtain ⟨hlt, hget⟩ := List.getElem?_eq_some_iff.mp ho
  have hsound : OrderSound cfg s.mm o := h.homed.orders o (List.mem_of_getElem? ho)
  have hmem : o' ∈ s.orders.set order o' := List.mem_set hlt o'
  refine ⟨?_, ⟨?_, ?_, h.refusals.reopened⟩⟩
  · refine h.homed.mono (grows_of_same rfl le_rfl) h.homed.slots (fun _ hx => Or.inl hx) ?_ ?_
      (fun _ hx => Or.inl hx) fun _ hx => Or.inl hx
    · intro x hx
      rcases List.mem_or_eq_of_mem_set hx with hx | rfl
      · exact Or.inl hx
      · refine Or.inr ⟨?_, fun t ht => hsound.pending t (hlived.pending t ht)⟩
        rw [hlived.clOrdID, hlived.symbol]
        exact hsound.home
    · intro r hr
      rcases List.mem_append.mp hr with hr | hr
      · exact Or.inl hr
      · refine Or.inr ⟨?_, hlived.closing r hr⟩
        obtain ⟨hsymbol, hown | ⟨t, ht, hid⟩⟩ := hlived.about r hr
        · exact ⟨o.clOrdID, o.symbol, hown, hsymbol, hsound.home⟩
        · exact ⟨t, o.symbol, hid, hsymbol, (hsound.pending t ht).homeOf _⟩
  · have hids : (s.orders.set order o').map (fun o => strtoull o.clOrdID) =
        s.orders.map fun o => strtoull o.clOrdID := by
      rw [List.map_set, hlived.clOrdID, ← hget,
        ← List.getElem_map fun o : VenueOrder => strtoull o.clOrdID]
      · exact List.set_getElem_self _
      · rw [List.length_map]
        exact hlt
    have hnodup := h.refusals.ids
    unfold orderIds at hnodup ⊢
    dsimp only
    rw [hids]
    exact hnodup
  · intro x t hx
    rcases List.mem_append.mp hx with hx | hx
    · obtain ⟨c, hc, hid, hclosed⟩ := h.refusals.rejects x t hx
      -- the closed order is the one acted on, or it is where it was
      obtain ⟨i, hi⟩ := List.mem_iff_getElem?.mp hc
      by_cases heq : order = i
      · subst heq
        obtain rfl : o = c := Option.some.inj (ho.symm.trans hi)
        exact ⟨o', hmem, hlived.clOrdID.trans hid, hlived.closed hclosed⟩
      · refine ⟨c, ?_, hid, hclosed⟩
        rw [← List.getElem?_set_ne heq] at hi
        exact List.mem_of_getElem? hi
    · obtain ⟨rfl, hclosed⟩ := hlived.rejects x t hx
      exact ⟨o', hmem, hlived.clOrdID, hclosed⟩

/-! ## Whole runs -/

/-- The session with the counter: it started at `n`, and the ids are where they belong if it has
not wrapped. -/
def CountedSession (cfg : EngineConfig) (n : ℕ) (x : Session × List Effect) : Prop :=
  x.1.mm.clOrdSeed = UInt64.ofNat (n + spent x.2) ∧ (n + spent x.2 < 2 ^ 64 → Sound cfg x.1)

section Run

variable {cfg : EngineConfig} {n : ℕ} {s t : Session} {h es : List Effect}

theorem CountedSession.of_unspent (hs : CountedSession cfg n (s, h)) (hes : spent es = 0)
    (hseed : t.mm.clOrdSeed = s.mm.clOrdSeed) (hstep : Sound cfg s → Sound cfg t) :
    CountedSession cfg n (t, h ++ es) := by
  unfold CountedSession at *
  dsimp only at *
  rw [spent_append, hes, Nat.add_zero, hseed]
  exact ⟨hs.1, fun hlt => hstep (hs.2 hlt)⟩

theorem CountedSession.md {seq : ℕ} {msg : MarketDataSnapshot} {now : ℤ} {env : MdEnv} {ev : MdEvent}
    {m : MarketMaker} (hs : CountedSession cfg n (s, h))
    (hconv : (FixApp.init cfg).onMarketData seq msg now = .ok (some ev))
    (hiter : s.mm.mdIter cfg env ev = some (m, es)) :
    CountedSession cfg n (afterMd s m es, h ++ es) := by
  unfold CountedSession at *
  dsimp only at *
  rw [spent_append, ← Nat.add_assoc]
  refine ⟨clOrdSeed_mdIter hiter hs.1, fun hlt => ?_⟩
  obtain ⟨sym, hid, hcanon⟩ := onMarketData_canonical hconv
  refine (sound_turn cfg s).mdIter hiter hs.1 ?_ (fun _ _ _ _ _ => trivial) ?_ hlt
  · intro sym' hsym'
    obtain rfl : sym' = sym := Fin.ext (hsym'.trans hid)
    exact hcanon
  · show Sound cfg { s with ordRing := s.ordRing ++ [] }
    rw [List.append_nil]
    exact hs.2 (by omega)

/-- INTERNAL: an execution event is read from a report.
SRCLINE: src/fix/fix_app.hpp:93-100, 147 -/
theorem fromApp_report {app : FixApp} {ses : FixSession} {r : ExecutionReport} {now : ℤ}
    {e : ExecEvent} (h : (app.fromApp ses (VenueMsg.report r).app now).2 = some (.exec e)) :
    app.onExecutionReport r now = .ok e := by
  simp only [FixApp.fromApp, VenueMsg.app] at h
  cases hconv : app.onExecutionReport r now with
  | error err =>
    rw [hconv] at h
    cases h
  | ok e' =>
    rw [hconv] at h
    cases h
    rfl

/-- INTERNAL: **one step** of the session keeps the ids where they belong. -/
theorem CountedSession.step {a : SessionAct} (hs : CountedSession cfg n (s, h))
    (hG : KnownEnding s a) (hstep : s.step cfg a = some (t, es)) :
    CountedSession cfg n (t, h ++ es) := by
  cases a with
  | md seq msg now env =>
    simp only [Session.step] at hstep
    split at hstep
    · next ev hconv =>
      obtain ⟨⟨m, es'⟩, hiter, hr⟩ := Option.map_eq_some_iff.mp hstep
      obtain ⟨rfl, rfl⟩ := Prod.mk.inj hr
      exact hs.md hconv hiter
    · cases hstep
  | exec =>
    simp only [Session.step] at hstep
    split at hstep
    · cases hstep
    · next r e rest hring =>
      obtain ⟨⟨m, es'⟩, hiter, hr⟩ := Option.map_eq_some_iff.mp hstep
      obtain ⟨rfl, rfl⟩ := Prod.mk.inj hr
      obtain ⟨sym, hsym, rfl, rfl⟩ := execIter_takeExec hiter
      refine hs.of_unspent ?_ rfl fun hsound => hsound.exec hring hsym
      cases e.kind.isFill <;> rfl
  | send =>
    simp only [Session.step] at hstep
    split at hstep
    · cases hstep
    · next c rest hring =>
      obtain ⟨msg, hmsg, hr⟩ := Option.map_eq_some_iff.mp hstep
      obtain ⟨rfl, rfl⟩ := Prod.mk.inj hr
      exact hs.of_unspent rfl rfl fun hsound => hsound.send hring hmsg
  | recv =>
    simp only [Session.step] at hstep
    split at hstep
    · cases hstep
    · next msg rest hring =>
      obtain ⟨rfl, rfl⟩ := Prod.mk.inj (Option.some.inj hstep)
      exact hs.of_unspent rfl rfl fun hsound => hsound.recv hring
  | act order orderID a =>
    simp only [Session.step] at hstep
    obtain ⟨o, ho, hstep⟩ := Option.bind_eq_some_iff.mp hstep
    obtain ⟨⟨o', msgs⟩, hlive, hr⟩ := Option.map_eq_some_iff.mp hstep
    obtain ⟨rfl, rfl⟩ := Prod.mk.inj hr
    have hlived : Lived o o' msgs := by
      refine lived_of_live hlive ?_ ?_ ?_
      · rintro rfl
        exact hG
      · rintro rfl
        exact hG
      · rintro request rfl
        exact hG o ho
    exact hs.of_unspent rfl rfl fun hsound => hsound.act ho hlived
  | read now =>
    simp only [Session.step] at hstep
    split at hstep
    · cases hstep
    · next msg rest hring =>
      split at hstep
      · next r e hread =>
        obtain ⟨rfl, rfl⟩ := Prod.mk.inj (Option.some.inj hstep)
        exact hs.of_unspent rfl rfl fun hsound => hsound.reported hring (fromApp_report hread)
      · next _ x t =>
        obtain ⟨rfl, rfl⟩ := Prod.mk.inj (Option.some.inj hstep)
        refine hs.of_unspent rfl rfl fun hsound => hsound.dropped hring ?_
        obtain ⟨o, ho, rfl, hclosed⟩ := hsound.refusals.rejects x t (hring ▸ List.mem_cons_self)
        rw [List.forall_mem_singleton, hsound.refusals.isOpenAt ho hclosed]
        exact ⟨o.clOrdID, _, rfl⟩
      · obtain ⟨rfl, rfl⟩ := Prod.mk.inj (Option.some.inj hstep)
        refine hs.of_unspent rfl rfl fun hsound => ?_
        have hgone := hsound.dropped hring (List.forall_mem_nil _)
        rw [List.append_nil] at hgone
        exact hgone

end Run

/-- The engine connects to a venue that has no orders of it. -/
def sessionStart (tCtor tRun : ℤ) : Session := { mm := MarketMaker.init tCtor tRun }

theorem sound_start (cfg : EngineConfig) {tCtor tRun : ℤ}
    (hseed : (MarketMaker.init tCtor tRun).clOrdSeed ≠ 0) :
    Sound cfg (sessionStart tCtor tRun) := by
  refine ⟨⟨SlotIds.init hseed, ?_, ?_, ?_, ?_, ?_⟩, ⟨List.nodup_nil, ?_, ?_⟩⟩
  · exact fun _ hx => (nomatch hx)
  · exact fun _ ho => (nomatch ho)
  · exact fun _ hr => (nomatch hr)
  · exact fun _ hx => (nomatch hx)
  · exact fun _ hx => (nomatch hx)
  · exact fun _ _ hx => (nomatch hx)
  · exact fun _ _ hx => (nomatch hx)

/-- INTERNAL: no slot refers to a closed order, by its text. -/
theorem Sound.settled {cfg : EngineConfig} {s : Session} (h : Sound cfg s) : Settled s where
  closed := by
    intro r t hr hcloses ht _ sym side hact hid
    have hspare : Spare s.mm (strtoull t) := h.homed.consumed _ hr t hcloses ht
    refine hspare.unused sym side hact ?_
    rw [← hid, strtoull_printId]
  reopened := fun t live hmem => absurd hmem (h.refusals.reopened t live)

/-- **The slots follow the endings.**  Against every conformant venue that lets no order expire,
marks none as done for the day and rejects a cancel only when the order is closed, in every state
of every run: once the report that closes an order is consumed no slot refers to the order, and no
OrderCancelReject is consumed for an order that is open and not `Live`. -/
theorem settled_of_knownEnding (cfg : EngineConfig) (tCtor tRun : ℤ) (as : List SessionAct)
    (s : Session) (h : List Effect)
    (hends : Along (recorded (Session.step cfg)) (fun x a => KnownEnding x.1 a)
      (sessionStart tCtor tRun, []) as)
    (hrun : run (recorded (Session.step cfg)) (sessionStart tCtor tRun, []) as = some (s, h))
    (hseed : (MarketMaker.init tCtor tRun).clOrdSeed ≠ 0)
    (hwrap : (MarketMaker.init tCtor tRun).clOrdSeed.toNat + spent h < 2 ^ 64) : Settled s := by
  have hcount : CountedSession cfg (MarketMaker.init tCtor tRun).clOrdSeed.toNat (s, h) := by
    refine run_invariant (I := CountedSession cfg _) ?_ ?_ hends hrun
    · rintro ⟨s, h⟩ a ⟨t, h'⟩ hs hG hstep
      obtain ⟨es, hes, rfl⟩ := recorded_eq_some.mp hstep
      exact hs.step hG hes
    · refine ⟨?_, fun _ => sound_start cfg hseed⟩
      rw [spent_nil, Nat.add_zero, UInt64.ofNat_toNat]
      rfl
  exact (hcount.2 hwrap).settled

/-- Orders for one lot, on one symbol. -/
def oneLot : EngineConfig := { tickSize := 1 / 2, orderQty := 1, symbols := ["DLR".toList] }

/-- Both sides are quoted, the orders arrive, and the buy order is acknowledged. -/
def buyAcked : List SessionAct :=
  [.md 1 (twoSided "DLR".toList 99 101) 0 quickEnv, .send, .send, .recv, .recv,
    .act 0 "1".toList .ack, .read 0, .exec]

/-- The report of an ending of the buy order. -/
def buyEnded (execType ordStatus : Char) (lastPx lastQty : Model.Field ℚ) : ExecutionReport :=
  { clOrdID := .value "1000000".toList, execType := .value execType,
    ordStatus := .value ordStatus, symbol := .value "DLR".toList, side := .value '1',
    leavesQty := .value 0, lastPx := lastPx, lastQty := lastQty, orderID := .value "1".toList }

/-- The market locks, the buy order is filled before the cancel request arrives, and the market
opens again: the slot holds the next order. -/
theorem settled_of_knownEnding_filled :
    ∃ s h, run (recorded (Session.step oneLot)) (sessionStart 1000000000 0, [])
        (buyAcked ++ [.md 2 (twoSided "DLR".toList 100 100) 0 quickEnv,
          .act 0 "1".toList (.trade (199 / 2) 1 false), .send, .recv, .read 0, .exec,
          .md 3 (twoSided "DLR".toList 99 101) 0 quickEnv]) = some (s, h) ∧
      s.consumed.getLast? = some (.report (buyEnded 'F' '2' (.value (199 / 2)) (.value 1))) ∧
      (s.mm.slot 0 .buy).clOrdId = 1000003 ∧ Settled s := by
  have heval : ((run (recorded (Session.step oneLot)) (sessionStart 1000000000 0, [])
      (buyAcked ++ [.md 2 (twoSided "DLR".toList 100 100) 0 quickEnv,
        .act 0 "1".toList (.trade (199 / 2) 1 false), .send, .recv, .read 0, .exec,
        .md 3 (twoSided "DLR".toList 99 101) 0 quickEnv])).map fun x =>
        (x.1.consumed.getLast?, (x.1.mm.slot 0 .buy).clOrdId, spent x.2)) =
      some (some (.report (buyEnded 'F' '2' (.value (199 / 2)) (.value 1))), 1000003, 4) := by
    decide +kernel
  obtain ⟨⟨s, h⟩, hrun, hx⟩ := Option.map_eq_some_iff.mp heval
  simp only [Prod.mk.injEq] at hx
  obtain ⟨hlast, hid, hspent⟩ := hx
  refine ⟨s, h, hrun, hlast, hid, ?_⟩
  refine settled_of_knownEnding oneLot 1000000000 0 _ s h ?_ hrun (by decide) ?_
  · refine ⟨trivial, fun _ _ => ⟨trivial, fun _ _ => ⟨trivial, fun _ _ => ⟨trivial, fun _ _ =>
      ⟨trivial, fun _ _ => ⟨trivial, fun _ _ => ⟨trivial, fun _ _ => ⟨trivial, fun _ _ =>
      ⟨trivial, fun _ _ => ⟨trivial, fun _ _ => ⟨trivial, fun _ _ => ⟨trivial, fun _ _ =>
      ⟨trivial, fun _ _ => ⟨trivial, fun _ _ => ⟨trivial, fun _ _ => trivial⟩⟩⟩⟩⟩⟩⟩⟩⟩⟩⟩⟩⟩⟩⟩
  · rw [hspent]
    decide

/-- The buy order expires, and the engine consumes the report. -/
def buyExpired : List SessionAct := buyAcked ++ [.act 0 "1".toList .expire, .read 0, .exec]

/-- The market locks, and the venue rejects the cancel request of the buy order. -/
def cancelRefused : List SessionAct :=
  buyAcked ++ [.md 2 (twoSided "DLR".toList 100 100) 0 quickEnv, .send, .recv,
    .act 0 "1".toList (.refuse "1000002".toList), .read 0]

/-- The expired order stays in its slot as `Live`, and the order whose cancel was rejected stays
in its slot as `PendingCancel`. -/
theorem endings_unseen :
    (∃ s h, run (recorded (Session.step oneLot)) (sessionStart 1000000000 0, []) buyExpired =
        some (s, h) ∧ (s.mm.slot 0 .buy).state = .live ∧ ¬ Settled s) ∧
      ∃ s h, run (recorded (Session.step oneLot)) (sessionStart 1000000000 0, []) cancelRefused =
        some (s, h) ∧ (s.mm.slot 0 .buy).state = .pendingCancel ∧ ¬ Settled s := by
  constructor
  · have heval : ((run (recorded (Session.step oneLot)) (sessionStart 1000000000 0, [])
        buyExpired).map fun x => (x.1.consumed.getLast?, (x.1.mm.slot 0 .buy).state,
          (x.1.mm.slot 0 .buy).clOrdId, x.1.orders.any fun o => o.clOrdID = "1000000".toList)) =
        some (some (.report (buyEnded 'C' 'C' .absent .absent)), .live, 1000000, true) := by
      decide +kernel
    obtain ⟨⟨s, h⟩, hrun, hx⟩ := Option.map_eq_some_iff.mp heval
    simp only [Prod.mk.injEq] at hx
    obtain ⟨hlast, hlive, hid, horder⟩ := hx
    refine ⟨s, h, hrun, hlive, fun hsettled => ?_⟩
    obtain ⟨o, ho, heq⟩ := List.any_eq_true.mp horder
    refine hsettled.closed _ "1000000".toList (List.mem_of_getLast? hlast) (by decide) rfl
      ⟨o, ho, of_decide_eq_true heq⟩ 0 .buy ?_ ?_
    · rw [hlive]
      decide
    · rw [hid]
      decide
  · have heval : ((run (recorded (Session.step oneLot)) (sessionStart 1000000000 0, [])
        cancelRefused).map fun x => (x.1.consumed.getLast?, (x.1.mm.slot 0 .buy).state)) =
        some (some (.cancelReject "1000000".toList true false), .pendingCancel) := by
      decide +kernel
    obtain ⟨⟨s, h⟩, hrun, hx⟩ := Option.map_eq_some_iff.mp heval
    simp only [Prod.mk.injEq] at hx
    obtain ⟨hlast, hpending⟩ := hx
    refine ⟨s, h, hrun, hpending, fun hsettled => ?_⟩
    exact absurd (hsettled.reopened _ _ (List.mem_of_getLast? hlast)) (by decide)

end MmEngine.Analysis
