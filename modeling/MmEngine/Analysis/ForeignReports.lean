import MmEngine.Interface.FixRules
import MmEngine.Interface.OrderIds
import MmEngine.Lib.History

/-!
# Where a quote comes from

A slot is found by the id it stores, and an idle slot stores `0` (order_manager.hpp:13,
29).  The FIX edge reads `ClOrdID` with `strtoull`, which yields `0` for a text without
digits, leaves the id at `0` when the field is missing, and takes a report without
`ExecType` for `New` (fix_app.hpp:148-165).  So a report about a foreign order can bring an
idle slot to life, and the strategy will then cancel an order it never sent.

As long as no report that reads as id `0` does so while a slot of its symbol is idle, every
working slot was created by a `New` command for it, under that command's id and price, and
no terminal report for that id has been consumed since; every `Cancel` names such an order;
and reports about orders never placed change nothing.
-/

set_option autoImplicit false

namespace MmEngine.Analysis

open MmEngine.Model MmEngine.Model.MarketMaker MmEngine.Interface MmEngine.Lib

/-- What arrives at the engine: an execution report from the wire, or a market-data event. -/
inductive Feed where
  | report (msg : ExecutionReport) (now : ℤ)
  | md (ev : MdEvent) (env : MdEnv)

/-- The report handler followed by the report part of the strategy loop; a report that does
not convert is dropped.
SRCLINE: src/fix/fix_app.hpp:93-100, 147-187, src/strategy/market_maker.hpp:53-82 -/
def feedStep (cfg : EngineConfig) (m : MarketMaker) : Feed → Option (MarketMaker × List Effect)
  | .report msg now =>
    match (FixApp.init cfg).onExecutionReport msg now with
    | .ok e => m.execIter e
    | .error _ => some (m, [])
  | .md ev env => m.mdIter cfg env ev

/-- The number `ClOrdID` reads as. -/
def reportId (msg : ExecutionReport) : UInt64 :=
  match msg.clOrdID with
  | .value t => strtoull t
  | .absent | .malformed => 0

/-- The report does not touch what is not its own.  If it reads as id `0` while a slot of its
symbol is idle, it is neither a `New` nor a fill that leaves a quantity; and if it ends the
order of a working slot, it names the symbol of that slot. -/
def Harmless (cfg : EngineConfig) (m : MarketMaker) (msg : ExecutionReport) : Prop :=
  ∀ t k, msg.symbol = .value t → reportKind msg = .ok k →
    (reportId msg = 0 →
      (∃ sym side, sym.val = (FixApp.init cfg).symbolId t ∧ (m.slot sym side).state = .none) →
      k ≠ .new ∧ (k = .partFill → msg.leavesQty.getIfSet 0 id = .ok 0)) ∧
    (k.terminal = true → ∀ sym side, (m.slot sym side).state ≠ .none →
      (m.slot sym side).clOrdId = reportId msg → sym.val = (FixApp.init cfg).symbolId t)

/-- The condition on a step: a report that converts is harmless. -/
def HarmlessStep (cfg : EngineConfig) (x : MarketMaker × List Effect) : Feed → Prop
  | .report msg now => (∃ e, (FixApp.init cfg).onExecutionReport msg now = .ok e) →
      Harmless cfg x.1 msg
  | .md _ _ => True

/-- The report names a subscribed symbol. -/
def Subscribed (cfg : EngineConfig) : Feed → Prop
  | .report msg _ => ∃ t, msg.symbol = .value t ∧ Loaded (FixApp.init cfg) t
  | .md _ _ => True

/-! ## The invariant -/

/-- A terminal report for the order with this id was consumed. -/
def EndsId (id : UInt64) (x : Effect) : Prop :=
  ∃ e, x = .consumed e ∧ e.kind.terminal = true ∧ e.clOrdId = id

/-- The command created the quote: a `New` for its slot with its id and its price. -/
def Created (sym : Fin kMaxSymbols) (side : OrdSide) (q : Quote) (c : OrderCmd) : Prop :=
  c.type = .new ∧ c.symbolId = sym ∧ c.side = side ∧ c.clOrdId = q.clOrdId ∧ c.price = q.price

/-- Every working slot was created by a pushed command, and no terminal report for its id has
been consumed since. -/
def FromOrders (m : MarketMaker) (h : List Effect) : Prop :=
  ∀ sym side, (m.slot sym side).state ≠ .none →
    ∃ c, Created sym side (m.slot sym side) c ∧ Pending (EndsId c.clOrdId) h (.pushed c)

/-- Every pushed `Cancel` names an order of its slot that was pushed before it. -/
def CancelsOrders (h : List Effect) : Prop :=
  ∀ earlier c later, h = earlier ++ .pushed c :: later → c.type = .cancel →
    ∃ c', .pushed c' ∈ earlier ∧ c'.type = .new ∧ c'.symbolId = c.symbolId ∧ c'.side = c.side ∧
      c'.clOrdId = c.origClOrdId

/-- What holds of the slots, the counter and the history between two steps. -/
structure Lineage (m : MarketMaker) (h : List Effect) : Prop where
  orders : FromOrders m h
  cancels : CancelsOrders h
  idle : ∀ sym side, (m.slot sym side).state = .none → m.slot sym side = {}
  ids : SlotIds m

/-- INTERNAL: an event that is no `Cancel` keeps the cancels of a history named. -/
theorem CancelsOrders.concat {h : List Effect} {x : Effect} (hc : CancelsOrders h)
    (hx : ∀ c, x = .pushed c → c.type = .cancel →
      ∃ c', .pushed c' ∈ h ∧ c'.type = .new ∧ c'.symbolId = c.symbolId ∧ c'.side = c.side ∧
        c'.clOrdId = c.origClOrdId) : CancelsOrders (h ++ [x]) := by
  intro earlier c later heq hty
  rcases concat_eq_split heq with ⟨hh, hxc, -⟩ | ⟨later', hh, -⟩
  · rw [← hh]
    exact hx c hxc hty
  · exact hc earlier c later' hh hty

theorem Lineage.id_pushed {m : MarketMaker} {h : List Effect} (hL : Lineage m h)
    {sym : Fin kMaxSymbols} {side : OrdSide} (hact : (m.slot sym side).state ≠ .none) :
    ∃ c, .pushed c ∈ h ∧ Created sym side (m.slot sym side) c := by
  obtain ⟨c, hc, earlier, later, hh, -⟩ := hL.orders sym side hact
  exact ⟨c, by rw [hh]; simp, hc⟩

/-- INTERNAL: an event that neither pushes nor ends an order leaves where the quotes come
from as it was. -/
theorem Lineage.aside {m m' : MarketMaker} {h : List Effect} {x : Effect} (hL : Lineage m h)
    (hx : Quiet x ∨ ∃ c, x = .refused c) (hslot : ∀ sym side, m'.slot sym side = m.slot sym side)
    (hseed : m.clOrdSeed.toNat ≤ m'.clOrdSeed.toNat) : Lineage m' (h ++ [x]) := by
  have hend : ∀ id, ¬ EndsId id x := by
    rintro id ⟨e, rfl, -⟩
    rcases hx with hx | ⟨c, hx⟩
    · exact hx
    · cases hx
  have hpush : ∀ c, x ≠ .pushed c := by
    rintro c rfl
    rcases hx with hx | ⟨c, hx⟩
    · exact hx
    · cases hx
  refine ⟨?_, ?_, ?_, ?_⟩
  · intro sym side hact
    rw [hslot] at hact ⊢
    obtain ⟨c, hc, hp⟩ := hL.orders sym side hact
    exact ⟨c, hc, (pending_concat _ _ _ _).mpr (Or.inr ⟨hp, hend _⟩)⟩
  · exact hL.cancels.concat fun c hc => absurd hc (hpush c)
  · intro sym side
    rw [hslot]
    exact hL.idle sym side
  · exact hL.ids.of_same (fun sym side => by rw [hslot]) (fun sym side => by rw [hslot]) hseed

/-- INTERNAL: a placed order is the origin of its slot, under an id no slot stores yet.
SRCLINE: src/strategy/market_maker.hpp:116-128 -/
theorem lineage_placed {cfg : EngineConfig} {env : MdEnv} {m : MarketMaker} {h : List Effect}
    {sym : Fin kMaxSymbols} {side : OrdSide} {px : ℚ} {tMd : ℤ}
    (hroom : m.clOrdSeed.toNat + 1 < 2 ^ 64) (hL : Lineage m h) :
    Lineage
      (m.bumpSeed.setSlot sym side (placedQuote m sym side (newCmd cfg env m sym side px tMd)))
      (h ++ [.pushed (newCmd cfg env m sym side px tMd)]) := by
  refine ⟨?_, ?_, ?_, hL.ids.placed hroom⟩
  · intro sym' side' hact
    rw [slot_setSlot] at hact ⊢
    by_cases hslot : sym' = sym ∧ side' = side
    · obtain ⟨rfl, rfl⟩ := hslot
      rw [if_pos ⟨rfl, rfl⟩]
      exact ⟨newCmd cfg env m sym' side' px tMd, ⟨rfl, rfl, rfl, rfl, rfl⟩,
        (pending_concat _ _ _ _).mpr (Or.inl rfl)⟩
    · rw [if_neg hslot, slot_bumpSeed] at hact ⊢
      obtain ⟨c, hc, hp⟩ := hL.orders sym' side' hact
      refine ⟨c, hc, (pending_concat _ _ _ _).mpr (Or.inr ⟨hp, ?_⟩)⟩
      rintro ⟨e, he, -⟩
      cases he
  · apply hL.cancels.concat
    rintro c hc hty
    obtain rfl := Effect.pushed.inj hc
    cases hty
  · intro sym' side' hnone
    rw [slot_setSlot] at hnone ⊢
    by_cases hslot : sym' = sym ∧ side' = side
    · rw [if_pos hslot] at hnone
      cases hnone
    · rw [if_neg hslot, slot_bumpSeed] at hnone ⊢
      exact hL.idle sym' side' hnone

/-- INTERNAL: a started cancel names the order of its slot, which goes on under the same id.
SRCLINE: src/strategy/market_maker.hpp:131-146 -/
theorem lineage_canceled {env : MdEnv} {m : MarketMaker} {h : List Effect} {sym : Fin kMaxSymbols}
    {side : OrdSide} {tMd : ℤ} (hroom : m.clOrdSeed.toNat + 1 < 2 ^ 64)
    (hlive : (m.slot sym side).state = .live) (hL : Lineage m h) :
    Lineage (m.bumpSeed.setSlot sym side { m.slot sym side with state := .pendingCancel })
      (h ++ [.pushed (cancelCmd env m sym side tMd)]) := by
  have hworks : (m.slot sym side).state ≠ .none := by
    rw [hlive]
    simp
  refine ⟨?_, ?_, ?_, hL.ids.canceled hroom hlive⟩
  · intro sym' side' hact
    have hcreated : ∃ c, Created sym' side' (m.slot sym' side') c ∧
        Pending (EndsId c.clOrdId) h (.pushed c) := by
      apply hL.orders sym' side'
      exact fun hnone => hact ((state_canceled_eq_none hlive sym' side').mpr hnone)
    obtain ⟨c, hc, hp⟩ := hcreated
    refine ⟨c, ?_, (pending_concat _ _ _ _).mpr (Or.inr ⟨hp, ?_⟩)⟩
    · rw [slot_setSlot]
      split
      · next hslot => rw [hslot.1, hslot.2] at hc ⊢; exact hc
      · exact hc
    · rintro ⟨e, he, -⟩
      cases he
  · apply hL.cancels.concat
    rintro c hc -
    obtain rfl := Effect.pushed.inj hc
    obtain ⟨c', hmem, hnew, hsym, hside, hid, -⟩ := hL.id_pushed hworks
    exact ⟨c', hmem, hnew, hsym, hside, hid⟩
  · intro sym' side' hnone
    rw [slot_setSlot] at hnone ⊢
    split at hnone
    · cases hnone
    · next hslot =>
      rw [if_neg hslot]
      exact hL.idle sym' side' hnone

/-- INTERNAL: a market-data turn keeps the invariant until the counter wraps. -/
theorem lineage_keptFresh (cfg : EngineConfig) :
    KeptFresh cfg (fun _ => True) (fun _ _ _ => True) Lineage where
  view := by
    intro m m' h homs hseed hL
    have hslot := slot_of_oms homs
    refine ⟨?_, hL.cancels, ?_, ?_⟩
    · intro sym side
      rw [hslot]
      exact hL.orders sym side
    · intro sym side
      rw [hslot]
      exact hL.idle sym side
    · exact hL.ids.of_same (fun sym side => by rw [hslot]) (fun sym side => by rw [hslot])
        (by rw [hseed])
  quiet := fun m h x hx hL => hL.aside (Or.inl hx) (fun _ _ => rfl) (Nat.le_refl _)
  refused := by
    intro m h c hroom hL
    refine hL.aside (Or.inr ⟨c, rfl⟩) (fun _ _ => rfl) ?_
    exact (clOrdSeed_lt_bumpSeed hroom).le
  placed := fun _ _ _ _ _ _ _ hroom _ _ hL => lineage_placed hroom hL
  canceled := fun _ _ _ _ _ _ hroom _ _ hlive hL => lineage_canceled hroom hlive hL

/-! ## Reports -/

/-- The harmless report as the strategy sees it. -/
structure HarmlessEvent (m : MarketMaker) (sym : Fin kMaxSymbols) (e : ExecEvent) : Prop where
  idle : e.clOrdId = 0 → (∃ side, (m.slot sym side).state = .none) →
    e.kind ≠ .new ∧ (e.kind = .partFill → e.leavesQty = 0)
  ends : e.kind.terminal = true → ∀ sym' side, (m.slot sym' side).state ≠ .none →
    (m.slot sym' side).clOrdId = e.clOrdId → sym' = sym

/-- INTERNAL: a harmless report in the terms of the event it becomes.
SRCLINE: src/fix/fix_app.hpp:148-183 -/
theorem Harmless.event {cfg : EngineConfig} {m : MarketMaker} {msg : ExecutionReport} {now : ℤ}
    {e : ExecEvent} {t : Text} {sym : Fin kMaxSymbols} (hh : Harmless cfg m msg)
    (hconv : (FixApp.init cfg).onExecutionReport msg now = .ok e) (ht : msg.symbol = .value t)
    (hsym : sym.val = e.symbolId) : HarmlessEvent m sym e ∧ e.clOrdId = reportId msg := by
  obtain ⟨hcl, hkind, hid, hleaves⟩ := onExecutionReport_eq_ok hconv
  have hclId : e.clOrdId = reportId msg := by
    unfold reportId
    cases hc : msg.clOrdID with
    | absent => rw [hc] at hcl; exact (Except.ok.inj hcl).symm
    | malformed => rw [hc] at hcl; cases hcl
    | value a => rw [hc] at hcl; exact (Except.ok.inj hcl).symm
  have hsymId : (FixApp.init cfg).symbolId t = e.symbolId := by
    rw [ht] at hid
    exact Except.ok.inj hid
  obtain ⟨hidle, hends⟩ := hh t e.kind ht hkind
  refine ⟨⟨?_, ?_⟩, hclId⟩
  · rintro hzero ⟨side, hnone⟩
    obtain ⟨hnew, hfill⟩ := hidle (hclId ▸ hzero) ⟨sym, side, hsym.trans hsymId.symm, hnone⟩
    refine ⟨hnew, fun hk => ?_⟩
    have := hfill hk
    rw [hleaves] at this
    exact Except.ok.inj this
  · intro hterm sym' side hact hid'
    exact Fin.ext ((hends hterm sym' side hact (hid'.trans hclId)).trans (hsymId.trans hsym.symm))

/-- INTERNAL: a harmless report leaves an idle slot as it is: only a report that reads as id
`0` can pick it.
SRCLINE: src/oms/order_manager.hpp:26-47 -/
theorem HarmlessEvent.slot_idle {m : MarketMaker} {h : List Effect} {sym : Fin kMaxSymbols}
    {e : ExecEvent} (hh : HarmlessEvent m sym e) (hL : Lineage m h) {sym' : Fin kMaxSymbols}
    {side : OrdSide} (hnone : (m.slot sym' side).state = .none) :
    (takeExec m sym e).slot sym' side = m.slot sym' side := by
  rcases slot_takeExec m sym e sym' side with hs | ⟨rfl, hid, hs⟩
  · exact hs
  · have hempty := hL.idle sym' side hnone
    have hzero : e.clOrdId = 0 := by rw [← hid, hempty]
    obtain ⟨hnew, hfill⟩ := hh.idle hzero ⟨side, hnone⟩
    rw [hs, hempty]
    unfold Quote.onExec
    cases hk : e.kind with
    | new => exact absurd hk hnew
    | partFill => simp [hfill hk]
    | canceled | filled | rejected | replaced | other => rfl

/-- INTERNAL: a terminal harmless report ends the working slot that stores its id: no other
slot of the symbol stores it. -/
theorem HarmlessEvent.slot_ends {m : MarketMaker} {h : List Effect} {sym : Fin kMaxSymbols}
    {e : ExecEvent} (hh : HarmlessEvent m sym e) (hL : Lineage m h)
    (hterm : e.kind.terminal = true) {sym' : Fin kMaxSymbols} {side : OrdSide}
    (hact : (m.slot sym' side).state ≠ .none) (hid : (m.slot sym' side).clOrdId = e.clOrdId) :
    ((takeExec m sym e).slot sym' side).state = .none := by
  obtain rfl : sym' = sym := hh.ends hterm sym' side hact hid
  rw [hL.ids.slot_takes hact hid]
  unfold Quote.onExec
  cases hk : e.kind <;> simp_all [ExecKind.terminal]

/-- INTERNAL: **a harmless report keeps the invariant.**
SRCLINE: src/oms/order_manager.hpp:26-47 -/
theorem lineage_consumed {m : MarketMaker} {h : List Effect} {sym : Fin kMaxSymbols}
    {e : ExecEvent} (hh : HarmlessEvent m sym e) (hL : Lineage m h) :
    Lineage (takeExec m sym e) (h ++ [.consumed e]) := by
  have hwas : ∀ sym' side, ((takeExec m sym e).slot sym' side).state ≠ .none →
      (m.slot sym' side).state ≠ .none := by
    intro sym' side hact hnone
    rw [hh.slot_idle hL hnone] at hact
    exact hact hnone
  refine ⟨?_, ?_, ?_, ?_⟩
  · intro sym' side hact
    obtain ⟨hid, hpx⟩ := slot_takeExec_working hact
    obtain ⟨c, hc, hp⟩ := hL.orders sym' side (hwas sym' side hact)
    refine ⟨c, ?_, (pending_concat _ _ _ _).mpr (Or.inr ⟨hp, ?_⟩)⟩
    · unfold Created
      rw [hid, hpx]
      exact hc
    · -- a terminal report for this id would have freed the slot
      rintro ⟨e', he, hterm, hid'⟩
      obtain rfl := Effect.consumed.inj he
      refine hact (hh.slot_ends hL hterm (hwas sym' side hact) ?_)
      rw [hid', hc.2.2.2.1]
  · exact hL.cancels.concat fun c hc => by cases hc
  · intro sym' side hnone
    by_cases hwas' : (m.slot sym' side).state = .none
    · rw [hh.slot_idle hL hwas']
      exact hL.idle sym' side hwas'
    · rcases slot_takeExec m sym e sym' side with hs | ⟨rfl, -, hs⟩
      · rw [hs] at hnone
        exact absurd hnone hwas'
      · rw [hs] at hnone ⊢
        unfold Quote.onExec at *
        cases hk : e.kind <;> simp_all
  · refine hL.ids.takeExec fun sym' side hnone => ?_
    rw [hh.slot_idle hL hnone]
    exact hnone

/-- INTERNAL: a report is dropped, or reaches the slots of its symbol. -/
theorem feedStep_report {cfg : EngineConfig} {m m' : MarketMaker} {es : List Effect}
    {msg : ExecutionReport} {now : ℤ} (h : feedStep cfg m (.report msg now) = some (m', es)) :
    (m' = m ∧ es = []) ∨
      ∃ (e : ExecEvent) (sym : Fin kMaxSymbols), (FixApp.init cfg).onExecutionReport msg now = .ok e ∧
        sym.val = e.symbolId ∧ m' = takeExec m sym e ∧
        es = .consumed e :: if e.kind.isFill then [.trade e, .logged (execLog e)] else [] := by
  simp only [feedStep] at h
  cases hconv : (FixApp.init cfg).onExecutionReport msg now with
  | error err =>
    rw [hconv] at h
    obtain ⟨rfl, rfl⟩ := Prod.mk.inj (Option.some.inj h)
    exact Or.inl ⟨rfl, rfl⟩
  | ok e =>
    rw [hconv] at h
    obtain ⟨sym, hsym, hm', hes⟩ := execIter_takeExec h
    exact Or.inr ⟨e, sym, rfl, hsym, hm', hes⟩

/-- INTERNAL: **one step** keeps the invariant until the counter wraps. -/
theorem feedStep_lineage {cfg : EngineConfig} {n : ℕ} {m m' : MarketMaker} {h es : List Effect}
    {f : Feed} (hsub : Subscribed cfg f) (hG : HarmlessStep cfg (m, h) f)
    (hstep : feedStep cfg m f = some (m', es)) (hL : Unwrapped n Lineage m h) :
    Unwrapped n Lineage m' (h ++ es) := by
  cases f with
  | md ev env =>
    exact ((lineage_keptFresh cfg).keptMd n).mdIter hstep (fun _ _ => trivial)
      (fun _ _ _ _ _ => trivial) hL
  | report msg now =>
    obtain ⟨t, ht, -⟩ := hsub
    obtain ⟨rfl, rfl⟩ | ⟨e, sym, hconv, hsym, rfl, rfl⟩ := feedStep_report hstep
    · rw [List.append_nil]
      exact hL
    · obtain ⟨hh, -⟩ := (hG ⟨e, hconv⟩).event hconv ht hsym
      refine ((lineage_keptFresh cfg).keptMd n).execTail e ⟨?_, ?_⟩
      · rw [spent_append]
        exact hL.1
      · intro hlt
        rw [spent_append] at hlt
        exact lineage_consumed hh (hL.2 hlt)

/-- INTERNAL: a harmless report about an order that was never placed changes no slot. -/
theorem foreign_report_unchanged {cfg : EngineConfig} {m m' : MarketMaker} {h es : List Effect}
    {msg : ExecutionReport} {now : ℤ} (hL : Lineage m h) (hsub : Subscribed cfg (.report msg now))
    (hG : HarmlessStep cfg (m, h) (.report msg now))
    (hstep : feedStep cfg m (.report msg now) = some (m', es))
    (hforeign : ∀ c, .pushed c ∈ h → c.type = .new → c.clOrdId ≠ reportId msg)
    (sym : Fin kMaxSymbols) (side : OrdSide) : m'.slot sym side = m.slot sym side := by
  obtain ⟨t, ht, -⟩ := hsub
  obtain ⟨rfl, -⟩ | ⟨e, sym₀, hconv, hsym₀, rfl, -⟩ := feedStep_report hstep
  · rfl
  · obtain ⟨hh, hid⟩ := (hG ⟨e, hconv⟩).event hconv ht hsym₀
    by_cases hnone : (m.slot sym side).state = .none
    · exact hh.slot_idle hL hnone
    · -- a working slot stores the id of a placed order, which is not the report's
      rcases slot_takeExec m sym₀ e sym side with hs | ⟨rfl, hid', -⟩
      · exact hs
      · obtain ⟨c, hmem, hnew, -, -, hcid, -⟩ := hL.id_pushed hnone
        exact absurd (hcid.trans (hid'.trans hid)) (hforeign c hmem hnew)

/-- **Where a quote comes from.**  In every run on subscribed symbols whose reports are
harmless, as long as the id counter started above `0` and has not wrapped: every working slot
was created by a pushed `New` for its symbol and side, has that command's id and price, and no
terminal report for that id has been consumed since; every pushed `Cancel` names an order of its
slot pushed before it; and from there a harmless report about an order never placed changes no
slot.
SRCLINE: src/oms/order_manager.hpp:11-47, src/fix/fix_app.hpp:147-187 -/
theorem quotes_from_orders (cfg : EngineConfig) (tCtor tRun : ℤ) (fs : List Feed) (m : MarketMaker)
    (h : List Effect) (hseed : (MarketMaker.init tCtor tRun).clOrdSeed ≠ 0)
    (hwrap : (MarketMaker.init tCtor tRun).clOrdSeed.toNat + spent h < 2 ^ 64)
    (hsub : ∀ f ∈ fs, Subscribed cfg f)
    (hG : Along (recorded (feedStep cfg)) (HarmlessStep cfg) (MarketMaker.init tCtor tRun, []) fs)
    (hrun : run (recorded (feedStep cfg)) (MarketMaker.init tCtor tRun, []) fs = some (m, h)) :
    FromOrders m h ∧ CancelsOrders h ∧
      ∀ msg now m' es, Subscribed cfg (.report msg now) →
        HarmlessStep cfg (m, h) (.report msg now) →
        feedStep cfg m (.report msg now) = some (m', es) →
        (∀ c, .pushed c ∈ h → c.type = .new → c.clOrdId ≠ reportId msg) →
        ∀ sym side, m'.slot sym side = m.slot sym side := by
  have hinv : Unwrapped (MarketMaker.init tCtor tRun).clOrdSeed.toNat Lineage m h := by
    refine run_invariant (I := fun x => Unwrapped _ Lineage x.1 x.2) ?_ ?_ (hG.and_mem hsub) hrun
    · rintro ⟨m, h⟩ f ⟨m', h'⟩ hL ⟨hG, hsub⟩ hstep
      obtain ⟨es, hes, rfl⟩ := recorded_eq_some.mp hstep
      exact feedStep_lineage hsub hG hes hL
    · refine ⟨by simp, fun _ => ⟨?_, ?_, ?_, SlotIds.init hseed⟩⟩
      · exact fun sym side hact => absurd rfl hact
      · intro earlier c later heq
        simp at heq
      · exact fun sym side _ => rfl
  have hL := hinv.2 hwrap
  exact ⟨hL.orders, hL.cancels, fun msg now m' es hsub' hG' hstep hforeign =>
    foreign_report_unchanged hL hsub' hG' hstep hforeign⟩

/-- A market that is quoted, and the acknowledgement of the buy order. -/
def quotedAndAcked : List Feed :=
  [.md (topOfBook 0 99 101) quickEnv,
    .report { clOrdID := .value "1000000".toList, execType := .value '0',
              symbol := .value "DLR".toList } 0]

/-- It is a run that meets the conditions. -/
theorem quotes_from_orders_acked :
    ∃ m h, run (recorded (feedStep { tickSize := 1 / 2, symbols := ["DLR".toList] }))
        (MarketMaker.init 1000000000 0, []) quotedAndAcked = some (m, h) ∧
      (m.slot 0 .buy).state = .live ∧ FromOrders m h ∧ CancelsOrders h := by
  have heval : ((run (recorded (feedStep { tickSize := 1 / 2, symbols := ["DLR".toList] }))
      (MarketMaker.init 1000000000 0, []) quotedAndAcked).map fun x =>
        ((x.1.slot 0 .buy).state, spent x.2)) = some (.live, 2) := by
    decide +kernel
  obtain ⟨⟨m, h⟩, hrun, hx⟩ := Option.map_eq_some_iff.mp heval
  obtain ⟨hlive, hspent⟩ := Prod.mk.inj hx
  have hharmless : ∀ m, Harmless { tickSize := 1 / 2, symbols := ["DLR".toList] } m
      { clOrdID := .value "1000000".toList, execType := .value '0',
        symbol := .value "DLR".toList } := by
    intro m t k _ hk
    obtain rfl : ExecKind.new = k := Except.ok.inj hk
    exact ⟨fun hzero => absurd hzero (by decide), fun hterm => by cases hterm⟩
  have hall := quotes_from_orders { tickSize := 1 / 2, symbols := ["DLR".toList] } 1000000000 0
    quotedAndAcked m h (by decide) (by dsimp only at hspent; rw [hspent]; decide) ?_ ?_ hrun
  · exact ⟨m, h, hrun, hlive, hall.1, hall.2.1⟩
  · intro f hf
    simp only [quotedAndAcked, List.mem_cons, List.not_mem_nil, or_false] at hf
    rcases hf with rfl | rfl
    · trivial
    · exact ⟨"DLR".toList, rfl, 0, by decide, rfl⟩
  · exact ⟨trivial, fun x _ => ⟨fun _ => hharmless x.1, fun _ _ => trivial⟩⟩

/-- A report about a foreign order, without `ClOrdID` and `ExecType`, and then a locked
market. -/
def strayReport : List Feed :=
  [.report { symbol := .value "DLR".toList } 0, .md (topOfBook 0 100 100) quickEnv]

/-- The report brings the idle buy slot to life, and the strategy cancels an order that it
never sent: the only command of the run is a `Cancel` of order `0`. -/
theorem strayReport_animates :
    ∃ m h, run (recorded (feedStep { tickSize := 1 / 2, symbols := ["DLR".toList] }))
        (MarketMaker.init 1000000000 0, []) strayReport = some (m, h) ∧
      (m.slot 0 .buy).state = .pendingCancel ∧
      h.filterMap (fun | .pushed c => some (c.type, c.origClOrdId) | _ => none) =
        [(.cancel, 0)] ∧ ¬ FromOrders m h ∧ ¬ CancelsOrders h := by
  have heval : ((run (recorded (feedStep { tickSize := 1 / 2, symbols := ["DLR".toList] }))
      (MarketMaker.init 1000000000 0, []) strayReport).map fun x =>
        ((x.1.slot 0 .buy).state,
          x.2.filterMap (fun | .pushed c => some (c.type, c.origClOrdId) | _ => none))) =
      some (.pendingCancel, [(.cancel, 0)]) := by
    decide +kernel
  obtain ⟨⟨m, h⟩, hrun, hx⟩ := Option.map_eq_some_iff.mp heval
  obtain ⟨hstate, hcmds⟩ := Prod.mk.inj hx
  have hnonew : ∀ c, .pushed c ∈ h → c.type = .cancel := by
    intro c hc
    have hmem : (c.type, c.origClOrdId) ∈
        h.filterMap (fun | .pushed c => some (c.type, c.origClOrdId) | _ => none) :=
      List.mem_filterMap.mpr ⟨_, hc, rfl⟩
    rw [hcmds] at hmem
    exact (Prod.mk.inj (List.mem_singleton.mp hmem)).1
  refine ⟨m, h, hrun, hstate, hcmds, ?_, ?_⟩
  · intro hfrom
    obtain ⟨c, ⟨hnew, -⟩, earlier, later, hh, -⟩ := hfrom 0 .buy (by rw [hstate]; simp)
    have := hnonew c (by rw [hh]; simp)
    rw [hnew] at this
    cases this
  · intro hcancels
    obtain ⟨x, hx, hcmd⟩ := List.mem_filterMap.mp
      (show (OrdCmdType.cancel, (0 : UInt64)) ∈
        h.filterMap (fun | .pushed c => some (c.type, c.origClOrdId) | _ => none) by
          rw [hcmds]; simp)
    cases x with
    | pushed c =>
      obtain ⟨earlier, later, hh⟩ := List.append_of_mem hx
      obtain ⟨c', hmem, hnew, -⟩ := hcancels earlier c later hh (Prod.mk.inj (Option.some.inj hcmd)).1
      have := hnonew c' (by rw [hh]; exact List.mem_append_left _ hmem)
      rw [hnew] at this
      cases this
    | _ => cases hcmd

end MmEngine.Analysis
