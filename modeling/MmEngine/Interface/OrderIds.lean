import MmEngine.Interface.StrategyRules
import MmEngine.Lib.Counter64

/-!
# Order ids are fresh until the counter wraps

Every command the strategy decides spends one id, accepted or not
(market_maker.hpp:120, 138, 164).  The counter has 64 bits, so an id is new only as long as
fewer than `2 ^ 64` have been counted.  `KeptFresh` is the rule of `KeptMd` for invariants
that need this: its obligations may assume the counter does not wrap in the step, and
`KeptFresh.keptMd` turns it into an invariant that speaks as long as the history has not
spent too many ids.
-/

set_option autoImplicit false

namespace MmEngine.Interface

open MmEngine.Model MmEngine.Model.MarketMaker MmEngine.Lib

/-- The effect is a command that was decided, so that an id was spent on it. -/
def spendsId : Effect → Bool
  | .pushed _ | .refused _ => true
  | .consumed _ | .took _ | .logged _ | .trade _ | .snapshot _ => false

/-- The ids the strategy has spent in a history. -/
def spent (h : List Effect) : ℕ := h.countP spendsId

@[simp] theorem spent_nil : spent [] = 0 := rfl

theorem spent_append (h h' : List Effect) : spent (h ++ h') = spent h + spent h' :=
  List.countP_append

theorem spent_concat_of_quiet (h : List Effect) {x : Effect} (hx : Quiet x) :
    spent (h ++ [x]) = spent h := by
  rw [spent_append]
  cases x <;> first | rfl | exact absurd hx (by simp [Quiet])

theorem toNat_clOrdSeed_bumpSeed {m : MarketMaker} (h : m.clOrdSeed.toNat + 1 < 2 ^ 64) :
    m.bumpSeed.clOrdSeed.toNat = m.clOrdSeed.toNat + 1 := by
  rw [clOrdSeed_bumpSeed, UInt64.toNat_add]
  exact Nat.mod_eq_of_lt h

/-- An id that was spent lies below the next one. -/
theorem clOrdSeed_lt_bumpSeed {m : MarketMaker} (h : m.clOrdSeed.toNat + 1 < 2 ^ 64) :
    m.clOrdSeed.toNat < m.bumpSeed.clOrdSeed.toNat := by
  rw [toNat_clOrdSeed_bumpSeed h]
  exact Nat.lt_succ_self _

/-- An invariant that survives a market-data turn in which the id counter does not wrap. -/
structure KeptFresh (cfg : EngineConfig) (S : Fin kMaxSymbols → Prop)
    (A : Fin kMaxSymbols → OrdSide → Quote → Prop) (I : MarketMaker → List Effect → Prop) :
    Prop where
  view : ∀ m m' h, m'.oms = m.oms → m'.clOrdSeed = m.clOrdSeed → I m h → I m' h
  quiet : ∀ m h x, Quiet x → I m h → I m (h ++ [x])
  refused : ∀ m h c, m.clOrdSeed.toNat + 1 < 2 ^ 64 → I m h → I m.bumpSeed (h ++ [.refused c])
  placed : ∀ env m h sym side px tMd, m.clOrdSeed.toNat + 1 < 2 ^ 64 → S sym →
    (m.slot sym side).state = .none → I m h →
    I (m.bumpSeed.setSlot sym side (placedQuote m sym side (newCmd cfg env m sym side px tMd)))
      (h ++ [.pushed (newCmd cfg env m sym side px tMd)])
  canceled : ∀ env m h sym side tMd, m.clOrdSeed.toNat + 1 < 2 ^ 64 → S sym →
    A sym side (m.slot sym side) → (m.slot sym side).state = .live → I m h →
    I (m.bumpSeed.setSlot sym side { m.slot sym side with state := .pendingCancel })
      (h ++ [.pushed (cancelCmd env m sym side tMd)])

/-- The counter started at `n` and has counted the ids of the history, and `I` holds if it
has not wrapped. -/
def Unwrapped (n : ℕ) (I : MarketMaker → List Effect → Prop) (m : MarketMaker) (h : List Effect) :
    Prop :=
  m.clOrdSeed = UInt64.ofNat (n + spent h) ∧ (n + spent h < 2 ^ 64 → I m h)

namespace KeptFresh

variable {cfg : EngineConfig} {S : Fin kMaxSymbols → Prop}
  {A : Fin kMaxSymbols → OrdSide → Quote → Prop} {I : MarketMaker → List Effect → Prop}

/-- INTERNAL: one more id is spent: the counter counts it, and before it wrapped the
obligation may be used. -/
theorem spend {n : ℕ} {m m' : MarketMaker} {h : List Effect} {x : Effect}
    (hx : spendsId x = true) (hseed : m'.clOrdSeed = m.clOrdSeed + 1)
    (hstep : m.clOrdSeed.toNat + 1 < 2 ^ 64 → I m h → I m' (h ++ [x]))
    (hm : Unwrapped n I m h) : Unwrapped n I m' (h ++ [x]) := by
  obtain ⟨hcount, hI⟩ := hm
  have hone : spent [x] = 1 := by
    unfold spent
    rw [List.countP_singleton, if_pos hx]
  constructor
  · rw [hseed, hcount, ofNat_succ, spent_append, hone, Nat.add_assoc]
  · intro hlt
    rw [spent_append, hone] at hlt
    have htoNat : m.clOrdSeed.toNat = n + spent h := by
      rw [hcount, UInt64.toNat_ofNat']
      exact Nat.mod_eq_of_lt (by omega)
    exact hstep (by omega) (hI (by omega))

/-- INTERNAL: **the rule with the counter.** -/
theorem keptMd (hI : KeptFresh cfg S A I) (n : ℕ) : KeptMd cfg S A (Unwrapped n I) where
  view := fun m m' h homs hseed hm =>
    ⟨hseed.trans hm.1, fun hlt => hI.view m m' h homs hseed (hm.2 hlt)⟩
  quiet := by
    intro m h x hx hm
    unfold Unwrapped
    rw [spent_concat_of_quiet h hx]
    exact ⟨hm.1, fun hlt => hI.quiet m h x hx (hm.2 hlt)⟩
  refused := fun m h c hm => spend rfl rfl (hI.refused m h c) hm
  placed := fun env m h sym side px tMd hS hnone hm =>
    spend rfl rfl (fun hlt hm => hI.placed env m h sym side px tMd hlt hS hnone hm) hm
  canceled := fun env m h sym side tMd hS hA hlive hm =>
    spend rfl rfl (fun hlt hm => hI.canceled env m h sym side tMd hlt hS hA hlive hm) hm

end KeptFresh

/-! ## The ids the slots store -/

/-- Working slots store ids that were counted, no two the same and none of them `0`; idle
slots store `0`. -/
structure SlotIds (m : MarketMaker) : Prop where
  counted : ∀ sym side, (m.slot sym side).state ≠ .none →
    (m.slot sym side).clOrdId ≠ 0 ∧ (m.slot sym side).clOrdId.toNat < m.clOrdSeed.toNat
  idle : ∀ sym side, (m.slot sym side).state = .none → (m.slot sym side).clOrdId = 0
  apart : ∀ sym side sym' side', (m.slot sym side).state ≠ .none →
    (m.slot sym' side').state ≠ .none →
    (m.slot sym side).clOrdId = (m.slot sym' side').clOrdId → sym = sym' ∧ side = side'
  seed : m.clOrdSeed ≠ 0

namespace SlotIds

variable {m m' : MarketMaker}

/-- INTERNAL: a fresh strategy whose counter starts above `0`. -/
theorem init {tCtor tRun : ℤ} (hseed : (MarketMaker.init tCtor tRun).clOrdSeed ≠ 0) :
    SlotIds (MarketMaker.init tCtor tRun) :=
  ⟨fun _ _ hact => absurd rfl hact, fun _ _ _ => rfl, fun _ _ _ _ hact => absurd rfl hact, hseed⟩

/-- INTERNAL: no slot stores the id the counter is at. -/
theorem ne_seed (hm : SlotIds m) (sym : Fin kMaxSymbols) (side : OrdSide) :
    (m.slot sym side).clOrdId ≠ m.clOrdSeed := by
  intro heq
  by_cases hnone : (m.slot sym side).state = .none
  · exact hm.seed (heq.symm.trans (hm.idle sym side hnone))
  · have hlt := (hm.counted sym side hnone).2
    rw [heq] at hlt
    exact absurd hlt (lt_irrefl _)

/-- INTERNAL: the other slot of the symbol stores another id than a working slot. -/
theorem ne_other (hm : SlotIds m) {sym : Fin kMaxSymbols} {side side' : OrdSide}
    (hact : (m.slot sym side).state ≠ .none) (hne : side' ≠ side) :
    (m.slot sym side').clOrdId ≠ (m.slot sym side).clOrdId := by
  intro heq
  by_cases hnone : (m.slot sym side').state = .none
  · rw [hm.idle sym side' hnone] at heq
    exact (hm.counted sym side hact).1 heq.symm
  · exact hne (hm.apart sym side' sym side hnone hact heq).2

/-- INTERNAL: a working slot takes the report that names its id.
SRCLINE: src/oms/order_manager.hpp:27-46 -/
theorem slot_takes (hm : SlotIds m) {sym : Fin kMaxSymbols} {side : OrdSide} {e : ExecEvent}
    (hact : (m.slot sym side).state ≠ .none) (hid : (m.slot sym side).clOrdId = e.clOrdId) :
    (takeExec m sym e).slot sym side = (m.slot sym side).onExec e := by
  apply slot_takeExec_of_id m sym e side hid
  intro side' hne
  rw [← hid]
  exact hm.ne_other hact hne

/-- INTERNAL: the ids stand as long as no slot gets or loses an order. -/
theorem of_same (hm : SlotIds m)
    (hid : ∀ sym side, (m'.slot sym side).clOrdId = (m.slot sym side).clOrdId)
    (hnone : ∀ sym side, (m'.slot sym side).state = .none ↔ (m.slot sym side).state = .none)
    (hseed : m.clOrdSeed.toNat ≤ m'.clOrdSeed.toNat) : SlotIds m' := by
  have hact : ∀ {sym side}, (m'.slot sym side).state ≠ .none → (m.slot sym side).state ≠ .none :=
    fun hne hn => hne ((hnone _ _).mpr hn)
  refine ⟨?_, ?_, ?_, ?_⟩
  · intro sym side hne
    have hcount := hm.counted sym side (hact hne)
    rw [hid]
    exact ⟨hcount.1, lt_of_lt_of_le hcount.2 hseed⟩
  · intro sym side hn
    rw [hid]
    exact hm.idle sym side ((hnone sym side).mp hn)
  · intro sym side sym' side' hne hne' heq
    rw [hid, hid] at heq
    exact hm.apart sym side sym' side' (hact hne) (hact hne') heq
  · intro hzero
    rw [hzero] at hseed
    exact hm.seed (UInt64.toNat_inj.mp (Nat.le_zero.mp hseed))

/-- INTERNAL: a placed order stores a new id.
SRCLINE: src/strategy/market_maker.hpp:116-128 -/
theorem placed {cfg : EngineConfig} {env : MdEnv} {sym : Fin kMaxSymbols} {side : OrdSide} {px : ℚ}
    {tMd : ℤ} (hm : SlotIds m) (hroom : m.clOrdSeed.toNat + 1 < 2 ^ 64) :
    SlotIds (m.bumpSeed.setSlot sym side
      (placedQuote m sym side (newCmd cfg env m sym side px tMd))) := by
  have hseed : (m.bumpSeed.setSlot sym side (placedQuote m sym side
      (newCmd cfg env m sym side px tMd))).clOrdSeed.toNat = m.clOrdSeed.toNat + 1 :=
    toNat_clOrdSeed_bumpSeed hroom
  refine ⟨?_, ?_, ?_, ?_⟩
  · intro sym' side' hne
    rw [hseed]
    rw [slot_setSlot] at hne ⊢
    split at hne
    · next hslot =>
      rw [if_pos hslot]
      exact ⟨hm.seed, Nat.lt_succ_self _⟩
    · next hslot =>
      rw [if_neg hslot]
      have hcount := hm.counted sym' side' hne
      exact ⟨hcount.1, Nat.lt_succ_of_lt hcount.2⟩
  · intro sym' side' hn
    rw [slot_setSlot] at hn ⊢
    split at hn
    · cases hn
    · next hslot =>
      rw [if_neg hslot]
      exact hm.idle sym' side' hn
  · intro sym₁ side₁ sym₂ side₂ hne₁ hne₂ heq
    rw [slot_setSlot] at hne₁ hne₂
    rw [slot_setSlot, slot_setSlot] at heq
    by_cases hslot₁ : sym₁ = sym ∧ side₁ = side
    · by_cases hslot₂ : sym₂ = sym ∧ side₂ = side
      · exact ⟨hslot₁.1.trans hslot₂.1.symm, hslot₁.2.trans hslot₂.2.symm⟩
      · rw [if_pos hslot₁, if_neg hslot₂] at heq
        exact absurd heq.symm (hm.ne_seed sym₂ side₂)
    · rw [if_neg hslot₁] at heq hne₁
      by_cases hslot₂ : sym₂ = sym ∧ side₂ = side
      · rw [if_pos hslot₂] at heq
        exact absurd heq (hm.ne_seed sym₁ side₁)
      · rw [if_neg hslot₂] at heq hne₂
        exact hm.apart sym₁ side₁ sym₂ side₂ hne₁ hne₂ heq
  · intro hzero
    rw [hzero] at hseed
    simp at hseed

/-- INTERNAL: a started cancel moves no id.
SRCLINE: src/strategy/market_maker.hpp:131-146 -/
theorem canceled {sym : Fin kMaxSymbols} {side : OrdSide} (hm : SlotIds m)
    (hroom : m.clOrdSeed.toNat + 1 < 2 ^ 64) (hlive : (m.slot sym side).state = .live) :
    SlotIds (m.bumpSeed.setSlot sym side { m.slot sym side with state := .pendingCancel }) := by
  refine hm.of_same ?_ (state_canceled_eq_none hlive) ?_
  · exact fun sym' side' => clOrdId_canceled m sym sym' side side'
  · exact (clOrdSeed_lt_bumpSeed hroom).le

/-- INTERNAL: a report that names an order brings no idle slot to life. -/
theorem idle_takeExec (hm : SlotIds m) (sym : Fin kMaxSymbols) {e : ExecEvent}
    (hid : e.clOrdId ≠ 0) (sym' : Fin kMaxSymbols) (side : OrdSide)
    (hnone : (m.slot sym' side).state = .none) :
    ((takeExec m sym e).slot sym' side).state = .none := by
  rcases slot_takeExec m sym e sym' side with hs | ⟨rfl, heq, -⟩
  · rw [hs]
    exact hnone
  · rw [hm.idle sym' side hnone] at heq
    exact absurd heq.symm hid

/-- INTERNAL: a report moves no id but frees slots, if it brings no idle slot to life.
SRCLINE: src/oms/order_manager.hpp:26-47 -/
theorem takeExec {sym : Fin kMaxSymbols} {e : ExecEvent} (hm : SlotIds m)
    (hidle : ∀ sym' side, (m.slot sym' side).state = .none →
      ((takeExec m sym e).slot sym' side).state = .none) : SlotIds (takeExec m sym e) := by
  have hid : ∀ sym' side, ((Interface.takeExec m sym e).slot sym' side).state ≠ .none →
      ((Interface.takeExec m sym e).slot sym' side).clOrdId = (m.slot sym' side).clOrdId :=
    fun sym' side hne => (slot_takeExec_working hne).1
  have hact : ∀ {sym' side}, ((Interface.takeExec m sym e).slot sym' side).state ≠ .none →
      (m.slot sym' side).state ≠ .none := fun hne hn => hne (hidle _ _ hn)
  refine ⟨?_, ?_, ?_, hm.seed⟩
  · intro sym' side hne
    rw [hid sym' side hne]
    exact hm.counted sym' side (hact hne)
  · intro sym' side hn
    rcases slot_takeExec m sym e sym' side with hs | ⟨rfl, -, hs⟩
    · rw [hs] at hn ⊢
      exact hm.idle sym' side hn
    · have hzero : (m.slot sym' side).state = .none → (m.slot sym' side).clOrdId = 0 :=
        hm.idle sym' side
      rw [hs] at hn ⊢
      unfold Quote.onExec at *
      cases hk : e.kind <;> simp_all
  · intro sym₁ side₁ sym₂ side₂ hne₁ hne₂ heq
    rw [hid _ _ hne₁, hid _ _ hne₂] at heq
    exact hm.apart sym₁ side₁ sym₂ side₂ (hact hne₁) (hact hne₂) heq

end SlotIds

/-- INTERNAL: a market-data turn counts the ids it spends.
SRCLINE: src/strategy/market_maker.hpp:164 -/
theorem clOrdSeed_mdIter {cfg : EngineConfig} {env : MdEnv} {m m' : MarketMaker} {ev : MdEvent}
    {es : List Effect} {n : ℕ} (h : m.mdIter cfg env ev = some (m', es))
    (hn : m.clOrdSeed = UInt64.ofNat n) : m'.clOrdSeed = UInt64.ofNat (n + spent es) := by
  have hkept : KeptFresh cfg (fun _ => True) (fun _ _ _ => True) fun _ _ => True :=
    ⟨fun _ _ _ _ _ _ => trivial, fun _ _ _ _ _ => trivial, fun _ _ _ _ _ => trivial,
      fun _ _ _ _ _ _ _ _ _ _ _ => trivial, fun _ _ _ _ _ _ _ _ _ _ _ => trivial⟩
  have hstart : Unwrapped n (fun _ _ => True) m [] := ⟨hn, fun _ => trivial⟩
  exact ((hkept.keptMd n).mdIter h (fun _ _ => trivial) (fun _ _ _ _ _ => trivial) hstart).1

/-- INTERNAL: **the rule for one market-data turn** in which the counter, at `n` before it, does
not wrap. -/
theorem KeptFresh.mdIter {cfg : EngineConfig} {S : Fin kMaxSymbols → Prop}
    {A : Fin kMaxSymbols → OrdSide → Quote → Prop} {I : MarketMaker → List Effect → Prop}
    (hI : KeptFresh cfg S A I) {env : MdEnv} {m m' : MarketMaker} {ev : MdEvent} {es : List Effect}
    {n : ℕ} (h : m.mdIter cfg env ev = some (m', es)) (hn : m.clOrdSeed = UInt64.ofNat n)
    (hS : ∀ sym : Fin kMaxSymbols, sym.val = ev.symbolId → S sym)
    (hA : ∀ (sym : Fin kMaxSymbols) (side : OrdSide), sym.val = ev.symbolId →
      (m.slot sym side).state = .live → (m'.slot sym side).state = .pendingCancel →
      A sym side (m.slot sym side))
    (hm : I m []) (hlt : n + spent es < 2 ^ 64) : I m' es := by
  have hstart : Unwrapped n I m [] := ⟨hn, fun _ => hm⟩
  exact ((hI.keptMd n).mdIter h hS hA hstart).2 hlt

end MmEngine.Interface
