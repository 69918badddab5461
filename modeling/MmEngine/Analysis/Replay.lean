import MmEngine.Interface.DecisionRules

/-!
# A snapshot that is repeated

The decision on a snapshot is a function of the book it leaves and of the two slots of its
symbol.  A command that is accepted leaves its slot in flight, and a slot in flight is left
alone; where nothing was decided, nothing is decided again.  So after one turn with room for its
commands both slots rest, and every further turn on the same snapshot finds the same book and
the same slots (`replay_idempotent`).  In a dry run the slots never move.
-/

set_option autoImplicit false

namespace MmEngine.Analysis

open MmEngine.Model MmEngine.Lib MmEngine.Interface

/-- The slot does not move on the book: nothing is decided for it, or this is a dry run. -/
def Rests (cfg : EngineConfig) (ob : OrderBook) (side : OrdSide) (q : Quote) : Prop :=
  cfg.dryRun = true ∨ decision cfg ob side q = .stay

/-- The snapshot is in the book of its symbol, and both slots rest on it. -/
structure SettledOn (cfg : EngineConfig) (sym : Fin kMaxSymbols) (ev : MdEvent) (m : MarketMaker) : Prop where
  book : nextBook cfg m sym ev = m.books sym
  rests : ∀ side, Rests cfg (m.books sym) side (m.slot sym side)

/-! ## One slot -/

theorem decision_of_inFlight {cfg : EngineConfig} {ob : OrderBook} {side : OrdSide} {q : Quote}
    (hq : InFlight q) : decision cfg ob side q = .stay := by
  unfold decision
  rcases hq with hq | hq <;> rw [hq] <;> simp

theorem afterCmd_inFlight (q : Quote) (c : OrderCmd) : InFlight (afterCmd q c) := by
  unfold afterCmd
  cases c.type with
  | new => exact Or.inl rfl
  | cancel => exact Or.inr rfl

section Side

variable {cfg : EngineConfig} {env : MdEnv} {sym : Fin kMaxSymbols} {side : OrdSide} {ob : OrderBook}
  {tMd : ℤ} {id : UInt64} {q : Quote}

theorem sideCmd_of_stay (h : decision cfg ob side q = .stay) :
    sideCmd cfg env sym side ob tMd id q = none := by
  unfold sideCmd
  rw [h]

/-- INTERNAL: **a slot rests once its command was accepted**, or none was decided, or nothing is
sent anyway. -/
theorem rests_answered
    (hroom : ∀ c, sideCmd cfg env sym side ob tMd id q = some c → accepts cfg env side = false →
      cfg.dryRun = true) :
    Rests cfg ob side (answered (accepts cfg env side) q (sideCmd cfg env sym side ob tMd id q)) := by
  cases hc : sideCmd cfg env sym side ob tMd id q with
  | none =>
    right
    show decision cfg ob side q = .stay
    unfold sideCmd at hc
    cases hd : decision cfg ob side q with
    | stay => rfl
    | place =>
      rw [hd] at hc
      cases hc
    | withdraw =>
      rw [hd] at hc
      cases hc
  | some c =>
    cases hok : accepts cfg env side with
    | true => exact Or.inr (decision_of_inFlight (afterCmd_inFlight q c))
    | false => exact Or.inl (hroom c hc hok)

/-- INTERNAL: a slot that rests stays as it is, and neither pushes nor logs. -/
theorem answered_of_rests (h : Rests cfg ob side q) (env : MdEnv) (sym : Fin kMaxSymbols) (tMd : ℤ)
    (id : UInt64) :
    answered (accepts cfg env side) q (sideCmd cfg env sym side ob tMd id q) = q ∧
      ∀ x ∈ sideEffects (accepts cfg env side) q (sideCmd cfg env sym side ob tMd id q),
        ∃ c, x = .refused c := by
  rcases h with hdry | hstay
  · have hok : accepts cfg env side = false := by simp [accepts, hdry]
    rw [hok]
    cases sideCmd cfg env sym side ob tMd id q with
    | none => exact ⟨rfl, by simp [sideEffects]⟩
    | some c => exact ⟨rfl, by simp [sideEffects]⟩
  · rw [sideCmd_of_stay hstay]
    exact ⟨rfl, by simp [sideEffects]⟩

end Side

/-! ## Turns -/

/-- An effect that neither pushes a command nor logs. -/
def Silent (x : Effect) : Prop := (∀ c, x ≠ .pushed c) ∧ ∀ r, x ≠ .logged r

section Turns

variable {cfg : EngineConfig} {env : MdEnv} {m m' : MarketMaker} {ev : MdEvent} {es : List Effect}
  {sym : Fin kMaxSymbols} (hsym : sym.val = ev.symbolId) (h : m.mdIter cfg env ev = some (m', es))

include hsym h

/-- INTERNAL: **a turn with room for its commands settles the strategy on its snapshot.** -/
theorem settledOn_of_mdIter (hroom : ∀ c, .refused c ∈ es → cfg.dryRun = true) :
    SettledOn cfg sym ev m' := by
  have hd := mdIter_decides h sym hsym
  have hbook : m'.books sym = nextBook cfg m sym ev := by
    rw [hd.books, Function.update_self]
  obtain ⟨ss, -, hes⟩ := hd.shown
  refine ⟨hbook.symm, ?_⟩
  intro side
  rw [hbook]
  cases side with
  | buy =>
    rw [hd.buy]
    apply rests_answered
    intro c hc hok
    apply hroom c
    rw [hes, hok, show buyCmd cfg env m sym ev = some c from hc]
    simp [sideEffects]
  | sell =>
    rw [hd.sell]
    apply rests_answered
    intro c hc hok
    apply hroom c
    rw [hes, hok, show sellCmd cfg env m sym ev = some c from hc]
    simp [sideEffects]

/-- INTERNAL: **a settled strategy does nothing on its snapshot.** -/
theorem mdIter_of_settledOn (hm : SettledOn cfg sym ev m) :
    m'.books = m.books ∧ (∀ sym side, m'.slot sym side = m.slot sym side) ∧ ∀ x ∈ es, Silent x := by
  have hd := mdIter_decides h sym hsym
  have hrests := hm.rests
  rw [← hm.book] at hrests
  obtain ⟨hbuy, hbuyEffects⟩ := answered_of_rests (hrests .buy) env sym ev.tRecvNs m.clOrdSeed
  obtain ⟨hsell, hsellEffects⟩ := answered_of_rests (hrests .sell) env sym ev.tRecvNs
    (spend m.clOrdSeed (buyCmd cfg env m sym ev))
  refine ⟨?_, ?_, ?_⟩
  · rw [hd.books, hm.book, Function.update_eq_self]
  · intro sym' side
    by_cases hne : sym' = sym
    · rw [hne]
      cases side with
      | buy => exact hd.buy.trans hbuy
      | sell => exact hd.sell.trans hsell
    · exact hd.other sym' side hne
  · intro x hx
    obtain ⟨ss, hss, hes⟩ := hd.shown
    rw [hes, List.mem_append, List.mem_cons, List.mem_append] at hx
    obtain (rfl | hx | hx) | hx := hx
    · exact ⟨by simp, by simp⟩
    · obtain ⟨c, rfl⟩ := hbuyEffects x hx
      exact ⟨by simp, by simp⟩
    · obtain ⟨c, rfl⟩ := hsellEffects x hx
      exact ⟨by simp, by simp⟩
    · obtain ⟨t, rfl⟩ := hss x hx
      exact ⟨by simp, by simp⟩

end Turns

/-- INTERNAL: with room on both sides a command is refused only in a dry run. -/
theorem dryRun_of_refused {cfg : EngineConfig} {env : MdEnv} {m m' : MarketMaker} {ev : MdEvent}
    {es : List Effect} (h : m.mdIter cfg env ev = some (m', es)) (hroom : ∀ side, env.room side = true)
    {c : OrderCmd} (hc : .refused c ∈ es) : cfg.dryRun = true := by
  obtain ⟨sym, m₁, m₂, es₁, es₂, ss, -, h₁, h₂, -, -, -, rfl, hss⟩ := mdIter_sideSteps h
  have hside : ∀ {side px a b fs}, SideStep cfg env sym side px ev.tRecvNs a b fs → .refused c ∈ fs →
      cfg.dryRun = true := by
    intro side px a b fs hs hmem
    cases hs with
    | idle => cases hmem
    | refused _ _ hshut => exact hshut.resolve_right (by simp [hroom side])
    | placed | canceled => simp at hmem
  simp only [List.cons_append, List.mem_cons, List.mem_append] at hc
  obtain hc | (hc | hc) | hc := hc
  · cases hc
  · exact hside h₁ hc
  · exact hside h₂ hc
  · obtain ⟨s, hs⟩ := hss _ hc
    cases hs

/-- The slots and the books are those of `m₁`, and everything since is silent. -/
structure Unmoved (m₁ m : MarketMaker) (es : List Effect) : Prop where
  books : m.books = m₁.books
  slots : ∀ sym side, m.slot sym side = m₁.slot sym side
  silent : ∀ x ∈ es, Silent x

theorem Unmoved.settledOn {cfg : EngineConfig} {sym : Fin kMaxSymbols} {ev : MdEvent} {m₁ m : MarketMaker}
    {es : List Effect} (hm : Unmoved m₁ m es) (h : SettledOn cfg sym ev m₁) : SettledOn cfg sym ev m := by
  refine ⟨?_, ?_⟩
  · rw [hm.books, ← h.book]
    rfl
  · intro side
    rw [hm.books, hm.slots sym side]
    exact h.rests side

/-- **A repeated snapshot changes nothing.**  For every strategy, every configuration and every
snapshot: once it was processed with room for its commands, any number of further turns on it,
whatever the ring and the clocks do, go through, push no command, log nothing and leave every
slot and every book as they are.
SRCLINE: src/strategy/market_maker.hpp:66-147, src/book/order_book.hpp:32-41 -/
theorem replay_idempotent (cfg : EngineConfig) (env : MdEnv) (m m₁ : MarketMaker) (ev : MdEvent)
    (es₁ : List Effect) (h : m.mdIter cfg env ev = some (m₁, es₁))
    (hroom : ∀ c, .refused c ∈ es₁ → cfg.dryRun = true) (envs : List MdEnv) :
    ∃ m' es, run (recorded (strategyStep cfg)) (m₁, []) (envs.map (.md ev)) = some (m', es) ∧
      pushedCmds es = [] ∧ (∀ r, .logged r ∉ es) ∧ (∀ sym side, m'.slot sym side = m₁.slot sym side) ∧
      m'.books = m₁.books := by
  have hlt := symbolId_lt_of_mdIter h
  let sym : Fin kMaxSymbols := ⟨ev.symbolId, hlt⟩
  have hsettled : SettledOn cfg sym ev m₁ := settledOn_of_mdIter rfl h hroom
  -- the repetitions go through
  have htotal := strategyRun_total cfg (m₁, []) (envs.map (.md ev)) (by
    intro i hi
    obtain ⟨env', -, rfl⟩ := List.mem_map.mp hi
    exact hlt)
  obtain ⟨⟨m', es⟩, hrun⟩ := htotal
  have hguard := (@along_true _ _ (recorded (strategyStep cfg)) (m₁, []) (envs.map (.md ev))).and_mem
    (Q := fun i => ∃ env', i = .md ev env') (by
      intro i hi
      obtain ⟨env', -, rfl⟩ := List.mem_map.mp hi
      exact ⟨env', rfl⟩)
  have hend : Unmoved m₁ m' es := by
    apply run_invariant (I := fun x : MarketMaker × List Effect => Unmoved m₁ x.1 x.2) _
      ⟨rfl, fun _ _ => rfl, by simp⟩ hguard hrun
    rintro ⟨u, hu⟩ i ⟨v, hv⟩ hI ⟨-, env', rfl⟩ hstep
    obtain ⟨es', hes, rfl⟩ := recorded_eq_some.mp hstep
    obtain ⟨hbooks, hslots, hsilent⟩ :=
      mdIter_of_settledOn (show sym.val = ev.symbolId from rfl) hes (hI.settledOn hsettled)
    refine ⟨hbooks.trans hI.books, fun sym side => (hslots sym side).trans (hI.slots sym side), ?_⟩
    intro x hx
    rcases List.mem_append.mp hx with hold | hnew
    · exact hI.silent x hold
    · exact hsilent x hnew
  refine ⟨m', es, hrun, ?_, ?_, hend.slots, hend.books⟩
  · apply List.filterMap_eq_nil_iff.mpr
    intro x hx
    have hx' := hend.silent x hx
    cases x with
    | pushed c => exact absurd rfl (hx'.1 c)
    | consumed e | took ev | refused c | logged r | trade e | snapshot s => rfl
  · intro r hr
    exact (hend.silent _ hr).2 r rfl

/-- A wide snapshot that is processed three times in all. -/
theorem replay_idempotent_twice :
    ∃ m₁ es₁, (MarketMaker.init 0 0).mdIter { tickSize := 1 / 2 } quickEnv (topOfBook 0 100 110) = some (m₁, es₁) ∧
      ∃ m' es, run (recorded (strategyStep { tickSize := 1 / 2 })) (m₁, [])
          [.md (topOfBook 0 100 110) quickEnv, .md (topOfBook 0 100 110) quickEnv] = some (m', es) ∧
        pushedCmds es = [] ∧ (∀ r, .logged r ∉ es) ∧ (∀ sym side, m'.slot sym side = m₁.slot sym side) ∧
        m'.books = m₁.books := by
  obtain ⟨m₁, es₁, h⟩ := strategyStep_total { tickSize := 1 / 2 } (MarketMaker.init 0 0)
    (.md (topOfBook 0 100 110) quickEnv) (by decide)
  refine ⟨m₁, es₁, h, ?_⟩
  exact replay_idempotent { tickSize := 1 / 2 } quickEnv (MarketMaker.init 0 0) m₁ (topOfBook 0 100 110) es₁ h
    (fun c hc => dryRun_of_refused h (fun _ => rfl) hc) [quickEnv, quickEnv]

end MmEngine.Analysis
