import MmEngine.Interface.DecisionRules
import MmEngine.Interface.OrderIds
import Mathlib.Data.List.Nodup

/-!
# One symbol of the strategy, up to its order ids

All symbols share the id counter, the order ring, the snapshot timer and the stream of reports.
What a turn does to one symbol depends on nothing else of the strategy than the book and the two
slots of that symbol, and on the ids the counter is at.  `SameFor` relates two strategies that
agree on a symbol up to a renaming of the ids; `SameFor.step` says that a turn on the symbol
keeps the agreement and shows the same commands, if the renaming takes the ids one counter is at
to those the other is at; and `SameFor.skip_left` and `SameFor.skip_right` say that a turn on any
other symbol does not touch it.
-/

set_option autoImplicit false

namespace MmEngine.Interface

open MmEngine.Model MmEngine.Model.MarketMaker MmEngine.Lib

/-- The order ring has room for whatever the turn decides. -/
def NeverFull : Input → Prop
  | .exec _ => True
  | .md _ env => ∀ side, env.room side = true

/-- The slot with its id renamed. -/
def renameQuote (ρ : UInt64 → UInt64) (q : Quote) : Quote := { q with clOrdId := ρ q.clOrdId }

/-- The same command up to the ids and the time it was decided. -/
def SameCmd (ρ : UInt64 → UInt64) (c c' : OrderCmd) : Prop :=
  c' = { c with clOrdId := ρ c.clOrdId, origClOrdId := ρ c.origClOrdId, tDecidedNs := c'.tDecidedNs }

/-- The same event: a report with its id renamed, or a snapshot met by a clock of its own. -/
inductive SameInput (ρ : UInt64 → UInt64) : Input → Input → Prop where
  | exec (e : ExecEvent) : SameInput ρ (.exec e) (.exec { e with clOrdId := ρ e.clOrdId })
  | md (ev : MdEvent) (env env' : MdEnv) : SameInput ρ (.md ev env) (.md ev env')

/-- The two strategies agree on the symbol: the same book, and the same slots up to the ids. -/
structure SameFor (ρ : UInt64 → UInt64) (sym : Fin kMaxSymbols) (m m' : MarketMaker) : Prop where
  book : m'.books sym = m.books sym
  slot : ∀ side, m'.slot sym side = renameQuote ρ (m.slot sym side)

/-- The commands for the symbol that a history pushed. -/
def pushedFor (sym : Fin kMaxSymbols) (es : List Effect) : List OrderCmd :=
  (pushedCmds es).filter fun c => c.symbolId = sym.val

theorem pushedFor_append (sym : Fin kMaxSymbols) (es es' : List Effect) :
    pushedFor sym (es ++ es') = pushedFor sym es ++ pushedFor sym es' := by
  unfold pushedFor
  rw [pushedCmds_append, List.filter_append]

theorem SameInput.symbolId {ρ : UInt64 → UInt64} {i j : Input} (h : SameInput ρ i j) :
    j.symbolId = i.symbolId := by
  cases h <;> rfl

/-! ## One side -/

section Side

variable {ρ : UInt64 → UInt64} (h0 : ρ 0 = 0) (cfg : EngineConfig) (env env' : MdEnv)
  (sym : Fin kMaxSymbols) (side : OrdSide) (ob : OrderBook) (tMd : ℤ) (id id' : UInt64) (q : Quote)

include h0 in
/-- INTERNAL: the command of a renamed slot. -/
theorem sideCmd_rename :
    sideCmd cfg env' sym side ob tMd id' (renameQuote ρ q) =
      (sideCmd cfg env sym side ob tMd id q).map fun c =>
        { c with clOrdId := id', origClOrdId := ρ c.origClOrdId, tDecidedNs := env'.now side } := by
  have hsame : decision cfg ob side (renameQuote ρ q) = decision cfg ob side q := rfl
  unfold sideCmd
  rw [hsame]
  cases decision cfg ob side q with
  | stay => rfl
  | place => simp [h0]
  | withdraw => rfl

include h0 in
theorem length_sideCmd_rename :
    (sideCmd cfg env' sym side ob tMd id' (renameQuote ρ q)).toList.length =
      (sideCmd cfg env sym side ob tMd id q).toList.length := by
  rw [sideCmd_rename h0 cfg env env' sym side ob tMd id id' q]
  cases sideCmd cfg env sym side ob tMd id q <;> rfl

include h0 in
/-- INTERNAL: **one side of a turn** on a renamed slot: the same command is accepted, and the
slots still agree. -/
theorem side_rename (ok : Bool)
    (hid : ok = true → (sideCmd cfg env sym side ob tMd id q).isSome = true → ρ id = id') :
    answered ok (renameQuote ρ q) (sideCmd cfg env' sym side ob tMd id' (renameQuote ρ q)) =
        renameQuote ρ (answered ok q (sideCmd cfg env sym side ob tMd id q)) ∧
      List.Forall₂ (SameCmd ρ) (sent ok (sideCmd cfg env sym side ob tMd id q))
        (sent ok (sideCmd cfg env' sym side ob tMd id' (renameQuote ρ q))) := by
  rw [sideCmd_rename h0 cfg env env' sym side ob tMd id id' q]
  cases hc : sideCmd cfg env sym side ob tMd id q with
  | none =>
    cases ok
    · exact ⟨rfl, List.Forall₂.nil⟩
    · exact ⟨rfl, List.Forall₂.nil⟩
  | some c =>
    cases ok with
    | false => exact ⟨rfl, List.Forall₂.nil⟩
    | true =>
      obtain rfl := hid rfl (by rw [hc]; rfl)
      obtain ⟨-, -, rfl⟩ := sideCmd_names hc
      constructor
      · unfold answered afterCmd renameQuote
        simp only [Option.map_some, if_true]
        cases c.type <;> rfl
      · exact List.Forall₂.cons rfl List.Forall₂.nil

end Side

/-! ## The ids of a turn -/

/-- The `n` ids a counter at `x` goes through. -/
def idsFrom (x : UInt64) (n : ℕ) : List UInt64 :=
  (List.range n).map fun k => x + UInt64.ofNat k

theorem idsFrom_add (x : UInt64) (a b : ℕ) :
    idsFrom x (a + b) = idsFrom x a ++ idsFrom (x + UInt64.ofNat a) b := by
  unfold idsFrom
  rw [List.range_add, List.map_append, List.map_map]
  congr 1
  apply List.map_congr_left
  intro k _
  rw [Function.comp_apply, UInt64.ofNat_add, UInt64.add_assoc]

@[simp] theorem length_idsFrom (x : UInt64) (n : ℕ) : (idsFrom x n).length = n := by
  simp [idsFrom]

theorem mem_idsFrom {x y : UInt64} {n : ℕ} : y ∈ idsFrom x n ↔ ∃ k < n, x + UInt64.ofNat k = y := by
  simp [idsFrom]

theorem nodup_idsFrom {x : UInt64} {n : ℕ} (hn : n ≤ 2 ^ 64) : (idsFrom x n).Nodup := by
  unfold idsFrom
  apply List.Nodup.map_on _ List.nodup_range
  intro a ha b hb heq
  rw [List.mem_range] at ha hb
  have heq : UInt64.ofNat a = UInt64.ofNat b := (UInt64.add_right_inj x).mp heq
  rcases Nat.le_total a b with hle | hle
  · exact (ofNat_eq_iff a b hle (by omega)).mp heq
  · exact ((ofNat_eq_iff b a hle (by omega)).mp heq.symm).symm

/-- INTERNAL: a counter that starts above `0` and does not wrap never gives out `0`. -/
theorem zero_notMem_idsFrom {x : UInt64} {n : ℕ} (hx : x ≠ 0) (hn : x.toNat + n ≤ 2 ^ 64) :
    (0 : UInt64) ∉ idsFrom x n := by
  rw [mem_idsFrom]
  rintro ⟨k, hk, hzero⟩
  have hpos : x.toNat ≠ 0 := fun h => hx (UInt64.toNat_inj.mp h)
  have hsum := congrArg UInt64.toNat hzero
  rw [UInt64.toNat_add, UInt64.toNat_ofNat', UInt64.toNat_zero] at hsum
  omega

/-- INTERNAL: a renaming of consecutive ids into consecutive ids, id by id. -/
theorem map_idsFrom {ρ : UInt64 → UInt64} {x y : UInt64} {n : ℕ} :
    (idsFrom x n).map ρ = idsFrom y n ↔
      ∀ k < n, ρ (x + UInt64.ofNat k) = y + UInt64.ofNat k := by
  unfold idsFrom
  rw [List.map_map, List.map_inj_left]
  simp only [List.mem_range, Function.comp_apply]

section Ids

variable {cfg : EngineConfig} {m m' : MarketMaker} {i : Input} {es : List Effect}

/-- INTERNAL: a snapshot spends one id for each side that decides. -/
theorem Decides.spent_eq {env : MdEnv} {ev : MdEvent} {sym : Fin kMaxSymbols}
    (hd : Decides cfg env m sym ev m' es) :
    spent es = (buyCmd cfg env m sym ev).toList.length + (sellCmd cfg env m sym ev).toList.length := by
  obtain ⟨ss, hss, rfl⟩ := hd.shown
  have hside : ∀ ok q c, spent (sideEffects ok q c) = c.toList.length := by
    intro ok q c
    cases c with
    | none => rfl
    | some c => cases ok <;> rfl
  have hquiet : spent ss = 0 := by
    apply List.countP_eq_zero.mpr
    intro x hx
    obtain ⟨s, rfl⟩ := hss x hx
    simp [spendsId]
  have hcons : ∀ es, spent (.took ev :: es) = spent es := fun _ => rfl
  rw [List.cons_append, hcons, spent_append, spent_append, hside, hside, hquiet, Nat.add_zero]

theorem spend_eq (id : UInt64) (c : Option OrderCmd) :
    spend id c = id + UInt64.ofNat c.toList.length := by
  cases c with
  | none =>
    show id = id + 0
    rw [UInt64.add_zero]
  | some c => rfl

/-- INTERNAL: a turn moves the counter by the ids it spends. -/
theorem strategyStep_seed (h : strategyStep cfg m i = some (m', es)) :
    m'.clOrdSeed = m.clOrdSeed + UInt64.ofNat (spent es) := by
  cases i with
  | exec e =>
    obtain ⟨sym, -, rfl, rfl⟩ := execIter_takeExec h
    have hnone : spent (.consumed e :: if e.kind.isFill then [.trade e, .logged (execLog e)] else []) =
        0 := by
      split <;> rfl
    rw [hnone]
    exact (UInt64.add_zero _).symm
  | md ev env =>
    have hd := mdIter_decides h ⟨ev.symbolId, symbolId_lt_of_mdIter h⟩ rfl
    rw [hd.seed, hd.spent_eq, spend_eq, spend_eq, UInt64.ofNat_add, UInt64.add_assoc]

/-- INTERNAL: **the ids of a turn** that finds room are those the counter goes through. -/
theorem strategyStep_ids (h : strategyStep cfg m i = some (m', es)) (hdry : cfg.dryRun = false)
    (hroom : NeverFull i) :
    (pushedCmds es).map OrderCmd.clOrdId = idsFrom m.clOrdSeed (spent es) := by
  cases i with
  | exec e =>
    obtain ⟨sym, -, rfl, rfl⟩ := execIter_takeExec h
    split <;> rfl
  | md ev env =>
    have hd := mdIter_decides h ⟨ev.symbolId, symbolId_lt_of_mdIter h⟩ rfl
    have hok : ∀ side, accepts cfg env side = true := by
      intro side
      unfold accepts
      rw [hdry, hroom side]
      rfl
    have hsent : ∀ c, sent true c = c.toList := fun _ => rfl
    rw [hd.cmds, hd.spent_eq, hok, hok, hsent, hsent]
    cases hb : buyCmd cfg env m ⟨ev.symbolId, symbolId_lt_of_mdIter h⟩ ev with
    | none =>
      cases hs : sellCmd cfg env m ⟨ev.symbolId, symbolId_lt_of_mdIter h⟩ ev with
      | none => rfl
      | some c =>
        obtain ⟨-, -, hid⟩ := sideCmd_names hs
        simp [hid, hb, spend, idsFrom]
    | some b =>
      obtain ⟨-, -, hbid⟩ := sideCmd_names hb
      cases hs : sellCmd cfg env m ⟨ev.symbolId, symbolId_lt_of_mdIter h⟩ ev with
      | none => simp [hbid, idsFrom]
      | some c =>
        obtain ⟨-, -, hid⟩ := sideCmd_names hs
        simp [hid, hbid, hb, spend, idsFrom, List.range_succ]

end Ids

/-! ## Turns on the symbol, and turns on others -/

section Turns

variable {ρ : UInt64 → UInt64} {cfg : EngineConfig} {sym : Fin kMaxSymbols}
  {m m' m₁ : MarketMaker} {i j : Input} {es : List Effect}

/-- INTERNAL: a turn on another symbol leaves the symbol alone and pushes nothing for it.
SRCLINE: src/strategy/market_maker.hpp:71, src/oms/order_manager.hpp:27-29 -/
theorem strategyStep_other (h : strategyStep cfg m i = some (m₁, es)) (hne : i.symbolId ≠ sym.val) :
    m₁.books sym = m.books sym ∧ (∀ side, m₁.slot sym side = m.slot sym side) ∧
      pushedFor sym es = [] := by
  cases i with
  | exec e =>
    obtain ⟨sym', hsym', rfl, rfl⟩ := execIter_takeExec h
    refine ⟨rfl, ?_, ?_⟩
    · intro side
      rw [slot_takeExec_eq, if_neg]
      rintro ⟨rfl, -⟩
      exact hne hsym'.symm
    · split <;> rfl
  | md ev env =>
    have hlt := symbolId_lt_of_mdIter h
    have hd := mdIter_decides h ⟨ev.symbolId, hlt⟩ rfl
    have hsym : sym ≠ ⟨ev.symbolId, hlt⟩ := by
      rintro rfl
      exact hne rfl
    refine ⟨?_, fun side => hd.other sym side hsym, ?_⟩
    · rw [hd.books, Function.update_of_ne hsym]
    · apply List.filter_eq_nil_iff.mpr
      intro c hc hsymc
      rcases hd.mem_cmds.mp hc with ⟨-, hcmd⟩ | ⟨-, hcmd⟩
      · have := (sideCmd_names hcmd).1
        rw [decide_eq_true_eq] at hsymc
        exact hne (this.symm.trans hsymc)
      · have := (sideCmd_names hcmd).1
        rw [decide_eq_true_eq] at hsymc
        exact hne (this.symm.trans hsymc)

/-- INTERNAL: all a turn on the symbol pushes is for the symbol. -/
theorem strategyStep_own (h : strategyStep cfg m i = some (m₁, es)) (hsym : i.symbolId = sym.val) :
    pushedFor sym es = pushedCmds es := by
  apply List.filter_eq_self.mpr
  intro c hc
  rw [decide_eq_true_eq]
  cases i with
  | exec e =>
    obtain ⟨sym', -, rfl, rfl⟩ := execIter_takeExec h
    split at hc <;> cases hc
  | md ev env =>
    have hd := mdIter_decides h sym hsym.symm
    rcases hd.mem_cmds.mp hc with ⟨-, hcmd⟩ | ⟨-, hcmd⟩
    · exact (sideCmd_names hcmd).1
    · exact (sideCmd_names hcmd).1

/-- The comparison is about what the symbol has only. -/
theorem SameFor.congr {n n' : MarketMaker} (hs : SameFor ρ sym m m') (hbook : n.books sym = m.books sym)
    (hslot : ∀ side, n.slot sym side = m.slot sym side) (hbook' : n'.books sym = m'.books sym)
    (hslot' : ∀ side, n'.slot sym side = m'.slot sym side) : SameFor ρ sym n n' := by
  constructor
  · rw [hbook', hbook]
    exact hs.book
  · intro side
    rw [hslot', hslot]
    exact hs.slot side

theorem SameFor.skip_left (hs : SameFor ρ sym m m') (h : strategyStep cfg m i = some (m₁, es))
    (hne : i.symbolId ≠ sym.val) : SameFor ρ sym m₁ m' := by
  obtain ⟨hbook, hslot, -⟩ := strategyStep_other h hne
  exact hs.congr hbook hslot rfl fun _ => rfl

theorem SameFor.skip_right (hs : SameFor ρ sym m m') (h : strategyStep cfg m' j = some (m₁, es))
    (hne : j.symbolId ≠ sym.val) : SameFor ρ sym m m₁ := by
  obtain ⟨hbook, hslot, -⟩ := strategyStep_other h hne
  exact hs.congr rfl (fun _ => rfl) hbook hslot

/-- INTERNAL: a report on the symbol.
SRCLINE: src/oms/order_manager.hpp:26-47 -/
theorem SameFor.takeExec (hρ : Function.Injective ρ) (h0 : ρ 0 = 0) (hs : SameFor ρ sym m m')
    (e : ExecEvent) :
    SameFor ρ sym (takeExec m sym e) (takeExec m' sym { e with clOrdId := ρ e.clOrdId }) := by
  refine ⟨hs.book, ?_⟩
  intro side
  have hid : ∀ side', (m'.slot sym side').clOrdId = ρ e.clOrdId ↔
      (m.slot sym side').clOrdId = e.clOrdId := by
    intro side'
    rw [hs.slot side']
    exact hρ.eq_iff
  have hpick : Picks m' sym { e with clOrdId := ρ e.clOrdId } side ↔ Picks m sym e side := by
    unfold Picks
    rw [hid side, ne_eq, hid .buy]
  rw [slot_takeExec_eq, slot_takeExec_eq]
  by_cases hp : Picks m sym e side
  · rw [if_pos ⟨rfl, hpick.mpr hp⟩, if_pos ⟨rfl, hp⟩, hs.slot side]
    unfold Quote.onExec renameQuote
    cases e.kind <;> simp [h0]
  · rw [if_neg (fun hc => hp (hpick.mp hc.2)), if_neg (fun hc => hp hc.2)]
    exact hs.slot side

/-- INTERNAL: a snapshot on the symbol.
SRCLINE: src/strategy/market_maker.hpp:66-147 -/
theorem SameFor.mdIter (h0 : ρ 0 = 0) (hs : SameFor ρ sym m m') {ev : MdEvent} {env env' : MdEnv}
    (hsym : sym.val = ev.symbolId) (hroom : ∀ side, env.room side = true)
    (hroom' : ∀ side, env'.room side = true) {m₂ m₂' : MarketMaker} {es' : List Effect}
    (h : m.mdIter cfg env ev = some (m₂, es)) (h' : m'.mdIter cfg env' ev = some (m₂', es'))
    (hids : cfg.dryRun = false → ∀ k < spent es,
      ρ (m.clOrdSeed + UInt64.ofNat k) = m'.clOrdSeed + UInt64.ofNat k) :
    SameFor ρ sym m₂ m₂' ∧ List.Forall₂ (SameCmd ρ) (pushedCmds es) (pushedCmds es') ∧
      spent es' = spent es := by
  have hd := mdIter_decides h sym hsym
  have hd' := mdIter_decides h' sym hsym
  have hok : ∀ side, accepts cfg env' side = accepts cfg env side := by
    intro side
    unfold accepts
    rw [hroom side, hroom' side]
  have hdry : ∀ side, accepts cfg env side = true → cfg.dryRun = false := by
    intro side hacc
    unfold accepts at hacc
    rw [hroom side] at hacc
    simpa using hacc
  have hbook : nextBook cfg m' sym ev = nextBook cfg m sym ev := by
    unfold nextBook
    rw [hs.book]
  have hspent := hd.spent_eq
  -- the commands of the second strategy, as those of the first on renamed slots
  have hbcmd : buyCmd cfg env' m' sym ev = sideCmd cfg env' sym .buy (nextBook cfg m sym ev)
      ev.tRecvNs m'.clOrdSeed (renameQuote ρ (m.slot sym .buy)) := by
    unfold buyCmd
    rw [hbook, hs.slot]
  have hscmd : sellCmd cfg env' m' sym ev = sideCmd cfg env' sym .sell (nextBook cfg m sym ev)
      ev.tRecvNs (spend m'.clOrdSeed (buyCmd cfg env' m' sym ev))
      (renameQuote ρ (m.slot sym .sell)) := by
    unfold sellCmd
    rw [hbook, hs.slot]
  have hblen : (buyCmd cfg env' m' sym ev).toList.length =
      (buyCmd cfg env m sym ev).toList.length := by
    rw [hbcmd]
    exact length_sideCmd_rename h0 cfg env env' sym .buy _ _ _ _ _
  have hslen : (sellCmd cfg env' m' sym ev).toList.length =
      (sellCmd cfg env m sym ev).toList.length := by
    rw [hscmd]
    exact length_sideCmd_rename h0 cfg env env' sym .sell _ _ _ _ _
  obtain ⟨hbslot, hbcmds⟩ := side_rename h0 cfg env env' sym .buy (nextBook cfg m sym ev)
    ev.tRecvNs m.clOrdSeed m'.clOrdSeed (m.slot sym .buy) (accepts cfg env .buy) (by
      intro hacc hsome
      have hone : (buyCmd cfg env m sym ev).toList.length = 1 := by
        obtain ⟨c, hc⟩ := Option.isSome_iff_exists.mp hsome
        unfold buyCmd
        rw [hc]
        rfl
      have hzero := hids (hdry .buy hacc) 0 (by omega)
      simpa using hzero)
  obtain ⟨hsslot, hscmds⟩ := side_rename h0 cfg env env' sym .sell (nextBook cfg m sym ev)
    ev.tRecvNs (spend m.clOrdSeed (buyCmd cfg env m sym ev))
    (spend m'.clOrdSeed (buyCmd cfg env' m' sym ev)) (m.slot sym .sell) (accepts cfg env .sell) (by
      intro hacc hsome
      have hone : (sellCmd cfg env m sym ev).toList.length = 1 := by
        obtain ⟨c, hc⟩ := Option.isSome_iff_exists.mp hsome
        unfold sellCmd
        rw [hc]
        rfl
      rw [spend_eq, spend_eq, hblen]
      exact hids (hdry .sell hacc) _ (by omega))
  refine ⟨⟨?_, ?_⟩, ?_, ?_⟩
  · rw [hd.books, hd'.books, Function.update_self, Function.update_self, hbook]
  · intro side
    cases side with
    | buy =>
      rw [hd'.buy, hd.buy, hok, hbcmd, hs.slot]
      exact hbslot
    | sell =>
      rw [hd'.sell, hd.sell, hok, hscmd, hs.slot]
      exact hsslot
  · rw [hd.cmds, hd'.cmds, hok, hok, hscmd, hbcmd]
    rw [hbcmd] at hscmds
    exact List.rel_append hbcmds hscmds
  · rw [hspent, hd'.spent_eq, hblen, hslen]

/-- INTERNAL: **a turn on the symbol** keeps the agreement and shows the same commands, if the
renaming takes the ids of the turn to those the other counter is at. -/
theorem SameFor.step (hρ : Function.Injective ρ) (h0 : ρ 0 = 0) (hs : SameFor ρ sym m m')
    (hij : SameInput ρ i j) (hi : NeverFull i) (hj : NeverFull j) (hsym : i.symbolId = sym.val)
    (h : strategyStep cfg m i = some (m₁, es))
    (hids : cfg.dryRun = false → ∀ k < spent es,
      ρ (m.clOrdSeed + UInt64.ofNat k) = m'.clOrdSeed + UInt64.ofNat k) :
    ∃ m₁' es', strategyStep cfg m' j = some (m₁', es') ∧ SameFor ρ sym m₁ m₁' ∧
      List.Forall₂ (SameCmd ρ) (pushedCmds es) (pushedCmds es') ∧ spent es' = spent es := by
  have hlt : j.symbolId < kMaxSymbols := by
    rw [hij.symbolId, hsym]
    exact sym.isLt
  obtain ⟨m₁', es', h'⟩ := strategyStep_total cfg m' j hlt
  refine ⟨m₁', es', h', ?_⟩
  cases hij with
  | exec e =>
    obtain ⟨sym₁, hsym₁, rfl, rfl⟩ := execIter_takeExec h
    obtain ⟨sym₂, hsym₂, rfl, rfl⟩ := execIter_takeExec h'
    obtain rfl : sym₁ = sym := Fin.ext (hsym₁.trans hsym)
    obtain rfl : sym₂ = sym₁ := Fin.ext (hsym₂.trans hsym)
    refine ⟨hs.takeExec hρ h0 e, ?_, ?_⟩
    · dsimp only
      cases e.kind.isFill <;> exact List.Forall₂.nil
    · dsimp only
      cases e.kind.isFill <;> rfl
  | md ev env env' => exact hs.mdIter h0 hsym.symm hi hj h h' hids

end Turns

end MmEngine.Interface
