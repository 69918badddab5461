import MmEngine.Analysis.OrderIdReuse
import MmEngine.Interface.RenamingRules
import MmEngine.Lib.Renaming

/-!
# Symbols do not see each other

A run on events of many symbols is compared with the run on the events of one of them.  The two
draw different ids from the counter, so they agree up to a renaming: the ids the long run issued
for the symbol go, in order, to the first ids of the short one, and no id that was not issued
moves.  `isolate_run` is the induction over the long run, one turn of the short run for each turn
on the symbol; `lockstep_run` is the induction for two runs on the same events.  Adjacent events
of different symbols commute because each sees its own symbol only, with the ids of the two
turns exchanged.

The renaming has to fix `0`, the id of an empty slot, so the counter must start above `0` and not
wrap.
-/

set_option autoImplicit false

namespace MmEngine.Analysis

open MmEngine.Model MmEngine.Model.MarketMaker MmEngine.Interface MmEngine.Lib

/-- INTERNAL: a turn that goes through is on a known symbol. -/
theorem strategyStep_symbol {cfg : EngineConfig} {m m₁ : MarketMaker} {i : Input} {es : List Effect}
    (h : strategyStep cfg m i = some (m₁, es)) : ∃ sym : Fin kMaxSymbols, i.symbolId = sym.val := by
  cases i with
  | exec e =>
    obtain ⟨sym, hsym, -⟩ := execIter_takeExec h
    exact ⟨sym, hsym.symm⟩
  | md ev env => exact ⟨⟨ev.symbolId, symbolId_lt_of_mdIter h⟩, rfl⟩

/-! ## The ids of a run -/

section Ids

variable {cfg : EngineConfig} {m m₂ : MarketMaker} {is : List Input} {es : List Effect}

/-- INTERNAL: a run moves the counter by the ids it spends. -/
theorem run_seed (hrun : run (recorded (strategyStep cfg)) (m, []) is = some (m₂, es)) :
    m₂.clOrdSeed = m.clOrdSeed + UInt64.ofNat (spent es) := by
  induction is generalizing m es with
  | nil =>
    obtain ⟨rfl, rfl⟩ := Prod.mk.inj (Option.some.inj hrun)
    exact (UInt64.add_zero _).symm
  | cons i is ih =>
    obtain ⟨m₁, e₁, e₂, hstep, hrest, rfl⟩ := run_recorded_cons.mp hrun
    rw [ih hrest, strategyStep_seed hstep, spent_append, UInt64.ofNat_add, UInt64.add_assoc]

/-- INTERNAL: the ids of a run that always finds room are those the counter goes through. -/
theorem run_ids (hdry : cfg.dryRun = false) (hroom : ∀ i ∈ is, NeverFull i)
    (hrun : run (recorded (strategyStep cfg)) (m, []) is = some (m₂, es)) :
    pushedIds es = idsFrom m.clOrdSeed (spent es) := by
  induction is generalizing m es with
  | nil =>
    obtain ⟨rfl, rfl⟩ := Prod.mk.inj (Option.some.inj hrun)
    rfl
  | cons i is ih =>
    obtain ⟨m₁, e₁, e₂, hstep, hrest, rfl⟩ := run_recorded_cons.mp hrun
    have htail := ih (fun j hj => hroom j (List.mem_cons_of_mem i hj)) hrest
    have hhead := strategyStep_ids hstep hdry (hroom i List.mem_cons_self)
    unfold pushedIds at htail ⊢
    rw [pushedCmds_append, List.map_append, spent_append, idsFrom_add, hhead, htail,
      strategyStep_seed hstep]

end Ids

/-! ## The run on one symbol -/

/-- INTERNAL: **the run on one symbol**, by induction over the run on all: a turn on the symbol
is a turn of both, a turn on another is a turn of the long run only.  The renaming takes the ids
the rest of the long run issues for the symbol to the next ids of the short one. -/
theorem isolate_run {ρ : UInt64 → UInt64} (hρ : Function.Injective ρ) (h0 : ρ 0 = 0)
    {cfg : EngineConfig} {sym : Fin kMaxSymbols} {is : List Input} :
    ∀ {js : List Input} {m m' m₂ : MarketMaker} {es : List Effect}, (∀ i ∈ is, NeverFull i) →
      List.Forall₂ (SameInput ρ) (is.filter fun i => i.symbolId = sym.val) js →
      (∀ j ∈ js, NeverFull j) → SameFor ρ sym m m' →
      run (recorded (strategyStep cfg)) (m, []) is = some (m₂, es) →
      (cfg.dryRun = false → ((pushedFor sym es).map OrderCmd.clOrdId).map ρ =
        idsFrom m'.clOrdSeed (pushedFor sym es).length) →
      ∃ m₂' es', run (recorded (strategyStep cfg)) (m', []) js = some (m₂', es') ∧
        SameFor ρ sym m₂ m₂' ∧ List.Forall₂ (SameCmd ρ) (pushedFor sym es) (pushedCmds es') := by
  induction is with
  | nil =>
    intro js m m' m₂ es _ hjs _ hs hrun _
    obtain ⟨rfl, rfl⟩ := Prod.mk.inj (Option.some.inj hrun)
    obtain rfl := List.forall₂_nil_left_iff.mp hjs
    exact ⟨m', [], rfl, hs, List.Forall₂.nil⟩
  | cons i is ih =>
    intro js m m' m₂ es hroom hjs hjroom hs hrun hids
    obtain ⟨m₁, e₁, e₂, hstep, hrest, rfl⟩ := run_recorded_cons.mp hrun
    have hroom' : ∀ k ∈ is, NeverFull k := fun k hk => hroom k (List.mem_cons_of_mem i hk)
    by_cases hsym : i.symbolId = sym.val
    · rw [List.filter_cons_of_pos (by simpa using hsym)] at hjs
      obtain ⟨j, js', hij, hjs', rfl⟩ := List.forall₂_cons_left_iff.mp hjs
      have hown := strategyStep_own hstep hsym
      rw [pushedFor_append, hown] at hids ⊢
      -- the ids of this turn are taken to the next ids, and so are those of the rest
      have hsplit : cfg.dryRun = false →
          (∀ k < spent e₁, ρ (m.clOrdSeed + UInt64.ofNat k) = m'.clOrdSeed + UInt64.ofNat k) ∧
          ((pushedFor sym e₂).map OrderCmd.clOrdId).map ρ =
            idsFrom (m'.clOrdSeed + UInt64.ofNat (spent e₁)) (pushedFor sym e₂).length := by
        intro hdry
        have hall := hids hdry
        have hnow := strategyStep_ids hstep hdry (hroom i List.mem_cons_self)
        have hlen : (pushedCmds e₁).length = spent e₁ := by
          have := congrArg List.length hnow
          simpa using this
        rw [List.map_append, List.map_append, List.length_append, idsFrom_add, hnow, hlen] at hall
        obtain ⟨hfst, hsnd⟩ := List.append_inj hall (by simp)
        exact ⟨map_idsFrom.mp hfst, hsnd⟩
      obtain ⟨m₁', e₁', hstep', hs₁, hcmds, hspent⟩ := hs.step hρ h0 hij
        (hroom i List.mem_cons_self) (hjroom j List.mem_cons_self) hsym hstep
        (fun hdry => (hsplit hdry).1)
      obtain ⟨m₂', e₂', hrest', hs₂, hcmds₂⟩ := ih hroom' hjs'
        (fun k hk => hjroom k (List.mem_cons_of_mem j hk)) hs₁ hrest (by
          intro hdry
          rw [strategyStep_seed hstep', hspent]
          exact (hsplit hdry).2)
      refine ⟨m₂', e₁' ++ e₂', run_recorded_cons.mpr ⟨m₁', e₁', e₂', hstep', hrest', rfl⟩, hs₂, ?_⟩
      rw [pushedCmds_append]
      exact List.rel_append hcmds hcmds₂
    · rw [List.filter_cons_of_neg (by simpa using hsym)] at hjs
      have hnone := (strategyStep_other hstep hsym).2.2
      rw [pushedFor_append, hnone] at hids ⊢
      exact ih hroom' hjs hjroom (hs.skip_left hstep hsym) hrest hids

/-! ## Two runs on the same events -/

section Lockstep

variable {ρ : UInt64 → UInt64} (hρ : Function.Injective ρ) (h0 : ρ 0 = 0) {cfg : EngineConfig}

include hρ h0 in
/-- INTERNAL: one turn on the same event, for every symbol. -/
theorem lockstep_step {m m' m₁ : MarketMaker} {i j : Input} {es : List Effect}
    (hs : ∀ sym, SameFor ρ sym m m') (hij : SameInput ρ i j) (hi : NeverFull i) (hj : NeverFull j)
    (hstep : strategyStep cfg m i = some (m₁, es))
    (hids : cfg.dryRun = false → ∀ k < spent es,
      ρ (m.clOrdSeed + UInt64.ofNat k) = m'.clOrdSeed + UInt64.ofNat k) :
    ∃ m₁' es', strategyStep cfg m' j = some (m₁', es') ∧ (∀ sym, SameFor ρ sym m₁ m₁') ∧
      (∀ sym, List.Forall₂ (SameCmd ρ) (pushedFor sym es) (pushedFor sym es')) ∧
      spent es' = spent es := by
  obtain ⟨sym₀, hsym₀⟩ := strategyStep_symbol hstep
  obtain ⟨m₁', es', hstep', hs₁, hcmds, hspent⟩ :=
    (hs sym₀).step hρ h0 hij hi hj hsym₀ hstep hids
  refine ⟨m₁', es', hstep', ?_, ?_, hspent⟩
  · intro sym
    by_cases hsym : i.symbolId = sym.val
    · obtain rfl : sym = sym₀ := Fin.ext (hsym.symm.trans hsym₀)
      exact hs₁
    · have hsym' : j.symbolId ≠ sym.val := by
        rw [hij.symbolId]
        exact hsym
      exact ((hs sym).skip_left hstep hsym).skip_right hstep' hsym'
  · intro sym
    by_cases hsym : i.symbolId = sym.val
    · rw [strategyStep_own hstep hsym, strategyStep_own hstep' (hij.symbolId.trans hsym)]
      exact hcmds
    · have hsym' : j.symbolId ≠ sym.val := by
        rw [hij.symbolId]
        exact hsym
      rw [(strategyStep_other hstep hsym).2.2, (strategyStep_other hstep' hsym').2.2]
      exact List.Forall₂.nil

include hρ h0 in
/-- INTERNAL: **a run on the same events** from counters that agree, under a renaming that fixes
the ids the run issues. -/
theorem lockstep_run {is js : List Input} (hjs : List.Forall₂ (SameInput ρ) is js) :
    ∀ {m m' m₂ : MarketMaker} {es : List Effect}, (∀ i ∈ is, NeverFull i) →
      (∀ j ∈ js, NeverFull j) → (∀ sym, SameFor ρ sym m m') → m'.clOrdSeed = m.clOrdSeed →
      run (recorded (strategyStep cfg)) (m, []) is = some (m₂, es) →
      (cfg.dryRun = false → (idsFrom m.clOrdSeed (spent es)).map ρ = idsFrom m.clOrdSeed (spent es)) →
      ∃ m₂' es', run (recorded (strategyStep cfg)) (m', []) js = some (m₂', es') ∧
        (∀ sym, SameFor ρ sym m₂ m₂') ∧ m₂'.clOrdSeed = m₂.clOrdSeed ∧
        ∀ sym, List.Forall₂ (SameCmd ρ) (pushedFor sym es) (pushedFor sym es') := by
  induction hjs with
  | nil =>
    intro m m' m₂ es _ _ hs hseed hrun _
    obtain ⟨rfl, rfl⟩ := Prod.mk.inj (Option.some.inj hrun)
    exact ⟨m', [], rfl, hs, hseed, fun _ => List.Forall₂.nil⟩
  | @cons i j is js hij hjs ih =>
    intro m m' m₂ es hroom hjroom hs hseed hrun hids
    obtain ⟨m₁, e₁, e₂, hstep, hrest, rfl⟩ := run_recorded_cons.mp hrun
    have hsplit : cfg.dryRun = false →
        (idsFrom m.clOrdSeed (spent e₁)).map ρ = idsFrom m.clOrdSeed (spent e₁) ∧
        (idsFrom m₁.clOrdSeed (spent e₂)).map ρ = idsFrom m₁.clOrdSeed (spent e₂) := by
      intro hdry
      have hall := hids hdry
      rw [spent_append, idsFrom_add, List.map_append, ← strategyStep_seed hstep] at hall
      exact List.append_inj hall (by simp)
    obtain ⟨m₁', e₁', hstep', hs₁, hcmds, hspent⟩ := lockstep_step hρ h0 hs hij
      (hroom i List.mem_cons_self) (hjroom j List.mem_cons_self) hstep (by
        intro hdry
        rw [hseed]
        exact map_idsFrom.mp (hsplit hdry).1)
    have hseed₁ : m₁'.clOrdSeed = m₁.clOrdSeed := by
      rw [strategyStep_seed hstep', strategyStep_seed hstep, hspent, hseed]
    obtain ⟨m₂', e₂', hrest', hs₂, hseed₂, hcmds₂⟩ := ih
      (fun k hk => hroom k (List.mem_cons_of_mem i hk))
      (fun k hk => hjroom k (List.mem_cons_of_mem j hk)) hs₁ hseed₁ hrest
      (fun hdry => (hsplit hdry).2)
    refine ⟨m₂', e₁' ++ e₂', run_recorded_cons.mpr ⟨m₁', e₁', e₂', hstep', hrest', rfl⟩, hs₂,
      hseed₂, ?_⟩
    intro sym
    rw [pushedFor_append, pushedFor_append]
    exact List.rel_append (hcmds sym) (hcmds₂ sym)

include hρ h0 in
/-- INTERNAL: **two turns on different symbols, and the same two the other way round.**  Each
symbol sees its own turn only; the renaming exchanges the ids of the two. -/
theorem swap_block {m m' m₁ m₂ : MarketMaker} {a b a' b' : Input} {ea eb : List Effect}
    (hs : ∀ sym, SameFor ρ sym m m') (hseed : m'.clOrdSeed = m.clOrdSeed)
    (haa : SameInput ρ a a') (hbb : SameInput ρ b b') (ha : NeverFull a) (ha' : NeverFull a')
    (hb : NeverFull b) (hb' : NeverFull b') (hne : a.symbolId ≠ b.symbolId)
    (hstepa : strategyStep cfg m a = some (m₁, ea)) (hstepb : strategyStep cfg m₁ b = some (m₂, eb))
    (hids : cfg.dryRun = false →
      (idsFrom m.clOrdSeed (spent ea)).map ρ =
          idsFrom (m.clOrdSeed + UInt64.ofNat (spent eb)) (spent ea) ∧
        (idsFrom (m.clOrdSeed + UInt64.ofNat (spent ea)) (spent eb)).map ρ =
          idsFrom m.clOrdSeed (spent eb)) :
    ∃ m₁' m₂' eb' ea', strategyStep cfg m' b' = some (m₁', eb') ∧
      strategyStep cfg m₁' a' = some (m₂', ea') ∧ (∀ sym, SameFor ρ sym m₂ m₂') ∧
      m₂'.clOrdSeed = m₂.clOrdSeed ∧
      ∀ sym, List.Forall₂ (SameCmd ρ) (pushedFor sym (ea ++ eb)) (pushedFor sym (eb' ++ ea')) := by
  obtain ⟨sa, hsa⟩ := strategyStep_symbol hstepa
  obtain ⟨sb, hsb⟩ := strategyStep_symbol hstepb
  have hab : a.symbolId ≠ sb.val := fun h => hne (h.trans hsb.symm)
  have hba : b.symbolId ≠ sa.val := fun h => hne (hsa.trans h.symm)
  -- `b` first: its symbol has not seen `a`
  obtain ⟨m₁', eb', hstepb', hsb₁, hcmdsb, hspentb⟩ :=
    ((hs sb).skip_left hstepa hab).step hρ h0 hbb hb hb' hsb hstepb (by
      intro hdry
      rw [strategyStep_seed hstepa, hseed]
      exact map_idsFrom.mp (hids hdry).2)
  have hba' : b'.symbolId ≠ sa.val := hbb.symbolId ▸ hba
  -- then `a`: its symbol has not seen `b`
  obtain ⟨m₂', ea', hstepa', hsa₁, hcmdsa, hspenta⟩ :=
    ((hs sa).skip_right hstepb' hba').step hρ h0 haa ha ha' hsa hstepa (by
      intro hdry
      rw [strategyStep_seed hstepb', hseed, hspentb]
      exact map_idsFrom.mp (hids hdry).1)
  have hab' : a'.symbolId ≠ sb.val := haa.symbolId ▸ hab
  refine ⟨m₁', m₂', eb', ea', hstepb', hstepa', ?_, ?_, ?_⟩
  · intro sym
    by_cases hsyma : a.symbolId = sym.val
    · obtain rfl : sym = sa := Fin.ext (hsyma.symm.trans hsa)
      exact hsa₁.skip_left hstepb hba
    · have hsyma' : a'.symbolId ≠ sym.val := haa.symbolId ▸ hsyma
      by_cases hsymb : b.symbolId = sym.val
      · obtain rfl : sym = sb := Fin.ext (hsymb.symm.trans hsb)
        exact hsb₁.skip_right hstepa' hab'
      · have hsymb' : b'.symbolId ≠ sym.val := hbb.symbolId ▸ hsymb
        exact ((((hs sym).skip_left hstepa hsyma).skip_left hstepb hsymb).skip_right hstepb'
          hsymb').skip_right hstepa' hsyma'
  · rw [strategyStep_seed hstepa', strategyStep_seed hstepb', strategyStep_seed hstepb,
      strategyStep_seed hstepa, hspenta, hspentb, hseed, UInt64.add_assoc, UInt64.add_assoc,
      UInt64.add_comm (UInt64.ofNat (spent eb))]
  · intro sym
    rw [pushedFor_append, pushedFor_append]
    by_cases hsyma : a.symbolId = sym.val
    · obtain rfl : sym = sa := Fin.ext (hsyma.symm.trans hsa)
      rw [(strategyStep_other hstepb hba).2.2, (strategyStep_other hstepb' hba').2.2,
        strategyStep_own hstepa hsyma, strategyStep_own hstepa' (haa.symbolId.trans hsyma),
        List.append_nil, List.nil_append]
      exact hcmdsa
    · have hsyma' : a'.symbolId ≠ sym.val := haa.symbolId ▸ hsyma
      rw [(strategyStep_other hstepa hsyma).2.2, (strategyStep_other hstepa' hsyma').2.2,
        List.append_nil, List.nil_append]
      by_cases hsymb : b.symbolId = sym.val
      · obtain rfl : sym = sb := Fin.ext (hsymb.symm.trans hsb)
        rw [strategyStep_own hstepb hsymb, strategyStep_own hstepb' (hbb.symbolId.trans hsymb)]
        exact hcmdsb
      · have hsymb' : b'.symbolId ≠ sym.val := hbb.symbolId ▸ hsymb
        rw [(strategyStep_other hstepb hsymb).2.2, (strategyStep_other hstepb' hsymb').2.2]
        exact List.Forall₂.nil

end Lockstep

/-! ## The result -/

/-- A renaming of the ids a history issued: it moves no other id, and not `0`. -/
structure Renames (h : List Effect) (ρ : Equiv.Perm UInt64) : Prop where
  zero : ρ 0 = 0
  off : ∀ x, x ∉ pushedIds h → ρ x = x

/-- INTERNAL: a renaming that moves issued ids only does not move `0`, if the counter starts
above it and does not wrap. -/
theorem Renames.of_off {m : MarketMaker} {h : List Effect} {ρ : Equiv.Perm UInt64}
    (hids : pushedIds h = idsFrom m.clOrdSeed (spent h)) (hseed : m.clOrdSeed ≠ 0)
    (hwrap : m.clOrdSeed.toNat + spent h ≤ 2 ^ 64) (hoff : ∀ x, x ∉ pushedIds h → ρ x = x) :
    Renames h ρ := by
  refine ⟨hoff 0 ?_, hoff⟩
  rw [hids]
  exact zero_notMem_idsFrom hseed hwrap

theorem sameFor_init {ρ : UInt64 → UInt64} (h0 : ρ 0 = 0) (tCtor tRun tRun' : ℤ)
    (sym : Fin kMaxSymbols) :
    SameFor ρ sym (MarketMaker.init tCtor tRun) (MarketMaker.init tCtor tRun') := by
  refine ⟨rfl, ?_⟩
  intro side
  show ({} : Quote) = renameQuote ρ {}
  unfold renameQuote
  rw [h0]

section Renamings

variable {cfg : EngineConfig} {m m₂ : MarketMaker} {is : List Input} {h : List Effect}

/-- INTERNAL: a renaming that takes the ids issued for the symbol to the first ids of the
counter. -/
theorem exists_isolating (hroom : ∀ i ∈ is, NeverFull i)
    (hrun : run (recorded (strategyStep cfg)) (m, []) is = some (m₂, h)) (hseed : m.clOrdSeed ≠ 0)
    (hwrap : m.clOrdSeed.toNat + spent h ≤ 2 ^ 64) (sym : Fin kMaxSymbols) :
    ∃ ρ : Equiv.Perm UInt64, Renames h ρ ∧
      (cfg.dryRun = false → ((pushedFor sym h).map OrderCmd.clOrdId).map ρ =
        idsFrom m.clOrdSeed (pushedFor sym h).length) := by
  cases hdry : cfg.dryRun with
  | true => exact ⟨Equiv.refl _, ⟨rfl, fun _ _ => rfl⟩, fun hc => (nomatch hc)⟩
  | false =>
    have hids := run_ids hdry hroom hrun
    have hnodup : (pushedIds h).Nodup := by
      rw [hids]
      exact nodup_idsFrom (by omega)
    have hsub : ((pushedFor sym h).map OrderCmd.clOrdId).Sublist (pushedIds h) :=
      List.filter_sublist.map _
    have hle : (pushedFor sym h).length ≤ spent h := by
      have := hsub.length_le
      rw [hids] at this
      simpa using this
    have hpre : idsFrom m.clOrdSeed (spent h) = idsFrom m.clOrdSeed (pushedFor sym h).length ++
        idsFrom (m.clOrdSeed + UInt64.ofNat (pushedFor sym h).length)
          (spent h - (pushedFor sym h).length) := by
      rw [← idsFrom_add]
      congr 1
      omega
    obtain ⟨ρ, hmap, hoff⟩ := exists_perm_map (hsub.nodup hnodup)
      (nodup_idsFrom (by omega) : (idsFrom m.clOrdSeed (pushedFor sym h).length).Nodup) (by simp)
    refine ⟨ρ, Renames.of_off hids hseed hwrap ?_, fun _ => hmap⟩
    intro x hx
    apply hoff x (fun hc => hx (hsub.subset hc))
    intro hc
    apply hx
    rw [hids, hpre]
    exact List.mem_append_left _ hc

/-- INTERNAL: a renaming that exchanges two neighbouring blocks of ids and moves nothing before
or after them. -/
theorem exists_exchanging (x : UInt64) (n₁ na nb n₂ : ℕ) (hn : n₁ + (na + nb) + n₂ ≤ 2 ^ 64) :
    ∃ ρ : Equiv.Perm UInt64,
      (idsFrom x n₁).map ρ = idsFrom x n₁ ∧
      (idsFrom (x + UInt64.ofNat n₁) na).map ρ =
        idsFrom (x + UInt64.ofNat n₁ + UInt64.ofNat nb) na ∧
      (idsFrom (x + UInt64.ofNat n₁ + UInt64.ofNat na) nb).map ρ = idsFrom (x + UInt64.ofNat n₁) nb ∧
      (idsFrom (x + UInt64.ofNat (n₁ + (na + nb))) n₂).map ρ =
        idsFrom (x + UInt64.ofNat (n₁ + (na + nb))) n₂ ∧
      ∀ y, y ∉ idsFrom x (n₁ + (na + nb) + n₂) → ρ y = y := by
  have hall : (idsFrom x (n₁ + (na + nb) + n₂)).Nodup := nodup_idsFrom hn
  rw [idsFrom_add, idsFrom_add, List.nodup_append, List.nodup_append] at hall
  obtain ⟨⟨-, hblock, hbefore⟩, -, hafter⟩ := hall
  have hrot : ∀ y, y ∈ idsFrom (x + UInt64.ofNat n₁ + UInt64.ofNat nb) na ++
      idsFrom (x + UInt64.ofNat n₁) nb ↔ y ∈ idsFrom (x + UInt64.ofNat n₁) (na + nb) := by
    intro y
    rw [Nat.add_comm na nb, idsFrom_add, List.mem_append, List.mem_append, or_comm]
  have hrotNodup : (idsFrom (x + UInt64.ofNat n₁ + UInt64.ofNat nb) na ++
      idsFrom (x + UInt64.ofNat n₁) nb).Nodup := by
    have hswap : (idsFrom (x + UInt64.ofNat n₁) (nb + na)).Nodup := nodup_idsFrom (by omega)
    rw [idsFrom_add] at hswap
    exact (List.perm_append_comm.nodup_iff).mp hswap
  obtain ⟨ρ, hmap, hoff⟩ := exists_perm_map hblock hrotNodup (by simp)
  have hfix : ∀ y, y ∉ idsFrom (x + UInt64.ofNat n₁) (na + nb) → ρ y = y := by
    intro y hy
    exact hoff y hy (fun hc => hy ((hrot y).mp hc))
  rw [idsFrom_add, List.map_append] at hmap
  obtain ⟨ha, hb⟩ := List.append_inj hmap (by simp)
  refine ⟨ρ, ?_, ha, hb, ?_, ?_⟩
  · rw [List.map_congr_left (g := id), List.map_id]
    intro y hy
    apply hfix
    exact fun hc => hbefore y hy y hc rfl
  · rw [List.map_congr_left (g := id), List.map_id]
    intro y hy
    apply hfix
    exact fun hc => hafter y (List.mem_append_right _ hc) y hy rfl
  · intro y hy
    apply hfix
    intro hc
    apply hy
    rw [idsFrom_add, idsFrom_add]
    exact List.mem_append_left _ (List.mem_append_right _ hc)

end Renamings

/-- INTERNAL: a renaming for two neighbouring turns: their ids are exchanged, the ids before and
after them stay. -/
theorem exists_swapping {cfg : EngineConfig} {m m₁ m₂ m₃ m₄ : MarketMaker} {is₁ is₂ : List Input}
    {a b : Input} {e₁ ea eb e₂ : List Effect} (hroom : ∀ i ∈ is₁ ++ a :: b :: is₂, NeverFull i)
    (hrun₁ : run (recorded (strategyStep cfg)) (m, []) is₁ = some (m₁, e₁))
    (hstepa : strategyStep cfg m₁ a = some (m₂, ea)) (hstepb : strategyStep cfg m₂ b = some (m₃, eb))
    (hrun₂ : run (recorded (strategyStep cfg)) (m₃, []) is₂ = some (m₄, e₂))
    (hseed : m.clOrdSeed ≠ 0)
    (hwrap : m.clOrdSeed.toNat + spent (e₁ ++ (ea ++ (eb ++ e₂))) ≤ 2 ^ 64) :
    ∃ ρ : Equiv.Perm UInt64, Renames (e₁ ++ (ea ++ (eb ++ e₂))) ρ ∧ (cfg.dryRun = false →
      (idsFrom m.clOrdSeed (spent e₁)).map ρ = idsFrom m.clOrdSeed (spent e₁) ∧
      ((idsFrom m₁.clOrdSeed (spent ea)).map ρ =
          idsFrom (m₁.clOrdSeed + UInt64.ofNat (spent eb)) (spent ea) ∧
        (idsFrom (m₁.clOrdSeed + UInt64.ofNat (spent ea)) (spent eb)).map ρ =
          idsFrom m₁.clOrdSeed (spent eb)) ∧
      (idsFrom m₃.clOrdSeed (spent e₂)).map ρ = idsFrom m₃.clOrdSeed (spent e₂)) := by
  cases hdry : cfg.dryRun with
  | true => exact ⟨Equiv.refl _, ⟨rfl, fun _ _ => rfl⟩, fun hc => (nomatch hc)⟩
  | false =>
    have htail := run_recorded_cons.mpr ⟨m₃, eb, e₂, hstepb, hrun₂, rfl⟩
    have hmid := run_recorded_cons.mpr ⟨m₂, ea, eb ++ e₂, hstepa, htail, rfl⟩
    have hids := run_ids hdry hroom (run_recorded_append.mpr ⟨m₁, e₁, _, hrun₁, hmid, rfl⟩)
    have hcount : spent (e₁ ++ (ea ++ (eb ++ e₂))) =
        spent e₁ + (spent ea + spent eb) + spent e₂ := by
      rw [spent_append, spent_append, spent_append]
      omega
    have hm₁ := run_seed hrun₁
    have hm₃ : m₃.clOrdSeed =
        m.clOrdSeed + UInt64.ofNat (spent e₁ + (spent ea + spent eb)) := by
      rw [strategyStep_seed hstepb, strategyStep_seed hstepa, hm₁, UInt64.ofNat_add,
        UInt64.ofNat_add, UInt64.add_assoc, UInt64.add_assoc]
    obtain ⟨ρ, h₁, ha, hb, h₂, hoff⟩ := exists_exchanging m.clOrdSeed (spent e₁) (spent ea)
      (spent eb) (spent e₂) (by omega)
    rw [← hm₁] at ha hb
    rw [← hm₃] at h₂
    refine ⟨ρ, Renames.of_off hids hseed hwrap ?_, fun _ => ⟨h₁, ⟨ha, hb⟩, h₂⟩⟩
    intro x hx
    apply hoff
    rw [← hcount, ← hids]
    exact hx

/-- **Symbols are isolated**, as long as the id counter starts above `0` and does not wrap.  Take
any run of a fresh strategy in which the order ring never is full.  For each symbol, a renaming of
the ids the run issued takes the run to the one on the events of that symbol alone: the same book,
the same two slots, and the commands for the symbol in the same order.  And two neighbouring
events of different symbols may change places: a renaming takes the run to the one with the two
exchanged, for all symbols at once.
SRCLINE: src/strategy/market_maker.hpp:49-164, src/oms/order_manager.hpp:21-47 -/
theorem symbols_isolated (cfg : EngineConfig) (tCtor tRun : ℤ) (is : List Input)
    (hroom : ∀ i ∈ is, NeverFull i) (m : MarketMaker) (h : List Effect)
    (hrun : run (recorded (strategyStep cfg)) (MarketMaker.init tCtor tRun, []) is = some (m, h))
    (hseed : (MarketMaker.init tCtor tRun).clOrdSeed ≠ 0)
    (hwrap : (MarketMaker.init tCtor tRun).clOrdSeed.toNat + spent h ≤ 2 ^ 64) :
    (∀ sym : Fin kMaxSymbols, ∃ ρ : Equiv.Perm UInt64, Renames h ρ ∧ ∀ (js : List Input) (tRun' : ℤ),
      List.Forall₂ (SameInput ρ) (is.filter fun i => i.symbolId = sym.val) js →
      (∀ j ∈ js, NeverFull j) →
      ∃ m' h', run (recorded (strategyStep cfg)) (MarketMaker.init tCtor tRun', []) js =
          some (m', h') ∧
        SameFor ρ sym m m' ∧ List.Forall₂ (SameCmd ρ) (pushedFor sym h) (pushedCmds h')) ∧
    ∀ (is₁ is₂ : List Input) (a b : Input), is = is₁ ++ a :: b :: is₂ → a.symbolId ≠ b.symbolId →
      ∃ ρ : Equiv.Perm UInt64, Renames h ρ ∧ ∀ (js : List Input) (tRun' : ℤ),
        List.Forall₂ (SameInput ρ) (is₁ ++ b :: a :: is₂) js → (∀ j ∈ js, NeverFull j) →
        ∃ m' h', run (recorded (strategyStep cfg)) (MarketMaker.init tCtor tRun', []) js =
            some (m', h') ∧
          ∀ sym, SameFor ρ sym m m' ∧
            List.Forall₂ (SameCmd ρ) (pushedFor sym h) (pushedFor sym h') := by
  constructor
  · intro sym
    obtain ⟨ρ, hren, hids⟩ := exists_isolating hroom hrun hseed hwrap sym
    refine ⟨ρ, hren, ?_⟩
    intro js tRun' hjs hjroom
    exact isolate_run ρ.injective hren.zero hroom hjs hjroom
      (sameFor_init hren.zero tCtor tRun tRun' sym) hrun hids
  · rintro is₁ is₂ a b rfl hne
    obtain ⟨m₁, e₁, e', hrun₁, hrest, rfl⟩ := run_recorded_append.mp hrun
    obtain ⟨m₂, ea, e'', hstepa, hrest', rfl⟩ := run_recorded_cons.mp hrest
    obtain ⟨m₃, eb, e₂, hstepb, hrun₂, rfl⟩ := run_recorded_cons.mp hrest'
    obtain ⟨ρ, hren, hids⟩ :=
      exists_swapping hroom hrun₁ hstepa hstepb hrun₂ hseed hwrap
    refine ⟨ρ, hren, ?_⟩
    intro js tRun' hjs hjroom
    obtain ⟨js₁, js', rfl, hjs₁, hjs'⟩ := forall₂_append_left hjs
    obtain ⟨b', js'', hbb, hjs'', rfl⟩ := List.forall₂_cons_left_iff.mp hjs'
    obtain ⟨a', js₂, haa, hjs₂, rfl⟩ := List.forall₂_cons_left_iff.mp hjs''
    simp only [List.mem_append, List.mem_cons] at hroom hjroom
    -- the run before the two events, the two events, and the run after them
    obtain ⟨m₁', e₁', hrun₁', hs₁, hseed₁, hcmds₁⟩ := lockstep_run ρ.injective hren.zero hjs₁
      (fun i hi => hroom i (Or.inl hi)) (fun j hj => hjroom j (Or.inl hj))
      (sameFor_init hren.zero tCtor tRun tRun') rfl hrun₁ (fun hdry => (hids hdry).1)
    obtain ⟨mx, m₃', eb', ea', hstepb', hstepa', hs₃, hseed₃, hcmds₃⟩ :=
      swap_block ρ.injective hren.zero hs₁ hseed₁ haa hbb (hroom a (Or.inr (Or.inl rfl)))
        (hjroom a' (Or.inr (Or.inr (Or.inl rfl)))) (hroom b (Or.inr (Or.inr (Or.inl rfl))))
        (hjroom b' (Or.inr (Or.inl rfl))) hne hstepa hstepb (fun hdry => (hids hdry).2.1)
    obtain ⟨m₄', e₂', hrun₂', hs₄, -, hcmds₂⟩ := lockstep_run ρ.injective hren.zero hjs₂
      (fun i hi => hroom i (Or.inr (Or.inr (Or.inr hi))))
      (fun j hj => hjroom j (Or.inr (Or.inr (Or.inr hj)))) hs₃ hseed₃ hrun₂
      (fun hdry => (hids hdry).2.2)
    refine ⟨m₄', e₁' ++ (eb' ++ (ea' ++ e₂')), ?_, ?_⟩
    · have htail := run_recorded_cons.mpr ⟨m₃', ea', e₂', hstepa', hrun₂', rfl⟩
      have hmid := run_recorded_cons.mpr ⟨mx, eb', ea' ++ e₂', hstepb', htail, rfl⟩
      exact run_recorded_append.mpr ⟨m₁', e₁', _, hrun₁', hmid, rfl⟩
    · intro sym
      refine ⟨hs₄ sym, ?_⟩
      have hblock := hcmds₃ sym
      simp only [pushedFor_append, ← List.append_assoc] at hblock ⊢
      rw [List.append_assoc (pushedFor sym e₁), List.append_assoc (pushedFor sym e₁')]
      exact List.rel_append (List.rel_append (hcmds₁ sym) hblock) (hcmds₂ sym)

/-- A snapshot of the second symbol, then one of the first. -/
def secondThenFirst : List Input :=
  [.md (topOfBook 1 99 101) quickEnv, .md (topOfBook 0 99 101) quickEnv]

theorem secondThenFirst_neverFull : ∀ i ∈ secondThenFirst, NeverFull i := by
  intro i hi
  simp only [secondThenFirst, List.mem_cons, List.not_mem_nil, or_false] at hi
  rcases hi with rfl | rfl <;> exact fun _ => rfl

/-- A run on two symbols and the run on the first alone. -/
theorem symbols_isolated_two_symbols :
    ∃ m h m' h', ∃ ρ : Equiv.Perm UInt64,
      run (recorded (strategyStep {})) (MarketMaker.init 1000000000 0, []) secondThenFirst =
        some (m, h) ∧ Renames h ρ ∧
      run (recorded (strategyStep {})) (MarketMaker.init 1000000000 0, [])
        [.md (topOfBook 0 99 101) quickEnv] = some (m', h') ∧
      SameFor ρ ⟨0, by decide⟩ m m' ∧
      List.Forall₂ (SameCmd ρ) (pushedFor ⟨0, by decide⟩ h) (pushedCmds h') := by
  have heval : (run (recorded (strategyStep {})) (MarketMaker.init 1000000000 0, [])
      secondThenFirst).map (fun x => spent x.2) = some 4 := by
    decide +kernel
  obtain ⟨⟨m, h⟩, hrun, hspent⟩ := Option.map_eq_some_iff.mp heval
  dsimp only at hspent
  have hmain := symbols_isolated {} 1000000000 0 secondThenFirst secondThenFirst_neverFull m h hrun
    (by decide) (by rw [hspent]; decide)
  obtain ⟨ρ, hren, hiso⟩ := hmain.1 ⟨0, by decide⟩
  obtain ⟨m', h', hrun', hsame, hcmds⟩ := hiso [.md (topOfBook 0 99 101) quickEnv] 0
    (List.Forall₂.cons (SameInput.md _ _ _) List.Forall₂.nil)
    (by intro j hj; rw [List.mem_singleton] at hj; subst hj; exact fun _ => rfl)
  exact ⟨m, h, m', h', ρ, hrun, hren, hrun', hsame, hcmds⟩

/-- A strategy constructed in the first millisecond of the clock issues the id `0`, the id of an
empty slot: with the other symbol's events deleted, the orders that had the ids 2 and 3 get 0 and
1, and no injective renaming that fixes `0` says so. -/
theorem seedZero_not_isolated :
    ∃ m h m' h', run (recorded (strategyStep {})) (MarketMaker.init 0 0, []) secondThenFirst =
        some (m, h) ∧
      run (recorded (strategyStep {})) (MarketMaker.init 0 0, [])
        (secondThenFirst.filter fun i => i.symbolId = 0) = some (m', h') ∧
      ¬ ∃ ρ : UInt64 → UInt64, Function.Injective ρ ∧ ρ 0 = 0 ∧
        List.Forall₂ (SameCmd ρ) (pushedFor ⟨0, by decide⟩ h) (pushedCmds h') := by
  have heval : (run (recorded (strategyStep {})) (MarketMaker.init 0 0, [])
      secondThenFirst).map (fun x => (pushedFor ⟨0, by decide⟩ x.2).map OrderCmd.clOrdId) =
      some [2, 3] := by
    decide +kernel
  have heval' : (run (recorded (strategyStep {})) (MarketMaker.init 0 0, [])
      (secondThenFirst.filter fun i => i.symbolId = 0)).map
        (fun x => (pushedCmds x.2).map OrderCmd.clOrdId) = some [0, 1] := by
    decide +kernel
  obtain ⟨⟨m, h⟩, hrun, hids⟩ := Option.map_eq_some_iff.mp heval
  obtain ⟨⟨m', h'⟩, hrun', hids'⟩ := Option.map_eq_some_iff.mp heval'
  dsimp only at hids hids'
  refine ⟨m, h, m', h', hrun, hrun', ?_⟩
  rintro ⟨ρ, hinj, h0, hcmds⟩
  generalize pushedFor ⟨0, by decide⟩ h = cs at hids hcmds
  generalize pushedCmds h' = cs' at hids' hcmds
  cases hcmds with
  | nil => cases hids
  | cons hcc _ =>
    have hc := (List.cons.inj hids).1
    have hc' := (List.cons.inj hids').1
    have hid := congrArg OrderCmd.clOrdId hcc
    dsimp only at hid
    rw [hc, hc'] at hid
    exact absurd (hinj (hid.symm.trans h0.symm)) (by decide)

end MmEngine.Analysis
