import MmEngine.Interface.EngineRules

/-!
# Which symbol ids reach the strategy

`symbol_id` answers `UINT32_MAX` for a symbol that is not ours.  The market-data handler
tests for it (fix_app.hpp:113); the execution-report handler does not, and leaves the id at
zero when the report has no symbol at all (fix_app.hpp:174-175).  So every id that reaches
the strategy is in range and denotes the symbol of its message, and no array access of the
strategy, the order manager or the sender leaves its array, exactly as long as every
execution report that gets into the ring names a loaded symbol.
-/

set_option autoImplicit false

namespace MmEngine.Analysis

open MmEngine.Model MmEngine.Model.MarketMaker MmEngine.Interface MmEngine.Lib

/-- The id is in range and denotes the symbol the message carries. -/
def Denotes (cfg : EngineConfig) (symbol : Model.Field Text) (id : ℕ) : Prop :=
  ∃ i : Fin kMaxSymbols, i.val = id ∧ i.val < (FixApp.init cfg).nSymbols ∧
    symbol = .value ((FixApp.init cfg).symbols i)

/-- No access has left its array; every event a ring accepted denotes the symbol of its
message; the events waiting for the strategy or taken by it are such events; and the commands
on their way out are for symbols in range. -/
structure SymbolSafe (cfg : EngineConfig) (x : Engine × List Obs) : Prop where
  noFault : x.1.faulted = false
  reports : ∀ m e, .reported m e true ∈ x.2 → Denotes cfg m.symbol e.symbolId
  quotes : ∀ m ev, .quoted m ev true ∈ x.2 → Denotes cfg m.symbol ev.symbolId
  fromReports : ∀ e, e ∈ x.1.execRing ∨ .strategy (.consumed e) ∈ x.2 →
    ∃ m, .reported m e true ∈ x.2
  fromQuotes : ∀ ev, ev ∈ x.1.mdRing ∨ .strategy (.took ev) ∈ x.2 → ∃ m, .quoted m ev true ∈ x.2
  commands : ∀ c, c ∈ x.1.ordRing ∨ x.1.sender = .popped c ∨ x.1.sender = .cleared c →
    c.symbolId < kMaxSymbols

/-- An execution report that converts and finds room in the ring names one of the symbols
the application has loaded. -/
def NamesLoaded (cfg : EngineConfig) (x : Engine × List Obs) : EngineAct → Prop
  | .recv (.execReport m) now =>
    (∃ e, (FixApp.init cfg).onExecutionReport m now = .ok e) → x.1.execRing.length < execCap →
      ∃ t ∈ cfg.symbols.take kMaxSymbols, m.symbol = .value t
  | _ => True

theorem denotes_symbolId {cfg : EngineConfig} {t : Text} (h : Loaded (FixApp.init cfg) t) :
    Denotes cfg (.value t) ((FixApp.init cfg).symbolId t) := by
  rcases symbolId_cases (FixApp.init cfg) t with ⟨i, hi, hn, ht⟩ | ⟨-, hno⟩
  · exact ⟨i, hi.symm, hn, by rw [ht]⟩
  · exact absurd h hno

/-- INTERNAL: **a converted report** denotes its symbol exactly when the symbol is loaded.
SRCLINE: src/fix/fix_app.hpp:174-175, 258-262 -/
theorem denotes_report_iff {cfg : EngineConfig} {m : ExecutionReport} {now : ℤ} {e : ExecEvent}
    (hconv : (FixApp.init cfg).onExecutionReport m now = .ok e) :
    Denotes cfg m.symbol e.symbolId ↔ ∃ t ∈ cfg.symbols.take kMaxSymbols, m.symbol = .value t := by
  have hsym := (onExecutionReport_eq_ok hconv).2.2.1
  constructor
  · rintro ⟨i, -, hn, hi⟩
    exact ⟨_, (loaded_init cfg _).mp ⟨i, hn, rfl⟩, hi⟩
  · rintro ⟨t, ht, hval⟩
    rw [hval] at hsym ⊢
    have hid : (FixApp.init cfg).symbolId t = e.symbolId := Except.ok.inj hsym
    rw [← hid]
    exact denotes_symbolId ((loaded_init cfg t).mpr ht)

/-- INTERNAL: what a step must respect to stay safe: accepted events denote their symbols,
events in the rings were there or have just been accepted, commands are in range. -/
theorem SymbolSafe.extend {cfg : EngineConfig} {s t : Engine} {h obs : List Obs}
    (hs : SymbolSafe cfg (s, h)) (hfault : t.faulted = false)
    (hrep : ∀ m e, .reported m e true ∈ obs → Denotes cfg m.symbol e.symbolId)
    (hquo : ∀ m ev, .quoted m ev true ∈ obs → Denotes cfg m.symbol ev.symbolId)
    (hexec : ∀ e, e ∈ t.execRing ∨ .strategy (.consumed e) ∈ obs →
      e ∈ s.execRing ∨ ∃ m, .reported m e true ∈ obs)
    (hmd : ∀ ev, ev ∈ t.mdRing ∨ .strategy (.took ev) ∈ obs →
      ev ∈ s.mdRing ∨ ∃ m, .quoted m ev true ∈ obs)
    (hcmd : ∀ c, c ∈ t.ordRing ∨ t.sender = .popped c ∨ t.sender = .cleared c →
      c.symbolId < kMaxSymbols) : SymbolSafe cfg (t, h ++ obs) where
  noFault := hfault
  reports := by
    intro m e hmem
    rcases List.mem_append.mp hmem with hmem | hmem
    · exact hs.reports m e hmem
    · exact hrep m e hmem
  quotes := by
    intro m ev hmem
    rcases List.mem_append.mp hmem with hmem | hmem
    · exact hs.quotes m ev hmem
    · exact hquo m ev hmem
  fromReports := by
    intro e he
    have hold : e ∈ s.execRing ∨ .strategy (.consumed e) ∈ h → ∃ m, .reported m e true ∈ h ++ obs := by
      intro he
      obtain ⟨m, hm⟩ := hs.fromReports e he
      exact ⟨m, List.mem_append_left _ hm⟩
    rw [List.mem_append] at he
    by_cases hh : .strategy (.consumed e) ∈ h
    · exact hold (Or.inr hh)
    · rcases hexec e (by tauto) with he | ⟨m, hm⟩
      · exact hold (Or.inl he)
      · exact ⟨m, List.mem_append_right _ hm⟩
  fromQuotes := by
    intro ev he
    have hold : ev ∈ s.mdRing ∨ .strategy (.took ev) ∈ h → ∃ m, .quoted m ev true ∈ h ++ obs := by
      intro he
      obtain ⟨m, hm⟩ := hs.fromQuotes ev he
      exact ⟨m, List.mem_append_left _ hm⟩
    rw [List.mem_append] at he
    by_cases hh : .strategy (.took ev) ∈ h
    · exact hold (Or.inr hh)
    · rcases hmd ev (by tauto) with he | ⟨m, hm⟩
      · exact hold (Or.inl he)
      · exact ⟨m, List.mem_append_right _ hm⟩
  commands := hcmd

/-- INTERNAL: a step that shows nothing about events and leaves the two event rings alone. -/
theorem SymbolSafe.silent {cfg : EngineConfig} {s t : Engine} {h obs : List Obs}
    (hs : SymbolSafe cfg (s, h)) (hfault : t.faulted = false) (hexec : t.execRing = s.execRing)
    (hmd : t.mdRing = s.mdRing)
    (hnone : ∀ o ∈ obs, (∀ m e b, o ≠ .reported m e b) ∧ (∀ m e b, o ≠ .quoted m e b) ∧
      ∀ x, o ≠ .strategy x)
    (hcmd : ∀ c, c ∈ t.ordRing ∨ t.sender = .popped c ∨ t.sender = .cleared c →
      c ∈ s.ordRing ∨ s.sender = .popped c ∨ s.sender = .cleared c) :
    SymbolSafe cfg (t, h ++ obs) := by
  refine hs.extend hfault ?_ ?_ ?_ ?_ fun c hc => hs.commands c (hcmd c hc)
  · exact fun m e hmem => absurd rfl ((hnone _ hmem).1 m e true)
  · exact fun m ev hmem => absurd rfl ((hnone _ hmem).2.1 m ev true)
  · rintro e (he | hmem)
    · exact Or.inl (hexec ▸ he)
    · exact absurd rfl ((hnone _ hmem).2.2 _)
  · rintro ev (he | hmem)
    · exact Or.inl (hmd ▸ he)
    · exact absurd rfl ((hnone _ hmem).2.2 _)

theorem SymbolSafe.report_lt {cfg : EngineConfig} {s : Engine} {h : List Obs}
    (hs : SymbolSafe cfg (s, h)) {e : ExecEvent} (he : e ∈ s.execRing) :
    e.symbolId < kMaxSymbols := by
  obtain ⟨m, hm⟩ := hs.fromReports e (Or.inl he)
  obtain ⟨i, hi, -⟩ := hs.reports m e hm
  exact hi ▸ i.isLt

theorem SymbolSafe.quote_lt {cfg : EngineConfig} {s : Engine} {h : List Obs}
    (hs : SymbolSafe cfg (s, h)) {ev : MdEvent} (he : ev ∈ s.mdRing) :
    ev.symbolId < kMaxSymbols := by
  obtain ⟨m, hm⟩ := hs.fromQuotes ev (Or.inl he)
  obtain ⟨i, hi, -⟩ := hs.quotes m ev hm
  exact hi ▸ i.isLt

/-- INTERNAL: a received snapshot that denotes its symbol is safe.
SRCLINE: src/fix/fix_app.hpp:102-145 -/
theorem SymbolSafe.quoted {cfg : EngineConfig} {s : Engine} {h : List Obs}
    (hs : SymbolSafe cfg (s, h)) (ses : FixSession) {m : MarketDataSnapshot} {ev : MdEvent}
    (hden : Denotes cfg m.symbol ev.symbolId) :
    SymbolSafe cfg ({ s with ses := ses, mdRing := (offer mdCap s.mdRing ev).1 },
      h ++ [.quoted m ev (offer mdCap s.mdRing ev).2]) := by
  refine hs.extend hs.noFault (by simp) ?_ ?_ ?_ hs.commands
  · intro m' ev' hmem
    simp only [List.mem_singleton, Obs.quoted.injEq] at hmem
    obtain ⟨rfl, rfl, -⟩ := hmem
    exact hden
  · rintro e (he | hmem)
    · exact Or.inl he
    · simp at hmem
  · rintro ev' (he | hmem)
    · rcases mem_offer he with he | ⟨rfl, hok⟩
      · exact Or.inl he
      · exact Or.inr ⟨m, by rw [hok]; exact List.mem_singleton.mpr rfl⟩
    · simp at hmem

/-- INTERNAL: a received report is safe if it denotes its symbol or is not accepted.
SRCLINE: src/fix/fix_app.hpp:147-187 -/
theorem SymbolSafe.reported {cfg : EngineConfig} {s : Engine} {h : List Obs}
    (hs : SymbolSafe cfg (s, h)) {m : ExecutionReport} {e : ExecEvent}
    (hden : s.execRing.length < execCap → Denotes cfg m.symbol e.symbolId) :
    SymbolSafe cfg ({ s with execRing := (offer execCap s.execRing e).1 },
      h ++ [.reported m e (offer execCap s.execRing e).2]) := by
  refine hs.extend hs.noFault ?_ (by simp) ?_ ?_ hs.commands
  · intro m' e' hmem
    simp only [List.mem_singleton, Obs.reported.injEq] at hmem
    obtain ⟨rfl, rfl, hok⟩ := hmem
    exact hden (offer_accepts_iff.mp hok.symm)
  · rintro e' (he | hmem)
    · rcases mem_offer he with he | ⟨rfl, hok⟩
      · exact Or.inl he
      · exact Or.inr ⟨m, by rw [hok]; exact List.mem_singleton.mpr rfl⟩
    · simp at hmem
  · rintro ev (he | hmem)
    · exact Or.inl he
    · simp at hmem

/-- INTERNAL: the commands of a turn are for the symbol of its snapshot.
SRCLINE: src/strategy/market_maker.hpp:66-82 -/
theorem SymbolSafe.turn {cfg : EngineConfig} {s : Engine} {h : List Obs}
    (hs : SymbolSafe cfg (s, h)) {env : MdEnv} {ev : MdEvent} {rest : List MdEvent}
    {m : MarketMaker} {es : List Effect} (hring : s.mdRing = ev :: rest)
    (hiter : mdIter cfg env s.mm ev = some (m, es)) :
    SymbolSafe cfg ({ s with mdRing := rest, mm := m, ordRing := s.ordRing ++ pushedCmds es },
      h ++ es.map .strategy) := by
  refine hs.extend hs.noFault (by simp) (by simp) ?_ ?_ ?_
  · rintro e (he | hmem)
    · exact Or.inl he
    · simp only [List.mem_map, Obs.strategy.injEq, exists_eq_right] at hmem
      rcases mem_mdIter hiter hmem with h | ⟨c, h, -⟩ | ⟨c, h⟩ | ⟨r, h⟩ | ⟨b, h⟩ <;> cases h
  · rintro ev' (he | hmem)
    · rw [hring]
      exact Or.inl (List.mem_cons_of_mem _ he)
    · simp only [List.mem_map, Obs.strategy.injEq, exists_eq_right] at hmem
      rcases mem_mdIter hiter hmem with h | ⟨c, h, -⟩ | ⟨c, h⟩ | ⟨r, h⟩ | ⟨b, h⟩
      · rw [hring, Effect.took.inj h]
        exact Or.inl List.mem_cons_self
      all_goals cases h
  · rintro c (hc | hc)
    · rcases List.mem_append.mp hc with hc | hc
      · exact hs.commands c (Or.inl hc)
      · obtain ⟨x, hx, hxc⟩ := List.mem_filterMap.mp hc
        rcases mem_mdIter hiter hx with rfl | ⟨c', rfl, hid⟩ | ⟨c', rfl⟩ | ⟨r, rfl⟩ | ⟨b, rfl⟩
        · cases hxc
        · obtain rfl := Option.some.inj hxc
          rw [hid]
          exact hs.quote_lt (hring ▸ List.mem_cons_self)
        all_goals cases hxc
    · exact hs.commands c (Or.inr hc)

/-- INTERNAL: **one step** of the engine stays safe exactly when the report it receives, if it
is one that gets into the ring, names a loaded symbol.
SRCLINE: src/fix/fix_app.hpp:102-187, src/strategy/market_maker.hpp:53-76 -/
theorem namesLoaded_iff_symbolSafe {cfg : EngineConfig} {s t : Engine} {h obs : List Obs}
    {a : EngineAct} (hs : SymbolSafe cfg (s, h)) (hstep : EngineStep cfg s a t obs) :
    NamesLoaded cfg (s, h) a ↔ SymbolSafe cfg (t, h ++ obs) := by
  cases hstep with
  | dropped msg now ses _ hno =>
    refine iff_of_true ?_ (hs.silent hs.noFault rfl rfl (by simp) fun _ hc => hc)
    cases msg with
    | marketData m => trivial
    | other => trivial
    | execReport m =>
      rintro ⟨e, he⟩
      exact absurd he (hno m e rfl)
  | quoted m now ev seq ses _ hconv =>
    refine iff_of_true trivial (hs.quoted ses ?_)
    obtain ⟨t, hval, hload, hid⟩ := onMarketData_eq_ok hconv
    rw [hval, hid]
    exact denotes_symbolId hload
  | reported m now e hconv =>
    have hG : NamesLoaded cfg (s, h) (.recv (.execReport m) now) ↔
        (s.execRing.length < execCap → Denotes cfg m.symbol e.symbolId) := by
      rw [denotes_report_iff hconv]
      exact ⟨fun hG => hG ⟨e, hconv⟩, fun ht _ => ht⟩
    rw [hG]
    refine ⟨hs.reported, ?_⟩
    intro hsafe hlt
    refine hsafe.reports m e (List.mem_append_right _ ?_)
    rw [offer_accepts_iff.mpr hlt]
    exact List.mem_singleton.mpr rfl
  | execFault e rest hring hbad =>
    exact absurd (hs.report_lt (by rw [hring]; exact List.mem_cons_self)) hbad
  | exec e rest sym hring hsym _ =>
    refine iff_of_true trivial (hs.extend hs.noFault (by simp) (by simp) ?_ ?_ hs.commands)
    · intro e' he
      simp only [List.mem_singleton, Obs.strategy.injEq, Effect.consumed.injEq] at he
      rw [hring, List.mem_cons]
      tauto
    · rintro ev (he | hmem)
      · exact Or.inl he
      · simp at hmem
  | fill e rest sym hring hsym _ =>
    refine iff_of_true trivial (hs.extend hs.noFault ?_ ?_ ?_ ?_ hs.commands)
    · cases (offer tradeCap s.tradeRing e).2 <;> simp
    · cases (offer tradeCap s.tradeRing e).2 <;> simp
    · intro e' he
      have he' : e' ∈ rest ∨ e' = e := by
        cases (offer tradeCap s.tradeRing e).2 <;> simpa using he
      rw [hring, List.mem_cons]
      tauto
    · rintro ev (he | hmem)
      · exact Or.inl he
      · cases hoff : (offer tradeCap s.tradeRing e).2 <;> simp [hoff] at hmem
  | mdFault env ev rest hring hbad =>
    exact absurd (hs.quote_lt (by rw [hring]; exact List.mem_cons_self)) hbad
  | md env ev rest m es hring hiter => exact iff_of_true trivial (hs.turn hring hiter)
  | pop c rest hidle hring =>
    refine iff_of_true trivial (hs.silent hs.noFault rfl rfl (by simp) ?_)
    intro c' hc
    simp only [Sender.popped.injEq, reduceCtorEq, or_false] at hc
    rw [hring, List.mem_cons]
    tauto
  | check c hpop =>
    refine iff_of_true trivial (hs.silent hs.noFault rfl rfl (by simp) ?_)
    intro c' hc
    cases hup : s.ses.loggedOn with
    | false => simp [hup] at hc; exact Or.inl hc
    | true =>
      simp [hup] at hc
      rcases hc with hc | rfl
      · exact Or.inl hc
      · exact Or.inr (Or.inl hpop)
  | sendFault c hclear hbad => exact absurd (hs.commands c (Or.inr (Or.inr hclear))) hbad
  | send c m hclear hmsg =>
    refine iff_of_true trivial (hs.silent hs.noFault rfl rfl (by simp) ?_)
    intro c' hc
    simp only [reduceCtorEq, or_false] at hc
    exact Or.inl hc
  | persist e rest hring =>
    exact iff_of_true trivial (hs.silent hs.noFault rfl rfl (by simp) fun _ hc => hc)
  | logon => exact iff_of_true trivial (hs.silent hs.noFault rfl rfl (by simp) fun _ hc => hc)
  | logout => exact iff_of_true trivial (hs.silent hs.noFault rfl rfl (by simp) fun _ hc => hc)

/-- **Symbol ids are safe exactly while the reports name loaded symbols.**  For every symbol
list and every interleaving of a fresh engine: throughout the run every event that reaches the
strategy carries an id in range that denotes the symbol of its message, and no access leaves
its array, if and only if every execution report that gets into the ring names one of the first
`kMaxSymbols` configured symbols.
SRCLINE: src/fix/fix_app.hpp:102-187, 258-262 -/
theorem symbolSafe_throughout_iff (cfg : EngineConfig) (tCtor tRun : ℤ) (as : List EngineAct)
    (u : Engine × List Obs)
    (hrun : run (recorded (Engine.step cfg)) (Engine.init tCtor tRun, []) as = some u) :
    Throughout (recorded (Engine.step cfg)) (SymbolSafe cfg) (Engine.init tCtor tRun, []) as ↔
      Along (recorded (Engine.step cfg)) (NamesLoaded cfg) (Engine.init tCtor tRun, []) as := by
  refine throughout_iff_along ?_ ?_ (along_true _ _) hrun
  · rintro ⟨s, h⟩ a ⟨t, h'⟩ hs - ht
    obtain ⟨obs, hobs, rfl⟩ := recorded_eq_some.mp ht
    exact namesLoaded_iff_symbolSafe hs (step_engineStep hobs).2
  · exact ⟨rfl, by simp, by simp, by simp [Engine.init], by simp [Engine.init], by simp [Engine.init]⟩

/-- A run in which a report for the one loaded symbol is received and applied. -/
theorem symbolSafe_throughout_iff_one_report :
    Throughout (recorded (Engine.step { symbols := ["DLR".toList] }))
        (SymbolSafe { symbols := ["DLR".toList] }) (Engine.init 1000000000 0, [])
        [.recv (.execReport { symbol := .value "DLR".toList }) 0, .exec] ↔
      Along (recorded (Engine.step { symbols := ["DLR".toList] }))
        (NamesLoaded { symbols := ["DLR".toList] }) (Engine.init 1000000000 0, [])
        [.recv (.execReport { symbol := .value "DLR".toList }) 0, .exec] :=
  symbolSafe_throughout_iff _ _ _ _ _ rfl

/-- A report for a symbol that is not ours gets into the ring with the id `UINT32_MAX`, and
`on_exec` leaves `q_` with it. -/
theorem foreign_report_faults :
    ∃ s h, run (recorded (Engine.step { symbols := ["DLR".toList] })) (Engine.init 1000000000 0, [])
        [.recv (.execReport { symbol := .value "GGAL".toList }) 0, .exec] = some (s, h) ∧
      .reported { symbol := .value "GGAL".toList } { symbolId := uint32Max } true ∈ h ∧
      s.faulted = true ∧ ¬ SymbolSafe { symbols := ["DLR".toList] } (s, h) := by
  refine ⟨_, _, rfl, by decide, rfl, ?_⟩
  intro hsafe
  exact absurd hsafe.noFault (by decide)

end MmEngine.Analysis
