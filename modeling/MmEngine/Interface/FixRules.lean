import MmEngine.Model.FixApp
import Mathlib.Data.List.GetD

/-!
# What the FIX edge does to symbols and ids

The handlers of `FixApp` are read once here.  A symbol is looked up or it is not ours; a
converted report stores what its fields say; a converted snapshot carries the id of its
symbol; and a sent command is printed with its own ids.  Everything later uses these
lemmas and never unfolds a handler.
-/

set_option autoImplicit false

namespace MmEngine.Interface

open MmEngine.Model

/-- INTERNAL: a computation that may throw ends well exactly when its parts do. -/
theorem except_bind_eq_ok {ε α β : Type} {x : Except ε α} {f : α → Except ε β} {b : β} :
    (x >>= f) = .ok b ↔ ∃ a, x = .ok a ∧ f a = .ok b := by
  cases x with
  | error err => simp [bind, Except.bind]
  | ok a => simp [bind, Except.bind]

/-- The symbol is one of those the application subscribed to. -/
def Loaded (app : FixApp) (t : Text) : Prop :=
  ∃ i : Fin kMaxSymbols, i.val < app.nSymbols ∧ app.symbols i = t

instance (app : FixApp) (t : Text) : Decidable (Loaded app t) :=
  inferInstanceAs (Decidable (∃ _ : Fin kMaxSymbols, _))

/-- The index is the one the scan finds for its own symbol: no earlier entry repeats it. -/
def Canonical (app : FixApp) (sym : Fin kMaxSymbols) : Prop :=
  app.symbolId (app.symbols sym) = sym

/-- INTERNAL: the scan finds an index of the symbol, or the symbol is not loaded.
SRCLINE: src/fix/fix_app.hpp:258-262 -/
theorem symbolId_cases (app : FixApp) (t : Text) :
    (∃ i : Fin kMaxSymbols, app.symbolId t = i ∧ i.val < app.nSymbols ∧ app.symbols i = t) ∨
      app.symbolId t = uint32Max ∧ ¬ Loaded app t := by
  unfold FixApp.symbolId
  cases hf : (List.finRange kMaxSymbols).find? fun i => i.val < app.nSymbols ∧ app.symbols i = t with
  | some i =>
    have hi := List.find?_some hf
    rw [decide_eq_true_eq] at hi
    exact Or.inl ⟨i, rfl, hi⟩
  | none =>
    refine Or.inr ⟨rfl, ?_⟩
    rintro ⟨i, hi⟩
    have hno := List.find?_eq_none.mp hf i (List.mem_finRange i)
    rw [decide_eq_true_eq] at hno
    exact hno hi

theorem symbolId_lt_iff (app : FixApp) (t : Text) : app.symbolId t < kMaxSymbols ↔ Loaded app t := by
  rcases symbolId_cases app t with ⟨i, hi, hn, ht⟩ | ⟨hmax, hno⟩
  · rw [hi]
    exact iff_of_true i.isLt ⟨i, hn, ht⟩
  · rw [hmax]
    exact iff_of_false (by decide) hno

/-- INTERNAL: an id in range denotes the symbol it was looked up for, canonically. -/
theorem symbols_symbolId {app : FixApp} {t : Text} {sym : Fin kMaxSymbols}
    (h : app.symbolId t = sym) : app.symbols sym = t ∧ Canonical app sym := by
  rcases symbolId_cases app t with ⟨i, hi, -, ht⟩ | ⟨hmax, -⟩
  · obtain rfl : i = sym := Fin.ext (hi.symm.trans h)
    refine ⟨ht, ?_⟩
    unfold Canonical
    rw [ht]
    exact hi
  · rw [h] at hmax
    have hlt : uint32Max < kMaxSymbols := hmax ▸ sym.isLt
    exact absurd hlt (by decide)

/-- INTERNAL: the symbols a fresh application has loaded are the first `kMaxSymbols` of the
configuration.
SRCLINE: src/fix/fix_app.hpp:56-58 -/
theorem loaded_init (cfg : EngineConfig) (t : Text) :
    Loaded (FixApp.init cfg) t ↔ t ∈ cfg.symbols.take kMaxSymbols := by
  unfold Loaded FixApp.init
  dsimp only
  rw [List.mem_take_iff_getElem]
  constructor
  · rintro ⟨i, hi, ht⟩
    refine ⟨i, by omega, ?_⟩
    rw [← ht, List.getD_eq_getElem]
  · rintro ⟨i, hi, ht⟩
    refine ⟨⟨i, by omega⟩, by dsimp only; omega, ?_⟩
    rw [← ht, List.getD_eq_getElem]

/-- INTERNAL: **a converted report** carries what its fields say.
SRCLINE: src/fix/fix_app.hpp:148-183 -/
theorem onExecutionReport_eq_ok {app : FixApp} {msg : ExecutionReport} {now : ℤ} {e : ExecEvent}
    (h : app.onExecutionReport msg now = .ok e) :
    msg.clOrdID.getIfSet 0 strtoull = .ok e.clOrdId ∧ reportKind msg = .ok e.kind ∧
      msg.symbol.getIfSet 0 app.symbolId = .ok e.symbolId ∧
      msg.leavesQty.getIfSet 0 id = .ok e.leavesQty := by
  unfold FixApp.onExecutionReport at h
  obtain ⟨clOrdId, hcl, h⟩ := except_bind_eq_ok.mp h
  obtain ⟨kind, hkind, h⟩ := except_bind_eq_ok.mp h
  obtain ⟨side, -, h⟩ := except_bind_eq_ok.mp h
  obtain ⟨symbolId, hsym, h⟩ := except_bind_eq_ok.mp h
  obtain ⟨lastPx, -, h⟩ := except_bind_eq_ok.mp h
  obtain ⟨lastQty, -, h⟩ := except_bind_eq_ok.mp h
  obtain ⟨leavesQty, hleaves, h⟩ := except_bind_eq_ok.mp h
  obtain ⟨orderId, -, h⟩ := except_bind_eq_ok.mp h
  cases h
  exact ⟨hcl, hkind, hsym, hleaves⟩

/-- INTERNAL: the kind of a report that carries an ExecType and an OrdStatus.
SRCLINE: src/fix/fix_app.hpp:154-170 -/
theorem reportKind_of_values {msg : ExecutionReport} {execType ordStatus : Char} {kind : ExecKind}
    (htype : msg.execType = .value execType) (hstatus : msg.ordStatus = .value ordStatus)
    (h : reportKind msg = .ok kind) :
    kind = if execKindOf execType = .filled then
      (if ordStatus = '1' then .partFill else .filled) else execKindOf execType := by
  unfold reportKind at h
  rw [htype, hstatus] at h
  obtain ⟨kind', hk, h⟩ := except_bind_eq_ok.mp h
  obtain rfl : execKindOf execType = kind' := Except.ok.inj hk
  split at h
  · next hfill =>
    rw [if_pos hfill]
    exact (Except.ok.inj h).symm
  · next hfill =>
    rw [if_neg hfill]
    exact (Except.ok.inj h).symm

/-- INTERNAL: reading an entry never touches the symbol of the event. -/
theorem symbolId_readEntry {ev ev' : MdEvent} {g : MdEntry} (h : readEntry ev g = .ok ev') :
    ev'.symbolId = ev.symbolId := by
  unfold readEntry at h
  obtain ⟨t, -, h⟩ := except_bind_eq_ok.mp h
  obtain ⟨p, -, h⟩ := except_bind_eq_ok.mp h
  obtain ⟨q, -, h⟩ := except_bind_eq_ok.mp h
  split at h
  · split at h <;> cases h <;> rfl
  · split at h
    · split at h <;> cases h <;> rfl
    · split at h <;> cases h <;> rfl

theorem symbolId_readEntries {n : ℕ} {gs : List MdEntry} {ev ev' : MdEvent}
    (h : readEntries ev n gs = .ok ev') : ev'.symbolId = ev.symbolId := by
  induction n generalizing ev gs with
  | zero =>
    simp only [readEntries, Except.ok.injEq] at h
    rw [h]
  | succ n ih =>
    cases gs with
    | nil => cases h
    | cons g gs =>
      obtain ⟨ev₁, hg, h⟩ := except_bind_eq_ok.mp h
      rw [ih h, symbolId_readEntry hg]

/-- INTERNAL: **a converted snapshot** carries the id of its symbol, which is loaded.
SRCLINE: src/fix/fix_app.hpp:110-113 -/
theorem onMarketData_eq_ok {app : FixApp} {seq : ℕ} {msg : MarketDataSnapshot} {now : ℤ}
    {ev : MdEvent} (h : app.onMarketData seq msg now = .ok (some ev)) :
    ∃ t, msg.symbol = .value t ∧ Loaded app t ∧ ev.symbolId = app.symbolId t := by
  unfold FixApp.onMarketData at h
  obtain ⟨t, ht, h⟩ := except_bind_eq_ok.mp h
  have hval : msg.symbol = .value t := by
    cases hs : msg.symbol with
    | absent => rw [hs] at ht; cases ht
    | malformed => rw [hs] at ht; cases ht
    | value a => rw [hs] at ht; cases ht; rfl
  split at h
  · cases h
  · next hours =>
    obtain ⟨count, -, h⟩ := except_bind_eq_ok.mp h
    obtain ⟨ev', hev, h⟩ := except_bind_eq_ok.mp h
    cases h
    refine ⟨t, hval, ?_, symbolId_readEntries hev⟩
    rcases symbolId_cases app t with ⟨i, -, hn, hi⟩ | ⟨hmax, -⟩
    · exact ⟨i, hn, hi⟩
    · exact absurd hmax hours

/-- INTERNAL: a snapshot that reaches the strategy names a canonical index. -/
theorem onMarketData_canonical {app : FixApp} {seq : ℕ} {msg : MarketDataSnapshot} {now : ℤ}
    {ev : MdEvent} (h : app.onMarketData seq msg now = .ok (some ev)) :
    ∃ sym : Fin kMaxSymbols, ev.symbolId = sym ∧ Canonical app sym := by
  obtain ⟨t, -, hload, hid⟩ := onMarketData_eq_ok h
  have hlt := (symbolId_lt_iff app t).mpr hload
  refine ⟨⟨app.symbolId t, hlt⟩, hid, ?_⟩
  have hself : app.symbolId t = (⟨app.symbolId t, hlt⟩ : Fin kMaxSymbols) := rfl
  exact (symbols_symbolId hself).2

end MmEngine.Interface
