import MmEngine.Interface.FixRules
import MmEngine.Interface.StrategyRules

/-!
# Order ids over the wire

The sender prints the ids of a command in decimal into buffers of 24 bytes, and the venue echoes
the text in its reports.  Twenty digits are enough for any id, so nothing is cut; the text is
read back as the id (`strtoull_printId`), so different ids have different texts.  Hence a report
reaches the slot with an id exactly when it echoes the text of that id (`id_round_trip`).
-/

set_option autoImplicit false

namespace MmEngine.Analysis

open MmEngine.Model MmEngine.Interface

/-- The ids a message of the command carries. -/
def cmdIds (c : OrderCmd) : List UInt64 :=
  match c.type with
  | .new => [c.clOrdId]
  | .cancel => [c.clOrdId, c.origClOrdId]

/-- The id texts of a message. -/
def idTexts : OrderMsg → List Text
  | .newOrderSingle o => [o.clOrdID]
  | .orderCancelRequest x => [x.clOrdID, x.origClOrdID]

/-- The slots of the report's symbol that store the id. -/
def Stores (m : MarketMaker) (e : ExecEvent) (sym : Fin kMaxSymbols) (side : OrdSide) (x : UInt64) : Prop :=
  sym.val = e.symbolId ∧ (m.slot sym side).clOrdId = x

theorem printId_injective : Function.Injective printId := by
  intro x y h
  rw [← strtoull_printId x, ← strtoull_printId y, h]

theorem idTexts_sendOrderCmd {app : FixApp} {c : OrderCmd} {m : OrderMsg} (h : app.sendOrderCmd c = some m) :
    idTexts m = (cmdIds c).map fun id => Nat.toDigits 10 id.toNat := by
  unfold FixApp.sendOrderCmd at h
  split at h
  · unfold cmdIds
    cases htype : c.type with
    | new =>
      rw [htype] at h
      obtain rfl := Option.some.inj h
      simp only [idTexts, printId_eq, List.map_cons, List.map_nil]
    | cancel =>
      rw [htype] at h
      obtain rfl := Option.some.inj h
      simp only [idTexts, printId_eq, List.map_cons, List.map_nil]
  · cases h

/-- INTERNAL: an echoed id is read back. -/
theorem clOrdId_of_echo {app : FixApp} {msg : ExecutionReport} {now : ℤ} {e : ExecEvent} {id : UInt64}
    (hecho : msg.clOrdID = .value (printId id)) (h : app.onExecutionReport msg now = .ok e) : e.clOrdId = id := by
  have hcl := (onExecutionReport_eq_ok h).1
  rw [hecho] at hcl
  have hread : strtoull (printId id) = e.clOrdId := Except.ok.inj hcl
  rw [← hread, strtoull_printId]

/-- INTERNAL: `on_exec` picks a slot with an id exactly when the report has the id and a slot of
its symbol stores it. -/
theorem exists_picks_iff (m : MarketMaker) (e : ExecEvent) (x : UInt64) :
    (∃ sym side, Stores m e sym side x ∧ Picks m sym e side) ↔
      e.clOrdId = x ∧ ∃ sym side, Stores m e sym side x := by
  constructor
  · rintro ⟨sym, side, hstores, hpicks⟩
    exact ⟨hpicks.1.symm.trans hstores.2, sym, side, hstores⟩
  · rintro ⟨rfl, sym, side, hsym, hid⟩
    by_cases hbuy : (m.slot sym .buy).clOrdId = e.clOrdId
    · exact ⟨sym, .buy, ⟨hsym, hbuy⟩, hbuy, fun hne => (nomatch hne)⟩
    · cases side with
      | buy => exact absurd hid hbuy
      | sell => exact ⟨sym, .sell, ⟨hsym, hid⟩, hid, fun _ => hbuy⟩

/-- **Order ids survive the wire.**  The texts of every sent message are the whole decimal texts
of the command's ids and fit their buffers, different ids have different texts, a report that
echoes a text is given the id it was printed for, and then `on_exec` picks a slot that stores an
id `x` exactly when the text is that of `x` and there is such a slot; the slot it picks takes the
report and no other slot changes.
SRCLINE: src/fix/fix_app.hpp:147-152, 192-226, src/oms/order_manager.hpp:26-29 -/
theorem id_round_trip (app : FixApp) :
    (∀ c m, app.sendOrderCmd c = some m → idTexts m = (cmdIds c).map fun id => Nat.toDigits 10 id.toNat) ∧
      (∀ id : UInt64, printId id = Nat.toDigits 10 id.toNat ∧ (printId id).length < 24) ∧
      Function.Injective printId ∧
      ∀ (msg : ExecutionReport) (now : ℤ) (e : ExecEvent) (id : UInt64), msg.clOrdID = .value (printId id) →
        app.onExecutionReport msg now = .ok e →
        e.clOrdId = id ∧
          ∀ (m m' : MarketMaker) (es : List Effect), m.execIter e = some (m', es) →
            (∀ x, (∃ sym side, Stores m e sym side x ∧ Picks m sym e side) ↔
              printId id = printId x ∧ ∃ sym side, Stores m e sym side x) ∧
            ∀ sym side, m'.slot sym side =
              if sym.val = e.symbolId ∧ Picks m sym e side then (m.slot sym side).onExec e
              else m.slot sym side := by
  refine ⟨fun c m => idTexts_sendOrderCmd, ?_, printId_injective, ?_⟩
  · intro id
    refine ⟨printId_eq id, ?_⟩
    unfold printId
    rw [List.length_take]
    omega
  · intro msg now e id hecho hconv
    have hid := clOrdId_of_echo hecho hconv
    refine ⟨hid, ?_⟩
    intro m m' es hexec
    constructor
    · intro x
      rw [exists_picks_iff, hid, printId_injective.eq_iff]
    · intro sym side
      obtain ⟨sym', hsym', rfl, -⟩ := execIter_takeExec hexec
      rw [slot_takeExec_eq]
      by_cases hsym : sym = sym'
      · rw [hsym]
        simp only [hsym', true_and]
      · have hne : sym.val ≠ e.symbolId := fun heq => hsym (Fin.ext (heq.trans hsym'.symm))
        rw [if_neg (fun hc => hsym hc.1), if_neg (fun hc => hne hc.1)]

/-- The largest id has twenty digits and is read back. -/
example : strtoull (printId 18446744073709551615) = 18446744073709551615 := by decide

end MmEngine.Analysis
