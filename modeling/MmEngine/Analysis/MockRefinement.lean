import MmEngine.Analysis.MockFraming
import MmEngine.Lib.DecimalText
import MmEngine.Lib.Renaming
import Mathlib.Data.List.Forall2

/-!
# The session on bytes and the one on typed messages

`MockSession` takes the order messages the engine sends and answers with the reports the engine
reads; `Mock.Session` reads dictionaries of texts and writes fields of texts.  They are the same mock
exchange: a session that handles the dictionary of an order message counts as `MockSession` does, and
the first value of every tag of its answers is the field of the typed report (`handle_refines`).  How
the peers write a number is up to them: `Writes t q` says that the text `t` is the number `q`.
-/

set_option autoImplicit false

namespace MmEngine.Analysis

open MmEngine.Model MmEngine.Model.Mock MmEngine.Interface MmEngine.Lib

/-- A text is read for a typed field, or none for one that is absent. -/
def ReadAs {α : Type} (R : Text → α → Prop) : Option Text → Model.Field α → Prop
  | some t, .value a => R t a
  | none, .absent => True
  | _, _ => False

/-- The text of one character. -/
def IsChar (t : Text) (c : Char) : Prop := t = [c]

section Refinement

variable (Writes : Text → ℚ → Prop)

/-- The dictionary echoes these fields. -/
structure Echoes (m : Parsed) (e : Echo) : Prop where
  clOrdID : m.get "11".toList = some e.clOrdID
  symbol : m.get "55".toList = some e.symbol
  side : m.get "54".toList = some [e.side]

/-- The dictionary is that of the order message. -/
inductive ReadFrom (m : Parsed) : OrderMsg → Prop where
  | newOrderSingle (o : NewOrderSingle) (qty px : Text) (htype : IsOrder m)
    (hecho : Echoes m { clOrdID := o.clOrdID, symbol := o.symbol, side := o.side })
    (hqty : m.get "38".toList = some qty) (hwritesQty : Writes qty o.orderQty)
    (hpx : m.get "44".toList = some px) (hwritesPx : Writes px o.price) : ReadFrom m (.newOrderSingle o)
  | orderCancelRequest (x : OrderCancelRequest) (htype : IsCancel m)
    (hecho : Echoes m { clOrdID := x.clOrdID, symbol := x.symbol, side := x.side }) :
    ReadFrom m (.orderCancelRequest x)

/-- The message says what the report does. -/
structure Carries (x : Sent) (r : ExecutionReport) : Prop where
  msgType : x.msgType = "8".toList
  orderID : ReadAs Eq (firstValue x.fields "37".toList) r.orderID
  execType : ReadAs IsChar (firstValue x.fields "150".toList) r.execType
  ordStatus : ReadAs IsChar (firstValue x.fields "39".toList) r.ordStatus
  clOrdID : ReadAs Eq (firstValue x.fields "11".toList) r.clOrdID
  symbol : ReadAs Eq (firstValue x.fields "55".toList) r.symbol
  side : ReadAs IsChar (firstValue x.fields "54".toList) r.side
  leavesQty : ReadAs Writes (firstValue x.fields "151".toList) r.leavesQty
  lastPx : ReadAs Writes (firstValue x.fields "31".toList) r.lastPx
  lastQty : ReadAs Writes (firstValue x.fields "32".toList) r.lastQty

end Refinement

theorem firstValue_append (fs gs : List (Text × Text)) (k : Text) :
    firstValue (fs ++ gs) k = (firstValue fs k).or (firstValue gs k) := by
  induction fs with
  | nil => rfl
  | cons f fs ih =>
    rw [List.cons_append, firstValue_cons, firstValue_cons, ih]
    split <;> rfl

theorem firstValue_priceRows {m : Parsed} {k : Text} (hk : "44".toList ≠ k) : firstValue (priceRows m) k = none := by
  unfold priceRows
  split
  · rw [firstValue_cons, if_neg hk]
    rfl
  · rfl

variable {Writes : Text → ℚ → Prop} {w : World} {s s' : Mock.Session} {m : Parsed} {x : Sent} {t : MockSession}

/-- A typed fill and the texts of one. -/
def SameFill (Writes : Text → ℚ → Prop) : Option (Text × Text) → Option (ℚ × ℚ) → Prop
  | some (px, qty), some (p, q) => Writes px p ∧ Writes qty q
  | none, none => True
  | _, _ => False

section Fill

variable {last : Option (Text × Text)} {fill : Option (ℚ × ℚ)} (t : MockSession) (e : Echo)
  (execType ordStatus : Char) (q : ℚ)

theorem SameFill.lastPx (h : SameFill Writes last fill) :
    ReadAs Writes (firstValue (fillRows last) "31".toList) (t.execReport e execType ordStatus q fill).2.lastPx := by
  cases last <;> cases fill <;> first | exact h.elim | exact h.1 | exact h

theorem SameFill.lastQty (h : SameFill Writes last fill) :
    ReadAs Writes (firstValue (fillRows last) "32".toList) (t.execReport e execType ordStatus q fill).2.lastQty := by
  cases last <;> cases fill <;> first | exact h.elim | exact h.2 | exact h

end Fill

/-- INTERNAL: **a report** of the session is that of the typed one.
SRCLINE: scripts/mock_exchange.py:117-134 -/
theorem execReport_refines {e : Echo} {execType ordStatus : Char} {leaves cum : Text} {q : ℚ}
    {last : Option (Text × Text)} {fill : Option (ℚ × ℚ)} (hecho : Echoes m e) (hleaves : Writes leaves q)
    (hfill : SameFill Writes last fill) (ht : t.orderNo = s.orderNo)
    (h : s.execReport w m [execType] [ordStatus] leaves cum last = some (s', x)) :
    s'.orderNo = (t.execReport e execType ordStatus q fill).1.orderNo ∧
      Carries Writes x (t.execReport e execType ordStatus q fill).2 := by
  obtain ⟨-, hno, htype, hfields⟩ := sendMsg_eq_some h
  rw [reportFields_eq] at hfields
  have hread : ∀ {k : Text}, "44".toList ≠ k → firstValue x.fields k =
      (firstValue (reportRows w (s.orderNo + 1) m [execType] [ordStatus] leaves cum) k).or
        (firstValue (fillRows last) k) := by
    intro k hk
    rw [hfields, firstValue_append, firstValue_append, firstValue_priceRows hk, Option.or_none]
  have hrow : ∀ {k v : Text}, "44".toList ≠ k →
      firstValue (reportRows w (s.orderNo + 1) m [execType] [ordStatus] leaves cum) k = some v →
      firstValue x.fields k = some v := by
    intro k v hk hv
    rw [hread hk, hv, Option.some_or]
  have hlast : ∀ {k : Text}, "44".toList ≠ k →
      firstValue (reportRows w (s.orderNo + 1) m [execType] [ordStatus] leaves cum) k = none →
      firstValue x.fields k = firstValue (fillRows last) k := by
    intro k hk hv
    rw [hread hk, hv, Option.none_or]
  have hid : (m.get "11".toList).getD [] = e.clOrdID := by
    rw [hecho.clOrdID]
    rfl
  have hsymbol : (m.get "55".toList).getD (m.symbols.headD []) = e.symbol := by
    rw [hecho.symbol]
    rfl
  have hside : (m.get "54".toList).getD "1".toList = [e.side] := by
    rw [hecho.side]
    rfl
  refine ⟨?_, htype, ?_, ?_, ?_, ?_, ?_, ?_, ?_, ?_, ?_⟩
  · rw [← ht] at hno
    exact hno
  · rw [hrow (v := mockOrderId (s.orderNo + 1)) (by decide) rfl, ← ht]
    exact rfl
  · rw [hrow (v := [execType]) (by decide) rfl]
    exact rfl
  · rw [hrow (v := [ordStatus]) (by decide) rfl]
    exact rfl
  · rw [hrow (v := (m.get "11".toList).getD []) (by decide) rfl, hid]
    exact rfl
  · rw [hrow (v := (m.get "55".toList).getD (m.symbols.headD [])) (by decide) rfl, hsymbol]
    exact rfl
  · rw [hrow (v := (m.get "54".toList).getD "1".toList) (by decide) rfl, hside]
    exact rfl
  · rw [hrow (v := leaves) (by decide) rfl]
    exact hleaves
  · rw [hlast (by decide) rfl]
    exact hfill.lastPx t e execType ordStatus q
  · rw [hlast (by decide) rfl]
    exact hfill.lastQty t e execType ordStatus q

/-- INTERNAL: **a message** is answered as the typed one.
SRCLINE: scripts/mock_exchange.py:183-193 -/
theorem handle_refines {msg : OrderMsg} {answers : List Sent} (hzero : Writes "0".toList 0)
    (hread : ReadFrom Writes m msg) (ht : t.orderNo = s.orderNo) (h : s.handle w m = some (s', answers)) :
    s'.orderNo = (t.handle msg).1.orderNo ∧ List.Forall₂ (Carries Writes) answers (t.handle msg).2 := by
  have hnone : SameFill Writes none none := trivial
  cases hread with
  | newOrderSingle o qty px htype hecho hqty hwritesQty hpx hwritesPx =>
    have hqtyOf : qtyOf m = qty := by
      unfold qtyOf
      rw [hqty]
      rfl
    have hfilled : SameFill Writes (some (px, qty)) (some (o.price, o.orderQty)) := ⟨hwritesPx, hwritesQty⟩
    rw [handle_order_eq w htype, hqtyOf, hpx, Option.getD_some] at h
    obtain ⟨⟨s₁, new⟩, hnew, hrest⟩ := Option.bind_eq_some_iff.mp h
    have hnew : s.execReport w m ['0'] ['0'] qty "0".toList none = some (s₁, new) := hnew
    obtain ⟨hno₁, hcarries₁⟩ := execReport_refines hecho hwritesQty hnone ht hnew
    unfold MockSession.handle
    dsimp only at hrest ⊢
    rw [← hno₁]
    split at hrest
    · next hfifth =>
      obtain ⟨⟨s₂, fill⟩, hfill, heq⟩ := Option.map_eq_some_iff.mp hrest
      obtain ⟨rfl, rfl⟩ := Prod.mk.inj heq
      have hfill : s₁.execReport w m ['F'] ['2'] "0".toList qty (some (px, qty)) = some (s₂, fill) := hfill
      obtain ⟨hno₂, hcarries₂⟩ := execReport_refines hecho hzero hfilled hno₁.symm hfill
      rw [if_pos hfifth]
      exact ⟨hno₂, .cons hcarries₁ (.cons hcarries₂ .nil)⟩
    · next hfifth =>
      obtain ⟨rfl, rfl⟩ := Prod.mk.inj (Option.some.inj hrest)
      rw [if_neg hfifth]
      exact ⟨hno₁, .cons hcarries₁ .nil⟩
  | orderCancelRequest c htype hecho =>
    rw [handle_cancel_eq w htype] at h
    obtain ⟨⟨s₁, canceled⟩, hcanceled, heq⟩ := Option.map_eq_some_iff.mp h
    obtain ⟨rfl, rfl⟩ := Prod.mk.inj heq
    have hcanceled : s.execReport w m ['4'] ['4'] "0".toList "0".toList none = some (s₁, canceled) := hcanceled
    obtain ⟨hno, hcarries⟩ := execReport_refines hecho hzero hnone ht hcanceled
    exact ⟨hno, .cons hcarries .nil⟩

/-! ## Whole sessions -/

/-- The handled messages about orders. -/
def orderTraffic (hs : List (Parsed × List Sent)) : List (Parsed × List Sent) :=
  hs.filter fun x => IsOrder x.1 ∨ IsCancel x.1

/-- The typed session as a machine. -/
def typedStep (t : MockSession) (msg : OrderMsg) : Option (MockSession × List ExecutionReport) := some (t.handle msg)

theorem orderTraffic_concat (hs : List (Parsed × List Sent)) (y : Parsed × List Sent) :
    orderTraffic (hs ++ [y]) = orderTraffic hs ++ if IsOrder y.1 ∨ IsCancel y.1 then [y] else [] := by
  unfold orderTraffic
  rw [List.filter_append, List.filter_singleton]
  simp

/-- The session has answered the messages about orders as the typed one. -/
def TypedInv (Writes : Text → ℚ → Prop) (r : SessionRun) (h : List RunObs) : Prop :=
  ∀ msgs, List.Forall₂ (fun y msg => ReadFrom Writes y.1 msg) (orderTraffic (handledMessages h)) msgs →
    ∃ t reports, run (recorded typedStep) ({}, []) msgs = some (t, reports) ∧ t.orderNo = r.session.orderNo ∧
      List.Forall₂ (Carries Writes) ((orderTraffic (handledMessages h)).flatMap Prod.snd) reports

/-- INTERNAL: **one step** of a session is a step of the typed one, or none. -/
theorem typed_step (hzero : Writes "0".toList 0) (r r' : SessionRun) (h os : List RunObs)
    (hinv : TypedInv Writes r h) (hstep : StepOf w r r' os) : TypedInv Writes r' (h ++ os) := by
  unfold TypedInv at hinv ⊢
  cases hstep with
  | received chunk hpc =>
    rw [handledMessages_received]
    exact hinv
  | drained hpc hnext =>
    rw [List.append_nil]
    exact hinv
  | quiet r' hbuf hpc huser hno =>
    rw [List.append_nil, hno]
    exact hinv
  | handled hpc raw buf hnext s answers hhandle huser hno hanswers =>
    rw [handledMessages_handled, orderTraffic_concat]
    by_cases horder : IsOrder (parse raw) ∨ IsCancel (parse raw)
    · -- a message about an order: the typed session handles one more
      rw [if_pos horder]
      intro msgs hmsgs
      obtain ⟨msgs', last, rfl, hmsgs', hlast⟩ := forall₂_append_left hmsgs
      obtain ⟨msg, rest, hread, hrest, rfl⟩ := List.forall₂_cons_left_iff.mp hlast
      obtain rfl := List.forall₂_nil_left_iff.mp hrest
      obtain ⟨t, rs, hrun, hsame, hcarries⟩ := hinv msgs' hmsgs'
      obtain ⟨hno', hcarries'⟩ := handle_refines hzero hread hsame hhandle
      refine ⟨(t.handle msg).1, rs ++ (t.handle msg).2, ?_, hno'.symm, ?_⟩
      · rw [run_append, hrun]
        rfl
      · rw [List.flatMap_append, List.flatMap_singleton]
        exact List.rel_append hcarries hcarries'
    · -- any other message does not count
      rw [if_neg horder, List.append_nil]
      rw [not_or] at horder
      have hquiet := hanswers.other horder.1 horder.2
      rw [hquiet, Nat.add_zero] at hno
      rw [hno]
      exact hinv

/-- **A session answers the messages about orders as the typed one**, whatever else it handles in
between, and however the bytes arrive.
SRCLINE: scripts/mock_exchange.py:117-134, 137-195 -/
theorem mock_refines {acts : List RunAct} {r : SessionRun} {h : List RunObs} (hzero : Writes "0".toList 0)
    (hrun : run (recorded (runStep w)) ({}, []) acts = some (r, h)) (msgs : List OrderMsg)
    (hread : List.Forall₂ (fun y msg => ReadFrom Writes y.1 msg) (orderTraffic (handledMessages h)) msgs) :
    ∃ t reports, run (recorded typedStep) ({}, []) msgs = some (t, reports) ∧ t.orderNo = r.session.orderNo ∧
      List.Forall₂ (Carries Writes) ((orderTraffic (handledMessages h)).flatMap Prod.snd) reports := by
  have hinit : TypedInv Writes {} [] := by
    intro msgs hmsgs
    obtain rfl := List.forall₂_nil_left_iff.mp hmsgs
    exact ⟨{}, [], rfl, rfl, .nil⟩
  exact (session_run hinit (typed_step hzero) hrun).2 msgs hread

/-- A text is a whole number, or one with a point. -/
def WrittenAs (t : Text) (q : ℚ) : Prop := (readInt t).map (fun n => (n : ℚ)) = some q ∨ readFixed t = some q

instance (t : Text) (q : ℚ) : Decidable (WrittenAs t q) := inferInstanceAs (Decidable (_ ∨ _))

/-- A heartbeat comes before the order. -/
def heartbeatThenOrder : List Message :=
  [clientMessage "0".toList 1 [],
    clientMessage "D".toList 2 [("11".toList, "1000".toList), ("55".toList, "DLR/JUN26".toList),
      ("54".toList, "1".toList), ("38".toList, "2".toList), ("44".toList, "1470.5".toList)]]

/-- The same order with its numbers read. -/
def typedOrder : NewOrderSingle :=
  { clOrdID := "1000".toList, side := '1', account := [], symbol := "DLR/JUN26".toList, orderQty := 2,
    price := 2941 / 2 }

/-- The order is answered alike on bytes and on typed messages. -/
theorem mock_refines_heartbeatThenOrder :
    ∃ (r : SessionRun) (h : List RunObs) (t : MockSession) (reports : List ExecutionReport),
      run (recorded (runStep stillWorld)) ({}, []) [.recv (streamOf heartbeatThenOrder), .turn, .turn, .turn] =
        some (r, h) ∧ r.session.orderNo = 1 ∧
      run (recorded typedStep) ({}, []) [.newOrderSingle typedOrder] = some (t, reports) ∧
      t.orderNo = r.session.orderNo ∧
      List.Forall₂ (Carries WrittenAs) ((orderTraffic (handledMessages h)).flatMap Prod.snd) reports := by
  have hfacts : (run (recorded (runStep stillWorld)) ({}, [])
      [.recv (streamOf heartbeatThenOrder), .turn, .turn, .turn]).map
      (fun x => (x.1.session.orderNo, (orderTraffic (handledMessages x.2)).map fun y =>
        ["35", "11", "55", "54", "38", "44"].map fun k => y.1.get k.toList)) =
      some (1, [["D", "1000", "DLR/JUN26", "1", "2", "1470.5"].map fun v => some v.toList]) := by decide +kernel
  obtain ⟨⟨r, h⟩, hrun, hfacts⟩ := Option.map_eq_some_iff.mp hfacts
  obtain ⟨hno, htraffic⟩ := Prod.mk.inj hfacts
  obtain ⟨y, htraffic, hget⟩ := List.map_eq_singleton_iff.mp htraffic
  have hread : ReadFrom WrittenAs y.1 (.newOrderSingle typedOrder) := by
    simp only [List.map_cons, List.map_nil, List.cons.injEq, and_true] at hget
    obtain ⟨htype, hid, hsymbol, hside, hqty, hpx⟩ := hget
    exact .newOrderSingle _ "2".toList "1470.5".toList htype ⟨hid, hsymbol, hside⟩ hqty (by decide +kernel) hpx
      (by decide +kernel)
  have hzero : WrittenAs "0".toList 0 := by decide +kernel
  obtain ⟨t, reports, hboth⟩ := mock_refines hzero hrun [.newOrderSingle typedOrder] (htraffic ▸ .cons hread .nil)
  exact ⟨r, h, t, reports, hrun, hno, hboth⟩

end MmEngine.Analysis
