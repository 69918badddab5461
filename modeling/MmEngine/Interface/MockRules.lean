import MmEngine.Interface.WireRules
import MmEngine.Model.MockServer

/-!
# What the sessions of the mock exchange answer

Every text a session has was decoded from bytes, or is its own, so it is latin-1 and every answer is
built: `handle` raises nothing (`handle_cases`).  The counter `order_no` counts the reports, of
whatever kind, and it alone decides which orders are filled.
-/

set_option autoImplicit false

namespace MmEngine.Interface

open MmEngine.Model MmEngine.Model.Mock MmEngine.Lib

/-! ## Dictionaries of latin-1 texts -/

/-- Every text of the entry is latin-1. -/
def Latin1Entry : Entry → Prop
  | .text v => Latin1 v
  | .texts vs => ∀ v ∈ vs, Latin1 v

/-- Every text of the dictionary is. -/
def Latin1Dict (m : Parsed) : Prop := ∀ k e, m k = some e → Latin1Entry e

namespace Latin1Dict

variable {m : Parsed} (h : Latin1Dict m)

include h

theorem get {k v : Text} (hv : m.get k = some v) : Latin1 v := by
  unfold Parsed.get at hv
  split at hv
  · next v' hv' =>
    obtain rfl := Option.some.inj hv
    exact h k _ hv'
  · cases hv

theorem getD (k : Text) {v : Text} (hv : Latin1 v) : Latin1 ((m.get k).getD v) := by
  cases hk : m.get k with
  | none => exact hv
  | some v' => exact h.get hk

theorem symbols : Latin1 (m.symbols.headD []) := by
  unfold Parsed.symbols
  split
  · next vs hvs =>
    cases vs with
    | nil => exact fun c hc => absurd hc List.not_mem_nil
    | cons v vs => exact h _ _ hvs v List.mem_cons_self
  · exact fun c hc => absurd hc List.not_mem_nil

theorem update {k : Text} {e : Entry} (he : Latin1Entry e) : Latin1Dict (Function.update m k (some e)) := by
  intro k' e' hk'
  rw [Function.update_apply] at hk'
  split at hk'
  · rw [← Option.some.inj hk']
    exact he
  · exact h k' e' hk'

end Latin1Dict

theorem mem_of_mem_splitOn {sep c : Char} {raw w : Text} (hw : w ∈ raw.splitOn sep) (hc : c ∈ w) : c ∈ raw := by
  induction raw generalizing w with
  | nil =>
    rw [List.splitOn_nil, List.mem_singleton] at hw
    rwa [hw] at hc
  | cons d raw ih =>
    rw [List.splitOn_cons_eq_if_modifyHead] at hw
    obtain ⟨first, rest, hsplit⟩ := List.exists_cons_of_ne_nil (List.splitOn_ne_nil sep raw)
    rw [hsplit] at hw ih
    split at hw
    · obtain rfl | hw := List.mem_cons.mp hw
      · cases hc
      · exact List.mem_cons_of_mem d (ih hw hc)
    · rw [List.modifyHead_cons] at hw
      obtain rfl | hw := List.mem_cons.mp hw
      · obtain rfl | hc := List.mem_cons.mp hc
        · exact List.mem_cons_self
        · exact List.mem_cons_of_mem d (ih List.mem_cons_self hc)
      · exact List.mem_cons_of_mem d (ih (List.mem_cons_of_mem _ hw) hc)

/-- INTERNAL: a turn of the loop of `parse` keeps the texts latin-1. -/
theorem latin1_parseField {x : Parsed × List Text} {kv : Text} (hkv : Latin1 kv)
    (hx : Latin1Dict x.1 ∧ ∀ v ∈ x.2, Latin1 v) :
    Latin1Dict (parseField x kv).1 ∧ ∀ v ∈ (parseField x kv).2, Latin1 v := by
  have hvalue : Latin1 ((kv.dropWhile (· != '=')).drop 1) :=
    fun c hc => hkv c ((List.dropWhile_suffix _).subset (List.mem_of_mem_drop hc))
  unfold parseField
  split
  · constructor
    · dsimp only
      unfold setDefault
      split
      · exact hx.1
      · exact hx.1.update hvalue
    · dsimp only
      split
      · rw [List.forall_mem_append, List.forall_mem_singleton]
        exact ⟨hx.2, hvalue⟩
      · exact hx.2
  · exact hx

/-- INTERNAL: **the dictionary of a latin-1 text** has latin-1 texts. -/
theorem latin1_parse {raw : Text} (hraw : Latin1 raw) : Latin1Dict (parse raw) := by
  have hloop : ∀ (kvs : List Text) (x : Parsed × List Text), (∀ kv ∈ kvs, Latin1 kv) →
      (Latin1Dict x.1 ∧ ∀ v ∈ x.2, Latin1 v) →
      Latin1Dict (kvs.foldl parseField x).1 ∧ ∀ v ∈ (kvs.foldl parseField x).2, Latin1 v := by
    intro kvs
    induction kvs with
    | nil => exact fun x _ hx => hx
    | cons kv kvs ih =>
      intro x hkvs hx
      rw [List.forall_mem_cons] at hkvs
      exact ih _ hkvs.2 (latin1_parseField hkvs.1 hx)
  have hparts : ∀ kv ∈ raw.splitOn soh, Latin1 kv := fun kv hkv c hc => hraw c (mem_of_mem_splitOn hkv hc)
  have hstart : Latin1Dict (fun _ => none) := fun k e he => nomatch he
  have hend := hloop _ (fun _ => none, []) hparts ⟨hstart, fun v hv => nomatch hv⟩
  exact hend.1.update hend.2

/-! ## Sending -/

/-- The fields have an encoding. -/
def Latin1Fields (fs : List (Text × Text)) : Prop := ∀ f ∈ fs, Latin1 f.1 ∧ Latin1 f.2

instance (fs : List (Text × Text)) : Decidable (Latin1Fields fs) :=
  List.decidableBAll (fun f : Text × Text => Latin1 f.1 ∧ Latin1 f.2) fs

theorem latin1Fields_cons {f : Text × Text} {fs : List (Text × Text)} :
    Latin1Fields (f :: fs) ↔ (Latin1 f.1 ∧ Latin1 f.2) ∧ Latin1Fields fs := List.forall_mem_cons

theorem latin1Fields_append {fs gs : List (Text × Text)} :
    Latin1Fields (fs ++ gs) ↔ Latin1Fields fs ∧ Latin1Fields gs := List.forall_mem_append

theorem latin1_bodyOf {msgType sender target : Text} {seq : ℤ} {fs : List (Text × Text)} {now : UtcTime}
    (htype : Latin1 msgType) (hsender : Latin1 sender) (htarget : Latin1 target) (hfs : Latin1Fields fs) :
    Latin1 (bodyOf msgType seq sender target fs now) := by
  have htags : Latin1 "35".toList ∧ Latin1 "34".toList ∧ Latin1 "49".toList ∧ Latin1 "52".toList ∧
      Latin1 "56".toList := by decide
  obtain ⟨h35, h34, h49, h52, h56⟩ := htags
  unfold bodyOf
  simp only [latin1_append]
  exact ⟨⟨⟨⟨⟨latin1_field h35 htype, latin1_field h34 (plainText_decimal _).latin1⟩, latin1_field h49 hsender⟩,
    latin1_field h52 (plainText_nowTs _).latin1⟩, latin1_field h56 htarget⟩, latin1_fieldsText hfs⟩

/-- A clock that stands still, and a socket that works. -/
def stillWorld : World :=
  { sendingTime := fun _ => ⟨2026, 6, 1, 14, 30, 0, 0⟩
    transactTime := fun _ => ⟨2026, 6, 1, 14, 30, 0, 0⟩
    sendall := fun _ => true }

variable {w : World} {s s' : Mock.Session} {m : Parsed} {x : Sent}

/-- What `send_msg` changes is the sequence number and, when the socket fails, whether the session is
alive.
SRCLINE: scripts/mock_exchange.py:81-88 -/
theorem sendMsg_eq_some {msgType : Text} {fs : List (Text × Text)} (h : s.sendMsg w msgType fs = some (s', x)) :
    s'.user = s.user ∧ s'.orderNo = s.orderNo ∧ x.msgType = msgType ∧ x.fields = fs := by
  obtain ⟨data, -, heq⟩ := Option.map_eq_some_iff.mp h
  obtain ⟨rfl, rfl⟩ := Prod.mk.inj heq
  exact ⟨rfl, rfl, rfl, rfl⟩

/-- INTERNAL: and it raises nothing on latin-1 texts. -/
theorem exists_sendMsg {msgType : Text} {fs : List (Text × Text)} (w : World) (hu : Latin1 s.user)
    (htype : Latin1 msgType) (hfs : Latin1Fields fs) : ∃ s' x, s.sendMsg w msgType fs = some (s', x) := by
  unfold Session.sendMsg
  dsimp only
  rw [build_eq_some rfl (latin1_bodyOf htype (by decide) hu hfs)]
  exact ⟨_, _, rfl⟩

/-! ## Reports -/

/-- The quantity a report is about. -/
def qtyOf (m : Parsed) : Text := (m.get "38".toList).getD "1".toList

/-- The message reports on `m`, with the id of the order and its quantity. -/
structure ReportOn (m : Parsed) (execType ordStatus leaves cum : Text) (x : Sent) : Prop where
  msgType : x.msgType = "8".toList
  fields : [("150".toList, execType), ("39".toList, ordStatus), ("11".toList, (m.get "11".toList).getD []),
    ("38".toList, qtyOf m), ("151".toList, leaves), ("14".toList, cum)] ⊆ x.fields

theorem latin1_mockOrderId (n : ℕ) : Latin1 (mockOrderId n) := by
  have hmock : Latin1 "MOCK".toList := by decide
  have hdigits : Latin1 (padded 6 n) := (plainText_padded 6 n).latin1
  unfold mockOrderId
  rw [List.append_assoc]
  exact latin1_append.mpr ⟨hmock, hdigits⟩

/-- The rows of every report. -/
def reportRows (w : World) (n : ℕ) (m : Parsed) (execType ordStatus leaves cum : Text) : List (Text × Text) :=
  [("37".toList, mockOrderId n), ("17".toList, 'E' :: padded 6 n), ("150".toList, execType),
    ("39".toList, ordStatus), ("11".toList, (m.get "11".toList).getD []),
    ("55".toList, (m.get "55".toList).getD (m.symbols.headD [])), ("207".toList, "ROFX".toList),
    ("54".toList, (m.get "54".toList).getD "1".toList), ("38".toList, qtyOf m), ("151".toList, leaves),
    ("14".toList, cum), ("60".toList, nowTs (w.transactTime n))]

/-- The row of a price that is there. -/
def priceRows (m : Parsed) : List (Text × Text) :=
  match m.get "44".toList with
  | some (c :: px) => [("44".toList, c :: px)]
  | _ => []

/-- The rows of a fill. -/
def fillRows : Option (Text × Text) → List (Text × Text)
  | some (lastPx, lastQty) => [("31".toList, lastPx), ("32".toList, lastQty)]
  | none => []

/-- SRCLINE: scripts/mock_exchange.py:119-133 -/
theorem reportFields_eq (w : World) (n : ℕ) (m : Parsed) (execType ordStatus leaves cum : Text)
    (last : Option (Text × Text)) : Session.reportFields w n m execType ordStatus leaves cum last =
      reportRows w n m execType ordStatus leaves cum ++ priceRows m ++ fillRows last := by
  unfold Session.reportFields priceRows fillRows
  generalize m.get "44".toList = price
  have hprice : price = none ∨ price = some [] ∨ ∃ c px, price = some (c :: px) := by
    rcases price with - | - | ⟨c, px⟩ <;> simp
  obtain rfl | rfl | ⟨c, px, rfl⟩ := hprice
  · cases last <;> · rw [List.append_nil]; rfl
  · cases last <;> · rw [List.append_nil]; rfl
  · cases last with
    | none => exact (List.append_nil _).symm
    | some p => rfl

theorem latin1_reportRows (w : World) (n : ℕ) (hm : Latin1Dict m) {execType ordStatus leaves cum : Text}
    (hvalues : Latin1Fields [(execType, ordStatus), (leaves, cum)]) :
    Latin1Fields (reportRows w n m execType ordStatus leaves cum) := by
  have hnil : Latin1 [] := by decide
  have hone : Latin1 "1".toList := by decide
  have hid : Latin1 ('E' :: padded 6 n) :=
    latin1_append (s := ['E']).mpr ⟨by decide, (plainText_padded 6 n).latin1⟩
  obtain ⟨⟨hexec, hstatus⟩, ⟨hleaves, hcum⟩, -⟩ := by simpa only [latin1Fields_cons] using hvalues
  unfold reportRows
  simp only [latin1Fields_cons]
  exact ⟨⟨by decide, latin1_mockOrderId n⟩, ⟨by decide, hid⟩, ⟨by decide, hexec⟩, ⟨by decide, hstatus⟩,
    ⟨by decide, hm.getD _ hnil⟩, ⟨by decide, hm.getD _ hm.symbols⟩, by decide, ⟨by decide, hm.getD _ hone⟩,
    ⟨by decide, hm.getD _ hone⟩, ⟨by decide, hleaves⟩, ⟨by decide, hcum⟩,
    ⟨by decide, (plainText_nowTs _).latin1⟩, by decide⟩

theorem latin1_priceRows (hm : Latin1Dict m) : Latin1Fields (priceRows m) := by
  have htag : Latin1 "44".toList := by decide
  unfold priceRows
  split
  · next c px hpx => exact latin1Fields_cons.mpr ⟨⟨htag, hm.get hpx⟩, by decide⟩
  · decide

theorem latin1_fillRows {last : Option (Text × Text)} (hlast : ∀ p ∈ last, Latin1 p.1 ∧ Latin1 p.2) :
    Latin1Fields (fillRows last) := by
  cases last with
  | none => decide
  | some p =>
    obtain ⟨hpx, hqty⟩ := hlast p rfl
    unfold fillRows
    simp only [latin1Fields_cons]
    exact ⟨⟨by decide, hpx⟩, ⟨by decide, hqty⟩, by decide⟩

theorem reportRows_sublist (w : World) (n : ℕ) (m : Parsed) (execType ordStatus leaves cum : Text) :
    [("150".toList, execType), ("39".toList, ordStatus), ("11".toList, (m.get "11".toList).getD []),
      ("38".toList, qtyOf m), ("151".toList, leaves), ("14".toList, cum)].Sublist
      (reportRows w n m execType ordStatus leaves cum) :=
  .cons _ (.cons _ (.cons_cons _ (.cons_cons _ (.cons_cons _ (.cons _ (.cons _ (.cons _ (.cons_cons _
    (.cons_cons _ (.cons_cons _ (.cons _ .slnil)))))))))))

theorem no_last : ∀ p ∈ (none : Option (Text × Text)), Latin1 p.1 ∧ Latin1 p.2 := fun _ hp => nomatch hp

/-- INTERNAL: **a report** counts, and raises nothing on latin-1 texts.
SRCLINE: scripts/mock_exchange.py:117-134 -/
theorem exists_execReport (w : World) (hu : Latin1 s.user) (hm : Latin1Dict m)
    {execType ordStatus leaves cum : Text} (hvalues : Latin1Fields [(execType, ordStatus), (leaves, cum)])
    {last : Option (Text × Text)} (hlast : ∀ p ∈ last, Latin1 p.1 ∧ Latin1 p.2) :
    ∃ s' x, s.execReport w m execType ordStatus leaves cum last = some (s', x) ∧ s'.user = s.user ∧
      s'.orderNo = s.orderNo + 1 ∧ ReportOn m execType ordStatus leaves cum x ∧ fillRows last ⊆ x.fields := by
  have hfields : Latin1Fields (Session.reportFields w (s.orderNo + 1) m execType ordStatus leaves cum last) := by
    rw [reportFields_eq, latin1Fields_append, latin1Fields_append]
    exact ⟨⟨latin1_reportRows w _ hm hvalues, latin1_priceRows hm⟩, latin1_fillRows hlast⟩
  obtain ⟨s', x, hsend⟩ :=
    exists_sendMsg (s := { s with orderNo := s.orderNo + 1 }) w hu (by decide : Latin1 "8".toList) hfields
  obtain ⟨huser, hno, htype, hrows⟩ := sendMsg_eq_some hsend
  rw [reportFields_eq] at hrows
  refine ⟨s', x, hsend, huser, hno, ⟨htype, ?_⟩, ?_⟩
  · rw [hrows, List.append_assoc]
    apply List.subset_append_of_subset_left
    exact (reportRows_sublist w _ m execType ordStatus leaves cum).subset
  · rw [hrows]
    exact List.subset_append_right _ _

/-! ## Answers -/

/-- A NewOrderSingle. -/
def IsOrder (m : Parsed) : Prop := m.get "35".toList = some "D".toList

/-- An OrderCancelRequest. -/
def IsCancel (m : Parsed) : Prop := m.get "35".toList = some "F".toList

instance (m : Parsed) : Decidable (IsOrder m) := inferInstanceAs (Decidable (_ = _))

instance (m : Parsed) : Decidable (IsCancel m) := inferInstanceAs (Decidable (_ = _))

/-- The order is acknowledged. -/
def NewOnly (m : Parsed) (answers : List Sent) : Prop :=
  ∃ new, answers = [new] ∧ ReportOn m "0".toList "0".toList (qtyOf m) "0".toList new

/-- The order is acknowledged, and then filled completely. -/
def NewThenFill (m : Parsed) (answers : List Sent) : Prop :=
  ∃ new fill, answers = [new, fill] ∧ ReportOn m "0".toList "0".toList (qtyOf m) "0".toList new ∧
    ReportOn m "F".toList "2".toList "0".toList (qtyOf m) fill ∧ ("32".toList, qtyOf m) ∈ fill.fields

/-- The number of reports among the answers. -/
def reports (answers : List Sent) : ℕ := answers.countP fun x => x.msgType = "8".toList

/-- What a session answers to a message when it has sent `n` reports. -/
structure AnswersTo (n : ℕ) (m : Parsed) (answers : List Sent) : Prop where
  order : IsOrder m → if 5 ∣ n + 1 then NewThenFill m answers else NewOnly m answers
  cancel : IsCancel m → reports answers = 1
  other : ¬ IsOrder m → ¬ IsCancel m → reports answers = 0

theorem NewOnly.reports_eq {answers : List Sent} (h : NewOnly m answers) : reports answers = 1 := by
  obtain ⟨new, rfl, hnew⟩ := h
  simp [reports, hnew.msgType]

theorem NewThenFill.reports_eq {answers : List Sent} (h : NewThenFill m answers) : reports answers = 2 := by
  obtain ⟨new, fill, rfl, hnew, hfill, -⟩ := h
  simp [reports, hnew.msgType, hfill.msgType]

theorem AnswersTo.acked {n : ℕ} {answers : List Sent} (h : AnswersTo n m answers) (hm : IsOrder m) :
    NewOnly m answers ∨ NewThenFill m answers := by
  have horder := h.order hm
  split at horder
  · exact Or.inr horder
  · exact Or.inl horder

/-- SRCLINE: scripts/mock_exchange.py:183-190 -/
theorem handle_order_eq (w : World) (hD : IsOrder m) :
    s.handle w m = (s.execReport w m "0".toList "0".toList (qtyOf m) "0".toList none).bind fun (s₁, new) =>
      if s₁.orderNo % 5 = 0 then
        (s₁.execReport w m "F".toList "2".toList "0".toList (qtyOf m)
          (some ((m.get "44".toList).getD "0".toList, qtyOf m))).map fun (s₂, fill) => (s₂, [new, fill])
      else some (s₁, [new]) := by
  unfold IsOrder at hD
  unfold Session.handle qtyOf
  dsimp only
  rw [hD, if_neg (by decide), if_neg (by decide), if_neg (by decide), if_neg (by decide), if_neg (by decide),
    if_pos rfl]
  simp only [Option.bind_eq_bind, Option.map_eq_bind, Function.comp_def]

/-- SRCLINE: scripts/mock_exchange.py:191-193 -/
theorem handle_cancel_eq (w : World) (hF : IsCancel m) :
    s.handle w m = (s.execReport w m "4".toList "4".toList "0".toList "0".toList none).map
      fun (s', canceled) => (s', [canceled]) := by
  unfold IsCancel at hF
  unfold Session.handle
  dsimp only
  rw [hF, if_neg (by decide), if_neg (by decide), if_neg (by decide), if_neg (by decide), if_neg (by decide),
    if_neg (by decide), if_pos rfl]
  simp only [Option.bind_eq_bind, Option.map_eq_bind, Function.comp_def]

/-- INTERNAL: an order is acknowledged, and filled when the count is a multiple of five. -/
theorem handle_order (w : World) (hu : Latin1 s.user) (hm : Latin1Dict m) (hD : IsOrder m) :
    ∃ s' answers, s.handle w m = some (s', answers) ∧ s'.user = s.user ∧ s'.orderNo = s.orderNo + reports answers ∧
      if 5 ∣ s.orderNo + 1 then NewThenFill m answers else NewOnly m answers := by
  have hzero : Latin1 "0".toList := by decide
  have hone : Latin1 "1".toList := by decide
  have hqty : Latin1 (qtyOf m) := hm.getD _ hone
  have hnewValues : Latin1Fields [("0".toList, "0".toList), (qtyOf m, "0".toList)] := by
    simp only [latin1Fields_cons]
    exact ⟨by decide, ⟨hqty, hzero⟩, by decide⟩
  have hfillValues : Latin1Fields [("F".toList, "2".toList), ("0".toList, qtyOf m)] := by
    simp only [latin1Fields_cons]
    exact ⟨by decide, ⟨hzero, hqty⟩, by decide⟩
  obtain ⟨s₁, new, hnew, huser₁, hno₁, hnewOn, -⟩ := exists_execReport w hu hm hnewValues no_last
  have hlast : ∀ p ∈ some ((m.get "44".toList).getD "0".toList, qtyOf m), Latin1 p.1 ∧ Latin1 p.2 := by
    rintro p hp
    obtain rfl := Option.some.inj hp
    exact ⟨hm.getD _ hzero, hqty⟩
  obtain ⟨s₂, fill, hfill, huser₂, hno₂, hfillOn, hrows⟩ :=
    exists_execReport (s := s₁) w (huser₁ ▸ hu) hm hfillValues hlast
  have hhandle : s.handle w m =
      if s₁.orderNo % 5 = 0 then some (s₂, [new, fill]) else some (s₁, [new]) := by
    rw [handle_order_eq w hD, hnew, Option.bind_some]
    simp only [hfill]
    rfl
  have hmod : s₁.orderNo % 5 = 0 ↔ 5 ∣ s.orderNo + 1 := by
    rw [hno₁]
    exact Nat.dvd_iff_mod_eq_zero.symm
  by_cases hfifth : 5 ∣ s.orderNo + 1
  · have hfilled : NewThenFill m [new, fill] := ⟨new, fill, rfl, hnewOn, hfillOn, hrows (by simp [fillRows])⟩
    rw [if_pos (hmod.mpr hfifth)] at hhandle
    refine ⟨s₂, _, hhandle, huser₂.trans huser₁, ?_, ?_⟩
    · rw [hfilled.reports_eq, hno₂, hno₁]
    · rw [if_pos hfifth]
      exact hfilled
  · have hacked : NewOnly m [new] := ⟨new, rfl, hnewOn⟩
    rw [if_neg (mt hmod.mp hfifth)] at hhandle
    refine ⟨s₁, _, hhandle, huser₁, ?_, ?_⟩
    · rw [hacked.reports_eq, hno₁]
    · rw [if_neg hfifth]
      exact hacked

theorem handle_cancel (w : World) (hu : Latin1 s.user) (hm : Latin1Dict m) (hF : IsCancel m) :
    ∃ s' answers, s.handle w m = some (s', answers) ∧ s'.user = s.user ∧ s'.orderNo = s.orderNo + 1 ∧
      reports answers = 1 := by
  have hvalues : Latin1Fields [("4".toList, "4".toList), ("0".toList, "0".toList)] := by decide
  obtain ⟨s', x, hx, huser, hno, hon, -⟩ := exists_execReport w hu hm hvalues no_last
  refine ⟨s', [x], ?_, huser, hno, ?_⟩
  · rw [handle_cancel_eq w hF, hx]
    rfl
  · simp [reports, hon.msgType]

theorem exists_sendMsg_quiet {msgType : Text} {fs : List (Text × Text)} (w : World) (hu : Latin1 s.user)
    (htype : Latin1 msgType) (hne : msgType ≠ "8".toList) (hfs : Latin1Fields fs) :
    ∃ s' x, s.sendMsg w msgType fs = some (s', x) ∧ Latin1 s'.user ∧ s'.orderNo = s.orderNo ∧ reports [x] = 0 := by
  obtain ⟨s', x, hsend⟩ := exists_sendMsg w hu htype hfs
  obtain ⟨huser, hno, hx, -⟩ := sendMsg_eq_some hsend
  refine ⟨s', x, hsend, huser ▸ hu, hno, ?_⟩
  unfold reports
  rw [List.countP_singleton, if_neg]
  rw [decide_eq_true_eq, hx]
  exact hne

/-- INTERNAL: anything else is answered without a report.
SRCLINE: scripts/mock_exchange.py:160-182, 194-195 -/
theorem handle_other (w : World) (hu : Latin1 s.user) (hm : Latin1Dict m) (hD : ¬ IsOrder m) (hF : ¬ IsCancel m) :
    ∃ s' answers, s.handle w m = some (s', answers) ∧ Latin1 s'.user ∧ s'.orderNo = s.orderNo ∧
      reports answers = 0 := by
  have hnil : Latin1 [] := by decide
  unfold IsOrder at hD
  unfold IsCancel at hF
  unfold Session.handle
  dsimp only
  by_cases hA : m.get "35".toList = some "A".toList
  · -- a logon renames the user
    rw [if_pos hA]
    have huser : Latin1 ((m.get "49".toList).getD "CLIENT".toList) := hm.getD _ (by decide)
    have hfields : Latin1Fields (if m.get "141".toList = some "Y".toList then
        [("98".toList, "0".toList), ("108".toList, (m.get "108".toList).getD "30".toList),
          ("141".toList, "Y".toList), ("1137".toList, "9".toList)]
        else [("98".toList, "0".toList), ("108".toList, (m.get "108".toList).getD "30".toList),
          ("1137".toList, "9".toList)]) := by
      have hbeat : Latin1 ((m.get "108".toList).getD "30".toList) := hm.getD _ (by decide)
      split <;>
      · simp only [latin1Fields_cons]
        refine ⟨by decide, ⟨by decide, hbeat⟩, by decide⟩
    obtain ⟨s', logon, hsend, huser', hno, hquiet⟩ :=
      exists_sendMsg_quiet (s := { s with user := (m.get "49".toList).getD "CLIENT".toList }) w huser
        (by decide : Latin1 "A".toList) (by decide) hfields
    rw [hsend]
    exact ⟨s', [logon], rfl, huser', hno, hquiet⟩
  rw [if_neg hA]
  by_cases h0 : m.get "35".toList = some "0".toList
  · rw [if_pos h0]
    exact ⟨s, [], rfl, hu, rfl, rfl⟩
  rw [if_neg h0]
  by_cases h1 : m.get "35".toList = some "1".toList
  · rw [if_pos h1]
    have hid : Latin1 ((m.get "112".toList).getD []) := hm.getD _ hnil
    have hfields : Latin1Fields [("112".toList, (m.get "112".toList).getD [])] := by
      simp only [latin1Fields_cons]
      exact ⟨⟨by decide, hid⟩, by decide⟩
    obtain ⟨s', heartbeat, hsend, hrest⟩ :=
      exists_sendMsg_quiet w hu (by decide : Latin1 "0".toList) (by decide) hfields
    rw [hsend]
    exact ⟨s', [heartbeat], rfl, hrest⟩
  rw [if_neg h1]
  by_cases h5 : m.get "35".toList = some "5".toList
  · rw [if_pos h5]
    have hfields : Latin1Fields [] := by decide
    obtain ⟨s', logout, hsend, hrest⟩ :=
      exists_sendMsg_quiet w hu (by decide : Latin1 "5".toList) (by decide) hfields
    rw [hsend]
    exact ⟨_, [logout], rfl, hrest⟩
  rw [if_neg h5]
  by_cases hV : m.get "35".toList = some "V".toList
  · rw [if_pos hV]
    exact ⟨_, [], rfl, hu, rfl, rfl⟩
  rw [if_neg hV, if_neg hD, if_neg hF]
  exact ⟨s, [], rfl, hu, rfl, rfl⟩

/-- INTERNAL: **a session answers every message** of latin-1 texts, and counts its reports. -/
theorem handle_cases (w : World) (hu : Latin1 s.user) (hm : Latin1Dict m) :
    ∃ s' answers, s.handle w m = some (s', answers) ∧ Latin1 s'.user ∧
      s'.orderNo = s.orderNo + reports answers ∧ AnswersTo s.orderNo m answers := by
  by_cases hD : IsOrder m
  · obtain ⟨s', answers, hhandle, huser, hno, horder⟩ := handle_order w hu hm hD
    refine ⟨s', answers, hhandle, huser ▸ hu, hno, fun _ => horder, ?_, fun hno => absurd hD hno⟩
    intro hF
    have hboth := hD.symm.trans hF
    exact absurd (Option.some.inj hboth) (by decide)
  by_cases hF : IsCancel m
  · obtain ⟨s', answers, hhandle, huser, hno, hone⟩ := handle_cancel w hu hm hF
    refine ⟨s', answers, hhandle, huser ▸ hu, hone ▸ hno, fun hD' => absurd hD' hD, fun _ => hone, ?_⟩
    exact fun _ hno => absurd hF hno
  · obtain ⟨s', answers, hhandle, huser, hno, hzero⟩ := handle_other w hu hm hD hF
    refine ⟨s', answers, hhandle, huser, ?_, fun hD' => absurd hD' hD, fun hF' => absurd hF' hF, fun _ _ => hzero⟩
    rw [hno, hzero, Nat.add_zero]

/-! ## Runs -/

/-- The bytes a session has received. -/
def receivedBytes (h : List RunObs) : List UInt8 :=
  h.flatMap fun
    | .received chunk => chunk
    | .handled _ _ => []

/-- The messages it has handled, with its answers. -/
def handledMessages (h : List RunObs) : List (Parsed × List Sent) :=
  h.filterMap fun
    | .received _ => none
    | .handled m answers => some (m, answers)

theorem receivedBytes_append (h h' : List RunObs) :
    receivedBytes (h ++ h') = receivedBytes h ++ receivedBytes h' := List.flatMap_append

theorem handledMessages_append (h h' : List RunObs) :
    handledMessages (h ++ h') = handledMessages h ++ handledMessages h' := List.filterMap_append

variable {h : List RunObs} {chunk : List UInt8} {answers : List Sent}

theorem receivedBytes_received : receivedBytes (h ++ [.received chunk]) = receivedBytes h ++ chunk := by
  rw [receivedBytes_append]
  exact congrArg _ (List.append_nil chunk)

theorem receivedBytes_handled : receivedBytes (h ++ [.handled m answers]) = receivedBytes h := by
  rw [receivedBytes_append]
  exact List.append_nil _

theorem handledMessages_received : handledMessages (h ++ [.received chunk]) = handledMessages h := by
  rw [handledMessages_append]
  exact List.append_nil _

theorem handledMessages_handled :
    handledMessages (h ++ [.handled m answers]) = handledMessages h ++ [(m, answers)] := by
  rw [handledMessages_append]
  rfl

/-- What a step of a session of latin-1 texts does. -/
inductive StepOf (w : World) (r : SessionRun) : SessionRun → List RunObs → Prop where
  /-- Bytes arrive. -/
  | received (chunk : List UInt8) (hpc : r.pc = .looping) :
    StepOf w r { r with buf := r.buf ++ decodeLatin1 chunk, pc := .draining } [.received chunk]
  /-- There is no whole message in the buffer. -/
  | drained (hpc : r.pc = .draining) (hnext : nextMessage r.buf = none) : StepOf w r { r with pc := .looping } []
  /-- The first one is handled. -/
  | handled (hpc : r.pc = .draining) (raw buf : Text) (hnext : nextMessage r.buf = some (raw, buf))
    (s : Mock.Session) (answers : List Sent) (hhandle : r.session.handle w (parse raw) = some (s, answers))
    (huser : Latin1 s.user) (hno : s.orderNo = r.session.orderNo + reports answers)
    (hanswers : AnswersTo r.session.orderNo (parse raw) answers) :
    StepOf w r { r with session := s, buf := buf } [.handled (parse raw) answers]
  /-- Nothing is received or handled: the loop ends, or market data is sent. -/
  | quiet (r' : SessionRun) (hbuf : r'.buf = r.buf) (hpc : r'.pc = r.pc ∨ r.pc = .looping ∧ r'.pc = .finished)
    (huser : r'.session.user = r.session.user) (hno : r'.session.orderNo = r.session.orderNo) : StepOf w r r' []

/-- The texts of a session are latin-1. -/
structure Latin1Run (r : SessionRun) : Prop where
  user : Latin1 r.session.user
  buf : Latin1 r.buf

/-- The buffer is cut in two.
SRCLINE: scripts/mock_exchange.py:153 -/
theorem nextMessage_eq_some {buf raw rest : Text} (h : nextMessage buf = some (raw, rest)) : buf = raw ++ rest := by
  obtain ⟨tag, -, hstop⟩ := Option.bind_eq_some_iff.mp h
  obtain ⟨stop, -, heq⟩ := Option.map_eq_some_iff.mp hstop
  obtain ⟨rfl, rfl⟩ := Prod.mk.inj heq
  exact (List.take_append_drop _ buf).symm

theorem length_lt_of_nextMessage {buf raw rest : Text} (h : nextMessage buf = some (raw, rest)) :
    rest.length < buf.length := by
  obtain ⟨tag, htag, hstop⟩ := Option.bind_eq_some_iff.mp h
  obtain ⟨stop, -, heq⟩ := Option.map_eq_some_iff.mp hstop
  obtain ⟨-, rfl⟩ := Prod.mk.inj heq
  obtain ⟨i, hi, -⟩ := Option.map_eq_some_iff.mp htag
  have hlen := le_length_of_findSub hi
  rw [List.drop_zero, List.length_cons] at hlen
  rw [List.length_drop]
  omega

/-- INTERNAL: a turn of the inner loop ends it, or handles a message.
SRCLINE: scripts/mock_exchange.py:146-154 -/
theorem runStep_turn (w : World) {r : SessionRun} (hr : Latin1Run r) (hpc : r.pc = .draining) :
    ∃ r' os, runStep w r .turn = some (r', os) ∧ StepOf w r r' os ∧ receivedBytes os = [] ∧
      (r'.pc ≠ .draining ∨ r'.buf.length < r.buf.length) := by
  simp only [runStep]
  rw [if_pos hpc]
  cases hnext : nextMessage r.buf with
  | none => exact ⟨_, _, rfl, .drained hpc hnext, rfl, Or.inl (by simp)⟩
  | some next =>
    obtain ⟨raw, buf⟩ := next
    have hraw : Latin1 raw := (latin1_append.mp (nextMessage_eq_some hnext ▸ hr.buf)).1
    obtain ⟨s, answers, hhandle, huser, hno, hanswers⟩ := handle_cases w hr.user (latin1_parse hraw)
    simp only [hhandle]
    exact ⟨_, _, rfl, .handled hpc raw buf hnext s answers hhandle huser hno hanswers, rfl,
      Or.inr (length_lt_of_nextMessage hnext)⟩

/-- INTERNAL: **one step** of a session raises nothing.
SRCLINE: scripts/mock_exchange.py:137-158 -/
theorem runStep_cases {r r' : SessionRun} {a : RunAct} {os : List RunObs} (hr : Latin1Run r)
    (h : runStep w r a = some (r', os)) : StepOf w r r' os := by
  cases a with
  | recv chunk =>
    simp only [runStep] at h
    split at h
    · next hcond =>
      split at h
      · obtain ⟨rfl, rfl⟩ := Prod.mk.inj (Option.some.inj h)
        exact .quiet _ rfl (Or.inr ⟨hcond.1, rfl⟩) rfl rfl
      · obtain ⟨rfl, rfl⟩ := Prod.mk.inj (Option.some.inj h)
        exact .received chunk hcond.1
    · cases h
  | reset =>
    simp only [runStep] at h
    split at h
    · next hcond =>
      obtain ⟨rfl, rfl⟩ := Prod.mk.inj (Option.some.inj h)
      exact .quiet _ rfl (Or.inr ⟨hcond.1, rfl⟩) rfl rfl
    · cases h
  | leave =>
    simp only [runStep] at h
    split at h
    · next hcond =>
      obtain ⟨rfl, rfl⟩ := Prod.mk.inj (Option.some.inj h)
      exact .quiet _ rfl (Or.inr ⟨hcond.1, rfl⟩) rfl rfl
    · cases h
  | stream fields =>
    simp only [runStep] at h
    split at h
    · obtain ⟨⟨s, x⟩, hsend, heq⟩ := Option.map_eq_some_iff.mp h
      obtain ⟨huser, hno, -, -⟩ := sendMsg_eq_some hsend
      obtain ⟨rfl, rfl⟩ := Prod.mk.inj heq
      exact .quiet _ rfl (Or.inl rfl) huser hno
    · cases h
  | turn =>
    by_cases hpc : r.pc = .draining
    · obtain ⟨r'', os', hstep, hcases, -⟩ := runStep_turn w hr hpc
      rw [hstep] at h
      obtain ⟨rfl, rfl⟩ := Prod.mk.inj (Option.some.inj h)
      exact hcases
    · simp only [runStep] at h
      rw [if_neg hpc] at h
      cases h

theorem StepOf.latin1 {r r' : SessionRun} {os : List RunObs} (hr : Latin1Run r) (h : StepOf w r r' os) :
    Latin1Run r' := by
  cases h with
  | received chunk hpc => exact ⟨hr.user, latin1_append.mpr ⟨hr.buf, latin1_decodeLatin1 chunk⟩⟩
  | drained hpc hnext => exact ⟨hr.user, hr.buf⟩
  | quiet r' hbuf hpc huser hno => exact ⟨huser ▸ hr.user, hbuf ▸ hr.buf⟩
  | handled hpc raw buf hnext s answers hhandle huser =>
    exact ⟨huser, (latin1_append.mp (nextMessage_eq_some hnext ▸ hr.buf)).2⟩

theorem latin1Run_init : Latin1Run {} := ⟨by decide, by decide⟩

/-- INTERNAL: **the rule for a session**: what its steps preserve holds at the end of every run. -/
theorem session_run {I : SessionRun → List RunObs → Prop} (hinit : I {} [])
    (hstep : ∀ r r' h os, I r h → StepOf w r r' os → I r' (h ++ os)) {acts : List RunAct} {r : SessionRun}
    (hrun : run (recorded (runStep w)) ({}, []) acts = some (r, h)) : Latin1Run r ∧ I r h := by
  apply run_invariant' (I := fun x : SessionRun × List RunObs => Latin1Run x.1 ∧ I x.1 x.2) _
    ⟨latin1Run_init, hinit⟩ hrun
  rintro ⟨r, h⟩ a ⟨r', h'⟩ ⟨hr, hinv⟩ hact
  obtain ⟨os, hos, rfl⟩ := recorded_eq_some.mp hact
  have hcases := runStep_cases hr hos
  exact ⟨hcases.latin1 hr, hstep r r' h os hinv hcases⟩

/-- INTERNAL: **the inner loop ends.**
SRCLINE: scripts/mock_exchange.py:146-154 -/
theorem drain_ends (w : World) {r : SessionRun} (hr : Latin1Run r) (h : List RunObs) :
    ∃ n r' h', run (recorded (runStep w)) (r, h) (List.replicate n .turn) = some (r', h') ∧ r'.pc ≠ .draining ∧
      receivedBytes h' = receivedBytes h := by
  induction hlen : r.buf.length using Nat.strong_induction_on generalizing r h with
  | _ len ih =>
    by_cases hpc : r.pc = .draining
    · obtain ⟨r', os, hturn, hcases, hnone, hend⟩ := runStep_turn w hr hpc
      have hstep : recorded (runStep w) (r, h) .turn = some (r', h ++ os) :=
        recorded_eq_some.mpr ⟨os, hturn, rfl⟩
      have hrec : receivedBytes (h ++ os) = receivedBytes h := by
        rw [receivedBytes_append, hnone, List.append_nil]
      obtain hout | hshort := hend
      · exact ⟨1, r', h ++ os, run_cons_eq_some.mpr ⟨_, hstep, rfl⟩, hout, hrec⟩
      · obtain ⟨n, r'', h'', hrun, hout, hrec'⟩ :=
          ih r'.buf.length (hlen ▸ hshort) (hcases.latin1 hr) (h ++ os) rfl
        refine ⟨n + 1, r'', h'', ?_, hout, hrec'.trans hrec⟩
        rw [List.replicate_succ]
        exact run_cons_eq_some.mpr ⟨_, hstep, hrun⟩
    · exact ⟨0, r, h, rfl, hpc, rfl⟩

end MmEngine.Interface
