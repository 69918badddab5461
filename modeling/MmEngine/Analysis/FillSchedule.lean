import MmEngine.Interface.MockRules
import MmEngine.Lib.History
import Mathlib.Algebra.BigOperators.Group.List.Basic

/-!
# Which orders the mock exchange fills

The mock exchange says that it fills every fifth order, but what it counts are its reports: an order is
filled when its New report is the fifth, the tenth and so on of the session, and cancels and fills are
reported too (`fill_run`).  As long as it fills on schedule it has sent one report for each order and
each cancel and one more for every fifth order (`reportsSent_eq`), so the next order is on schedule
exactly when that count agrees with the number of the order (`OnTurn`).
-/

set_option autoImplicit false

namespace MmEngine.Analysis

open MmEngine.Model MmEngine.Model.Mock MmEngine.Interface MmEngine.Lib

/-- The number of orders among the messages. -/
def orders (ms : List Parsed) : ℕ := ms.countP fun m => IsOrder m

/-- The number of cancel requests. -/
def cancels (ms : List Parsed) : ℕ := ms.countP fun m => IsCancel m

/-- The number of reports among all answers. -/
def reportsSent (hs : List (Parsed × List Sent)) : ℕ := (hs.map fun x => reports x.2).sum

/-- Exactly every fifth order is filled, right after its New report. -/
def OnSchedule (hs : List (Parsed × List Sent)) : Prop :=
  AtEach (fun before x => IsOrder x.1 → (NewThenFill x.1 x.2 ↔ 5 ∣ orders (before.map Prod.fst) + 1)) hs

/-- The condition on the messages: with the cancels before it, and one fill for every five orders
before it, an order is the fifth to be reported on exactly when it is a fifth order. -/
def OnTurn (ms : List Parsed) : Prop :=
  AtEach (fun before m => IsOrder m →
    (5 ∣ orders before + cancels before + orders before / 5 + 1 ↔ 5 ∣ orders before + 1)) ms

/-- Every message is answered by the count of the reports before it. -/
def AnsweredByCount (hs : List (Parsed × List Sent)) : Prop :=
  AtEach (fun before x => AnswersTo (reportsSent before) x.1 x.2) hs

variable {hs : List (Parsed × List Sent)} {m : Parsed} {answers : List Sent} {n : ℕ}

theorem reportsSent_concat (x : Parsed × List Sent) : reportsSent (hs ++ [x]) = reportsSent hs + reports x.2 := by
  unfold reportsSent
  rw [List.map_append, List.sum_append]
  exact congrArg _ (List.sum_singleton)

theorem orders_concat (ms : List Parsed) (m : Parsed) :
    orders (ms ++ [m]) = orders ms + if IsOrder m then 1 else 0 := by
  unfold orders
  rw [List.countP_append, List.countP_singleton]
  simp

theorem cancels_concat (ms : List Parsed) (m : Parsed) :
    cancels (ms ++ [m]) = cancels ms + if IsCancel m then 1 else 0 := by
  unfold cancels
  rw [List.countP_append, List.countP_singleton]
  simp

theorem filled_iff (h : AnswersTo n m answers) (hm : IsOrder m) : NewThenFill m answers ↔ 5 ∣ n + 1 := by
  have horder := h.order hm
  constructor
  · intro hfill
    by_contra hno
    rw [if_neg hno] at horder
    exact absurd (hfill.reports_eq.symm.trans horder.reports_eq) (by decide)
  · intro hfifth
    rwa [if_pos hfifth] at horder

/-- INTERNAL: **the reports of a session on schedule**: one for every order and every cancel, and one more
for every fifth order. -/
theorem reportsSent_eq (hcount : AnsweredByCount hs) (hsched : OnSchedule hs) :
    reportsSent hs = orders (hs.map Prod.fst) + cancels (hs.map Prod.fst) + orders (hs.map Prod.fst) / 5 := by
  induction hs using List.reverseRecOn with
  | nil => rfl
  | append_singleton hs x ih =>
    obtain ⟨hcount, hx⟩ := atEach_concat.mp hcount
    obtain ⟨hsched, hfill⟩ := atEach_concat.mp hsched
    rw [reportsSent_concat, ih hcount hsched, List.map_append, List.map_singleton, orders_concat, cancels_concat]
    by_cases hD : IsOrder x.1
    · have hF : ¬ IsCancel x.1 := fun hF => absurd (Option.some.inj (hD.symm.trans hF)) (by decide)
      rw [if_pos hD, if_neg hF]
      have hanswer := hx.order hD
      by_cases hfifth : 5 ∣ reportsSent hs + 1
      · rw [if_pos hfifth] at hanswer
        have hturn := (hfill hD).mp hanswer
        rw [hanswer.reports_eq]
        omega
      · have hturn := mt (hfill hD).mpr (mt (filled_iff hx hD).mp hfifth)
        rw [if_neg hfifth] at hanswer
        rw [hanswer.reports_eq]
        omega
    · by_cases hF : IsCancel x.1
      · rw [if_neg hD, if_pos hF, hx.cancel hF]
        omega
      · rw [if_neg hD, if_neg hF, hx.other hD hF]
        omega

/-- INTERNAL: **on schedule exactly when on turn.** -/
theorem onSchedule_iff (hcount : AnsweredByCount hs) : OnSchedule hs ↔ OnTurn (hs.map Prod.fst) := by
  induction hs using List.reverseRecOn with
  | nil => exact iff_of_true (atEach_nil _) (atEach_nil _)
  | append_singleton hs x ih =>
    obtain ⟨hcount, hx⟩ := atEach_concat.mp hcount
    have hrest := ih hcount
    unfold OnSchedule OnTurn at hrest ⊢
    rw [List.map_append, List.map_singleton, atEach_concat, atEach_concat, ← hrest, and_congr_right_iff]
    intro hsched
    apply imp_congr_right
    intro hD
    rw [filled_iff hx hD, reportsSent_eq hcount hsched]

/-- The counter of a session counts its reports, and its answers are by this count. -/
structure FillInv (r : SessionRun) (h : List RunObs) : Prop where
  counter : r.session.orderNo = reportsSent (handledMessages h)
  answered : AnsweredByCount (handledMessages h)

/-- INTERNAL: **one step** handles a message by the count, or none. -/
theorem fill_step {w : World} (r r' : SessionRun) (h os : List RunObs) (hinv : FillInv r h)
    (hstep : StepOf w r r' os) : FillInv r' (h ++ os) := by
  have hcounter := hinv.counter
  have hanswered := hinv.answered
  cases hstep with
  | received chunk hpc =>
    rw [← handledMessages_received] at hcounter hanswered
    exact ⟨hcounter, hanswered⟩
  | drained hpc hnext =>
    rw [List.append_nil]
    exact ⟨hcounter, hanswered⟩
  | quiet r' hbuf hpc huser hsame =>
    rw [List.append_nil]
    exact ⟨hsame.trans hcounter, hanswered⟩
  | handled hpc raw buf hnext s answers hhandle huser hno hanswers =>
    constructor
    · rw [handledMessages_handled, reportsSent_concat, ← hcounter]
      exact hno
    · rw [handledMessages_handled]
      exact atEach_concat.mpr ⟨hanswered, hcounter ▸ hanswers⟩

theorem fill_run {w : World} {acts : List RunAct} {r : SessionRun} {h : List RunObs}
    (hrun : run (recorded (runStep w)) ({}, []) acts = some (r, h)) : FillInv r h :=
  (session_run ⟨rfl, atEach_nil _⟩ fill_step hrun).2

/-- **The mock exchange fills every fifth order as long as the reports are on turn.**  In every run of
a session every order is acknowledged, and filled right after that or not at all.  Exactly every fifth
order is filled if and only if for every order, with as many orders and cancels before it as there
were, the count of the reports agrees with the number of the order.
SRCLINE: scripts/mock_exchange.py:11-13, 117-134, 183-193 -/
theorem fill_schedule (w : World) (acts : List RunAct) (r : SessionRun) (h : List RunObs)
    (hrun : run (recorded (runStep w)) ({}, []) acts = some (r, h)) :
    (∀ x ∈ handledMessages h, IsOrder x.1 → NewOnly x.1 x.2 ∨ NewThenFill x.1 x.2) ∧
      (OnSchedule (handledMessages h) ↔ OnTurn ((handledMessages h).map Prod.fst)) := by
  have hcount := (fill_run hrun).answered
  refine ⟨?_, onSchedule_iff hcount⟩
  intro x hx hD
  obtain ⟨before, after, heq⟩ := List.append_of_mem hx
  exact (hcount before x after heq).acked hD

/-! ## A session with one cancel -/

/-- A message a client sends about an order. -/
def orderMessage (msgType : Text) (seq : ℤ) : Message :=
  { msgType := msgType, seq := seq, sender := "MM".toList, target := "ROFX".toList,
    body := [("11".toList, decimal seq), ("38".toList, "10".toList), ("44".toList, "1470.5".toList)],
    now := ⟨2026, 6, 1, 14, 30, 0, 0⟩ }

/-- Four orders, the first of which is cancelled before the second. -/
def oneCancel : List Message :=
  [orderMessage "D".toList 2, orderMessage "F".toList 3, orderMessage "D".toList 4, orderMessage "D".toList 5,
    orderMessage "D".toList 6]

/-- The session receives their bytes at once. -/
def oneCancelActs : List RunAct :=
  .recv (oneCancel.flatMap fun m => m.built.getD []) :: List.replicate 6 .turn

/-- What the session answers: the last order is the fifth to be reported on. -/
theorem run_oneCancel :
    ∃ r h, run (recorded (runStep stillWorld)) ({}, []) oneCancelActs = some (r, h) ∧
      (handledMessages h).map (fun x => (decide (IsOrder x.1), decide (IsCancel x.1), reports x.2)) =
        [(true, false, 1), (false, true, 1), (true, false, 1), (true, false, 1)] ++ [(true, false, 2)] := by
  have hfacts : (run (recorded (runStep stillWorld)) ({}, []) oneCancelActs).map (fun x =>
      (handledMessages x.2).map fun y => (decide (IsOrder y.1), decide (IsCancel y.1), reports y.2)) =
      some ([(true, false, 1), (false, true, 1), (true, false, 1), (true, false, 1)] ++ [(true, false, 2)]) := by
    decide +kernel
  obtain ⟨⟨r, h⟩, hrun, hfacts⟩ := Option.map_eq_some_iff.mp hfacts
  exact ⟨r, h, hrun, hfacts⟩

/-- The answers to these messages are on schedule exactly when they are on turn. -/
theorem fill_schedule_run_oneCancel :
    ∃ r h, run (recorded (runStep stillWorld)) ({}, []) oneCancelActs = some (r, h) ∧
      (∀ x ∈ handledMessages h, IsOrder x.1 → NewOnly x.1 x.2 ∨ NewThenFill x.1 x.2) ∧
      (OnSchedule (handledMessages h) ↔ OnTurn ((handledMessages h).map Prod.fst)) := by
  obtain ⟨r, h, hrun, -⟩ := run_oneCancel
  exact ⟨r, h, hrun, fill_schedule _ oneCancelActs r h hrun⟩

/-- **The fourth order is filled after one cancel.** -/
theorem fill_schedule_fourthOrder :
    ∃ r h before m answers, run (recorded (runStep stillWorld)) ({}, []) oneCancelActs = some (r, h) ∧
      handledMessages h = before ++ [(m, answers)] ∧ IsOrder m ∧ orders (before.map Prod.fst) + 1 = 4 ∧
      NewThenFill m answers ∧ ¬ OnSchedule (handledMessages h) := by
  obtain ⟨r, h, hrun, hfacts⟩ := run_oneCancel
  obtain ⟨before, last, hsplit, hbefore, hlast⟩ := List.map_eq_append_iff.mp hfacts
  obtain ⟨⟨m, answers⟩, rfl, hflags⟩ := List.map_eq_singleton_iff.mp hlast
  obtain ⟨hD, hflags⟩ := Prod.mk.inj hflags
  have hD : IsOrder m := of_decide_eq_true hD
  have hreports : reports answers = 2 := (Prod.mk.inj hflags).2
  have horders : orders (before.map Prod.fst) = 3 := by
    have hcount := congrArg (List.countP fun y : Bool × Bool × ℕ => y.1) hbefore
    rw [List.countP_map] at hcount
    unfold orders
    rw [List.countP_map]
    exact hcount
  have hfill : NewThenFill m answers := by
    apply (((fill_run hrun).answered before (m, answers) [] hsplit).acked hD).resolve_left
    intro hnew
    rw [hnew.reports_eq] at hreports
    cases hreports
  refine ⟨r, h, before, m, answers, hrun, hsplit, hD, by rw [horders], hfill, ?_⟩
  intro hsched
  have hfifth := (hsched before (m, answers) [] hsplit hD).mp hfill
  rw [horders] at hfifth
  exact absurd hfifth (by decide)

end MmEngine.Analysis
