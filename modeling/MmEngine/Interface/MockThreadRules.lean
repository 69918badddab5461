import MmEngine.Interface.MockRules
import MmEngine.Model.MockThreads

/-!
# What the threads of a mock session send

The tasks of a message are what `Session.handle` does with it (`serve_replies`), and their texts have
an encoding, so `send_msg` never raises: the whole of it is `sends_of_goes`, which says of a call how
far its message has come.
-/

set_option autoImplicit false

namespace MmEngine.Interface

open MmEngine.Model MmEngine.Model.Mock MmEngine.Lib

variable {w : World}

/-! ## Tasks -/

/-- What `send_msg` is called with. -/
abbrev Call : Type := Text × List (Text × Text)

/-- The messages of the tasks, and the count of the reports after them. -/
def replies (w : World) : ℕ → List Task → ℕ × List Call
  | n, [] => (n, [])
  | n, .send t fs :: rest => ((replies w n rest).1, (t, fs) :: (replies w n rest).2)
  | n, .report m execType ordStatus leaves cum last :: rest =>
    ((replies w (n + 1) rest).1,
      ("8".toList, Session.reportFields w (n + 1) m execType ordStatus leaves cum last) :: (replies w (n + 1) rest).2)
  | n, .fifth m :: rest =>
    if n % 5 = 0 then
      ((replies w (n + 1) rest).1,
        ("8".toList, Session.reportFields w (n + 1) m "F".toList "2".toList "0".toList (orderQty m)
          (some ((m.get "44".toList).getD "0".toList, orderQty m))) :: (replies w (n + 1) rest).2)
    else replies w n rest
  | n, .rename _ :: rest => replies w n rest
  | n, .stop :: rest => replies w n rest
  | n, .subscribe _ _ :: rest => replies w n rest

theorem replies_append (n : ℕ) (xs ys : List Task) :
    replies w n (xs ++ ys) =
      ((replies w (replies w n xs).1 ys).1, (replies w n xs).2 ++ (replies w (replies w n xs).1 ys).2) := by
  induction xs generalizing n with
  | nil => rfl
  | cons x xs ih =>
    cases x with
    | fifth m =>
      rw [List.cons_append, replies, replies]
      split
      · rw [ih]
        rfl
      · exact ih n
    | rename user => exact ih n
    | stop => exact ih n
    | subscribe reqId symbols => exact ih n
    | send t fs =>
      rw [List.cons_append, replies, replies, ih]
      rfl
    | report m execType ordStatus leaves cum last =>
      rw [List.cons_append, replies, replies, ih]
      rfl

/-- A fifth report is followed by the fill. -/
theorem replies_fifth (n : ℕ) (m : Parsed) (rest : List Task) :
    replies w n (.fifth m :: rest) =
      if n % 5 = 0 then
        replies w n (.report m "F".toList "2".toList "0".toList (orderQty m)
          (some ((m.get "44".toList).getD "0".toList, orderQty m)) :: rest)
      else replies w n rest := rfl

/-- What a message was sent with. -/
def Sent.call (x : Sent) : Call := (x.msgType, x.fields)

variable {s s' : Mock.Session} {m : Parsed}

theorem sendMsg_call {t : Text} {fs : List (Text × Text)} {x : Sent} (h : s.sendMsg w t fs = some (s', x)) :
    Sent.call x = (t, fs) := by
  obtain ⟨-, -, ht, hfs⟩ := sendMsg_eq_some h
  exact Prod.ext ht hfs

/-- INTERNAL: **the tasks of a message are what `handle` does with it**, when it raises nothing.
SRCLINE: scripts/mock_exchange.py:160-195 -/
theorem replies_handleTasks {answers : List Sent} (h : s.handle w m = some (s', answers)) :
    replies w s.orderNo (handleTasks m) = (s'.orderNo, answers.map Sent.call) := by
  unfold Session.handle at h
  unfold handleTasks
  dsimp only at h ⊢
  by_cases hA : m.get "35".toList = some "A".toList
  · rw [if_pos hA] at h ⊢
    obtain ⟨⟨s₁, x⟩, hx, h⟩ := Option.bind_eq_some_iff.mp h
    obtain ⟨rfl, rfl⟩ := Prod.mk.inj (Option.some.inj h)
    obtain ⟨-, hno, -⟩ := sendMsg_eq_some hx
    rw [List.map_singleton, sendMsg_call hx, hno]
    rfl
  rw [if_neg hA] at h ⊢
  by_cases h0 : m.get "35".toList = some "0".toList
  · rw [if_pos h0] at h ⊢
    obtain ⟨rfl, rfl⟩ := Prod.mk.inj (Option.some.inj h)
    rfl
  rw [if_neg h0] at h ⊢
  by_cases h1 : m.get "35".toList = some "1".toList
  · rw [if_pos h1] at h ⊢
    obtain ⟨⟨s₁, x⟩, hx, h⟩ := Option.bind_eq_some_iff.mp h
    obtain ⟨rfl, rfl⟩ := Prod.mk.inj (Option.some.inj h)
    obtain ⟨-, hno, -⟩ := sendMsg_eq_some hx
    rw [List.map_singleton, sendMsg_call hx, hno]
    rfl
  rw [if_neg h1] at h ⊢
  by_cases h5 : m.get "35".toList = some "5".toList
  · rw [if_pos h5] at h ⊢
    obtain ⟨⟨s₁, x⟩, hx, h⟩ := Option.bind_eq_some_iff.mp h
    obtain ⟨rfl, rfl⟩ := Prod.mk.inj (Option.some.inj h)
    obtain ⟨-, hno, -⟩ := sendMsg_eq_some hx
    rw [List.map_singleton, sendMsg_call hx, hno]
    rfl
  rw [if_neg h5] at h ⊢
  by_cases hV : m.get "35".toList = some "V".toList
  · rw [if_pos hV] at h ⊢
    obtain ⟨rfl, rfl⟩ := Prod.mk.inj (Option.some.inj h)
    rfl
  rw [if_neg hV] at h ⊢
  by_cases hD : m.get "35".toList = some "D".toList
  · -- the fill depends on the count that the first report left
    rw [if_pos hD] at h ⊢
    obtain ⟨⟨s₁, new⟩, hnew, h⟩ := Option.bind_eq_some_iff.mp h
    obtain ⟨-, hno, -⟩ := sendMsg_eq_some hnew
    rw [replies, replies, ← show s₁.orderNo = s.orderNo + 1 from hno]
    dsimp only at h
    split at h
    · next hfifth =>
      obtain ⟨⟨s₂, fill⟩, hfill, h⟩ := Option.bind_eq_some_iff.mp h
      obtain ⟨rfl, rfl⟩ := Prod.mk.inj (Option.some.inj h)
      obtain ⟨-, hno', -⟩ := sendMsg_eq_some hfill
      rw [if_pos hfifth, List.map_cons, List.map_singleton, sendMsg_call hnew, sendMsg_call hfill, hno']
      rw [show s₁.orderNo = s.orderNo + 1 from hno]
      rfl
    · next hfifth =>
      obtain ⟨rfl, rfl⟩ := Prod.mk.inj (Option.some.inj h)
      rw [if_neg hfifth, List.map_singleton, sendMsg_call hnew]
      rw [show s₁.orderNo = s.orderNo + 1 from hno]
      rfl
  rw [if_neg hD] at h ⊢
  by_cases hF : m.get "35".toList = some "F".toList
  · rw [if_pos hF] at h ⊢
    obtain ⟨⟨s₁, x⟩, hx, h⟩ := Option.bind_eq_some_iff.mp h
    obtain ⟨rfl, rfl⟩ := Prod.mk.inj (Option.some.inj h)
    obtain ⟨-, hno, -⟩ := sendMsg_eq_some hx
    rw [List.map_singleton, sendMsg_call hx, hno]
    rfl
  rw [if_neg hF] at h ⊢
  obtain ⟨rfl, rfl⟩ := Prod.mk.inj (Option.some.inj h)
  rfl

/-- A session alone, on one message after the other. -/
def serve (w : World) : Mock.Session → List Parsed → Option (Mock.Session × List Sent)
  | s, [] => some (s, [])
  | s, m :: ms => (s.handle w m).bind fun (s, answers) => (serve w s ms).map fun (s, more) => (s, answers ++ more)

/-- INTERNAL: **a session alone** raises nothing, and sends the messages of the tasks. -/
theorem serve_replies {ms : List Parsed} (hms : ∀ m ∈ ms, Latin1Dict m) (hu : Latin1 s.user) :
    ∃ s' answers, serve w s ms = some (s', answers) ∧
      replies w s.orderNo (ms.flatMap handleTasks) = (s'.orderNo, answers.map Sent.call) := by
  induction ms generalizing s with
  | nil => exact ⟨s, [], rfl, rfl⟩
  | cons m ms ih =>
    obtain ⟨s₁, answers, hhandle, huser, -⟩ := handle_cases w hu (hms m List.mem_cons_self)
    obtain ⟨s₂, more, hserve, hreplies⟩ := ih (fun m' hm' => hms m' (List.mem_cons_of_mem _ hm')) huser
    refine ⟨s₂, answers ++ more, ?_, ?_⟩
    · rw [serve, hhandle, Option.bind_some]
      dsimp only
      rw [hserve]
      rfl
    · rw [List.flatMap_cons, replies_append, replies_handleTasks hhandle, hreplies, List.map_append]

/-! ## Texts -/

/-- The texts of the task have an encoding. -/
def Latin1Task : Task → Prop
  | .rename user => Latin1 user
  | .send t fs => Latin1 t ∧ Latin1Fields fs
  | .report m execType ordStatus leaves cum last => Latin1Dict m ∧
      Latin1Fields [(execType, ordStatus), (leaves, cum)] ∧ ∀ p ∈ last, Latin1 p.1 ∧ Latin1 p.2
  | .fifth m => Latin1Dict m
  | .stop => True
  | .subscribe reqId symbols => Latin1 reqId ∧ ∀ v ∈ symbols, Latin1 v

theorem latin1_reportFields (w : World) (n : ℕ) (hm : Latin1Dict m) {execType ordStatus leaves cum : Text}
    (hvalues : Latin1Fields [(execType, ordStatus), (leaves, cum)]) {last : Option (Text × Text)}
    (hlast : ∀ p ∈ last, Latin1 p.1 ∧ Latin1 p.2) :
    Latin1Fields (Session.reportFields w n m execType ordStatus leaves cum last) := by
  rw [reportFields_eq, latin1Fields_append, latin1Fields_append]
  exact ⟨⟨latin1_reportRows w _ hm hvalues, latin1_priceRows hm⟩, latin1_fillRows hlast⟩

theorem latin1_orderQty (hm : Latin1Dict m) : Latin1 (orderQty m) := hm.getD _ (by decide)

/-- The fill of an order is a report of texts that have an encoding. -/
theorem latin1_fill (hm : Latin1Dict m) :
    Latin1Task (.report m "F".toList "2".toList "0".toList (orderQty m)
      (some ((m.get "44".toList).getD "0".toList, orderQty m))) := by
  have hzero : Latin1 "0".toList := by decide
  refine ⟨hm, ?_, ?_⟩
  · simp only [latin1Fields_cons]
    exact ⟨by decide, ⟨hzero, latin1_orderQty hm⟩, by decide⟩
  · rintro p hp
    obtain rfl := Option.some.inj hp
    exact ⟨hm.getD _ hzero, latin1_orderQty hm⟩

theorem latin1_symbols (hm : Latin1Dict m) : ∀ v ∈ m.symbols, Latin1 v := by
  unfold Parsed.symbols
  split
  · next vs hvs => exact hm _ _ hvs
  · exact fun v hv => absurd hv List.not_mem_nil

/-- INTERNAL: what `handle` does with a message whose texts have an encoding.
SRCLINE: scripts/mock_exchange.py:160-195 -/
theorem latin1_handleTasks (hm : Latin1Dict m) : ∀ x ∈ handleTasks m, Latin1Task x := by
  have hnil : Latin1 [] := by decide
  have hbeat : Latin1 ((m.get "108".toList).getD "30".toList) := hm.getD _ (by decide)
  unfold handleTasks
  dsimp only
  split_ifs with hA hY h0 h1 h5 hV hnone hD hF
  · rw [List.forall_mem_cons, List.forall_mem_singleton]
    refine ⟨hm.getD _ (by decide), by decide, ?_⟩
    simp only [latin1Fields_cons]
    exact ⟨by decide, ⟨by decide, hbeat⟩, by decide⟩
  · rw [List.forall_mem_cons, List.forall_mem_singleton]
    refine ⟨hm.getD _ (by decide), by decide, ?_⟩
    simp only [latin1Fields_cons]
    exact ⟨by decide, ⟨by decide, hbeat⟩, by decide⟩
  · exact fun x hx => absurd hx List.not_mem_nil
  · rw [List.forall_mem_singleton]
    refine ⟨by decide, ?_⟩
    simp only [latin1Fields_cons]
    exact ⟨⟨by decide, hm.getD _ hnil⟩, by decide⟩
  · rw [List.forall_mem_cons, List.forall_mem_singleton]
    exact ⟨⟨by decide, by decide⟩, trivial⟩
  · rw [List.forall_mem_singleton]
    refine ⟨hm.getD _ (by decide), ?_⟩
    rw [List.forall_mem_singleton]
    decide
  · rw [List.forall_mem_singleton]
    exact ⟨hm.getD _ (by decide), latin1_symbols hm⟩
  · rw [List.forall_mem_cons, List.forall_mem_singleton]
    refine ⟨⟨hm, ?_, no_last⟩, hm⟩
    simp only [latin1Fields_cons]
    exact ⟨by decide, ⟨latin1_orderQty hm, by decide⟩, by decide⟩
  · rw [List.forall_mem_singleton]
    exact ⟨hm, by decide, no_last⟩
  · exact fun x hx => absurd hx List.not_mem_nil

theorem latin1_of_digits {t : Text} (h : ∀ c ∈ t, c.isDigit = true ∨ c = '.' ∨ c = '-') : Latin1 t := by
  intro c hc
  obtain hdigit | rfl | rfl := h c hc
  · have hle := (toNat_of_isDigit hdigit).2
    omega
  · decide
  · decide

theorem latin1_levelFields {side : Text} (hside : Latin1 side) (best away : ℚ) :
    Latin1Fields (levelFields side best away) := by
  intro f hf
  obtain ⟨lvl, -, hf⟩ := List.mem_flatMap.mp hf
  simp only [List.mem_cons, List.not_mem_nil, or_false] at hf
  obtain rfl | rfl | rfl := hf
  · exact ⟨(by decide : Latin1 "269".toList), hside⟩
  · exact ⟨(by decide : Latin1 "270".toList), latin1_of_digits fun c hc => mem_fixedText hc⟩
  · exact ⟨(by decide : Latin1 "271".toList), (plainText_toDigits _).latin1⟩

/-- INTERNAL: and so are the snapshots of a pass.
SRCLINE: scripts/mock_exchange.py:95-113 -/
theorem latin1_passFields {reqId : Text} {symbols : List Text} (hreq : Latin1 reqId)
    (hsyms : ∀ v ∈ symbols, Latin1 v) (elapsed : ℚ) : ∀ fs ∈ passFields reqId symbols elapsed, Latin1Fields fs := by
  intro fs hfs
  obtain ⟨i, hi, rfl⟩ := List.mem_mapIdx.mp hfs
  unfold snapshotFields
  simp only [latin1Fields_append, latin1Fields_cons]
  exact ⟨⟨⟨by decide, hreq⟩, ⟨by decide, hsyms _ (List.getElem_mem hi)⟩, by decide, by decide, by decide⟩,
    latin1_levelFields (by decide) _ _, latin1_levelFields (by decide) _ _⟩

/-! ## Calls of `send_msg` -/

/-- The message a call builds. -/
def messageOf (w : World) (seq : ℕ) (c : Call) (user : Text) : Message :=
  { msgType := c.1, seq := seq, sender := "ROFX".toList, target := user, body := c.2, now := w.sendingTime seq }

theorem built_messageOf (w : World) (seq : ℕ) {c : Call} {user : Text} (ht : Latin1 c.1) (hfs : Latin1Fields c.2)
    (hu : Latin1 user) : (messageOf w seq c user).built = some (latin1Bytes (messageOf w seq c user).text) := by
  have hbody : Latin1 (fieldsText (messageOf w seq c user).bodyFields) :=
    Message.bodyOf_eq ▸ latin1_bodyOf ht (by decide : Latin1 "ROFX".toList) hu hfs
  unfold Message.built
  rw [build_eq_some Message.bodyOf_eq hbody, ← Message.fieldsText_frontFields, Message.text_eq]

/-- What the place in `send_msg` says about the call `c` that began at `d`: how far its message has
come, `none` being the end of it.  Only `sendall` can cut a message short. -/
def HasCome (w : World) (d : Outgoing) (c : Call) (acts : List SendAct) (d' : Outgoing) : Option Sending → Prop
  | some (.reading t fs) => (t, fs) = c ∧ d' = d ∧ .fail ∉ acts
  | some (.writing t fs n) => (t, fs) = c ∧ d' = d ∧ n = d.seq ∧ .fail ∉ acts
  | some (.building t fs) => (t, fs) = c ∧ d' = { d with seq := d.seq + 1 } ∧ .fail ∉ acts
  | some (.sending t fs rest) => (t, fs) = c ∧ .fail ∉ acts ∧ ∃ user sent,
      (messageOf w (d.seq + 1) c user).built = some (sent ++ rest) ∧ d' = { seq := d.seq + 1, out := d.out ++ sent }
  | none => ∃ user sent rest, (messageOf w (d.seq + 1) c user).built = some (sent ++ rest) ∧
      d' = { seq := d.seq + 1, out := d.out ++ sent } ∧ (.fail ∉ acts → rest = [])

/-- The call of a place in `send_msg`. -/
def Sending.call : Sending → Call
  | .reading t fs => (t, fs)
  | .writing t fs _ => (t, fs)
  | .building t fs => (t, fs)
  | .sending t fs _ => (t, fs)

/-- The texts of the action have an encoding. -/
def Latin1Act : SendAct → Prop
  | .next user => Latin1 user
  | .fail => True

/-- INTERNAL: **one step of `send_msg`** takes its message further.
SRCLINE: scripts/mock_exchange.py:81-88 -/
theorem hasCome_step {d d' d'' : Outgoing} {c : Call} {acts : List SendAct} {l : Sending} {next : Option Sending}
    {a : SendAct} (ht : Latin1 c.1) (hfs : Latin1Fields c.2) (ha : Latin1Act a)
    (h : HasCome w d c acts d' (some l)) (hmove : sendStep w d' l a = some (d'', next)) :
    HasCome w d c (acts ++ [a]) d'' next := by
  have hnofail : ∀ {user : Text}, .fail ∉ acts → .fail ∉ acts ++ [SendAct.next user] := by simp
  cases l with
  | reading t fs =>
    obtain ⟨rfl, rfl, hno⟩ := h
    cases a with
    | fail => cases hmove
    | next user =>
      obtain ⟨rfl, rfl⟩ := Prod.mk.inj (Option.some.inj hmove)
      exact ⟨rfl, rfl, rfl, hnofail hno⟩
  | writing t fs n =>
    obtain ⟨rfl, rfl, rfl, hno⟩ := h
    cases a with
    | fail => cases hmove
    | next user =>
      obtain ⟨rfl, rfl⟩ := Prod.mk.inj (Option.some.inj hmove)
      exact ⟨rfl, rfl, hnofail hno⟩
  | building t fs =>
    obtain ⟨rfl, rfl, hno⟩ := h
    cases a with
    | fail => cases hmove
    | next user =>
      have hbuilt : build t ↑(d.seq + 1) "ROFX".toList user fs (w.sendingTime (d.seq + 1)) = some _ :=
        built_messageOf w (d.seq + 1) (c := (t, fs)) ht hfs ha
      simp only [sendStep] at hmove
      rw [hbuilt] at hmove
      obtain ⟨rfl, rfl⟩ := Prod.mk.inj (Option.some.inj hmove)
      exact ⟨rfl, hnofail hno, user, [], hbuilt, by rw [List.append_nil]⟩
  | sending t fs rest =>
    obtain ⟨rfl, hno, user, sent, hbuilt, rfl⟩ := h
    cases a with
    | fail =>
      have hend : (({ seq := d.seq + 1, out := d.out ++ sent } : Outgoing), (none : Option Sending)) = (d'', next) := by
        cases rest <;> exact Option.some.inj hmove
      obtain ⟨rfl, rfl⟩ := Prod.mk.inj hend
      exact ⟨user, sent, rest, hbuilt, rfl, fun h => absurd (List.mem_append_right _ (List.mem_singleton_self _)) h⟩
    | next user' =>
      cases rest with
      | nil =>
        obtain ⟨rfl, rfl⟩ := Prod.mk.inj (Option.some.inj hmove)
        exact ⟨user, sent, [], hbuilt, rfl, fun _ => rfl⟩
      | cons b rest =>
        obtain ⟨rfl, rfl⟩ := Prod.mk.inj (Option.some.inj hmove)
        refine ⟨rfl, hnofail hno, user, sent ++ [b], ?_, ?_⟩
        · rw [List.append_assoc]
          exact hbuilt
        · rw [List.append_assoc]

/-- INTERNAL: **a call of `send_msg`**, as far as it has come.
SRCLINE: scripts/mock_exchange.py:81-88 -/
theorem hasCome_of_goes {d d' : Outgoing} {t : Text} {fs : List (Text × Text)} {acts : List SendAct}
    {next : Option Sending} (ht : Latin1 t) (hfs : Latin1Fields fs) (hacts : ∀ a ∈ acts, Latin1Act a)
    (h : Goes (sendStep w) d (.reading t fs) acts d' next) : HasCome w d (t, fs) acts d' next := by
  induction h with
  | begun => exact ⟨rfl, rfl, List.not_mem_nil⟩
  | onward before move ih =>
    have hbefore := ih fun a ha => hacts a (List.mem_append_left _ ha)
    exact hasCome_step ht hfs (hacts _ (List.mem_append_right _ (List.mem_singleton_self _))) hbefore move

end MmEngine.Interface
