import MmEngine.Interface.MockRules

/-!
# The mock exchange handles every message once

However the bytes of a stream of messages are cut into chunks, what a session has received is the
messages it has handled and then its buffer (`FramingInv`).  The buffer is a beginning of the messages
that are left, so the inner loop cuts off the next of them, or has to wait for the rest of it
(`next_of_stream`).  One tag is not read back: under `_symbols` the dictionary has the values of tag 55,
whatever the message says there.
-/

set_option autoImplicit false

namespace MmEngine.Analysis

open MmEngine.Model MmEngine.Model.Mock MmEngine.Interface MmEngine.Lib

/-- The bytes of the messages, one after the other. -/
def streamOf (ms : List Message) : List UInt8 := ms.flatMap fun m => m.built.getD []

/-- The bytes are a head that ends with tag 9, a body, and a trailer.  Tag 9 counts the bytes of the
body, and tag 10 adds up the bytes in front of it. -/
def Framed (data : List UInt8) : Prop :=
  ∃ head body trailer, data = head ++ body ++ trailer ∧
    decodeLatin1 head =
      field "8".toList "FIXT.1.1".toList ++ field "9".toList (Nat.toDigits 10 body.length) ∧
    decodeLatin1 trailer = field "10".toList (padded 3 (((head ++ body).map UInt8.toNat).sum % 256))

section Framing

variable {ms : List Message} (hms : ∀ m ∈ ms, m.Clean)

/-- INTERNAL: the lengths and sums of a message.
SRCLINE: scripts/mock_exchange.py:51-53 -/
theorem framed_text (m : Message) : Framed (latin1Bytes m.text) := by
  have hlatin := latin1_headOf (fieldsText m.bodyFields)
  refine ⟨latin1Bytes (headOf (fieldsText m.bodyFields)), latin1Bytes (fieldsText m.bodyFields),
    latin1Bytes (field trailerTag (checkDigits (fieldsText m.frontFields))), ?_, ?_, ?_⟩
  · rw [Message.text_eq, Message.fieldsText_frontFields, latin1Bytes_append, latin1Bytes_append]
  · rw [decode_latin1Bytes hlatin, length_latin1Bytes]
    rfl
  · rw [decode_latin1Bytes (latin1_trailer _), ← latin1Bytes_append, ← Message.fieldsText_frontFields]
    rfl

include hms

theorem decode_streamOf : decodeLatin1 (streamOf ms) = (ms.map Message.text).flatten := by
  induction ms with
  | nil => rfl
  | cons m ms ih =>
    have hm := hms m List.mem_cons_self
    have hrest := ih fun m' hm' => hms m' (List.mem_cons_of_mem _ hm')
    unfold streamOf at hrest ⊢
    rw [List.flatMap_cons, decodeLatin1_append, hrest, hm.built_eq, Option.getD_some,
      decode_latin1Bytes hm.latin1_text, List.map_cons, List.flatten_cons]

/-- INTERNAL: **what is at the front of the buffer** is the next message, or has no whole message. -/
theorem next_of_stream {buf : Text} (hbuf : buf <+: (ms.map Message.text).flatten) :
    (∃ m rest buf', ms = m :: rest ∧ buf = m.text ++ buf' ∧ nextMessage buf = some (m.text, buf')) ∨
      (nextMessage buf = none ∧ ∀ m rest, ms = m :: rest → ¬ m.text <+: buf) := by
  have hcode : ∀ t ∈ ms.map Message.text, t ∈ wireTexts := by
    intro t ht
    obtain ⟨m, hm, rfl⟩ := List.mem_map.mp ht
    exact (hms m hm).text_mem
  obtain ⟨t, ts, buf', hmap, hsplit, -, hnext⟩ | ⟨hnext, hno⟩ := frameCode_wireTexts.next_of_beginning hcode hbuf
  · obtain ⟨m, rest, rfl, rfl, -⟩ := List.map_eq_cons_iff.mp hmap
    exact Or.inl ⟨m, rest, buf', rfl, hsplit, hnext⟩
  · refine Or.inr ⟨hnext, ?_⟩
    rintro m rest rfl
    exact hno _ _ rfl

/-- A session that has received a beginning of the stream: the messages it has handled are the first
ones, and outside of the inner loop no other has arrived. -/
structure FramingInv (ms done todo : List Message) (r : SessionRun) (h : List RunObs) : Prop where
  split : ms = done ++ todo
  handled : (handledMessages h).map Prod.fst = done.map Message.dict
  received : decodeLatin1 (receivedBytes h) = (done.map Message.text).flatten ++ r.buf
  waiting : r.pc ≠ .draining → nextMessage r.buf = none

theorem FramingInv.buf_beginning {done todo : List Message} {r : SessionRun} {h : List RunObs}
    (hinv : FramingInv ms done todo r h) (hrec : receivedBytes h <+: streamOf ms) :
    r.buf <+: (todo.map Message.text).flatten := by
  have hstarts := decodeLatin1_prefix_iff.mpr hrec
  rw [decode_streamOf hms, hinv.received, hinv.split, List.map_append, List.flatten_append,
    List.prefix_append_right_inj] at hstarts
  exact hstarts

/-- The session has read a beginning of the stream so, if that is what it has received. -/
def ReadsStream (ms : List Message) (r : SessionRun) (h : List RunObs) : Prop :=
  receivedBytes h <+: streamOf ms → ∃ done todo, FramingInv ms done todo r h

/-- INTERNAL: **one step** handles the next message, or none. -/
theorem framing_step {w : World} (r r' : SessionRun) (h os : List RunObs) (hreads : ReadsStream ms r h)
    (hstep : StepOf w r r' os) : ReadsStream ms r' (h ++ os) := by
  intro hrec'
  have hrec : receivedBytes h <+: streamOf ms := by
    rw [receivedBytes_append] at hrec'
    exact (List.prefix_append _ _).trans hrec'
  obtain ⟨done, todo, hinv⟩ := hreads hrec
  cases hstep with
  | received chunk hpc =>
    refine ⟨done, todo, hinv.split, ?_, ?_, fun hne => absurd rfl hne⟩
    · rw [handledMessages_received, hinv.handled]
    · rw [receivedBytes_received, decodeLatin1_append, hinv.received, List.append_assoc]
  | drained hpc hnext =>
    rw [List.append_nil]
    exact ⟨done, todo, hinv.split, hinv.handled, hinv.received, fun _ => hnext⟩
  | quiet r' hbuf hpc huser hno =>
    rw [List.append_nil]
    refine ⟨done, todo, hinv.split, hinv.handled, hbuf ▸ hinv.received, ?_⟩
    intro hne
    rw [hbuf]
    apply hinv.waiting
    obtain hsame | ⟨hlooping, -⟩ := hpc
    · rwa [← hsame]
    · rw [hlooping]
      decide
  | handled hpc raw buf hnext s answers hhandle =>
    have htodo : ∀ m ∈ todo, m.Clean := fun m hm => hms m (hinv.split ▸ List.mem_append_right done hm)
    obtain ⟨m, rest, buf', rfl, hsplit, hnext'⟩ | ⟨hnone, -⟩ :=
      next_of_stream htodo (hinv.buf_beginning hms hrec)
    · rw [hnext] at hnext'
      obtain ⟨rfl, rfl⟩ := Prod.mk.inj (Option.some.inj hnext')
      have hm := htodo m List.mem_cons_self
      refine ⟨done ++ [m], rest, ?_, ?_, ?_, fun hne => absurd hpc hne⟩
      · rw [hinv.split, List.append_assoc, List.singleton_append]
      · rw [handledMessages_handled, List.map_append, hinv.handled, List.map_append, hm.parse_text]
        rfl
      · rw [receivedBytes_handled, hinv.received, hsplit, List.map_append, List.flatten_append, List.append_assoc]
        congr 1
        simp
    · rw [hnext] at hnone
      cases hnone

/-- INTERNAL: the handled messages are those that have arrived. -/
theorem FramingInv.arrived {done todo : List Message} {r : SessionRun} {h : List RunObs}
    (hinv : FramingInv ms done todo r h) (hrec : receivedBytes h <+: streamOf ms) :
    streamOf done <+: receivedBytes h ∧
      (r.pc ≠ .draining → ∀ m rest, todo = m :: rest → ¬ streamOf (done ++ [m]) <+: receivedBytes h) := by
  have hdecode : ∀ {ms' rest : List Message}, ms = ms' ++ rest →
      decodeLatin1 (streamOf ms') = (ms'.map Message.text).flatten := by
    rintro ms' rest rfl
    exact decode_streamOf fun m hm => hms m (List.mem_append_left _ hm)
  constructor
  · apply decodeLatin1_prefix_iff.mp
    rw [hdecode hinv.split, hinv.received]
    exact List.prefix_append _ _
  · intro hpc m rest htodo hstarts
    have hsplit : ms = (done ++ [m]) ++ rest := by rw [hinv.split, htodo, List.append_assoc, List.singleton_append]
    have hdec := decodeLatin1_prefix_iff.mpr hstarts
    rw [hdecode hsplit, hinv.received, List.map_append, List.flatten_append, List.prefix_append_right_inj] at hdec
    have hm : m.text <+: r.buf := by simpa using hdec
    have htodo' : ∀ m ∈ todo, m.Clean := fun m hm => hms m (hinv.split ▸ List.mem_append_right done hm)
    obtain ⟨m', rest', buf', -, -, hnext⟩ | ⟨-, hno⟩ := next_of_stream htodo' (hinv.buf_beginning hms hrec)
    · rw [hinv.waiting hpc] at hnext
      cases hnext
    · exact hno m rest htodo hm

end Framing

/-- **The mock exchange handles every message of a stream once, in order.**  Every message of
latin-1 texts without SOH, of tags without an equals sign and other than 10, is built, framed by its
tags 9 and 10.  However the bytes of such messages are cut into chunks, and whatever the other thread
of the session does, the inner loop ends; the messages that were handled are the first ones of the
stream, each as the dictionary of its first values and of its symbols, and outside of the inner loop
they are all that have arrived: all of them once the whole stream has.
SRCLINE: scripts/mock_exchange.py:42-66, 137-158 -/
theorem mock_framing (w : World) (ms : List Message) (hms : ∀ m ∈ ms, m.Clean) :
    (∀ m ∈ ms, ∃ data, m.built = some data ∧ Framed data) ∧
      ∀ (acts : List RunAct) (r : SessionRun) (h : List RunObs),
        run (recorded (runStep w)) ({}, []) acts = some (r, h) → receivedBytes h <+: streamOf ms →
          (∃ n r' h', run (recorded (runStep w)) (r, h) (List.replicate n .turn) = some (r', h') ∧
            r'.pc ≠ .draining ∧ receivedBytes h' = receivedBytes h) ∧
          ∃ done todo, ms = done ++ todo ∧ (handledMessages h).map Prod.fst = done.map Message.dict ∧
            streamOf done <+: receivedBytes h ∧
            (r.pc ≠ .draining →
              (∀ m rest, todo = m :: rest → ¬ streamOf (done ++ [m]) <+: receivedBytes h) ∧
              (receivedBytes h = streamOf ms → todo = [])) := by
  constructor
  · exact fun m hm => ⟨_, (hms m hm).built_eq, framed_text m⟩
  · intro acts r h hrun hrec
    have hinit : ReadsStream ms {} [] := fun _ => ⟨[], ms, rfl, rfl, rfl, fun _ => rfl⟩
    obtain ⟨hlatin, hreads⟩ := session_run hinit (framing_step hms) hrun
    obtain ⟨done, todo, hinv⟩ := hreads hrec
    obtain ⟨hdone, hnext⟩ := hinv.arrived hms hrec
    refine ⟨drain_ends w hlatin h, done, todo, hinv.split, hinv.handled, hdone, ?_⟩
    intro hpc
    refine ⟨hnext hpc, ?_⟩
    intro hall
    cases todo with
    | nil => rfl
    | cons m rest =>
      -- the next message has arrived with the stream
      have hsplit : ms = (done ++ [m]) ++ rest := by
        rw [hinv.split, List.append_assoc, List.singleton_append]
      have hstream : streamOf ms = streamOf (done ++ [m]) ++ streamOf rest := by
        rw [hsplit]
        exact List.flatMap_append
      refine absurd ?_ (hnext hpc m rest rfl)
      rw [hall, hstream]
      exact List.prefix_append _ _

/-! ## Sessions on fixed bytes -/

/-- A message of a client. -/
def clientMessage (msgType : Text) (seq : ℤ) (body : List (Text × Text)) : Message :=
  { msgType := msgType, seq := seq, sender := "MM".toList, target := "ROFX".toList, body := body,
    now := ⟨2026, 6, 1, 14, 29, 59, 500000⟩ }

theorem clean_clientMessage {msgType : Text} {seq : ℤ} {body : List (Text × Text)} (htype : PlainText msgType)
    (hbody : ∀ f ∈ body, PlainText f.1 ∧ PlainText f.2 ∧ '=' ∉ f.1 ∧ f.1 ≠ trailerTag) :
    (clientMessage msgType seq body).Clean where
  msgType := htype
  sender := (by decide : PlainText "MM".toList)
  target := (by decide : PlainText "ROFX".toList)
  body := fun f hf =>
    have ⟨htag, hvalue, hequals, hne⟩ := hbody f hf
    ⟨⟨htag, hvalue, hequals⟩, hne⟩

/-- A request for two symbols, and a heartbeat. -/
def twoMessages : List Message :=
  [clientMessage "V".toList 2 [("262".toList, "1".toList), ("55".toList, "DLR/JUN26".toList),
    ("55".toList, "DLR/JUL26".toList)], clientMessage "0".toList 3 []]

theorem clean_twoMessages : ∀ m ∈ twoMessages, m.Clean := by
  intro m hm
  obtain rfl | rfl := by simpa [twoMessages] using hm
  · exact clean_clientMessage (by decide) (by decide)
  · exact clean_clientMessage (by decide) (by decide)

/-- The first chunk ends within the mark of a trailer. -/
def twoChunks : List RunAct :=
  [.recv ((streamOf twoMessages).take 99), .turn, .recv ((streamOf twoMessages).drop 99), .turn, .turn, .turn]

/-- Both are handled. -/
theorem mock_framing_twoMessages :
    ∃ r h, run (recorded (runStep stillWorld)) ({}, []) twoChunks = some (r, h) ∧
      (handledMessages h).map Prod.fst = twoMessages.map Message.dict := by
  have hfacts : (run (recorded (runStep stillWorld)) ({}, []) twoChunks).map
      (fun x => (x.1.pc, receivedBytes x.2)) = some (.looping, streamOf twoMessages) := by decide +kernel
  obtain ⟨⟨r, h⟩, hrun, hfacts⟩ := Option.map_eq_some_iff.mp hfacts
  obtain ⟨hpc, hall⟩ := Prod.mk.inj hfacts
  obtain ⟨-, hruns⟩ := mock_framing _ twoMessages clean_twoMessages
  obtain ⟨-, done, todo, hsplit, hhandled, -, hend⟩ := hruns twoChunks r h hrun (hall ▸ List.prefix_rfl)
  have htodo : todo = [] := (hend (by rw [show r.pc = .looping from hpc]; decide)).2 hall
  rw [htodo, List.append_nil] at hsplit
  exact ⟨r, h, hrun, hsplit ▸ hhandled⟩

/-- A heartbeat with a value under `_symbols`. -/
def symbolsTag : Message := clientMessage "0".toList 2 [("_symbols".toList, "DLR/JUN26".toList)]

/-- **A tag `_symbols` is not read back.** -/
theorem mock_framing_symbolsTag :
    ∃ r h m, symbolsTag.Clean ∧
      run (recorded (runStep stillWorld)) ({}, []) [.recv (streamOf [symbolsTag]), .turn, .turn] = some (r, h) ∧
      receivedBytes h = streamOf [symbolsTag] ∧ (handledMessages h).map Prod.fst = [m] ∧
      firstValue symbolsTag.fields "_symbols".toList = some "DLR/JUN26".toList ∧
      m "_symbols".toList ≠ some (.text "DLR/JUN26".toList) := by
  have hclean : symbolsTag.Clean := clean_clientMessage (by decide) (by decide)
  have hfacts : (run (recorded (runStep stillWorld)) ({}, [])
      [.recv (streamOf [symbolsTag]), .turn, .turn]).map
        (fun x => (receivedBytes x.2, (handledMessages x.2).map fun y => y.1 "_symbols".toList)) =
      some (streamOf [symbolsTag], [some (.texts [])]) := by decide +kernel
  obtain ⟨⟨r, h⟩, hrun, hfacts⟩ := Option.map_eq_some_iff.mp hfacts
  obtain ⟨hrec, hsymbols⟩ := Prod.mk.inj hfacts
  obtain ⟨⟨m, answers⟩, hm, hentry⟩ := List.map_eq_singleton_iff.mp hsymbols
  refine ⟨r, h, m, hclean, hrun, hrec, ?_, by decide, ?_⟩
  · rw [show handledMessages h = [(m, answers)] from hm]
    rfl
  · rw [show m "_symbols".toList = some (.texts []) from hentry]
    decide

end MmEngine.Analysis
