import MmEngine.Lib.Runs
import MmEngine.Model.MockExchange
import MmEngine.Model.MockWire

/-!
# The sessions of the mock exchange

`Session` of scripts/mock_exchange.py on the wire: `send_msg`, `exec_report`, `handle` on the
dictionaries of `parse`, and the receive loop of `run`, one turn of each of its loops at a time.
The clock and the socket are the environment: a `World` says what the clock reads for the message
with a given sequence number or for a given report, and whether `sendall` of that message
succeeds.  Another thread streams market data; of it there is what the session sees, a message sent
now and then.

What the session does is observed: the bytes it receives, and the messages it handles with the
answers it gives to each.
-/

set_option autoImplicit false

namespace MmEngine.Model.Mock

open MmEngine.Lib

/-- What the clock and the socket do. -/
structure World where
  /-- The clock when the message with this sequence number is built. -/
  sendingTime : ℕ → UtcTime
  /-- The clock when this report is filled in. -/
  transactTime : ℕ → UtcTime
  /-- Whether `sendall` of the message with this sequence number raises no `OSError`. -/
  sendall : ℕ → Bool

/-- SRCLINE: scripts/mock_exchange.py:70-78 -/
structure Session where
  seq : ℕ := 0
  user : Text := "CLIENT".toList
  alive : Bool := true
  mdThread : Bool := false
  orderNo : ℕ := 0

/-- A message the session sends: what `send_msg` is called with, and the bytes it builds. -/
structure Sent where
  msgType : Text
  fields : List (Text × Text)
  data : List UInt8

namespace Session

/-- SRCLINE: scripts/mock_exchange.py:81-88 -/
def sendMsg (w : World) (s : Session) (msgType : Text) (fields : List (Text × Text)) :
    Option (Session × Sent) :=
  let seq := s.seq + 1
  (build msgType seq "ROFX".toList s.user fields (w.sendingTime seq)).map fun data =>
    ({ s with seq := seq, alive := s.alive && w.sendall seq }, ⟨msgType, fields, data⟩)

/-- The fields of a report.
SRCLINE: scripts/mock_exchange.py:119-133 -/
def reportFields (w : World) (orderNo : ℕ) (m : Parsed) (execType ordStatus leaves cum : Text)
    (last : Option (Text × Text)) : List (Text × Text) :=
  let qty := (m.get "38".toList).getD "1".toList
  let f := [("37".toList, mockOrderId orderNo), ("17".toList, 'E' :: padded 6 orderNo),
    ("150".toList, execType), ("39".toList, ordStatus), ("11".toList, (m.get "11".toList).getD []),
    ("55".toList, (m.get "55".toList).getD (m.symbols.headD [])), ("207".toList, "ROFX".toList),
    ("54".toList, (m.get "54".toList).getD "1".toList), ("38".toList, qty), ("151".toList, leaves),
    ("14".toList, cum), ("60".toList, nowTs (w.transactTime orderNo))]
  let f := match m.get "44".toList with
    | some (c :: px) => f ++ [("44".toList, c :: px)]
    | _ => f
  match last with
  | some (lastPx, lastQty) => f ++ [("31".toList, lastPx), ("32".toList, lastQty)]
  | none => f

/-- SRCLINE: scripts/mock_exchange.py:117-134 -/
def execReport (w : World) (s : Session) (m : Parsed) (execType ordStatus leaves cum : Text)
    (last : Option (Text × Text)) : Option (Session × Sent) :=
  let s := { s with orderNo := s.orderNo + 1 }
  s.sendMsg w "8".toList (reportFields w s.orderNo m execType ordStatus leaves cum last)

/-- The answers to a message; `none` is an exception.
SRCLINE: scripts/mock_exchange.py:160-195 -/
def handle (w : World) (s : Session) (m : Parsed) : Option (Session × List Sent) :=
  let mt := m.get "35".toList
  if mt = some "A".toList then do
    let s := { s with user := (m.get "49".toList).getD "CLIENT".toList }
    let heartbeat := ("108".toList, (m.get "108".toList).getD "30".toList)
    let fields := if m.get "141".toList = some "Y".toList then
        [("98".toList, "0".toList), heartbeat, ("141".toList, "Y".toList), ("1137".toList, "9".toList)]
      else [("98".toList, "0".toList), heartbeat, ("1137".toList, "9".toList)]
    let (s, logon) ← s.sendMsg w "A".toList fields
    some (s, [logon])
  else if mt = some "0".toList then some (s, [])
  else if mt = some "1".toList then do
    let (s, heartbeat) ← s.sendMsg w "0".toList [("112".toList, (m.get "112".toList).getD [])]
    some (s, [heartbeat])
  else if mt = some "5".toList then do
    let (s, logout) ← s.sendMsg w "5".toList []
    some ({ s with alive := false }, [logout])
  else if mt = some "V".toList then some ({ s with mdThread := true }, [])
  else if mt = some "D".toList then do
    let qty := (m.get "38".toList).getD "1".toList
    let (s, new) ← s.execReport w m "0".toList "0".toList qty "0".toList none
    if s.orderNo % 5 = 0 then
      let (s, fill) ← s.execReport w m "F".toList "2".toList "0".toList qty
        (some ((m.get "44".toList).getD "0".toList, qty))
      some (s, [new, fill])
    else some (s, [new])
  else if mt = some "F".toList then do
    let (s, canceled) ← s.execReport w m "4".toList "4".toList "0".toList "0".toList none
    some (s, [canceled])
  else some (s, [])

end Session

/-- Where `run` stands: at the test of the outer loop, in the inner loop, or past both. -/
inductive RunPc where
  | looping
  | draining
  | finished
  deriving DecidableEq

/-- The thread of a session. -/
structure SessionRun where
  session : Session := {}
  buf : Text := []
  pc : RunPc := .looping

/-- What the thread of a session does next, or the streaming thread. -/
inductive RunAct where
  /-- `recv` returns these bytes; none at all when the peer has closed. -/
  | recv (chunk : List UInt8)
  /-- `recv` raises `OSError`. -/
  | reset
  /-- A turn of the inner loop. -/
  | turn
  /-- The outer loop ends. -/
  | leave
  /-- The streaming thread sends a message. -/
  | stream (fields : List (Text × Text))

/-- What is observed of a session. -/
inductive RunObs where
  | received (chunk : List UInt8)
  | handled (m : Parsed) (answers : List Sent)

/-- `finally`.
SRCLINE: scripts/mock_exchange.py:155-157 -/
def SessionRun.finish (r : SessionRun) : SessionRun :=
  { r with session := { r.session with alive := false }, pc := .finished }

/-- One step of a session.
SRCLINE: scripts/mock_exchange.py:111-114, 137-157 -/
def runStep (w : World) (r : SessionRun) : RunAct → Option (SessionRun × List RunObs)
  | .recv chunk =>
    if r.pc = .looping ∧ r.session.alive = true then
      if chunk = [] then some (r.finish, [])
      else some ({ r with buf := r.buf ++ decodeLatin1 chunk, pc := .draining }, [.received chunk])
    else none
  | .reset => if r.pc = .looping ∧ r.session.alive = true then some (r.finish, []) else none
  | .turn =>
    if r.pc = .draining then
      match nextMessage r.buf with
      | none => some ({ r with pc := .looping }, [])
      | some (raw, buf) =>
        match r.session.handle w (parse raw) with
        | none => some ({ r.finish with buf := buf }, [.handled (parse raw) []])
        | some (session, answers) =>
          some ({ r with session := session, buf := buf }, [.handled (parse raw) answers])
    else none
  | .leave => if r.pc = .looping ∧ r.session.alive = false then some (r.finish, []) else none
  | .stream fields =>
    if r.session.mdThread = true then
      (r.session.sendMsg w "W".toList fields).map fun (session, _) => ({ r with session := session }, [])
    else none

end MmEngine.Model.Mock
