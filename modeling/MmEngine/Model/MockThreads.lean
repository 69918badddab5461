import MmEngine.Lib.DecimalText
import MmEngine.Lib.Monitor
import MmEngine.Model.MockServer

/-!
# The two threads of a mock session

A `Session` of scripts/mock_exchange.py and the thread that streams market data for it, one statement
at a time where the other thread can see it.  Both call `send_msg`: it takes the lock, reads
`self.seq`, writes it back one higher, builds the message, and writes the bytes to the socket, which
takes them one by one or fails.  `self.user`, `self.alive` and `self.order_no` are outside of the
lock: the session's thread may rename the user while the other one is about to build.

What `handle` does is a list of `Task`s, so that the other thread may come in between.
-/

set_option autoImplicit false

namespace MmEngine.Model.Mock

open MmEngine.Lib

/-! ## Sending -/

/-- The two threads of a session. -/
inductive Who where
  | session
  | stream
  deriving DecidableEq

/-- What only the holder of `self.lock` reads or writes: the count of messages, and the socket.
SRCLINE: scripts/mock_exchange.py:75, 82-86 -/
structure Outgoing where
  seq : ℕ := 0
  /-- The bytes the peer can read. -/
  out : List UInt8 := []

/-- Where a thread stands in `send_msg`, with what it was called with.
SRCLINE: scripts/mock_exchange.py:81-88 -/
inductive Sending where
  /-- About to read `self.seq`. -/
  | reading (msgType : Text) (fields : List (Text × Text))
  /-- About to write it, one higher. -/
  | writing (msgType : Text) (fields : List (Text × Text)) (seq : ℕ)
  /-- About to build the message. -/
  | building (msgType : Text) (fields : List (Text × Text))
  /-- In `sendall`, with these bytes to go. -/
  | sending (msgType : Text) (fields : List (Text × Text)) (rest : List UInt8)

/-- What a thread in `send_msg` meets. -/
inductive SendAct where
  /-- The next statement, or the next byte; `user` is the present value of `self.user`. -/
  | next (user : Text)
  /-- `sendall` raises `OSError`. -/
  | fail

/-- One step of `send_msg`.  A message that cannot be encoded raises, which gives the lock back too.
SRCLINE: scripts/mock_exchange.py:81-88 -/
def sendStep (w : World) (d : Outgoing) : Sending → SendAct → Option (Outgoing × Option Sending)
  | .reading t fs, .next _ => some (d, some (.writing t fs d.seq))
  | .writing t fs n, .next _ => some ({ d with seq := n + 1 }, some (.building t fs))
  | .building t fs, .next user =>
    some (d, (build t d.seq "ROFX".toList user fs (w.sendingTime d.seq)).map (.sending t fs))
  | .sending _ _ [], .next _ => some (d, none)
  | .sending t fs (b :: rest), .next _ => some ({ d with out := d.out ++ [b] }, some (.sending t fs rest))
  | .sending _ _ _, .fail => some (d, none)
  | _, .fail => none

/-! ## Market data -/

/-- SRCLINE: scripts/mock_exchange.py:34 -/
def tick : ℚ := 1 / 2

/-- SRCLINE: scripts/mock_exchange.py:32 -/
def wideSeconds : ℚ := 6

/-- `int(x)`. -/
def truncated (x : ℚ) : ℤ := if 0 ≤ x then ⌊x⌋ else ⌈x⌉

/-- The book is wide, so many seconds into the stream.
SRCLINE: scripts/mock_exchange.py:95 -/
def isWide (elapsed : ℚ) : Bool := truncated (elapsed / wideSeconds) % 2 = 0

/-- SRCLINE: scripts/mock_exchange.py:97 -/
def basePx (i : ℕ) : ℚ := 1470 + 10 * i

/-- The five levels of a side, from its best price on, each one `away` from the last.
SRCLINE: scripts/mock_exchange.py:103-110 -/
def levelFields (side : Text) (best away : ℚ) : List (Text × Text) :=
  (List.range 5).flatMap fun (lvl : ℕ) =>
    [("269".toList, side), ("270".toList, fixedText 1 (best + lvl * away)),
      ("271".toList, Nat.toDigits 10 (10 * (lvl + 1)))]

/-- The fields of a snapshot.
SRCLINE: scripts/mock_exchange.py:97-112 -/
def snapshotFields (reqId : Text) (wide : Bool) (i : ℕ) (sym : Text) : List (Text × Text) :=
  let base := basePx i
  let bb := if wide then base - 2 * tick else base
  let ba := if wide then base + 2 * tick else base
  [("262".toList, reqId), ("55".toList, sym), ("207".toList, "ROFX".toList), ("268".toList, "10".toList)] ++
    (levelFields "0".toList bb (-tick) ++ levelFields "1".toList ba tick)

/-- One pass over the symbols.
SRCLINE: scripts/mock_exchange.py:95-113 -/
def passFields (reqId : Text) (symbols : List Text) (elapsed : ℚ) : List (List (Text × Text)) :=
  symbols.mapIdx fun i sym => snapshotFields reqId (isWide elapsed) i sym

/-- Where the streaming thread stands.
SRCLINE: scripts/mock_exchange.py:91-114 -/
inductive StreamAt where
  /-- `self.md_thread` is `None`. -/
  | absent
  /-- Before `while self.alive`. -/
  | looping (reqId : Text) (symbols : List Text)
  /-- In a pass, with these snapshots to send. -/
  | passing (reqId : Text) (symbols : List Text) (todo : List (List (Text × Text)))
  /-- After the loop, or killed by an exception. -/
  | ended

/-! ## The session's thread -/

/-- Something `handle` does. -/
inductive Task where
  /-- `self.user = user`. -/
  | rename (user : Text)
  /-- `self.send_msg(msg_type, fields)`. -/
  | send (msgType : Text) (fields : List (Text × Text))
  /-- `self.exec_report(m, exec_type, ord_status, leaves, cum, last_px, last_qty)`. -/
  | report (m : Parsed) (execType ordStatus leaves cum : Text) (last : Option (Text × Text))
  /-- `if self.order_no % 5 == 0`, and the fill. -/
  | fifth (m : Parsed)
  /-- `self.alive = False`. -/
  | stop
  /-- `if self.md_thread is None`, and the start of it. -/
  | subscribe (reqId : Text) (symbols : List Text)

/-- The quantity `handle` reads from an order. -/
def orderQty (m : Parsed) : Text := (m.get "38".toList).getD "1".toList

/-- SRCLINE: scripts/mock_exchange.py:160-195 -/
def handleTasks (m : Parsed) : List Task :=
  let mt := m.get "35".toList
  if mt = some "A".toList then
    let heartbeat := ("108".toList, (m.get "108".toList).getD "30".toList)
    let fields := if m.get "141".toList = some "Y".toList then
        [("98".toList, "0".toList), heartbeat, ("141".toList, "Y".toList), ("1137".toList, "9".toList)]
      else [("98".toList, "0".toList), heartbeat, ("1137".toList, "9".toList)]
    [.rename ((m.get "49".toList).getD "CLIENT".toList), .send "A".toList fields]
  else if mt = some "0".toList then []
  else if mt = some "1".toList then [.send "0".toList [("112".toList, (m.get "112".toList).getD [])]]
  else if mt = some "5".toList then [.send "5".toList [], .stop]
  else if mt = some "V".toList then
    [.subscribe ((m.get "262".toList).getD "1".toList)
      (if m.symbols = [] then ["DLR/JUN26".toList] else m.symbols)]
  else if mt = some "D".toList then
    [.report m "0".toList "0".toList (orderQty m) "0".toList none, .fifth m]
  else if mt = some "F".toList then [.report m "4".toList "4".toList "0".toList "0".toList none]
  else []

/-- The session with its two threads. -/
structure SessionThreads where
  lock : Monitor Who Outgoing Sending := { data := {} }
  user : Text := "CLIENT".toList
  alive : Bool := true
  orderNo : ℕ := 0
  buf : Text := []
  pc : RunPc := .looping
  /-- What is left of the message being handled. -/
  todo : List Task := []
  stream : StreamAt := .absent
  /-- `self.conn.close()` was called. -/
  closed : Bool := false

/-- One step of one of the threads. -/
inductive ThreadStep where
  /-- `recv` returns these bytes; none at all when the peer has closed. -/
  | recv (chunk : List UInt8)
  /-- `recv` raises `OSError`. -/
  | reset
  /-- A turn of the inner loop. -/
  | turn
  /-- The outer loop ends. -/
  | leave
  /-- The session does the next thing of `handle`. -/
  | task
  /-- The streaming thread tests `self.alive`, so many seconds into the stream. -/
  | pass (elapsed : ℚ)
  /-- It takes the lock for the next snapshot, or sleeps after the last one. -/
  | snapshot
  /-- The holder of the lock goes on. -/
  | holder
  /-- Its `sendall` raises `OSError`. -/
  | fail

/-- What is observed. -/
inductive ThreadObs where
  | handled (m : Parsed)
  /-- A pass of the streaming thread begins. -/
  | passed (reqId : Text) (symbols : List Text) (elapsed : ℚ)
  /-- A `sendall` raised. -/
  | failed

namespace SessionThreads

/-- The thread is not inside `send_msg`. -/
def outside (s : SessionThreads) (who : Who) : Bool := s.lock.holder.map Prod.fst != some who

/-- `finally`.
SRCLINE: scripts/mock_exchange.py:155-157 -/
def finish (s : SessionThreads) : SessionThreads :=
  { s with alive := false, pc := .finished, todo := [], closed := true }

/-- An exception ends the thread it is raised in. -/
def raise (s : SessionThreads) : Who → SessionThreads
  | .session => s.finish
  | .stream => { s with stream := .ended }

/-- The session does the next thing of `handle`.
SRCLINE: scripts/mock_exchange.py:117-134, 160-195 -/
def doTask (w : World) (s : SessionThreads) : Task → List Task → Option SessionThreads
  | .rename user, rest => some { s with user := user, todo := rest }
  | .send t fs, rest => (s.lock.enter .session (.reading t fs)).map fun lock => { s with lock := lock, todo := rest }
  | .report m execType ordStatus leaves cum last, rest =>
    let fields := Session.reportFields w (s.orderNo + 1) m execType ordStatus leaves cum last
    some { s with orderNo := s.orderNo + 1, todo := .send "8".toList fields :: rest }
  | .fifth m, rest =>
    if s.orderNo % 5 = 0 then
      let fill := Task.report m "F".toList "2".toList "0".toList (orderQty m)
        (some ((m.get "44".toList).getD "0".toList, orderQty m))
      some { s with todo := fill :: rest }
    else some { s with todo := rest }
  | .stop, rest => some { s with alive := false, todo := rest }
  | .subscribe reqId symbols, rest =>
    match s.stream with
    | .absent => some { s with stream := .looping reqId symbols, todo := rest }
    | _ => some { s with todo := rest }

/-- The holder of the lock goes on.  A socket that is closed takes no more bytes.
SRCLINE: scripts/mock_exchange.py:81-88 -/
def holderStep (w : World) (s : SessionThreads) : Option (SessionThreads × List ThreadObs) :=
  match s.lock.holder with
  | none => none
  | some (_, .sending _ _ (_ :: _)) =>
    if s.closed then none
    else (s.lock.proceed (sendStep w) (.next s.user)).map fun lock => ({ s with lock := lock }, [])
  | some (who, .building _ _) =>
    (s.lock.proceed (sendStep w) (.next s.user)).map fun lock =>
      (if lock.holder.isNone then { s with lock := lock }.raise who else { s with lock := lock }, [])
  | some _ => (s.lock.proceed (sendStep w) (.next s.user)).map fun lock => ({ s with lock := lock }, [])

/-- One step of one of the threads.
SRCLINE: scripts/mock_exchange.py:81-114, 137-157 -/
def step (w : World) (s : SessionThreads) : ThreadStep → Option (SessionThreads × List ThreadObs)
  | .recv chunk =>
    if s.pc = .looping ∧ s.alive = true then
      if chunk = [] then some (s.finish, [])
      else some ({ s with buf := s.buf ++ decodeLatin1 chunk, pc := .draining }, [])
    else none
  | .reset => if s.pc = .looping ∧ s.alive = true then some (s.finish, []) else none
  | .turn =>
    if s.pc = .draining ∧ s.todo = [] ∧ s.outside .session then
      match nextMessage s.buf with
      | none => some ({ s with pc := .looping }, [])
      | some (raw, buf) =>
        some ({ s with buf := buf, todo := handleTasks (parse raw) }, [.handled (parse raw)])
    else none
  | .leave => if s.pc = .looping ∧ s.alive = false then some (s.finish, []) else none
  | .task =>
    match s.todo with
    | [] => none
    | x :: rest => if s.outside .session then (s.doTask w x rest).map fun s => (s, []) else none
  | .pass elapsed =>
    match s.stream with
    | .looping reqId symbols =>
      if s.alive then
        some ({ s with stream := .passing reqId symbols (passFields reqId symbols elapsed) },
          [.passed reqId symbols elapsed])
      else some ({ s with stream := .ended }, [])
    | _ => none
  | .snapshot =>
    match s.stream with
    | .passing reqId symbols [] =>
      if s.outside .stream then some ({ s with stream := .looping reqId symbols }, []) else none
    | .passing reqId symbols (fields :: rest) =>
      (s.lock.enter .stream (.reading "W".toList fields)).map fun lock =>
        ({ s with lock := lock, stream := .passing reqId symbols rest }, [])
    | _ => none
  | .holder => s.holderStep w
  | .fail => (s.lock.proceed (sendStep w) .fail).map fun lock => ({ s with lock := lock, alive := false }, [.failed])

end SessionThreads

end MmEngine.Model.Mock
