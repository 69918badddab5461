import MmEngine.Model.FixApp
import MmEngine.Model.MarketMaker
import MmEngine.Lib.BoundedFifo

/-!
# The threads of the engine

The live engine of src/main.cpp:176-240 as one machine: the QuickFIX reader that runs the
callbacks of `FixApp`, the strategy loop, the sender loop and the persister, over the rings
between them.  A ring is the bounded queue it refines, and an action is one step of one
thread, so a list of actions is an interleaving.

The sender loop pops, looks at `logged_on()` and sends in three steps of its own, because
logon and logout may come between them.  The answers of `OrdRing` to the strategy come with
the market-data action, in its `MdEnv`: the sender may pop between two pushes of a turn.

An access that leaves a fixed array ends the run: it sets `faulted`, after which no thread
moves.
-/

set_option autoImplicit false

namespace MmEngine.Model

open MmEngine.Lib

/-- SRCLINE: src/fix/fix_app.hpp:48 -/
abbrev mdCap : ℕ := 2 ^ 14

/-- SRCLINE: src/fix/fix_app.hpp:49 -/
abbrev execCap : ℕ := 2 ^ 12

/-- SRCLINE: src/storage/lmdb_persister.hpp:87 -/
abbrev tradeCap : ℕ := 2 ^ 12

/-- Where the sender loop stands.
SRCLINE: src/main.cpp:212-220 -/
inductive Sender where
  /-- Before `out.try_pop(c)`. -/
  | idle
  /-- Between `try_pop` and `logged_on()`. -/
  | popped (c : OrderCmd)
  /-- Between `logged_on()` and the send. -/
  | cleared (c : OrderCmd)
  deriving DecidableEq

/-- What the threads do that can be seen. -/
inductive Obs where
  /-- `onMessage` converted an execution report; `taken` is the answer of the ring. -/
  | reported (msg : ExecutionReport) (e : ExecEvent) (taken : Bool)
  /-- `onMessage` converted a snapshot; `taken` is the answer of the ring. -/
  | quoted (msg : MarketDataSnapshot) (ev : MdEvent) (taken : Bool)
  /-- The strategy did something. -/
  | strategy (x : Effect)
  /-- The trade ring of the persister accepted a fill. -/
  | enqueued (e : ExecEvent)
  /-- The sender popped a command. -/
  | popped (c : OrderCmd)
  /-- The sender looked at `logged_on()` for a command. -/
  | checked (c : OrderCmd) (up : Bool)
  /-- The sender handed a message to `sendToTarget`. -/
  | sent (c : OrderCmd) (m : OrderMsg)
  | logon
  | logout
  deriving DecidableEq

/-- One step of one thread. -/
inductive EngineAct where
  | recv (msg : AppMsg) (now : ℤ)
  | exec
  | md (env : MdEnv)
  | pop
  | check
  | send
  | persist
  | logon
  | logout

structure Engine where
  ses : FixSession := {}
  mdRing : List MdEvent := []
  execRing : List ExecEvent := []
  ordRing : List OrderCmd := []
  tradeRing : List ExecEvent := []
  mm : MarketMaker
  sender : Sender := .idle
  faulted : Bool := false

namespace Engine

/-- The reader thread: `fromApp`, then the push of what came out of it.  The answer of the
exec ring is not looked at.
SRCLINE: src/fix/fix_app.hpp:93-100, 142-144, 186 -/
def recv (cfg : EngineConfig) (s : Engine) (msg : AppMsg) (now : ℤ) : Engine × List Obs :=
  let (ses, inc) := (FixApp.init cfg).fromApp s.ses msg now
  match msg, inc with
  | .marketData m, some (.md ev) =>
    let (ring, taken) := offer mdCap s.mdRing ev
    ({ s with ses := ses, mdRing := ring }, [.quoted m ev taken])
  | .execReport m, some (.exec e) =>
    let (ring, taken) := offer execCap s.execRing e
    ({ s with ses := ses, execRing := ring }, [.reported m e taken])
  | _, _ => ({ s with ses := ses }, [])

/-- The strategy thread on an execution report.  The answer of the trade ring is not looked
at either.
SRCLINE: src/strategy/market_maker.hpp:53-63 -/
def exec (s : Engine) : Option (Engine × List Obs) :=
  match s.execRing with
  | [] => none
  | e :: rest =>
    match s.mm.execIter e with
    | none => some ({ s with execRing := rest, faulted := true }, [])
    | some (m, es) =>
      let (ring, taken) := if .trade e ∈ es then offer tradeCap s.tradeRing e else (s.tradeRing, false)
      some ({ s with execRing := rest, mm := m, tradeRing := ring },
        es.map .strategy ++ if taken then [.enqueued e] else [])

/-- The strategy thread on a snapshot.
SRCLINE: src/strategy/market_maker.hpp:66-82 -/
def md (cfg : EngineConfig) (s : Engine) (env : MdEnv) : Option (Engine × List Obs) :=
  match s.mdRing with
  | [] => none
  | ev :: rest =>
    match s.mm.mdIter cfg env ev with
    | none => some ({ s with mdRing := rest, faulted := true }, [])
    | some (m, es) =>
      some ({ s with mdRing := rest, mm := m, ordRing := s.ordRing ++ pushedCmds es },
        es.map .strategy)

/-- `out.try_pop(c)`.
SRCLINE: src/main.cpp:217 -/
def pop (s : Engine) : Option (Engine × List Obs) :=
  match s.sender, s.ordRing with
  | .idle, c :: rest => some ({ s with ordRing := rest, sender := .popped c }, [.popped c])
  | _, _ => none

/-- `if (app.logged_on())`.
SRCLINE: src/main.cpp:217 -/
def check (s : Engine) : Option (Engine × List Obs) :=
  match s.sender with
  | .popped c => some ({ s with sender := if s.ses.loggedOn then .cleared c else .idle },
      [.checked c s.ses.loggedOn])
  | _ => none

/-- `app.send_order_cmd(c)`.
SRCLINE: src/main.cpp:217, src/fix/fix_app.hpp:192-229 -/
def send (cfg : EngineConfig) (s : Engine) : Option (Engine × List Obs) :=
  match s.sender with
  | .cleared c =>
    match (FixApp.init cfg).sendOrderCmd c with
    | none => some ({ s with faulted := true }, [])
    | some m => some ({ s with sender := .idle }, [.sent c m])
  | _ => none

/-- The persister takes a fill off its ring.
SRCLINE: src/storage/lmdb_persister.hpp:61-68 -/
def persist (s : Engine) : Option (Engine × List Obs) :=
  match s.tradeRing with
  | [] => none
  | _ :: rest => some ({ s with tradeRing := rest }, [])

/-- The engine takes one step of one of its threads. -/
def step (cfg : EngineConfig) (s : Engine) (a : EngineAct) : Option (Engine × List Obs) :=
  if s.faulted then none
  else
    match a with
    | .recv msg now => some (s.recv cfg msg now)
    | .exec => s.exec
    | .md env => s.md cfg env
    | .pop => s.pop
    | .check => s.check
    | .send => s.send cfg
    | .persist => s.persist
    | .logon => some ({ s with ses := { s.ses with loggedOn := true } }, [.logon])
    | .logout => some ({ s with ses := { s.ses with loggedOn := false } }, [.logout])

/-- The engine at start-up.
SRCLINE: src/main.cpp:183-222 -/
def init (tCtor tRun : ℤ) : Engine := { mm := MarketMaker.init tCtor tRun }

end Engine

/-- The market-data counters of the metrics; `fetch_add` wraps at 64 bits.
SRCLINE: src/metrics/metrics.hpp:26-27 -/
structure MdCounters where
  mdMsgsTotal : UInt64 := 0
  mdDroppedTotal : UInt64 := 0
  deriving DecidableEq

/-- The reader counts a snapshot when it converted it, and once more when the ring refused it.
SRCLINE: src/fix/fix_app.hpp:140-143 -/
def MdCounters.onObs (k : MdCounters) : Obs → MdCounters
  | .quoted _ _ taken =>
    { mdMsgsTotal := k.mdMsgsTotal + 1,
      mdDroppedTotal := if taken then k.mdDroppedTotal else k.mdDroppedTotal + 1 }
  | _ => k

/-- The counters after a history of the engine. -/
def mdCounters (h : List Obs) : MdCounters := h.foldl MdCounters.onObs {}

end MmEngine.Model
