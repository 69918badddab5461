import MmEngine.Model.FixApp
import MmEngine.Model.MarketMaker

/-!
# The order path

The engine and an exchange around one pair of first-in first-out channels: the strategy
pushes commands to the order ring, the sender turns them into messages, the exchange answers
with execution reports, the reader turns those into events, and the strategy consumes them.
The channels never drop and the session is always logged on.  An action is one step of one
party, so a list of actions is an interleaving.

A snapshot is converted when the strategy takes it; one that is not for a subscribed symbol,
or does not convert, never reaches the strategy and is no step.
-/

set_option autoImplicit false

namespace MmEngine.Model

/-- The other end of the session: what it does with a message, and what it may do on its
own. -/
structure Exchange where
  State : Type
  Act : Type
  recv : State → OrderMsg → State × List ExecutionReport
  act : State → Act → Option (State × List ExecutionReport)

/-- The engine, the exchange and what is in flight between them. -/
structure OrderPath (X : Exchange) where
  mm : MarketMaker
  exch : X.State
  ordRing : List OrderCmd := []
  toExch : List OrderMsg := []
  toEngine : List ExecutionReport := []
  execRing : List ExecEvent := []

/-- One step of one party. -/
inductive PathAct (X : Exchange) where
  /-- The strategy takes a snapshot. -/
  | md (seq : ℕ) (msg : MarketDataSnapshot) (now : ℤ) (env : MdEnv)
  /-- The strategy takes an execution report. -/
  | exec
  /-- The sender sends a command. -/
  | send
  /-- The exchange handles a message. -/
  | recv
  /-- The exchange does something on its own. -/
  | act (a : X.Act)
  /-- The reader receives an execution report. -/
  | report (now : ℤ)

namespace OrderPath

variable {X : Exchange}

/-- SRCLINE: src/strategy/market_maker.hpp:66-82, src/fix/fix_app.hpp:103-138 -/
def md (cfg : EngineConfig) (s : OrderPath X) (seq : ℕ) (msg : MarketDataSnapshot) (now : ℤ)
    (env : MdEnv) : Option (OrderPath X × List Effect) :=
  match (FixApp.init cfg).onMarketData seq msg now with
  | .ok (some ev) => (s.mm.mdIter cfg env ev).map fun r =>
      ({ s with mm := r.1, ordRing := s.ordRing ++ pushedCmds r.2 }, r.2)
  | _ => none

/-- SRCLINE: src/strategy/market_maker.hpp:53-63 -/
def exec (s : OrderPath X) : Option (OrderPath X × List Effect) :=
  match s.execRing with
  | [] => none
  | e :: rest => (s.mm.execIter e).map fun r => ({ s with mm := r.1, execRing := rest }, r.2)

/-- SRCLINE: src/main.cpp:217, src/fix/fix_app.hpp:192-229 -/
def send (cfg : EngineConfig) (s : OrderPath X) : Option (OrderPath X × List Effect) :=
  match s.ordRing with
  | [] => none
  | c :: rest => ((FixApp.init cfg).sendOrderCmd c).map fun m =>
      ({ s with ordRing := rest, toExch := s.toExch ++ [m] }, [])

/-- The exchange takes the next message and answers. -/
def recv (s : OrderPath X) : Option (OrderPath X × List Effect) :=
  match s.toExch with
  | [] => none
  | m :: rest =>
    let (x, rs) := X.recv s.exch m
    some ({ s with toExch := rest, exch := x, toEngine := s.toEngine ++ rs }, [])

/-- SRCLINE: src/fix/fix_app.hpp:93-100, 147-187 -/
def report (cfg : EngineConfig) (s : OrderPath X) (now : ℤ) : Option (OrderPath X × List Effect) :=
  match s.toEngine with
  | [] => none
  | r :: rest =>
    match (FixApp.init cfg).onExecutionReport r now with
    | .ok e => some ({ s with toEngine := rest, execRing := s.execRing ++ [e] }, [])
    | .error _ => some ({ s with toEngine := rest }, [])

/-- One step, with what the strategy did in it. -/
def step (cfg : EngineConfig) (s : OrderPath X) : PathAct X → Option (OrderPath X × List Effect)
  | .md seq msg now env => s.md cfg seq msg now env
  | .exec => s.exec
  | .send => s.send cfg
  | .recv => s.recv
  | .act a => (X.act s.exch a).map fun r =>
      ({ s with exch := r.1, toEngine := s.toEngine ++ r.2 }, [])
  | .report now => s.report cfg now

end OrderPath

/-- The identifier a message carries. -/
def OrderMsg.clOrdID : OrderMsg → Text
  | .newOrderSingle o => o.clOrdID
  | .orderCancelRequest x => x.clOrdID

/-- The symbol a message carries. -/
def OrderMsg.symbol : OrderMsg → Text
  | .newOrderSingle o => o.symbol
  | .orderCancelRequest x => x.symbol

end MmEngine.Model
