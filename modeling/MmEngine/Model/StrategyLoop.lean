import MmEngine.Model.Engine

/-!
# The strategy loop in the engine

`MarketMaker::run` with its own program counter: the test of the flag, the drain of the execution
ring, and one `try_pop` of the market-data ring in each turn.  The other threads of the engine move
freely between any two of these; what they do is a step of `Engine`.
-/

set_option autoImplicit false

namespace MmEngine.Model

/-- Where the strategy thread stands in `run`.
SRCLINE: src/strategy/market_maker.hpp:49-85 -/
inductive LoopAt where
  /-- Before `running.load()`. -/
  | testing
  /-- Before `exec_.try_pop(ex)`. -/
  | draining
  /-- Before `md_.try_pop(ev)`. -/
  | taking
  | returned
  deriving DecidableEq

/-- The engine and its strategy thread. -/
structure EngineLoop where
  engine : Engine
  running : Bool := true
  pc : LoopAt := .testing

/-- One step of one thread. -/
inductive LoopAct where
  /-- `g_running.store(false)`. -/
  | stop
  | test
  | popExec
  | popMd (env : MdEnv)
  /-- A step of another thread. -/
  | other (a : EngineAct)

/-- What is seen of it. -/
inductive LoopObs where
  | obs (o : Obs)
  /-- `exec_.try_pop` found nothing. -/
  | drained
  /-- `md_.try_pop` found nothing. -/
  | idle

/-- A step that the strategy thread takes itself. -/
def EngineAct.ofStrategy : EngineAct → Bool
  | .exec => true
  | .md _ => true
  | _ => false

namespace EngineLoop

/-- A step of the engine, after which the strategy thread stands at `pc`. -/
def engineStep (cfg : EngineConfig) (s : EngineLoop) (pc : LoopAt) (a : EngineAct) :
    Option (EngineLoop × List LoopObs) :=
  (s.engine.step cfg a).map fun (engine, os) => ({ s with engine := engine, pc := pc }, os.map .obs)

/-- The strategy thread takes a step; no thread moves after a fault.
SRCLINE: src/strategy/market_maker.hpp:49-85 -/
def step (cfg : EngineConfig) (s : EngineLoop) (a : LoopAct) : Option (EngineLoop × List LoopObs) :=
  if s.engine.faulted then none
  else
    match a with
    | .stop => some ({ s with running := false }, [])
    | .test =>
      if s.pc = .testing then some ({ s with pc := if s.running then .draining else .returned }, []) else none
    | .popExec =>
      if s.pc = .draining then
        if s.engine.execRing = [] then some ({ s with pc := .taking }, [.drained])
        else s.engineStep cfg .draining .exec
      else none
    | .popMd env =>
      if s.pc = .taking then
        if s.engine.mdRing = [] then some ({ s with pc := .testing }, [.idle])
        else s.engineStep cfg .testing (.md env)
      else none
    | .other a => if a.ofStrategy then none else s.engineStep cfg s.pc a

/-- SRCLINE: src/main.cpp:183-222 -/
def init (tCtor tRun : ℤ) : EngineLoop := { engine := Engine.init tCtor tRun }

end EngineLoop

end MmEngine.Model
