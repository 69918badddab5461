import MmEngine.Model.Config
import MmEngine.Model.CString
import MmEngine.Lib.KeyValue
import MmEngine.Lib.Lines
import Mathlib.Algebra.Group.Int.Defs
import Mathlib.Data.List.DropRight

/-!
# Loading the configuration

`EngineConfig::load` (src/common/config.hpp:31-76): the lines of `strategy.cfg` fill a map, in
which a later line overwrites an earlier one, and `get` reads one key after the other, each as
the type of its default.  A conversion that fails throws, and nothing catches it.  The symbols
are the lines of the file the configuration names.

`std::stoi` is the C++ library's: the digits `strtol` reads, in the range of an `int`.
`std::stod` hands the text to `strtod`, which skips blanks; what `strtod` makes of the rest is a
parameter.  A file that cannot be opened has no lines.
-/

set_option autoImplicit false

namespace MmEngine.Model

open MmEngine.Lib

/-- Why a conversion throws. -/
inductive ConversionError where
  | invalidArgument
  | outOfRange
  deriving DecidableEq

/-- What `load` throws: the conversion that `what()` names, and the type of the exception.
SRCLINE: src/common/config.hpp:48-49 -/
inductive LoadError where
  | stod (e : ConversionError)
  | stoi (e : ConversionError)
  deriving DecidableEq

/-- What `strtod` reads at the start of a text that begins with no blank. -/
abbrev Strtod := Text → Except ConversionError ℚ

namespace EngineConfig

/-- SRCLINE: src/common/config.hpp:41, 70 -/
def isTrailing (c : Char) : Bool := c == '\r' || c == ' '

/-- SRCLINE: src/common/config.hpp:41, 70 -/
def trimBack (t : Text) : Text := t.rdropWhile isTrailing

/-- The key and the value of a line of `strategy.cfg`.
SRCLINE: src/common/config.hpp:36-42 -/
def parseLine (line : Text) : Option (Text × Text) :=
  if line.isEmpty || line.head? == some '#' then none
  else if line.contains '=' then
    some (line.takeWhile (· != '='), trimBack ((line.dropWhile (· != '=')).drop 1))
  else none

/-- The map the lines fill.
SRCLINE: src/common/config.hpp:33-43 -/
def parseMap (cfg : Text) : Text → Option Text :=
  putAll (fun _ => none) ((linesOf '\n' cfg).filterMap parseLine)

/-- The symbol of a line of the symbols file.
SRCLINE: src/common/config.hpp:69-73 -/
def parseSymbol (line : Text) : Option Text :=
  let line := trimBack line
  if line.isEmpty || line.head? == some '#' then none else some line

/-- SRCLINE: src/common/config.hpp:68-73 -/
def parseSymbols (file : Text) : List Text := (linesOf '\n' file).filterMap parseSymbol

/-- SRCLINE: src/common/config.hpp:48 -/
def stod (strtod : Strtod) (t : Text) : Except LoadError ℚ :=
  (strtod ((cStr t).dropWhile isCSpace)).mapError .stod

/-- SRCLINE: src/common/config.hpp:49 -/
def stoi (t : Text) : Except LoadError ℤ :=
  let (neg, body) := takeSign ((cStr t).dropWhile isCSpace)
  let digits := body.takeWhile Char.isDigit
  let n : ℤ := Nat.ofDigitChars 10 digits 0
  let value := if neg then -n else n
  if digits.isEmpty then .error (.stoi .invalidArgument)
  else if value < -2 ^ 31 || 2 ^ 31 ≤ value then .error (.stoi .outOfRange)
  else .ok value

section Get

variable (kv : Text → Option Text) (key : Text)

/-- SRCLINE: src/common/config.hpp:44-48 -/
def getDouble (strtod : Strtod) (dflt : ℚ) : Except LoadError ℚ :=
  match kv key with
  | none => .ok dflt
  | some v => stod strtod v

/-- SRCLINE: src/common/config.hpp:44-49 -/
def getInt (dflt : ℤ) : Except LoadError ℤ :=
  match kv key with
  | none => .ok dflt
  | some v => stoi v

/-- SRCLINE: src/common/config.hpp:44-50 -/
def getBool (dflt : Bool) : Bool :=
  match kv key with
  | none => dflt
  | some v => v == "1".toList || v == "true".toList

/-- SRCLINE: src/common/config.hpp:44-51 -/
def getText (dflt : Text) : Text := (kv key).getD dflt

end Get

/-- SRCLINE: src/common/config.hpp:31-76 -/
def load (strtod : Strtod) (cfg : Text) (files : Text → Text) : Except LoadError EngineConfig := do
  let c : EngineConfig := {}
  let kv := parseMap cfg
  let minimumSpread ← getDouble kv "MINIMUM_SPREAD".toList strtod c.minimumSpread
  let orderSpread ← getDouble kv "ORDER_SPREAD".toList strtod c.orderSpread
  let tickSize ← getDouble kv "TICK_SIZE".toList strtod c.tickSize
  let orderQty ← getDouble kv "ORDER_QTY".toList strtod c.orderQty
  let bookDepth ← getInt kv "BOOK_DEPTH".toList c.bookDepth
  let account := getText kv "ACCOUNT".toList c.account
  let fixCfg := getText kv "FIX_CFG".toList c.fixCfg
  let symbolsFile := getText kv "SYMBOLS_FILE".toList c.symbolsFile
  let strategyCore ← getInt kv "STRATEGY_CORE".toList c.strategyCore
  let fixCore ← getInt kv "FIX_CORE".toList c.fixCore
  let metricsPort ← getInt kv "METRICS_PORT".toList c.metricsPort
  let lmdbPath := getText kv "LMDB_PATH".toList c.lmdbPath
  let snapshotIntervalMs ← getInt kv "SNAPSHOT_INTERVAL_MS".toList c.snapshotIntervalMs
  let dryRun := getBool kv "DRY_RUN".toList c.dryRun
  let symbols := parseSymbols (files symbolsFile)
  return { c with minimumSpread, orderSpread, tickSize, orderQty, bookDepth, account, fixCfg, symbolsFile,
                  strategyCore, fixCore, metricsPort, lmdbPath, snapshotIntervalMs, dryRun, symbols }

end EngineConfig

end MmEngine.Model
