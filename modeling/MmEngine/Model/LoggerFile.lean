import MmEngine.Lib.DecimalText
import MmEngine.Model.CString
import MmEngine.Model.Records

/-!
# The file of the operations log

What `AsyncLogger` prints (src/common/async_logger.hpp): a line with the names of the columns, and
one line for each record that `run` takes off the ring.  Prices and quantities are rounded to the
places of the format.
-/

set_option autoImplicit false

namespace MmEngine.Model

open MmEngine.Lib

/-- SRCLINE: src/common/async_logger.hpp:24 -/
def logHeader : Text := "ts_ns,kind,symbol_id,side,px,qty,cl_ord_id,text".toList

/-- The number of an enumerator.
SRCLINE: src/common/events.hpp:63 -/
def LogKind.code : LogKind → ℕ
  | .mdTick => 0
  | .orderNew => 1
  | .orderCxl => 2
  | .exec => 3
  | .info => 4

/-- SRCLINE: src/common/async_logger.hpp:47 -/
def kinds : List Text := ["MD".toList, "NEW".toList, "CXL".toList, "EXEC".toList, "INFO".toList]

/-- `unsigned(r.side)`, where zero is no side. -/
def sideCode : Option OrdSide → ℕ
  | none => 0
  | some side => side.code.toNat

namespace LogRecord

/-- What the format prints of a record, in its order.
SRCLINE: src/common/async_logger.hpp:53-55 -/
def cells (r : LogRecord) : List Text :=
  [intText r.tNs, kinds.getD r.kind.code [], Nat.toDigits 10 r.symbolId, Nat.toDigits 10 (sideCode r.side),
    fixedText 6 r.px, fixedText 2 r.qty, Nat.toDigits 10 r.clOrdId.toNat, cStr r.text]

/-- SRCLINE: src/common/async_logger.hpp:52-55 -/
def csvLine (r : LogRecord) : Text := [','].intercalate r.cells

end LogRecord

/-- The file after these records.
SRCLINE: src/common/async_logger.hpp:22-25, 51-55 -/
def opsFile (rs : List LogRecord) : Text :=
  logHeader ++ '\n' :: rs.flatMap fun r => r.csvLine ++ ['\n']

end MmEngine.Model
