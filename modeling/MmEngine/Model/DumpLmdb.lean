import MmEngine.Model.Records

/-!
# The dump script

`dump_lmdb.py` walks the store in key order, reads each value with a `struct` format and prints
one row for it (scripts/dump_lmdb.py).  How Python prints a time and a `double` is left to a
`PyFormat`: the script hands it the number it has read.  The keys of the store are ASCII, so
decoding one gives the same text.
-/

set_option autoImplicit false

namespace MmEngine.Model

open MmEngine.Lib

/-- Python's formats of a time stamp and of a `double`: `fmt_ns(t)`, `{x:.4f}` and `{x:g}`.
SRCLINE: scripts/dump_lmdb.py:42-43, 62-63, 71-74 -/
structure PyFormat where
  fmtNs : ℤ → Text
  fixed4 : Double → Text
  general : Double → Text

/-- SRCLINE: scripts/dump_lmdb.py:26 -/
abbrev kDumpDepth : ℕ := 5

/-- SRCLINE: scripts/dump_lmdb.py:31 -/
def snapFmt : List FormatChar := [.q, .I, .H, .H] ++ List.replicate (4 * kDumpDepth) .d

/-- SRCLINE: scripts/dump_lmdb.py:35 -/
def execFmt : List FormatChar := [.q, .Q, .B, .B, .H, .I, .d, .d, .d, .s 24]

/-- SRCLINE: scripts/dump_lmdb.py:37-38 -/
def execKindTable (kind : ℤ) : Option Text :=
  if kind = 0 then some ['N', 'e', 'w']
  else if kind = 1 then some ['C', 'a', 'n', 'c', 'e', 'l', 'e', 'd']
  else if kind = 2 then some ['F', 'i', 'l', 'l', 'e', 'd']
  else if kind = 3 then some ['P', 'a', 'r', 't', 'F', 'i', 'l', 'l']
  else if kind = 4 then some ['R', 'e', 'j', 'e', 'c', 't', 'e', 'd']
  else if kind = 5 then some ['R', 'e', 'p', 'l', 'a', 'c', 'e', 'd']
  else if kind = 6 then some ['O', 't', 'h', 'e', 'r']
  else none

/-- SRCLINE: scripts/dump_lmdb.py:39 -/
def sideTable (side : ℤ) : Option Text :=
  if side = 0 then some ['B', 'u', 'y'] else if side = 1 then some ['S', 'e', 'l', 'l'] else none

/-- `{n}`: an integer in decimal. -/
def pyInt (n : ℤ) : Text := (toString n).toList

/-- `{t:<w}`: blanks after a text that is shorter. -/
def ljust (w : ℕ) (t : Text) : Text := t ++ List.replicate (w - t.length) ' '

/-- `b.decode("ascii", "replace")`. -/
def asciiReplace (bs : List UInt8) : Text :=
  bs.map fun b => if b < 128 then Char.ofNat b.toNat else Char.ofNat 0xFFFD

/-- `float("nan")`. -/
def nan : Double := ⟨0x7FF8000000000000⟩

/-- The `double` at a position of an unpacked tuple. -/
def floatAt (d : List FormatValue) (i : ℕ) : Option Double :=
  match d[i]? with
  | some (.float bits) => some ⟨UInt64.ofNat bits⟩
  | _ => none

/-- The best price of a side with `n` levels.
SRCLINE: scripts/dump_lmdb.py:60-61 -/
def bestAt (n : ℤ) (d : List FormatValue) (i : ℕ) : Option Double :=
  if n ≠ 0 then floatAt d i else some nan

section Rows

variable (F : PyFormat) (key : Text)

/-- The row of a snapshot.
SRCLINE: scripts/dump_lmdb.py:62-63 -/
def obRow (t sym nb na : ℤ) (bb ba : Double) : Text :=
  "[OB ] ".toList ++ ljust 24 key ++ " ".toList ++ F.fmtNs t ++ " sym=".toList ++ pyInt sym ++
    " bids=".toList ++ pyInt nb ++ " asks=".toList ++ pyInt na ++
    " BB=".toList ++ F.fixed4 bb ++ " BA=".toList ++ F.fixed4 ba

/-- The row of an execution.
SRCLINE: scripts/dump_lmdb.py:71-74 -/
def trRow (t sym : ℤ) (kind side : Text) (px qty leaves : Double) (cl : ℤ) (oid : Text) : Text :=
  "[TRD] ".toList ++ ljust 24 key ++ " ".toList ++ F.fmtNs t ++ " sym=".toList ++ pyInt sym ++
    " ".toList ++ ljust 8 kind ++ " ".toList ++ (ljust 4 side ++
    (" px=".toList ++ F.fixed4 px ++ " qty=".toList ++ F.general qty ++ " leaves=".toList ++
      F.general leaves ++ " clordid=".toList ++ pyInt cl ++ " orderid=".toList ++ oid))

/-- SRCLINE: scripts/dump_lmdb.py:57-63 -/
def obLine (v : List UInt8) : Option Text :=
  match unpackFrom snapFmt v with
  | some (.int t :: .int sym :: .int nb :: .int na :: d) => do
    let bb ← bestAt nb d 0
    let ba ← bestAt na d (2 * kDumpDepth)
    some (obRow F key t sym nb na bb ba)
  | _ => none

/-- SRCLINE: scripts/dump_lmdb.py:68-74 -/
def trLine (v : List UInt8) : Option Text :=
  match unpackFrom execFmt v with
  | some [.int t, .int cl, .int kind, .int side, .int _, .int sym, .float px, .float qty,
      .float leaves, .bytes oid] =>
    some (trRow F key t sym ((execKindTable kind).getD (pyInt kind))
      ((sideTable side).getD (pyInt side)) ⟨UInt64.ofNat px⟩ ⟨UInt64.ofNat qty⟩
      ⟨UInt64.ofNat leaves⟩ cl (asciiReplace (oid.takeWhile fun b => b ≠ 0)))
  | _ => none

end Rows

/-- The counters of the walk and the rows it has printed.
SRCLINE: scripts/dump_lmdb.py:49 -/
structure DumpState where
  nOb : ℕ := 0
  nTr : ℕ := 0
  totOb : ℕ := 0
  totTr : ℕ := 0
  lines : List Text := []

/-- One entry of the store; `none` where Python raises.
SRCLINE: scripts/dump_lmdb.py:51-74 -/
def dumpEntry (F : PyFormat) (showOb showTr : Bool) (limit : ℤ) (st : DumpState)
    (entry : Text × List UInt8) : Option DumpState :=
  let (key, v) := entry
  if ['o', 'b', '|'].isPrefixOf key then
    let st := { st with totOb := st.totOb + 1 }
    if showOb ∧ st.nOb < limit ∧ calcsize snapFmt ≤ v.length then
      (obLine F key v).map fun line => { st with nOb := st.nOb + 1, lines := st.lines ++ [line] }
    else some st
  else if ['t', 'r', '|'].isPrefixOf key then
    let st := { st with totTr := st.totTr + 1 }
    if showTr ∧ st.nTr < limit ∧ calcsize execFmt ≤ v.length then
      (trLine F key v).map fun line => { st with nTr := st.nTr + 1, lines := st.lines ++ [line] }
    else some st
  else some st

/-- The walk over the store, in key order, and the totals at its end.
SRCLINE: scripts/dump_lmdb.py:46-76 -/
def dump (F : PyFormat) (showOb showTr : Bool) (limit : ℤ) (entries : List (Text × List UInt8)) :
    Option (List Text) :=
  (entries.foldlM (dumpEntry F showOb showTr limit) {}).map fun st =>
    st.lines ++ ["\nTotals in store: ".toList ++ pyInt st.totOb ++ " order-book snapshots, ".toList ++
      pyInt st.totTr ++ " trade records.".toList]

end MmEngine.Model
