import MmEngine.Model.DumpLmdb

/-!
# The rows of the dump

The formats of the dump script read the stored structs back exactly: neither struct has padding,
and each format has one character for each field (`unpack_bytes`).  The rows of snapshots name
what is stored.  The rows of executions do not: the script numbers the sides from 0, the engine
from 1, so a buy is printed as a sell and a sell as `2`; everything else in the row is right.
-/

set_option autoImplicit false

namespace MmEngine.Analysis

open MmEngine.Model MmEngine.Lib

/-! ## Fields as pieces -/

/-- A `double` and the format character that reads it. -/
def doublePiece (x : Double) : Piece where
  char := .d
  bytes := (doubleMember x).bytes
  value := .float x.bits.toNat
  length_eq := length_leBytes 8 _
  read_eq := by
    show FormatValue.float (leValue (leBytes 8 x.bits.toNat)) = _
    rw [leValue_leBytes (w := 8) x.bits.toNat_lt]

def int64Piece (x : Int64) : Piece where
  char := .q
  bytes := (int64Member x).bytes
  value := .int x.toInt
  length_eq := length_leBytes 8 _
  read_eq := by
    show FormatValue.int (Int.bmod (leValue (leBytes 8 x.toUInt64.toNat)) (2 ^ 64)) = _
    rw [leValue_leBytes (w := 8) x.toUInt64.toNat_lt]
    exact congrArg FormatValue.int x.toBitVec.toInt_eq_toNat_bmod.symm

def uint64Piece (x : UInt64) : Piece where
  char := .Q
  bytes := (uint64Member x).bytes
  value := .int x.toNat
  length_eq := length_leBytes 8 _
  read_eq := by
    show FormatValue.int (leValue (leBytes 8 x.toNat)) = _
    rw [leValue_leBytes (w := 8) x.toNat_lt]

def uint32Piece (x : UInt32) : Piece where
  char := .I
  bytes := (uint32Member x).bytes
  value := .int x.toNat
  length_eq := length_leBytes 4 _
  read_eq := by
    show FormatValue.int (leValue (leBytes 4 x.toNat)) = _
    rw [leValue_leBytes (w := 4) x.toNat_lt]

def uint16Piece (x : UInt16) : Piece where
  char := .H
  bytes := (uint16Member x).bytes
  value := .int x.toNat
  length_eq := length_leBytes 2 _
  read_eq := by
    show FormatValue.int (leValue (leBytes 2 x.toNat)) = _
    rw [leValue_leBytes (w := 2) x.toNat_lt]

def uint8Piece (x : UInt8) : Piece where
  char := .B
  bytes := (uint8Member x).bytes
  value := .int x.toNat
  length_eq := length_leBytes 1 _
  read_eq := by
    show FormatValue.int (leValue (leBytes 1 x.toNat)) = _
    rw [leValue_leBytes (w := 1) x.toNat_lt]

def charsPiece {n : ℕ} (cs : Fin n → UInt8) : Piece where
  char := .s n
  bytes := (charsMember cs).bytes
  value := .bytes (List.ofFn cs)
  length_eq := List.length_ofFn
  read_eq := rfl

/-- The fields of a snapshot in the order of the struct. -/
def snapshotPieces (s : Stored.BookSnapshot) : List Piece :=
  [int64Piece s.tNs, uint32Piece s.symbolId, uint16Piece s.nBids, uint16Piece s.nAsks] ++
    ((List.ofFn s.bidPx).map doublePiece ++ (List.ofFn s.bidQty).map doublePiece ++
      (List.ofFn s.askPx).map doublePiece ++ (List.ofFn s.askQty).map doublePiece)

/-- The fields of an execution in the order of the struct. -/
def execPieces (e : Stored.ExecEvent) : List Piece :=
  [int64Piece e.tRecvNs, uint64Piece e.clOrdId, uint8Piece e.kind.code, uint8Piece e.side.code,
    uint16Piece e.pad, uint32Piece e.symbolId, doublePiece e.lastPx, doublePiece e.lastQty,
    doublePiece e.leavesQty, charsPiece e.orderId]

theorem snapshotPieces_chars (s : Stored.BookSnapshot) :
    (snapshotPieces s).map Piece.char = snapFmt := rfl

theorem execPieces_chars (e : Stored.ExecEvent) : (execPieces e).map Piece.char = execFmt := rfl

/-- INTERNAL: the members of a snapshot are its pieces, without padding. -/
theorem snapshot_bytes (fill : ℕ → UInt8) (s : Stored.BookSnapshot) :
    structBytes fill s.members = (snapshotPieces s).flatMap Piece.bytes := by
  have hflat : s.members.flatMap Member.bytes = (snapshotPieces s).flatMap Piece.bytes := by
    unfold Stored.BookSnapshot.members snapshotPieces doublesMember
    simp only [List.flatMap_cons, List.flatMap_nil, List.flatMap_append, List.flatMap_map,
      List.append_nil, List.append_assoc]
    rfl
  rw [← hflat]
  apply structBytes_of_packed
  · simp [PackedFrom, Stored.BookSnapshot.members, gapAt, int64Member, uint32Member,
      uint16Member, doublesMember, doubleMember]
  · rw [hflat, length_pieces, snapshotPieces_chars]
    have halign : recordAlign s.members = 8 := rfl
    rw [halign]
    decide

/-- INTERNAL: the members of an execution are its pieces, without padding. -/
theorem exec_bytes (fill : ℕ → UInt8) (e : Stored.ExecEvent) :
    structBytes fill e.members = (execPieces e).flatMap Piece.bytes := by
  have hflat : e.members.flatMap Member.bytes = (execPieces e).flatMap Piece.bytes := rfl
  rw [← hflat]
  apply structBytes_of_packed
  · simp [PackedFrom, Stored.ExecEvent.members, gapAt, int64Member, uint64Member, uint32Member,
      uint16Member, uint8Member, doubleMember, charsMember]
  · rw [hflat, length_pieces, execPieces_chars]
    have halign : recordAlign e.members = 8 := rfl
    rw [halign]
    decide

/-! ## What a record should show -/

/-- The format the script reads a record with. -/
def formatOf : Stored.Record → List FormatChar
  | .snapshot _ => snapFmt
  | .exec _ => execFmt

/-- The stored fields, in the order of the struct. -/
def fieldsOf : Stored.Record → List FormatValue
  | .snapshot s => (snapshotPieces s).map Piece.value
  | .exec e => (execPieces e).map Piece.value

/-- **The formats read the structs back.**
SRCLINE: scripts/dump_lmdb.py:28-35 -/
theorem unpack_bytes (fill : ℕ → UInt8) (r : Stored.Record) :
    unpackFrom (formatOf r) (r.bytes fill) = some (fieldsOf r) := by
  cases r with
  | snapshot s =>
    unfold Stored.Record.bytes formatOf fieldsOf
    dsimp only
    rw [snapshot_bytes, ← snapshotPieces_chars s]
    exact unpackFrom_pieces _
  | exec e =>
    unfold Stored.Record.bytes formatOf fieldsOf
    dsimp only
    rw [exec_bytes, ← execPieces_chars e]
    exact unpackFrom_pieces _

/-- The source's name of an enumerator.
SRCLINE: src/common/events.hpp:31 -/
def sideName : OrdSide → Text
  | .buy => ['B', 'u', 'y']
  | .sell => ['S', 'e', 'l', 'l']

/-- The source's name of an enumerator.
SRCLINE: src/common/events.hpp:47 -/
def kindName : ExecKind → Text
  | .new => ['N', 'e', 'w']
  | .canceled => ['C', 'a', 'n', 'c', 'e', 'l', 'e', 'd']
  | .filled => ['F', 'i', 'l', 'l', 'e', 'd']
  | .partFill => ['P', 'a', 'r', 't', 'F', 'i', 'l', 'l']
  | .rejected => ['R', 'e', 'j', 'e', 'c', 't', 'e', 'd']
  | .replaced => ['R', 'e', 'p', 'l', 'a', 'c', 'e', 'd']
  | .other => ['O', 't', 'h', 'e', 'r']

/-- The characters of a NUL-terminated array. -/
def orderIdText (cs : Fin 24 → UInt8) : Text :=
  ((List.ofFn cs).takeWhile fun b => b ≠ 0).map fun b => Char.ofNat b.toNat

/-- The best price of a side; a side without levels has none. -/
def bestOf (n : UInt16) (px : Fin kMaxDepth → Double) : Double :=
  if n ≠ 0 then px ⟨0, kMaxDepth_pos⟩ else nan

section Rows

variable (F : PyFormat) (key : Text)

/-- The row of an execution under a name for its side. -/
def execRow (e : Stored.ExecEvent) (side : Text) : Text :=
  trRow F key e.tRecvNs.toInt e.symbolId.toNat (kindName e.kind) side e.lastPx e.lastQty
    e.leavesQty e.clOrdId.toNat (orderIdText e.orderId)

/-- The row that names what the engine stored. -/
def rowOf : Stored.Record → Text
  | .snapshot s =>
    obRow F key s.tNs.toInt s.symbolId.toNat s.nBids.toNat s.nAsks.toNat
      (bestOf s.nBids s.bidPx) (bestOf s.nAsks s.askPx)
  | .exec e => execRow F key e (sideName e.side)

/-- The side as the script names it. -/
def printedSide (side : OrdSide) : Text :=
  (sideTable side.code.toNat).getD (pyInt side.code.toNat)

theorem double_ofNat (x : Double) : (⟨UInt64.ofNat x.bits.toNat⟩ : Double) = x := by
  rw [UInt64.ofNat_toNat]

theorem best_eq {n : UInt16} {px : Fin kMaxDepth → Double} {d : List FormatValue} {i : ℕ}
    (hd : floatAt d i = some (px ⟨0, by decide⟩)) :
    bestAt n.toNat d i = some (bestOf n px) := by
  unfold bestAt bestOf
  by_cases hn : n = 0
  · subst hn
    rfl
  · have hn' : (n.toNat : ℤ) ≠ 0 := by
      intro hc
      exact hn (UInt16.toNat_inj.mp (by exact_mod_cast hc))
    rw [if_pos hn', if_pos hn, hd]

/-- INTERNAL: **the row of a snapshot** names what is stored. -/
theorem obLine_eq (fill : ℕ → UInt8) (s : Stored.BookSnapshot) :
    obLine F key ((Stored.Record.snapshot s).bytes fill) = some (rowOf F key (.snapshot s)) := by
  have hunpack : unpackFrom snapFmt ((Stored.Record.snapshot s).bytes fill) = _ :=
    unpack_bytes fill (.snapshot s)
  unfold obLine
  rw [hunpack]
  -- the four doubles after the counts start at positions 0, 5, 10 and 15
  have hbid : floatAt (((snapshotPieces s).map Piece.value).drop 4) 0 = some (s.bidPx ⟨0, by decide⟩) :=
    congrArg some (double_ofNat _)
  have hask : floatAt (((snapshotPieces s).map Piece.value).drop 4) 10 = some (s.askPx ⟨0, by decide⟩) :=
    congrArg some (double_ofNat _)
  show (do
    let bb ← bestAt s.nBids.toNat (((snapshotPieces s).map Piece.value).drop 4) 0
    let ba ← bestAt s.nAsks.toNat (((snapshotPieces s).map Piece.value).drop 4) 10
    some (obRow F key s.tNs.toInt s.symbolId.toNat s.nBids.toNat s.nAsks.toNat bb ba)) = _
  rw [best_eq hbid, best_eq hask]
  rfl

/-- INTERNAL: the kinds have the same numbers on both sides. -/
theorem execKindTable_code (k : ExecKind) :
    (execKindTable k.code.toNat).getD (pyInt k.code.toNat) = kindName k := by
  cases k <;> rfl

theorem asciiReplace_eq {cs : Fin 24 → UInt8} (hascii : ∀ i, cs i < 128) :
    asciiReplace ((List.ofFn cs).takeWhile fun b => b ≠ 0) = orderIdText cs := by
  unfold asciiReplace orderIdText
  apply List.map_congr_left
  intro b hb
  obtain ⟨i, rfl⟩ := List.mem_ofFn.mp ((List.takeWhile_sublist _).subset hb)
  rw [if_pos (hascii i)]

/-- INTERNAL: the row of an execution, with the side and the id as the script has them. -/
theorem trLine_eq (fill : ℕ → UInt8) (e : Stored.ExecEvent) :
    trLine F key ((Stored.Record.exec e).bytes fill) =
      some (trRow F key e.tRecvNs.toInt e.symbolId.toNat (kindName e.kind) (printedSide e.side)
        e.lastPx e.lastQty e.leavesQty e.clOrdId.toNat
        (asciiReplace ((List.ofFn e.orderId).takeWhile fun b => b ≠ 0))) := by
  have hunpack : unpackFrom execFmt ((Stored.Record.exec e).bytes fill) = _ :=
    unpack_bytes fill (.exec e)
  unfold trLine
  rw [hunpack, ← execKindTable_code, ← double_ofNat e.lastPx, ← double_ofNat e.lastQty,
    ← double_ofNat e.leavesQty]
  rfl

end Rows

/-! ## The walk -/

/-- The script prints a row for the record: its kind is asked for and below the limit. -/
def Shown (showOb showTr : Bool) (limit : ℤ) (st : DumpState) : Stored.Record → Prop
  | .snapshot _ => showOb = true ∧ st.nOb < limit
  | .exec _ => showTr = true ∧ st.nTr < limit

/-- The line the script prints for a record. -/
def lineOf (F : PyFormat) (key : Text) (v : List UInt8) : Stored.Record → Option Text
  | .snapshot _ => obLine F key v
  | .exec _ => trLine F key v

theorem calcsize_le_bytes (fill : ℕ → UInt8) (r : Stored.Record) :
    calcsize (formatOf r) ≤ (r.bytes fill).length := by
  by_contra hlt
  have hunpack := unpack_bytes fill r
  unfold unpackFrom at hunpack
  rw [if_neg hlt] at hunpack
  exact absurd hunpack (by simp)

/-- INTERNAL: **one entry of the walk**: a record that is shown adds its line. -/
theorem dumpEntry_lines {F : PyFormat} {fill : ℕ → UInt8} {r : Stored.Record} {showOb showTr : Bool}
    {limit : ℤ} {st : DumpState} (hshown : Shown showOb showTr limit st r) (seq : UInt64) :
    (dumpEntry F showOb showTr limit st (r.key seq, r.bytes fill)).map DumpState.lines =
      (lineOf F (r.key seq) (r.bytes fill) r).map fun line => st.lines ++ [line] := by
  have hsize := calcsize_le_bytes fill r
  cases r with
  | snapshot s =>
    have hkey : ['o', 'b', '|'].isPrefixOf ((Stored.Record.snapshot s).key seq) = true := rfl
    unfold dumpEntry lineOf
    dsimp only
    rw [if_pos hkey, if_pos ⟨hshown.1, hshown.2, hsize⟩, Option.map_map]
    rfl
  | exec e =>
    have hkey : ['t', 'r', '|'].isPrefixOf ((Stored.Record.exec e).key seq) = true := rfl
    have hkey' : ¬ ['o', 'b', '|'].isPrefixOf ((Stored.Record.exec e).key seq) = true :=
      Bool.false_ne_true
    unfold dumpEntry lineOf
    dsimp only
    rw [if_neg hkey', if_pos hkey, if_pos ⟨hshown.1, hshown.2, hsize⟩, Option.map_map]
    rfl

/-- The format reads the stored struct back, and every row that is printed for the record names
what the engine stored. -/
def RowAgrees (F : PyFormat) (fill : ℕ → UInt8) (r : Stored.Record) : Prop :=
  unpackFrom (formatOf r) (r.bytes fill) = some (fieldsOf r) ∧
    ∀ (seq : UInt64) (showOb showTr : Bool) (limit : ℤ) (st : DumpState),
      Shown showOb showTr limit st r →
        (dumpEntry F showOb showTr limit st (r.key seq, r.bytes fill)).map DumpState.lines =
          some (st.lines ++ [rowOf F (r.key seq) r])

/-- INTERNAL: rows that agree up to the side show the same four characters for it. -/
theorem ljust_side_of_trRow_eq {F : PyFormat} {key : Text} {t sym : ℤ} {kind side side' : Text}
    {px qty leaves : Double} {cl : ℤ} {oid oid' : Text}
    (h : trRow F key t sym kind side px qty leaves cl oid =
      trRow F key t sym kind side' px qty leaves cl oid') (hlen : side.length ≤ 4)
    (hlen' : side'.length ≤ 4) : ljust 4 side = ljust 4 side' := by
  unfold trRow at h
  have hrest := List.append_cancel_left h
  have hpad : ∀ t : Text, t.length ≤ 4 → (ljust 4 t).length = 4 := by
    intro t ht
    unfold ljust
    rw [List.length_append, List.length_replicate]
    omega
  exact (List.append_inj hrest (by rw [hpad side hlen, hpad side' hlen'])).1

/-- INTERNAL: no side is printed under its own name. -/
theorem printedSide_ne (side : OrdSide) : ljust 4 (printedSide side) ≠ ljust 4 (sideName side) := by
  cases side <;> decide

theorem length_printedSide_le (side : OrdSide) : (printedSide side).length ≤ 4 := by
  cases side <;> decide

/-- **The script agrees with the engine on a record exactly when it is a snapshot.**  The fields
are read back from every record; the row of an execution names its side wrongly, a buy as a sell
and a sell as `2`, and everything else rightly when the order id is ASCII.
SRCLINE: scripts/dump_lmdb.py:28-74, src/common/events.hpp:29-84 -/
theorem row_agrees_iff_snapshot (F : PyFormat) (fill : ℕ → UInt8) (r : Stored.Record) :
    (RowAgrees F fill r ↔ ∃ s, r = .snapshot s) ∧
      unpackFrom (formatOf r) (r.bytes fill) = some (fieldsOf r) ∧
      ∀ e, r = .exec e → (∀ i, e.orderId i < 128) → ∀ seq,
        trLine F (r.key seq) (r.bytes fill) = some (execRow F (r.key seq) e (printedSide e.side)) := by
  refine ⟨⟨?_, ?_⟩, unpack_bytes fill r, ?_⟩
  · rintro ⟨-, hrow⟩
    cases r with
    | snapshot s => exact ⟨s, rfl⟩
    | exec e =>
      exfalso
      have hshown : Shown true true 1 {} (.exec e) := ⟨rfl, by decide⟩
      have hline := hrow 0 true true 1 {} hshown
      rw [dumpEntry_lines hshown] at hline
      unfold lineOf at hline
      dsimp only at hline
      rw [trLine_eq] at hline
      have heq := List.singleton_injective (Option.some_inj.mp hline)
      exact printedSide_ne e.side
        (ljust_side_of_trRow_eq heq (length_printedSide_le e.side) (by cases e.side <;> decide))
  · rintro ⟨s, rfl⟩
    refine ⟨unpack_bytes fill _, ?_⟩
    intro seq showOb showTr limit st hshown
    rw [dumpEntry_lines hshown]
    unfold lineOf
    dsimp only
    rw [obLine_eq]
    rfl
  · rintro e rfl hascii seq
    rw [trLine_eq, asciiReplace_eq hascii]
    rfl

/-- A fill of a buy order of one unit at one. -/
def boughtOne : Stored.ExecEvent :=
  { tRecvNs := 0, clOrdId := 1000, kind := .filled, side := .buy, symbolId := 0,
    lastPx := ⟨0x3FF0000000000000⟩, lastQty := ⟨0x3FF0000000000000⟩, leavesQty := ⟨0⟩,
    orderId := fun i => if i = 0 then 55 else 0 }

/-- Python's formats of the numbers in `boughtOne`, in UTC. -/
def unitFormat : PyFormat where
  fmtNs t := if t = 0 then "1970-01-01 00:00:00.000000".toList else pyInt t
  fixed4 x := if x.bits = 0 then "0.0000".toList else "1.0000".toList
  general x := if x.bits = 0 then "0".toList else "1".toList

/-- A stored buy is printed as a sell. -/
theorem boughtOne_printed_as_sell :
    trLine unitFormat (tradeKey 0) ((Stored.Record.exec boughtOne).bytes fun _ => 0) =
        some ("[TRD] tr|0000000000            1970-01-01 00:00:00.000000 sym=0 Filled   Sell ".toList ++
          "px=1.0000 qty=1 leaves=0 clordid=1000 orderid=7".toList) ∧
      ¬ RowAgrees unitFormat (fun _ => 0) (.exec boughtOne) := by
  constructor
  · decide +kernel
  · rintro ⟨-, hrow⟩
    have hshown : Shown true true 1 {} (.exec boughtOne) := ⟨rfl, by decide⟩
    have hline := hrow 0 true true 1 {} hshown
    exact absurd hline (by decide +kernel)

end MmEngine.Analysis
