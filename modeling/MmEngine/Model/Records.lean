import MmEngine.Model.Events
import MmEngine.Lib.ByteLayout

/-!
# The records of the store

`LmdbPersister` stores the structs themselves (src/storage/lmdb_persister.hpp:6-7): the value of
a key is the memory of a `BookSnapshot` or an `ExecEvent` on x86-64, little-endian and naturally
aligned.  Here the two structs are as the machine has them, with their integer widths, their
padding field and the 64 bits of each `double`; the records of `MmEngine.Model.Events` are what
the strategy computes with.  Keys are the ASCII texts `snprintf` prints.
-/

set_option autoImplicit false

namespace MmEngine.Model

open MmEngine.Lib

/-- A `double` as it is stored: its 64 bits. -/
structure Double where
  bits : UInt64
  deriving DecidableEq

/-- The number of an enumerator.
SRCLINE: src/common/events.hpp:31 -/
def OrdSide.code : OrdSide → UInt8
  | .buy => 1
  | .sell => 2

/-- The number of an enumerator.
SRCLINE: src/common/events.hpp:47 -/
def ExecKind.code : ExecKind → UInt8
  | .new => 0
  | .canceled => 1
  | .filled => 2
  | .partFill => 3
  | .rejected => 4
  | .replaced => 5
  | .other => 6

/-! ## Members -/

/-- SRCLINE: src/common/events.hpp:50, 79 -/
def int64Member (x : Int64) : Member := ⟨8, leBytes 8 x.toUInt64.toNat⟩

/-- SRCLINE: src/common/events.hpp:51 -/
def uint64Member (x : UInt64) : Member := ⟨8, leBytes 8 x.toNat⟩

/-- SRCLINE: src/common/events.hpp:55, 80 -/
def uint32Member (x : UInt32) : Member := ⟨4, leBytes 4 x.toNat⟩

/-- SRCLINE: src/common/events.hpp:54, 81 -/
def uint16Member (x : UInt16) : Member := ⟨2, leBytes 2 x.toNat⟩

/-- SRCLINE: src/common/events.hpp:52-53 -/
def uint8Member (x : UInt8) : Member := ⟨1, leBytes 1 x.toNat⟩

/-- SRCLINE: src/common/events.hpp:56-58 -/
def doubleMember (x : Double) : Member := ⟨8, leBytes 8 x.bits.toNat⟩

/-- SRCLINE: src/common/events.hpp:82-83 -/
def doublesMember (xs : Fin kMaxDepth → Double) : Member :=
  ⟨8, (List.ofFn xs).flatMap fun x => (doubleMember x).bytes⟩

/-- SRCLINE: src/common/events.hpp:59 -/
def charsMember {n : ℕ} (cs : Fin n → UInt8) : Member := ⟨1, List.ofFn cs⟩

namespace Stored

/-- SRCLINE: src/common/events.hpp:78-84 -/
structure BookSnapshot where
  tNs : Int64
  symbolId : UInt32
  nBids : UInt16
  nAsks : UInt16
  bidPx : Fin kMaxDepth → Double
  bidQty : Fin kMaxDepth → Double
  askPx : Fin kMaxDepth → Double
  askQty : Fin kMaxDepth → Double
  deriving DecidableEq

/-- SRCLINE: src/common/events.hpp:49-60 -/
structure ExecEvent where
  tRecvNs : Int64
  clOrdId : UInt64
  kind : ExecKind
  side : OrdSide
  pad : UInt16 := 0
  symbolId : UInt32
  lastPx : Double
  lastQty : Double
  leavesQty : Double
  orderId : Fin 24 → UInt8
  deriving DecidableEq

/-- SRCLINE: src/common/events.hpp:78-84 -/
def BookSnapshot.members (s : BookSnapshot) : List Member :=
  [int64Member s.tNs, uint32Member s.symbolId, uint16Member s.nBids, uint16Member s.nAsks,
    doublesMember s.bidPx, doublesMember s.bidQty, doublesMember s.askPx, doublesMember s.askQty]

/-- SRCLINE: src/common/events.hpp:49-60 -/
def ExecEvent.members (e : ExecEvent) : List Member :=
  [int64Member e.tRecvNs, uint64Member e.clOrdId, uint8Member e.kind.code,
    uint8Member e.side.code, uint16Member e.pad, uint32Member e.symbolId, doubleMember e.lastPx,
    doubleMember e.lastQty, doubleMember e.leavesQty, charsMember e.orderId]

/-- What the persister pops and stores: a snapshot or an execution. -/
inductive Record where
  | snapshot (s : BookSnapshot)
  | exec (e : ExecEvent)

/-- The `sizeof` bytes of the struct; `fill` is what padding would hold.
SRCLINE: src/storage/lmdb_persister.hpp:58, 67, 76-81 -/
def Record.bytes (fill : ℕ → UInt8) : Record → List UInt8
  | .snapshot s => structBytes fill s.members
  | .exec e => structBytes fill e.members

end Stored

/-! ## Keys -/

/-- `%010llu`: the decimal digits with zeros in front up to ten places. -/
def padDigits (n : UInt64) : Text :=
  List.replicate (10 - (Nat.toDigits 10 n.toNat).length) '0' ++ Nat.toDigits 10 n.toNat

/-- `snprintf(key, 40, "ob|%u|%010llu", symbol_id, seq)`; at most 34 characters.
SRCLINE: src/storage/lmdb_persister.hpp:55-57 -/
def snapKey (sym : UInt32) (seq : UInt64) : Text :=
  'o' :: 'b' :: '|' :: Nat.toDigits 10 sym.toNat ++ '|' :: padDigits seq

/-- `snprintf(key, 32, "tr|%010llu", seq)`; at most 23 characters.
SRCLINE: src/storage/lmdb_persister.hpp:64-66 -/
def tradeKey (seq : UInt64) : Text := 't' :: 'r' :: '|' :: padDigits seq

/-- What a buffer of `size` bytes holds after `snprintf`: the text, cut to make room for the
terminating NUL.
SRCLINE: src/storage/lmdb_persister.hpp:54-55, 63-64 -/
def inBuffer (size : ℕ) (t : Text) : Text := t.take (size - 1)

namespace Stored

/-- The key of a record at a position of its sequence.
SRCLINE: src/storage/lmdb_persister.hpp:55-57, 64-66 -/
def Record.key (seq : UInt64) : Record → Text
  | .snapshot s => snapKey s.symbolId seq
  | .exec _ => tradeKey seq

end Stored

end MmEngine.Model
