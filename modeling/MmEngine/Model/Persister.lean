import MmEngine.Model.Engine
import MmEngine.Model.Records
import MmEngine.Lib.KeyValue
import MmEngine.Lib.DecimalOrder

/-!
# The persister thread

`LmdbPersister::run` (src/storage/lmdb_persister.hpp:47-73) step by step: the three parts of the
loop condition are read one after the other, each `try_pop` is a step with the `put` that
follows it, and the commit of the transaction is one.  LMDB is the map it documents: `mdb_put`
inserts or overwrites, a commit makes the puts of its transaction visible, and the map outlives
the process.  Its calls succeed, but for `mdb_txn_begin` in the last part, which fails whenever
its environment says so.  The records are of any type: the strategy's, or the bytes of
the machine.
-/

set_option autoImplicit false

namespace MmEngine.Model

open MmEngine.Lib

/-- SRCLINE: src/storage/lmdb_persister.hpp:86 -/
abbrev snapCap : ℕ := 2 ^ 12

/-- Where the persister thread stands.
SRCLINE: src/storage/lmdb_persister.hpp:47-73 -/
inductive PersisterAt where
  /-- Before `running.load()`. -/
  | flag
  /-- Before `snap_ring_.size_approx()`. -/
  | snapSize
  /-- Before `trade_ring_.size_approx()`. -/
  | tradeSize
  /-- Before `snap_ring_.try_pop(s)`. -/
  | snaps
  /-- Before `trade_ring_.try_pop(e)`. -/
  | trades
  /-- Before `mdb_txn_commit(txn)`. -/
  | commit
  /-- After the loop. -/
  | returned
  deriving DecidableEq

/-- A `put`: a record with its number.
SRCLINE: src/storage/lmdb_persister.hpp:53-69 -/
inductive Put (S E : Type) where
  | snap (seq : UInt64) (s : S)
  | trade (seq : UInt64) (e : E)

/-- SRCLINE: src/storage/lmdb_persister.hpp:83-87 -/
structure LmdbPersister (S E : Type) where
  pc : PersisterAt := .flag
  snapSeq : UInt64 := 0
  tradeSeq : UInt64 := 0
  /-- The puts of the open transaction. -/
  txn : List (Put S E) := []
  snapRing : List S := []
  tradeRing : List E := []

namespace LmdbPersister

variable {S E : Type}

/-- SRCLINE: src/storage/lmdb_persister.hpp:44 -/
def pushSnapshot [DecidableEq S] (p : LmdbPersister S E) (s : S) : LmdbPersister S E × Bool :=
  let (ring, taken) := offer snapCap p.snapRing s
  ({ p with snapRing := ring }, taken)

/-- SRCLINE: src/storage/lmdb_persister.hpp:45 -/
def pushTrade [DecidableEq E] (p : LmdbPersister S E) (e : E) : LmdbPersister S E × Bool :=
  let (ring, taken) := offer tradeCap p.tradeRing e
  ({ p with tradeRing := ring }, taken)

/-- One step of the thread, with the puts a commit makes visible.
SRCLINE: src/storage/lmdb_persister.hpp:47-73 -/
def step (running : Bool) (p : LmdbPersister S E) : Option (LmdbPersister S E × List (Put S E)) :=
  match p.pc with
  | .flag => some ({ p with pc := if running then .snaps else .snapSize }, [])
  | .snapSize => some ({ p with pc := if p.snapRing.isEmpty then .tradeSize else .snaps }, [])
  | .tradeSize => some ({ p with pc := if p.tradeRing.isEmpty then .returned else .snaps }, [])
  | .snaps =>
    match p.snapRing with
    | [] => some ({ p with pc := .trades }, [])
    | s :: rest =>
      some ({ p with snapRing := rest, txn := p.txn ++ [.snap p.snapSeq s], snapSeq := p.snapSeq + 1 }, [])
  | .trades =>
    match p.tradeRing with
    | [] => some ({ p with pc := .commit }, [])
    | e :: rest =>
      some ({ p with tradeRing := rest, txn := p.txn ++ [.trade p.tradeSeq e], tradeSeq := p.tradeSeq + 1 }, [])
  | .commit => some ({ p with pc := .flag, txn := [] }, p.txn)
  | .returned => none

end LmdbPersister

section Puts

variable {S E : Type}

/-- The snapshots among the puts, in order. -/
def putSnaps (ps : List (Put S E)) : List S :=
  ps.filterMap fun
    | .snap _ s => some s
    | .trade _ _ => none

/-- The fills among the puts, in order. -/
def putTrades (ps : List (Put S E)) : List E :=
  ps.filterMap fun
    | .snap _ _ => none
    | .trade _ e => some e

end Puts

/-! ## One process after the other on the same path -/

/-- A process as the store sees it. -/
structure Process where
  running : Bool := true
  db : LmdbPersister Stored.BookSnapshot Stored.ExecEvent := {}

/-- What the threads of a process do with the persister. -/
inductive ProcessAct where
  | pushSnapshot (s : Stored.BookSnapshot)
  | pushTrade (e : Stored.ExecEvent)
  | persist
  | stop

/-- One step of a process, with the puts it commits.
SRCLINE: src/storage/lmdb_persister.hpp:44-73, src/main.cpp:42 -/
def Process.step (p : Process) :
    ProcessAct → Option (Process × List (Put Stored.BookSnapshot Stored.ExecEvent))
  | .pushSnapshot s => some ({ p with db := (p.db.pushSnapshot s).1 }, [])
  | .pushTrade e => some ({ p with db := (p.db.pushTrade e).1 }, [])
  | .persist => (p.db.step p.running).map fun (db, ps) => ({ p with db := db }, ps)
  | .stop => some ({ p with running := false }, [])

/-- The record of a put. -/
def Put.record : Put Stored.BookSnapshot Stored.ExecEvent → Stored.Record
  | .snap _ s => .snapshot s
  | .trade _ e => .exec e

/-- The number of a put. -/
def Put.seq {S E : Type} : Put S E → UInt64
  | .snap n _ => n
  | .trade n _ => n

/-- The key and the bytes of a put.
SRCLINE: src/storage/lmdb_persister.hpp:53-69, 76-81 -/
def Put.entry (fill : ℕ → UInt8) (p : Put Stored.BookSnapshot Stored.ExecEvent) : Text × List UInt8 :=
  (p.record.key p.seq, p.record.bytes fill)

/-- The store. -/
abbrev Store := Text → Option (List UInt8)

/-- The store after the processes that committed the puts, one after the other.
SRCLINE: src/storage/lmdb_persister.hpp:26-40, 76-81 -/
def storeAfter (fill : ℕ → UInt8) (runs : List (List (Put Stored.BookSnapshot Stored.ExecEvent))) : Store :=
  runs.foldl (fun db ps => putAll db (ps.map (Put.entry fill))) fun _ => none

/-- LMDB's order of keys: by their bytes, and a key before those it begins.  The keys are
ASCII, one byte for a character. -/
def keyBefore (a b : Text) : Prop := codes a < codes b

/-- What a cursor walks over: the entries of the store, in key order.
SRCLINE: scripts/dump_lmdb.py:50-51 -/
structure IsScan (db : Store) (scan : List (Text × List UInt8)) : Prop where
  sorted : scan.Pairwise fun x y => keyBefore x.1 y.1
  entries : ∀ k v, (k, v) ∈ scan ↔ db k = some v

/-! ## A transaction that cannot be opened -/

/-- What the rings and the store do with a record. -/
inductive DrainKind where
  | accepted
  | popped
  | committed
  deriving DecidableEq

/-- The record of a put, of either ring. -/
def Put.item {S E : Type} : Put S E → S ⊕ E
  | .snap _ s => .inl s
  | .trade _ e => .inr e

/-- One step of the thread when `mdb_txn_begin` succeeds only if `begins`, with what it does to
the records.  The transaction is opened for the first record of a cycle, after the pop: when it
cannot be, `break` leaves the loop with the record popped.  An open transaction holds a put.
SRCLINE: src/storage/lmdb_persister.hpp:51-70 -/
def LmdbPersister.stepBegin {S E : Type} (begins running : Bool) (p : LmdbPersister S E) :
    Option (LmdbPersister S E × List (DrainKind × (S ⊕ E))) :=
  match p.pc with
  | .snaps =>
    match p.snapRing with
    | [] => (p.step running).map fun (q, _) => (q, [])
    | s :: rest =>
      if p.txn.isEmpty && !begins then
        some ({ p with pc := .trades, snapRing := rest }, [(.popped, .inl s)])
      else (p.step running).map fun (q, _) => (q, [(.popped, .inl s)])
  | .trades =>
    match p.tradeRing with
    | [] => (p.step running).map fun (q, _) => (q, [])
    | e :: rest =>
      if p.txn.isEmpty && !begins then
        some ({ p with pc := .commit, tradeRing := rest }, [(.popped, .inr e)])
      else (p.step running).map fun (q, _) => (q, [(.popped, .inr e)])
  | _ => (p.step running).map fun (q, ps) => (q, ps.map fun x => (.committed, x.item))

/-- What the threads of a process do with the persister, and whether `mdb_txn_begin` succeeds. -/
inductive BeginAct where
  | pushSnapshot (s : Stored.BookSnapshot)
  | pushTrade (e : Stored.ExecEvent)
  | persist (begins : Bool)
  | stop

/-- One step of a process whose transactions may not open.
SRCLINE: src/storage/lmdb_persister.hpp:44-73, src/main.cpp:42 -/
def Process.stepBegin (p : Process) :
    BeginAct → Option (Process × List (DrainKind × (Stored.BookSnapshot ⊕ Stored.ExecEvent)))
  | .pushSnapshot s =>
    let (db, taken) := p.db.pushSnapshot s
    some ({ p with db := db }, if taken then [(.accepted, .inl s)] else [])
  | .pushTrade e =>
    let (db, taken) := p.db.pushTrade e
    some ({ p with db := db }, if taken then [(.accepted, .inr e)] else [])
  | .persist begins => (p.db.stepBegin begins p.running).map fun (db, obs) => ({ p with db := db }, obs)
  | .stop => some ({ p with running := false }, [])

end MmEngine.Model
