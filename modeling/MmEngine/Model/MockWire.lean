import MmEngine.Lib.Framing
import MmEngine.Model.Events
import Mathlib.Algebra.Ring.Nat
import Mathlib.Logic.Function.Basic

/-!
# The messages of the mock exchange

`checksum`, `build` and `parse` of scripts/mock_exchange.py, and the part of `Session.run` that
cuts the buffer into messages.  A Python string is a list of characters; latin-1 is the first 256
of them, and what is outside of it raises `UnicodeEncodeError`, which is `none`.  A parsed message
is a dictionary whose values are texts, except for the list under `_symbols`.
-/

set_option autoImplicit false

namespace MmEngine.Model.Mock

open MmEngine.Lib

/-- SRCLINE: scripts/mock_exchange.py:28 -/
abbrev soh : Char := Char.ofNat 1

/-- `s.encode('latin-1')`. -/
def encodeLatin1 (s : Text) : Option (List UInt8) :=
  if s.all (·.toNat < 256) then some (s.map fun c => UInt8.ofNat c.toNat) else none

/-- `chunk.decode("latin-1")`. -/
def decodeLatin1 (bytes : List UInt8) : Text := bytes.map fun b => Char.ofNat b.toNat

/-- A number in at least `width` digits, as `{n:03d}` prints it. -/
def padded (width n : ℕ) : Text :=
  List.replicate (width - (Nat.toDigits 10 n).length) '0' ++ Nat.toDigits 10 n

/-- `str` of an `int`. -/
def decimal : ℤ → Text
  | .ofNat n => Nat.toDigits 10 n
  | .negSucc n => '-' :: Nat.toDigits 10 (n + 1)

/-- A reading of the clock, in UTC. -/
structure UtcTime where
  year : ℕ
  month : ℕ
  day : ℕ
  hour : ℕ
  minute : ℕ
  second : ℕ
  microsecond : ℕ

/-- SRCLINE: scripts/mock_exchange.py:38-39 -/
def nowTs (t : UtcTime) : Text :=
  let text := padded 4 t.year ++ padded 2 t.month ++ padded 2 t.day ++ ['-'] ++ padded 2 t.hour ++ [':'] ++
    padded 2 t.minute ++ [':'] ++ padded 2 t.second ++ ['.'] ++ padded 6 t.microsecond
  text.take (text.length - 3)

/-- SRCLINE: scripts/mock_exchange.py:42-43 -/
def checksum (s : Text) : Option Text :=
  (encodeLatin1 s).map fun bytes => padded 3 ((bytes.map UInt8.toNat).sum % 256)

/-- `f"{t}={v}{SOH}"`. -/
def field (t v : Text) : Text := t ++ '=' :: v ++ [soh]

/-- The body of a message, from its type on.
SRCLINE: scripts/mock_exchange.py:48-50 -/
def bodyOf (msgType : Text) (seq : ℤ) (sender target : Text) (bodyFields : List (Text × Text)) (now : UtcTime) :
    Text :=
  field "35".toList msgType ++ field "34".toList (decimal seq) ++ field "49".toList sender ++
    field "52".toList (nowTs now) ++ field "56".toList target ++ bodyFields.flatMap fun (t, v) => field t v

/-- SRCLINE: scripts/mock_exchange.py:51 -/
def headOf (body : Text) : Text :=
  field "8".toList "FIXT.1.1".toList ++ field "9".toList (decimal body.length)

/-- SRCLINE: scripts/mock_exchange.py:46-53 -/
def build (msgType : Text) (seq : ℤ) (sender target : Text) (bodyFields : List (Text × Text)) (now : UtcTime) :
    Option (List UInt8) :=
  let body := bodyOf msgType seq sender target bodyFields now
  let full := headOf body ++ body
  (checksum full).bind fun sum => encodeLatin1 (full ++ field "10".toList sum)

/-- A value of the dictionary. -/
inductive Entry where
  | text (v : Text)
  | texts (vs : List Text)
  deriving DecidableEq

/-- What `parse` returns. -/
abbrev Parsed : Type := Text → Option Entry

/-- `d.setdefault(k, v)`. -/
def setDefault (d : Parsed) (k v : Text) : Parsed :=
  if (d k).isSome then d else Function.update d k (some (.text v))

/-- One turn of the loop of `parse`.
SRCLINE: scripts/mock_exchange.py:58-64 -/
def parseField (x : Parsed × List Text) (kv : Text) : Parsed × List Text :=
  if '=' ∈ kv then
    let k := kv.takeWhile (· != '=')
    let v := (kv.dropWhile (· != '=')).drop 1
    (setDefault x.1 k v, if k = "55".toList then x.2 ++ [v] else x.2)
  else x

/-- SRCLINE: scripts/mock_exchange.py:56-66 -/
def parse (raw : Text) : Parsed :=
  let (d, groups55) := (raw.splitOn soh).foldl parseField (fun _ => none, [])
  Function.update d "_symbols".toList (some (.texts groups55))

/-- `m.get(k)` of a key that holds a text. -/
def Parsed.get (m : Parsed) (k : Text) : Option Text :=
  match m k with
  | some (.text v) => some v
  | _ => none

/-- `m["_symbols"]`. -/
def Parsed.symbols (m : Parsed) : List Text :=
  match m "_symbols".toList with
  | some (.texts vs) => vs
  | _ => []

/-- `buf.find(sub, start)`. -/
def find (buf sub : Text) (start : ℕ) : Option ℕ := (findSub sub (buf.drop start)).map (· + start)

/-- The first message of the buffer and what follows it.
SRCLINE: scripts/mock_exchange.py:147-153 -/
def nextMessage (buf : Text) : Option (Text × Text) :=
  (find buf (soh :: "10=".toList) 0).bind fun tag =>
    (find buf [soh] (tag + 1)).map fun stop => (buf.take (stop + 1), buf.drop (stop + 1))

end MmEngine.Model.Mock
