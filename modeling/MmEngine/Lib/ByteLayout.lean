import Mathlib.Data.Nat.Digits.Defs
import Mathlib.Data.Int.Basic
import Mathlib.Algebra.BigOperators.Group.List.Basic

/-!
# Records as bytes

Little-endian numbers, the placement of the members of a C record at their natural alignment,
and the reading of a byte string by a format of standard sizes.  A record whose members need no
padding is the concatenation of its members (`structBytes_of_packed`), and a format that has one
character for each piece of a concatenation reads the pieces back (`unpackFrom_pieces`).
-/

set_option autoImplicit false

namespace MmEngine.Lib

/-! ## Little-endian numbers -/

/-- The lowest `w` bytes of a number, least significant first. -/
def leBytes : ℕ → ℕ → List UInt8
  | 0, _ => []
  | w + 1, n => UInt8.ofNat n :: leBytes w (n / 256)

/-- The number with the given bytes, least significant first. -/
def leValue (bs : List UInt8) : ℕ := Nat.ofDigits 256 (bs.map UInt8.toNat)

@[simp] theorem length_leBytes (w n : ℕ) : (leBytes w n).length = w := by
  induction w generalizing n with
  | zero => rfl
  | succ w ih => rw [leBytes, List.length_cons, ih]

theorem leValue_cons (b : UInt8) (bs : List UInt8) :
    leValue (b :: bs) = b.toNat + 256 * leValue bs := by
  unfold leValue
  rw [List.map_cons, Nat.ofDigits_cons]

/-- The bytes of a number that fits name it. -/
theorem leValue_leBytes {w n : ℕ} (h : n < 256 ^ w) : leValue (leBytes w n) = n := by
  induction w generalizing n with
  | zero =>
    rw [pow_zero] at h
    obtain rfl : n = 0 := by omega
    rfl
  | succ w ih =>
    rw [pow_succ] at h
    rw [leBytes, leValue_cons, ih (Nat.div_lt_of_lt_mul (by omega)), UInt8.toNat_ofNat']
    omega

/-! ## C records -/

/-- A member of a record: its alignment and its bytes. -/
structure Member where
  align : ℕ
  bytes : List UInt8

/-- The padding before a member that is to start at a multiple of its alignment. -/
def gapAt (off align : ℕ) : ℕ := (align - off % align) % align

/-- The members from an offset on, each at its alignment; `fill` is what the padding bytes
happen to hold. -/
def placeFrom (fill : ℕ → UInt8) : ℕ → List Member → List UInt8
  | _, [] => []
  | off, m :: ms =>
    (List.range (gapAt off m.align)).map (fun i => fill (off + i)) ++ m.bytes ++
      placeFrom fill (off + gapAt off m.align + m.bytes.length) ms

/-- The alignment of a record is the largest of its members'. -/
def recordAlign (ms : List Member) : ℕ := ms.foldr (fun m a => max m.align a) 1

/-- The bytes of a record, with the padding at its end. -/
def structBytes (fill : ℕ → UInt8) (ms : List Member) : List UInt8 :=
  let body := placeFrom fill 0 ms
  body ++ (List.range (gapAt body.length (recordAlign ms))).map fun i => fill (body.length + i)

/-- No member needs padding before it. -/
def PackedFrom : ℕ → List Member → Prop
  | _, [] => True
  | off, m :: ms => gapAt off m.align = 0 ∧ PackedFrom (off + m.bytes.length) ms

instance decidablePackedFrom : (off : ℕ) → (ms : List Member) → Decidable (PackedFrom off ms)
  | _, [] => isTrue trivial
  | off, m :: ms =>
    have := decidablePackedFrom (off + m.bytes.length) ms
    inferInstanceAs (Decidable (_ ∧ _))

theorem placeFrom_of_packed {fill : ℕ → UInt8} {ms : List Member} :
    ∀ {off : ℕ}, PackedFrom off ms → placeFrom fill off ms = ms.flatMap Member.bytes := by
  induction ms with
  | nil => intro off _; rfl
  | cons m ms ih =>
    rintro off ⟨hgap, hrest⟩
    rw [placeFrom, hgap, List.range_zero, List.map_nil, List.nil_append, Nat.add_zero, ih hrest,
      List.flatMap_cons]

/-- **A record without padding** is the concatenation of its members, whatever the padding
would hold. -/
theorem structBytes_of_packed {fill : ℕ → UInt8} {ms : List Member} (h : PackedFrom 0 ms)
    (hend : gapAt (ms.flatMap Member.bytes).length (recordAlign ms) = 0) :
    structBytes fill ms = ms.flatMap Member.bytes := by
  unfold structBytes
  rw [placeFrom_of_packed h]
  dsimp only
  rw [hend, List.range_zero, List.map_nil, List.append_nil]

/-! ## Formats -/

/-- The characters of a format of standard sizes: signed and unsigned numbers of 8, 4, 2 and 1
bytes, a `double`, and a byte string of a given length. -/
inductive FormatChar where
  | q
  | Q
  | I
  | H
  | B
  | d
  | s (n : ℕ)
  deriving DecidableEq

/-- What a format character reads. -/
inductive FormatValue where
  | int (n : ℤ)
  | float (bits : ℕ)
  | bytes (bs : List UInt8)
  deriving DecidableEq

namespace FormatChar

/-- The bytes a format character takes. -/
def size : FormatChar → ℕ
  | .q | .Q | .d => 8
  | .I => 4
  | .H => 2
  | .B => 1
  | .s n => n

/-- The value of the bytes of a format character. -/
def read : FormatChar → List UInt8 → FormatValue
  | .q, bs => .int (Int.bmod (leValue bs) (2 ^ 64))
  | .Q, bs | .I, bs | .H, bs | .B, bs => .int (leValue bs)
  | .d, bs => .float (leValue bs)
  | .s _, bs => .bytes bs

end FormatChar

/-- The bytes a format takes. -/
def calcsize (fmt : List FormatChar) : ℕ := (fmt.map FormatChar.size).sum

/-- The values of a format, character by character. -/
def readAll : List FormatChar → List UInt8 → List FormatValue
  | [], _ => []
  | c :: cs, bs => c.read (bs.take c.size) :: readAll cs (bs.drop c.size)

/-- The values at the start of a byte string; a string that is too short is refused. -/
def unpackFrom (fmt : List FormatChar) (bs : List UInt8) : Option (List FormatValue) :=
  if calcsize fmt ≤ bs.length then some (readAll fmt bs) else none

/-- A format character, the bytes it stands for and their value. -/
structure Piece where
  char : FormatChar
  bytes : List UInt8
  value : FormatValue
  length_eq : bytes.length = char.size
  read_eq : char.read bytes = value

theorem length_pieces (ps : List Piece) :
    (ps.flatMap Piece.bytes).length = calcsize (ps.map Piece.char) := by
  unfold calcsize
  induction ps with
  | nil => rfl
  | cons p ps ih =>
    rw [List.flatMap_cons, List.length_append, ih, p.length_eq, List.map_cons, List.map_cons,
      List.sum_cons]

theorem readAll_pieces (ps : List Piece) (rest : List UInt8) :
    readAll (ps.map Piece.char) (ps.flatMap Piece.bytes ++ rest) = ps.map Piece.value := by
  induction ps with
  | nil => rfl
  | cons p ps ih =>
    rw [List.map_cons, List.flatMap_cons, List.append_assoc, readAll, ← p.length_eq,
      List.take_left, List.drop_left, p.read_eq, ih, List.map_cons]

/-- **Reading a concatenation back**, piece by piece. -/
theorem unpackFrom_pieces (ps : List Piece) :
    unpackFrom (ps.map Piece.char) (ps.flatMap Piece.bytes) = some (ps.map Piece.value) := by
  have hread := readAll_pieces ps []
  rw [List.append_nil] at hread
  unfold unpackFrom
  rw [if_pos (length_pieces ps).ge, hread]

end MmEngine.Lib
