import SlotCluster.Text.Bytes

/-!
# Decimal numbers

Numbers travel as ASCII digits. A reader takes an optional plus sign (and a minus sign where
the number may be negative), then at least one digit, and refuses a value out of range.
Blanks are not skipped.
-/

namespace SlotCluster.Decimal

/-! ## Writing -/

/-- The digit byte of a number below ten. -/
def digitByte (d : Nat) : UInt8 := UInt8.ofNat (48 + d)

/-- The shortest decimal form. -/
def digits (n : Nat) : Bytes :=
  if n < 10 then [digitByte n] else digits (n / 10) ++ [digitByte (n % 10)]

def ofInt (i : Int) : Bytes :=
  if i < 0 then 45 :: digits i.natAbs else digits i.natAbs

/-! ## Reading -/

/-- Why a text is no number in range. -/
inductive ReadError
  | empty
  | invalidDigit
  | overflow
  deriving DecidableEq, Repr

def digit? (b : UInt8) : Option Nat :=
  if 48 ≤ b ∧ b ≤ 57 then some (b.toNat - 48) else none

/-- Reads digits onto `acc` from the left. The first thing that goes wrong is reported: a byte
that is no digit, or a value above `max`. -/
def readDigits (max : Nat) : Nat → Bytes → Except ReadError Nat
  | acc, [] => .ok acc
  | acc, b :: rest =>
    match digit? b with
    | none => .error .invalidDigit
    | some d => if max < 10 * acc + d then .error .overflow else readDigits max (10 * acc + d) rest

/-- A sign needs a digit after it. -/
def readUnsigned (max : Nat) (s : Bytes) : Except ReadError Nat :=
  if s.isEmpty then .error .empty
  else if s = [43] then .error .invalidDigit
  else if s.head? = some 43 then readDigits max 0 s.tail
  else readDigits max 0 s

/-- Numbers from `-(max + 1)` to `max`. -/
def readSigned (max : Nat) (s : Bytes) : Except ReadError Int :=
  if s = [45] then .error .invalidDigit
  else if s.head? = some 45 then (readDigits (max + 1) 0 s.tail).map fun n => -(n : Int)
  else (readUnsigned max s).map Int.ofNat

def readUInt16? (s : Bytes) : Option UInt16 :=
  (readUnsigned 65535 s).toOption.map UInt16.ofNat

def readInt64? (s : Bytes) : Option Int64 :=
  (readSigned 9223372036854775807 s).toOption.map Int64.ofInt

/-- A count of things, below `2 ^ 64`. -/
def readCount? (s : Bytes) : Option Nat :=
  (readUnsigned 18446744073709551615 s).toOption

end SlotCluster.Decimal
