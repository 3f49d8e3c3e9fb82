/-!
# Bytes

Arguments, keys and bulk replies are byte strings. They are lists here, so that every
operation on them is a list operation.
-/

namespace SlotCluster

abbrev Bytes := List UInt8

namespace Bytes

/-- The UTF-8 bytes of a text. The fixed words of the protocol are written this way too. -/
def ofText (s : String) : Bytes := s.toUTF8.data.toList

/-- The text that the bytes spell in UTF-8, if they spell one. -/
def text? (b : Bytes) : Option String := String.fromUTF8? b.toByteArray

/-! ## Letter case -/

/-- Upper case of an ASCII letter. Every other byte stays as it is. -/
def upperByte (b : UInt8) : UInt8 := if 97 ≤ b ∧ b ≤ 122 then b - 32 else b

def upper (b : Bytes) : Bytes := b.map upperByte

/-- Equal up to the case of ASCII letters. -/
def sameWord (a b : Bytes) : Bool := a.upper == b.upper

/-! ## Search -/

/-- `word` occurs somewhere in the bytes. Nothing occurs in the empty byte string. -/
def holds (word : Bytes) : Bytes → Bool
  | [] => false
  | b :: rest => word.isPrefixOf (b :: rest) || holds word rest

/-- The bytes before and after the first `sep`, if there is one. -/
def cutAt (sep : UInt8) : Bytes → Option (Bytes × Bytes)
  | [] => none
  | b :: rest =>
    if b = sep then some ([], rest)
    else (cutAt sep rest).map fun (front, back) => (b :: front, back)

end Bytes

end SlotCluster
