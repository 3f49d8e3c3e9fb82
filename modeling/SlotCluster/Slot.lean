import SlotCluster.Text.Bytes

/-!
# Hash slots

The key space is cut into 16384 slots. The slot of a key is a 16-bit checksum of the key, or of
its hash tag if it has one, so that a caller can force keys into one slot.
-/

namespace SlotCluster.Slot

/-- Number of hash slots. -/
def count : UInt16 := 16384

/-! ## Checksum -/

/-- The polynomial x^16 + x^12 + x^5 + 1, without its leading term. -/
def polynomial : UInt16 := 0x1021

/-- Shifts one bit out at the top, and subtracts the polynomial if the bit was set. -/
def shiftBit (crc : UInt16) : UInt16 :=
  if crc &&& 0x8000 = 0 then crc <<< 1 else (crc <<< 1) ^^^ polynomial

/-- One byte, its most significant bit first. -/
def addByte (crc : UInt16) (b : UInt8) : UInt16 :=
  Nat.repeat shiftBit 8 (crc ^^^ (b.toUInt16 <<< 8))

def checksum (b : Bytes) : UInt16 := b.foldl addByte 0

/-! ## Hash tags -/

/-- What stands between the first opening brace and the closing brace after it. An empty tag
counts as none. -/
def hashTag? (key : Bytes) : Option Bytes := do
  let (_, rest) ← key.cutAt 123
  let (tag, _) ← rest.cutAt 125
  if tag.isEmpty then none else some tag

/-- The part of a key that decides its slot. -/
def effectiveKey (key : Bytes) : Bytes := (hashTag? key).getD key

def ofKey (key : Bytes) : UInt16 := checksum (effectiveKey key) % count

end SlotCluster.Slot
