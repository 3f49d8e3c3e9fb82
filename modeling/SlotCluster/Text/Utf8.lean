import SlotCluster.Text.Bytes

/-!
# Reading bytes as text, whatever they are

`Bytes.lossy` reads UTF-8 and puts U+FFFD where the bytes are no UTF-8: one for each maximal
start of a character that is cut short, and one for each byte that starts no character.
-/

namespace SlotCluster.Utf8

/-- A character that has begun: how many bytes it still needs, the range of the next one, and
the bits collected so far. -/
structure Open where
  needed : Nat
  low : UInt8
  high : UInt8
  bits : Nat
  deriving DecidableEq, Repr

def replacement : Char := '\uFFFD'

/-- What one byte means between characters: a character of its own, the start of a longer one,
or nothing. The second byte of a longer one has a narrower range after E0, ED, F0 and F4, which
rules out overlong forms, surrogates and values above U+10FFFF. -/
def begin (b : UInt8) : List Char × Option Open :=
  let n := b.toNat
  if n < 0x80 then ([Char.ofNat n], none)
  else if n < 0xC2 then ([replacement], none)
  else if n < 0xE0 then ([], some ⟨1, 0x80, 0xBF, n - 0xC0⟩)
  else if n = 0xE0 then ([], some ⟨2, 0xA0, 0xBF, 0⟩)
  else if n = 0xED then ([], some ⟨2, 0x80, 0x9F, 0xD⟩)
  else if n < 0xF0 then ([], some ⟨2, 0x80, 0xBF, n - 0xE0⟩)
  else if n = 0xF0 then ([], some ⟨3, 0x90, 0xBF, 0⟩)
  else if n < 0xF4 then ([], some ⟨3, 0x80, 0xBF, n - 0xF0⟩)
  else if n = 0xF4 then ([], some ⟨3, 0x80, 0x8F, 4⟩)
  else ([replacement], none)

/-- A byte inside a character: the character, or how it goes on. `none` if the byte is not one
that may follow. -/
def Open.next (o : Open) (b : UInt8) : Option (Char ⊕ Open) :=
  if o.low ≤ b ∧ b ≤ o.high then
    let bits := o.bits * 64 + (b.toNat - 0x80)
    if o.needed ≤ 1 then some (.inl (Char.ofNat bits))
    else some (.inr ⟨o.needed - 1, 0x80, 0xBF, bits⟩)
  else none

def readFrom : Option Open → Bytes → List Char
  | none, [] => []
  | some _, [] => [replacement]
  | none, b :: rest =>
    let (out, state) := begin b
    out ++ readFrom state rest
  | some o, b :: rest =>
    match o.next b with
    | some (.inl c) => c :: readFrom none rest
    | some (.inr o') => readFrom (some o') rest
    | none =>
      let (out, state) := begin b
      replacement :: out ++ readFrom state rest

end SlotCluster.Utf8

namespace SlotCluster.Bytes

def lossy (b : Bytes) : String := String.ofList (Utf8.readFrom none b)

end SlotCluster.Bytes
