import SlotCluster.Reply

/-!
# Decoding replies

A reply starts with a type byte. After it comes a line, ended by CRLF, and after the line of a
bulk string its body and another CRLF; an array goes on with its elements. A decoder takes these
pieces off the front of a buffer, each as soon as it is there, and waits when one is not.

Arrays may stand inside arrays to a depth of 100.
-/

namespace SlotCluster

/-! ## State -/

/-- An array that is being read. -/
structure OpenArray where
  /-- Elements still to come, the one being read included. -/
  missing : Nat
  /-- Elements read so far, last first. -/
  items : List Reply

/-- The type bytes. -/
inductive Marker
  | simple
  | int
  | bulk
  | array
  | error
  deriving DecidableEq, Repr

/-- The piece that has to come next. -/
inductive Expected
  | marker
  | line (m : Marker)
  | body (size : Nat)
  /-- The CRLF after the body of a bulk string. -/
  | bodyEnd (body : Bytes)

structure Decoder where
  /-- The arrays around the piece, innermost first. -/
  arrays : List OpenArray
  expected : Expected

namespace Decoder

def start : Decoder := ⟨[], .marker⟩

def maxDepth : Nat := 100

def Marker.ofByte? (b : UInt8) : Option Marker :=
  if b = 43 then some .simple
  else if b = 58 then some .int
  else if b = 36 then some .bulk
  else if b = 42 then some .array
  else if b = 45 then some .error
  else none

/-! ## One piece -/

/-- The bytes of a line and what follows its CRLF. A single CR belongs to the line. -/
def cutLine : Bytes → Option (Bytes × Bytes)
  | [] => none
  | 13 :: 10 :: rest => some ([], rest)
  | b :: rest => (cutLine rest).map fun (line, back) => (b :: line, back)

/-- A number in a line may have blanks around it. -/
def readNumber? (line : String) : Option Int64 :=
  Decimal.readInt64? (Bytes.ofText (String.ofList (Blank.trim line.toList)))

/-- A finished reply closes the arrays that it completes. Either a whole reply results, or an
array that still waits. -/
def close (r : Reply) : List OpenArray → Reply ⊕ Decoder
  | [] => .inl r
  | a :: outer =>
    if a.missing ≤ 1 then close (.array (a.items.reverse ++ [r])) outer
    else .inr ⟨⟨a.missing - 1, r :: a.items⟩ :: outer, .marker⟩

/-- What a complete line leads to. -/
def afterLine (arrays : List OpenArray) (m : Marker) (line : Bytes) :
    Except Fault (Reply ⊕ Decoder) :=
  match line.text? with
  | none => .error .malformedReply
  | some text =>
    match m with
    | .simple => .ok (close (if text = "OK" then .okay else .simple text) arrays)
    | .error => .ok (close (.error (.ofLine text)) arrays)
    | .int =>
      match readNumber? text with
      | none => .error .malformedReply
      | some n => .ok (close (.int n) arrays)
    | .bulk =>
      match readNumber? text with
      | none => .error .malformedReply
      | some n =>
        if n < 0 then .ok (close .nil arrays)
        else .ok (.inr ⟨arrays, .body n.toInt.toNat⟩)
    | .array =>
      match readNumber? text with
      | none => .error .malformedReply
      | some n =>
        if n < 0 then .ok (close .nil arrays)
        else if n = 0 then .ok (close (.array []) arrays)
        else .ok (.inr ⟨⟨n.toInt.toNat, []⟩ :: arrays, .marker⟩)

/-- What one look at the buffer gives. -/
inductive Step
  /-- The piece is not there yet. -/
  | wait (d : Decoder) (rest : Bytes)
  | goOn (d : Decoder) (rest : Bytes)
  | done (r : Reply) (rest : Bytes)
  | fail (f : Fault)

def Step.ofOutcome (rest : Bytes) : Reply ⊕ Decoder → Step
  | .inl r => .done r rest
  | .inr d => .goOn d rest

/-- Takes the next piece off the buffer. A type byte that cannot stand here is dropped if it is
the last byte of the buffer and more may come (`more`), and refused otherwise. -/
def step (more : Bool) (d : Decoder) (buffer : Bytes) : Step :=
  match d.expected, buffer with
  | .marker, [] => .wait d []
  | .marker, b :: rest =>
    match Marker.ofByte? b with
    | some m =>
      if m = .array ∧ maxDepth ≤ d.arrays.length then
        if more ∧ rest.isEmpty then .wait d rest else .fail .malformedReply
      else .goOn ⟨d.arrays, .line m⟩ rest
    | none => if more ∧ rest.isEmpty then .wait d rest else .fail .malformedReply
  | .line m, buffer =>
    match cutLine buffer with
    | none => .wait d buffer
    | some (line, rest) =>
      match afterLine d.arrays m line with
      | .error f => .fail f
      | .ok outcome => .ofOutcome rest outcome
  | .body size, buffer =>
    if buffer.length < size then .wait d buffer
    else .goOn ⟨d.arrays, .bodyEnd (buffer.take size)⟩ (buffer.drop size)
  | .bodyEnd _, [] => .wait d []
  | .bodyEnd _, [13] => .wait d [13]
  | .bodyEnd body, 13 :: 10 :: rest => .ofOutcome rest (close (.bulk body) d.arrays)
  | .bodyEnd _, _ => .fail .malformedReply

/-! ## Whole replies -/

/-- The most pieces that the buffer can still give: a body of no bytes is a piece, too. -/
def measure (d : Decoder) (buffer : Bytes) : Nat :=
  2 * buffer.length + (match d.expected with | .body _ => 1 | _ => 0)

theorem cutLine_length {buffer line rest : Bytes} (h : cutLine buffer = some (line, rest)) :
    rest.length < buffer.length := by
  fun_induction cutLine buffer generalizing line with
  | case1 => simp at h
  | case2 =>
    simp at h
    obtain ⟨_, rfl⟩ := h
    simp only [List.length_cons]
    omega
  | case3 b tail hne ih =>
    obtain ⟨⟨front, back⟩, hcut, he⟩ := Option.map_eq_some_iff.1 h
    simp at he
    obtain ⟨_, rfl⟩ := he
    have := ih hcut
    simp only [List.length_cons]
    omega

theorem measure_le (d : Decoder) (buffer : Bytes) :
    measure d buffer ≤ 2 * buffer.length + 1 := by
  unfold measure; split <;> omega

/-- Every piece brings the decoder nearer to the end of the buffer. -/
theorem measure_step {more : Bool} {d d' : Decoder} {buffer rest : Bytes}
    (h : step more d buffer = .goOn d' rest) : measure d' rest < measure d buffer := by
  have hout : ∀ {r : Bytes} {o : Reply ⊕ Decoder}, Step.ofOutcome r o = .goOn d' rest →
      rest = r := by
    intro r o ho
    cases o <;> simp [Step.ofOutcome] at ho
    exact ho.2.symm
  have hle := measure_le d' rest
  unfold step at h
  split at h
  · simp at h
  · split at h
    · split at h
      · split at h <;> simp at h
      · simp at h
        obtain ⟨rfl, rfl⟩ := h
        simp [measure, *]
    · split at h <;> simp at h
  · split at h
    · simp at h
    · rename_i hcut
      split at h
      · simp at h
      · have := hout h
        subst this
        have := cutLine_length hcut
        simp only [measure] at *
        omega
  · rename_i heq
    split at h
    · simp at h
    · simp at h
      obtain ⟨rfl, rfl⟩ := h
      simp only [measure, heq, List.length_drop]
      omega
  · simp at h
  · simp at h
  · have := hout h
    subst this
    simp only [measure, List.length_cons] at *
    omega
  · simp at h

/-- So does a finished reply, after which the decoder starts again. -/
theorem measure_done {more : Bool} {d : Decoder} {buffer rest : Bytes} {r : Reply}
    (h : step more d buffer = .done r rest) : measure start rest < measure d buffer := by
  have hout : ∀ {b : Bytes} {o : Reply ⊕ Decoder}, Step.ofOutcome b o = .done r rest →
      rest = b := by
    intro b o ho
    cases o <;> simp [Step.ofOutcome] at ho
    exact ho.2.symm
  unfold step at h
  split at h
  · simp at h
  · split at h
    · split at h
      · split at h <;> simp at h
      · simp at h
    · split at h <;> simp at h
  · split at h
    · simp at h
    · rename_i hcut
      split at h
      · simp at h
      · have := hout h
        subst this
        have := cutLine_length hcut
        simp only [measure, start] at *
        omega
  · split at h <;> simp at h
  · simp at h
  · simp at h
  · have := hout h
    subst this
    simp only [measure, start, List.length_cons] at *
    omega
  · simp at h

/-- What a buffer gives: a reply and the rest, or a decoder that waits, or a fault. -/
inductive Outcome
  | reply (r : Reply) (rest : Bytes)
  | waiting (d : Decoder) (rest : Bytes)
  | failed (f : Fault)

/-- Takes pieces off the buffer up to the end of one reply. -/
def next (more : Bool) (d : Decoder) (buffer : Bytes) : Outcome :=
  match _h : step more d buffer with
  | .wait d' rest => .waiting d' rest
  | .goOn d' rest => next more d' rest
  | .done r rest => .reply r rest
  | .fail f => .failed f
termination_by measure d buffer
decreasing_by exact measure_step _h

/-- Where decoding a whole buffer stops. -/
inductive Stop
  | waiting (d : Decoder) (rest : Bytes)
  | failed (f : Fault)

/-- Every reply in the buffer, while more may come. -/
def drain (d : Decoder) (buffer : Bytes) : List Reply × Stop :=
  match _h : step true d buffer with
  | .wait d' rest => ([], .waiting d' rest)
  | .goOn d' rest => drain d' rest
  | .done r rest =>
    let (replies, stop) := drain start rest
    (r :: replies, stop)
  | .fail f => ([], .failed f)
termination_by measure d buffer
decreasing_by
  · exact measure_step _h
  · exact measure_done _h

/-- Every reply in a buffer that is not empty and to which nothing will be added. Bytes left over
that make no reply are a fault. -/
def finishBuffer (d : Decoder) (buffer : Bytes) : List Reply × Option Fault :=
  match _h : step false d buffer with
  | .wait _ _ => ([], some .malformedReply)
  | .goOn d' rest => finishBuffer d' rest
  | .done r [] => ([r], none)
  | .done r (b :: rest) =>
    let (replies, fault) := finishBuffer start (b :: rest)
    (r :: replies, fault)
  | .fail f => ([], some f)
termination_by measure d buffer
decreasing_by
  · exact measure_step _h
  · exact measure_done _h

/-- The end of the input. With an empty buffer there is nothing left to say, even if a reply
has begun. -/
def finish (d : Decoder) (buffer : Bytes) : List Reply × Option Fault :=
  if buffer.isEmpty then ([], none) else finishBuffer d buffer

end Decoder

end SlotCluster
