import SlotCluster.Reply.Decoder

/-!
# Reading replies

From input that comes in chunks, or from a whole byte string.

A reader takes its input in blocks. Where a block ends can be seen: a type byte that cannot stand
there is dropped if nothing has been received behind it.
-/

namespace SlotCluster

/-! ## Received bytes -/

/-- A block of memory in which received bytes wait to be decoded. -/
structure ReceiveBuffer where
  /-- The bytes that wait. -/
  held : Bytes
  /-- How much of the block lies before them. It was used and can be used again. -/
  used : Nat
  /-- How much of the block is free behind them. -/
  room : Nat

namespace ReceiveBuffer

def empty : ReceiveBuffer := ⟨[], 0, 0⟩

/-- The room that is made at least. -/
def unit : Nat := 8192

/-- Makes room in a full block. If enough of it was used, the bytes that wait move to its front.
Otherwise the block becomes twice as long. -/
def makeRoom (b : ReceiveBuffer) : ReceiveBuffer :=
  if b.room = 0 then
    if unit ≤ b.used ∧ b.held.length ≤ b.used then { b with used := 0, room := b.used }
    else { b with room := max unit (b.used + b.held.length) }
  else b

theorem makeRoom_room_pos (b : ReceiveBuffer) : 0 < b.makeRoom.room := by
  unfold makeRoom unit
  split
  · split
    · simp only
      omega
    · simp only
      omega
  · omega

/-- Takes from a chunk what there is room for, and leaves the rest of the chunk. -/
def receive (b : ReceiveBuffer) (chunk : Bytes) : ReceiveBuffer × Bytes :=
  let b := b.makeRoom
  let taken := chunk.take b.room
  ({ b with held := b.held ++ taken, room := b.room - taken.length }, chunk.drop b.room)

theorem receive_rest_length (b : ReceiveBuffer) {chunk : Bytes} (h : chunk ≠ []) :
    (b.receive chunk).2.length < chunk.length := by
  have hroom := b.makeRoom_room_pos
  have hlen := List.length_pos_iff.2 h
  simp only [receive, List.length_drop]
  omega

/-- Only the end `rest` of the bytes still waits. -/
def keep (b : ReceiveBuffer) (rest : Bytes) : ReceiveBuffer :=
  { b with held := rest, used := b.used + (b.held.length - rest.length) }

end ReceiveBuffer

/-! ## Input in chunks -/

/-- A decoder, the bytes that it has not used yet, and the chunks to come. -/
structure ReplyReader where
  decoder : Decoder
  buffer : ReceiveBuffer
  chunks : List Bytes

namespace ReplyReader

def ofChunks (chunks : List Bytes) : ReplyReader := ⟨.start, .empty, chunks⟩

/-- Counts every byte to come, and every chunk. -/
def pending (r : ReplyReader) : Nat := r.chunks.flatten.length + r.chunks.length

/-- Puts what is left of a chunk back. -/
def putBack (left : Bytes) (chunks : List Bytes) : List Bytes :=
  if left.isEmpty then chunks else left :: chunks

theorem pending_putBack_lt (d d' : Decoder) (b b' b'' : ReceiveBuffer) (chunk : Bytes)
    (chunks : List Bytes) :
    pending ⟨d, b, putBack (b''.receive chunk).2 chunks⟩ < pending ⟨d', b', chunk :: chunks⟩ := by
  by_cases h : chunk = []
  · subst h
    simp [pending, putBack, ReceiveBuffer.receive]
  · have hlt := b''.receive_rest_length h
    simp only [pending, putBack]
    split
    · simp only [List.flatten_cons, List.length_append, List.length_cons]
      omega
    · simp only [List.flatten_cons, List.length_append, List.length_cons]
      omega

/-- Reads until a reply is complete, one block at a time. -/
def read (r : ReplyReader) : Except Fault Reply × ReplyReader :=
  match r.decoder.next true r.buffer.held with
  | .reply reply rest => (.ok reply, ⟨.start, r.buffer.keep rest, r.chunks⟩)
  | .failed f => (.error f, r)
  | .waiting d rest =>
    match _h : r.chunks with
    | [] => (.error (.io .unexpectedEof none), ⟨d, r.buffer.keep rest, []⟩)
    | chunk :: chunks =>
      let received := (r.buffer.keep rest).receive chunk
      read ⟨d, received.1, putBack received.2 chunks⟩
termination_by r.pending
decreasing_by
  obtain ⟨d', b', all⟩ := r
  simp only at _h
  subst _h
  exact pending_putBack_lt _ _ _ _ _ _ _

/-- Up to `n` replies, and none after a fault. -/
def readMany : Nat → ReplyReader → List (Except Fault Reply)
  | 0, _ => []
  | n + 1, r =>
    match r.read with
    | (.ok reply, r') => .ok reply :: readMany n r'
    | (.error f, _) => [.error f]

end ReplyReader

/-! ## Whole byte strings -/

namespace Reply

/-- The first reply of the bytes. What follows it is not looked at. -/
def parse (data : Bytes) : Except Fault Reply := (ReplyReader.ofChunks [data]).read.1

/-- All replies of the bytes, which have to end with the last of them. -/
def parseAll (data : Bytes) : Except Fault (List Reply) :=
  match Decoder.start.finish data with
  | (replies, none) => .ok replies
  | (_, some f) => .error f

end Reply

/-! ## Decoding each chunk as it comes -/

namespace Decoder

/-- The replies of each chunk, in order, and what ended the last list if it was a fault. With
`atEnd` the end of the input is one more step. -/
def feed (atEnd : Bool) (d : Decoder) (buffer : Bytes) :
    List Bytes → List (List (Except Fault Reply))
  | [] =>
    if atEnd then
      match d.finish buffer with
      | (replies, none) => [replies.map .ok]
      | (replies, some f) => [replies.map .ok ++ [.error f]]
    else []
  | chunk :: chunks =>
    match d.drain (buffer ++ chunk) with
    | (replies, .waiting d' rest) => replies.map .ok :: feed atEnd d' rest chunks
    | (replies, .failed f) => [replies.map .ok ++ [.error f]]

end Decoder

end SlotCluster
