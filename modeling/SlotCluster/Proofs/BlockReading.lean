import SlotCluster.Proofs.Pieces

/-!
# Reading in blocks

A reader takes its input in blocks, and looks at a block only when it needs one. It gives what a
decoder gives on the bytes that it has before it, wherever the blocks end, unless a block ends with
a type byte that cannot stand there.
-/

namespace SlotCluster

namespace Decoder

/-! ## One reply -/

theorem next_eq (more : Bool) (d : Decoder) (buffer : Bytes) :
    next more d buffer =
      match step more d buffer with
      | .wait d' rest => .waiting d' rest
      | .goOn d' rest => next more d' rest
      | .done r rest => .reply r rest
      | .fail f => .failed f := by
  conv => lhs; rw [next]
  split
  · next h => rw [h]
  · next h => rw [h]
  · next h => rw [h]
  · next h => rw [h]

theorem next_of_wait {more : Bool} {d d' : Decoder} {buffer rest : Bytes}
    (h : step more d buffer = .wait d' rest) : next more d buffer = .waiting d' rest := by
  rw [next_eq, h]

theorem next_of_goOn {more : Bool} {d d' : Decoder} {buffer rest : Bytes}
    (h : step more d buffer = .goOn d' rest) : next more d buffer = next more d' rest := by
  rw [next_eq, h]

theorem next_of_done {more : Bool} {d : Decoder} {buffer rest : Bytes} {r : Reply}
    (h : step more d buffer = .done r rest) : next more d buffer = .reply r rest := by
  rw [next_eq, h]

theorem next_of_fail {more : Bool} {d : Decoder} {buffer : Bytes} {f : Fault}
    (h : step more d buffer = .fail f) : next more d buffer = .failed f := by
  rw [next_eq, h]

theorem Reads.next_silent {d d' : Decoder} {bytes : Bytes} (h : Reads d bytes [] d')
    (more : Bool) (rest : Bytes) : next more d (bytes ++ rest) = next more d' rest := by
  generalize hnone : ([] : List Reply) = replies at h
  induction h with
  | nothing => rfl
  | @piece d d' front back o replies hpiece _ ih =>
    cases o with
    | inl r => cases hnone
    | inr d₁ =>
      rw [List.append_assoc, next_of_goOn (hpiece.taken _ _)]
      exact ih hnone

theorem Reads.next_reply {d d' : Decoder} {bytes : Bytes} {v : Reply} {later : List Reply}
    (h : Reads d bytes (v :: later) d') :
    ∃ back, Reads start back later d' ∧
      ∀ more rest, next more d (bytes ++ rest) = .reply v (back ++ rest) := by
  generalize hsome : v :: later = replies at h
  induction h with
  | nothing => cases hsome
  | @piece d d' front back o replies hpiece hback ih =>
    cases o with
    | inl r =>
      obtain ⟨rfl, rfl⟩ := List.cons.inj hsome
      refine ⟨back, hback, fun more rest => ?_⟩
      rw [List.append_assoc, next_of_done (hpiece.taken _ _)]
    | inr d₁ =>
      obtain ⟨back', hlater, hnext⟩ := ih hsome
      refine ⟨back', hlater, fun more rest => ?_⟩
      rw [List.append_assoc, next_of_goOn (hpiece.taken _ _)]
      exact hnext more rest

theorem Reads.next_one {d : Decoder} {bytes : Bytes} {v : Reply} (h : Reads d bytes [v] .start)
    (more : Bool) (rest : Bytes) : next more d (bytes ++ rest) = .reply v rest := by
  obtain ⟨back, hback, hnext⟩ := h.next_reply
  rw [hnext, hback.eq_nil_of_start, List.nil_append]

theorem Reads.next_part {part missing : Bytes} {v : Reply}
    (h : Reads .start (part ++ missing) [v] .start) (hmissing : missing ≠ []) :
    ∃ d rest, next true .start part = .waiting d rest := by
  obtain ⟨front, rest, early, d, late, rfl, hearly, hwait, hlate, hall⟩ := h.cut hmissing
  cases early with
  | nil => exact ⟨d, rest, by rw [hearly.next_silent, next_of_wait (hwait true)]⟩
  | cons v' early =>
    -- The reply would be complete before its end, and the end would give none.
    obtain ⟨-, hnil⟩ := List.cons.inj hall
    obtain ⟨rfl, rfl⟩ := List.append_eq_nil_iff.1 hnil.symm
    obtain ⟨back, hback, -⟩ := hearly.next_reply
    have hnone := (hback.trans hlate).eq_nil_of_start
    simp [hmissing] at hnone

/-- Silent bytes without their end. The decoder waits, and reads the end when it comes. -/
theorem Reads.next_cut {d d' : Decoder} {part missing : Bytes}
    (h : Reads d (part ++ missing) [] d') (hend : step true d' [] = .wait d' []) :
    ∃ d₁ rest, next true d part = .waiting d₁ rest ∧ Reads d₁ (rest ++ missing) [] d' := by
  by_cases hmissing : missing = []
  · subst hmissing
    rw [List.append_nil] at h
    refine ⟨d', [], ?_, .nothing d'⟩
    rw [← List.append_nil part, h.next_silent, next_of_wait hend]
  · obtain ⟨front, rest, early, d₁, late, rfl, hearly, hwait, hlate, hnone⟩ := h.cut hmissing
    obtain ⟨rfl, rfl⟩ := List.append_eq_nil_iff.1 hnone.symm
    exact ⟨d₁, rest, by rw [hearly.next_silent, next_of_wait (hwait true)], hlate⟩

/-! ## Buffers that go on -/

/-- The last of the bytes is a type byte that cannot stand there. -/
def EndsRefused (d : Decoder) (bytes : Bytes) : Prop :=
  ∃ front b replies d', bytes = front ++ [b] ∧ Reads d front replies d' ∧ d'.Refuses b

/-- What a buffer means for the reply that comes next, whatever comes behind the buffer. -/
inductive Look (d : Decoder) (held : Bytes) : Prop
  | reply (v : Reply) (rest : Bytes)
      (h : ∀ after, next true d (held ++ after) = .reply v (rest ++ after))
  | failed (f : Fault) (h : ∀ after, next true d (held ++ after) = .failed f)
  | waiting (d' : Decoder) (rest : Bytes) (hnow : next true d held = .waiting d' rest)
      (h : ∀ after, next true d (held ++ after) = next true d' (rest ++ after))
  /-- The last byte is dropped, and would be refused if more stood behind it. -/
  | dropped (front : Bytes) (b : UInt8) (d' : Decoder) (hheld : held = front ++ [b])
      (hreads : Reads d front [] d') (hb : d'.Refuses b)

theorem look (d : Decoder) (held : Bytes) : Look d held := by
  obtain ⟨front, rest, replies, d', rfl, hreads, hstuck⟩ := reads_until_stuck d held
  cases replies with
  | cons v later =>
    obtain ⟨back, -, hnext⟩ := hreads.next_reply
    exact .reply v (back ++ rest) fun after => by
      rw [List.append_assoc, hnext, List.append_assoc]
  | nil =>
    rcases hstuck.while_more with hwait | hfail | ⟨b, rfl, hb⟩
    · exact .waiting d' rest (by rw [hreads.next_silent, next_of_wait hwait])
        fun after => by rw [List.append_assoc, hreads.next_silent]
    · exact .failed .malformedReply fun after => by
        rw [List.append_assoc, hreads.next_silent, next_of_fail (hfail after)]
    · exact .dropped front b d' rfl hreads hb

theorem next_dropped {d d' : Decoder} {front : Bytes} {b : UInt8} (hreads : Reads d front [] d')
    (hb : d'.Refuses b) : next true d (front ++ [b]) = .waiting d' [] := by
  rw [hreads.next_silent]
  exact next_of_wait (by simp [step_refused hb])

theorem next_refused {d d' : Decoder} {front after : Bytes} {b : UInt8}
    (hreads : Reads d front [] d') (hb : d'.Refuses b) (hafter : after ≠ []) :
    next true d (front ++ b :: after) = .failed .malformedReply := by
  rw [hreads.next_silent]
  exact next_of_fail (by simp [step_refused hb, hafter])

end Decoder

/-! ## The reader -/

namespace ReplyReader

open Decoder

/-- All bytes that the reader has before it. -/
def unread (r : ReplyReader) : Bytes := r.buffer.held ++ r.chunks.flatten

/-- The reader once it has taken in what there was room for of the next chunk. -/
def takeIn (r : ReplyReader) (d : Decoder) (rest chunk : Bytes) (chunks : List Bytes) :
    ReplyReader :=
  let received := (r.buffer.keep rest).receive chunk
  ⟨d, received.1, putBack received.2 chunks⟩

theorem flatten_putBack (left : Bytes) (chunks : List Bytes) :
    (putBack left chunks).flatten = left ++ chunks.flatten := by
  unfold putBack
  split
  · next hnil => rw [List.isEmpty_iff.mp hnil, List.nil_append]
  · rfl

theorem held_makeRoom_keep (r : ReplyReader) (rest : Bytes) :
    (r.buffer.keep rest).makeRoom.held = rest := by
  unfold ReceiveBuffer.makeRoom
  split
  · split <;> rfl
  · rfl

theorem unread_takeIn (r : ReplyReader) (d : Decoder) (rest chunk : Bytes)
    (chunks : List Bytes) :
    (r.takeIn d rest chunk chunks).unread = rest ++ (chunk :: chunks).flatten := by
  simp only [unread, takeIn, ReceiveBuffer.receive, flatten_putBack, held_makeRoom_keep,
    List.flatten_cons]
  rw [List.append_assoc, ← List.append_assoc (List.take _ _), List.take_append_drop]

theorem pending_takeIn (r : ReplyReader) (d : Decoder) (rest chunk : Bytes)
    {chunks : List Bytes} (h : r.chunks = chunk :: chunks) :
    (r.takeIn d rest chunk chunks).pending < r.pending := by
  obtain ⟨d', b', all⟩ := r
  simp only at h
  subst h
  exact pending_putBack_lt _ _ _ _ _ _ _

theorem read_eq (r : ReplyReader) :
    r.read =
      match r.decoder.next true r.buffer.held with
      | .reply reply rest => (.ok reply, ⟨.start, r.buffer.keep rest, r.chunks⟩)
      | .failed f => (.error f, r)
      | .waiting d rest =>
        match r.chunks with
        | [] => (.error (.io .unexpectedEof none), ⟨d, r.buffer.keep rest, []⟩)
        | chunk :: chunks => (r.takeIn d rest chunk chunks).read := by
  conv => lhs; rw [read]
  cases r.decoder.next true r.buffer.held with
  | reply reply rest => rfl
  | failed f => rfl
  | waiting d rest =>
    dsimp only
    split
    · next hchunks => rw [hchunks]
    · next hchunks =>
      rw [hchunks]
      rfl

theorem read_of_reply {r : ReplyReader} {v : Reply} {rest : Bytes}
    (h : r.decoder.next true r.buffer.held = .reply v rest) :
    r.read = (.ok v, ⟨.start, r.buffer.keep rest, r.chunks⟩) := by
  rw [read_eq, h]

theorem read_of_failed {r : ReplyReader} {f : Fault}
    (h : r.decoder.next true r.buffer.held = .failed f) : r.read = (.error f, r) := by
  rw [read_eq, h]

theorem read_at_end {r : ReplyReader} {d : Decoder} {rest : Bytes}
    (h : r.decoder.next true r.buffer.held = .waiting d rest) (hchunks : r.chunks = []) :
    r.read = (.error (.io .unexpectedEof none), ⟨d, r.buffer.keep rest, []⟩) := by
  rw [read_eq, h]
  simp only [hchunks]

theorem read_takeIn {r : ReplyReader} {d : Decoder} {rest chunk : Bytes} {chunks : List Bytes}
    (h : r.decoder.next true r.buffer.held = .waiting d rest)
    (hchunks : r.chunks = chunk :: chunks) : r.read = (r.takeIn d rest chunk chunks).read := by
  rw [read_eq, h]
  simp only [hchunks]

/-! ## Blocks -/

/-- The reader comes to stand there: at a block that it has just taken in, or behind a reply. -/
inductive Comes : ReplyReader → ReplyReader → Prop
  | here (r : ReplyReader) : Comes r r
  | takesIn {r r' : ReplyReader} {d : Decoder} {rest chunk : Bytes} {chunks : List Bytes}
      (hnext : r.decoder.next true r.buffer.held = .waiting d rest)
      (hchunks : r.chunks = chunk :: chunks) (h : Comes (r.takeIn d rest chunk chunks) r') :
      Comes r r'
  | gives {r r' : ReplyReader} {v : Reply} {rest : Bytes}
      (hnext : r.decoder.next true r.buffer.held = .reply v rest)
      (h : Comes ⟨.start, r.buffer.keep rest, r.chunks⟩ r') : Comes r r'

theorem Comes.trans {r r' r'' : ReplyReader} (h : Comes r r') (h' : Comes r' r'') :
    Comes r r'' := by
  induction h with
  | here => exact h'
  | takesIn hnext hchunks _ ih => exact .takesIn hnext hchunks (ih h')
  | gives hnext _ ih => exact .gives hnext (ih h')

/-- The reader comes to a block that ends with a type byte that cannot stand there. It drops the
byte, though more is to come. -/
def Drops (r : ReplyReader) : Prop :=
  ∃ r', Comes r r' ∧ EndsRefused r'.decoder r'.buffer.held ∧ r'.chunks.flatten ≠ []

/-- What the decoder makes of all the bytes before it. -/
def ahead (r : ReplyReader) : Decoder.Outcome := r.decoder.next true r.unread

/-- The reader reads what is ahead. -/
def Agrees (r : ReplyReader) : Prop :=
  match r.ahead with
  | .reply v rest =>
    ∃ r', r.read = (.ok v, r') ∧ r'.decoder = .start ∧ r'.unread = rest ∧ Comes r r'
  | .waiting _ _ => r.read.1 = .error (.io .unexpectedEof none)
  | .failed f => r.read.1 = .error f

theorem Agrees.of_takeIn {r : ReplyReader} {d : Decoder} {rest chunk : Bytes}
    {chunks : List Bytes} (hnow : r.decoder.next true r.buffer.held = .waiting d rest)
    (hchunks : r.chunks = chunk :: chunks)
    (hnext : r.ahead = (r.takeIn d rest chunk chunks).ahead)
    (h : Agrees (r.takeIn d rest chunk chunks)) : Agrees r := by
  have hread := read_takeIn hnow hchunks
  unfold Agrees at h ⊢
  rw [hnext, hread]
  split at h
  · obtain ⟨r', hr', hstart, hrest, hcomes⟩ := h
    exact ⟨r', hr', hstart, hrest, .takesIn hnow hchunks hcomes⟩
  · exact h
  · exact h

/-- **Where blocks end makes no difference, unless the reader drops a byte.** -/
theorem agrees_or_drops (r : ReplyReader) :
    Agrees r ∨ Drops r ∧ r.ahead = .failed .malformedReply := by
  -- What a block leaves undecided is decided by the reader with one more block.
  have hblock {d : Decoder} {rest : Bytes}
      (hnow : r.decoder.next true r.buffer.held = .waiting d rest)
      (hnext : r.ahead = d.next true (rest ++ r.chunks.flatten)) :
      Agrees r ∨ Drops r ∧ r.ahead = .failed .malformedReply := by
    cases hchunks : r.chunks with
    | nil =>
      have hunread : r.unread = r.buffer.held := by simp [unread, hchunks]
      exact .inl (by simp [Agrees, ahead, hunread, hnow, read_at_end hnow hchunks])
    | cons chunk chunks =>
      rw [hchunks, ← unread_takeIn r] at hnext
      have hless := pending_takeIn r d rest chunk hchunks
      rcases agrees_or_drops (r.takeIn d rest chunk chunks) with h | ⟨⟨r', hcomes, hdrop⟩, hfail⟩
      · exact .inl (h.of_takeIn hnow hchunks hnext)
      · exact .inr ⟨⟨r', .takesIn hnow hchunks hcomes, hdrop⟩, hnext.trans hfail⟩
  cases look r.decoder r.buffer.held with
  | reply v rest h =>
    have hnow := by simpa using h []
    have hall : r.ahead = .reply v (rest ++ r.chunks.flatten) := h _
    refine .inl ?_
    simp only [Agrees, hall]
    exact ⟨_, read_of_reply hnow, rfl, rfl, .gives hnow (.here _)⟩
  | failed f h =>
    have hall : r.ahead = .failed f := h _
    exact .inl (by simp [Agrees, hall, read_of_failed (by simpa using h [])])
  | waiting d rest hnow h => exact hblock hnow (h _)
  | dropped front b d hheld hreads hb =>
    have hnow : r.decoder.next true r.buffer.held = .waiting d [] := by
      rw [hheld, next_dropped hreads hb]
    by_cases hlast : r.chunks.flatten = []
    · refine hblock hnow ?_
      rw [ahead, unread, hlast, List.append_nil, List.append_nil, hnow,
        next_of_wait (hb.step_nil true)]
    · refine .inr ⟨⟨r, .here r, ⟨front, b, [], d, hheld, hreads, hb⟩, hlast⟩, ?_⟩
      rw [ahead, unread, hheld, List.append_assoc]
      exact next_refused hreads hb hlast
termination_by r.pending

theorem read_of_ahead_reply {r : ReplyReader} {v : Reply} {rest : Bytes}
    (h : r.ahead = .reply v rest) :
    ∃ r', r.read = (.ok v, r') ∧ r'.decoder = .start ∧ r'.unread = rest ∧ Comes r r' := by
  rcases agrees_or_drops r with hr | ⟨-, hfail⟩
  · simpa only [Agrees, h] using hr
  · simp [h] at hfail

theorem read_of_ahead_waiting {r : ReplyReader} {d : Decoder} {rest : Bytes}
    (h : r.ahead = .waiting d rest) : r.read.1 = .error (.io .unexpectedEof none) := by
  rcases agrees_or_drops r with hr | ⟨-, hfail⟩
  · simpa only [Agrees, h] using hr
  · simp [h] at hfail

theorem unread_ofChunks (chunks : List Bytes) : (ofChunks chunks).unread = chunks.flatten := rfl

theorem ahead_ofChunks (chunks : List Bytes) :
    (ofChunks chunks).ahead = Decoder.start.next true chunks.flatten := rfl

/-! ## One chunk -/

/-- What is left of a single chunk waits because the block is full. -/
def FromOneChunk (r : ReplyReader) : Prop :=
  r.chunks = [] ∨ ∃ left, r.chunks = [left] ∧ r.buffer.room = 0

theorem fromOneChunk_ofChunks (data : Bytes) : FromOneChunk (ofChunks [data]) :=
  .inr ⟨data, rfl, rfl⟩

theorem takeIn_of_full {r : ReplyReader} (d : Decoder) (rest chunk : Bytes)
    (h : r.buffer.room = 0) :
    ∃ n, ReceiveBuffer.unit ≤ n ∧ (r.takeIn d rest chunk []).buffer.held = rest ++ chunk.take n ∧
      FromOneChunk (r.takeIn d rest chunk []) := by
  refine ⟨(r.buffer.keep rest).makeRoom.room, ?_, ?_, ?_⟩
  · have hroom : (r.buffer.keep rest).room = 0 := h
    unfold ReceiveBuffer.makeRoom
    rw [if_pos hroom]
    split
    · rename_i hused
      exact hused.1
    · exact Nat.le_max_left _ _
  · simp only [takeIn, ReceiveBuffer.receive, held_makeRoom_keep]
  · by_cases hleft : (chunk.drop (r.buffer.keep rest).makeRoom.room) = []
    · exact .inl (by simp [takeIn, ReceiveBuffer.receive, putBack, hleft])
    · refine .inr ⟨chunk.drop (r.buffer.keep rest).makeRoom.room,
        by simp [takeIn, ReceiveBuffer.receive, putBack, hleft], ?_⟩
      rw [List.drop_eq_nil_iff] at hleft
      simp only [takeIn, ReceiveBuffer.receive, List.length_take]
      omega

theorem read_behind_dropped {r : ReplyReader} {front after : Bytes} {d : Decoder} {b c x : UInt8}
    (hone : FromOneChunk r) (hreads : Reads r.decoder front [] d) (hb : d.Refuses b)
    (hc : d.Refuses c) (hheld : r.buffer.held = front ++ [b])
    (hleft : r.chunks.flatten = c :: x :: after) : r.read.1 = .error .malformedReply := by
  have hnow : r.decoder.next true r.buffer.held = .waiting d [] := by
    rw [hheld, next_dropped hreads hb]
  rcases hone with hnil | ⟨left, hchunks, hroom⟩
  · simp [hnil] at hleft
  · obtain rfl : left = c :: x :: after := by simpa [hchunks] using hleft
    obtain ⟨n, hn, hheld', -⟩ := takeIn_of_full d [] (c :: x :: after) hroom
    obtain ⟨k, rfl⟩ : ∃ k, n = k + 2 := ⟨n - 2, by simp only [ReceiveBuffer.unit] at hn; omega⟩
    rw [read_takeIn hnow hchunks, read_of_failed]
    rw [hheld']
    exact next_refused (.nothing d) hc (List.cons_ne_nil _ _)

theorem read_refused {r : ReplyReader} {front after : Bytes} {d : Decoder} {b c x : UInt8}
    (hone : FromOneChunk r) (hreads : Reads r.decoder front [] d) (hb : d.Refuses b)
    (hc : d.Refuses c) (hunread : r.unread = front ++ b :: c :: x :: after) :
    r.read.1 = .error .malformedReply := by
  -- As long as the first of them has not come, the reader takes in one more block.
  have hblock (missing : Bytes) (hfront : front = r.buffer.held ++ missing)
      (hleft : r.chunks.flatten = missing ++ b :: c :: x :: after) :
      r.read.1 = .error .malformedReply := by
    obtain ⟨d', rest, hnow, hlater⟩ := (hfront ▸ hreads).next_cut (hb.step_nil true)
    rcases hone with hnil | ⟨left, hchunks, hroom⟩
    · simp [hnil] at hleft
    · have hless := pending_takeIn r d' rest left hchunks
      obtain ⟨-, -, -, hone'⟩ := takeIn_of_full d' rest left hroom
      rw [read_takeIn hnow hchunks]
      have hunread' : (r.takeIn d' rest left []).unread =
          (rest ++ missing) ++ b :: c :: x :: after := by
        rw [unread_takeIn, ← hchunks, hleft, List.append_assoc]
      exact read_refused hone' hlater hb hc hunread'
  rcases List.append_eq_append_iff.1 hunread with ⟨missing, hfront, hleft⟩ | ⟨tail, hheld, hall⟩
  · exact hblock missing hfront hleft
  · match tail, hall with
    | [], hall => exact hblock [] (by simpa using hheld.symm) hall.symm
    | [b'], hall =>
      obtain ⟨rfl, hleft⟩ := List.cons.inj hall
      exact read_behind_dropped hone hreads hb hc hheld hleft.symm
    | b' :: c' :: tail, hall =>
      obtain ⟨rfl, -⟩ := List.cons.inj hall
      rw [read_of_failed]
      rw [hheld]
      exact next_refused hreads hb (List.cons_ne_nil _ _)
termination_by r.pending

end ReplyReader

end SlotCluster
