import SlotCluster.Reply.Reader

/-!
# Pieces

A decoder takes its input in pieces. What it takes does not depend on what follows, and less than
a piece is not taken: the decoder waits for the rest of it. So what a decoder reads can be told
apart from the buffers it is given.
-/

namespace SlotCluster

namespace Decoder

/-! ## Lines -/

theorem cutLine_cons {b : UInt8} {tail : Bytes} (h : ∀ rest, b = 13 → tail ≠ 10 :: rest) :
    cutLine (b :: tail) = (cutLine tail).map fun (line, back) => (b :: line, back) := by
  rw [cutLine]
  rintro rest rfl htail
  exact h rest rfl htail

theorem cutLine_eq_some {buffer line rest : Bytes} (h : cutLine buffer = some (line, rest)) :
    buffer = line ++ 13 :: 10 :: rest ∧
      ∀ other, cutLine (line ++ 13 :: 10 :: other) = some (line, other) := by
  fun_induction cutLine buffer generalizing line with
  | case1 => simp at h
  | case2 tail =>
    obtain ⟨rfl, rfl⟩ := Prod.mk.injEq .. ▸ Option.some.inj h
    exact ⟨rfl, fun other => by simp [cutLine]⟩
  | case3 b tail hne ih =>
    obtain ⟨⟨front, back⟩, hcut, he⟩ := Option.map_eq_some_iff.1 h
    obtain ⟨rfl, rfl⟩ := Prod.mk.injEq .. ▸ he
    obtain ⟨rfl, hother⟩ := ih hcut
    refine ⟨rfl, fun other => ?_⟩
    rw [List.cons_append, cutLine_cons, hother other]
    · rfl
    · -- Whether the byte is the CR of the line's end shows in the line alone.
      intro after hb htail
      cases front with
      | nil => simp at htail
      | cons c front =>
        obtain ⟨rfl, -⟩ := List.cons.inj htail
        exact hne _ hb rfl

theorem cutLine_append {part line rest : Bytes} (h : cutLine part = some (line, rest))
    (missing : Bytes) : cutLine (part ++ missing) = some (line, rest ++ missing) := by
  obtain ⟨rfl, hother⟩ := cutLine_eq_some h
  simpa using hother (rest ++ missing)

/-! ## One piece -/

/-- The byte is no type byte, or the array that it opens would lie too deep. -/
def Refuses (d : Decoder) (b : UInt8) : Prop :=
  d.expected = .marker ∧
    ∀ m, Marker.ofByte? b = some m → m = .array ∧ maxDepth ≤ d.arrays.length

/-- The next piece is `front`, and it leads to `o`. -/
inductive Piece : Decoder → Bytes → (Reply ⊕ Decoder) → Prop
  | marker {arrays : List OpenArray} {b : UInt8} {m : Marker} (hm : Marker.ofByte? b = some m)
      (hdepth : ¬ (m = .array ∧ maxDepth ≤ arrays.length)) :
      Piece ⟨arrays, .marker⟩ [b] (.inr ⟨arrays, .line m⟩)
  | line {arrays : List OpenArray} {m : Marker} {line : Bytes} {o : Reply ⊕ Decoder}
      (hcut : ∀ rest, cutLine (line ++ 13 :: 10 :: rest) = some (line, rest))
      (ho : afterLine arrays m line = .ok o) : Piece ⟨arrays, .line m⟩ (line ++ [13, 10]) o
  | body (arrays : List OpenArray) (body : Bytes) :
      Piece ⟨arrays, .body body.length⟩ body (.inr ⟨arrays, .bodyEnd body⟩)
  | bodyEnd (arrays : List OpenArray) (body : Bytes) :
      Piece ⟨arrays, .bodyEnd body⟩ [13, 10] (close (.bulk body) arrays)

theorem Piece.taken {d : Decoder} {front : Bytes} {o : Reply ⊕ Decoder} (h : Piece d front o)
    (more : Bool) (rest : Bytes) : step more d (front ++ rest) = .ofOutcome rest o := by
  cases h with
  | marker hm hdepth => simp [step, hm, hdepth, Step.ofOutcome]
  | line hcut ho => simp [step, hcut, ho]
  | body => simp [step, Step.ofOutcome]
  | bodyEnd => rfl

theorem Piece.awaited {d : Decoder} {part missing : Bytes} {o : Reply ⊕ Decoder}
    (h : Piece d (part ++ missing) o) (hmissing : missing ≠ []) (more : Bool) :
    step more d part = .wait d part := by
  generalize hfront : part ++ missing = front at h
  cases h with
  | marker =>
    obtain rfl : part = [] := by
      cases part with
      | nil => rfl
      | cons c part =>
        have hnil := (List.cons.inj hfront).2
        exact absurd (List.append_eq_nil_iff.1 hnil).2 hmissing
    rfl
  | line hcut =>
    have hnone : cutLine part = none := by
      cases hpart : cutLine part with
      | none => rfl
      | some cut =>
        have hwhole := cutLine_append hpart missing
        rw [hfront, hcut []] at hwhole
        have hnil : [] = cut.2 ++ missing := congrArg Prod.snd (Option.some.inj hwhole)
        exact absurd (List.append_eq_nil_iff.1 hnil.symm).2 hmissing
    simp [step, hnone]
  | body arrays =>
    have hlen := congrArg List.length hfront
    have hpos := List.length_pos_iff.2 hmissing
    rw [List.length_append] at hlen
    simp only [step, if_pos (show part.length < front.length by omega)]
  | bodyEnd =>
    match part, hfront with
    | [], _ => rfl
    | [b], hfront =>
      obtain ⟨rfl, -⟩ := List.cons.inj hfront
      rfl
    | b :: c :: part, hfront =>
      have hnil : part ++ missing = [] := (List.cons.inj (List.cons.inj hfront).2).2
      exact absurd (List.append_eq_nil_iff.1 hnil).2 hmissing

/-- There is no piece at the front of the buffer. -/
inductive Stuck (d : Decoder) (buffer : Bytes) : Prop
  /-- More has to come. -/
  | short (h : ∀ more, step more d buffer = .wait d buffer)
  | refused (b : UInt8) (rest : Bytes) (hb : buffer = b :: rest) (h : d.Refuses b)
  /-- No piece will ever stand there. -/
  | broken (h : ∀ more rest, step more d (buffer ++ rest) = .fail .malformedReply)

theorem step_refused {d : Decoder} {b : UInt8} (h : d.Refuses b) (more : Bool) (rest : Bytes) :
    step more d (b :: rest) =
      if more ∧ rest.isEmpty then .wait d rest else .fail .malformedReply := by
  obtain ⟨hexpected, hmarker⟩ := h
  unfold step
  rw [hexpected]
  simp only
  cases hm : Marker.ofByte? b with
  | none => rfl
  | some m => simp only [if_pos (hmarker m hm)]

theorem Refuses.step_nil {d : Decoder} {b : UInt8} (h : d.Refuses b) (more : Bool) :
    step more d [] = .wait d [] := by
  unfold step
  rw [h.1]

theorem step_no_cr (more : Bool) (arrays : List OpenArray) (body : Bytes) {b : UInt8}
    (h : b ≠ 13) (rest : Bytes) :
    step more ⟨arrays, .bodyEnd body⟩ (b :: rest) = .fail .malformedReply := by
  simp [step, h]

theorem step_no_lf (more : Bool) (arrays : List OpenArray) (body : Bytes) {c : UInt8}
    (h : c ≠ 10) (rest : Bytes) :
    step more ⟨arrays, .bodyEnd body⟩ (13 :: c :: rest) = .fail .malformedReply := by
  simp [step, h]

theorem fault_of_afterLine {arrays : List OpenArray} {m : Marker} {line : Bytes} {f : Fault}
    (h : afterLine arrays m line = .error f) : f = .malformedReply := by
  unfold afterLine at h
  grind

/-- **What stands at the front of a buffer**: a piece, or nothing that can be taken now. -/
theorem piece_or_stuck (d : Decoder) (buffer : Bytes) :
    (∃ front rest o, buffer = front ++ rest ∧ Piece d front o) ∨ Stuck d buffer := by
  obtain ⟨arrays, expected⟩ := d
  cases expected with
  | marker =>
    cases buffer with
    | nil => exact .inr (.short fun _ => rfl)
    | cons b rest =>
      cases hm : Marker.ofByte? b with
      | none => exact .inr (.refused b rest rfl ⟨rfl, fun m h => by simp [hm] at h⟩)
      | some m =>
        by_cases hdepth : m = .array ∧ maxDepth ≤ arrays.length
        · exact .inr (.refused b rest rfl
            ⟨rfl, fun m' h => Option.some.inj (hm.symm.trans h) ▸ hdepth⟩)
        · exact .inl ⟨[b], rest, _, rfl, Piece.marker hm hdepth⟩
  | line m =>
    cases hcut : cutLine buffer with
    | none => exact .inr (.short fun _ => by simp [step, hcut])
    | some cut =>
      obtain ⟨line, rest⟩ := cut
      obtain ⟨rfl, hother⟩ := cutLine_eq_some hcut
      cases hafter : afterLine arrays m line with
      | error f =>
        obtain rfl := fault_of_afterLine hafter
        exact .inr (.broken fun _ _ => by simp [step, hother, hafter])
      | ok o => exact .inl ⟨line ++ [13, 10], rest, o, by simp, Piece.line hother hafter⟩
  | body size =>
    by_cases hshort : buffer.length < size
    · exact .inr (.short fun _ => by simp [step, hshort])
    · have hlen : (buffer.take size).length = size := by simp; omega
      have hpiece := Piece.body arrays (buffer.take size)
      rw [hlen] at hpiece
      exact .inl ⟨_, _, _, (List.take_append_drop size buffer).symm, hpiece⟩
  | bodyEnd body =>
    cases buffer with
    | nil => exact .inr (.short fun _ => rfl)
    | cons b rest =>
      by_cases hb : b = 13
      · subst hb
        cases rest with
        | nil => exact .inr (.short fun _ => rfl)
        | cons c rest =>
          by_cases hc : c = 10
          · subst hc
            exact .inl ⟨[13, 10], rest, _, rfl, Piece.bodyEnd arrays body⟩
          · exact .inr (.broken fun _ _ => step_no_lf _ _ _ hc _)
      · exact .inr (.broken fun _ _ => step_no_cr _ _ _ hb _)

theorem Stuck.while_more {d : Decoder} {buffer : Bytes} (h : Stuck d buffer) :
    step true d buffer = .wait d buffer ∨
      (∀ rest, step true d (buffer ++ rest) = .fail .malformedReply) ∨
      ∃ b, buffer = [b] ∧ d.Refuses b := by
  cases h with
  | short h => exact .inl (h true)
  | broken h => exact .inr (.inl (h true))
  | refused b rest hb h =>
    subst hb
    cases rest with
    | nil => exact .inr (.inr ⟨b, rfl, h⟩)
    | cons c rest => exact .inr (.inl fun after => by simp [step_refused h])

/-! ## Inside a reply -/

/-- A reply has begun. -/
def Inside (d : Decoder) : Prop := d.arrays ≠ [] ∨ d.expected ≠ .marker

theorem not_inside_start : ¬ Inside start := by simp [Inside, start]

theorem inside_of_close {r : Reply} {arrays : List OpenArray} {d : Decoder}
    (h : close r arrays = .inr d) : Inside d := by
  fun_induction close r arrays with
  | case1 => simp at h
  | case2 r a outer _ ih => exact ih h
  | case3 r a outer _ =>
    obtain rfl := Sum.inr.inj h
    exact .inl (List.cons_ne_nil _ _)

theorem inside_of_afterLine {arrays : List OpenArray} {m : Marker} {line : Bytes} {d : Decoder}
    (h : afterLine arrays m line = .ok (.inr d)) : Inside d := by
  -- A line closes arrays, or opens what has to be read next.
  have hclose {r : Reply} (hr : Except.ok (ε := Fault) (close r arrays) = .ok (.inr d)) :
      Inside d := inside_of_close (Except.ok.inj hr)
  have hopen {d' : Decoder} (hd' : Inside d')
      (hr : Except.ok (ε := Fault) (α := Reply ⊕ Decoder) (.inr d') = .ok (.inr d)) : Inside d :=
    Sum.inr.inj (Except.ok.inj hr) ▸ hd'
  unfold afterLine at h
  cases htext : line.text? with
  | none => simp [htext] at h
  | some text =>
    simp only [htext] at h
    cases m with
    | simple => exact hclose h
    | error => exact hclose h
    | int =>
      simp only at h
      split at h
      · cases h
      · exact hclose h
    | bulk =>
      simp only at h
      split at h
      · cases h
      · split at h
        · exact hclose h
        · exact hopen (.inr (by simp)) h
    | array =>
      simp only at h
      split at h
      · cases h
      · split at h
        · exact hclose h
        · split at h
          · exact hclose h
          · exact hopen (.inl (List.cons_ne_nil _ _)) h

theorem Piece.inside {d d' : Decoder} {front : Bytes} (h : Piece d front (.inr d')) :
    Inside d' := by
  generalize ho : (Sum.inr d' : Reply ⊕ Decoder) = o at h
  cases h with
  | marker | body =>
    obtain rfl := Sum.inr.inj ho
    exact .inr (by simp)
  | line _ hafter =>
    subst ho
    exact inside_of_afterLine hafter
  | bodyEnd => exact inside_of_close ho.symm

theorem Piece.ne_nil {front : Bytes} {o : Reply ⊕ Decoder} (h : Piece start front o) :
    front ≠ [] := by
  generalize hd : start = d at h
  cases h with
  | marker => exact List.cons_ne_nil _ _
  | line | body | bodyEnd => simp [start] at hd

/-! ## Many pieces -/

/-- The reply that a piece completes, if it does. -/
def given : Reply ⊕ Decoder → List Reply
  | .inl r => [r]
  | .inr _ => []

/-- Where the decoder stands after a piece. -/
def standing : Reply ⊕ Decoder → Decoder
  | .inl _ => start
  | .inr d => d

/-- From `d` on, the decoder reads exactly these bytes. They give the replies and lead to `d'`. -/
inductive Reads : Decoder → Bytes → List Reply → Decoder → Prop
  | nothing (d : Decoder) : Reads d [] [] d
  | piece {d d' : Decoder} {front back : Bytes} {o : Reply ⊕ Decoder} {replies : List Reply}
      (h : Piece d front o) (hback : Reads (standing o) back replies d') :
      Reads d (front ++ back) (given o ++ replies) d'

theorem Piece.reads {d : Decoder} {front : Bytes} {o : Reply ⊕ Decoder} (h : Piece d front o) :
    Reads d front (given o) (standing o) := by
  simpa using Reads.piece h (.nothing _)

theorem Reads.trans {d d' d'' : Decoder} {front back : Bytes} {replies replies' : List Reply}
    (h : Reads d front replies d') (h' : Reads d' back replies' d'') :
    Reads d (front ++ back) (replies ++ replies') d'' := by
  induction h with
  | nothing => exact h'
  | piece hpiece _ ih => simpa [List.append_assoc] using Reads.piece hpiece (ih h')

theorem reads_until_stuck (d : Decoder) (buffer : Bytes) :
    ∃ front rest replies d', buffer = front ++ rest ∧ Reads d front replies d' ∧ Stuck d' rest := by
  rcases piece_or_stuck d buffer with ⟨front, rest, o, rfl, hpiece⟩ | hstuck
  · have hstep := hpiece.taken true rest
    have hless : measure (standing o) rest < measure d (front ++ rest) := by
      cases o with
      | inl r => exact measure_done hstep
      | inr d' => exact measure_step hstep
    obtain ⟨front', rest', replies, d', rfl, hreads, hstuck⟩ := reads_until_stuck (standing o) rest
    exact ⟨front ++ front', rest', _, d', by rw [List.append_assoc], .piece hpiece hreads, hstuck⟩
  · exact ⟨[], buffer, [], d, rfl, .nothing d, hstuck⟩
termination_by measure d buffer

/-- Bytes that are read up to a point in the middle: the decoder waits there, and it reads what is
missing as if it had been there at once. -/
theorem Reads.cut {d d' : Decoder} {part missing : Bytes} {replies : List Reply}
    (h : Reads d (part ++ missing) replies d') (hmissing : missing ≠ []) :
    ∃ front rest early d₁ late, part = front ++ rest ∧ Reads d front early d₁ ∧
      (∀ more, step more d₁ rest = .wait d₁ rest) ∧ Reads d₁ (rest ++ missing) late d' ∧
      replies = early ++ late := by
  generalize hall : part ++ missing = bytes at h
  induction h generalizing part with
  | nothing => exact absurd (List.append_eq_nil_iff.1 hall).2 hmissing
  | @piece d d' front back o replies hpiece hback ih =>
    -- The point lies behind the piece or inside it.
    have hwhere : (∃ tail, part = front ++ tail ∧ tail ++ missing = back) ∨
        ∃ tail, tail ≠ [] ∧ front = part ++ tail := by
      rcases List.append_eq_append_iff.1 hall with ⟨tail, rfl, rfl⟩ | ⟨tail, rfl, rfl⟩
      · cases tail with
        | nil => exact .inl ⟨[], by simp, rfl⟩
        | cons b tail => exact .inr ⟨_, List.cons_ne_nil _ _, rfl⟩
      · exact .inl ⟨tail, rfl, rfl⟩
    rcases hwhere with ⟨tail, rfl, htail⟩ | ⟨tail, htail, rfl⟩
    · obtain ⟨front', rest, early, d₁, late, rfl, hearly, hwait, hlate, rfl⟩ := ih htail
      exact ⟨front ++ front', rest, given o ++ early, d₁, late, by rw [List.append_assoc],
        .piece hpiece hearly, hwait, hlate, by rw [List.append_assoc]⟩
    · refine ⟨[], part, [], d, _, rfl, .nothing d, ?_, ?_, rfl⟩
      · exact hpiece.awaited htail
      · rw [hall]
        exact .piece hpiece hback

/-! ## What the decoders make of pieces -/

theorem drain_eq (d : Decoder) (buffer : Bytes) :
    drain d buffer =
      match step true d buffer with
      | .wait d' rest => ([], .waiting d' rest)
      | .goOn d' rest => drain d' rest
      | .done r rest => (r :: (drain start rest).1, (drain start rest).2)
      | .fail f => ([], .failed f) := by
  conv => lhs; rw [drain]
  split
  · next h => rw [h]
  · next h => rw [h]
  · next h => rw [h]
  · next h => rw [h]

theorem finishBuffer_eq (d : Decoder) (buffer : Bytes) :
    finishBuffer d buffer =
      match step false d buffer with
      | .wait _ _ => ([], some .malformedReply)
      | .goOn d' rest => finishBuffer d' rest
      | .done r [] => ([r], none)
      | .done r (b :: rest) =>
        (r :: (finishBuffer start (b :: rest)).1, (finishBuffer start (b :: rest)).2)
      | .fail f => ([], some f) := by
  conv => lhs; rw [finishBuffer]
  split
  · next h => rw [h]
  · next h => rw [h]
  · next h => rw [h]
  · next h => rw [h]
  · next h => rw [h]

theorem drain_of_wait {d d' : Decoder} {buffer rest : Bytes}
    (h : step true d buffer = .wait d' rest) : drain d buffer = ([], .waiting d' rest) := by
  rw [drain_eq, h]

theorem drain_of_fail {d : Decoder} {buffer : Bytes} {f : Fault}
    (h : step true d buffer = .fail f) : drain d buffer = ([], .failed f) := by
  rw [drain_eq, h]

theorem Piece.drain {d : Decoder} {front : Bytes} {o : Reply ⊕ Decoder} (h : Piece d front o)
    (rest : Bytes) :
    drain d (front ++ rest) =
      (given o ++ (Decoder.drain (standing o) rest).1, (Decoder.drain (standing o) rest).2) := by
  rw [drain_eq, h.taken true rest]
  cases o with
  | inl r => rfl
  | inr d' => rfl

theorem Reads.drain {d d' : Decoder} {front : Bytes} {replies : List Reply}
    (h : Reads d front replies d') (rest : Bytes) :
    drain d (front ++ rest) =
      (replies ++ (Decoder.drain d' rest).1, (Decoder.drain d' rest).2) := by
  induction h with
  | nothing => rfl
  | piece hpiece _ ih => rw [List.append_assoc, hpiece.drain, ih, List.append_assoc]

/-! ## Whole inputs -/

theorem Reads.inside {d d' : Decoder} {bytes : Bytes} (h : Reads d bytes [] d') (hd : Inside d) :
    Inside d' := by
  generalize hnone : ([] : List Reply) = replies at h
  induction h with
  | nothing => exact hd
  | @piece d d' front back o replies hpiece _ ih =>
    cases o with
    | inl r => cases hnone
    | inr d₁ => exact ih hpiece.inside hnone

theorem Reads.eq_nil_of_start {bytes : Bytes} (h : Reads start bytes [] start) : bytes = [] := by
  generalize hd : start = d at h
  generalize hnone : ([] : List Reply) = replies at h
  cases h with
  | nothing => rfl
  | @piece d d' front back o replies hpiece hback =>
    cases o with
    | inl r => cases hnone
    | inr d₁ =>
      obtain rfl : [] = replies := hnone
      exact absurd (hback.inside hpiece.inside) (hd ▸ not_inside_start)

theorem Reads.eq_start_of_nil {d : Decoder} {replies : List Reply}
    (h : Reads start [] replies d) : replies = [] ∧ d = start := by
  generalize hd : start = d₀ at h
  generalize hnone : ([] : Bytes) = bytes at h
  cases h with
  | nothing => exact ⟨rfl, rfl⟩
  | piece hpiece =>
    subst hd
    exact absurd (List.append_eq_nil_iff.1 hnone.symm).1 hpiece.ne_nil

theorem Piece.finishBuffer {d : Decoder} {front rest : Bytes} {o : Reply ⊕ Decoder}
    (h : Piece d front o) (hmore : rest ≠ [] ∨ Inside (standing o)) :
    finishBuffer d (front ++ rest) =
      (given o ++ (Decoder.finishBuffer (standing o) rest).1,
        (Decoder.finishBuffer (standing o) rest).2) := by
  rw [finishBuffer_eq, h.taken false rest]
  cases o with
  | inl r =>
    have hrest : rest ≠ [] := hmore.resolve_right not_inside_start
    obtain ⟨b, rest, rfl⟩ := List.exists_cons_of_ne_nil hrest
    rfl
  | inr d' => rfl

theorem Reads.finishBuffer {d d' : Decoder} {front rest : Bytes} {replies : List Reply}
    (h : Reads d front replies d') (hmore : rest ≠ [] ∨ Inside d') :
    finishBuffer d (front ++ rest) =
      (replies ++ (Decoder.finishBuffer d' rest).1, (Decoder.finishBuffer d' rest).2) := by
  induction h with
  | nothing => rfl
  | @piece d d' front back o replies hpiece hback ih =>
    have hgoes : back ++ rest ≠ [] ∨ Inside (standing o) := by
      by_cases hnil : back ++ rest = []
      · obtain ⟨rfl, rfl⟩ := List.append_eq_nil_iff.1 hnil
        have hinside : Inside d' := hmore.resolve_left fun h => h rfl
        cases o with
        | inl r => exact absurd hinside (hback.eq_start_of_nil.2 ▸ not_inside_start)
        | inr d₁ => exact .inr hpiece.inside
      · exact .inl hnil
    rw [List.append_assoc, hpiece.finishBuffer hgoes, ih hmore, List.append_assoc]

theorem Stuck.finishBuffer {d : Decoder} {rest : Bytes} (h : Stuck d rest) :
    finishBuffer d rest = ([], some .malformedReply) := by
  have hstep : (∃ d' rest', step false d rest = .wait d' rest') ∨
      step false d rest = .fail .malformedReply := by
    cases h with
    | short h => exact .inl ⟨_, _, h false⟩
    | refused b rest hb h =>
      subst hb
      exact .inr (by simp [step_refused h])
    | broken h => exact .inr (by simpa using h false [])
  rw [finishBuffer_eq]
  rcases hstep with ⟨d', rest', hstep⟩ | hstep
  · rw [hstep]
  · rw [hstep]

theorem Reads.finishBuffer_end {d : Decoder} {bytes : Bytes} {replies : List Reply}
    (h : Reads d bytes replies start) (hsome : replies ≠ []) :
    Decoder.finishBuffer d bytes = (replies, none) := by
  generalize hd' : start = d' at h
  induction h with
  | nothing => exact absurd rfl hsome
  | @piece d d' front back o replies hpiece hback ih =>
    cases o with
    | inr d₁ => rw [hpiece.finishBuffer (.inr hpiece.inside), ih hsome hd']
    | inl r =>
      cases back with
      | nil =>
        obtain ⟨rfl, -⟩ := hback.eq_start_of_nil
        rw [finishBuffer_eq, hpiece.taken false []]
        rfl
      | cons b back =>
        have hreplies : replies ≠ [] := by
          rintro rfl
          subst hd'
          exact absurd hback.eq_nil_of_start (List.cons_ne_nil _ _)
        rw [hpiece.finishBuffer (.inl (List.cons_ne_nil _ _)), ih hreplies hd']

theorem eq_start_of_not_inside {d : Decoder} (h : ¬ Inside d) : d = start := by
  obtain ⟨arrays, expected⟩ := d
  simp only [Inside, not_or, Classical.not_not] at h
  obtain ⟨rfl, rfl⟩ := h
  rfl

end Decoder

open Decoder in
theorem Reply.parseAll_eq_ok_iff {data : Bytes} {replies : List Reply} :
    Reply.parseAll data = .ok replies ↔ Reads .start data replies .start := by
  have hreads {replies : List Reply} (h : Reads .start data replies .start) :
      Reply.parseAll data = .ok replies := by
    by_cases hdata : data = []
    · subst hdata
      rw [h.eq_start_of_nil.1]
      rfl
    · have hsome : replies ≠ [] := by
        rintro rfl
        exact hdata h.eq_nil_of_start
      simp [Reply.parseAll, finish, hdata, h.finishBuffer_end hsome]
  refine ⟨fun h => ?_, hreads⟩
  obtain ⟨front, rest, early, d, rfl, hearly, hstuck⟩ := reads_until_stuck start data
  by_cases hend : rest ≠ [] ∨ Inside d
  · have hne : front ++ rest ≠ [] := by
      intro hnil
      obtain ⟨rfl, rfl⟩ := List.append_eq_nil_iff.1 hnil
      exact not_inside_start (hearly.eq_start_of_nil.2 ▸ hend.resolve_left fun h => h rfl)
    simp [Reply.parseAll, finish, hne, hearly.finishBuffer hend, hstuck.finishBuffer] at h
  · simp only [not_or, Classical.not_not] at hend
    obtain ⟨rfl, hinside⟩ := hend
    obtain rfl := eq_start_of_not_inside hinside
    rw [List.append_nil] at *
    exact Except.ok.inj ((hreads hearly).symm.trans h) ▸ hearly

end SlotCluster
