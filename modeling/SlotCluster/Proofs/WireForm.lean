import SlotCluster.Proofs.BlockReading
import SlotCluster.Proofs.Numerals

/-!
# The wire form of replies

What a node writes for a reply, and what a decoder reads there: the reply itself, and not a byte
of what follows. A reply with arrays too deep inside it is refused at the first of them.
-/

namespace SlotCluster

/-- No byte string in memory is longer than this. -/
def Bytes.maxLength : Nat := 9223372036854775807

/-! ## Replies as nodes write them -/

/-- A text that fits on one line: it may end in a CR, and it may hold a LF, but no CRLF. -/
structure Line where
  text : String
  unbroken : ¬ [13, 10] <:+: Bytes.ofText text

/-- A reply before it is written. -/
inductive WireReply
  | nil
  | int (value : Int64)
  | bulk (bytes : Bytes)
  | simple (line : Line)
  | error (line : Line)
  | array (items : List WireReply)

namespace WireReply

/-- A type byte, a line, and CRLF. -/
def encodeLine (mark : UInt8) (line : Bytes) : Bytes := mark :: line ++ [13, 10]

mutual

/-- The bytes that a node writes. -/
def encode : WireReply → Bytes
  | nil => encodeLine 36 [45, 49]
  | int value => encodeLine 58 (Decimal.ofInt value.toInt)
  | bulk bytes => encodeLine 36 (Decimal.digits bytes.length) ++ bytes ++ [13, 10]
  | simple line => encodeLine 43 (Bytes.ofText line.text)
  | error line => encodeLine 45 (Bytes.ofText line.text)
  | array items => encodeLine 42 (Decimal.digits items.length) ++ encodeAll items

def encodeAll : List WireReply → Bytes
  | [] => []
  | v :: rest => encode v ++ encodeAll rest

end

mutual

/-- The reply that is meant. -/
def reply : WireReply → Reply
  | nil => .nil
  | int value => .int value
  | bulk bytes => .bulk bytes
  | simple line => if line.text = "OK" then .okay else .simple line.text
  | error line => .error (.ofLine line.text)
  | array items => .array (replies items)

def replies : List WireReply → List Reply
  | [] => []
  | v :: rest => reply v :: replies rest

end

mutual

/-- How many arrays lie inside one another. -/
def depth : WireReply → Nat
  | array items => depthOf items + 1
  | _ => 0

def depthOf : List WireReply → Nat
  | [] => 0
  | v :: rest => max (depth v) (depthOf rest)

end

theorem replies_eq_map (items : List WireReply) : replies items = items.map reply := by
  induction items with
  | nil => rfl
  | cons v rest ih => rw [replies, ih]; rfl

theorem encode_ne_nil (v : WireReply) : v.encode ≠ [] := by
  cases v <;> simp [encode, encodeLine]

theorem size_array {items : List WireReply} (h : (array items).encode.length ≤ Bytes.maxLength) :
    (encodeAll items).length ≤ Bytes.maxLength := by
  simp only [encode, List.length_append] at h
  omega

theorem length_le_encodeAll (items : List WireReply) :
    items.length ≤ (encodeAll items).length := by
  induction items with
  | nil => exact Nat.le_refl _
  | cons v rest ih =>
    have := List.length_pos_iff.2 v.encode_ne_nil
    simp only [encodeAll, List.length_cons, List.length_append]
    omega

end WireReply

/-! ## Lines -/

namespace Decoder

theorem cutLine_of_unbroken {line : Bytes} (h : ¬ [13, 10] <:+: line) (rest : Bytes) :
    cutLine (line ++ 13 :: 10 :: rest) = some (line, rest) := by
  induction line with
  | nil => simp [cutLine]
  | cons b tail ih =>
    have htail : ¬ [13, 10] <:+: tail := fun hin => h (hin.trans (List.suffix_cons b tail).isInfix)
    rw [List.cons_append, cutLine_cons, ih htail]
    · rfl
    · rintro after rfl hten
      cases tail with
      | nil => simp at hten
      | cons c tail =>
        obtain ⟨rfl, -⟩ := List.cons.inj hten
        exact h ⟨[], tail, rfl⟩

theorem unbroken_of_no_cr {line : Bytes} (h : 13 ∉ line) : ¬ [13, 10] <:+: line :=
  fun hin => h (hin.subset List.mem_cons_self)

theorem unbroken_ofInt (i : Int) : ¬ [13, 10] <:+: Decimal.ofInt i :=
  unbroken_of_no_cr fun h => absurd (Decimal.mem_ofInt h) (by decide)

theorem unbroken_digits (n : Nat) : ¬ [13, 10] <:+: Decimal.digits n :=
  Decimal.ofInt_natCast n ▸ unbroken_ofInt n

theorem reads_line (arrays : List OpenArray) (mark : UInt8) {m : Marker} {line : Bytes}
    {o : Reply ⊕ Decoder} (hm : Marker.ofByte? mark = some m)
    (hdepth : ¬ (m = .array ∧ maxDepth ≤ arrays.length)) (hline : ¬ [13, 10] <:+: line)
    (ho : afterLine arrays m line = .ok o) :
    Reads ⟨arrays, .marker⟩ (WireReply.encodeLine mark line) (given o) (standing o) := by
  have hpiece := Piece.line (cutLine_of_unbroken hline) ho
  exact (Piece.marker hm hdepth).reads.trans hpiece.reads

theorem afterLine_int (arrays : List OpenArray) (n : Int64) :
    afterLine arrays .int (Decimal.ofInt n.toInt) = .ok (close (.int n) arrays) := by
  obtain ⟨s, htext, hread⟩ := text?_ofInt n
  simp [afterLine, htext, hread]

theorem afterLine_simple (arrays : List OpenArray) (s : String) :
    afterLine arrays .simple (Bytes.ofText s) =
      .ok (close (if s = "OK" then .okay else .simple s) arrays) := by
  simp [afterLine, Bytes.text?_ofText]

theorem afterLine_error (arrays : List OpenArray) (s : String) :
    afterLine arrays .error (Bytes.ofText s) = .ok (close (.error (.ofLine s)) arrays) := by
  simp [afterLine, Bytes.text?_ofText]

theorem afterLine_nil (arrays : List OpenArray) :
    afterLine arrays .bulk [45, 49] = .ok (close .nil arrays) := by
  obtain ⟨s, htext, hread⟩ := text?_ofInt (-1)
  have hbytes : Decimal.ofInt (-1 : Int64).toInt = [45, 49] := by decide +kernel
  rw [hbytes] at htext
  simp [afterLine, htext, hread]

theorem text?_digits {n : Nat} (h : n ≤ Bytes.maxLength) :
    ∃ s k, (Decimal.digits n).text? = some s ∧ readNumber? s = some k ∧ k.toInt = n := by
  have hk : (Int64.ofInt n).toInt = n :=
    Int64.toInt_ofInt_of_le (by omega) (by rw [Bytes.maxLength] at h; omega)
  obtain ⟨s, htext, hread⟩ := text?_ofInt (Int64.ofInt n)
  rw [hk, Decimal.ofInt_natCast] at htext
  exact ⟨s, _, htext, hread, hk⟩

theorem afterLine_bulk (arrays : List OpenArray) {n : Nat} (h : n ≤ Bytes.maxLength) :
    afterLine arrays .bulk (Decimal.digits n) = .ok (.inr ⟨arrays, .body n⟩) := by
  obtain ⟨s, k, htext, hread, hk⟩ := text?_digits h
  have hneg : ¬ k < 0 := by
    rw [Int64.lt_iff_toInt_lt, hk]
    simp
  simp [afterLine, htext, hread, hneg, hk]

theorem afterLine_array (arrays : List OpenArray) {n : Nat} (h : n ≤ Bytes.maxLength) :
    afterLine arrays .array (Decimal.digits n) =
      .ok (if n = 0 then close (.array []) arrays else .inr ⟨⟨n, []⟩ :: arrays, .marker⟩) := by
  obtain ⟨s, k, htext, hread, hk⟩ := text?_digits h
  have hneg : ¬ k < 0 := by
    rw [Int64.lt_iff_toInt_lt, hk]
    simp
  have hzero : k = 0 ↔ n = 0 := by
    rw [← Int64.toInt_inj, hk]
    simp
  simp only [afterLine, htext, hread, hneg, hzero, hk, if_false, Int.toNat_natCast]
  split <;> rfl

theorem reads_array_line {arrays : List OpenArray} {n : Nat} (hinside : arrays.length < maxDepth)
    (hn : n ≤ Bytes.maxLength) :
    let o := if n = 0 then close (.array []) arrays else .inr ⟨⟨n, []⟩ :: arrays, .marker⟩
    Reads ⟨arrays, .marker⟩ (WireReply.encodeLine 42 (Decimal.digits n)) (given o) (standing o) :=
  reads_line arrays 42 rfl (fun h => absurd h.2 (Nat.not_le.2 hinside)) (unbroken_digits n)
    (afterLine_array arrays hn)

/-! ## Reading what was written -/

theorem close_last (r : Reply) (a : OpenArray) (outer : List OpenArray) (h : a.missing ≤ 1) :
    close r (a :: outer) = close (.array (a.items.reverse ++ [r])) outer := by
  rw [close, if_pos h]

theorem close_more (r : Reply) (a : OpenArray) (outer : List OpenArray) (h : ¬ a.missing ≤ 1) :
    close r (a :: outer) = .inr ⟨⟨a.missing - 1, r :: a.items⟩ :: outer, .marker⟩ := by
  rw [close, if_neg h]

open WireReply

mutual

/-- A reply is read byte for byte, and then the array around it goes on or is complete. -/
theorem reads_encode (v : WireReply) (arrays : List OpenArray)
    (hdepth : arrays.length + v.depth ≤ maxDepth) (hsize : v.encode.length ≤ Bytes.maxLength) :
    Reads ⟨arrays, .marker⟩ v.encode (given (close v.reply arrays))
      (standing (close v.reply arrays)) := by
  cases v with
  | nil => exact reads_line arrays _ rfl (by simp) (by decide) (afterLine_nil arrays)
  | int value =>
    exact reads_line arrays _ rfl (by simp) (unbroken_ofInt _) (afterLine_int arrays value)
  | simple line =>
    have hread := reads_line arrays 43 rfl (by simp) line.unbroken
      (afterLine_simple arrays line.text)
    simpa only [encode, reply] using hread
  | error line =>
    exact reads_line arrays _ rfl (by simp) line.unbroken (afterLine_error arrays line.text)
  | bulk bytes =>
    have hlength : bytes.length ≤ Bytes.maxLength := by
      simp only [encode, List.length_append] at hsize
      omega
    have hline := reads_line arrays 36 rfl (by simp) (unbroken_digits _)
      (afterLine_bulk arrays hlength)
    exact (hline.trans (Piece.body arrays bytes).reads).trans (Piece.bodyEnd arrays bytes).reads
  | array items =>
    have hsize' := size_array hsize
    have hlength := Nat.le_trans (length_le_encodeAll items) hsize'
    have hdepth' : arrays.length + 1 + depthOf items ≤ maxDepth := by
      simp only [depth] at hdepth
      omega
    have hline := reads_array_line (show arrays.length < maxDepth by omega) hlength
    by_cases hitems : items = []
    · subst hitems
      simpa [encode, encodeAll, reply, replies] using hline
    · rw [if_neg (by simpa using hitems)] at hline
      exact hline.trans
        (reads_encodeAll items ⟨items.length, []⟩ arrays hitems rfl hdepth' hsize')

theorem reads_encodeAll (items : List WireReply) (a : OpenArray) (outer : List OpenArray)
    (hitems : items ≠ []) (hmissing : a.missing = items.length)
    (hdepth : outer.length + 1 + depthOf items ≤ maxDepth)
    (hsize : (encodeAll items).length ≤ Bytes.maxLength) :
    Reads ⟨a :: outer, .marker⟩ (encodeAll items)
      (given (close (.array (a.items.reverse ++ replies items)) outer))
      (standing (close (.array (a.items.reverse ++ replies items)) outer)) := by
  cases items with
  | nil => exact absurd rfl hitems
  | cons v rest =>
    simp only [depthOf, encodeAll, List.length_append, List.length_cons] at hdepth hsize hmissing
    have hfirst := reads_encode v (a :: outer) (by simp only [List.length_cons]; omega) (by omega)
    -- The last element completes the array, any other leaves it open.
    by_cases hrest : rest = []
    · subst hrest
      rw [close_last _ _ _ (by simp [hmissing])] at hfirst
      simpa [encodeAll, replies] using hfirst
    · have hlength := List.length_pos_iff.2 hrest
      rw [close_more _ _ _ (by omega)] at hfirst
      have hlater := reads_encodeAll rest ⟨a.missing - 1, v.reply :: a.items⟩ outer hrest
        (by simp [hmissing]) (by omega) (by omega)
      simpa [encodeAll, replies, given] using hfirst.trans hlater

end

/-! ## Arrays that lie too deep -/

theorem refuses_array {arrays : List OpenArray} (h : maxDepth ≤ arrays.length) :
    Refuses ⟨arrays, .marker⟩ 42 :=
  ⟨rfl, fun _ hm => ⟨(Option.some.inj hm).symm, h⟩⟩

theorem refuses_digit (arrays : List OpenArray) {b : UInt8}
    (h : 48 ≤ b.toNat ∧ b.toNat ≤ 57) : Refuses ⟨arrays, .marker⟩ b := by
  refine ⟨rfl, fun m hm => ?_⟩
  have hne (k : UInt8) (hk : k.toNat < 48 ∨ 57 < k.toNat) : b ≠ k := by
    rintro rfl
    omega
  rw [Marker.ofByte?, if_neg (hne _ (by decide)), if_neg (hne _ (by decide)),
    if_neg (hne _ (by decide)), if_neg (hne _ (by decide)), if_neg (hne _ (by decide))] at hm
  cases hm

/-- The bytes lead to the type byte of an array that may not stand there. Its length follows. -/
def LeadsTooDeep (d : Decoder) (bytes : Bytes) : Prop :=
  ∃ front c x after d', bytes = front ++ 42 :: c :: x :: after ∧ Reads d front [] d' ∧
    d'.Refuses 42 ∧ d'.Refuses c

theorem LeadsTooDeep.append {d : Decoder} {bytes : Bytes} (h : LeadsTooDeep d bytes)
    (rest : Bytes) : LeadsTooDeep d (bytes ++ rest) := by
  obtain ⟨front, c, x, after, d', rfl, hreads, harray, hdigit⟩ := h
  exact ⟨front, c, x, after ++ rest, d', by simp, hreads, harray, hdigit⟩

theorem LeadsTooDeep.behind {d d' : Decoder} {front bytes : Bytes} (hfront : Reads d front [] d')
    (h : LeadsTooDeep d' bytes) : LeadsTooDeep d (front ++ bytes) := by
  obtain ⟨front', c, x, after, d'', rfl, hreads, harray, hdigit⟩ := h
  exact ⟨front ++ front', c, x, after, d'', by simp, hfront.trans hreads, harray, hdigit⟩

mutual

theorem leadsTooDeep (v : WireReply) (arrays : List OpenArray) (hinside : arrays.length ≤ maxDepth)
    (hdepth : maxDepth < arrays.length + v.depth) (hsize : v.encode.length ≤ Bytes.maxLength) :
    LeadsTooDeep ⟨arrays, .marker⟩ v.encode := by
  cases v with
  | nil | int | bulk | simple | error =>
    simp only [depth] at hdepth
    omega
  | array items =>
    have hsize' := size_array hsize
    have hlength := Nat.le_trans (length_le_encodeAll items) hsize'
    -- Either this array lies too deep, or one of its elements does.
    by_cases hfull : maxDepth ≤ arrays.length
    · obtain ⟨c, more, hdigits⟩ := List.exists_cons_of_ne_nil (Decimal.digits_ne_nil items.length)
      have hc : 48 ≤ c.toNat ∧ c.toNat ≤ 57 :=
        Decimal.isDigit_of_mem_digits (hdigits ▸ List.mem_cons_self)
      obtain ⟨x, after, htail⟩ :=
        List.exists_cons_of_ne_nil (show more ++ [13, 10] ++ encodeAll items ≠ [] by simp)
      refine ⟨[], c, x, after, _, ?_, .nothing _, refuses_array hfull, refuses_digit arrays hc⟩
      rw [← htail]
      simp [encode, encodeLine, hdigits]
    · have hline := reads_array_line (Nat.not_le.1 hfull) hlength
      have hdepth' : maxDepth < arrays.length + 1 + depthOf items := by
        simp only [depth] at hdepth
        omega
      have hitems : items.length ≠ 0 := by
        intro hzero
        obtain rfl := List.eq_nil_of_length_eq_zero hzero
        simp only [depthOf] at hdepth'
        omega
      rw [if_neg hitems] at hline
      exact .behind hline
        (leadsTooDeepAll items ⟨items.length, []⟩ arrays rfl (by omega) hdepth' hsize')

theorem leadsTooDeepAll (items : List WireReply) (a : OpenArray) (outer : List OpenArray)
    (hmissing : a.missing = items.length) (hinside : outer.length + 1 ≤ maxDepth)
    (hdepth : maxDepth < outer.length + 1 + depthOf items)
    (hsize : (encodeAll items).length ≤ Bytes.maxLength) :
    LeadsTooDeep ⟨a :: outer, .marker⟩ (encodeAll items) := by
  cases items with
  | nil =>
    simp only [depthOf] at hdepth
    omega
  | cons v rest =>
    simp only [depthOf, encodeAll, List.length_append, List.length_cons] at hdepth hsize hmissing
    -- What stands before the first element that lies too deep is read as usual.
    by_cases hfirst : maxDepth < outer.length + 1 + v.depth
    · exact (leadsTooDeep v (a :: outer) (by simpa using hinside) (by simpa using hfirst)
        (by omega)).append _
    · have hlater : maxDepth < outer.length + 1 + depthOf rest := by omega
      have hlength : rest.length ≠ 0 := by
        intro hzero
        obtain rfl := List.eq_nil_of_length_eq_zero hzero
        simp only [depthOf] at hlater
        omega
      have hreads := reads_encode v (a :: outer) (by simp only [List.length_cons]; omega)
        (by omega)
      rw [close_more _ _ _ (by omega)] at hreads
      exact .behind hreads (leadsTooDeepAll rest _ outer (by simp [hmissing]) hinside hlater
        (by omega))

end

end Decoder

/-! ## Error lines -/

namespace ServerError

theorem code_of_ofCode {code : String} {kind : ServerErrorKind}
    (h : ServerErrorKind.ofCode? code = some kind) : kind.code = code := by
  simpa using List.find?_some h

theorem code_ofLine (line : String) :
    (ofLine line).code = String.ofList (line.toList.takeWhile (· ≠ ' ')) := by
  simp only [ofLine]
  cases hkind : ServerErrorKind.ofCode? (String.ofList (line.toList.takeWhile (· ≠ ' '))) with
  | none => rfl
  | some kind => exact code_of_ofCode hkind

theorem detail?_ofLine (line : String) :
    (ofLine line).detail? =
      match line.toList.dropWhile (· ≠ ' ') with
      | [] => none
      | _ :: rest => some (String.ofList rest) := by
  simp only [ofLine]
  cases ServerErrorKind.ofCode? (String.ofList (line.toList.takeWhile (· ≠ ' '))) <;> rfl

theorem line_ofLine (line : String) : (ofLine line).line = line := by
  have hsplit := List.takeWhile_append_dropWhile (p := (· ≠ ' ')) (l := line.toList)
  rw [ServerError.line, detail?_ofLine, code_ofLine]
  cases hdrop : line.toList.dropWhile (· ≠ ' ') with
  | nil =>
    rw [hdrop, List.append_nil] at hsplit
    simp only [hsplit, String.ofList_toList]
  | cons c rest =>
    have hblank : c = ' ' := by
      have hhead := List.head?_dropWhile_not (· ≠ ' ') line.toList
      rw [hdrop] at hhead
      simpa using hhead
    rw [hdrop, hblank] at hsplit
    apply String.toList_injective
    simpa using hsplit

end ServerError

/-! ## One reply of a byte string -/

namespace WireReply

open Decoder ReplyReader

variable {v : WireReply}

theorem reads (hdepth : v.depth ≤ maxDepth) (hsize : v.encode.length ≤ Bytes.maxLength) :
    Reads .start v.encode [v.reply] .start :=
  reads_encode v [] (by simpa using hdepth) hsize

theorem read_append (hdepth : v.depth ≤ maxDepth) (hsize : v.encode.length ≤ Bytes.maxLength)
    (rest : Bytes) :
    ∃ r, (ofChunks [v.encode ++ rest]).read = (.ok v.reply, r) ∧ r.decoder = .start ∧
      r.unread = rest := by
  have hnext : (ofChunks [v.encode ++ rest]).ahead = .reply v.reply rest := by
    rw [ahead_ofChunks, List.flatten_singleton]
    exact (reads hdepth hsize).next_one true rest
  obtain ⟨r, hread, hstart, hrest, -⟩ := read_of_ahead_reply hnext
  exact ⟨r, hread, hstart, hrest⟩

theorem parse_part (hdepth : v.depth ≤ maxDepth) (hsize : v.encode.length ≤ Bytes.maxLength)
    {part : Bytes} (hpart : part <+: v.encode) (hne : part ≠ v.encode) :
    Reply.parse part = .error (.io .unexpectedEof none) := by
  obtain ⟨missing, hall⟩ := hpart
  have hmissing : missing ≠ [] := by
    rintro rfl
    exact hne (by simpa using hall)
  obtain ⟨d, rest, hnext⟩ := Reads.next_part (hall ▸ reads hdepth hsize) hmissing
  exact read_of_ahead_waiting (by rw [ahead_ofChunks, List.flatten_singleton, hnext])

theorem parse_too_deep (hdepth : maxDepth < v.depth) (hsize : v.encode.length ≤ Bytes.maxLength)
    (rest : Bytes) : Reply.parse (v.encode ++ rest) = .error .malformedReply := by
  have hdeep := (leadsTooDeep v [] (Nat.zero_le _) (by simpa using hdepth) hsize).append rest
  obtain ⟨front, c, x, after, d, hall, hreads, harray, hdigit⟩ := hdeep
  exact read_refused (fromOneChunk_ofChunks _) hreads harray hdigit
    (by rw [unread_ofChunks, List.flatten_singleton, hall])

/-- **A written reply is read back, and no more than it.** Whatever stands behind it waits as it
is, and any part of it that is not the whole is too short. Arrays more than 100 deep are refused. -/
theorem read_back (v : WireReply) (hsize : v.encode.length ≤ Bytes.maxLength) :
    (v.depth ≤ 100 →
      (∀ rest, Reply.parse (v.encode ++ rest) = .ok v.reply ∧
        (ofChunks [v.encode ++ rest]).read.2.decoder = .start ∧
        (ofChunks [v.encode ++ rest]).read.2.unread = rest) ∧
      ∀ part, part <+: v.encode → part ≠ v.encode →
        Reply.parse part = .error (.io .unexpectedEof none)) ∧
    (101 ≤ v.depth →
      ∀ rest, ∃ f, Reply.parse (v.encode ++ rest) = .error f ∧ f.kind = .parse) ∧
    ∀ line, ∃ e, (WireReply.error line).reply = .error e ∧ e.line = line.text := by
  refine ⟨fun hdepth => ⟨fun rest => ?_, fun part hpart hne => ?_⟩, fun hdepth rest => ?_,
    fun line => ?_⟩
  · obtain ⟨r, hread, hstart, hrest⟩ := read_append hdepth hsize rest
    rw [Reply.parse, hread]
    exact ⟨rfl, hstart, hrest⟩
  · exact parse_part hdepth hsize hpart hne
  · exact ⟨_, parse_too_deep hdepth hsize rest, rfl⟩
  · exact ⟨_, rfl, ServerError.line_ofLine line.text⟩

/-- Arrays, one inside the other. -/
def nested : Nat → WireReply
  | 0 => nil
  | n + 1 => array [nested n]

/-- A reply of every form: a body that looks like one itself, and a line that ends in a CR. -/
def mixed : WireReply :=
  .array [.nil, .int (-7), .bulk [43, 13, 10], .simple ⟨"OK", by decide +kernel⟩,
    .simple ⟨"ok\r", by decide +kernel⟩, .error ⟨"MOVED 1 a:1", by decide +kernel⟩, .array []]

theorem read_back_mixed :
    Reply.parse (mixed.encode ++ [63]) =
      .ok (.array [.nil, .int (-7), .bulk [43, 13, 10], .okay, .simple "ok\r",
        .error (.known .moved (some "1 a:1")), .array []]) ∧
    Reply.parse (mixed.encode.take 17) = .error (.io .unexpectedEof none) ∧
    ∃ f, Reply.parse (nested 101).encode = .error f ∧ f.kind = .parse := by
  obtain ⟨hshallow, -, -⟩ := read_back mixed (by decide +kernel)
  obtain ⟨hwhole, hpart⟩ := hshallow (by decide +kernel)
  obtain ⟨-, hdeep, -⟩ := read_back (nested 101) (by decide +kernel)
  refine ⟨(hwhole [63]).1.trans (by rfl), ?_, ?_⟩
  · exact hpart _ (List.take_prefix _ _) (by decide +kernel)
  · simpa using hdeep (by decide +kernel) []

end WireReply

end SlotCluster
