import SlotCluster.Proofs.WireForm

/-!
# Input in chunks

Bytes that come in chunks are decoded as if they had come at once, but for one thing: a type byte
that cannot stand there is only noticed together with the byte behind it. If a chunk ends with it,
the decoder drops it, and reads on as if it had never come.
-/

namespace SlotCluster

namespace Decoder

/-! ## All bytes at once -/

/-- What the bytes give when all of them are there: every reply, and then the fault that stops the
decoder. If there is none, `atEnd` follows. -/
def results (atEnd : List (Except Fault Reply)) (d : Decoder) (bytes : Bytes) :
    List (Except Fault Reply) :=
  match d.drain bytes with
  | (replies, .waiting _ _) => replies.map .ok ++ atEnd
  | (replies, .failed f) => replies.map .ok ++ [.error f]

/-- The bytes hold something that no decoder accepts. -/
def Fails (d : Decoder) (bytes : Bytes) : Prop :=
  ∃ replies, d.drain bytes = (replies, .failed .malformedReply)

theorem drain_eq_next (d : Decoder) (bytes : Bytes) :
    d.drain bytes =
      match d.next true bytes with
      | .reply v rest => (v :: (drain start rest).1, (drain start rest).2)
      | .waiting d' rest => ([], .waiting d' rest)
      | .failed f => ([], .failed f) := by
  fun_induction drain d bytes with
  | case1 d bytes d' rest hstep => rw [next_of_wait hstep]
  | case2 d bytes d' rest hstep ih => rw [next_of_goOn hstep, ih]
  | case3 d bytes r rest hstep replies stop hdrain => simp only [next_of_done hstep, hdrain]
  | case4 d bytes f hstep => rw [next_of_fail hstep]

theorem results_eq_next (atEnd : List (Except Fault Reply)) (d : Decoder) (bytes : Bytes) :
    results atEnd d bytes =
      match d.next true bytes with
      | .reply v rest => .ok v :: results atEnd start rest
      | .waiting _ _ => atEnd
      | .failed f => [.error f] := by
  rw [results, drain_eq_next]
  cases hnext : d.next true bytes with
  | reply v rest =>
    simp only [results]
    obtain ⟨later, stop⟩ := drain start rest
    cases stop <;> rfl
  | waiting | failed => rfl

theorem Reads.results {d d' : Decoder} {front : Bytes} {replies : List Reply}
    (h : Reads d front replies d') (atEnd : List (Except Fault Reply)) (rest : Bytes) :
    results atEnd d (front ++ rest) = replies.map .ok ++ Decoder.results atEnd d' rest := by
  rw [Decoder.results, h.drain, Decoder.results]
  obtain ⟨later, stop⟩ := Decoder.drain d' rest
  cases stop <;> simp

theorem results_nil (atEnd : List (Except Fault Reply)) : results atEnd start [] = atEnd := by
  rw [results, drain_of_wait rfl]
  rfl

theorem drain_refused {d d' : Decoder} {front after : Bytes} {b : UInt8} {replies : List Reply}
    (h : Reads d front replies d') (hb : d'.Refuses b) (hafter : after ≠ []) :
    d.drain (front ++ [b] ++ after) = (replies, .failed .malformedReply) := by
  have hfail : step true d' (b :: after) = .fail .malformedReply := by
    simp [step_refused hb, hafter]
  rw [List.append_assoc, h.drain, List.singleton_append, drain_of_fail hfail, List.append_nil]

theorem EndsRefused.fails {d : Decoder} {bytes after : Bytes} (h : EndsRefused d bytes)
    (hafter : after ≠ []) : Fails d (bytes ++ after) := by
  obtain ⟨front, b, replies, d', rfl, hreads, hb⟩ := h
  exact ⟨replies, drain_refused hreads hb hafter⟩

theorem Fails.of_waiting {d d' : Decoder} {held rest after : Bytes}
    (hnext : d.next true held = .waiting d' rest) (h : Fails d' (rest ++ after)) :
    Fails d (held ++ after) := by
  cases look d held with
  | reply v rest' hlook =>
    have hnow := hlook []
    simp [hnext] at hnow
  | failed f hlook =>
    have hnow := hlook []
    simp [hnext] at hnow
  | waiting d'' rest' hnow hlook =>
    obtain ⟨rfl, rfl⟩ : d' = d'' ∧ rest = rest' := by simpa [hnow] using hnext.symm
    obtain ⟨replies, hdrain⟩ := h
    exact ⟨replies, by rw [drain_eq_next, hlook, ← drain_eq_next, hdrain]⟩
  | dropped front b d'' hheld hreads hb =>
    subst hheld
    rw [next_dropped hreads hb] at hnext
    cases hnext
    have hafter : after ≠ [] := by
      rintro rfl
      obtain ⟨replies, hdrain⟩ := h
      rw [List.append_nil, drain_of_wait (hb.step_nil true)] at hdrain
      cases hdrain
    exact ⟨[], drain_refused hreads hb hafter⟩

theorem Fails.of_reply {d : Decoder} {held rest after : Bytes} {v : Reply}
    (hnext : d.next true held = .reply v rest) (h : Fails .start (rest ++ after)) :
    Fails d (held ++ after) := by
  have hall : d.next true (held ++ after) = .reply v (rest ++ after) := by
    cases look d held with
    | reply v' rest' hlook =>
      have hnow := hlook []
      simp only [List.append_nil, hnext, Outcome.reply.injEq] at hnow
      rw [hlook, hnow.1, hnow.2]
    | failed f hlook =>
      have hnow := hlook []
      simp [hnext] at hnow
    | waiting d' rest' hnow => simp [hnext] at hnow
    | dropped front b d' hheld hreads hb => simp [hheld, next_dropped hreads hb] at hnext
  obtain ⟨replies, hdrain⟩ := h
  exact ⟨v :: replies, by rw [drain_eq_next, hall]; simp only [hdrain]⟩

theorem Reads.not_fails {bytes : Bytes} {replies : List Reply}
    (h : Reads .start bytes replies .start) : ¬ Fails .start bytes := by
  rintro ⟨replies', hfails⟩
  have hdrain := h.drain []
  rw [List.append_nil, hfails, drain_of_wait rfl] at hdrain
  cases hdrain

/-! ## Decoding each chunk as it comes -/

/-- No chunk ends with a type byte that cannot stand there, unless it was the last byte of all. -/
def CleanCuts (d : Decoder) (held : Bytes) (chunks : List Bytes) : Prop :=
  ∀ before after, chunks = before ++ after → after.flatten ≠ [] →
    ¬ EndsRefused d (held ++ before.flatten)

theorem cleanCuts_of_not_fails {d : Decoder} {held : Bytes} {chunks : List Bytes}
    (h : ¬ Fails d (held ++ chunks.flatten)) : CleanCuts d held chunks := by
  rintro before after rfl hafter hends
  rw [List.flatten_append, ← List.append_assoc] at h
  exact h (hends.fails hafter)

theorem cleanCuts_of_empty (d : Decoder) (held : Bytes) {chunks : List Bytes}
    (h : chunks.flatten = []) : CleanCuts d held chunks := by
  rintro before after rfl hafter
  rw [List.flatten_append] at h
  exact absurd (List.append_eq_nil_iff.1 h).2 hafter

theorem cleanCuts_singleton (bytes : Bytes) : CleanCuts .start [] [bytes] := by
  rintro before after hall hafter ⟨front, b, replies, d, hends, -⟩
  -- The only cut is in front of everything.
  cases before with
  | nil => simp at hends
  | cons chunk before =>
    obtain ⟨-, rfl⟩ := List.append_eq_nil_iff.1 (List.cons.inj hall).2.symm
    exact hafter rfl

theorem CleanCuts.later {d d' : Decoder} {held chunk front back : Bytes} {chunks : List Bytes}
    {replies : List Reply} (h : CleanCuts d held (chunk :: chunks))
    (hreads : Reads d front replies d') (hall : held ++ chunk = front ++ back) :
    CleanCuts d' back chunks := by
  rintro before after rfl hafter ⟨front', b, replies', d₁, hends, hreads', hb⟩
  refine h (chunk :: before) after rfl hafter ⟨front ++ front', b, _, d₁, ?_,
    hreads.trans hreads', hb⟩
  rw [List.flatten_cons, ← List.append_assoc, hall, List.append_assoc, hends, List.append_assoc]

theorem feed_waiting {d d' : Decoder} {held chunk back : Bytes} {replies : List Reply}
    (h : d.drain (held ++ chunk) = (replies, .waiting d' back)) (chunks : List Bytes) :
    (feed false d held (chunk :: chunks)).flatten =
      replies.map .ok ++ (feed false d' back chunks).flatten := by
  rw [feed, h]
  rfl

theorem feed_failed {d : Decoder} {held chunk : Bytes} {replies : List Reply} {f : Fault}
    (h : d.drain (held ++ chunk) = (replies, .failed f)) (chunks : List Bytes) :
    (feed false d held (chunk :: chunks)).flatten = replies.map .ok ++ [.error f] := by
  rw [feed, h]
  exact List.append_nil _

theorem feed_append {d : Decoder} {held : Bytes} {before : List Bytes}
    (hheld : step true d held = .wait d held) (hclean : CleanCuts d held before)
    (after : List Bytes) :
    (feed false d held (before ++ after)).flatten =
      match d.drain (held ++ before.flatten) with
      | (replies, .waiting d' back) => replies.map .ok ++ (feed false d' back after).flatten
      | (replies, .failed f) => replies.map .ok ++ [.error f] := by
  induction before generalizing d held with
  | nil => rw [List.flatten_nil, List.append_nil, drain_of_wait hheld]; rfl
  | cons chunk chunks ih =>
    obtain ⟨front, back, replies, d', hall, hreads, hstuck⟩ := reads_until_stuck d (held ++ chunk)
    have hlater := hclean.later hreads hall
    have hchunk : d.drain (held ++ chunk) =
        (replies ++ (drain d' back).1, (drain d' back).2) := hall ▸ hreads.drain back
    rw [List.cons_append, List.flatten_cons, ← List.append_assoc, hall, List.append_assoc,
      hreads.drain]
    -- Behind the pieces of this chunk the decoder waits, fails for good, or drops a byte.
    rcases hstuck.while_more with hwait | hfail | ⟨b, rfl, hb⟩
    · rw [drain_of_wait hwait, List.append_nil] at hchunk
      rw [feed_waiting hchunk, ih hwait hlater]
      obtain ⟨later, stop⟩ := drain d' (back ++ chunks.flatten)
      cases stop <;> simp
    · have hnow := hfail []
      rw [List.append_nil] at hnow
      rw [drain_of_fail hnow, List.append_nil] at hchunk
      rw [feed_failed hchunk, drain_of_fail (hfail _), List.append_nil]
    · -- The last byte is dropped, and nothing but empty chunks may follow.
      have hempty : chunks.flatten = [] := by
        by_cases h : chunks.flatten = []
        · exact h
        · refine absurd ⟨front, b, replies, d', ?_, hreads, hb⟩ (hclean [chunk] chunks rfl h)
          simpa using hall
      have hdrop : step true d' [b] = .wait d' [] := by simp [step_refused hb]
      have hrest := ih (hb.step_nil true) (cleanCuts_of_empty d' [] hempty)
      rw [hempty, List.append_nil, drain_of_wait (hb.step_nil true)] at hrest
      rw [drain_of_wait hdrop, List.append_nil] at hchunk
      rw [feed_waiting hchunk, hrest, hempty, List.append_nil, drain_of_wait hdrop, List.append_nil]
      rfl

theorem feed_eq_results {chunks : List Bytes} (h : CleanCuts .start [] chunks) :
    (feed false .start [] chunks).flatten = results [] .start chunks.flatten := by
  have hfeed := feed_append (d := .start) rfl h []
  rw [List.append_nil, List.nil_append] at hfeed
  rw [hfeed, results]
  obtain ⟨replies, stop⟩ := drain start chunks.flatten
  cases stop <;> rfl

theorem feed_behind_dropped {before : List Bytes} {front : Bytes} {b : UInt8}
    {replies : List Reply} {d : Decoder} (hclean : CleanCuts .start [] before)
    (hends : before.flatten = front ++ [b]) (hreads : Reads .start front replies d)
    (hb : d.Refuses b) (after : List Bytes) :
    (feed false .start [] (before ++ after)).flatten =
      replies.map .ok ++ (feed false d [] after).flatten := by
  have hdrop : step true d [b] = .wait d [] := by simp [step_refused hb]
  rw [feed_append rfl hclean, List.nil_append, hends, hreads.drain, drain_of_wait hdrop,
    List.append_nil]

end Decoder

/-! ## Reading in blocks -/

namespace ReplyReader

open Decoder

theorem Comes.fails {r r' : ReplyReader} (h : Comes r r') (hfails : Fails r'.decoder r'.unread) :
    Fails r.decoder r.unread := by
  induction h with
  | here => exact hfails
  | @takesIn r r' d rest chunk chunks hnext hchunks _ ih =>
    have hlater := ih hfails
    rw [unread_takeIn, ← hchunks] at hlater
    exact .of_waiting hnext hlater
  | gives hnext _ ih => exact .of_reply hnext (ih hfails)

theorem Drops.fails {r : ReplyReader} (h : Drops r) : Fails r.decoder r.unread := by
  obtain ⟨r', hcomes, hends, hmore⟩ := h
  exact hcomes.fails (hends.fails hmore)

/-- What a reader says when nothing is left. -/
def endOfInput : Except Fault Reply := .error (.io .unexpectedEof none)

theorem readMany_of_error {r : ReplyReader} {f : Fault} (h : r.read.1 = .error f) (n : Nat) :
    r.readMany (n + 1) = [.error f] := by
  rw [readMany]
  split
  · next hok =>
    rw [hok] at h
    cases h
  · next herror =>
    rw [herror] at h
    cases h
    rfl

/-- A reader that drops nothing reads what its bytes give at once. -/
theorem readMany_eq_results {r : ReplyReader} (h : ¬ Drops r) (n : Nat) :
    r.readMany n = (results [endOfInput] r.decoder r.unread).take n := by
  induction n generalizing r with
  | zero => rfl
  | succ n ih =>
    have hr := (agrees_or_drops r).resolve_right fun hdrops => h hdrops.1
    rw [results_eq_next, ← ahead]
    unfold Agrees at hr
    cases hahead : r.ahead with
    | reply v rest =>
      simp only [hahead] at hr
      obtain ⟨r', hread, hstart, hrest, hcomes⟩ := hr
      have hlater : ¬ Drops r' := by
        rintro ⟨r'', hcomes', hdrops⟩
        exact h ⟨r'', hcomes.trans hcomes', hdrops⟩
      rw [readMany, hread, List.take_succ_cons, ← hrest, ← hstart, ← ih hlater]
    | waiting | failed =>
      simp only [hahead] at hr
      simp [readMany_of_error hr, endOfInput]

end ReplyReader

/-! ## All ways to cut the bytes -/

namespace Decoder

open ReplyReader

theorem reads_values {values : List (Bytes × Reply)}
    (h : ∀ v ∈ values, Reply.parseAll v.1 = .ok [v.2]) :
    Reads .start (values.map (·.1)).flatten (values.map (·.2)) .start := by
  induction values with
  | nil => exact .nothing _
  | cons v rest ih =>
    have hfirst := Reply.parseAll_eq_ok_iff.1 (h v List.mem_cons_self)
    exact hfirst.trans (ih fun v' hv => h v' (List.mem_cons_of_mem _ hv))

/-- **Chunks make no difference, but for dropped bytes.** Fed to a decoder or read one by one, they
give what their bytes give at once, if no chunk and no block ends with a type byte that cannot stand
there. So it is with all bytes that no decoder refuses, and complete values are read as `parseAll`
reads them. Where a chunk does end with such a byte, the byte is dropped and the rest is decoded as
if it had never come, though all bytes at once are refused there. -/
theorem chunks_unless_dropped (chunks : List Bytes) :
    (CleanCuts .start [] chunks →
      (feed false .start [] chunks).flatten = results [] .start chunks.flatten) ∧
    (¬ Drops (ofChunks chunks) → ∀ n, (ofChunks chunks).readMany n =
      (results [endOfInput] .start chunks.flatten).take n) ∧
    (¬ Fails .start chunks.flatten → CleanCuts .start [] chunks ∧ ¬ Drops (ofChunks chunks)) ∧
    (∀ values : List (Bytes × Reply), (∀ v ∈ values, Reply.parseAll v.1 = .ok [v.2]) →
      chunks.flatten = (values.map (·.1)).flatten →
        let all : List (Except Fault Reply) := values.map fun v => .ok v.2
        Reply.parseAll chunks.flatten = .ok (values.map (·.2)) ∧
        (feed false .start [] chunks).flatten = all ∧
        ∀ n, (ofChunks chunks).readMany n = (all ++ [endOfInput]).take n) ∧
    ∀ before after front b replies d, chunks = before ++ after → CleanCuts .start [] before →
      before.flatten = front ++ [b] → Reads .start front replies d → d.Refuses b →
      after.flatten ≠ [] →
        (feed false .start [] chunks).flatten = replies.map .ok ++ (feed false d [] after).flatten ∧
        (feed false .start [] [chunks.flatten]).flatten =
          replies.map .ok ++ [.error .malformedReply] := by
  refine ⟨feed_eq_results, fun h => readMany_eq_results h,
    fun h => ⟨cleanCuts_of_not_fails h, fun hdrops => h hdrops.fails⟩,
    fun values hvalues hall => ?_, ?_⟩
  · have hreads := hall ▸ reads_values hvalues
    have hresults (atEnd : List (Except Fault Reply)) :
        results atEnd .start chunks.flatten = (values.map fun v => .ok v.2) ++ atEnd := by
      simpa [results_nil, Function.comp_def] using hreads.results atEnd []
    refine ⟨Reply.parseAll_eq_ok_iff.2 hreads, ?_, fun n => ?_⟩
    · rw [feed_eq_results (cleanCuts_of_not_fails hreads.not_fails), hresults, List.append_nil]
    · rw [← hresults]
      have hkeeps : ¬ Drops (ofChunks chunks) := fun hdrops => hreads.not_fails hdrops.fails
      exact readMany_eq_results hkeeps n
  · rintro before after front b replies d rfl hclean hends hreads hb hafter
    have hrefused := drain_refused hreads hb hafter
    rw [← hends, ← List.flatten_append] at hrefused
    refine ⟨feed_behind_dropped hclean hends hreads hb after, ?_⟩
    rw [feed_eq_results (cleanCuts_singleton _), List.flatten_singleton, results, hrefused]

/-- A body in two chunks. And a byte that no reply begins with, once at the end of a chunk and once
together with what follows. -/
theorem chunks_unless_dropped_question :
    let cut : List Bytes := [[36, 49, 13], [10, 97, 13, 10]]
    (feed false .start [] cut).flatten = results [] .start cut.flatten ∧
    (ofChunks cut).readMany 2 = (results [endOfInput] .start cut.flatten).take 2 ∧
    (feed false .start [] cut).flatten = [.ok (.bulk [97])] ∧
    (feed false .start [] [[63], [43, 97, 13, 10]]).flatten = [.ok (.simple "a")] ∧
    (feed false .start [] [[63, 43, 97, 13, 10]]).flatten = [.error .malformedReply] := by
  intro cut
  have hbulk : Reads .start cut.flatten [.bulk [97]] .start := by
    have hread := WireReply.reads (v := .bulk [97]) (by decide) (by decide +kernel)
    rwa [show (WireReply.bulk [97]).encode = cut.flatten by decide +kernel] at hread
  have hsimple : Reads .start [43, 97, 13, 10] [.simple "a"] .start :=
    reads_line [] 43 rfl (by simp) (unbroken_of_no_cr (by decide)) (afterLine_simple [] "a")
  obtain ⟨hfed, hread, hwell, hvalues, -⟩ := chunks_unless_dropped cut
  obtain ⟨hclean, hkeeps⟩ := hwell hbulk.not_fails
  obtain ⟨-, hbody, -⟩ := hvalues [(cut.flatten, .bulk [97])]
    (by simpa using Reply.parseAll_eq_ok_iff.2 hbulk) (by simp)
  obtain ⟨-, hlater, -⟩ := (chunks_unless_dropped [[43, 97, 13, 10]]).2.2.2.1
    [([43, 97, 13, 10], .simple "a")] (by simpa using Reply.parseAll_eq_ok_iff.2 hsimple) rfl
  have hrefuses : Refuses .start 63 := ⟨rfl, fun m hm => by cases hm⟩
  obtain ⟨hdropped, hrefused⟩ := (chunks_unless_dropped [[63], [43, 97, 13, 10]]).2.2.2.2
    [[63]] [[43, 97, 13, 10]] [] 63 [] .start rfl (cleanCuts_singleton _) rfl (.nothing _) hrefuses
    (List.cons_ne_nil _ _)
  exact ⟨hfed hclean, hread hkeeps 2, hbody, hdropped.trans hlater, hrefused⟩

end Decoder

end SlotCluster
