import SlotCluster.Reply.Decoder

/-!
# Numerals

A number that was written in decimal is read back as itself, also from a line of a reply: its
bytes are ASCII, and none of them is a blank.
-/

namespace SlotCluster

/-! ## Text -/

namespace Bytes

theorem text?_ofText (s : String) : (ofText s).text? = some s := by
  have hdata : (ofText s).toByteArray = s.toByteArray :=
    ByteArray.ext (by simp [ofText, List.data_toByteArray])
  simp only [text?, hdata, String.fromUTF8?, s.isValidUTF8, dite_true]
  rfl

theorem ofText_ofList (cs : List Char) :
    ofText (String.ofList cs) = cs.flatMap String.utf8EncodeChar := by
  simp [ofText, List.utf8Encode, List.data_toByteArray]

/-- The characters that ASCII bytes are. -/
def chars (b : Bytes) : List Char := b.map fun x => Char.ofNat x.toNat

theorem toNat_ofNat {n : Nat} (h : n < 128) : (Char.ofNat n).toNat = n := by
  have hvalid : n.isValidChar := .inl (by omega)
  unfold Char.ofNat
  rw [dif_pos hvalid]
  rfl

theorem encode_char {x : UInt8} (h : x < 128) :
    String.utf8EncodeChar (Char.ofNat x.toNat) = [x] := by
  have hx : x.toNat < 128 := h
  have hval : (Char.ofNat x.toNat).val.toNat = x.toNat := toNat_ofNat hx
  simp only [String.utf8EncodeChar, hval, if_pos (show x.toNat ≤ 127 by omega), UInt8.ofNat_toNat]

theorem ofText_chars {b : Bytes} (h : ∀ x ∈ b, x < 128) : ofText (String.ofList b.chars) = b := by
  rw [ofText_ofList]
  induction b with
  | nil => rfl
  | cons x rest ih =>
    have hrest := ih fun y hy => h y (List.mem_cons_of_mem _ hy)
    simp only [chars, List.map_cons, List.flatMap_cons, encode_char (h x List.mem_cons_self)]
      at hrest ⊢
    rw [hrest]
    rfl

end Bytes

/-! ## Writing and reading -/

namespace Decimal

theorem digit?_digitByte {d : Nat} (h : d < 10) : digit? (digitByte d) = some d := by
  have hbyte : (digitByte d).toNat = 48 + d := by
    simp only [digitByte, UInt8.toNat_ofNat']
    omega
  have hrange : 48 ≤ digitByte d ∧ digitByte d ≤ 57 := by
    constructor
    · show 48 ≤ (digitByte d).toNat
      omega
    · show (digitByte d).toNat ≤ 57
      omega
  simp only [digit?, if_pos hrange, hbyte, Nat.add_sub_cancel_left]

theorem readDigits_append (max acc : Nat) (front back : Bytes) :
    readDigits max acc (front ++ back) =
      (readDigits max acc front).bind fun n => readDigits max n back := by
  induction front generalizing acc with
  | nil => rfl
  | cons b rest ih =>
    simp only [List.cons_append, readDigits]
    cases digit? b with
    | none => rfl
    | some d =>
      simp only
      split
      · rfl
      · exact ih _

theorem readDigits_digits {max n : Nat} (h : n ≤ max) : readDigits max 0 (digits n) = .ok n := by
  induction n using Nat.strongRecOn with
  | _ n ih =>
    rw [digits]
    split
    · rename_i hn
      simp only [readDigits, digit?_digitByte hn]
      rw [if_neg (by omega)]
      simp
    · have hfront := ih (n / 10) (by omega) (by omega)
      rw [readDigits_append, hfront]
      simp only [Except.bind, readDigits, digit?_digitByte (show n % 10 < 10 by omega)]
      rw [if_neg (by omega)]
      exact congrArg _ (by omega)

theorem digits_ne_nil (n : Nat) : digits n ≠ [] := by
  rw [digits]
  split <;> simp

theorem isDigit_of_mem_digits {n : Nat} {b : UInt8} (h : b ∈ digits n) :
    48 ≤ b.toNat ∧ b.toNat ≤ 57 := by
  have hbyte {d : Nat} (hd : d < 10) : 48 ≤ (digitByte d).toNat ∧ (digitByte d).toNat ≤ 57 := by
    simp only [digitByte, UInt8.toNat_ofNat']
    omega
  induction n using Nat.strongRecOn with
  | _ n ih =>
    rw [digits] at h
    split at h
    · rename_i hn
      rw [List.mem_singleton.1 h]
      exact hbyte hn
    · rcases List.mem_append.1 h with h | h
      · exact ih (n / 10) (by omega) h
      · rw [List.mem_singleton.1 h]
        exact hbyte (by omega)

theorem head?_digits {n : Nat} {b : UInt8} (h : (digits n).head? = some b) :
    48 ≤ b.toNat ∧ b.toNat ≤ 57 :=
  isDigit_of_mem_digits (List.mem_of_head? h)

theorem readUnsigned_digits {max n : Nat} (h : n ≤ max) :
    readUnsigned max (digits n) = .ok n := by
  have hplus : (digits n).head? ≠ some 43 := fun hp => absurd (head?_digits hp) (by decide)
  have hone : digits n ≠ [43] := fun hp => hplus (by rw [hp]; rfl)
  simp only [readUnsigned, List.isEmpty_iff, digits_ne_nil, hone, hplus, if_false]
  exact readDigits_digits h

theorem readSigned_ofInt {max : Nat} {i : Int} (hlow : -(max + 1 : Int) ≤ i) (hhigh : i ≤ max) :
    readSigned max (ofInt i) = .ok i := by
  unfold ofInt
  split
  · have hone : (45 :: digits i.natAbs) ≠ [45] := by simp [digits_ne_nil]
    simp only [readSigned, hone, if_false, List.head?_cons, if_true, List.tail_cons,
      readDigits_digits (show i.natAbs ≤ max + 1 by omega), Except.map]
    exact congrArg _ (by show -(i.natAbs : Int) = i; omega)
  · have hminus : (digits i.natAbs).head? ≠ some 45 :=
      fun hp => absurd (head?_digits hp) (by decide)
    have hone : digits i.natAbs ≠ [45] := fun hp => hminus (by rw [hp]; rfl)
    simp only [readSigned, hone, hminus, if_false,
      readUnsigned_digits (show i.natAbs ≤ max by omega), Except.map]
    exact congrArg _ (by show (i.natAbs : Int) = i; omega)

theorem mem_ofInt {i : Int} {b : UInt8} (h : b ∈ ofInt i) :
    b.toNat = 45 ∨ 48 ≤ b.toNat ∧ b.toNat ≤ 57 := by
  unfold ofInt at h
  split at h
  · rcases List.mem_cons.1 h with rfl | h
    · exact .inl rfl
    · exact .inr (isDigit_of_mem_digits h)
  · exact .inr (isDigit_of_mem_digits h)

theorem ofInt_natCast (n : Nat) : ofInt n = digits n := by
  simp only [ofInt, if_neg (show ¬ (n : Int) < 0 by omega), Int.natAbs_natCast]

theorem readInt64?_ofInt (n : Int64) : readInt64? (ofInt n.toInt) = some n := by
  have hread : readSigned 9223372036854775807 (ofInt n.toInt) = .ok n.toInt :=
    readSigned_ofInt (by have := n.le_toInt; simpa using this)
      (by have := n.toInt_lt; simp at this ⊢; omega)
  simp [readInt64?, hread, Except.toOption]

end Decimal

/-! ## Numbers in lines -/

namespace Decoder

theorem not_isBlank {b : UInt8} (h : b.toNat = 45 ∨ 48 ≤ b.toNat ∧ b.toNat ≤ 57) :
    Blank.isBlank (Char.ofNat b.toNat) = false := by
  have hchar : (Char.ofNat b.toNat).toNat = b.toNat := Bytes.toNat_ofNat (by omega)
  simp only [Blank.isBlank, Blank.ranges, List.any_cons, List.any_nil, hchar]
  simp
  omega

theorem trim_eq_self {s : List Char} (h : ∀ c ∈ s, Blank.isBlank c = false) :
    Blank.trim s = s := by
  have hdrop {t : List Char} (ht : ∀ c ∈ t, Blank.isBlank c = false) :
      t.dropWhile Blank.isBlank = t := by
    cases t with
    | nil => rfl
    | cons c rest => simp [ht c List.mem_cons_self]
  unfold Blank.trim
  rw [hdrop h, hdrop (fun c hc => h c (List.mem_reverse.1 hc)), List.reverse_reverse]

theorem text?_ofInt (n : Int64) :
    ∃ s, (Decimal.ofInt n.toInt).text? = some s ∧ readNumber? s = some n := by
  have hascii : ∀ x ∈ Decimal.ofInt n.toInt, x < 128 := fun x hx => by
    have := Decimal.mem_ofInt hx
    show x.toNat < 128
    omega
  have hback := Bytes.ofText_chars hascii
  refine ⟨String.ofList (Decimal.ofInt n.toInt).chars, ?_, ?_⟩
  · conv => lhs; rw [← hback]
    exact Bytes.text?_ofText _
  · have hblank : ∀ c ∈ (Decimal.ofInt n.toInt).chars, Blank.isBlank c = false := by
      intro c hc
      obtain ⟨x, hx, rfl⟩ := List.mem_map.1 hc
      exact not_isBlank (Decimal.mem_ofInt hx)
    rw [readNumber?, String.toList_ofList, trim_eq_self hblank, hback, Decimal.readInt64?_ofInt]

end Decoder

end SlotCluster
