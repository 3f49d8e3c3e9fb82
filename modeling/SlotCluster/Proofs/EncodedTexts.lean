import SlotCluster.Proofs.Numerals
import SlotCluster.Text.Utf8

/-!
# Encoded texts

The bytes of a text are read back as this text, also by the reader that takes any bytes: it reads
each character off its own bytes, whatever follows them, and so replaces none.
-/

namespace SlotCluster

namespace Utf8

/-! ## Bytes inside a character -/

/-- The bytes after the first one carry six bits each. -/
def tail (n : Nat) : UInt8 := UInt8.ofNat (n % 64 + 0x80)

theorem toNat_tail (n : Nat) : (tail n).toNat = n % 64 + 0x80 := by
  rw [tail, UInt8.toNat_ofNat']
  omega

variable {needed bits n : Nat} {low high : UInt8} (rest : Bytes)

theorem next_tail (hlow : low ≤ tail n) (hhigh : tail n ≤ high) :
    Open.next ⟨needed, low, high, bits⟩ (tail n) =
      if needed ≤ 1 then some (.inl (Char.ofNat (bits * 64 + n % 64)))
      else some (.inr ⟨needed - 1, 0x80, 0xBF, bits * 64 + n % 64⟩) := by
  rw [Open.next, if_pos ⟨hlow, hhigh⟩, toNat_tail, Nat.add_sub_cancel]

theorem readFrom_tail (hneeded : 1 < needed) (hlow : low ≤ tail n) (hhigh : tail n ≤ high) :
    readFrom (some ⟨needed, low, high, bits⟩) (tail n :: rest) =
      readFrom (some ⟨needed - 1, 0x80, 0xBF, bits * 64 + n % 64⟩) rest := by
  rw [readFrom, next_tail hlow hhigh, if_neg (by omega)]

theorem readFrom_last (hlow : low ≤ tail n) (hhigh : tail n ≤ high) :
    readFrom (some ⟨1, low, high, bits⟩) (tail n :: rest) =
      Char.ofNat (bits * 64 + n % 64) :: readFrom none rest := by
  rw [readFrom, next_tail hlow hhigh, if_pos (Nat.le_refl 1)]

theorem tail_mem (n : Nat) : 0x80 ≤ tail n ∧ tail n ≤ 0xBF := by
  rw [UInt8.le_iff_toNat_le, UInt8.le_iff_toNat_le, toNat_tail]
  simp
  omega

theorem readFrom_begin {b : UInt8} {o : Open} (h : begin b = ([], some o)) :
    readFrom none (b :: rest) = readFrom (some o) rest := by
  rw [readFrom, h]
  rfl

/-! ## First bytes -/

theorem begin_one {v : Nat} (h : v ≤ 0x7F) : begin (UInt8.ofNat v) = ([Char.ofNat v], none) := by
  have hb : (UInt8.ofNat v).toNat = v := UInt8.toNat_ofNat_of_lt' (by simp [UInt8.size]; omega)
  unfold begin
  rw [hb]
  exact if_pos (by omega)

theorem begin_two {v : Nat} (h : 0x80 ≤ v) (h' : v ≤ 0x7FF) :
    begin (UInt8.ofNat (v / 64 % 32 + 192)) = ([], some ⟨1, 0x80, 0xBF, v / 64⟩) := by
  have hb : (UInt8.ofNat (v / 64 % 32 + 192)).toNat = v / 64 + 192 := by
    rw [UInt8.toNat_ofNat']
    omega
  unfold begin
  simp only [hb]
  rw [if_neg (by omega), if_neg (by omega), if_pos (by omega), Nat.add_sub_cancel]

/-- After some first bytes, a second byte that is too low would make the form overlong, and one that
is too high would go beyond the characters. -/
theorem begin_three {v : Nat} (h : 0x800 ≤ v) (h' : v ≤ 0xFFFF) (hvalid : v.isValidChar) :
    ∃ low high, begin (UInt8.ofNat (v / 4096 % 16 + 224)) = ([], some ⟨2, low, high, v / 4096⟩) ∧
      low ≤ tail (v / 64) ∧ tail (v / 64) ≤ high := by
  have hb : (UInt8.ofNat (v / 4096 % 16 + 224)).toNat = v / 4096 + 224 := by
    rw [UInt8.toNat_ofNat']
    omega
  simp only [UInt8.le_iff_toNat_le, toNat_tail]
  unfold begin
  simp only [hb]
  rw [if_neg (by omega), if_neg (by omega), if_neg (by omega)]
  by_cases hE0 : v / 4096 = 0
  · refine ⟨0xA0, 0xBF, by simp [hE0], ?_, ?_⟩ <;> simp <;> omega
  by_cases hED : v / 4096 = 13
  · refine ⟨0x80, 0x9F, by simp [hED], ?_, ?_⟩
    · simp
    · unfold Nat.isValidChar at hvalid
      simp
      omega
  · refine ⟨0x80, 0xBF, ?_, ?_, ?_⟩
    · rw [if_neg (by omega), if_neg (by omega), if_pos (by omega), Nat.add_sub_cancel]
    · simp
    · simp
      omega

theorem begin_four {v : Nat} (h : 0x10000 ≤ v) (h' : v ≤ 0x10FFFF) :
    ∃ low high, begin (UInt8.ofNat (v / 262144 % 8 + 240)) = ([], some ⟨3, low, high, v / 262144⟩) ∧
      low ≤ tail (v / 4096) ∧ tail (v / 4096) ≤ high := by
  have hb : (UInt8.ofNat (v / 262144 % 8 + 240)).toNat = v / 262144 + 240 := by
    rw [UInt8.toNat_ofNat']
    omega
  simp only [UInt8.le_iff_toNat_le, toNat_tail]
  unfold begin
  simp only [hb]
  rw [if_neg (by omega), if_neg (by omega), if_neg (by omega), if_neg (by omega),
    if_neg (by omega), if_neg (by omega)]
  by_cases hF0 : v / 262144 = 0
  · refine ⟨0x90, 0xBF, by simp [hF0], ?_, ?_⟩ <;> simp <;> omega
  by_cases hF4 : v / 262144 = 4
  · refine ⟨0x80, 0x8F, by simp [hF4], ?_, ?_⟩
    · simp
    · simp
      omega
  · refine ⟨0x80, 0xBF, ?_, ?_, ?_⟩
    · rw [if_neg (by omega), if_pos (by omega), Nat.add_sub_cancel]
    · simp
    · simp
      omega

/-! ## Texts -/

theorem readFrom_char (c : Char) :
    readFrom none (String.utf8EncodeChar c ++ rest) = c :: readFrom none rest := by
  have hvalid : c.val.toNat.isValidChar := c.valid
  have hlast : c.val.toNat ≤ 0x10FFFF := by
    unfold Nat.isValidChar at hvalid
    omega
  suffices h : readFrom none (String.utf8EncodeChar c ++ rest) =
      Char.ofNat c.val.toNat :: readFrom none rest by
    rwa [show Char.ofNat c.val.toNat = c from Char.ofNat_toNat c] at h
  unfold String.utf8EncodeChar
  generalize c.val.toNat = v at hvalid hlast ⊢
  simp only
  split
  · next hone =>
    rw [List.singleton_append, readFrom, begin_one hone]
    rfl
  split
  · next htwo =>
    rw [List.cons_append, readFrom_begin _ (begin_two (by omega) htwo)]
    change readFrom _ (tail v :: rest) = _
    rw [readFrom_last rest (tail_mem v).1 (tail_mem v).2]
    congr 2
    omega
  split
  · next hthree =>
    obtain ⟨low, high, hbegin, hlow, hhigh⟩ := begin_three (by omega) hthree hvalid
    rw [List.cons_append, readFrom_begin _ hbegin]
    change readFrom _ (tail (v / 64) :: tail v :: rest) = _
    rw [readFrom_tail _ (by omega) hlow hhigh, readFrom_last rest (tail_mem v).1 (tail_mem v).2]
    congr 2
    omega
  · obtain ⟨low, high, hbegin, hlow, hhigh⟩ := begin_four (v := v) (by omega) hlast
    rw [List.cons_append, readFrom_begin _ hbegin]
    change readFrom _ (tail (v / 4096) :: tail (v / 64) :: tail v :: rest) = _
    rw [readFrom_tail _ (by omega) hlow hhigh,
      readFrom_tail _ (by omega) (tail_mem _).1 (tail_mem _).2,
      readFrom_last rest (tail_mem v).1 (tail_mem v).2]
    congr 2
    omega

end Utf8

namespace Bytes

theorem lossy_ofText (s : String) : (ofText s).lossy = s := by
  obtain ⟨cs, rfl⟩ : ∃ cs, s = String.ofList cs := ⟨s.toList, (String.ofList_toList).symm⟩
  rw [lossy, ofText_ofList]
  congr 1
  induction cs with
  | nil => rfl
  | cons c rest ih => rw [List.flatMap_cons, Utf8.readFrom_char, ih]

end Bytes

end SlotCluster
