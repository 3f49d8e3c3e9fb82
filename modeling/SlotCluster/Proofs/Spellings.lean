import Mathlib.Data.Nat.Digits.Defs
import SlotCluster.Proofs.Numerals

/-!
# Spellings

A number may be spelled in more than one way, with zeros in front of it and with a sign. The
readers of numbers take just what spells a number within their range.
-/

namespace SlotCluster

namespace Decimal

/-! ## Digits -/

/-- The bytes are digits, the highest first, and there is at least one. -/
def IsNumeral (b : Bytes) (n : Nat) : Prop :=
  ∃ ds, ds ≠ [] ∧ (∀ d ∈ ds, d < 10) ∧ b = ds.map digitByte ∧ n = Nat.ofDigits 10 ds.reverse

/-- A plus sign may stand before the digits. -/
def IsUnsigned (b : Bytes) (n : Nat) : Prop :=
  IsNumeral b n ∨ ∃ rest, b = 43 :: rest ∧ IsNumeral rest n

/-- A minus sign may stand there too. -/
def IsSigned (b : Bytes) (i : Int) : Prop :=
  (∃ n : Nat, IsUnsigned b n ∧ i = n) ∨ ∃ rest n, b = 45 :: rest ∧ IsNumeral rest n ∧ i = -(n : Int)

theorem digit?_eq_some_iff {c : UInt8} {d : Nat} :
    digit? c = some d ↔ d < 10 ∧ c = digitByte d := by
  constructor
  · intro h
    unfold digit? at h
    split at h
    · next hrange =>
      have hlow : 48 ≤ c.toNat := hrange.1
      have hhigh : c.toNat ≤ 57 := hrange.2
      cases h
      refine ⟨by omega, ?_⟩
      rw [digitByte, Nat.add_sub_cancel' hlow, UInt8.ofNat_toNat]
    · cases h
  · rintro ⟨hd, rfl⟩
    exact digit?_digitByte hd

/-- The number that is read when these digits follow `acc`. -/
def shifted (acc : Nat) (ds : List Nat) : Nat := ds.foldl (fun n d => 10 * n + d) acc

theorem le_shifted (acc : Nat) (ds : List Nat) : acc ≤ shifted acc ds := by
  induction ds generalizing acc with
  | nil => exact Nat.le_refl acc
  | cons d rest ih =>
    have h := ih (10 * acc + d)
    change acc ≤ shifted (10 * acc + d) rest
    omega

theorem shifted_zero (ds : List Nat) : shifted 0 ds = Nat.ofDigits 10 ds.reverse := by
  rw [Nat.ofDigits_eq_foldr, List.foldr_reverse, shifted]
  simp only [Nat.cast_id, Nat.add_comm]

theorem readDigits_eq_ok_iff {max acc n : Nat} {b : Bytes} (hacc : acc ≤ max) :
    readDigits max acc b = .ok n ↔
      ∃ ds, (∀ d ∈ ds, d < 10) ∧ b = ds.map digitByte ∧ n = shifted acc ds ∧ n ≤ max := by
  induction b generalizing acc with
  | nil =>
    constructor
    · rintro ⟨⟩
      exact ⟨[], List.forall_mem_nil _, rfl, rfl, hacc⟩
    · rintro ⟨ds, -, hds, rfl, -⟩
      rw [List.map_eq_nil_iff.mp hds.symm]
      rfl
  | cons c rest ih =>
    rw [readDigits]
    constructor
    · intro h
      cases hdigit : digit? c with
      | none =>
        rw [hdigit] at h
        cases h
      | some d =>
        obtain ⟨hd, rfl⟩ := digit?_eq_some_iff.mp hdigit
        rw [hdigit] at h
        simp only at h
        split at h
        · cases h
        · next hmax =>
          obtain ⟨ds, hds, rfl, rfl, hn⟩ := (ih (Nat.le_of_not_lt hmax)).mp h
          exact ⟨d :: ds, List.forall_mem_cons.mpr ⟨hd, hds⟩, rfl, rfl, hn⟩
    · rintro ⟨ds, hds, hmap, rfl, hn⟩
      cases ds with
      | nil => cases hmap
      | cons d ds =>
        obtain ⟨rfl, rfl⟩ := List.cons.inj hmap
        obtain ⟨hd, hrest⟩ := List.forall_mem_cons.mp hds
        have hmax : 10 * acc + d ≤ max := (le_shifted _ ds).trans hn
        rw [digit?_digitByte hd]
        simp only [if_neg (Nat.not_lt.mpr hmax)]
        exact (ih hmax).mpr ⟨ds, hrest, rfl, rfl, hn⟩

theorem readDigits_zero_eq_ok_iff {max n : Nat} {b : Bytes} (hsome : b ≠ []) :
    readDigits max 0 b = .ok n ↔ IsNumeral b n ∧ n ≤ max := by
  rw [readDigits_eq_ok_iff (Nat.zero_le max)]
  constructor
  · rintro ⟨ds, hds, rfl, hn, hmax⟩
    refine ⟨⟨ds, ?_, hds, rfl, hn.trans (shifted_zero ds)⟩, hmax⟩
    rintro rfl
    exact hsome rfl
  · rintro ⟨⟨ds, -, hds, hb, hn⟩, hmax⟩
    exact ⟨ds, hds, hb, hn.trans (shifted_zero ds).symm, hmax⟩

/-! ## Signs -/

theorem IsNumeral.ne_nil {b : Bytes} {n : Nat} (h : IsNumeral b n) : b ≠ [] := by
  obtain ⟨ds, hsome, -, rfl, -⟩ := h
  exact fun hb => hsome (List.map_eq_nil_iff.mp hb)

theorem IsNumeral.isDigit {b : Bytes} {n : Nat} (h : IsNumeral b n) :
    ∀ x ∈ b, 48 ≤ x.toNat ∧ x.toNat ≤ 57 := by
  obtain ⟨ds, -, hds, rfl, -⟩ := h
  intro x hx
  obtain ⟨d, hd, rfl⟩ := List.mem_map.mp hx
  have hten := hds d hd
  simp only [digitByte, UInt8.toNat_ofNat']
  omega

theorem IsNumeral.head?_ne {b : Bytes} {n : Nat} (h : IsNumeral b n) {x : UInt8}
    (hx : x.toNat < 48) : b.head? ≠ some x := by
  intro hhead
  have hdigit := h.isDigit x (List.mem_of_head? hhead)
  omega

theorem IsUnsigned.mem {b : Bytes} {n : Nat} (h : IsUnsigned b n) :
    ∀ x ∈ b, x = 43 ∨ 48 ≤ x.toNat ∧ x.toNat ≤ 57 := by
  intro x hx
  obtain hdigits | ⟨rest, rfl, hdigits⟩ := h
  · exact .inr (hdigits.isDigit x hx)
  · obtain rfl | hrest := List.mem_cons.mp hx
    · exact .inl rfl
    · exact .inr (hdigits.isDigit x hrest)

theorem IsUnsigned.ne_nil {b : Bytes} {n : Nat} (h : IsUnsigned b n) : b ≠ [] := by
  obtain hdigits | ⟨rest, rfl, -⟩ := h
  · exact hdigits.ne_nil
  · exact List.cons_ne_nil _ _

theorem readUnsigned_eq_ok_iff {max n : Nat} {b : Bytes} :
    readUnsigned max b = .ok n ↔ IsUnsigned b n ∧ n ≤ max := by
  cases b with
  | nil =>
    constructor
    · rintro ⟨⟩
    · rintro ⟨h, -⟩
      exact absurd rfl h.ne_nil
  | cons c rest =>
    unfold readUnsigned
    simp only [List.isEmpty_cons, Bool.false_eq_true, if_false, List.head?_cons, Option.some.injEq,
      List.tail_cons, List.cons.injEq]
    by_cases hplus : c = 43
    · subst hplus
      by_cases hrest : rest = []
      · subst hrest
        simp only [and_self, if_true]
        constructor
        · rintro ⟨⟩
        · rintro ⟨hdigits | ⟨rest, hcons, hdigits⟩, -⟩
          · exact absurd rfl (hdigits.head?_ne (by decide))
          · exact absurd (List.cons.inj hcons).2.symm hdigits.ne_nil
      · simp only [hrest, and_false, if_false, if_true, readDigits_zero_eq_ok_iff hrest]
        refine and_congr_left fun _ => ⟨fun h => .inr ⟨rest, rfl, h⟩, ?_⟩
        rintro (hdigits | ⟨rest, hcons, hdigits⟩)
        · exact absurd rfl (hdigits.head?_ne (by decide))
        · exact (List.cons.inj hcons).2 ▸ hdigits
    · simp only [hplus, false_and, if_false, readDigits_zero_eq_ok_iff (List.cons_ne_nil c rest)]
      refine and_congr_left fun _ => ⟨.inl, ?_⟩
      rintro (hdigits | ⟨rest, hcons, -⟩)
      · exact hdigits
      · exact absurd (List.cons.inj hcons).1 hplus

theorem map_eq_ok_iff {ε α β : Type} {f : α → β} {x : Except ε α} {y : β} :
    x.map f = .ok y ↔ ∃ a, x = .ok a ∧ f a = y := by
  cases x <;> simp [Except.map]

theorem toOption_eq_some_iff {ε α : Type} {x : Except ε α} {a : α} :
    x.toOption = some a ↔ x = .ok a := by
  cases x <;> simp [Except.toOption]

theorem isSigned_cons_minus {rest : Bytes} {i : Int} :
    IsSigned (45 :: rest) i ↔ ∃ n, IsNumeral rest n ∧ -(n : Int) = i := by
  constructor
  · rintro (⟨n, h, -⟩ | ⟨rest', n, hcons, hdigits, rfl⟩)
    · exact absurd (h.mem 45 List.mem_cons_self) (by decide)
    · exact ⟨n, (List.cons.inj hcons).2 ▸ hdigits, rfl⟩
  · rintro ⟨n, hdigits, rfl⟩
    exact .inr ⟨rest, n, rfl, hdigits, rfl⟩

theorem isSigned_of_head?_ne {b : Bytes} (h : b.head? ≠ some 45) {i : Int} :
    IsSigned b i ↔ ∃ n : Nat, IsUnsigned b n ∧ (n : Int) = i := by
  constructor
  · rintro (⟨n, hb, rfl⟩ | ⟨rest, -, rfl, -⟩)
    · exact ⟨n, hb, rfl⟩
    · exact absurd rfl h
  · rintro ⟨n, hb, rfl⟩
    exact .inl ⟨n, hb, rfl⟩

theorem readSigned_eq_ok_iff {max : Nat} {b : Bytes} {i : Int} :
    readSigned max b = .ok i ↔ IsSigned b i ∧ -(max + 1 : Int) ≤ i ∧ i ≤ max := by
  unfold readSigned
  by_cases hminus : b.head? = some 45
  · obtain ⟨rest, rfl⟩ := List.head?_eq_some_iff.mp hminus
    rw [isSigned_cons_minus]
    by_cases hrest : rest = []
    · subst hrest
      constructor
      · rintro ⟨⟩
      · rintro ⟨⟨n, hdigits, -⟩, -⟩
        exact absurd rfl hdigits.ne_nil
    · rw [if_neg (by simpa using hrest), if_pos hminus]
      change Except.map (fun i : Int => -i)
        (Except.map (fun n : Nat => (n : Int)) (readDigits (max + 1) 0 rest)) = .ok i ↔ _
      simp only [map_eq_ok_iff, readDigits_zero_eq_ok_iff hrest]
      constructor
      · rintro ⟨-, ⟨n, ⟨hdigits, hmax⟩, rfl⟩, rfl⟩
        exact ⟨⟨n, hdigits, rfl⟩, by omega, by omega⟩
      · rintro ⟨⟨n, hdigits, rfl⟩, hlow, -⟩
        exact ⟨n, ⟨n, ⟨hdigits, by omega⟩, rfl⟩, rfl⟩
  · have hone : b ≠ [45] := by
      rintro rfl
      exact hminus rfl
    rw [if_neg hone, if_neg hminus, map_eq_ok_iff, isSigned_of_head?_ne hminus]
    simp only [readUnsigned_eq_ok_iff]
    constructor
    · rintro ⟨n, ⟨hb, hmax⟩, rfl⟩
      exact ⟨⟨n, hb, rfl⟩, by rw [Int.ofNat_eq_natCast]; omega,
        by rw [Int.ofNat_eq_natCast]; omega⟩
    · rintro ⟨⟨n, hb, rfl⟩, -, hhigh⟩
      exact ⟨n, ⟨hb, by omega⟩, rfl⟩

theorem readUInt16?_eq_some_iff {b : Bytes} {p : UInt16} :
    readUInt16? b = some p ↔ IsUnsigned b p.toNat := by
  rw [readUInt16?, Option.map_eq_some_iff]
  simp only [toOption_eq_some_iff, readUnsigned_eq_ok_iff]
  constructor
  · rintro ⟨n, ⟨hb, hmax⟩, rfl⟩
    rwa [UInt16.toNat_ofNat', Nat.mod_eq_of_lt (by omega)]
  · intro hb
    have hp := p.toNat_lt
    exact ⟨p.toNat, ⟨hb, by omega⟩, UInt16.ofNat_toNat⟩

theorem readInt64?_eq_some_iff {b : Bytes} {n : Int64} :
    readInt64? b = some n ↔ IsSigned b n.toInt := by
  rw [readInt64?, Option.map_eq_some_iff]
  simp only [toOption_eq_some_iff, readSigned_eq_ok_iff]
  constructor
  · rintro ⟨i, ⟨hb, hlow, hhigh⟩, rfl⟩
    rwa [Int64.toInt_ofInt_of_le (by omega) (by omega)]
  · intro hb
    have hlow := n.le_toInt
    have hhigh := n.toInt_lt
    exact ⟨n.toInt, ⟨hb, by omega, by omega⟩, Int64.ofInt_toInt n⟩

/-! ## Numbers in text -/

theorem ofText_toString (n : Nat) : Bytes.ofText (toString n) = digits n := by
  have hdigit : ∀ d < 10, String.utf8EncodeChar d.digitChar = [digitByte d] := by decide
  rw [Nat.toString_eq_repr, Nat.repr_eq_ofList_toDigits, Bytes.ofText_ofList]
  induction n using Nat.strongRecOn with
  | _ n ih =>
    rw [digits]
    split
    · next hn => rw [Nat.toDigits_of_lt_base hn, List.flatMap_singleton, hdigit n hn]
    · next hn =>
      rw [Nat.toDigits_of_base_le (by decide) (Nat.le_of_not_lt hn), List.flatMap_append,
        ih (n / 10) (by omega), List.flatMap_singleton, hdigit _ (Nat.mod_lt n (by decide))]

theorem isUnsigned_toString (n : Nat) : IsUnsigned (Bytes.ofText (toString n)) n := by
  rw [ofText_toString]
  exact (readUnsigned_eq_ok_iff.mp (readUnsigned_digits (Nat.le_refl n))).1

theorem isDigit_of_mem_toString {n : Nat} {c : Char} (h : c ∈ (toString n).toList) :
    c.isDigit = true := by
  rw [Nat.toString_eq_repr, Nat.toList_repr] at h
  exact Nat.isDigit_of_mem_toDigits (by decide) (by decide) h

theorem IsUnsigned.not_mem {cs : List Char} {n : Nat}
    (h : IsUnsigned (Bytes.ofText (String.ofList cs)) n) {c : Char} {x : UInt8}
    (hc : String.utf8EncodeChar c = [x]) (hx : x ≠ 43 ∧ ¬ (48 ≤ x.toNat ∧ x.toNat ≤ 57)) :
    c ∉ cs := by
  intro hmem
  have hbyte : x ∈ Bytes.ofText (String.ofList cs) := by
    rw [Bytes.ofText_ofList]
    exact List.mem_flatMap.mpr ⟨c, hmem, hc ▸ List.mem_singleton_self x⟩
  obtain hplus | hdigit := h.mem x hbyte
  · exact hx.1 hplus
  · exact hx.2 hdigit

end Decimal

end SlotCluster
