import Mathlib.Data.Finset.Card
import Mathlib.Data.Finset.Range
import SlotCluster.Registry

/-!
# Slot tables

What a slot table gives for each slot after an entry was made. The count of a table is right if it
is made of such entries, so a table is full exactly if every slot has an owner.
-/

namespace SlotCluster

namespace SlotTable

/-! ## Entries -/

@[simp] theorem get?_empty (slot : UInt16) : empty.get? slot = none := by
  unfold get? empty
  rw [Vector.getElem?_replicate]
  split <;> rfl

theorem toNat_ofNat {i : Nat} (h : i < 16384) : (UInt16.ofNat i).toNat = i :=
  UInt16.toNat_ofNat_of_lt' (by unfold UInt16.size; omega)

theorem get?_of_lt (t : SlotTable) {slot : UInt16} (h : slot.toNat < 16384) :
    t.get? slot = t.entries[slot.toNat] := by
  simp [get?, Vector.getElem?_eq_getElem h]

theorem get?_of_ge (t : SlotTable) {slot : UInt16} (h : ¬ slot.toNat < 16384) :
    t.get? slot = none := by
  simp [get?, h]

theorem lt_of_get? {t : SlotTable} {slot : UInt16} {owners : SlotOwners}
    (h : t.get? slot = some owners) : slot.toNat < 16384 := by
  by_contra hslot
  rw [get?_of_ge t hslot] at h
  cases h

theorem set_of_lt (t : SlotTable) {slot : UInt16} (owners : SlotOwners)
    (h : slot.toNat < 16384) :
    t.set slot owners = ⟨t.entries.set slot.toNat (some owners) h,
      if t.entries[slot.toNat].isNone then t.covered + 1 else t.covered⟩ := by
  rw [set, dif_pos h]

theorem get?_set_self (t : SlotTable) {slot : UInt16} (owners : SlotOwners)
    (h : slot.toNat < 16384) : (t.set slot owners).get? slot = some owners := by
  rw [get?_of_lt _ h, set_of_lt t owners h]
  exact Vector.getElem_set_self h

theorem get?_set_ne (t : SlotTable) {slot other : UInt16} (owners : SlotOwners)
    (h : slot ≠ other) : (t.set slot owners).get? other = t.get? other := by
  by_cases hslot : slot.toNat < 16384
  · have hne : slot.toNat ≠ other.toNat := fun heq => h (UInt16.toNat_inj.mp heq)
    rw [set_of_lt t owners hslot, get?, get?, Vector.getElem?_set hslot, if_neg hne]
  · rw [set, dif_neg hslot]

theorem get?_set_cases {t : SlotTable} {slot other : UInt16} {owners known : SlotOwners}
    (h : (t.set slot owners).get? other = some known) :
    t.get? other = some known ∨ other = slot ∧ known = owners := by
  by_cases heq : slot = other
  · subst heq
    rw [get?_set_self t owners (lt_of_get? h)] at h
    exact .inr ⟨rfl, (Option.some.inj h).symm⟩
  · rw [get?_set_ne t owners heq] at h
    exact .inl h

theorem mem_entries_iff {t : SlotTable} {owners : SlotOwners} :
    some owners ∈ t.entries ↔ ∃ slot, t.get? slot = some owners := by
  constructor
  · intro hentry
    obtain ⟨i, hi, hget⟩ := Vector.mem_iff_getElem.mp hentry
    have hslot := toNat_ofNat hi
    refine ⟨UInt16.ofNat i, ?_⟩
    rw [get?_of_lt t (by rw [hslot]; exact hi)]
    simpa [hslot] using hget
  · rintro ⟨slot, hget⟩
    have hlt := lt_of_get? hget
    rw [get?_of_lt t hlt] at hget
    rw [← hget]
    exact Vector.getElem_mem hlt

theorem mem_owners_iff {t : SlotTable} {n : Node} :
    n ∈ (t.entries.toList.filterMap id).map SlotOwners.primary ↔
      ∃ slot owners, t.get? slot = some owners ∧ owners.primary = n := by
  simp only [List.mem_map, List.mem_filterMap, id_eq, exists_eq_right, Vector.mem_toList_iff]
  constructor
  · rintro ⟨owners, hentry, hprimary⟩
    obtain ⟨slot, hget⟩ := mem_entries_iff.mp hentry
    exact ⟨slot, owners, hget, hprimary⟩
  · rintro ⟨slot, owners, hget, hprimary⟩
    exact ⟨owners, mem_entries_iff.mpr ⟨slot, hget⟩, hprimary⟩

/-! ## The count -/

def Counted (t : SlotTable) : Prop := t.covered = t.entries.countP Option.isSome

/-- The slots with an owner. -/
def owned (t : SlotTable) : Finset Nat :=
  (Finset.range 16384).filter fun i => (t.get? (UInt16.ofNat i)).isSome

theorem entries_eq_map (t : SlotTable) :
    t.entries.toList = (List.range 16384).map fun i => t.get? (UInt16.ofNat i) := by
  refine List.ext_getElem (by simp) fun i hi _ => ?_
  rw [Vector.length_toList] at hi
  have hslot := toNat_ofNat hi
  rw [List.getElem_map, List.getElem_range, Vector.getElem_toList, get?_of_lt t (by omega)]
  simp only [hslot]

theorem counted_iff_owned (t : SlotTable) : t.Counted ↔ t.covered = t.owned.card := by
  have hrange : ∀ (n : Nat) (p : Nat → Bool),
      (List.range n).countP p = ((Finset.range n).filter fun i => p i).card := by
    intro n p
    simp [List.countP_eq_length_filter, Finset.card_def, Multiset.range]
  rw [Counted, ← Vector.countP_toList, entries_eq_map, List.countP_map, hrange]
  rfl

theorem counted_empty : empty.Counted := by simp [Counted, empty, Vector.countP_replicate]

theorem Counted.set {t : SlotTable} (h : t.Counted) (slot : UInt16) (owners : SlotOwners) :
    (t.set slot owners).Counted := by
  by_cases hslot : slot.toNat < 16384
  · rw [set_of_lt t owners hslot]
    unfold Counted at h ⊢
    rw [Vector.countP_set hslot, h]
    cases hentry : t.entries[slot.toNat] with
    | none => simp
    | some known =>
      have hpos : 0 < t.entries.countP Option.isSome :=
        Vector.countP_pos_iff.mpr ⟨_, Vector.getElem_mem hslot, by rw [hentry]; rfl⟩
      simp only [Option.isSome_some, Option.isNone_some, if_true, Bool.false_eq_true, if_false]
      omega
  · rw [SlotTable.set, dif_neg hslot]
    exact h

theorem Counted.isFull_iff {t : SlotTable} (h : t.Counted) :
    t.isFull = true ↔ ∀ slot : UInt16, slot.toNat < 16384 → t.get? slot ≠ none := by
  rw [isFull, h, beq_iff_eq, Vector.countP_eq_size]
  constructor
  · intro hall slot hslot
    rw [get?_of_lt t hslot]
    exact Option.isSome_iff_ne_none.mp (hall _ (Vector.getElem_mem hslot))
  · intro hall entry hentry
    obtain ⟨i, hi, rfl⟩ := Vector.mem_iff_getElem.mp hentry
    have hslot := toNat_ofNat hi
    have howned := hall (UInt16.ofNat i) (by rw [hslot]; exact hi)
    rw [get?_of_lt t (by rw [hslot]; exact hi)] at howned
    simpa [hslot, Option.isSome_iff_ne_none] using howned

theorem Counted.exists_unowned {t : SlotTable} (h : t.Counted) (hfull : t.isFull = false) :
    ∃ slot : UInt16, slot.toNat < 16384 ∧ t.get? slot = none := by
  by_contra hnone
  push Not at hnone
  rw [h.isFull_iff.mpr hnone] at hfull
  cases hfull

theorem Counted.pos_iff {t : SlotTable} (h : t.Counted) :
    0 < t.covered ↔ ∃ slot owners, t.get? slot = some owners := by
  rw [h, Vector.countP_pos_iff]
  constructor
  · rintro ⟨entry, hentry, hsome⟩
    obtain ⟨owners, rfl⟩ := Option.isSome_iff_exists.mp hsome
    obtain ⟨slot, hget⟩ := mem_entries_iff.mp hentry
    exact ⟨slot, owners, hget⟩
  · rintro ⟨slot, owners, hget⟩
    exact ⟨some owners, mem_entries_iff.mpr ⟨slot, hget⟩, rfl⟩

end SlotTable

end SlotCluster
