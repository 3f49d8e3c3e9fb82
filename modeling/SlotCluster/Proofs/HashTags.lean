import SlotCluster.Proofs.Checksums
import SlotCluster.Proofs.StreamReads

/-!
# Hash tags

The slot of a key is the checksum of its hash tag, or of the whole key if it has none. Keys of one
tag are in one slot, so a command with such keys is not refused for their slots. A stream read may
be refused even so, if its group or consumer is called like the keyword.
-/

namespace SlotCluster

/-! ## Cutting -/

namespace Bytes

theorem cutAt_eq_some_iff {sep : UInt8} {b front back : Bytes} :
    cutAt sep b = some (front, back) ↔ b = front ++ sep :: back ∧ sep ∉ front := by
  induction b generalizing front with
  | nil => simp [cutAt]
  | cons x rest ih =>
    rw [cutAt]
    by_cases hx : x = sep
    · rw [if_pos hx]
      cases front with
      | nil => simp [hx]
      | cons y front => simp +contextual [hx]
    · rw [if_neg hx]
      cases front with
      | nil => simp [hx]
      | cons y front =>
        simp only [Option.map_eq_some_iff, Prod.exists]
        grind

theorem cutAt_eq_none_iff {sep : UInt8} {b : Bytes} : cutAt sep b = none ↔ sep ∉ b := by
  induction b with
  | nil => simp [cutAt]
  | cons x rest ih =>
    rw [cutAt]
    split
    · next hx => simp [hx]
    · next hx => simp [ih, Ne.symm hx]

end Bytes

/-! ## Tags -/

namespace Slot

/-- An opening brace. -/
def opening : UInt8 := 123

/-- A closing brace. -/
def closing : UInt8 := 125

/-- The tag stands between the first opening brace and the first closing brace after it. -/
def Tagged (key tag : Bytes) : Prop :=
  ∃ front back, key = front ++ opening :: (tag ++ closing :: back) ∧
    opening ∉ front ∧ closing ∉ tag ∧ tag ≠ []

inductive Untagged : Bytes → Prop
  | unopened {key : Bytes} (h : opening ∉ key) : Untagged key
  | unclosed {front rest : Bytes} (hfront : opening ∉ front) (hrest : closing ∉ rest) :
      Untagged (front ++ opening :: rest)
  /-- Of the braces only the first pair counts. -/
  | empty {front back : Bytes} (hfront : opening ∉ front) :
      Untagged (front ++ opening :: closing :: back)

theorem tagged_or_untagged (key : Bytes) : (∃ tag, Tagged key tag) ∨ Untagged key := by
  cases hopen : key.cutAt opening with
  | none => exact .inr (.unopened (Bytes.cutAt_eq_none_iff.mp hopen))
  | some parts =>
    obtain ⟨rfl, hfront⟩ := Bytes.cutAt_eq_some_iff.mp hopen
    cases hclose : parts.2.cutAt closing with
    | none => exact .inr (.unclosed hfront (Bytes.cutAt_eq_none_iff.mp hclose))
    | some inner =>
      obtain ⟨htag, hclosing⟩ := Bytes.cutAt_eq_some_iff.mp hclose
      rw [htag]
      by_cases hempty : inner.1 = []
      · rw [hempty]
        exact .inr (.empty hfront)
      · exact .inl ⟨inner.1, parts.1, inner.2, rfl, hfront, hclosing, hempty⟩

theorem hashTag?_of_tagged {key tag : Bytes} (h : Tagged key tag) : hashTag? key = some tag := by
  obtain ⟨front, back, hkey, hfront, htag, hsome⟩ := h
  have hopen : key.cutAt 123 = some (front, tag ++ closing :: back) :=
    Bytes.cutAt_eq_some_iff.mpr ⟨hkey, hfront⟩
  have hclose : (tag ++ closing :: back).cutAt 125 = some (tag, back) :=
    Bytes.cutAt_eq_some_iff.mpr ⟨rfl, htag⟩
  simp [hashTag?, hopen, hclose, hsome]

theorem hashTag?_of_untagged {key : Bytes} (h : Untagged key) : hashTag? key = none := by
  cases h with
  | unopened h =>
    have hopen : key.cutAt 123 = none := Bytes.cutAt_eq_none_iff.mpr h
    simp [hashTag?, hopen]
  | @unclosed front rest hfront hrest =>
    have hopen : (front ++ opening :: rest).cutAt 123 = some (front, rest) :=
      Bytes.cutAt_eq_some_iff.mpr ⟨rfl, hfront⟩
    have hclose : rest.cutAt 125 = none := Bytes.cutAt_eq_none_iff.mpr hrest
    simp [hashTag?, hopen, hclose]
  | @empty front back hfront =>
    have hopen : (front ++ opening :: closing :: back).cutAt 123 = some (front, closing :: back) :=
      Bytes.cutAt_eq_some_iff.mpr ⟨rfl, hfront⟩
    have hclose : Bytes.cutAt 125 (closing :: back) = some ([], back) := if_pos rfl
    simp [hashTag?, hopen, hclose]

theorem untagged_iff {key : Bytes} : Untagged key ↔ ∀ tag, ¬ Tagged key tag := by
  constructor
  · intro h tag htag
    have hsome := hashTag?_of_tagged htag
    rw [hashTag?_of_untagged h] at hsome
    cases hsome
  · intro h
    exact (tagged_or_untagged key).resolve_left fun ⟨tag, htag⟩ => h tag htag

theorem ofKey_of_tagged {key tag : Bytes} (h : Tagged key tag) :
    ofKey key = checksum tag % count := by
  rw [ofKey, effectiveKey, hashTag?_of_tagged h]
  rfl

theorem ofKey_of_untagged {key : Bytes} (h : Untagged key) : ofKey key = checksum key % count := by
  rw [ofKey, effectiveKey, hashTag?_of_untagged h]
  rfl

end Slot

/-! ## Commands -/

/-- Commands of the family have no keys. -/
def Family.IsKeyless (f : Family) : Prop :=
  f = .allNodes ∨ f = .allMasters ∨ f = .anyNode ∨ f = .slotArgument

theorem Family.isKeyless_of_no_places {f : Family} (hplaces : ¬ f.HasPlaces) (hf : f ≠ .streams) :
    f.IsKeyless := by
  simp only [HasPlaces, not_not, List.mem_cons, List.not_mem_nil, or_false] at hplaces
  unfold IsKeyless
  tauto

namespace Command

open Words

variable {tag : Bytes}

theorem not_apart_of_tagged {keys : List Bytes} (hkeys : ∀ key ∈ keys, Slot.Tagged key tag) :
    ¬ Apart keys := by
  rintro ⟨a, ha, b, hb, hne⟩
  rw [Slot.ofKey_of_tagged (hkeys a ha), Slot.ofKey_of_tagged (hkeys b hb)] at hne
  exact hne rfl

theorem together_iff_of_tagged {keys : List Bytes} (hkeys : ∀ key ∈ keys, Slot.Tagged key tag) :
    Together keys (Slot.checksum tag % Slot.count) ↔ keys ≠ [] :=
  and_iff_left fun key hkey => Slot.ofKey_of_tagged (hkeys key hkey)

theorem not_crossesSlots_of_keyless {cmd : Command} {name : Bytes}
    (hnamed : checkedName (Routable.words cmd) = .ok name)
    (hfamily : (CommandTable.familyOf name).IsKeyless) : ¬ cmd.CrossesSlots := by
  have hslots : ∃ slot, ∀ named ∈ (Routable.words cmd).slots, named = slot := by
    unfold slots
    rw [hnamed]
    rcases hfamily with hf | hf | hf | hf
    · exact ⟨0, by simp [hf, designated]⟩
    · exact ⟨0, by simp [hf, designated]⟩
    · exact ⟨0, by simp [hf, designated]⟩
    · cases ((Routable.words cmd).word? 2).bind Decimal.readUInt16? with
      | none => exact ⟨0, by simp [hf]⟩
      | some slot => exact ⟨slot, by simp [hf]⟩
  obtain ⟨slot, hslot⟩ := hslots
  rintro ⟨fault, hfault, hkind⟩
  exact isOther_of_routing hslot hfault hkind

theorem not_crossesSlots_of_tagged {cmd : Command} {name : Bytes}
    (hnamed : checkedName (Routable.words cmd) = .ok name)
    (hplaces : (CommandTable.familyOf name).HasPlaces)
    (hkeys : ∀ key ∈ cmd.keys (CommandTable.familyOf name), Slot.Tagged key tag) :
    ¬ cmd.CrossesSlots := by
  have hslots : ∀ named ∈ (Routable.words cmd).slots, named = Slot.checksum tag % Slot.count := by
    unfold slots
    rw [hnamed]
    have hargument : CommandTable.familyOf name ≠ .slotArgument := by
      intro hfamily
      rw [hfamily] at hplaces
      exact absurd hplaces (by decide)
    simp only [hargument, if_false]
    split
    · next keys hdesignated =>
      intro named hnamed
      obtain ⟨key, hkey, rfl⟩ := List.mem_map.mp hnamed
      exact Slot.ofKey_of_tagged (hkeys key (designated_subset hplaces hdesignated hkey))
    · simp
  rintro ⟨fault, hfault, hkind⟩
  exact isOther_of_routing hslots hfault hkind

/-- A command is not refused for keys of one tag. With such a key it goes to the slot of the tag. -/
theorem follows_tag {cmd : Command} {name : Bytes}
    (hnamed : checkedName (Routable.words cmd) = .ok name)
    (hfamily : CommandTable.familyOf name ≠ .streams)
    (hkeys : ∀ key ∈ cmd.keys (CommandTable.familyOf name), Slot.Tagged key tag) :
    ¬ cmd.CrossesSlots ∧ (cmd.Keyed name (CommandTable.familyOf name) →
      cmd.keys (CommandTable.familyOf name) ≠ [] →
      Routing.of cmd =
        .ok (.single (.route ⟨Slot.checksum tag % Slot.count, roleOf name⟩))) := by
  by_cases hplaces : (CommandTable.familyOf name).HasPlaces
  · refine ⟨not_crossesSlots_of_tagged hnamed hplaces hkeys, fun hkeyed hsome => ?_⟩
    obtain ⟨slot, htogether, hrouting⟩ | ⟨hapart, -⟩ | ⟨hnone, -, -⟩ | ⟨hfree, -⟩ :=
      outcomes_of_places hnamed rfl hplaces hkeyed.count_le
    · obtain rfl := ((together_iff_of_tagged hkeys).mpr htogether.1).unique htogether
      exact hrouting
    · exact absurd hapart (not_apart_of_tagged hkeys)
    · exact absurd hnone hsome
    · exact absurd hfree.keys hsome
  · have hkeyless := Family.isKeyless_of_no_places hplaces hfamily
    exact ⟨not_crossesSlots_of_keyless hnamed hkeyless, fun hkeyed => absurd hkeyed.places hplaces⟩

end Command

namespace Slot

/-- **Keys of one tag are in one slot.** No command is refused for such keys, but a stream read may
be if its group or consumer is called like the keyword. -/
theorem hashed_by_tag (key tag : Bytes) (cmd : Command) :
    (∀ bytes crc, checksum bytes = crc ↔
      ofBits 16 crc.toNat = (message bytes * Polynomial.X ^ 16) %ₘ generator) ∧
    (Tagged key tag → ofKey key = checksum tag % count) ∧
    (Untagged key → ofKey key = checksum key % count) ∧
    (Untagged key ↔ ∀ tag, ¬ Tagged key tag) ∧
    (ofKey key).toNat < 16384 ∧
    (∀ key', Tagged key tag → Tagged key' tag → ofKey key' = ofKey key) ∧
    (∀ name, Words.checkedName (Routable.words cmd) = .ok name →
      CommandTable.familyOf name ≠ .streams →
      (∀ key ∈ cmd.keys (CommandTable.familyOf name), Tagged key tag) →
      ¬ cmd.CrossesSlots ∧ (cmd.Keyed name (CommandTable.familyOf name) →
        cmd.keys (CommandTable.familyOf name) ≠ [] →
        Routing.of cmd = .ok (.single (.route ⟨checksum tag % count, Command.roleOf name⟩)))) ∧
    ∀ r : StreamRead, r.Written cmd → (∀ key ∈ r.keys, Tagged key tag) →
      (r.reader.misleads? = none → ¬ cmd.CrossesSlots ∧
        Routing.of cmd = .ok (.single (.route ⟨checksum tag % count, r.reader.role⟩))) ∧
      ∀ i, r.reader.misleads? = some i → (cmd.CrossesSlots ↔
        Words.Apart ((cmd.drop (i + 1)).take ((cmd.length - (i + 1)) / 2))) := by
  refine ⟨checksum_eq_iff, ofKey_of_tagged, ofKey_of_untagged, untagged_iff, ofKey_lt key,
    ?_, fun _ => Command.follows_tag, ?_⟩
  · intro key' h h'
    rw [ofKey_of_tagged h, ofKey_of_tagged h']
  · intro r h hkeys
    constructor
    · intro hplain
      have hdecided := StreamRead.decided_by_keys h hplain
      have hsome : r.keys ≠ [] := by simpa [StreamRead.keys] using r.streams_ne_nil
      have htogether := (Command.together_iff_of_tagged hkeys).mpr hsome
      exact ⟨fun hrefused => Command.not_apart_of_tagged hkeys (hdecided.refused.mp hrefused),
        (hdecided.routed _).mpr htogether⟩
    · intro i hi
      obtain ⟨word, half, -, hhalf, hdecided⟩ := StreamRead.decided_by_half h hi
      rw [hhalf]
      exact hdecided.refused

/-- Two keys of one tag go together to its slot. A read of them is refused. -/
theorem hashed_by_tag_braces :
    let tag := Bytes.ofText "t"
    let r : StreamRead :=
      { reader := .consumer (Bytes.ofText "streams") (Bytes.ofText "c")
        options := []
        streams :=
          [(Bytes.ofText "{t}a", Bytes.ofText ">"), (Bytes.ofText "{t}b", Bytes.ofText ">")]
        streams_ne_nil := List.cons_ne_nil _ _ }
    let cmd := Command.ofWords
      ["XREADGROUP", "GROUP", "streams", "c", "STREAMS", "{t}a", "{t}b", ">", ">"]
    (∀ key ∈ r.keys, Tagged key tag) ∧ r.Written cmd ∧ cmd.CrossesSlots ∧
      Routing.of (Command.ofWords ["MGET", "{t}a", "{t}b"]) =
        .ok (.single (.route ⟨15891, .replicaOptional⟩)) := by
  intro tag r cmd
  have htagged : ∀ key ∈ r.keys, Tagged key tag := by
    have hone : ∀ back, Tagged (opening :: (tag ++ closing :: back)) tag := fun back =>
      ⟨[], back, rfl, List.not_mem_nil, by decide +kernel, by decide +kernel⟩
    exact List.forall_mem_cons.mpr ⟨hone (Bytes.ofText "a"),
      List.forall_mem_singleton.mpr (hone (Bytes.ofText "b"))⟩
  have hword : ∀ text, Token.Spelled (.word text) (Bytes.ofText text) :=
    fun _ => .word (beq_self_eq_true _)
  have h : r.Written cmd :=
    .cons (hword "XREADGROUP") <| .cons (hword "GROUP") <| .cons .data <| .cons .data <|
      .cons (hword "STREAMS") <| .cons .data <| .cons .data <| .cons .data <| .cons .data .nil
  obtain ⟨-, -, -, -, -, -, -, hreads⟩ := hashed_by_tag (Bytes.ofText "{t}a") tag cmd
  have hmisled := (hreads r h htagged).2 2 (by decide +kernel)
  let get := Command.ofWords ["MGET", "{t}a", "{t}b"]
  obtain ⟨-, -, -, -, -, -, hcommands, -⟩ := hashed_by_tag (Bytes.ofText "{t}a") tag get
  have hfamily : CommandTable.familyOf (Bytes.ofText "MGET") = .allArgs := by decide +kernel
  have hkeyed : get.Keyed (Bytes.ofText "MGET") (CommandTable.familyOf (Bytes.ofText "MGET")) :=
    { named := by decide +kernel
      family := rfl
      places := by decide +kernel
      count_le := fun count hcount => by
        rw [hfamily] at hcount
        cases hcount
        decide }
  have hget := (hcommands _ hkeyed.named (by decide +kernel) htagged).2 hkeyed (by decide +kernel)
  refine ⟨htagged, h, hmisled.mpr ⟨Bytes.ofText "c", by decide +kernel, Bytes.ofText "STREAMS",
    by decide +kernel, by decide +kernel⟩, ?_⟩
  rw [hget]
  decide +kernel

end Slot

end SlotCluster
