import Mathlib.Algebra.Order.Ring.Nat
import Mathlib.Data.List.Basic
import SlotCluster.Proofs.CommandNames
import SlotCluster.Proofs.OperationFaults

/-!
# Layouts of keys

A family says in which places of a command its keys stand. The keys alone decide where the command
goes: to the slot that all of them are in, or nowhere if they are in two. Scripts, values, options
and timeouts stand in the other places.
-/

namespace SlotCluster

/-! ## Places -/

namespace Family

/-- The keys stand in places that the number of words and the count tell. -/
def HasPlaces (f : Family) : Prop :=
  f ∉ [.allNodes, .allMasters, .anyNode, .slotArgument, .streams]

instance (f : Family) : Decidable f.HasPlaces := by
  unfold HasPlaces
  infer_instance

/-- The place of the argument that counts the keys. -/
def countPlace? : Family → Option Nat
  | .countedFirst => some 1
  | .countedSecond | .destinationCounted => some 2
  | _ => none

/-- How many places a count covers. They start behind the place of the count. -/
def reach (f : Family) (count : Nat) : Nat :=
  match f.countPlace? with
  | some i => Words.reach (i + 1) count
  | none => count

theorem reach_le (f : Family) (count : Nat) : f.reach count ≤ count := by
  unfold reach
  cases f.countPlace? with
  | none => exact le_rfl
  | some i => exact Words.reach_le (i + 1) count

theorem reach_of_le {f : Family} {count : Nat} (h : count ≤ 2 ^ 64 - 4) :
    f.reach count = count := by
  cases f <;> first
    | rfl
    | exact Words.reach_of_lt (by simp only [UInt64.size]; omega)

/-- The places of the keys in a command of `n` words that counts `count` keys. -/
def keyPlaces (n count : Nat) : Family → List Nat
  | .firstKey => [1]
  | .second => [2]
  | .firstTwo => [1, 2]
  | .allArgs => List.range' 1 (n - 1)
  | .allFromSecond => List.range' 2 (n - 2)
  | .allButLast => List.range' 1 (n - 2)
  | .keyValuePairs => List.range' 1 (n / 2) 2
  | .countedFirst => List.range' 2 count
  | .countedSecond => List.range' 3 count
  | .destinationCounted => 1 :: List.range' 3 count
  | _ => []

theorem keyPlaces_sublist {n few many : Nat} (h : few ≤ many) (f : Family) :
    (f.keyPlaces n few).Sublist (f.keyPlaces n many) := by
  have hrange : ∀ i, (List.range' i few).Sublist (List.range' i many) :=
    fun i => List.range'_sublist_right.mpr h
  cases f
  case countedFirst => exact hrange 2
  case countedSecond => exact hrange 3
  case destinationCounted => exact (hrange 3).cons_cons 1
  all_goals exact .refl _

end Family

namespace Command

/-- How many keys the command counts, if the count can be read. Families that count none are always
content. -/
def keyCount? (cmd : Command) (f : Family) : Option Nat :=
  match f.countPlace? with
  | some i => cmd[i]?.bind Decimal.readCount?
  | none => some 0

/-- The arguments in the places of keys. Places behind the last argument are empty. -/
def keys (cmd : Command) (f : Family) : List Bytes :=
  match cmd.keyCount? f with
  | some count => (f.keyPlaces cmd.length count).filterMap (cmd[·]?)
  | none => []

/-- The command counts its keys and has none. Its family has no other key. -/
def IsFree (cmd : Command) (f : Family) : Prop :=
  (f = .countedFirst ∨ f = .countedSecond) ∧ cmd.keyCount? f = some 0

theorem isFree_iff {cmd : Command} {f : Family} :
    cmd.IsFree f ↔ (f = .countedFirst ∨ f = .countedSecond) ∧ cmd.keyCount? f = some 0 := Iff.rfl

instance (cmd : Command) (f : Family) : Decidable (cmd.IsFree f) := decidable_of_iff' _ isFree_iff

/-- The places of the command words, of the count and of the keys. -/
def decidingPlaces (cmd : Command) (f : Family) : List Nat :=
  0 :: (if Words.isContainer (Routable.words cmd) then [1] else []) ++ f.countPlace?.toList ++
    (cmd.keyCount? f).elim [] (f.keyPlaces cmd.length)

/-- A command that a cluster serves, of a family that has its keys in known places. -/
structure Keyed (cmd : Command) (name : Bytes) (f : Family) : Prop where
  named : Words.checkedName (Routable.words cmd) = .ok name
  family : CommandTable.familyOf name = f
  places : f.HasPlaces
  /-- The place behind the last key can be counted. -/
  count_le : ∀ count, cmd.keyCount? f = some count → count ≤ 2 ^ 64 - 4

end Command

/-! ## Keys in their places -/

namespace Words

theorem word?_some (cmd : Command) (i : Nat) : word? (Routable.words cmd) i = cmd[i]? := by
  change (cmd.map some)[i]?.join = cmd[i]?
  rw [List.getElem?_map]
  cases cmd[i]? <;> rfl

theorem wordsFrom_some (cmd : Command) (i : Nat) :
    wordsFrom (Routable.words cmd) i = cmd.drop i := by
  change (((cmd.map some).drop i).takeWhile Option.isSome).filterMap id = cmd.drop i
  rw [← List.map_drop]
  induction cmd.drop i with
  | nil => rfl
  | cons word rest ih => simpa using ih

theorem filterMap_range' (cmd : Command) (m i : Nat) :
    (List.range' i m).filterMap (cmd[·]?) = (cmd.drop i).take m := by
  induction m generalizing i with
  | zero => simp
  | succ m ih =>
    rw [List.range'_succ, List.filterMap_cons, ih]
    by_cases hi : i < cmd.length
    · rw [List.getElem?_eq_getElem hi, List.drop_eq_getElem_cons hi, List.take_succ_cons]
    · rw [List.getElem?_eq_none (by omega), List.drop_eq_nil_of_le (by omega),
        List.drop_eq_nil_of_le (by omega)]
      simp

theorem everySecond_drop (cmd : Command) (m i : Nat) (hm : (cmd.length - i + 1) / 2 = m) :
    everySecond (cmd.drop i) = (List.range' i m 2).filterMap (cmd[·]?) := by
  induction m generalizing i with
  | zero =>
    rw [List.drop_eq_nil_of_le (by omega)]
    rfl
  | succ m ih =>
    have hi : i < cmd.length := by omega
    rw [List.range'_succ, List.filterMap_cons, List.getElem?_eq_getElem hi, ← ih (i + 2) (by omega),
      List.drop_eq_getElem_cons hi]
    by_cases hnext : i + 1 < cmd.length
    · rw [List.drop_eq_getElem_cons hnext]
      rfl
    · rw [List.drop_eq_nil_of_le (by omega), List.drop_eq_nil_of_le (by omega)]
      rfl

theorem keyCount_some (cmd : Command) (name : Bytes) (i : Nat) :
    keyCount (Routable.words cmd) i name =
      (cmd[i]?.bind Decimal.readCount?).elim (.error (.invalidKeyCount name)) .ok := by
  rw [keyCount, word?_some]
  cases cmd[i]?.bind Decimal.readCount? <;> rfl

/-- What the layout designates stands in the places of the keys, as far as the count covers them. -/
theorem designated_eq (cmd : Command) (name : Bytes) {f : Family} (h : f.HasPlaces) :
    designated (Routable.words cmd) name f =
      (cmd.keyCount? f).elim (.error (.invalidKeyCount name)) fun count =>
        .ok (if cmd.IsFree f then none
          else some ((f.keyPlaces cmd.length (f.reach count)).filterMap (cmd[·]?))) := by
  by_cases hcounts : f = .countedFirst ∨ f = .countedSecond
  · -- Only these two families may turn out to have no keys.
    obtain rfl | rfl := hcounts
    all_goals
      rw [designated, keyCount_some]
      simp only [Command.isFree_iff, Command.keyCount?, Family.countPlace?, Family.keyPlaces]
      cases cmd[(_ : Nat)]?.bind Decimal.readCount? with
      | none => rfl
      | some count =>
        simp [Except.map, counted, wordsFrom_some, filterMap_range', Family.reach,
          Family.countPlace?]
  · have hfree : ¬ cmd.IsFree f := fun hfree => hcounts hfree.1
    simp only [hfree, if_false]
    cases f <;> simp only [Command.keyCount?, Family.countPlace?, Family.keyPlaces,
      Option.elim_some]
    case countedFirst | countedSecond => simp at hcounts
    case allNodes | allMasters | anyNode | slotArgument | streams => exact absurd h (by decide)
    case firstKey | second =>
      rw [designated, word?_some, List.filterMap_cons]
      cases cmd[(_ : Nat)]? <;> rfl
    case firstTwo => rw [designated, wordsFrom_some, ← filterMap_range']; rfl
    case allArgs | allFromSecond =>
      rw [designated, wordsFrom_some, filterMap_range', List.take_of_length_le (by simp)]
    case allButLast =>
      rw [designated, wordsFrom_some, filterMap_range', List.dropLast_eq_take, List.length_drop,
        Nat.sub_sub]
    case keyValuePairs =>
      rw [designated, wordsFrom_some, everySecond_drop cmd (cmd.length / 2) 1 (by omega)]
    case destinationCounted =>
      rw [designated, keyCount_some]
      cases cmd[2]?.bind Decimal.readCount? with
      | none => rfl
      | some count =>
        simp only [Option.elim_some, Except.map, List.filterMap_cons, filterMap_range', counted,
          wordsFrom_some, word?_some, Family.reach, Family.countPlace?]
        cases cmd[1]? <;> rfl

/-- A count close to `2 ^ 64` covers no key. -/
example : designated (Routable.words (Command.ofWords ["EVAL", "s", "18446744073709551615", "foo"]))
    (Bytes.ofText "EVAL") .countedSecond = .ok (some []) := by
  decide +kernel

theorem designated_of_le (cmd : Command) (name : Bytes) {f : Family} (h : f.HasPlaces)
    (hbound : ∀ count, cmd.keyCount? f = some count → count ≤ 2 ^ 64 - 4) :
    designated (Routable.words cmd) name f =
      (cmd.keyCount? f).elim (.error (.invalidKeyCount name)) fun _ =>
        .ok (if cmd.IsFree f then none else some (cmd.keys f)) := by
  rw [designated_eq cmd name h, Command.keys]
  cases hcount : cmd.keyCount? f with
  | none => rfl
  | some count => simp only [Option.elim_some, Family.reach_of_le (hbound count hcount)]

-- Whatever the count is, nothing but keys is designated.
theorem designated_subset {cmd : Command} {name : Bytes} {f : Family} {keys : List Bytes}
    (h : f.HasPlaces) (hkeys : designated (Routable.words cmd) name f = .ok (some keys)) :
    keys ⊆ cmd.keys f := by
  rw [designated_eq cmd name h] at hkeys
  unfold Command.keys
  cases hcount : cmd.keyCount? f with
  | none => simp [hcount] at hkeys
  | some count =>
    have hsome : keys = (f.keyPlaces cmd.length (f.reach count)).filterMap (cmd[·]?) := by
      by_cases hfree : cmd.IsFree f
      · simp [hcount, hfree] at hkeys
      · simpa [hcount, hfree] using hkeys.symm
    subst hsome
    exact ((Family.keyPlaces_sublist (f.reach_le count) f).filterMap _).subset

/-! ## The slot of the keys -/

/-- Two of the keys are in different slots. -/
def Apart (keys : List Bytes) : Prop := ∃ a ∈ keys, ∃ b ∈ keys, Slot.ofKey a ≠ Slot.ofKey b

/-- All of the keys are in this slot. -/
def Together (keys : List Bytes) (slot : UInt16) : Prop :=
  keys ≠ [] ∧ ∀ key ∈ keys, Slot.ofKey key = slot

theorem Together.not_apart {keys : List Bytes} {slot : UInt16} (h : Together keys slot) :
    ¬ Apart keys := by
  rintro ⟨a, ha, b, hb, hne⟩
  exact hne ((h.2 a ha).trans (h.2 b hb).symm)

theorem Together.unique {keys : List Bytes} {slot slot' : UInt16} (h : Together keys slot)
    (h' : Together keys slot') : slot' = slot := by
  obtain ⟨key, hkey⟩ := List.exists_mem_of_ne_nil keys h.1
  exact (h'.2 key hkey).symm.trans (h.2 key hkey)

theorem commonSlot_cases (name : Bytes) (keys : List Bytes) :
    (∃ slot, Together keys slot ∧ commonSlot name keys = .ok slot) ∨
    (keys = [] ∧ commonSlot name keys = .error (.noKey name)) ∨
    (Apart keys ∧ ∃ slot other, commonSlot name keys = .error (.keysInSlots name slot other)) := by
  cases keys with
  | nil => exact .inr (.inl ⟨rfl, rfl⟩)
  | cons key rest =>
    simp only [commonSlot]
    cases hfind : (rest.map Slot.ofKey).find? (· ≠ Slot.ofKey key) with
    | none =>
      have hsame : ∀ other ∈ rest, Slot.ofKey other = Slot.ofKey key := by
        simpa using List.find?_eq_none.mp hfind
      exact .inl ⟨_, ⟨by simp, by simpa using hsame⟩, rfl⟩
    | some other =>
      obtain ⟨twin, htwin, rfl⟩ := List.mem_map.mp (List.mem_of_find?_eq_some hfind)
      have hdiffers : Slot.ofKey twin ≠ Slot.ofKey key := by simpa using List.find?_some hfind
      exact .inr (.inr ⟨⟨twin, by simp [htwin], key, by simp, hdiffers⟩, _, _, rfl⟩)

end Words

/-! ## Routes by keys -/

namespace Command

open Words

/-- Who may serve a command of this name. -/
def roleOf (name : Bytes) : SlotRole :=
  if CommandTable.isReadOnly name then .replicaOptional else .master

variable {cmd cmd' : Command} {name : Bytes} {f : Family}

theorem keys_of_unread (h : cmd.keyCount? f = none) : cmd.keys f = [] := by
  rw [keys, h]

theorem IsFree.keys (h : cmd.IsFree f) : cmd.keys f = [] := by
  obtain ⟨rfl | rfl, hcount⟩ := h <;> simp [Command.keys, hcount, Family.keyPlaces]

section Outcomes

variable (hnamed : Words.checkedName (Routable.words cmd) = .ok name)
  (hfamily : CommandTable.familyOf name = f) (hplaces : f.HasPlaces)

include hnamed hfamily hplaces

theorem routing_of_places : Routing.of cmd = (Routable.words cmd).routeByKeys name f := by
  rw [Routing.of, routing, hnamed]
  simp only [bind, Except.bind, hfamily]
  cases f
  case allNodes | allMasters | anyNode | slotArgument | streams => exact absurd hplaces (by decide)
  all_goals rfl

theorem outcomes_of_places
    (hbound : ∀ count, cmd.keyCount? f = some count → count ≤ 2 ^ 64 - 4) :
    (∃ slot, Together (cmd.keys f) slot ∧
      Routing.of cmd = .ok (.single (.route ⟨slot, roleOf name⟩))) ∨
    (Apart (cmd.keys f) ∧ ∃ fault, Routing.of cmd = .error fault ∧ fault.kind = .crossSlot) ∨
    (cmd.keys f = [] ∧ ¬ cmd.IsFree f ∧
      ∃ fault, Routing.of cmd = .error fault ∧ fault.kind = .client) ∨
    (cmd.IsFree f ∧ Routing.of cmd = .ok (.single .random)) := by
  rw [routing_of_places hnamed hfamily hplaces, routeByKeys,
    designated_of_le cmd name hplaces hbound]
  cases hcount : cmd.keyCount? f with
  | none =>
    have hfree : ¬ cmd.IsFree f := fun hfree => by simp [IsFree, hcount] at hfree
    exact .inr (.inr (.inl ⟨keys_of_unread hcount, hfree, _, rfl, rfl⟩))
  | some count =>
    rw [Option.elim_some]
    by_cases hfree : cmd.IsFree f
    · rw [if_pos hfree]
      exact .inr (.inr (.inr ⟨hfree, rfl⟩))
    rw [if_neg hfree]
    obtain ⟨slot, htogether, hslot⟩ | ⟨hnone, hslot⟩ | ⟨hapart, slot, other, hslot⟩ :=
      commonSlot_cases name (cmd.keys f)
    · exact .inl ⟨slot, htogether, by simp only [bind, Except.bind, hslot]; rfl⟩
    · exact .inr (.inr (.inl ⟨hnone, hfree, .noKey name,
        by simp only [bind, Except.bind, hslot], rfl⟩))
    · exact .inr (.inl ⟨hapart, .keysInSlots name slot other,
        by simp only [bind, Except.bind, hslot], rfl⟩)

end Outcomes

namespace Keyed

theorem of_same (h : cmd.Keyed name f) (hlength : cmd'.length = cmd.length)
    (hsame : ∀ i ∈ cmd.decidingPlaces f, cmd'[i]? = cmd[i]?) :
    cmd'.Keyed name f ∧ cmd'.keyCount? f = cmd.keyCount? f ∧ cmd'.keys f = cmd.keys f := by
  have hnamed : checkedName (Routable.words cmd') = .ok name := by
    rw [← h.named]
    refine checkedName_congr ?_ fun hcontainer => ?_
    · rw [word?_some, word?_some, hsame 0 (by simp [decidingPlaces])]
    · rw [word?_some, word?_some, hsame 1 (by simp [decidingPlaces, hcontainer])]
  have hcount : cmd'.keyCount? f = cmd.keyCount? f := by
    unfold keyCount?
    cases hplace : f.countPlace? with
    | none => rfl
    | some i =>
      change cmd'[i]?.bind _ = cmd[i]?.bind _
      rw [hsame i (by simp [decidingPlaces, hplace])]
  refine ⟨⟨hnamed, h.family, h.places, fun count hc => h.count_le count (hcount ▸ hc)⟩, hcount, ?_⟩
  unfold keys
  rw [hcount, hlength]
  cases hc : cmd.keyCount? f with
  | none => rfl
  | some count =>
    exact List.filterMap_congr fun i hi => hsame i (by simp [decidingPlaces, hc, hi])

theorem routing_of_same (h : cmd.Keyed name f) (hlength : cmd'.length = cmd.length)
    (hsame : ∀ i ∈ cmd.decidingPlaces f, cmd'[i]? = cmd[i]?) :
    Routing.of cmd' = Routing.of cmd := by
  obtain ⟨h', hcount, hkeys⟩ := h.of_same hlength hsame
  rw [routing_of_places h.named h.family h.places, routing_of_places h'.named h'.family h'.places,
    routeByKeys, routeByKeys, designated_of_le cmd' name h'.places h'.count_le,
    designated_of_le cmd name h.places h.count_le]
  have hfree : cmd'.IsFree f ↔ cmd.IsFree f := by rw [isFree_iff, isFree_iff, hcount]
  simp only [hfree, hcount, hkeys]

end Keyed

/-- **Only keys decide the route.** -/
theorem Keyed.keys_decide (h : cmd.Keyed name f) :
    (∀ r, Routing.of cmd = .ok (.single (.route r)) ↔
      Together (cmd.keys f) r.slot ∧ r.role = roleOf name) ∧
    (∀ slot, Together (cmd.keys f) slot → slot.toNat < 16384) ∧
    ((∃ fault, Routing.of cmd = .error fault ∧ fault.kind = .crossSlot) ↔ Apart (cmd.keys f)) ∧
    ((∃ fault, Routing.of cmd = .error fault ∧ fault.kind = .client) ↔
      cmd.keyCount? f = none ∨ cmd.keys f = [] ∧ ¬ cmd.IsFree f) ∧
    (Routing.of cmd = .ok (.single .random) ↔ cmd.IsFree f) ∧
    ∀ cmd' : Command, cmd'.length = cmd.length → (∀ i ∈ cmd.decidingPlaces f, cmd'[i]? = cmd[i]?) →
      Routing.of cmd' = Routing.of cmd := by
  have hbound : ∀ slot, Together (cmd.keys f) slot → slot.toNat < 16384 := by
    rintro slot ⟨hsome, hall⟩
    obtain ⟨key, hkey⟩ := List.exists_mem_of_ne_nil _ hsome
    exact hall key hkey ▸ Slot.ofKey_lt key
  have hunread : cmd.keyCount? f = none → cmd.keys f = [] ∧ ¬ cmd.IsFree f :=
    fun hcount => ⟨keys_of_unread hcount, fun hfree => by simp [IsFree, hcount] at hfree⟩
  have hclient : (cmd.keyCount? f = none ∨ cmd.keys f = [] ∧ ¬ cmd.IsFree f) ↔
      cmd.keys f = [] ∧ ¬ cmd.IsFree f := or_iff_right_of_imp hunread
  rw [hclient]
  -- The outcomes exclude each other, and so do what the keys are in each of them.
  obtain ⟨slot, htogether, hrouting⟩ | ⟨hapart, fault, hrouting, hkind⟩ |
    ⟨hnone, hfree, fault, hrouting, hkind⟩ | ⟨hfree, hrouting⟩ :=
      outcomes_of_places h.named h.family h.places h.count_le
  · have hfree : ¬ cmd.IsFree f := fun hfree => htogether.1 hfree.keys
    refine ⟨fun ⟨slot', role⟩ => ?_, hbound, ?_, ?_, ?_, fun cmd' => h.routing_of_same⟩
    · rw [hrouting]
      constructor
      · rintro ⟨⟩
        exact ⟨htogether, rfl⟩
      · rintro ⟨hslot, rfl⟩
        obtain rfl : slot' = slot := htogether.unique hslot
        rfl
    · simp [hrouting, htogether.not_apart]
    · simp [hrouting, htogether.1]
    · simp [hrouting, hfree]
  · have hsome : cmd.keys f ≠ [] := by
      rintro hnone
      simp [Apart, hnone] at hapart
    have hfree : ¬ cmd.IsFree f := fun hfree => hsome hfree.keys
    have htogether : ∀ slot, ¬ Together (cmd.keys f) slot :=
      fun slot hslot => hslot.not_apart hapart
    refine ⟨fun r => ?_, hbound, ?_, ?_, ?_, fun cmd' => h.routing_of_same⟩
    · simp [hrouting, htogether]
    · simp [hrouting, hkind, hapart]
    · simp [hrouting, hkind, hsome]
    · simp [hrouting, hfree]
  · refine ⟨fun r => ?_, hbound, ?_, ?_, ?_, fun cmd' => h.routing_of_same⟩
    · simp [hrouting, hnone, Together]
    · simp [hrouting, hkind, hnone, Apart]
    · simp [hrouting, hkind, hnone, hfree]
    · simp [hrouting, hfree]
  · have hnone := hfree.keys
    refine ⟨fun r => ?_, hbound, ?_, ?_, ?_, fun cmd' => h.routing_of_same⟩
    · simp [hrouting, hnone, Together]
    · simp [hrouting, hnone, Apart]
    · simp [hrouting, hfree]
    · simp [hrouting, hfree]

/-- Three keys stand in four places, and the weights after them may change. -/
theorem Keyed.keys_decide_weights :
    let cmd := ofWords ["ZUNIONSTORE", "{a}d", "2", "{a}x", "{a}y", "WEIGHTS", "1", "2"]
    let cmd' := ofWords ["ZUNIONSTORE", "{a}d", "2", "{a}x", "{a}y", "WEIGHTS", "3", "4"]
    cmd.Keyed (Bytes.ofText "ZUNIONSTORE") .destinationCounted ∧
      Together (cmd.keys .destinationCounted) 15495 ∧
      Routing.of cmd = .ok (.single (.route ⟨15495, .master⟩)) ∧
      Routing.of cmd' = Routing.of cmd := by
  intro cmd cmd'
  have hcount : cmd.keyCount? .destinationCounted = some 2 := by decide +kernel
  have h : cmd.Keyed (Bytes.ofText "ZUNIONSTORE") .destinationCounted :=
    { named := by decide +kernel
      family := by decide +kernel
      places := by decide
      count_le := fun count hc => by cases hcount.symm.trans hc; decide }
  have htogether : Together (cmd.keys .destinationCounted) 15495 := by
    constructor <;> decide +kernel
  obtain ⟨hroute, -, -, -, -, hsame⟩ := h.keys_decide
  exact ⟨h, htogether, (hroute _).mpr ⟨htogether, by decide +kernel⟩,
    hsame cmd' (by decide) (by decide +kernel)⟩

end Command

end SlotCluster
