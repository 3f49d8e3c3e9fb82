import SlotCluster.Proofs.EncodedTexts
import SlotCluster.Proofs.MergedViews
import SlotCluster.Simulated.Layout

/-!
# Layouts read back

A layout is written as a reply, and a discovery reads slot ranges in it: one for each part, with the
nodes of the host. If no two parts give a slot to different masters, the table that comes of them
serves the slots as the layout says.
-/

namespace SlotCluster

namespace Simulated

/-! ## What a layout says -/

/-- A port of the host as a node. -/
def nodeAt (host : String) (role : Role) (port : UInt16) : Node :=
  (Node.new host port role).withId (host ++ "-" ++ toString port.toNat)

namespace Part

variable (host : String) (p other : Part)

/-- The slots of the part are slots of a cluster. -/
def IsProper : Prop := p.first ≤ p.last ∧ p.last < Slot.count

def Covers (slot : UInt16) : Prop := p.first ≤ slot ∧ slot ≤ p.last

/-- The parts share a slot. -/
def Overlaps : Prop := ∃ slot, p.Covers slot ∧ other.Covers slot

def owners : SlotOwners := ⟨nodeAt host .master p.primary, p.replicas.map (nodeAt host .replica)⟩

/-- The part as a discovery reads it. -/
def range : SlotRange := ⟨p.first, p.last, (p.owners host).primary, (p.owners host).replicas⟩

instance : Decidable p.IsProper := inferInstanceAs (Decidable (_ ∧ _))

instance (slot : UInt16) : Decidable (p.Covers slot) := inferInstanceAs (Decidable (_ ∧ _))

theorem overlaps_iff : p.Overlaps other ↔
    p.first ≤ p.last ∧ p.first ≤ other.last ∧ other.first ≤ p.last ∧ other.first ≤ other.last := by
  simp only [Overlaps, Covers, UInt16.le_iff_toNat_le]
  constructor
  · rintro ⟨slot, hp, hother⟩
    omega
  · intro h
    by_cases hfirst : p.first.toNat ≤ other.first.toNat
    · exact ⟨other.first, by omega⟩
    · exact ⟨p.first, by omega⟩

instance : Decidable (p.Overlaps other) := decidable_of_iff _ (p.overlaps_iff other).symm

end Part

/-- Parts that share a slot have one master. -/
def Layout.Agrees (l : Layout) : Prop :=
  ∀ p ∈ l, ∀ other ∈ l, p.Overlaps other → p.primary = other.primary

instance (l : Layout) : Decidable l.Agrees := inferInstanceAs (Decidable (∀ p ∈ l, _))

end Simulated

open Simulated

/-! ## Reading a layout -/

namespace SlotRange

theorem host?_bulk {answering host : String} (hsome : host ≠ "") (hknown : host ≠ "?") :
    host? answering (.bulk (Bytes.ofText host)) = some host := by
  unfold host?
  simp only [Bytes.lossy_ofText, String.isEmpty_iff]
  rw [if_neg hsome, if_neg hknown]

theorem word?_port (p : UInt16) : word? (Layout.port p) = some p := by
  have hp := p.toNat_lt
  have hint : (Int64.ofNat p.toNat).toInt = p.toNat := Int64.toInt_ofNat_of_lt (by omega)
  unfold word? Layout.port
  simp only [Int64.le_iff_toInt_le, Int64.lt_iff_toInt_lt, hint]
  rw [if_pos (by simp; omega), Int.toNat_natCast, UInt16.ofNat_toNat]

section Host

variable {answering host : String} (hsome : host ≠ "") (hknown : host ≠ "?")

include hsome hknown

theorem node?_node (role : Role) (port : UInt16) :
    node? answering role (Layout.node host port) = some (nodeAt host role port) := by
  simp [node?, Layout.node, host?_bulk hsome hknown, word?_port, Bytes.lossy_ofText, nodeAt]

theorem entry?_part (p : Part) :
    entry? answering (Layout.part host p) =
      some (p.first, p.last, (p.owners host).primary, (p.owners host).replicas) := by
  have hreplicas : (p.replicas.map (Layout.node host)).filterMap (node? answering .replica) =
      p.replicas.map (nodeAt host .replica) := by
    rw [List.filterMap_map]
    exact List.filterMap_eq_map_iff_forall_eq_some.mpr fun port _ => node?_node hsome hknown _ port
  simp [Layout.part, entry?, nodes?, word?_port, node?_node hsome hknown, hreplicas, Part.owners]

theorem ofEntries_parts (l : Layout) :
    ofEntries answering (l.map (Layout.part host)) =
      match l.find? fun p => ¬ p.IsProper with
      | some p => .error (.invalidSlotRange p.first p.last)
      | none => .ok (l.map (Part.range host)) := by
  induction l with
  | nil => rfl
  | cons p rest ih =>
    rw [List.map_cons, ofEntries, entry?_part hsome hknown]
    simp only
    have hnew : p.IsProper ↔ ¬ (p.last < p.first ∨ Slot.count ≤ p.last) := by
      rw [not_or, UInt16.not_lt, UInt16.not_le]
      exact Iff.rfl
    by_cases hp : p.IsProper
    · rw [SlotRange.new, if_neg (hnew.mp hp), ih, List.find?_cons_of_neg (by simpa using hp)]
      cases rest.find? fun p => ¬ p.IsProper <;> rfl
    · rw [SlotRange.new, if_pos (not_not.mp (mt hnew.mpr hp)),
        List.find?_cons_of_pos (by simpa using hp)]
      rfl

end Host

end SlotRange

/-! ## Serving a layout -/

namespace Simulated.Layout

/-- The table serves the slots as the layout says. -/
structure ServedBy (host : String) (l : Layout) (t : SlotTable) : Prop where
  /-- The first part over a slot decides about it. -/
  owners (slot : UInt16) :
    t.get? slot = (l.find? fun p => p.Covers slot).map (Part.owners host)
  masters : ∀ p ∈ l, ∀ slot, p.Covers slot →
    (t.get? slot).map SlotOwners.primary = some (nodeAt host .master p.primary)
  unassigned (slot : UInt16) : t.get? slot = none ↔ ∀ p ∈ l, ¬ p.Covers slot

variable {host : String} {l : Layout}

theorem Agrees.ranges (h : l.Agrees) : SlotRange.Agree (l.map (Part.range host)) := by
  intro s hs other hother hcollides
  obtain ⟨p, hp, rfl⟩ := List.mem_map.mp hs
  obtain ⟨q, hq, rfl⟩ := List.mem_map.mp hother
  obtain ⟨hoverlaps, hne⟩ := hcollides
  apply hne
  simp only [Part.range, Part.owners, h p hp q hq hoverlaps]

theorem servedBy_of_shows {t : Topology} (h : l.Agrees)
    (ht : t.Shows (l.map (Part.range host))) : l.ServedBy host t.table := by
  have howners : ∀ slot, t.table.get? slot =
      (l.find? fun p => p.Covers slot).map (Part.owners host) := by
    intro slot
    rw [ht.owners, List.find?_map, Option.map_map]
    rfl
  refine ⟨howners, fun p hp slot hslot => ?_, fun slot => ?_⟩
  · have hsome : (l.find? fun p => p.Covers slot).isSome :=
      List.find?_isSome.mpr ⟨p, hp, by simpa using hslot⟩
    obtain ⟨first, hfirst⟩ := Option.isSome_iff_exists.mp hsome
    have hcovers : first.Covers slot := by simpa using List.find?_some hfirst
    have hport := h first (List.mem_of_find?_eq_some hfirst) p hp ⟨slot, hcovers, hslot⟩
    rw [howners, hfirst]
    simp [Part.owners, hport]
  · rw [howners]
    simp

/-- **A discovery takes a layout as it was written,** from whatever host the reply comes. A part
with slots that a cluster does not have makes it fail. -/
theorem discovered_as_laid_out (host answering : String) (l : Layout) (hsome : host ≠ "")
    (hknown : host ≠ "?") :
    ((∀ p ∈ l, p.IsProper) → l.Agrees → ∃ ranges t,
      SlotRange.ofReply answering (l.reply host) = .ok ranges ∧
      Topology.empty.merge ranges = .ok t ∧ l.ServedBy host t.table) ∧
    ((∃ p ∈ l, ¬ p.IsProper) → ∃ p ∈ l, ¬ p.IsProper ∧
      SlotRange.ofReply answering (l.reply host) = .error (.invalidSlotRange p.first p.last)) := by
  have hread : SlotRange.ofReply answering (l.reply host) = _ :=
    SlotRange.ofEntries_parts hsome hknown l
  constructor
  · intro hproper hagrees
    have hnone : (l.find? fun p => ¬ p.IsProper) = none := by
      simpa using hproper
    rw [hnone] at hread
    have hlisted := SlotRange.listed_of_ofReply hread
    obtain ⟨-, t, ht, hshows⟩ | ⟨hnot, -⟩ :=
      Topology.merge_cases Topology.shows_empty (by simp [SlotRange.Agree]) hlisted
    · exact ⟨_, t, hread, ht, servedBy_of_shows hagrees hshows⟩
    · exact absurd hagrees.ranges hnot
  · rintro ⟨p, hp, himproper⟩
    have hfound : (l.find? fun p => ¬ p.IsProper).isSome :=
      List.find?_isSome.mpr ⟨p, hp, by simpa using himproper⟩
    obtain ⟨first, hfirst⟩ := Option.isSome_iff_exists.mp hfound
    rw [hfirst] at hread
    have hnot : ¬ first.IsProper := by simpa using List.find?_some hfirst
    exact ⟨first, List.mem_of_find?_eq_some hfirst, hnot, hread⟩

/-- Two parts overlap, and the replicas of the first one serve the slots of both. With a third part
whose slots run backwards the layout can not be read. -/
theorem discovered_as_laid_out_overlapping :
    let l : Layout := [⟨100, 300, 7000, [7001, 7002]⟩, ⟨0, 16383, 7000, []⟩]
    let more : Layout := l ++ [⟨300, 100, 7000, []⟩]
    let node := nodeAt "knöten"
    (∃ ranges t, SlotRange.ofReply "a" (l.reply "knöten") = .ok ranges ∧
      Topology.empty.merge ranges = .ok t ∧ l.ServedBy "knöten" t.table ∧
      t.table.get? 200 = some ⟨node .master 7000, [node .replica 7001, node .replica 7002]⟩ ∧
      t.table.get? 301 = some ⟨node .master 7000, []⟩) ∧
    SlotRange.ofReply "a" (more.reply "knöten") = .error (.invalidSlotRange 300 100) := by
  intro l more node
  have hsome : "knöten" ≠ "" := by decide
  have hknown : "knöten" ≠ "?" := by decide
  obtain ⟨hreads, -⟩ := discovered_as_laid_out "knöten" "a" l hsome hknown
  obtain ⟨-, hfails⟩ := discovered_as_laid_out "knöten" "a" more hsome hknown
  obtain ⟨ranges, t, hranges, ht, hserved⟩ := hreads (by decide) (by decide)
  obtain ⟨p, hp, himproper, hfail⟩ := hfails (by decide)
  have hlast : ∀ p ∈ more, ¬ p.IsProper → p = ⟨300, 100, 7000, []⟩ := by decide
  obtain rfl := hlast p hp himproper
  refine ⟨⟨ranges, t, hranges, ht, hserved, ?_, ?_⟩, hfail⟩
  · rw [hserved.owners]
    rfl
  · rw [hserved.owners]
    rfl

/-- The layouts to start with are proper, and agree. -/
example : ∀ l ∈ [oneNode, twoNodes, withReplicas], (∀ p ∈ l, p.IsProper) ∧ l.Agrees := by decide

end Simulated.Layout

end SlotCluster
