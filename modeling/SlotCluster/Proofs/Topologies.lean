import Mathlib.Data.List.Nodup
import SlotCluster.Proofs.NodeTables
import SlotCluster.Proofs.SlotTables
import SlotCluster.Proofs.Upkeep

/-!
# Topologies

What a reply says about the slots, and what a topology has of it after its ranges were merged. A
topology is whole if its nodes are found by their names and those of its table are among them.
Merging keeps it so.
-/

namespace SlotCluster

/-! ## Slot ranges -/

namespace SlotRange

def Covers (s : SlotRange) (slot : UInt16) : Prop := s.first ≤ slot ∧ slot ≤ s.last

/-- An entry of the reply from the host `answering` gives the slot to this master. -/
def Names (answering : String) (r : Reply) (slot : UInt16) (master : Node) : Prop :=
  ∃ items, r = .array items ∧ ∃ item ∈ items, ∃ first last replicas,
    entry? answering item = some (first, last, master, replicas) ∧ first ≤ slot ∧ slot ≤ last

/-- No entry of the reply can be used. -/
def SaysNothing (answering : String) (r : Reply) : Prop :=
  ∃ items, r = .array items ∧ ∀ item ∈ items, entry? answering item = none

/-- The range is one that a reply may list. -/
structure Listed (s : SlotRange) : Prop where
  ordered : s.first ≤ s.last
  bounded : s.last.toNat < 16384
  master : s.primary.role = .master
  replicas : ∀ n ∈ s.replicas, n.role = .replica

theorem mem_slots_iff {s : SlotRange} (h : s.first ≤ s.last) {slot : UInt16} :
    slot ∈ s.slots ↔ s.Covers slot := by
  rw [UInt16.le_iff_toNat_le] at h
  have hlast := s.last.toNat_lt
  have hadd : ∀ i, i < s.last.toNat + 1 - s.first.toNat →
      (s.first + UInt16.ofNat i).toNat = s.first.toNat + i := by
    intro i hi
    rw [UInt16.toNat_add, UInt16.toNat_ofNat', Nat.mod_eq_of_lt (a := i) (by omega)]
    exact Nat.mod_eq_of_lt (by omega)
  simp only [slots, List.mem_map, List.mem_range, Covers, UInt16.le_iff_toNat_le]
  constructor
  · rintro ⟨i, hi, rfl⟩
    rw [hadd i hi]
    omega
  · rintro ⟨hfirst, hslot⟩
    refine ⟨slot.toNat - s.first.toNat, by omega, ?_⟩
    rw [← UInt16.toNat_inj, hadd _ (by omega)]
    omega

/-! ### Reading -/

theorem role_of_node? {answering : String} {role : Role} {r : Reply} {n : Node}
    (h : node? answering role r = some n) : n.role = role := by
  unfold node? at h
  split at h
  · simp only [Option.bind_eq_bind, Option.bind_eq_some_iff] at h
    obtain ⟨host, -, port, -, h⟩ := h
    split at h
    all_goals
      cases h
      rfl
  · cases h

theorem role_of_nodes? {answering : String} {rs : List Reply} {primary : Node}
    {replicas : List Node} (h : nodes? answering rs = some (primary, replicas)) :
    primary.role = .master ∧ ∀ n ∈ replicas, n.role = .replica := by
  induction rs with
  | nil => cases h
  | cons r rest ih =>
    unfold nodes? at h
    split at h
    · next hnode =>
      cases h
      refine ⟨role_of_node? hnode, fun n hn => ?_⟩
      obtain ⟨r', -, hr'⟩ := List.mem_filterMap.mp hn
      exact role_of_node? hr'
    · exact ih h

theorem role_of_entry? {answering : String} {r : Reply} {first last : UInt16} {primary : Node}
    {replicas : List Node} (h : entry? answering r = some (first, last, primary, replicas)) :
    primary.role = .master ∧ ∀ n ∈ replicas, n.role = .replica := by
  unfold entry? at h
  split at h
  · simp only [Option.bind_eq_bind, Option.bind_eq_some_iff] at h
    obtain ⟨first', -, last', -, ⟨primary', replicas'⟩, hnodes, h⟩ := h
    cases h
    exact role_of_nodes? hnodes
  · cases h

theorem new_ok {first last : UInt16} {primary : Node} {replicas : List Node} {s : SlotRange}
    (h : SlotRange.new first last primary replicas = .ok s) :
    s = ⟨first, last, primary, replicas⟩ ∧ first ≤ last ∧ last.toNat < 16384 := by
  unfold SlotRange.new at h
  split at h
  · cases h
  · next hvalid =>
    cases h
    rw [not_or, UInt16.not_lt, UInt16.not_le, UInt16.lt_iff_toNat_lt] at hvalid
    exact ⟨rfl, hvalid⟩

theorem ofEntries_ok {answering : String} {items : List Reply} {ranges : List SlotRange}
    (h : ofEntries answering items = .ok ranges) :
    (∀ s ∈ ranges, s.Listed) ∧ ∀ first last primary replicas,
      (⟨first, last, primary, replicas⟩ : SlotRange) ∈ ranges ↔
        ∃ item ∈ items, entry? answering item = some (first, last, primary, replicas) := by
  induction items generalizing ranges with
  | nil =>
    cases h
    simp
  | cons r rest ih =>
    unfold ofEntries at h
    split at h
    · next hentry =>
      obtain ⟨hlisted, hmem⟩ := ih h
      refine ⟨hlisted, ?_⟩
      intro first last primary replicas
      rw [hmem]
      simp [hentry]
    · next first last primary replicas hentry =>
      obtain ⟨range, hrange, h⟩ := exists_of_bind_ok h
      obtain ⟨more, hmore, h⟩ := exists_of_bind_ok h
      cases h
      obtain ⟨rfl, hordered, hbounded⟩ := new_ok hrange
      obtain ⟨hlisted, hmem⟩ := ih hmore
      constructor
      · rintro s (_ | ⟨_, hs⟩)
        · obtain ⟨hmaster, hreplicas⟩ := role_of_entry? hentry
          exact ⟨hordered, hbounded, hmaster, hreplicas⟩
        · exact hlisted s hs
      · intro first' last' primary' replicas'
        simp only [List.mem_cons, exists_eq_or_imp, hentry, Option.some.injEq, hmem]
        simp only [SlotRange.mk.injEq, Prod.mk.injEq, eq_comm]

theorem ofReply_ok {answering : String} {r : Reply} {ranges : List SlotRange}
    (h : ofReply answering r = .ok ranges) :
    ∃ items, r = .array items ∧ ofEntries answering items = .ok ranges := by
  unfold ofReply at h
  split at h
  · exact ⟨_, rfl, h⟩
  · cases h

section OfReply

variable {answering : String} {r : Reply} {ranges : List SlotRange}

theorem listed_of_ofReply (h : ofReply answering r = .ok ranges) : ∀ s ∈ ranges, s.Listed := by
  obtain ⟨items, rfl, h⟩ := ofReply_ok h
  exact (ofEntries_ok h).1

theorem names_iff_of_ofReply (h : ofReply answering r = .ok ranges) {slot : UInt16}
    {master : Node} :
    Names answering r slot master ↔ ∃ s ∈ ranges, s.Covers slot ∧ s.primary = master := by
  obtain ⟨items, rfl, h⟩ := ofReply_ok h
  obtain ⟨-, hmem⟩ := ofEntries_ok h
  constructor
  · rintro ⟨_, ⟨⟩, item, hitem, first, last, replicas, hentry, hcovers⟩
    exact ⟨⟨first, last, master, replicas⟩, (hmem ..).mpr ⟨item, hitem, hentry⟩, hcovers, rfl⟩
  · rintro ⟨⟨first, last, primary, replicas⟩, hs, hcovers, rfl⟩
    obtain ⟨item, hitem, hentry⟩ := (hmem ..).mp hs
    exact ⟨items, rfl, item, hitem, first, last, replicas, hentry, hcovers⟩

theorem saysNothing_iff_of_ofReply (h : ofReply answering r = .ok ranges) :
    SaysNothing answering r ↔ ranges = [] := by
  obtain ⟨items, rfl, h⟩ := ofReply_ok h
  obtain ⟨-, hmem⟩ := ofEntries_ok h
  constructor
  · rintro ⟨_, ⟨⟩, hnone⟩
    rw [List.eq_nil_iff_forall_not_mem]
    rintro ⟨first, last, primary, replicas⟩ hs
    obtain ⟨item, hitem, hentry⟩ := (hmem ..).mp hs
    rw [hnone item hitem] at hentry
    cases hentry
  · rintro rfl
    refine ⟨items, rfl, ?_⟩
    intro item hitem
    rcases hentry : entry? answering item with _ | ⟨first, last, primary, replicas⟩
    · rfl
    · exact absurd ((hmem ..).mpr ⟨item, hitem, hentry⟩) List.not_mem_nil

end OfReply

/-! ### Faults -/

theorem kind_of_new {first last : UInt16} {primary : Node} {replicas : List Node} {f : Fault}
    (h : SlotRange.new first last primary replicas = .error f) : f.kind = .parse := by
  unfold SlotRange.new at h
  split at h
  · cases h
    rfl
  · cases h

theorem kind_of_ofEntries {answering : String} {items : List Reply} {f : Fault}
    (h : ofEntries answering items = .error f) : f.kind = .parse := by
  induction items with
  | nil => cases h
  | cons r rest ih =>
    unfold ofEntries at h
    split at h
    · exact ih h
    · next first last primary replicas _ =>
      cases hrange : SlotRange.new first last primary replicas with
      | error g =>
        rw [hrange] at h
        cases h
        exact kind_of_new hrange
      | ok range =>
        cases hrest : ofEntries answering rest with
        | error g =>
          rw [hrange, hrest] at h
          cases h
          exact ih hrest
        | ok more =>
          rw [hrange, hrest] at h
          cases h

theorem kind_of_ofReply {answering : String} {r : Reply} {f : Fault}
    (h : ofReply answering r = .error f) : f.kind = .parse ∨ f.kind = .unexpectedReply := by
  unfold ofReply at h
  split at h
  · exact .inl (kind_of_ofEntries h)
  · cases h
    exact .inr rfl

end SlotRange

/-! ## Known nodes -/

namespace Topology

/-- A node is known by this name, and a master is wanted as one. -/
def Known (nodes : NodeTable) (name : String) (role : Role) : Prop :=
  ∃ n, nodes.get? name = some n ∧ (role = .master → n.role = .master)

theorem keyed_addNode {nodes : NodeTable} (h : nodes.Keyed) (node : Node) :
    (addNode nodes node).Keyed := by
  unfold addNode
  split
  · exact h
  · exact h.insert rfl

theorem known_addNode (nodes : NodeTable) (node : Node) :
    Known (addNode nodes node) node.name node.role := by
  unfold addNode
  split
  · next hmaster =>
    obtain ⟨known, hknown, hrole⟩ := (Option.any_eq_true _ _).mp hmaster
    exact ⟨known, hknown, fun _ => beq_iff_eq.mp hrole⟩
  · exact ⟨node, nodes.get?_insert_self _ node, id⟩

theorem Known.addNode {nodes : NodeTable} {name : String} {role : Role}
    (h : Known nodes name role) (node : Node) : Known (addNode nodes node) name role := by
  obtain ⟨n, hn, hrole⟩ := h
  unfold Topology.addNode
  split
  · exact ⟨n, hn, hrole⟩
  · next hreplica =>
    by_cases hname : name = node.name
    · -- What was known under this name is no master.
      subst hname
      refine ⟨node, nodes.get?_insert_self _ node, fun hmaster => ?_⟩
      rw [hn, Option.any_some, hrole hmaster] at hreplica
      exact absurd (beq_self_eq_true Role.master) hreplica
    · exact ⟨n, (nodes.get?_insert_ne node hname).trans hn, hrole⟩

theorem foldl_addNode (added : List Node) {nodes : NodeTable} (h : nodes.Keyed) :
    (added.foldl addNode nodes).Keyed ∧
      (∀ name role, Known nodes name role → Known (added.foldl addNode nodes) name role) ∧
      ∀ n ∈ added, Known (added.foldl addNode nodes) n.name n.role := by
  induction added generalizing nodes with
  | nil => exact ⟨h, fun _ _ hknown => hknown, by simp⟩
  | cons node rest ih =>
    obtain ⟨hkeyed, hkept, hadded⟩ := ih (keyed_addNode h node)
    rw [List.foldl_cons]
    refine ⟨hkeyed, fun name role hknown => hkept name role (hknown.addNode node), ?_⟩
    rintro n (_ | ⟨_, hn⟩)
    · exact hkept _ _ (known_addNode nodes node)
    · exact hadded n hn

/-! ## Whole topologies -/

structure Whole (t : Topology) : Prop where
  counted : t.table.Counted
  keyed : t.nodes.Keyed
  primaries {slot : UInt16} {owners : SlotOwners} (h : t.table.get? slot = some owners) :
    Known t.nodes owners.primary.name .master
  replicas {slot : UInt16} {owners : SlotOwners} (h : t.table.get? slot = some owners) {n : Node}
    (hn : n ∈ owners.replicas) : Known t.nodes n.name .replica

theorem whole_empty : empty.Whole where
  counted := SlotTable.counted_empty
  keyed := NodeTable.keyed_empty
  primaries h := by
    rw [empty, SlotTable.get?_empty] at h
    cases h
  replicas h := by
    rw [empty, SlotTable.get?_empty] at h
    cases h

theorem get?_single (node : Node) {slot : UInt16} (h : slot.toNat < 16384) :
    ∃ owner : Node, owner.name = node.name ∧ owner.role = .master ∧
      (single node).nodes = addNode .empty owner ∧
      (single node).table.get? slot = some ⟨owner, []⟩ := by
  refine ⟨_, node.name_eq.symm, rfl, rfl, ?_⟩
  rw [SlotTable.get?_of_lt _ h]
  exact Vector.getElem_replicate h

theorem isFull_single (node : Node) : (single node).table.isFull = true := by
  simp [SlotTable.isFull, single]

theorem whole_single (node : Node) : (single node).Whole where
  counted := by simp [SlotTable.Counted, single, Vector.countP_replicate]
  keyed := keyed_addNode NodeTable.keyed_empty _
  primaries {slot owners} h := by
    obtain ⟨owner, -, hrole, hnodes, hget⟩ := get?_single node (SlotTable.lt_of_get? h)
    rw [hget] at h
    cases h
    rw [hnodes]
    exact hrole ▸ known_addNode .empty owner
  replicas {slot owners} h n hn := by
    obtain ⟨owner, -, -, -, hget⟩ := get?_single node (SlotTable.lt_of_get? h)
    rw [hget] at h
    cases h
    cases hn

/-! ## Merging -/

/-- The slots have got owners, or have had others with the same master. -/
structure Assigned (owners : SlotOwners) (slots : List UInt16) (t t' : SlotTable) : Prop where
  kept {slot : UInt16} {known : SlotOwners} (h : t.get? slot = some known) :
    t'.get? slot = some known
  agreed {slot : UInt16} (h : slot ∈ slots) :
    ∃ known, t'.get? slot = some known ∧ known.primary.name = owners.primary.name
  source {slot : UInt16} {known : SlotOwners} (h : t'.get? slot = some known) :
    t.get? slot = some known ∨ slot ∈ slots ∧ known = owners
  counted : t.Counted → t'.Counted

theorem assigned_of_ok {owners : SlotOwners} {slots : List UInt16} {t t' : SlotTable}
    (h : assign owners t slots = .ok t') (hslots : ∀ slot ∈ slots, slot.toNat < 16384) :
    Assigned owners slots t t' := by
  induction slots generalizing t with
  | nil =>
    cases h
    exact ⟨id, by simp, .inl, id⟩
  | cons slot rest ih =>
    obtain ⟨hslot, hrest⟩ := List.forall_mem_cons.mp hslots
    unfold assign at h
    split at h
    · next known hknown =>
      split at h
      · cases h
      · next hname =>
        have ha := ih h hrest
        refine ⟨ha.kept, ?_, fun h' => ?_, ha.counted⟩
        · rintro other (_ | ⟨_, hother⟩)
          · exact ⟨known, ha.kept hknown, not_not.mp hname⟩
          · exact ha.agreed hother
        · exact (ha.source h').imp_right fun ⟨hmem, heq⟩ => ⟨.tail _ hmem, heq⟩
    · next hnone =>
      have ha := ih h hrest
      refine ⟨fun {other known} hknown => ha.kept ?_, ?_, fun {other known} h' => ?_,
        fun hcounted => ha.counted (hcounted.set slot owners)⟩
      · have hne : slot ≠ other := by
          rintro rfl
          rw [hnone] at hknown
          cases hknown
        rwa [SlotTable.get?_set_ne t owners hne]
      · rintro other (_ | ⟨_, hother⟩)
        · exact ⟨owners, ha.kept (SlotTable.get?_set_self t owners hslot), rfl⟩
        · exact ha.agreed hother
      · rcases ha.source h' with hset | ⟨hmem, heq⟩
        · exact (SlotTable.get?_set_cases hset).imp_right fun ⟨hother, heq⟩ =>
            ⟨by simp [hother], heq⟩
        · exact .inr ⟨.tail _ hmem, heq⟩

/-- What the ranges say is in the table, beside what was there before. -/
structure Merged (ranges : List SlotRange) (t t' : Topology) : Prop where
  kept {slot : UInt16} {known : SlotOwners} (h : t.table.get? slot = some known) :
    t'.table.get? slot = some known
  agreed {s : SlotRange} (hs : s ∈ ranges) {slot : UInt16} (h : s.Covers slot) :
    ∃ known, t'.table.get? slot = some known ∧ known.primary.name = s.primary.name
  source {slot : UInt16} {known : SlotOwners} (h : t'.table.get? slot = some known) :
    t.table.get? slot = some known ∨ ∃ s ∈ ranges, s.Covers slot ∧ known = ⟨s.primary, s.replicas⟩
  whole : t.Whole → t'.Whole

theorem merged_of_addRange {t t' : Topology} {s : SlotRange} (h : t.addRange s = .ok t')
    (hs : s.Listed) : Merged [s] t t' := by
  unfold addRange at h
  obtain ⟨table, htable, h⟩ := exists_of_bind_ok h
  cases h
  have hbounded : ∀ slot ∈ s.slots, slot.toNat < 16384 := by
    intro slot hslot
    have hlast := ((SlotRange.mem_slots_iff hs.ordered).mp hslot).2
    rw [UInt16.le_iff_toNat_le] at hlast
    exact Nat.lt_of_le_of_lt hlast hs.bounded
  have ha := assigned_of_ok htable hbounded
  have hsource : ∀ {slot : UInt16} {known : SlotOwners}, table.get? slot = some known →
      t.table.get? slot = some known ∨ s.Covers slot ∧ known = ⟨s.primary, s.replicas⟩ :=
    fun h => (ha.source h).imp_right fun ⟨hmem, heq⟩ =>
      ⟨(SlotRange.mem_slots_iff hs.ordered).mp hmem, heq⟩
  refine ⟨ha.kept, ?_, fun h => ?_, fun hwhole => ?_⟩
  · rintro _ (_ | ⟨_, ⟨⟩⟩) slot hcovers
    exact ha.agreed ((SlotRange.mem_slots_iff hs.ordered).mpr hcovers)
  · exact (hsource h).imp_right fun hcovers => ⟨s, List.mem_singleton_self s, hcovers⟩
  · have hprimary := known_addNode t.nodes s.primary
    obtain ⟨hkeyed, hkept, hadded⟩ :=
      foldl_addNode s.replicas (keyed_addNode hwhole.keyed s.primary)
    have hold : ∀ {name : String} {role : Role}, Known t.nodes name role →
        Known (s.replicas.foldl addNode (addNode t.nodes s.primary)) name role :=
      fun hknown => hkept _ _ (hknown.addNode s.primary)
    refine ⟨ha.counted hwhole.counted, hkeyed, fun h => ?_, fun h n hn => ?_⟩
    · rcases hsource h with h | ⟨-, rfl⟩
      · exact hold (hwhole.primaries h)
      · exact hs.master ▸ hkept _ _ hprimary
    · rcases hsource h with h | ⟨-, rfl⟩
      · exact hold (hwhole.replicas h hn)
      · obtain ⟨m, hm, -⟩ := hadded n hn
        exact ⟨m, hm, Role.noConfusion⟩

theorem merged_of_ok {t t' : Topology} {ranges : List SlotRange} (h : t.merge ranges = .ok t')
    (hranges : ∀ s ∈ ranges, s.Listed) : Merged ranges t t' := by
  induction ranges generalizing t with
  | nil =>
    cases h
    exact ⟨id, by simp, .inl, id⟩
  | cons s rest ih =>
    obtain ⟨hs, hrest⟩ := List.forall_mem_cons.mp hranges
    unfold merge at h
    obtain ⟨middle, hmiddle, h⟩ := exists_of_bind_ok h
    have hfirst := merged_of_addRange hmiddle hs
    have hmore := ih h hrest
    refine ⟨fun h => hmore.kept (hfirst.kept h), ?_, fun h => ?_,
      fun hwhole => hmore.whole (hfirst.whole hwhole)⟩
    · rintro s' (_ | ⟨_, hs'⟩) slot hcovers
      · obtain ⟨known, hknown, hname⟩ := hfirst.agreed (List.mem_singleton_self s) hcovers
        exact ⟨known, hmore.kept hknown, hname⟩
      · exact hmore.agreed hs' hcovers
    · rcases hmore.source h with h | ⟨s', hs', hcovers⟩
      · refine (hfirst.source h).imp_right ?_
        rintro ⟨_, (_ | ⟨_, ⟨⟩⟩), hcovers⟩
        exact ⟨s, .head _, hcovers⟩
      · exact .inr ⟨s', .tail _ hs', hcovers⟩

/-! ### Faults -/

theorem kind_of_assign {owners : SlotOwners} {t : SlotTable} {slots : List UInt16} {f : Fault}
    (h : assign owners t slots = .error f) : f.kind = .slotCollision := by
  induction slots generalizing t with
  | nil => cases h
  | cons slot rest ih =>
    unfold assign at h
    split at h
    · split at h
      · cases h
        rfl
      · exact ih h
    · exact ih h

theorem kind_of_merge {t : Topology} {ranges : List SlotRange} {f : Fault}
    (h : t.merge ranges = .error f) : f.kind = .slotCollision := by
  induction ranges generalizing t with
  | nil => cases h
  | cons s rest ih =>
    unfold merge addRange at h
    cases htable : assign ⟨s.primary, s.replicas⟩ t.table s.slots with
    | error g =>
      rw [htable] at h
      cases h
      exact kind_of_assign htable
    | ok table =>
      rw [htable] at h
      exact ih h

end Topology

end SlotCluster
