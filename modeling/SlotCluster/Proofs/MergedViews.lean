import Mathlib.Data.Finset.Union
import Mathlib.Order.Interval.Finset.Nat
import SlotCluster.Proofs.Topologies

/-!
# Merged views

Several nodes describe the cluster, and their ranges become one topology. Two ranges that share a
slot have to name one master. If all do, the first range over a slot decides about it, and in
whatever order the ranges come, the slots have the same masters.
-/

namespace SlotCluster

/-! ## Views -/

namespace SlotRange

instance (s : SlotRange) (slot : UInt16) : Decidable (s.Covers slot) :=
  inferInstanceAs (Decidable (_ ∧ _))

def owners (s : SlotRange) : SlotOwners := ⟨s.primary, s.replicas⟩

/-- The ranges share a slot, and name different masters for it. -/
def Collides (s other : SlotRange) : Prop :=
  (∃ slot, s.Covers slot ∧ other.Covers slot) ∧ s.primary.name ≠ other.primary.name

/-- The numbers of the slots. -/
def span (s : SlotRange) : Finset Nat := Finset.Icc s.first.toNat s.last.toNat

theorem mem_span_iff {s : SlotRange} {slot : UInt16} : slot.toNat ∈ s.span ↔ s.Covers slot := by
  rw [span, Finset.mem_Icc, Covers, UInt16.le_iff_toNat_le, UInt16.le_iff_toNat_le]

/-- No two of the ranges collide. -/
def Agree (ranges : List SlotRange) : Prop := ∀ s ∈ ranges, ∀ other ∈ ranges, ¬ s.Collides other

theorem Collides.symm {s other : SlotRange} (h : s.Collides other) : other.Collides s := by
  obtain ⟨⟨slot, hs, hother⟩, hne⟩ := h
  exact ⟨⟨slot, hother, hs⟩, hne.symm⟩

theorem not_collides_self (s : SlotRange) : ¬ s.Collides s := fun h => h.2 rfl

theorem Agree.concat {ranges : List SlotRange} {s : SlotRange} (h : Agree ranges)
    (hs : ∀ r ∈ ranges, ¬ r.Collides s) : Agree (ranges ++ [s]) := by
  simp only [Agree, List.forall_mem_append, List.forall_mem_singleton]
  refine ⟨fun r hr => ⟨h r hr, hs r hr⟩, fun r hr hcollides => hs r hr hcollides.symm, ?_⟩
  exact not_collides_self s

theorem not_agree_iff {ranges : List SlotRange} :
    ¬ Agree ranges ↔ ∃ s ∈ ranges, ∃ other ∈ ranges, s.Collides other := by
  simp [Agree]

theorem agree_of_perm {ranges more : List SlotRange} (h : more.Perm ranges) :
    Agree more ↔ Agree ranges := by
  simp only [Agree, h.mem_iff]

end SlotRange

namespace Topology

/-! ## Nodes -/

theorem get?_addNode {nodes : NodeTable} {node n : Node} {name : String}
    (h : (addNode nodes node).get? name = some n) :
    nodes.get? name = some n ∨ name = node.name ∧ n = node := by
  unfold addNode at h
  split at h
  · exact .inl h
  · by_cases hname : name = node.name
    · subst hname
      rw [NodeTable.get?_insert_self] at h
      exact .inr ⟨rfl, (Option.some.inj h).symm⟩
    · exact .inl ((nodes.get?_insert_ne node hname).symm.trans h)

theorem get?_foldl_addNode {added : List Node} {nodes : NodeTable} {n : Node} {name : String}
    (h : (added.foldl addNode nodes).get? name = some n) :
    nodes.get? name = some n ∨ name = n.name ∧ n ∈ added := by
  induction added generalizing nodes with
  | nil => exact .inl h
  | cons node rest ih =>
    rcases ih h with h | ⟨hname, h⟩
    · rcases get?_addNode h with h | ⟨hname, rfl⟩
      · exact .inl h
      · exact .inr ⟨hname, .head _⟩
    · exact .inr ⟨hname, .tail _ h⟩

/-! ## One range -/

theorem assign_ok {owners : SlotOwners} {slots : List UInt16} {t : SlotTable}
    (h : ∀ slot ∈ slots, ∀ known, t.get? slot = some known →
      known.primary.name = owners.primary.name) : ∃ t', assign owners t slots = .ok t' := by
  induction slots generalizing t with
  | nil => exact ⟨t, rfl⟩
  | cons slot rest ih =>
    obtain ⟨hslot, hrest⟩ := List.forall_mem_cons.mp h
    unfold assign
    split
    · next known hknown =>
      rw [if_neg (not_not.mpr (hslot known hknown))]
      exact ih hrest
    · refine ih fun other hother known hknown => ?_
      rcases SlotTable.get?_set_cases hknown with hknown | ⟨-, rfl⟩
      · exact hrest other hother known hknown
      · rfl

/-- The topology has what the ranges say, and knows no other masters. -/
structure Shows (ranges : List SlotRange) (t : Topology) : Prop where
  owners (slot : UInt16) :
    t.table.get? slot = (ranges.find? fun s => s.Covers slot).map SlotRange.owners
  whole : t.Whole
  masters (name : String) : Known t.nodes name .master ↔ ∃ s ∈ ranges, s.primary.name = name

theorem shows_empty : empty.Shows [] where
  owners _ := SlotTable.get?_empty _
  whole := whole_empty
  masters _ := by simp [Known, empty, NodeTable.get?_empty]

variable {ranges : List SlotRange} {t t' : Topology} {s : SlotRange}

theorem Shows.exists_range (h : t.Shows ranges) {slot : UInt16} {known : SlotOwners}
    (hknown : t.table.get? slot = some known) :
    ∃ r ∈ ranges, r.Covers slot ∧ known = r.owners := by
  rw [h.owners, Option.map_eq_some_iff] at hknown
  obtain ⟨r, hfind, hr⟩ := hknown
  exact ⟨r, List.mem_of_find?_eq_some hfind, by simpa using List.find?_some hfind, hr.symm⟩

theorem Merged.get?_eq (h : Merged [s] t t') (slot : UInt16) :
    t'.table.get? slot =
      (t.table.get? slot).or (if s.Covers slot then some s.owners else none) := by
  have hsource : ∀ {known}, t'.table.get? slot = some known →
      t.table.get? slot = some known ∨ s.Covers slot ∧ known = s.owners := by
    intro known hknown
    refine (h.source hknown).imp_right ?_
    rintro ⟨r, hr, hcovers⟩
    obtain rfl := List.mem_singleton.mp hr
    exact hcovers
  cases hold : t.table.get? slot with
  | some known => exact h.kept hold
  | none =>
    rw [Option.none_or]
    split
    · next hcovers =>
      obtain ⟨known, hknown, -⟩ := h.agreed (List.mem_singleton_self s) hcovers
      rcases hsource hknown with hknown' | ⟨-, rfl⟩
      · rw [hold] at hknown'
        cases hknown'
      · exact hknown
    · next huncovered =>
      rw [Option.eq_none_iff_forall_ne_some]
      intro known hknown
      rcases hsource hknown with hknown' | ⟨hcovers, -⟩
      · rw [hold] at hknown'
        cases hknown'
      · exact huncovered hcovers

theorem known_master_addRange (hkeyed : t.nodes.Keyed) (hs : s.Listed) (name : String) :
    Known (s.replicas.foldl addNode (addNode t.nodes s.primary)) name .master ↔
      Known t.nodes name .master ∨ s.primary.name = name := by
  have hprimary := known_addNode t.nodes s.primary
  obtain ⟨-, hkept, -⟩ := foldl_addNode s.replicas (keyed_addNode hkeyed s.primary)
  constructor
  · rintro ⟨n, hn, hmaster⟩
    rcases get?_foldl_addNode hn with hn | ⟨-, hn⟩
    · rcases get?_addNode hn with hn | ⟨hname, -⟩
      · exact .inl ⟨n, hn, hmaster⟩
      · exact .inr hname.symm
    · have hreplica := hs.replicas n hn
      rw [hmaster rfl] at hreplica
      cases hreplica
  · rintro (hknown | rfl)
    · exact hkept _ _ (hknown.addNode s.primary)
    · rw [hs.master] at hprimary
      exact hkept _ _ hprimary

theorem Shows.addRange (h : t.Shows ranges) (hs : s.Listed)
    (hagree : ∀ r ∈ ranges, ¬ r.Collides s) :
    ∃ t', t.addRange s = .ok t' ∧ t'.Shows (ranges ++ [s]) := by
  obtain ⟨table, htable⟩ : ∃ table, assign s.owners t.table s.slots = .ok table := by
    apply assign_ok
    intro slot hslot known hknown
    obtain ⟨r, hr, hcovers, rfl⟩ := h.exists_range hknown
    by_contra hne
    exact hagree r hr ⟨⟨slot, hcovers, (SlotRange.mem_slots_iff hs.ordered).mp hslot⟩, hne⟩
  have hadd : t.addRange s =
      .ok ⟨table, s.replicas.foldl addNode (addNode t.nodes s.primary)⟩ := by
    change (assign s.owners t.table s.slots >>= _) = _
    rw [htable]
    rfl
  have hmerged := merged_of_addRange hadd hs
  refine ⟨_, hadd, fun slot => ?_, hmerged.whole h.whole, fun name => ?_⟩
  · rw [hmerged.get?_eq, h.owners, List.find?_append]
    cases ranges.find? fun r => r.Covers slot with
    | some r => rfl
    | none =>
      by_cases hcovers : s.Covers slot <;> simp [hcovers]
  · rw [known_master_addRange h.whole.keyed hs, h.masters]
    simp [or_and_right, exists_or]

theorem Shows.agreed (h : t.Shows ranges) (hagree : SlotRange.Agree ranges) {r : SlotRange}
    (hr : r ∈ ranges) {slot : UInt16} (hcovers : r.Covers slot) :
    ∃ known, t.table.get? slot = some known ∧ known.primary.name = r.primary.name := by
  have hsome : (ranges.find? fun s => s.Covers slot).isSome :=
    List.find?_isSome.mpr ⟨r, hr, by simpa using hcovers⟩
  obtain ⟨first, hfirst⟩ := Option.isSome_iff_exists.mp hsome
  refine ⟨first.owners, by rw [h.owners, hfirst]; rfl, ?_⟩
  have hfirstCovers : first.Covers slot := by simpa using List.find?_some hfirst
  by_contra hne
  exact hagree first (List.mem_of_find?_eq_some hfirst) r hr ⟨⟨slot, hfirstCovers, hcovers⟩, hne⟩

theorem Shows.addRange_collision (h : t.Shows ranges) (hs : s.Listed)
    (hagree : SlotRange.Agree ranges) {r : SlotRange} (hr : r ∈ ranges) (hcollides : r.Collides s) :
    ∃ f, t.addRange s = .error f ∧ f.kind = .slotCollision := by
  cases hadd : t.addRange s with
  | error f =>
    have hmerge : t.merge [s] = .error f := by
      rw [merge, hadd]
      rfl
    exact ⟨f, rfl, kind_of_merge hmerge⟩
  | ok t' =>
    obtain ⟨⟨slot, hcovers, hcovers'⟩, hne⟩ := hcollides
    have hmerged := merged_of_addRange hadd hs
    obtain ⟨known, hknown, hname⟩ := h.agreed hagree hr hcovers
    obtain ⟨known', hknown', hname'⟩ := hmerged.agreed (List.mem_singleton_self s) hcovers'
    rw [hmerged.kept hknown] at hknown'
    cases hknown'
    exact absurd (hname.symm.trans hname') hne

/-! ## All ranges -/

theorem merge_cases (h : t.Shows ranges) (hagree : SlotRange.Agree ranges)
    {added : List SlotRange} (hadded : ∀ s ∈ added, s.Listed) :
    (SlotRange.Agree (ranges ++ added) ∧
      ∃ t', t.merge added = .ok t' ∧ t'.Shows (ranges ++ added)) ∨
    (¬ SlotRange.Agree (ranges ++ added) ∧
      ∃ f, t.merge added = .error f ∧ f.kind = .slotCollision) := by
  induction added generalizing t ranges with
  | nil =>
    rw [List.append_nil]
    exact .inl ⟨hagree, t, rfl, h⟩
  | cons s rest ih =>
    obtain ⟨hs, hrest⟩ := List.forall_mem_cons.mp hadded
    rw [merge]
    by_cases hcollision : ∃ r ∈ ranges, r.Collides s
    · obtain ⟨r, hr, hcollides⟩ := hcollision
      obtain ⟨f, hf, hkind⟩ := h.addRange_collision hs hagree hr hcollides
      refine .inr ⟨fun hall => hall r ?_ s ?_ hcollides, f, ?_, hkind⟩
      · exact List.mem_append_left _ hr
      · exact List.mem_append_right _ (.head _)
      · rw [hf]
        rfl
    · have hfree : ∀ r ∈ ranges, ¬ r.Collides s :=
        fun r hr hcollides => hcollision ⟨r, hr, hcollides⟩
      obtain ⟨t', ht', hshows⟩ := h.addRange hs hfree
      rw [ht', List.append_cons]
      exact ih hshows (hagree.concat hfree) hrest

/-- The views are merged one after the other. -/
def ofViews (views : List (List SlotRange)) : Except Fault Topology := views.foldlM merge empty

theorem merge_append (ranges more : List SlotRange) (t : Topology) :
    t.merge (ranges ++ more) = t.merge ranges >>= fun t' => t'.merge more := by
  induction ranges generalizing t with
  | nil => rfl
  | cons s rest ih =>
    rw [List.cons_append, merge, merge]
    cases t.addRange s with
    | error f => rfl
    | ok t' => exact ih t'

theorem foldlM_merge (views : List (List SlotRange)) (t : Topology) :
    views.foldlM merge t = t.merge views.flatten := by
  induction views generalizing t with
  | nil => rfl
  | cons view rest ih =>
    rw [List.foldlM_cons, List.flatten_cons, merge_append]
    exact congrArg _ (funext ih)

theorem ofViews_cases {views : List (List SlotRange)} (h : ∀ s ∈ views.flatten, s.Listed) :
    (SlotRange.Agree views.flatten ∧ ∃ t, ofViews views = .ok t ∧ t.Shows views.flatten) ∨
    (¬ SlotRange.Agree views.flatten ∧
      ∃ f, ofViews views = .error f ∧ f.kind = .slotCollision) := by
  rw [ofViews, foldlM_merge]
  exact merge_cases shows_empty (by simp [SlotRange.Agree]) h

theorem Shows.covered (h : t.Shows ranges) (hranges : ∀ s ∈ ranges, s.Listed) :
    t.table.covered = (ranges.toFinset.biUnion SlotRange.span).card := by
  rw [(SlotTable.counted_iff_owned _).mp h.whole.counted]
  congr 1
  ext i
  simp only [SlotTable.owned, Finset.mem_filter, Finset.mem_range, Finset.mem_biUnion,
    List.mem_toFinset]
  constructor
  · rintro ⟨hi, howned⟩
    have hslot := SlotTable.toNat_ofNat hi
    obtain ⟨known, hknown⟩ := Option.isSome_iff_exists.mp howned
    obtain ⟨r, hr, hcovers, -⟩ := h.exists_range hknown
    rw [← SlotRange.mem_span_iff, hslot] at hcovers
    exact ⟨r, hr, hcovers⟩
  · rintro ⟨r, hr, hspan⟩
    have hlast := (Finset.mem_Icc.mp hspan).2
    have hbounded := (hranges r hr).bounded
    have hi : i < 16384 := by omega
    have hslot := SlotTable.toNat_ofNat hi
    rw [← hslot, SlotRange.mem_span_iff] at hspan
    refine ⟨hi, ?_⟩
    rw [h.owners, Option.isSome_map]
    exact List.find?_isSome.mpr ⟨r, hr, by simpa using hspan⟩

/-- The topology says what the ranges say. -/
structure Unites (ranges : List SlotRange) (t : Topology) : Prop where
  /-- The first range over a slot decides about it. -/
  owners (slot : UInt16) : t.table.get? slot =
    (ranges.find? fun s => s.Covers slot).map fun s => ⟨s.primary, s.replicas⟩
  agreed : ∀ s ∈ ranges, ∀ slot, s.Covers slot →
    (t.table.get? slot).map (·.primary.name) = some s.primary.name
  covered : t.table.covered = (ranges.toFinset.biUnion SlotRange.span).card
  names : (t.nodes.values.map Node.name).Nodup
  masters (name : String) :
    (∃ n ∈ t.nodes.values, n.name = name ∧ n.role = .master) ↔ ∃ s ∈ ranges, s.primary.name = name

theorem Shows.unites (h : t.Shows ranges) (hagree : SlotRange.Agree ranges)
    (hranges : ∀ s ∈ ranges, s.Listed) : t.Unites ranges where
  owners := h.owners
  agreed s hs slot hcovers := by
    obtain ⟨known, hknown, hname⟩ := h.agreed hagree hs hcovers
    rw [hknown, Option.map_some, hname]
  covered := h.covered hranges
  names := h.whole.keyed.nodup
  masters name := by
    rw [← h.masters]
    constructor
    · rintro ⟨n, hn, rfl, hmaster⟩
      exact ⟨n, h.whole.keyed.get?_name hn, fun _ => hmaster⟩
    · rintro ⟨n, hn, hmaster⟩
      exact ⟨n, NodeTable.mem_values_iff.mpr ⟨name, hn⟩, h.whole.keyed.name_eq hn, hmaster rfl⟩

theorem Unites.perm {more : List SlotRange} (h : t.Unites ranges) (h' : t'.Unites more)
    (hperm : more.Perm ranges) :
    (∀ slot, (t'.table.get? slot).map (·.primary.name) =
      (t.table.get? slot).map (·.primary.name)) ∧ t'.table.covered = t.table.covered := by
  constructor
  · intro slot
    by_cases hcovered : ∃ s ∈ ranges, s.Covers slot
    · obtain ⟨s, hs, hcovers⟩ := hcovered
      rw [h.agreed s hs slot hcovers, h'.agreed s (hperm.mem_iff.mpr hs) slot hcovers]
    · have hnone : ∀ l : List SlotRange, (∀ s ∈ l, s ∈ ranges) →
          (l.find? fun s => s.Covers slot) = none := by
        intro l hl
        rw [List.find?_eq_none]
        intro s hs hcovers
        exact hcovered ⟨s, hl s hs, by simpa using hcovers⟩
      rw [h.owners, h'.owners, hnone ranges fun _ => id, hnone more fun _ => hperm.mem_iff.mp]
  · rw [h.covered, h'.covered, List.toFinset_eq_of_perm _ _ hperm]

theorem ofViews_perm {views views' : List (List SlotRange)}
    (h : ∀ s ∈ views.flatten, s.Listed) (hperm : views'.flatten.Perm views.flatten) :
    (∀ f, ofViews views = .error f → ∃ f', ofViews views' = .error f' ∧ f'.kind = f.kind) ∧
    ∀ t, ofViews views = .ok t → ∃ t', ofViews views' = .ok t' ∧
      (∀ slot, (t'.table.get? slot).map (·.primary.name) =
        (t.table.get? slot).map (·.primary.name)) ∧ t'.table.covered = t.table.covered := by
  have h' : ∀ s ∈ views'.flatten, s.Listed := fun s hs => h s (hperm.mem_iff.mp hs)
  have hsame := SlotRange.agree_of_perm hperm
  obtain ⟨hagree, t, ht, hshows⟩ | ⟨hnot, f, hf, hkind⟩ := ofViews_cases h <;>
    obtain ⟨hagree', t', ht', hshows'⟩ | ⟨hnot', f', hf', hkind'⟩ := ofViews_cases h'
  · have hunites := (hshows.unites hagree h).perm (hshows'.unites hagree' h') hperm
    simpa [ht, ht'] using hunites
  · exact absurd (hsame.mpr hagree) hnot'
  · exact absurd (hsame.mp hagree') hnot
  · simp [hf, hf', hkind, hkind']

/-- **Views unite unless two of their ranges collide,** and in any order alike. -/
theorem views_unite (views : List (List SlotRange))
    (hviews : ∀ view ∈ views, ∀ s ∈ view, s.Listed) :
    ((∃ f, ofViews views = .error f ∧ f.kind = .slotCollision) ↔
      ∃ s ∈ views.flatten, ∃ other ∈ views.flatten, s.Collides other) ∧
    ((¬ ∃ s ∈ views.flatten, ∃ other ∈ views.flatten, s.Collides other) →
      ∃ t, ofViews views = .ok t ∧ t.Unites views.flatten) ∧
    ∀ views' : List (List SlotRange), views'.flatten.Perm views.flatten →
      (∀ f, ofViews views = .error f → ∃ f', ofViews views' = .error f' ∧ f'.kind = f.kind) ∧
      ∀ t, ofViews views = .ok t → ∃ t', ofViews views' = .ok t' ∧
        (∀ slot, (t'.table.get? slot).map (·.primary.name) =
          (t.table.get? slot).map (·.primary.name)) ∧ t'.table.covered = t.table.covered := by
  have hlisted : ∀ s ∈ views.flatten, s.Listed := by
    intro s hs
    obtain ⟨view, hview, hs⟩ := List.mem_flatten.mp hs
    exact hviews view hview s hs
  rw [← SlotRange.not_agree_iff, not_not]
  refine ⟨?_, fun hagree => ?_, fun views' hperm => ofViews_perm hlisted hperm⟩
  · obtain ⟨hagree, t, ht, -⟩ | ⟨hnot, f, hf, hkind⟩ := ofViews_cases hlisted
    · simp [ht, hagree]
    · simp [hf, hkind, hnot]
  · obtain ⟨-, t, ht, hshows⟩ | ⟨hnot, -⟩ := ofViews_cases hlisted
    · exact ⟨t, ht, hshows.unites hagree hlisted⟩
    · exact absurd hagree hnot

/-- Ranges that overlap unite, and a third that names another master does not. -/
theorem views_unite_overlapping :
    let a : SlotRange := ⟨0, 100, Node.new "a" 1 .master, [Node.new "c" 3 .replica]⟩
    let more : SlotRange := ⟨50, 200, Node.new "a" 1 .master, []⟩
    let b : SlotRange := ⟨100, 300, Node.new "b" 2 .master, []⟩
    (∃ t, ofViews [[a], [more]] = .ok t ∧ t.table.covered = 201 ∧
      t.table.get? 70 = some ⟨a.primary, a.replicas⟩) ∧
    ∃ f, ofViews [[a], [more], [b]] = .error f ∧ f.kind = .slotCollision := by
  intro a more b
  have ha : a.Listed := ⟨by decide, by decide, rfl, by decide⟩
  have hmore : more.Listed := ⟨by decide, by decide, rfl, by decide⟩
  have hb : b.Listed := ⟨by decide, by decide, rfl, by decide⟩
  obtain ⟨-, hunite, -⟩ := views_unite [[a], [more]] (by simp [ha, hmore])
  obtain ⟨hcollide, -, -⟩ := views_unite [[a], [more], [b]] (by simp [ha, hmore, hb])
  refine ⟨?_, hcollide.mpr ⟨a, by simp, b, by simp, ⟨100, by decide⟩, by decide⟩⟩
  have hsame : ¬ ∃ s ∈ [[a], [more]].flatten, ∃ other ∈ [[a], [more]].flatten,
      s.Collides other := by
    rw [← SlotRange.not_agree_iff, not_not]
    intro s hs other hother hcollides
    have hname : ∀ r ∈ [[a], [more]].flatten, r.primary.name = "a:1" := by decide +kernel
    exact hcollides.2 ((hname s hs).trans (hname other hother).symm)
  obtain ⟨t, ht, hunites⟩ := hunite hsame
  have hspan : [[a], [more]].flatten.toFinset.biUnion SlotRange.span = Finset.Icc 0 200 := by
    ext i
    simp [SlotRange.span, a, more]
    omega
  refine ⟨t, ht, ?_, ?_⟩
  · rw [hunites.covered, hspan, Nat.card_Icc]
  · rw [hunites.owners]
    decide +kernel

end Topology

end SlotCluster
