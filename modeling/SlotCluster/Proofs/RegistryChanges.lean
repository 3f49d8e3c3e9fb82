import SlotCluster.Proofs.MovedSlots

/-!
# Registry changes

A registry is changed in a few ways: a discovery replaces its tables, a slot gets another owner, a
node is entered, all is forgotten. The slot table counts its slots as they get an owner, and however
these changes follow one another, the count is the number of slots that have one.
-/

namespace SlotCluster

/-! ## Tables by their entries -/

namespace SlotTable

/-- The table in which these entries were made, one after the other. -/
def ofEntries (entries : List (UInt16 × SlotOwners)) : SlotTable :=
  entries.foldl (fun t entry => t.set entry.1 entry.2) empty

theorem ofEntries_concat (entries : List (UInt16 × SlotOwners)) (slot : UInt16)
    (owners : SlotOwners) :
    ofEntries (entries ++ [(slot, owners)]) = (ofEntries entries).set slot owners := by
  rw [ofEntries, List.foldl_append]
  rfl

theorem counted_ofEntries (entries : List (UInt16 × SlotOwners)) : (ofEntries entries).Counted := by
  induction entries using List.reverseRecOn with
  | nil => exact counted_empty
  | append_singleton entries entry ih =>
    rw [ofEntries_concat]
    exact ih.set entry.1 entry.2

theorem Counted.ext {t t' : SlotTable} (h : t.Counted) (h' : t'.Counted)
    (hget : ∀ slot, t.get? slot = t'.get? slot) : t = t' := by
  have hentries : t.entries = t'.entries := by
    rw [← Vector.toList_inj, entries_eq_map, entries_eq_map]
    exact List.map_congr_left fun i _ => hget _
  have hcovered : t.covered = t'.covered := by rw [h, h', hentries]
  cases t
  cases t'
  congr 1

theorem exists_entries (t : SlotTable) (n : Nat) (hn : n ≤ 16384) :
    ∃ entries, ∀ slot : UInt16,
      (ofEntries entries).get? slot = if slot.toNat < n then t.get? slot else none := by
  induction n with
  | zero => exact ⟨[], by simp [ofEntries]⟩
  | succ n ih =>
    obtain ⟨entries, hentries⟩ := ih (by omega)
    have hslot : (UInt16.ofNat n).toNat = n := toNat_ofNat (by omega)
    have hother : ∀ slot : UInt16, slot ≠ UInt16.ofNat n →
        (slot.toNat < n + 1 ↔ slot.toNat < n) := by
      intro slot hne
      have hne' : slot.toNat ≠ n := fun h => hne (UInt16.toNat_inj.mp (h.trans hslot.symm))
      omega
    cases howners : t.get? (UInt16.ofNat n) with
    | none =>
      refine ⟨entries, fun slot => ?_⟩
      rw [hentries]
      by_cases heq : slot = UInt16.ofNat n
      · simp [heq, howners]
      · simp [hother slot heq]
    | some owners =>
      refine ⟨entries ++ [(UInt16.ofNat n, owners)], fun slot => ?_⟩
      rw [ofEntries_concat]
      by_cases heq : slot = UInt16.ofNat n
      · rw [heq, get?_set_self _ _ (by omega), howners, hslot, if_pos (by omega)]
      · rw [get?_set_ne _ _ (Ne.symm heq), hentries]
        simp [hother slot heq]

theorem counted_iff_ofEntries {t : SlotTable} : t.Counted ↔ ∃ entries, t = ofEntries entries := by
  constructor
  · intro h
    obtain ⟨entries, hentries⟩ := t.exists_entries 16384 (Nat.le_refl _)
    refine ⟨entries, h.ext (counted_ofEntries entries) fun slot => ?_⟩
    rw [hentries]
    split
    · rfl
    · next hslot => exact get?_of_ge t hslot
  · rintro ⟨entries, rfl⟩
    exact counted_ofEntries entries

end SlotTable

namespace Registry

/-! ## Changes -/

/-- A change of the registry. A new slot table is given by its entries. -/
inductive Change
  | replace (entries : List (UInt16 × SlotOwners)) (nodes : NodeTable)
  | requireCoverage (required : Bool)
  | setOwner (slot : UInt16) (node : Node)
  | setNode (host : String) (port : UInt16) (role : Role)
  | countMoves (n : UInt64)
  | restartCount
  | flagRefresh
  | takeRefresh
  | addSeeds
  | forget

def change (r : Registry) : Change → Registry
  | .replace entries nodes => { r with slots := .ofEntries entries, nodes }
  | .requireCoverage required => { r with coverageRequired := required }
  | .setOwner slot node => r.setOwner slot node
  | .setNode host port role => (r.setNode host port role).2
  | .countMoves n => (r.countMoves n).2
  | .restartCount => { r with moves := 0 }
  | .flagRefresh => r.flagRefresh
  | .takeRefresh => r.takeRefresh.2
  | .addSeeds => r.addSeeds
  | .forget => r.forget

def after (r : Registry) (changes : List Change) : Registry := changes.foldl change r

theorem install_eq (r : Registry) (entries : List (UInt16 × SlotOwners)) (nodes : NodeTable)
    (required : Bool) :
    r.install (.ofEntries entries) nodes required =
      r.after [.replace entries nodes, .requireCoverage required, .restartCount, .takeRefresh,
        .addSeeds] :=
  rfl

theorem countMoves_slots (r : Registry) (n : UInt64) : (r.countMoves n).2.slots = r.slots := by
  unfold countMoves
  split <;> rfl

theorem counted_change {r : Registry} (h : r.slots.Counted) (change : Change) :
    (r.change change).slots.Counted := by
  cases change with
  | replace entries nodes => exact SlotTable.counted_ofEntries entries
  | setOwner slot node => exact h.set slot _
  | countMoves n => exact (r.countMoves_slots n).symm ▸ h
  | requireCoverage | setNode | restartCount | flagRefresh | takeRefresh | addSeeds => exact h
  | forget => exact SlotTable.counted_empty

theorem counted_after {r : Registry} (h : r.slots.Counted) (changes : List Change) :
    (r.after changes).slots.Counted := by
  induction changes generalizing r with
  | nil => exact h
  | cons change rest ih => exact ih (counted_change h change)

/-! ## The count -/

/-- The registry knows how many slots have an owner. -/
structure Tallies (r : Registry) : Prop where
  covered : r.slots.covered = r.slots.owned.card
  initialized : r.isInitialized = true ↔ 0 < r.slots.owned.card
  full : r.slots.isFull = true ↔ r.slots.owned.card = 16384

theorem tallies_of_counted {r : Registry} (h : r.slots.Counted) : r.Tallies := by
  have hcovered := r.slots.counted_iff_owned.mp h
  refine ⟨hcovered, ?_, ?_⟩
  · rw [isInitialized, decide_eq_true_eq, hcovered]
  · rw [SlotTable.isFull, beq_iff_eq, hcovered]

/-- The slot has got this owner, and nothing else has changed. -/
structure Reassigns (slot : UInt16) (node : Node) (r r' : Registry) : Prop where
  owner (h : slot.toNat < 16384) : (r'.slots.get? slot).map SlotOwners.primary = some node
  others : ∀ other, other ≠ slot → r'.slots.get? other = r.slots.get? other
  covered : r.slots.covered ≤ r'.slots.covered
  /-- A slot that no cluster has is not entered. -/
  outside (h : 16384 ≤ slot.toNat) : r'.slots = r.slots
  frame : r' = { r with slots := r'.slots }

theorem reassigns_setOwner (r : Registry) (slot : UInt16) (node : Node) :
    Reassigns slot node r (r.setOwner slot node) := by
  rw [setOwner_eq]
  have houtside : ∀ owners, 16384 ≤ slot.toNat → r.slots.set slot owners = r.slots :=
    fun owners h => dif_neg (by omega)
  refine ⟨fun h => ?_, fun other hother => ?_, ?_, houtside _, rfl⟩
  · rw [SlotTable.get?_set_self _ _ h]
    rfl
  · exact SlotTable.get?_set_ne _ _ (Ne.symm hother)
  · by_cases hslot : slot.toNat < 16384
    · rw [covered_set _ _ hslot]
      exact Nat.le_add_right _ _
    · rw [houtside _ (by omega)]

/-- **A registry knows how many of its slots have an owner, however it was changed.** Another owner
for a slot changes this slot only, and no slot loses its owner by that. -/
theorem tallies_after (seeds : List Node) (steps : UInt64) (replicas : Bool)
    (changes : List Change) :
    let r := (Registry.new seeds steps replicas).after changes
    r.Tallies ∧ ∀ (slot : UInt16) (node : Node), Reassigns slot node r (r.setOwner slot node) := by
  intro r
  have hcounted : r.slots.Counted := counted_after SlotTable.counted_empty changes
  exact ⟨tallies_of_counted hcounted, r.reassigns_setOwner⟩

/-- A slot is entered twice, and one outside the table; then two slots move, one of them again
outside, and the replica of a slot becomes its owner. -/
theorem tallies_after_entered_twice :
    let a := Node.new "a" 1 .master
    let b := Node.new "b" 2 .replica
    let nodes := [a, b].foldl Topology.addNode .empty
    let changes : List Change :=
      [.setOwner 7 a, .forget, .replace [(3, ⟨a, []⟩), (3, ⟨a, [b]⟩), (16384, ⟨a, []⟩)] nodes,
        .addSeeds, .setOwner 5 a, .setOwner 65535 a, .setNode "b" 2 .master]
    let r := (Registry.new [a] 0 false).after changes
    r.slots.covered = 2 ∧ r.slots.get? 3 = some ⟨a, [b]⟩ ∧ r.slots.get? 7 = none ∧ r.Tallies ∧
      (r.setOwner 3 b).slots.get? 3 = some ⟨b, []⟩ ∧ Reassigns 3 b r (r.setOwner 3 b) ∧
      Reassigns 20000 b r (r.setOwner 20000 b) := by
  intro a b nodes changes r
  obtain ⟨htallies, hreassigns⟩ := tallies_after [a] 0 false changes
  exact ⟨by decide +kernel, by decide +kernel, by decide +kernel, htallies, by decide +kernel,
    hreassigns 3 b, hreassigns 20000 b⟩

end Registry

/-! ## The registry of a client -/

variable {σ : Type} [Transport σ]

theorem Client.answer_changes (task : Nat) (c : Client σ) {r : Request} (hr : r.InstallsWhole) :
    ∃ changes, (c.answer task r).2.registry = c.registry.after changes := by
  cases r with
  | flagRefresh => exact ⟨[.flagRefresh], rfl⟩
  | takeRefresh => exact ⟨[.takeRefresh], rfl⟩
  | recordMove slot host port =>
    let node := (c.registry.setNode host port .master).1
    exact ⟨[.setNode host port .master, .setOwner slot node, .countMoves 1], rfl⟩
  | install t required =>
    obtain ⟨entries, hentries⟩ := SlotTable.counted_iff_ofEntries.mp hr.counted
    refine ⟨_, Eq.trans ?_ (c.registry.install_eq entries t.nodes required)⟩
    rw [← hentries]
    rfl
  | forget => exact ⟨[.forget], rfl⟩
  | lock | unlock => exact ⟨[], rfl⟩
  | _ => exact ⟨[], (Client.answer_of_plain (by trivial) c task).1⟩

theorem Moment.Course.registry_changes {c : Client σ} {es : List (Event σ)} {S : Moment σ Answer}
    (h : Course ⟨[], c⟩ es S) : ∃ changes, S.client.registry = c.registry.after changes := by
  refine (h.registry_keeps (P := fun r => ∃ changes, r = c.registry.after changes)
    Request.admits_installsWhole ?_ ⟨[], rfl⟩).1
  rintro e he ⟨changes, hchanges⟩
  obtain ⟨more, hmore⟩ := e.client.answer_changes e.task he
  refine ⟨changes ++ more, ?_⟩
  rw [Registry.after, List.foldl_append]
  exact hmore.trans (congrArg (Registry.after · more) hchanges)

end SlotCluster
