import SlotCluster.Topology

/-!
# Node tables

A table gives the node that was put under a name last, and leaves the other names alone. A name may
stand before any node. Whoever puts every node under its own name keeps the table keyed.
-/

namespace SlotCluster

namespace NodeTable

/-! ## Lookups -/

theorem lookup_put_self (name : String) (node : Node) (entries : List (String × Node)) :
    (put name node entries).lookup name = some node := by
  induction entries with
  | nil => simp [put]
  | cons entry rest ih =>
    rw [put]
    split
    · next heq => simp [heq]
    · next hne => rw [List.lookup_cons, beq_false_of_ne (Ne.symm hne), ih]

theorem lookup_put_ne {name other : String} (node : Node) (hne : other ≠ name)
    (entries : List (String × Node)) :
    (put name node entries).lookup other = entries.lookup other := by
  induction entries with
  | nil => simp [put, hne]
  | cons entry rest ih =>
    obtain ⟨known, n⟩ := entry
    rw [put]
    split
    · next heq => simp [List.lookup_cons, heq, beq_false_of_ne hne]
    · simp [List.lookup_cons, ih]

theorem mem_put {name : String} {node : Node} {entries : List (String × Node)}
    {entry : String × Node} (h : entry ∈ put name node entries) :
    entry ∈ entries ∨ entry = (name, node) := by
  induction entries with
  | nil => exact .inr (List.mem_singleton.mp h)
  | cons first rest ih =>
    rw [put] at h
    split at h
    · next heq =>
      subst heq
      exact (List.mem_cons.mp h).symm.imp_left (List.mem_cons_of_mem _)
    · rcases List.mem_cons.mp h with rfl | h
      · exact .inl List.mem_cons_self
      · exact (ih h).imp_left (List.mem_cons_of_mem _)

variable {t : NodeTable} {name : String} {n : Node}

theorem get?_empty : empty.get? name = none := rfl

theorem get?_insert_self (t : NodeTable) (name : String) (node : Node) :
    (t.insert name node).get? name = some node :=
  lookup_put_self name node t.entries

theorem get?_insert_ne (t : NodeTable) {other : String} (node : Node) (hne : other ≠ name) :
    (t.insert name node).get? other = t.get? other :=
  lookup_put_ne node hne t.entries

theorem get?_eq_some_iff : t.get? name = some n ↔ (name, n) ∈ t.entries := by
  constructor
  · intro h
    obtain ⟨before, after, hentries, -⟩ := List.lookup_eq_some_iff.mp h
    simp [hentries]
  · intro h
    obtain ⟨before, after, hentries⟩ := List.append_of_mem h
    have hunique := t.unique
    rw [hentries, List.map_append, List.nodup_append] at hunique
    refine List.lookup_eq_some_iff.mpr ⟨before, after, hentries, fun entry hentry => ?_⟩
    refine bne_iff_ne.mpr fun heq => ?_
    exact hunique.2.2 _ (List.mem_map_of_mem hentry) name (by simp) heq.symm

theorem mem_values_iff : n ∈ t.values ↔ ∃ name, t.get? name = some n := by
  simp [values, get?_eq_some_iff]

theorem names_insert (t : NodeTable) (name : String) (node : Node) :
    (t.insert name node).entries.map Prod.fst =
      t.entries.map Prod.fst ++ if (t.get? name).isSome then [] else [name] := by
  obtain ⟨entries, unique⟩ := t
  change (put name node entries).map Prod.fst =
    entries.map Prod.fst ++ if (entries.lookup name).isSome then [] else [name]
  clear unique
  induction entries with
  | nil => simp [put]
  | cons entry rest ih =>
    obtain ⟨known, n⟩ := entry
    rw [put, List.lookup_cons]
    split
    · next heq => simp [heq]
    · next hne =>
      rw [beq_false_of_ne (Ne.symm hne)]
      simp [ih]

/-! ## Keyed tables -/

/-- Every name is that of its node. -/
def Keyed (t : NodeTable) : Prop := ∀ entry ∈ t.entries, entry.1 = entry.2.name

theorem keyed_empty : empty.Keyed := by simp [Keyed, empty]

theorem Keyed.insert (h : t.Keyed) {node : Node} (hname : node.name = name) :
    (t.insert name node).Keyed := by
  intro entry hentry
  rcases mem_put hentry with hentry | rfl
  · exact h entry hentry
  · exact hname.symm

theorem Keyed.name_eq (h : t.Keyed) (hget : t.get? name = some n) : n.name = name :=
  (h _ (get?_eq_some_iff.mp hget)).symm

theorem Keyed.get?_name (h : t.Keyed) (hn : n ∈ t.values) : t.get? n.name = some n := by
  obtain ⟨name, hget⟩ := mem_values_iff.mp hn
  rwa [h.name_eq hget]

theorem Keyed.nodup (h : t.Keyed) : (t.values.map Node.name).Nodup := by
  have hnames : t.values.map Node.name = t.entries.map Prod.fst := by
    rw [values, List.map_map]
    exact List.map_congr_left fun entry hentry => (h entry hentry).symm
  exact hnames ▸ t.unique

end NodeTable

end SlotCluster
