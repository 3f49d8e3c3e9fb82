import SlotCluster.Client.Discovery
import SlotCluster.Proofs.Topologies

/-!
# Readings

A reading is a reply together with the node that gave it. It adds its ranges to a topology, or the
node counts as one that serves every slot. What is gathered from readings that have ranges is sound:
each owner was named by one of them, and none of them names another.
-/

namespace SlotCluster

namespace Discovery

structure Reading where
  node : Node
  reply : Reply

def Reading.Names (reading : Reading) (slot : UInt16) (master : Node) : Prop :=
  SlotRange.Names reading.node.host reading.reply slot master

/-- The node counts as one that serves every slot: it is the only seed and knows no cluster, or
nothing that it lists can be used. -/
def Reading.IsBare (onlySeed : Bool) (reading : Reading) : Prop :=
  (isStandalone reading.reply = true ∧ onlySeed = true) ∨
    reading.reply.firstError = none ∧ SlotRange.SaysNothing reading.node.host reading.reply

/-! ## What a reading adds -/

theorem absorb_eq (onlySeed : Bool) (node : Node) (reply : Reply) (t : Topology) :
    absorb onlySeed node reply t =
      if isStandalone reply && onlySeed then .ok (.single node)
      else match reply.firstError with
        | some e => .error (.server e)
        | none =>
          match SlotRange.ofReply node.host reply with
          | .error f => .error f
          | .ok ranges => if ranges.isEmpty then .ok (.single node) else t.merge ranges := by
  unfold absorb Reply.checked
  split
  · rfl
  cases reply.firstError with
  | some e => rfl
  | none =>
    change (SlotRange.ofReply node.host reply >>= _) = _
    cases SlotRange.ofReply node.host reply <;> rfl

theorem absorb_ok {onlySeed : Bool} {node : Node} {reply : Reply} {t t' : Topology}
    (h : absorb onlySeed node reply t = .ok t') :
    (Reading.IsBare onlySeed ⟨node, reply⟩ ∧ t' = .single node) ∨
      ¬ Reading.IsBare onlySeed ⟨node, reply⟩ ∧
        ∃ ranges, SlotRange.ofReply node.host reply = .ok ranges ∧ t.merge ranges = .ok t' := by
  rw [absorb_eq] at h
  split at h
  · next hstandalone =>
    cases h
    exact .inl ⟨.inl (by simpa using hstandalone), rfl⟩
  next hstandalone =>
  split at h
  · cases h
  next hclean =>
  split at h
  · cases h
  next ranges hranges =>
  have hnothing := SlotRange.saysNothing_iff_of_ofReply hranges
  split at h
  · next hempty =>
    cases h
    exact .inl ⟨.inr ⟨hclean, hnothing.mpr (List.isEmpty_iff.mp hempty)⟩, rfl⟩
  · next hsome =>
    refine .inr ⟨?_, ranges, hranges, h⟩
    rintro (⟨halone, honly⟩ | ⟨-, hbare⟩)
    · exact hstandalone (by simp [halone, honly])
    · exact hsome (List.isEmpty_iff.mpr (hnothing.mp hbare))

theorem whole_of_absorb {onlySeed : Bool} {node : Node} {reply : Reply} {t t' : Topology}
    (h : absorb onlySeed node reply t = .ok t') (ht : t.Whole) : t'.Whole := by
  obtain ⟨-, rfl⟩ | ⟨-, ranges, hranges, hmerge⟩ := absorb_ok h
  · exact Topology.whole_single node
  · exact (Topology.merged_of_ok hmerge (SlotRange.listed_of_ofReply hranges)).whole ht

theorem kind_of_absorb {onlySeed : Bool} {node : Node} {reply : Reply} {t : Topology} {f : Fault}
    (h : absorb onlySeed node reply t = .error f) :
    (∃ e, f = .server e) ∨ f.kind = .parse ∨ f.kind = .unexpectedReply ∨
      f.kind = .slotCollision := by
  rw [absorb_eq] at h
  split at h
  · cases h
  split at h
  · next e _ =>
    cases h
    exact .inl ⟨e, rfl⟩
  split at h
  · next hranges =>
    cases h
    exact .inr (or_assoc.mp (.inl (SlotRange.kind_of_ofReply hranges)))
  split at h
  · cases h
  · exact .inr (.inr (.inr (Topology.kind_of_merge h)))

/-! ## Gathering -/

/-- What the readings make of a topology. -/
def gather (onlySeed : Bool) : List Reading → Topology → Except Fault Topology
  | [], t => .ok t
  | reading :: rest, t => do gather onlySeed rest (← absorb onlySeed reading.node reading.reply t)

theorem gather_append {onlySeed : Bool} (rs rs' : List Reading) (t : Topology) :
    gather onlySeed (rs ++ rs') t = gather onlySeed rs t >>= gather onlySeed rs' := by
  induction rs generalizing t with
  | nil => rfl
  | cons reading rest ih =>
    rw [List.cons_append, gather, gather]
    cases absorb onlySeed reading.node reading.reply t with
    | error f => rfl
    | ok middle => exact ih middle

theorem gather_singleton {onlySeed : Bool} {reading : Reading} {t t' : Topology}
    (h : gather onlySeed [reading] t = .ok t') :
    absorb onlySeed reading.node reading.reply t = .ok t' := by
  unfold gather at h
  obtain ⟨middle, hmiddle, h⟩ := exists_of_bind_ok h
  cases h
  exact hmiddle

theorem whole_of_gather {onlySeed : Bool} {rs : List Reading} {t t' : Topology}
    (h : gather onlySeed rs t = .ok t') (ht : t.Whole) : t'.Whole := by
  induction rs generalizing t with
  | nil =>
    cases h
    exact ht
  | cons reading rest ih =>
    unfold gather at h
    obtain ⟨middle, hmiddle, h⟩ := exists_of_bind_ok h
    exact ih h (whole_of_absorb hmiddle ht)

/-! ## Soundness -/

/-- The readings have named the owners of the table, and no others. -/
structure Sound (past : List Reading) (t : Topology) : Prop where
  named {slot : UInt16} {owners : SlotOwners} (h : t.table.get? slot = some owners) :
    ∃ reading ∈ past, reading.Names slot owners.primary
  agreed {reading : Reading} (hreading : reading ∈ past) {slot : UInt16} {master : Node}
    (h : reading.Names slot master) :
    ∃ owners, t.table.get? slot = some owners ∧ owners.primary.name = master.name

theorem sound_empty : Sound [] .empty where
  named h := by
    rw [Topology.empty, SlotTable.get?_empty] at h
    cases h
  agreed h := absurd h List.not_mem_nil

theorem Sound.absorb {onlySeed : Bool} {past : List Reading} {reading : Reading}
    {t t' : Topology} (h : Sound past t)
    (habsorb : absorb onlySeed reading.node reading.reply t = .ok t')
    (hbare : ¬ reading.IsBare onlySeed) : Sound (past ++ [reading]) t' := by
  obtain ⟨hreading, -⟩ | ⟨-, ranges, hranges, hmerge⟩ := absorb_ok habsorb
  · exact absurd hreading hbare
  have hmerged := Topology.merged_of_ok hmerge (SlotRange.listed_of_ofReply hranges)
  constructor
  · intro slot owners howners
    rcases hmerged.source howners with hold | ⟨s, hs, hcovers, rfl⟩
    · obtain ⟨earlier, hearlier, hnames⟩ := h.named hold
      exact ⟨earlier, List.mem_append_left _ hearlier, hnames⟩
    · refine ⟨reading, by simp, ?_⟩
      exact (SlotRange.names_iff_of_ofReply hranges).mpr ⟨s, hs, hcovers, rfl⟩
  · intro other hother slot master hnames
    rcases List.mem_append.mp hother with hearlier | hlast
    · obtain ⟨owners, howners, hname⟩ := h.agreed hearlier hnames
      exact ⟨owners, hmerged.kept howners, hname⟩
    · obtain rfl := List.mem_singleton.mp hlast
      obtain ⟨s, hs, hcovers, rfl⟩ := (SlotRange.names_iff_of_ofReply hranges).mp hnames
      exact hmerged.agreed hs hcovers

theorem Sound.gather {onlySeed : Bool} {past rs : List Reading} {t t' : Topology}
    (h : Sound past t) (hgather : gather onlySeed rs t = .ok t')
    (hrs : ∀ reading ∈ rs, ¬ reading.IsBare onlySeed) : Sound (past ++ rs) t' := by
  induction rs generalizing past t with
  | nil =>
    cases hgather
    rwa [List.append_nil]
  | cons reading rest ih =>
    obtain ⟨hreading, hrest⟩ := List.forall_mem_cons.mp hrs
    unfold Discovery.gather at hgather
    obtain ⟨middle, hmiddle, hgather⟩ := exists_of_bind_ok hgather
    have hsound := ih (h.absorb hmiddle hreading) hgather hrest
    rwa [List.append_assoc] at hsound

end Discovery

end SlotCluster
