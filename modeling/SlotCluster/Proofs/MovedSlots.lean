import SlotCluster.Proofs.Discoveries
import SlotCluster.Proofs.RegistryIntegrity
import SlotCluster.Proofs.SlotTables

/-!
# Moved slots

What a moved slot changes in a registry: the owner of this slot, one node, the request for a
discovery, and the number of moves. All else stays as it is. As long as no discovery is due, a
client that patches a moved slot does this and nothing more.
-/

namespace SlotCluster

namespace Registry

/-! ## One move -/

/-- The replicas of a slot, without the node of this name. -/
def replicasBut (r : Registry) (slot : UInt16) (name : String) : List Node :=
  ((r.slots.get? slot).elim [] SlotOwners.replicas).filter fun n => n.name ≠ name

/-- One registry is the other after the slot has moved to the node at this address. -/
structure Moved (slot : UInt16) (host : String) (port : UInt16) (r r' : Registry) : Prop where
  /-- The slot keeps its replicas, but for the new master. -/
  owners : r'.slots.get? slot =
    some ⟨r.masterAt host port, r.replicasBut slot (r.masterAt host port).name⟩
  others : ∀ other, other ≠ slot → r'.slots.get? other = r.slots.get? other
  covered : r'.slots.covered =
    r.slots.covered + if (r.slots.get? slot).isNone then 1 else 0
  entered : r'.node? (nameOf host port) = some (r.masterAt host port)
  strangers : ∀ name, name ≠ nameOf host port → r'.node? name = r.node? name
  /-- A new name comes last. -/
  names : r'.nodes.entries.map Prod.fst = r.nodes.entries.map Prod.fst ++
    if (r.node? (nameOf host port)).isSome then [] else [nameOf host port]
  pending : r'.refreshPending = true
  /-- Without steps there is nothing to count. -/
  counted : r'.moves = if r.steps = 0 then r.moves else r.moves + 1
  seeds : r'.seeds = r.seeds
  settings : r'.steps = r.steps ∧ r'.coverageRequired = r.coverageRequired ∧
    r'.readFromReplicas = r.readFromReplicas

theorem setOwner_eq (r : Registry) (slot : UInt16) (node : Node) : r.setOwner slot node =
    { r with slots := r.slots.set slot ⟨node, r.replicasBut slot node.name⟩ } := by
  have hfilter : ∀ nodes : List Node,
      (nodes.filter fun n => n.name != node.name) = nodes.filter fun n => n.name ≠ node.name := by
    intro nodes
    refine List.filter_congr fun n _ => ?_
    rw [bne, Bool.beq_eq_decide_eq, decide_not]
  unfold setOwner replicasBut
  cases r.slots.get? slot with
  | none => rfl
  | some owners => simp only [hfilter, Option.elim_some]

theorem countMoves_one (r : Registry) : (r.countMoves 1).2 =
    { r with moves := if r.steps = 0 then r.moves else r.moves + 1 } := by
  unfold countMoves
  by_cases h : r.steps = 0
  · rw [if_pos (.inl h), if_pos h]
  · rw [if_neg (by simp [h]), if_neg h]

theorem covered_set (t : SlotTable) {slot : UInt16} (owners : SlotOwners)
    (h : slot.toNat < 16384) :
    (t.set slot owners).covered = t.covered + if (t.get? slot).isNone then 1 else 0 := by
  rw [SlotTable.set_of_lt t owners h, SlotTable.get?_of_lt t h]
  simp only
  split <;> rfl

/-! ## Many moves -/

/-- One registry is the other after these slots have moved, one after the other. -/
inductive MovedBy : List Redirect → Registry → Registry → Prop
  | none (r : Registry) : MovedBy [] r r
  | move {m : Redirect} {moves : List Redirect} {host : String} {port : UInt16}
      {r r₁ r' : Registry} (address : Address.split m.address = .ok (host, port))
      (h : Moved m.slot host port r r₁) (rest : MovedBy moves r₁ r') :
      MovedBy (m :: moves) r r'

variable {moves moves' : List Redirect} {r r₁ r' : Registry}

theorem MovedBy.append (h : MovedBy moves r r₁) (h' : MovedBy moves' r₁ r') :
    MovedBy (moves ++ moves') r r' := by
  induction h with
  | none r => exact h'
  | move address h _ ih => exact .move address h (ih h')

theorem MovedBy.pending (h : MovedBy moves r r') :
    r'.refreshPending = (r.refreshPending || !moves.isEmpty) := by
  induction h with
  | none r => simp
  | move _ h _ ih => simp [ih, h.pending]

theorem MovedBy.counted (h : MovedBy moves r r') :
    r'.moves = if r.steps = 0 then r.moves else r.moves + UInt64.ofNat moves.length := by
  induction h with
  | none r => simp
  | @move m moves host port r r₁ r' _ h _ ih =>
    rw [ih, h.counted, h.settings.1]
    split
    · rfl
    · rw [List.length_cons, Nat.add_comm, UInt64.ofNat_add, UInt64.add_assoc]
      rfl

theorem MovedBy.seeds (h : MovedBy moves r r') : r'.seeds = r.seeds := by
  induction h with
  | none r => rfl
  | move _ h _ ih => rw [ih, h.seeds]

theorem MovedBy.others (h : MovedBy moves r r') {slot : UInt16}
    (hslot : slot ∉ moves.map Redirect.slot) : r'.slots.get? slot = r.slots.get? slot := by
  induction h with
  | none r => rfl
  | move _ h _ ih =>
    rw [List.map_cons, List.mem_cons, not_or] at hslot
    rw [ih hslot.2, h.others slot hslot.1]

end Registry

/-! ## A client that patches a slot -/

/-- The move makes a discovery due at once. -/
def Event.isDue {σ : Type} (e : Event σ) : Bool :=
  match e.request with
  | .recordMove slot host port => (e.client.recordMove slot host port).1
  | _ => false

namespace Client

variable {σ : Type}

theorem moved_recordMove (c : Client σ) {slot : UInt16} (hslot : slot.toNat < 16384)
    (host : String) (port : UInt16) (hpending : c.registry.refreshPending = true) :
    Registry.Moved slot host port c.registry (c.recordMove slot host port).2.registry := by
  simp only [recordMove, setRegistry, Registry.setNode_eq, Registry.countMoves_one,
    Registry.setOwner_eq]
  constructor
  · exact SlotTable.get?_set_self _ _ hslot
  · intro other hother
    exact SlotTable.get?_set_ne _ _ (Ne.symm hother)
  · exact Registry.covered_set _ _ hslot
  · exact c.registry.nodes.get?_insert_self _ _
  · exact fun name hne => c.registry.nodes.get?_insert_ne _ hne
  · exact c.registry.nodes.names_insert _ _
  · exact hpending
  · rfl
  · rfl
  · exact ⟨rfl, rfl, rfl⟩

variable [Transport σ]

/-- A patch succeeds and does no more than that, if no discovery is due. -/
theorem Unbroken.moved_of_patchMovedSlot {s : Settings} {m : Redirect} {c c' : Client σ}
    {es : List (Event σ)} {x : Except Fault Unit} (hlazy : s.refreshPolicy = .lazily)
    {host : String} {port : UInt16} (haddress : Address.split m.address = .ok (host, port))
    (hslot : m.slot.toNat < 16384) (h : Action.Runs (Discovery.patchMovedSlot s m) es x)
    (hc : Unbroken c es c') (hdue : ∀ e ∈ es, e.isDue = false) :
    x = .ok () ∧ Registry.Moved m.slot host port c.registry c'.registry := by
  unfold Discovery.patchMovedSlot at h
  obtain ⟨task, d, rest, rfl, hrest⟩ := (Action.runs_ask_bind_iff _).mp h
  obtain ⟨f, hf, -⟩ | ⟨parts, hparts, hmove⟩ := Action.runs_lift_bind_iff.mp hrest
  · rw [haddress] at hf
    cases hf
  obtain rfl : (host, port) = parts := Except.ok.inj (haddress.symm.trans hparts)
  obtain ⟨task', d', more, rfl, hmore⟩ := (Action.runs_ask_bind_iff _).mp hmove
  have hnot : (d'.answer task' (.recordMove m.slot host port)).1 = false :=
    hdue ⟨task', .recordMove m.slot host port, d'⟩ (by simp)
  rw [hnot, if_neg (by simp [hlazy])] at hmore
  obtain ⟨rfl, rfl⟩ := Action.runs_pure_iff.mp hmore
  cases hc with
  | answer _ _ _ hc =>
  cases hc with
  | answer _ _ _ hc =>
  rw [hc.eq_of_nil]
  -- The flag is raised before the move, so that the move finds it raised.
  have hmoved := moved_recordMove (c.setRegistry c.registry.flagRefresh) hslot host port rfl
  exact ⟨rfl, ⟨hmoved.owners, hmoved.others, hmoved.covered, hmoved.entered, hmoved.strangers,
    hmoved.names, hmoved.pending, hmoved.counted, hmoved.seeds, hmoved.settings⟩⟩

end Client

end SlotCluster
