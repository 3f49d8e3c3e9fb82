import SlotCluster.Proofs.FaultKinds
import SlotCluster.Proofs.Transactions

/-!
# Transactions in one slot

A transaction goes to one node, and is refused if its commands are found at two. A slot that has an
owner has it at every lookup. A slot without an owner has none to find: every lookup takes any known
node, and two lookups may take two of them.
-/

namespace SlotCluster

/-! ## Slots of a command -/

namespace Words

/-- The slots that a command names: those of its keys, or the one that it is about. -/
def slots (w : Words) : List UInt16 :=
  match w.checkedName with
  | .error _ => []
  | .ok name =>
    if CommandTable.familyOf name = .slotArgument then
      ((w.word? 2).bind Decimal.readUInt16?).toList
    else
      match w.designated name (CommandTable.familyOf name) with
      | .ok (some keys) => keys.map Slot.ofKey
      | _ => []

theorem isCommon_of_checkedName {w : Words} : FailsIn Fault.IsCommon w.checkedName := by
  unfold checkedName
  split
  · split
    · exact failsIn_error (Fault.isCommon_cause (by decide))
    · split
      · exact failsIn_error (Fault.isCommon_cause (by decide))
      · exact failsIn_ok _
  · exact failsIn_error (Fault.isCommon_cause (by decide))

theorem isCommon_of_designated {w : Words} {name : Bytes} {family : Family} :
    FailsIn Fault.IsCommon (w.designated name family) := by
  have hcount : ∀ {i : Nat} {β : Type} {g : Nat → β},
      FailsIn Fault.IsCommon ((w.keyCount i name).map g) := by
    intro i β g
    unfold keyCount
    split
    · exact failsIn_ok _
    · exact failsIn_error (Fault.isCommon_cause (by decide))
  cases family
  case countedFirst | countedSecond | destinationCounted => exact hcount
  case streams =>
    simp only [designated]
    split <;> exact failsIn_ok _
  all_goals exact failsIn_ok _

theorem commonSlot_mem {name : Bytes} {keys : List Bytes} {slot : UInt16}
    (h : commonSlot name keys = .ok slot) : slot ∈ keys.map Slot.ofKey := by
  cases keys with
  | nil => cases h
  | cons key rest =>
    simp only [commonSlot] at h
    split at h
    · cases h
    · cases h
      simp

theorem isOther_of_commonSlot {name : Bytes} {keys : List Bytes} {slot : UInt16} {f : Fault}
    (hkeys : ∀ named ∈ keys.map Slot.ofKey, named = slot) (h : commonSlot name keys = .error f) :
    f.IsOther := by
  cases keys with
  | nil =>
    cases h
    exact Fault.isOther_cause (by decide)
  | cons key rest =>
    simp only [commonSlot] at h
    split at h
    · next other hother =>
      have hmem : other ∈ rest.map Slot.ofKey := List.mem_of_find?_eq_some hother
      have hdiffers := List.find?_some hother
      rw [hkeys other (by simp [hmem]), hkeys (Slot.ofKey key) (by simp)] at hdiffers
      simp at hdiffers
    · cases h

theorem routing_cases (w : Words) :
    (∃ f, w.checkedName = .error f ∧ w.routing = .error f) ∨
    ∃ name, w.checkedName = .ok name ∧
      ((∃ t policy, w.routing = .ok (.multi t policy)) ∨ w.routing = .ok (.single .random) ∨
        (CommandTable.familyOf name = .slotArgument ∧ w.routing = w.routeBySlot name) ∨
        (CommandTable.familyOf name ≠ .slotArgument ∧
          w.routing = w.routeByKeys name (CommandTable.familyOf name))) := by
  unfold routing
  cases w.checkedName with
  | error f => exact .inl ⟨f, rfl, rfl⟩
  | ok name =>
    refine .inr ⟨name, rfl, ?_⟩
    simp only [bind, Except.bind]
    split
    · exact .inl ⟨_, _, rfl⟩
    · exact .inl ⟨_, _, rfl⟩
    · exact .inr (.inl rfl)
    · next hfamily => exact .inr (.inr (.inl ⟨hfamily, rfl⟩))
    · next hfamily => exact .inr (.inr (.inr ⟨hfamily, rfl⟩))

theorem route_mem_slots {w : Words} {r : Route} (h : w.routing = .ok (.single (.route r))) :
    r.slot ∈ w.slots := by
  unfold slots
  obtain ⟨f, -, hf⟩ | ⟨name, hname, hrouting⟩ := w.routing_cases
  · rw [hf] at h
    cases h
  rw [hname]
  obtain ⟨t, policy, hmulti⟩ | hrandom | ⟨hfamily, hslot⟩ | ⟨hfamily, hkeys⟩ := hrouting
  · rw [hmulti] at h
    cases h
  · rw [hrandom] at h
    cases h
  · rw [hslot, routeBySlot] at h
    split at h
    · next slot harg =>
      split at h
      · cases h
        simp [hfamily, harg]
      · cases h
    · cases h
  · rw [hkeys] at h
    obtain ⟨keys, hdesignated, h⟩ := exists_of_bind_ok h
    cases keys with
    | none => cases h
    | some keys =>
      obtain ⟨slot, hcommon, h⟩ := exists_of_bind_ok h
      cases h
      simpa [hfamily, hdesignated] using commonSlot_mem hcommon

theorem isOther_of_routing {w : Words} {slot : UInt16} (hslot : ∀ named ∈ w.slots, named = slot)
    {f : Fault} (h : w.routing = .error f) : f.IsOther := by
  unfold slots at hslot
  obtain ⟨g, hname, hg⟩ | ⟨name, hname, hrouting⟩ := w.routing_cases
  · rw [hg] at h
    cases h
    exact (isCommon_of_checkedName f hname).1
  rw [hname] at hslot
  obtain ⟨t, policy, hmulti⟩ | hrandom | ⟨hfamily, hargument⟩ | ⟨hfamily, hkeys⟩ := hrouting
  · rw [hmulti] at h
    cases h
  · rw [hrandom] at h
    cases h
  · rw [hargument, routeBySlot] at h
    split at h
    · split at h
      · cases h
      · cases h
        exact Fault.isOther_cause (by decide)
    · cases h
      exact Fault.isOther_cause (by decide)
  · rw [hkeys, routeByKeys] at h
    cases hdesignated : w.designated name (CommandTable.familyOf name) with
    | error g =>
      rw [hdesignated] at h
      cases h
      exact (isCommon_of_designated f hdesignated).1
    | ok keys =>
      rw [hdesignated] at h
      cases keys with
      | none => cases h
      | some keys =>
        simp only [hfamily, if_false, hdesignated] at hslot
        -- Its keys could only be in different slots, and they are all in this one.
        cases hcommon : commonSlot name keys with
        | ok common =>
          simp only [hcommon, bind, Except.bind] at h
          cases h
        | error g =>
          simp only [hcommon, bind, Except.bind] at h
          cases h
          exact isOther_of_commonSlot hslot hcommon

end Words

namespace Pipeline

/-- No command of the pipeline names another slot. -/
def StaysIn (slot : UInt16) (commands : List Command) : Prop :=
  ∀ c ∈ commands, ∀ named ∈ (Routable.words c).slots, named = slot

instance (slot : UInt16) (commands : List Command) : Decidable (StaysIn slot commands) :=
  decidable_of_iff (commands.all fun c => (Routable.words c).slots.all (· == slot))
    (by simp [StaysIn])

theorem isOther_of_targets {slot : UInt16} {commands : List Command}
    (hslot : StaysIn slot commands) {f : Fault} (h : Pipeline.targets commands = .error f) :
    f.IsOther := by
  induction commands with
  | nil => cases h
  | cons c rest ih =>
    unfold Pipeline.targets singleTarget at h
    cases hrouting : Routing.of c with
    | error g =>
      rw [hrouting] at h
      cases h
      exact Words.isOther_of_routing (hslot c (by simp)) hrouting
    | ok routing =>
      rw [hrouting] at h
      cases routing with
      | multi t policy =>
        cases h
        exact Fault.isOther_cause (by decide)
      | single target =>
        cases hrest : Pipeline.targets rest with
        | ok targets =>
          rw [hrest] at h
          cases h
        | error g =>
          rw [hrest] at h
          cases h
          exact ih (fun c hc => hslot c (by simp [hc])) hrest

theorem keyed_of_staysIn {slot : UInt16} {commands : List Command} {targets : List SingleTarget}
    (hslot : StaysIn slot commands) (h : Pipeline.targets commands = .ok targets) :
    ∀ target ∈ keyed targets, target = .route ⟨slot, .master⟩ := by
  intro master hmaster
  obtain ⟨target, htarget, rfl⟩ := List.mem_map.mp hmaster
  obtain ⟨htarget, hkeyed⟩ := List.mem_filter.mp htarget
  obtain ⟨c, hc, hroute⟩ := exists_command_of_mem h htarget
  obtain rfl | ⟨r, rfl⟩ := singleTarget_cases hroute
  · simp at hkeyed
  obtain ⟨routing, hrouting, hsingle⟩ := exists_of_bind_ok hroute
  cases routing with
  | multi t policy => cases hsingle
  | single t =>
    cases hsingle
    rw [masterTarget, hslot c hc r.slot (Words.route_mem_slots hrouting)]

end Pipeline

/-! ## A client on its own -/

namespace Client

variable {σ : Type}

/-- The node that the client takes from these, after so many other choices. -/
def drawn (c : Client σ) (nodes : List Node) (n : Nat) : Option Node :=
  nodes[c.choices (c.choicesMade + n) % nodes.length]?

def afterChoice (c : Client σ) : Client σ := { c with choicesMade := c.choicesMade + 1 }

@[simp] theorem afterChoice_drawn (c : Client σ) (nodes : List Node) (n : Nat) :
    c.afterChoice.drawn nodes n = c.drawn nodes (n + 1) := by
  rw [drawn, drawn, afterChoice, Nat.add_right_comm, Nat.add_assoc]

theorem exists_drawn {nodes : List Node} (h : nodes ≠ []) (c : Client σ) (n : Nat) :
    ∃ node, c.drawn nodes n = some node := by
  have hlt : c.choices (c.choicesMade + n) % nodes.length < nodes.length :=
    Nat.mod_lt _ (List.length_pos_iff.mpr h)
  exact ⟨_, List.getElem?_eq_getElem hlt⟩

theorem drawn_singleton (c : Client σ) (node : Node) (n : Nat) :
    c.drawn [node] n = some node := by
  simp [drawn, Nat.mod_one]

/-- The slot has no owner and needs none, and of so many nodes that are taken for it one has another
name than the first. -/
structure Scatters (c : Client σ) (slot : UInt16) (count : Nat) : Prop where
  unowned : c.registry.slots.get? slot = none
  gaps : c.registry.coverageRequired = false
  apart : ∃ nodes, c.registry.anyNode = .ok nodes ∧ ∃ i < count, ∃ first other,
    c.drawn nodes 0 = some first ∧ c.drawn nodes i = some other ∧ first.name ≠ other.name

/-- Two lookups of a slot give different nodes only if it has no owner. -/
theorem scatters_iff (c : Client σ) (slot : UInt16) (count : Nat) :
    c.Scatters slot count ↔ ∃ nodes, c.registry.masterOf slot = .ok nodes ∧ ∃ i < count,
      ∃ first other, c.drawn nodes 0 = some first ∧ c.drawn nodes i = some other ∧
        first.name ≠ other.name := by
  constructor
  · rintro ⟨hunowned, hgaps, nodes, hnodes, hapart⟩
    exact ⟨nodes, by simp [Registry.masterOf, Registry.unowned, hunowned, hgaps, hnodes], hapart⟩
  · rintro ⟨nodes, hmaster, hapart⟩
    unfold Registry.masterOf at hmaster
    split at hmaster
    · next owners howned =>
      cases hmaster
      obtain ⟨i, -, first, other, hfirst, hother, hname⟩ := hapart
      rw [drawn_singleton] at hfirst hother
      cases hfirst
      cases hother
      exact absurd rfl hname
    · next hunowned =>
      unfold Registry.unowned at hmaster
      split at hmaster
      · cases hmaster
      · next hgaps => exact ⟨hunowned, by simpa using hgaps, nodes, hmaster, hapart⟩

variable [Transport σ] {α β : Type}

section

variable {a : Action α} {c c' : Client σ}

theorem runProgram_bind_ok {x : α} (h : c.runProgram a.run = (.ok x, c')) (f : α → Action β) :
    c.runProgram (a >>= f).run = c'.runProgram (f x).run := by
  refine (runProgram_bind a.run _ c).trans ?_
  rw [h]
  rfl

theorem runProgram_bind_error {g : Fault} (h : c.runProgram a.run = (.error g, c'))
    (f : α → Action β) : c.runProgram (a >>= f).run = (.error g, c') := by
  refine (runProgram_bind a.run _ c).trans ?_
  rw [h]
  rfl

end

section

variable {j : Job α} {c c' : Client σ}

theorem run_bind_ok {x : α} (h : c.run j.run = (.ok x, c')) (f : α → Job β) :
    c.run (j >>= f).run = c'.run (f x).run := by
  refine (run_bind j.run _ c).trans ?_
  rw [h]
  rfl

theorem run_bind_error {g : Fault} (h : c.run j.run = (.error g, c')) (f : α → Job β) :
    c.run (j >>= f).run = (.error g, c') := by
  refine (run_bind j.run _ c).trans ?_
  rw [h]
  rfl

end

theorem run_action (a : Action α) (c : Client σ) :
    c.run (liftM a : Job α).run = c.runProgram a.run := run_ofProgram a.run c

theorem runProgram_choose (c : Client σ) (nodes : List Node) :
    c.runProgram (Action.choose nodes).run =
      ((c.drawn nodes 0).elim (.error .noKnownNodes) .ok, c.afterChoice) := by
  have hask : c.runProgram (Action.ask (.choose nodes)).run =
      (.ok (c.drawn nodes 0), c.afterChoice) := rfl
  unfold Action.choose
  rw [runProgram_bind_ok hask]
  cases c.drawn nodes 0 with
  | none => rfl
  | some node => rfl

theorem runProgram_resolve (c : Client σ) (target : SingleTarget) :
    c.runProgram (Dispatch.resolve target).run =
      match c.registry.resolve target with
      | .error f => (.error f, c)
      | .ok nodes => ((c.drawn nodes 0).elim (.error .noKnownNodes) .ok, c.afterChoice) := by
  have hask : c.runProgram (Action.ask .registry).run = (.ok c.registry, c) := rfl
  unfold Dispatch.resolve
  rw [runProgram_bind_ok hask]
  cases h : c.registry.resolve target with
  | error f => exact runProgram_bind_error rfl _
  | ok nodes => exact (runProgram_bind_ok rfl _).trans (c.runProgram_choose nodes)

end Client

/-! ## The check -/

namespace Pipeline

open SlotCluster.Action

variable {σ : Type} [Transport σ]

/-- The client's run of the action on its own is refused for its slots. -/
def Refuses {α : Type} (c : Client σ) (a : Action α) : Prop :=
  ∃ f, (c.runProgram a.run).1 = .error f ∧ f.kind = .crossSlot

theorem refuses_bind_ok {α β : Type} {a : Action α} {c c' : Client σ} {x : α}
    (h : c.runProgram a.run = (.ok x, c')) (f : α → Action β) :
    Refuses c (a >>= f) ↔ Refuses c' (f x) := by
  rw [Refuses, Client.runProgram_bind_ok h, Refuses]

theorem refuses_bind_error {α β : Type} {a : Action α} {c c' : Client σ} {g : Fault}
    (h : c.runProgram a.run = (.error g, c')) (f : α → Action β) :
    Refuses c (a >>= f) ↔ g.kind = .crossSlot := by
  rw [Refuses, Client.runProgram_bind_error h]
  simp

theorem refuses_throw_iff {α : Type} {c : Client σ} {f : Fault} :
    Refuses c (throw f : Action α) ↔ f.kind = .crossSlot := by
  constructor
  · rintro ⟨g, hg, hkind⟩
    cases hg
    exact hkind
  · intro hkind
    exact ⟨f, rfl, hkind⟩

@[simp] theorem not_refuses_pure {α : Type} {c : Client σ} {value : α} :
    ¬ Refuses c (pure value : Action α) := by
  rintro ⟨f, hf, -⟩
  cases hf

theorem not_refuses {α : Type} {a : Action α} (h : FailsOnly σ Fault.IsOther a) (c : Client σ) :
    ¬ Refuses c a := by
  rintro ⟨f, hf, hkind⟩
  have hruns := Client.runs_traceProgram a.run c
  rw [hf] at hruns
  exact h _ _ hruns hkind

theorem refuses_resolve_bind_iff {β : Type} {target : SingleTarget} {f : Node → Action β}
    {c : Client σ} : Refuses c (Dispatch.resolve target >>= f) ↔
      ∃ nodes node, c.registry.resolve target = .ok nodes ∧ c.drawn nodes 0 = some node ∧
        Refuses c.afterChoice (f node) := by
  have hruns := c.runProgram_resolve target
  cases hresolve : c.registry.resolve target with
  | error g =>
    rw [hresolve] at hruns
    have hother : g.kind ≠ .crossSlot := Registry.isOther_of_resolve hresolve
    simp [refuses_bind_error hruns, hother]
  | ok nodes =>
    simp only [hresolve] at hruns
    cases hdrawn : c.drawn nodes 0 with
    | none =>
      rw [hdrawn] at hruns
      have hother : Fault.noKnownNodes.kind ≠ .crossSlot := by decide
      simp [refuses_bind_error hruns, hdrawn, hother]
    | some node =>
      rw [hdrawn] at hruns
      simp [refuses_bind_ok hruns, hdrawn]

theorem refuses_commonTarget_some_iff {target : SingleTarget} {targets : List SingleTarget}
    (htargets : ∀ t ∈ keyed targets, t = target) {c : Client σ} {nodes : List Node}
    (hresolve : c.registry.resolve target = .ok nodes) (hnodes : nodes ≠ []) (first : Node) :
    Refuses c (commonTarget (some (first, target)) targets) ↔
      ∃ i < (keyed targets).length, ∃ other, c.drawn nodes i = some other ∧
        first.name ≠ other.name := by
  -- On the targets that are left. Each lookup uses up one choice of the client.
  induction targets generalizing c with
  | nil => simp [commonTarget, keyed]
  | cons t rest ih =>
    by_cases hrandom : t = .random
    · subst hrandom
      exact ih htargets hresolve
    rw [keyed_cons hrandom] at htargets ⊢
    have htarget : masterTarget t = target := htargets _ (by simp)
    have hrest : ∀ t ∈ keyed rest, t = target := fun t ht => htargets t (by simp [ht])
    obtain ⟨node, hnode⟩ := c.exists_drawn hnodes 0
    rw [commonTarget_cons hrandom, htarget, refuses_resolve_bind_iff, List.length_cons,
      Nat.exists_lt_succ_left]
    simp only [hresolve, Except.ok.injEq, hnode, Option.some.injEq, exists_and_left,
      exists_eq_left']
    by_cases hname : first.name = node.name
    · simpa [hname] using ih hrest (c := c.afterChoice) hresolve
    · rw [if_neg hname, refuses_throw_iff]
      exact ⟨fun _ => .inl hname, fun _ => rfl⟩

theorem refuses_commonTarget_iff {slot : UInt16} {targets : List SingleTarget}
    (htargets : ∀ t ∈ keyed targets, t = .route ⟨slot, .master⟩) (c : Client σ) :
    Refuses c (commonTarget none targets) ↔ c.Scatters slot (keyed targets).length := by
  rw [Client.scatters_iff]
  -- Targets without a slot are passed over. The first with one gives the name to compare with.
  induction targets with
  | nil => simp [commonTarget, keyed]
  | cons t rest ih =>
    by_cases hrandom : t = .random
    · subst hrandom
      exact ih htargets
    rw [keyed_cons hrandom] at htargets ⊢
    have htarget : masterTarget t = .route ⟨slot, .master⟩ := htargets _ (by simp)
    have hrest : ∀ t ∈ keyed rest, t = .route ⟨slot, .master⟩ :=
      fun t ht => htargets t (by simp [ht])
    have hmore : ∀ {nodes : List Node} {first : Node}, c.registry.masterOf slot = .ok nodes →
        c.drawn nodes 0 = some first →
        (Refuses c.afterChoice (commonTarget (some (first, .route ⟨slot, .master⟩)) rest) ↔
          ∃ i < (keyed rest).length, ∃ other, c.drawn nodes (i + 1) = some other ∧
            first.name ≠ other.name) := by
      intro nodes first hmaster hfirst
      have hnodes : nodes ≠ [] := by
        rintro rfl
        simp [Client.drawn] at hfirst
      simpa using refuses_commonTarget_some_iff hrest (c := c.afterChoice) hmaster hnodes first
    rw [commonTarget_cons hrandom, htarget, refuses_resolve_bind_iff, List.length_cons]
    constructor
    · rintro ⟨nodes, first, hmaster, hfirst, hrefuses⟩
      obtain ⟨i, hi, other, hother, hname⟩ := (hmore hmaster hfirst).mp hrefuses
      exact ⟨nodes, hmaster, i + 1, by omega, first, other, hfirst, hother, hname⟩
    · rintro ⟨nodes, hmaster, i, hi, first, other, hfirst, hother, hname⟩
      refine ⟨nodes, first, hmaster, hfirst, (hmore hmaster hfirst).mpr ?_⟩
      cases i with
      | zero =>
        rw [hfirst] at hother
        cases hother
        exact absurd rfl hname
      | succ i => exact ⟨i, by omega, other, hother, hname⟩

/-! ## Whole transactions -/

theorem isCommon_of_execResults {r : Option Reply} : FailsIn Fault.IsCommon (execResults r) := by
  unfold execResults
  split
  · exact failsIn_ok _
  · exact failsIn_ok _
  · exact failsIn_error (Fault.isCommon_server _)
  · exact failsIn_error (Fault.isCommon_cause (by decide))

theorem refuses_runTransaction_iff (hnetwork : Transport.FailsOnly σ Fault.IsOther) {s : Settings}
    {commands : List Command} {targets : List SingleTarget} {c : Client σ} :
    Refuses c (runTransaction s commands targets) ↔ Refuses c (commonTarget none targets) := by
  unfold runTransaction
  rcases hcheck : c.runProgram (commonTarget none targets).run with ⟨f | target, c'⟩
  · rw [refuses_bind_error hcheck, Refuses, hcheck]
    simp
  · rw [refuses_bind_ok hcheck]
    constructor
    · intro hrefuses
      refine absurd hrefuses (not_refuses (failsOnly_bind ?_ fun replies => ?_) c')
      · exact Dispatch.request_isOther hnetwork s _ target
      · exact failsOnly_lift fun f hf => (isCommon_of_execResults f hf).1
    · rintro ⟨f, hf, -⟩
      rw [hcheck] at hf
      cases hf

/-- A transaction whose commands name one slot is refused for its slots exactly if the registry has
no owner for the slot and needs none, and two of the lookups take nodes of different names. -/
theorem refused_iff_scattered (hnetwork : Transport.FailsOnly σ Fault.IsOther) {s : Settings}
    {p : Pipeline} (htransaction : p.transaction = true) {slot : UInt16}
    (hslot : StaysIn slot p.commands) (c : Client σ) :
    (∃ f, (c.run (p.run s).run).1 = .error f ∧ f.kind = .crossSlot) ↔
      ∃ targets ready, Pipeline.targets p.commands = .ok targets ∧
        c.runProgram (Discovery.refreshIfNeeded s).run = (.ok (), ready) ∧
        ready.Scatters slot (keyed targets).length := by
  unfold run
  rw [htransaction]
  split
  · next hempty =>
    have hnone : p.commands = [] := List.isEmpty_iff.mp hempty
    constructor
    · rintro ⟨f, hf, -⟩
      cases hf
    · rintro ⟨targets, ready, htargets, -, hscatters⟩
      rw [hnone] at htargets
      cases htargets
      obtain ⟨-, -, i, hi, -⟩ := hscatters.apart
      simp [keyed] at hi
  cases htargets : Pipeline.targets p.commands with
  | error f =>
    rw [Client.run_bind_error rfl]
    have hother : f.kind ≠ .crossSlot := isOther_of_targets hslot htargets
    simp [hother]
  | ok targets =>
    rw [Client.run_bind_ok rfl]
    rcases hrefresh : c.runProgram (Discovery.refreshIfNeeded s).run with ⟨f | _, ready⟩
    · rw [Client.run_bind_error ((Client.run_action _ c).trans hrefresh)]
      have hother := not_refuses (Discovery.refreshIfNeeded_isOther s) c
      simpa [Refuses, hrefresh] using hother
    · rw [Client.run_bind_ok ((Client.run_action _ c).trans hrefresh), if_pos rfl,
        Client.run_action]
      have hcheck := refuses_commonTarget_iff (keyed_of_staysIn hslot htargets) ready
      simpa [Refuses] using (refuses_runTransaction_iff hnetwork (s := s)).trans hcheck

/-- Two commands with the same key. No node has its slot, and the lookups take one node each. -/
theorem refused_iff_scattered_twice :
    let s : Settings := { skipCoverageCheck := true }
    let owns := fun (slot : Int64) (host : String) =>
      Reply.array [.int slot, .int slot, .array [.bulk (Bytes.ofText host), .int 1]]
    let get := Command.ofWords ["GET", "emj"]
    let p : Pipeline := ⟨[get, get], true⟩
    let c := Client.new s [Node.new "a" 1 .master]
      (⟨0, [.array [owns 0 "a", owns 2 "b"]]⟩ : Canned) id
    Transport.FailsOnly Canned Fault.IsOther ∧ p.transaction = true ∧ StaysIn 1 p.commands ∧
      (faultOf? (c.run (p.run s).run).1).map Fault.kind = some .crossSlot ∧
      written (c.trace (p.run s).run) = [[Command.clusterSlots]] ∧
      ∃ targets ready, Pipeline.targets p.commands = .ok targets ∧
        c.runProgram (Discovery.refreshIfNeeded s).run = (.ok (), ready) ∧
        ready.Scatters 1 (keyed targets).length := by
  intro s owns get p c
  have hnetwork : Transport.FailsOnly Canned Fault.IsOther :=
    Canned.failsOnly (Fault.isOther_io _ _)
  have hslot : StaysIn 1 p.commands := by decide +kernel
  have hkind : (faultOf? (c.run (p.run s).run).1).map Fault.kind = some .crossSlot := by
    decide +kernel
  obtain ⟨f, hf, hcross⟩ := Option.map_eq_some_iff.mp hkind
  refine ⟨hnetwork, rfl, hslot, hkind, by decide +kernel, ?_⟩
  exact (refused_iff_scattered hnetwork rfl hslot c).mp ⟨f, eq_error_of_faultOf? hf, hcross⟩

end Pipeline

end SlotCluster
