import SlotCluster.Proofs.Canned
import SlotCluster.Proofs.CommandNames
import SlotCluster.Proofs.MovedSlots
import SlotCluster.Proofs.PipelineResults
import SlotCluster.Proofs.Transactions

/-!
# The nodes that serve a slot

A command for a slot goes to its master. Only a command that reads may go to a replica, if the
client reads from replicas and the slot has one. A transaction goes to the master, whatever its
commands are.
-/

namespace SlotCluster

/-! ## What commands ask for -/

namespace Command

/-- A replica may serve the command. -/
def isRead (c : Command) : Bool := (Words.name? (Routable.words c)).any CommandTable.isReadOnly

/-- The slot that the command names. -/
def slot? (c : Command) : Option UInt16 :=
  match Routing.of c with
  | .ok (.single (.route route)) => some route.slot
  | _ => none

end Command

theorem CommandTable.not_isReadOnly_of_slotArgument {name : Bytes}
    (h : familyOf name = .slotArgument) : isReadOnly name = false := by
  have hfirst : familyOf name ≠ .firstKey := by
    rw [h]
    decide
  obtain ⟨ns, hfamily, hname⟩ := exists_mem_of_familyOf hfirst
  rw [h] at hfamily
  have hnone : ∀ entry ∈ families, entry.1 = .slotArgument →
      ∀ name ∈ entry.2, isReadOnly name = false := by decide +kernel
  exact hnone _ hfamily rfl name hname

theorem Words.role_of_routeByKeys {w : Words} {name : Bytes} {family : Family} {route : Route}
    (h : w.routeByKeys name family = .ok (.single (.route route))) :
    (route.role == .replicaOptional) = CommandTable.isReadOnly name := by
  obtain ⟨keys, -, h⟩ := exists_of_bind_ok h
  cases keys with
  | none => cases h
  | some keys =>
    obtain ⟨slot, -, h⟩ := exists_of_bind_ok h
    cases h
    cases CommandTable.isReadOnly name <;> rfl

theorem Words.role_of_routeBySlot {w : Words} {name : Bytes} {route : Route}
    (h : w.routeBySlot name = .ok (.single (.route route))) : route.role = .master := by
  unfold routeBySlot at h
  split at h
  · split at h
    · cases h
      rfl
    · cases h
  · cases h

theorem Routing.role_eq {c : Command} {route : Route}
    (h : Routing.of c = .ok (.single (.route route))) :
    (route.role == .replicaOptional) = c.isRead := by
  obtain ⟨name, hchecked, h⟩ := exists_of_bind_ok h
  obtain ⟨-, -, hname, -⟩ := Words.checkedName_eq_ok_iff.mp hchecked
  have hread : c.isRead = CommandTable.isReadOnly name := by
    rw [Command.isRead, hname, Option.any_some]
  rw [hread]
  split at h
  · cases h
  · cases h
  · cases h
  · next hfamily =>
    rw [Words.role_of_routeBySlot h, CommandTable.not_isReadOnly_of_slotArgument hfamily]
    rfl
  · exact Words.role_of_routeByKeys h

/-! ## Owners -/

/-- The nodes among which a command for the slot finds its own. -/
def SlotOwners.serving (owners : SlotOwners) (fromReplicas : Bool) : List Node :=
  if fromReplicas && !owners.replicas.isEmpty then owners.replicas else [owners.primary]

namespace Registry

theorem nodesFor_of_owned {r : Registry} {route : Route} {owners : SlotOwners}
    (h : r.slots.get? route.slot = some owners) :
    r.nodesFor route =
      .ok (owners.serving (r.readFromReplicas && route.role == .replicaOptional)) := by
  unfold nodesFor replicasOf masterOf SlotOwners.serving
  rw [h]
  obtain ⟨primary, replicas⟩ := owners
  cases r.readFromReplicas <;> cases route.role <;> cases replicas <;> simp

/-- The replicas of a slot. -/
def replicasAt (r : Registry) (slot : UInt16) : List Node :=
  (r.slots.get? slot).elim [] SlotOwners.replicas

theorem get?_setOwner_cases (r : Registry) (slot : UInt16) (node : Node) :
    (r.setOwner slot node).slots.get? slot = some ⟨node, r.replicasBut slot node.name⟩ ∨
      (r.setOwner slot node).slots.get? slot = none ∧ r.slots.get? slot = none := by
  rw [setOwner_eq]
  by_cases hslot : slot.toNat < 16384
  · exact .inl (SlotTable.get?_set_self _ _ hslot)
  · exact .inr ⟨SlotTable.get?_of_ge _ hslot, SlotTable.get?_of_ge _ hslot⟩

/-- What a new master changes for those that look for a node of the slot, until the slot changes
again. -/
structure Promotes (r r' : Registry) (slot : UInt16) (node : Node) : Prop where
  primary : ∀ owners, r'.slots.get? slot = some owners → owners.primary = node
  replicas : r'.replicasAt slot = (r.replicasAt slot).filter fun n => n.name ≠ node.name
  /-- A read goes to the new master only if no other replica is left. -/
  reads : ∀ nodes, r'.readFromReplicas = true →
    r'.resolve (.route ⟨slot, .replicaOptional⟩) = .ok nodes →
    (∃ n ∈ nodes, n.name = node.name) → r'.replicasAt slot = []

theorem promotes_of_setOwner (r : Registry) {r' : Registry} {slot : UInt16} {node : Node}
    (h : r'.slots.get? slot = (r.setOwner slot node).slots.get? slot) :
    Promotes r r' slot node := by
  obtain hset | ⟨hset, hnone⟩ := r.get?_setOwner_cases slot node
  · rw [hset] at h
    refine ⟨?_, ?_, ?_⟩
    · rintro owners howners
      rw [h] at howners
      cases howners
      rfl
    · rw [replicasAt, h]
      rfl
    · rintro nodes hreads hnodes ⟨n, hn, hname⟩
      change r'.nodesFor ⟨slot, .replicaOptional⟩ = .ok nodes at hnodes
      rw [nodesFor_of_owned h, hreads] at hnodes
      obtain rfl := Except.ok.inj hnodes
      rw [replicasAt, h]
      change r.replicasBut slot node.name = []
      by_contra hleft
      rw [SlotOwners.serving, if_pos (by simpa using hleft)] at hn
      exact absurd hname (by simpa using (List.mem_filter.mp hn).2)
  · rw [hset] at h
    refine ⟨?_, ?_, ?_⟩
    · rw [h]
      nofun
    · rw [replicasAt, replicasAt, h, hnone]
      rfl
    · intros
      rw [replicasAt, h]
      rfl

end Registry

/-! ## Commands -/

variable {σ : Type} [Transport σ] {s : Settings} {commands : List Command} {es : List (Event σ)}

/-- A node is looked up. If the slot has an owner then, the commands are sent to a node that may
serve it, and nowhere before. -/
def Reaches (slot : UInt16) (read : Bool) (commands : List Command)
    (lookup contact : List (Event σ)) : Prop :=
  (∀ e ∈ lookup, e.request.LooksUp) ∧ ∃ task d rest, lookup = ⟨task, .registry, d⟩ :: rest ∧
    ∀ owners, d.registry.slots.get? slot = some owners →
      ∃ node ∈ owners.serving (d.registry.readFromReplicas && read), ∃ raw,
        Contact node.name commands contact raw

omit [Transport σ] in
theorem Looks.serves {route : Route} {found : Except Fault Node}
    (h : Looks (fun reg => reg.resolve (.route route)) es found) :
    ∃ task d rest, es = ⟨task, .registry, d⟩ :: rest ∧
      ∀ owners, d.registry.slots.get? route.slot = some owners →
        ∃ node ∈ owners.serving (d.registry.readFromReplicas && route.role == .replicaOptional),
          found = .ok node := by
  obtain ⟨task, d, rest, rfl, h⟩ := h
  refine ⟨task, d, rest, rfl, fun owners howners => ?_⟩
  simp only [Registry.resolve, Registry.nodesFor_of_owned howners] at h
  obtain ⟨-, -, -, hfound⟩ := h
  exact hfound

theorem Trial.Goes.looksUp {target : SingleTarget} {t : Trial σ} (h : t.Goes commands target) :
    ∀ e ∈ t.lookup, e.request.LooksUp := by
  cases h with
  | nowhere hfinds _ _ | there hfinds _ _ => exact hfinds.looksUp

theorem Trial.Goes.reaches {route : Route} {t : Trial σ} (h : t.Goes commands (.route route))
    (hcue : t.cue = .route) :
    Reaches route.slot (route.role == .replicaOptional) commands t.lookup t.contact := by
  have hlooks := h.looksUp
  cases h with
  | nowhere hfinds _ _ =>
    rw [hcue] at hfinds
    obtain ⟨task, d, rest, hlookup, hserves⟩ := Looks.serves hfinds
    refine ⟨hlooks, task, d, rest, hlookup, fun owners howners => ?_⟩
    obtain ⟨node, -, hnode⟩ := hserves owners howners
    cases hnode
  | @there node raw hfinds hcontact _ =>
    rw [hcue] at hfinds hcontact
    obtain ⟨task, d, rest, hlookup, hserves⟩ := Looks.serves hfinds
    refine ⟨hlooks, task, d, rest, hlookup, fun owners howners => ?_⟩
    obtain ⟨_, hmember, hnode⟩ := hserves owners howners
    cases hnode
    exact ⟨node, hmember, raw, hcontact⟩

theorem Tried.exists_first {target : SingleTarget} {left : Nat} {cue : Cue}
    {result : Except Fault (List Reply)} {trials : List (Trial σ)}
    (h : Tried s commands target left cue es result trials) :
    ∃ (t : Trial σ) (later : List (Event σ)), es = t.lookup ++ t.contact ++ later ∧ t.cue = cue ∧
      t.Goes commands target := by
  cases trials with
  | nil => cases h.first
  | cons t rest =>
    refine ⟨t, t.aftermath ++ rest.flatMap Trial.events, ?_, Option.some.inj h.first,
      h.goes t List.mem_cons_self⟩
    rw [h.events, List.flatMap_cons, Trial.events, List.append_assoc]

theorem Dispatch.reaches_of_request {route : Route} {result : Except Fault (List Reply)}
    (hattempts : 1 ≤ s.attempts) (h : Action.Runs (request s commands (.route route)) es result) :
    ∃ lookup contact later, es = lookup ++ contact ++ later ∧
      Reaches route.slot (route.role == .replicaOptional) commands lookup contact := by
  have hstart : Cue.route.IsNotedIn .start := ⟨rfl, rfl⟩
  obtain ⟨trials, htried⟩ := runs_requestFrom hstart hattempts h
  obtain ⟨t, later, hes, hcue, hgoes⟩ := htried.exists_first
  exact ⟨t.lookup, t.contact, later, hes, hgoes.reaches hcue⟩

/-- What becomes of a command for a slot. Its first attempt comes right behind the check for a
discovery. -/
inductive Arrives (s : Settings) (c : Command) (slot : UInt16) :
    List (Event σ) → Except Fault Reply → Prop
  | unchecked {check : List (Event σ)} {f : Fault}
      (check_ : Action.Runs (Discovery.refreshIfNeeded s) check (.error f)) :
      Arrives s c slot check (.error f)
  | reached {check lookup contact later : List (Event σ)} {r : Except Fault Reply}
      (check_ : Action.Runs (Discovery.refreshIfNeeded s) check (.ok ()))
      (reaches : Reaches slot c.isRead [c] lookup contact) :
      Arrives s c slot (check ++ (lookup ++ contact ++ later)) r

theorem Dispatch.arrives_of_execute {c : Command} {route : Route} {r : Except Fault Reply}
    (hattempts : 1 ≤ s.attempts) (hrouting : Routing.of c = .ok (.single (.route route)))
    (h : Job.Runs (execute s c) es r) : Arrives s c route.slot es r := by
  obtain ⟨f, hf, -⟩ | ⟨_, es₁, es₂, rfl, h₁, h₂⟩ := Job.runs_bind_iff.mp h
  · obtain ⟨-, hf⟩ := Job.runs_lift_iff.mp hf
    rw [hrouting] at hf
    cases hf
  obtain ⟨rfl, hok⟩ := Job.runs_lift_iff.mp h₁
  obtain rfl := Except.ok.inj (hok.trans hrouting)
  obtain ⟨name, hname, -⟩ := exists_of_bind_ok hrouting
  obtain ⟨f, hf, -⟩ | ⟨_, es₃, es₄, rfl, h₃, h₄⟩ := Job.runs_bind_iff.mp h₂
  · obtain ⟨-, hf⟩ := Job.runs_lift_iff.mp hf
    rw [hname] at hf
    cases hf
  obtain ⟨rfl, -⟩ := Job.runs_lift_iff.mp h₃
  obtain ⟨f, hf, rfl⟩ | ⟨_, check, rest, rfl, hcheck, hrest⟩ := Job.runs_bind_iff.mp h₄
  · exact .unchecked (Job.runs_action_iff.mp hf)
  have hreaches : ∀ {rest : List (Event σ)} {result : Except Fault (List Reply)},
      Job.Runs (liftM (request s [c] (.route route))) rest result →
      ∃ lookup contact later, rest = lookup ++ contact ++ later ∧
        Reaches route.slot c.isRead [c] lookup contact := by
    intro rest result hrequest
    rw [← Routing.role_eq hrouting]
    exact reaches_of_request hattempts (Job.runs_action_iff.mp hrequest)
  obtain ⟨f, hf, -⟩ | ⟨replies, request, last, rfl, hrequest, hlast⟩ := Job.runs_bind_iff.mp hrest
  · obtain ⟨lookup, contact, later, rfl, hnode⟩ := hreaches hf
    exact .reached (Job.runs_action_iff.mp hcheck) hnode
  · obtain ⟨lookup, contact, later, rfl, hnode⟩ := hreaches hrequest
    obtain ⟨rfl, -⟩ := Task.runs_done_iff.mp hlast
    rw [List.append_nil]
    exact .reached (Job.runs_action_iff.mp hcheck) hnode

/-! ## Pipelines in parts -/

namespace Pipeline

omit [Transport σ] in
theorem singleTarget_of_routing {c : Command} {target : SingleTarget}
    (h : Routing.of c = .ok (.single target)) : singleTarget c = .ok target := by
  unfold singleTarget
  rw [h]
  rfl

omit [Transport σ] in
theorem exists_of_forall₂_getElem? {β γ : Type} {R : β → γ → Prop} {xs : List β} {ys : List γ}
    (h : List.Forall₂ R xs ys) {i : Nat} {x : β} (hx : xs[i]? = some x) :
    ∃ y, ys[i]? = some y ∧ R x y := by
  obtain ⟨hi, rfl⟩ := List.getElem?_eq_some_iff.mp hx
  have hi' : i < ys.length := h.length_eq ▸ hi
  exact ⟨ys[i], List.getElem?_eq_getElem hi', (List.forall₂_iff_get.mp h).2 i hi hi'⟩

omit [Transport σ] in
theorem targets_getElem? {targets : List SingleTarget} (h : Pipeline.targets commands = .ok targets)
    {i : Nat} {c : Command} (hc : commands[i]? = some c) {target : SingleTarget}
    (hrouting : Routing.of c = .ok (.single target)) : targets[i]? = some target := by
  obtain ⟨target', htarget, hsingle⟩ := exists_of_forall₂_getElem? (forall₂_targets h) hc
  rw [singleTarget_of_routing hrouting] at hsingle
  cases hsingle
  exact htarget

theorem Volley.Of.reaches {v : Volley σ} (h : v.Of s commands) {i : Nat} {c : Command}
    {route : Route} (hc : commands[i]? = some c)
    (hrouting : Routing.of c = .ok (.single (.route route))) :
    ∃ l part, v.lookups[i]? = some l ∧ part ∈ v.parts ∧ (i, c) ∈ part.batch.commands ∧
      Reaches route.slot c.isRead (part.batch.commands.map Prod.snd) l.events part.events := by
  obtain ⟨l, hl, hlooks⟩ :=
    exists_of_forall₂_getElem? h.lookups (targets_getElem? h.targets hc hrouting)
  have hnamed : (l.node.name, (i, c)) ∈ v.named commands := by
    refine List.mem_of_getElem? (i := i) (List.getElem?_zip_eq_some.mpr ⟨?_, ?_⟩)
    · rw [List.getElem?_map, hl, Option.map_some]
    · rw [getElem?_numbered, hc, Option.map_some]
  obtain ⟨b, hb, hnode⟩ := h.sorted.covers _ hnamed
  obtain ⟨part, hpart, rfl⟩ := List.mem_map.mp hb
  refine ⟨l, part, hl, hpart, ?_, ?_⟩
  · rw [h.sorted.commands _ hb, commandsFor, hnode]
    exact List.mem_map.mpr ⟨_, List.mem_filter.mpr ⟨hnamed, by simp⟩, rfl⟩
  · obtain ⟨task, d, rest, hlookup, hserves⟩ := Looks.serves hlooks
    refine ⟨hlooks.looksUp, task, d, rest, hlookup, fun owners howners => ?_⟩
    obtain ⟨node, hmember, hfound⟩ := hserves owners howners
    obtain rfl := Except.ok.inj hfound
    rw [Routing.role_eq hrouting] at hmember
    refine ⟨l.node, hmember, part.outcome, ?_⟩
    have hcontact := (h.sent part hpart).contact
    rwa [hnode] at hcontact

/-- What becomes of a pipeline in parts. The batch with a command for a slot goes to a node that may
serve it. -/
inductive ArrivesInParts (s : Settings) (commands : List Command) :
    List (Event σ) → Except Fault (List (Except Fault Reply)) → Prop
  | empty (none_ : commands = []) : ArrivesInParts s commands [] (.ok [])
  | unsent {es : List (Event σ)} {r : Except Fault (List (Except Fault Reply))}
      (h : Unsent es r) : ArrivesInParts s commands es r
  | sent {v : Volley σ} {check later : List (Event σ)}
      {r : Except Fault (List (Except Fault Reply))}
      (check_ : Action.Runs (Discovery.refreshIfNeeded s) check (.ok ()))
      (volley : v.Of s commands)
      (reaches : ∀ i c route, commands[i]? = some c →
        Routing.of c = .ok (.single (.route route)) →
        ∃ l part, v.lookups[i]? = some l ∧ part ∈ v.parts ∧ (i, c) ∈ part.batch.commands ∧
          Reaches route.slot c.isRead (part.batch.commands.map Prod.snd) l.events part.events) :
      ArrivesInParts s commands (check ++ v.events ++ later) r

theorem arrivesInParts_of_run {p : Pipeline} {r : Except Fault (List (Except Fault Reply))}
    (hparts : p.transaction = false) (h : Job.Runs (p.run s) es r) :
    ArrivesInParts s p.commands es r := by
  rcases inParts_of_runs hparts h with hempty | hunsent | ⟨hcheck, hof, -⟩
  · exact .empty hempty
  · exact .unsent hunsent
  · exact .sent hcheck hof fun i c route => hof.reaches

/-! ## Transactions -/

/-- The client reads this registry wherever it reads one. -/
def Sees (reg : Registry) (es : List (Event σ)) : Prop :=
  ∀ e ∈ es, e.request = .registry → e.client.registry = reg

/-- The slots that commands name, in their order. -/
def slotsOf (commands : List Command) : List UInt16 := commands.filterMap Command.slot?

/-- The first attempt of a transaction, whose slots are those of one registry. -/
structure ToMaster (reg : Registry) (commands : List Command) (contact : List (Event σ)) :
    Prop where
  /-- If the first slot has an owner it goes to this master, and no other slot has another one. -/
  keyed : ∀ first rest owners, slotsOf commands = first :: rest →
    reg.slots.get? first = some owners →
    (∃ raw, Contact owners.primary.name (bracketed commands) contact raw) ∧
      ∀ slot ∈ rest, ∀ owners', reg.slots.get? slot = some owners' →
        owners'.primary.name = owners.primary.name
  /-- Without a slot it goes to any master. -/
  keyless : slotsOf commands = [] → contact = [] ∨
    ∃ node ∈ reg.allMasters, ∃ raw, Contact node.name (bracketed commands) contact raw

section

variable {reg : Registry} {targets : List SingleTarget} {lookups : List (Lookup σ)}

omit [Transport σ] in
theorem Sees.first {task : Nat} {d : Client σ} {rest : List (Event σ)}
    (h : Sees reg (⟨task, .registry, d⟩ :: rest)) : d.registry = reg :=
  h _ List.mem_cons_self rfl

omit [Transport σ] in
theorem Agreed.owner (h : Agreed (keyed targets) lookups)
    (hsees : Sees reg (lookups.flatMap Lookup.events)) {slot : UInt16} {owners : SlotOwners}
    (hmem : .route ⟨slot, .master⟩ ∈ keyed targets) (howners : reg.slots.get? slot = some owners) :
    ∃ l ∈ lookups, l.node = owners.primary := by
  obtain ⟨l, hl, task, d, _, hes, hleads⟩ := exists_of_forall₂_right h.found.flip hmem
  have hl' : Sees reg l.events := fun e he => hsees e (List.mem_flatMap.mpr ⟨l, hl, he⟩)
  rw [hes] at hl'
  refine ⟨l, hl, ?_⟩
  rw [hl'.first] at hleads
  cases hleads with
  | owner howned hprimary =>
    rw [howners] at howned
    cases howned
    exact hprimary
  | known hnone _ _ _ =>
    rw [howners] at hnone
    cases hnone

omit [Transport σ] in
theorem keyed_eq (htargets : Pipeline.targets commands = .ok targets) :
    keyed targets = (slotsOf commands).map fun slot => .route ⟨slot, .master⟩ := by
  have hroutes := forall₂_targets htargets
  clear htargets
  induction hroutes with
  | nil => rfl
  | @cons c target _ targets hsingle _ ih =>
    obtain ⟨routing, hrouting, hroute⟩ := exists_of_bind_ok hsingle
    cases routing with
    | multi _ _ => cases hroute
    | single single =>
      cases hroute
      obtain rfl | ⟨route, rfl⟩ := Words.routing_single hrouting
      · have hslot : c.slot? = none := by rw [Command.slot?, hrouting]
        rw [slotsOf, List.filterMap_cons_none hslot]
        exact ih
      · have hslot : c.slot? = some route.slot := by rw [Command.slot?, hrouting]
        rw [slotsOf, List.filterMap_cons_some hslot, List.map_cons]
        exact congrArg _ ih

theorem Agreed.toMaster (htargets : Pipeline.targets commands = .ok targets)
    (h : Agreed (keyed targets) lookups) {t : Trial σ} (hcue : t.cue = .route)
    (hgoes : t.Goes (bracketed commands) (goal targets))
    (hsees : Sees reg (lookups.flatMap Lookup.events ++ t.lookup)) :
    ToMaster reg commands t.contact := by
  obtain ⟨hbefore, hlookup⟩ := List.forall_mem_append.mp hsees
  have hkeyed := keyed_eq htargets
  constructor
  · intro first rest owners hslots howners
    have hgoal : goal targets = .route ⟨first, .master⟩ := by
      rw [goal, hkeyed, hslots]
      rfl
    have hmem : ∀ slot ∈ first :: rest, .route ⟨slot, .master⟩ ∈ keyed targets := by
      intro slot hslot
      rw [hkeyed, hslots]
      exact List.mem_map.mpr ⟨slot, hslot, rfl⟩
    rw [hgoal] at hgoes
    obtain ⟨-, task, d, _, hes, hserves⟩ := hgoes.reaches hcue
    rw [hes] at hlookup
    obtain rfl : d.registry = reg := Sees.first hlookup
    obtain ⟨node, hnode, hcontact⟩ := hserves owners howners
    obtain rfl : node = owners.primary := by simpa [SlotOwners.serving] using hnode
    refine ⟨hcontact, fun slot hslot owners' howners' => ?_⟩
    -- Both masters were looked up before, and had one name.
    obtain ⟨l, hl, hprimary⟩ := h.owner hbefore (hmem first List.mem_cons_self) howners
    obtain ⟨l', hl', hprimary'⟩ :=
      h.owner hbefore (hmem slot (List.mem_cons_of_mem _ hslot)) howners'
    rw [← hprimary, ← hprimary', h.same l' hl' l hl]
  · intro hnone
    have hgoal : goal targets = .randomMaster := by
      rw [goal, hkeyed, hnone]
      rfl
    rw [hgoal] at hgoes
    cases hgoes with
    | nowhere _ hcontact _ => exact .inl hcontact
    | @there node raw hfinds hcontact _ =>
      rw [hcue] at hfinds hcontact
      obtain ⟨task, d, rest, hes, hleads⟩ := leadsIn_of_looks (.inl rfl) hfinds
      rw [hes] at hlookup
      obtain rfl : d.registry = reg := Sees.first hlookup
      cases hleads with
      | master hmember => exact .inr ⟨node, hmember, raw, hcontact⟩

/-- What becomes of a transaction. Nodes are looked up for it, and if the registry stays as it is
meanwhile, the first attempt goes to a master. -/
inductive ArrivesInOne (s : Settings) (commands : List Command) :
    List (Event σ) → Except Fault (List (Except Fault Reply)) → Prop
  | empty (none_ : commands = []) : ArrivesInOne s commands [] (.ok [])
  | unsent {es : List (Event σ)} {r : Except Fault (List (Except Fault Reply))}
      (h : Unsent es r) : ArrivesInOne s commands es r
  | sent {check lookups lookup contact later : List (Event σ)}
      {r : Except Fault (List (Except Fault Reply))}
      (check_ : Action.Runs (Discovery.refreshIfNeeded s) check (.ok ()))
      (looks : ∀ e ∈ lookups ++ lookup, e.request.LooksUp)
      (master : ∀ reg, Sees reg (lookups ++ lookup) → ToMaster reg commands contact) :
      ArrivesInOne s commands (check ++ (lookups ++ (lookup ++ contact ++ later))) r

theorem Agreed.exists_first {es : List (Event σ)} {result : Except Fault (List Reply)}
    (h : Agreed (keyed targets) lookups) (hattempts : 1 ≤ s.attempts)
    (htargets : Pipeline.targets commands = .ok targets)
    (hruns : Action.Runs (Dispatch.request s (bracketed commands) (goal targets)) es result) :
    ∃ lookup contact later, es = lookup ++ contact ++ later ∧
      (∀ e ∈ lookup, e.request.LooksUp) ∧ ∀ reg,
        Sees reg (lookups.flatMap Lookup.events ++ lookup) → ToMaster reg commands contact := by
  have hstart : Cue.route.IsNotedIn .start := ⟨rfl, rfl⟩
  obtain ⟨trials, htried⟩ := Dispatch.runs_requestFrom hstart hattempts hruns
  obtain ⟨t, later, hes, hcue, hgoes⟩ := htried.exists_first
  exact ⟨t.lookup, t.contact, later, hes, hgoes.looksUp,
    fun reg => h.toMaster htargets hcue hgoes⟩

theorem arrivesInOne_of_run {p : Pipeline} {r : Except Fault (List (Except Fault Reply))}
    (hattempts : 1 ≤ s.attempts) (htransaction : p.transaction = true)
    (h : Job.Runs (p.run s) es r) : ArrivesInOne s p.commands es r := by
  obtain ⟨hempty, rfl, rfl⟩ | ⟨f, hstopped, rfl⟩ |
    ⟨targets, check, rest, htargets, rfl, hcheck, hrest⟩ := runs_run h
  · exact .empty hempty
  · exact .unsent hstopped.unsent
  rw [htransaction, if_pos rfl] at hrest
  have hruns := Job.runs_action_iff.mp hrest
  unfold runTransaction at hruns
  obtain ⟨f, hf, rfl⟩ | ⟨target, es₁, es₂, rfl, htarget, hrequest⟩ := Action.runs_bind_iff.mp hruns
  · refine .unsent ⟨⟨f, rfl⟩, List.forall_mem_append.mpr ⟨?_, fun e he => ?_⟩⟩
    · exact (Discovery.refreshIfNeeded_upkeep s).of_runs hcheck
    · exact ((commonTarget_looksUp none targets).of_runs hf e he).isUpkeep
  have hbefore := (commonTarget_looksUp none targets).of_runs htarget
  obtain ⟨f, -, hf⟩ | ⟨lookups, rfl, hagreed, hok⟩ := runs_commonTarget_none htargets htarget
  · cases hf
  cases hok
  obtain ⟨f, hf, -⟩ | ⟨replies, es₃, es₄, rfl, hreplies, -⟩ := Action.runs_bind_iff.mp hrequest
  · obtain ⟨lookup, contact, later, rfl, hlooks, hmaster⟩ :=
      hagreed.exists_first hattempts htargets hf
    exact .sent hcheck (List.forall_mem_append.mpr ⟨hbefore, hlooks⟩) hmaster
  · obtain ⟨lookup, contact, later, rfl, hlooks, hmaster⟩ :=
      hagreed.exists_first hattempts htargets hreplies
    rw [List.append_assoc (lookup ++ contact)]
    exact .sent hcheck (List.forall_mem_append.mpr ⟨hbefore, hlooks⟩) hmaster

end

end Pipeline

/-! ## All of them -/

/-- Commands go to nodes that may serve their slots, whatever the client chooses. A node that has
become the master of a slot is none of its replicas. -/
theorem Dispatch.served_where_they_may (hattempts : 1 ≤ s.attempts) :
    (∀ (c : Command) (route : Route) (es : List (Event σ)) (r : Except Fault Reply),
      Routing.of c = .ok (.single (.route route)) → Job.Runs (execute s c) es r →
      Arrives s c route.slot es r) ∧
    (∀ (p : Pipeline) (es : List (Event σ)) (r : Except Fault (List (Except Fault Reply))),
      Job.Runs (p.run s) es r →
      if p.transaction then Pipeline.ArrivesInOne s p.commands es r
      else Pipeline.ArrivesInParts s p.commands es r) ∧
    ∀ (r r' : Registry) (slot : UInt16) (node : Node),
      r'.slots.get? slot = (r.setOwner slot node).slots.get? slot → r.Promotes r' slot node := by
  refine ⟨fun c route es r => arrives_of_execute hattempts, fun p es r h => ?_,
    fun r r' slot node => r.promotes_of_setOwner⟩
  split
  · next htransaction => exact Pipeline.arrivesInOne_of_run hattempts htransaction h
  · next hparts => exact Pipeline.arrivesInParts_of_run (Bool.not_eq_true _ ▸ hparts) h

/-- Two nodes serve the slot of a key. A read goes to the replica, alone or in a pipeline, and a
transaction of reads to the master. When the replica becomes the master, the slot has no replica. -/
theorem Dispatch.served_where_they_may_replica :
    let s : Settings := { readFromReplicas := true }
    let a := Node.new "a" 1 .master
    let b := Node.new "b" 3 .replica
    let new := Canned.client s [.okay, .okay, .simple "QUEUED", .array [.nil]]
    let c := new.setRegistry
      { new.registry with slots := SlotTable.empty.set 3 ⟨a, [b]⟩, refreshPending := false }
    let get := Command.ofWords ["GET", "raw"]
    let nodesOf := fun es : List (Event Canned) => es.filterMap fun e =>
      match e.request with
      | .checkout node => some node
      | _ => none
    let run := fun p : Pipeline => (c.run (p.run s).run).1
    let trace := fun p : Pipeline => c.trace (p.run s).run
    let alone := c.trace (execute s get).run
    let promoted := c.registry.setOwner 3 b
    1 ≤ s.attempts ∧ Routing.of get = .ok (.single (.route ⟨3, .replicaOptional⟩)) ∧
      nodesOf alone = ["b:3"] ∧ Arrives s get 3 alone (c.run (execute s get).run).1 ∧
      nodesOf (trace ⟨[get], false⟩) = ["b:3"] ∧
      Pipeline.ArrivesInParts s [get] (trace ⟨[get], false⟩) (run ⟨[get], false⟩) ∧
      nodesOf (trace ⟨[get], true⟩) = ["a:1"] ∧
      Pipeline.ArrivesInOne s [get] (trace ⟨[get], true⟩) (run ⟨[get], true⟩) ∧
      promoted.replicasAt 3 = [] ∧ c.registry.Promotes promoted 3 b := by
  intro s a b new c get nodesOf run trace alone promoted
  have hattempts : 1 ≤ s.attempts := by decide
  have hrouting : Routing.of get = .ok (.single (.route ⟨3, .replicaOptional⟩)) := by
    decide +kernel
  have hserved := served_where_they_may (s := s) (σ := Canned) hattempts
  exact ⟨hattempts, hrouting, by decide +kernel,
    hserved.1 get _ _ _ hrouting (Client.runs_trace _ _), by decide +kernel,
    hserved.2.1 ⟨[get], false⟩ _ _ (Client.runs_trace _ _), by decide +kernel,
    hserved.2.1 ⟨[get], true⟩ _ _ (Client.runs_trace _ _), by decide +kernel,
    hserved.2.2 _ _ _ _ rfl⟩

end SlotCluster
