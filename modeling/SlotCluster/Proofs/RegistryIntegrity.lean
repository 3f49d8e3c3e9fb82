import SlotCluster.Proofs.Canned
import SlotCluster.Proofs.OperationUses
import SlotCluster.Proofs.Readings

/-!
# The integrity of the registry

Discovery, moved slots and resets change the slot table, the nodes and the seeds separately. They
still belong together at any time: the nodes of the table are known, its masters as masters, and the
seeds only grow.
-/

namespace SlotCluster

/-! ## Distinct nodes -/

namespace Node

theorem any_name_iff {nodes : List Node} {name : String} :
    (nodes.any fun n => n.name == name) = true ↔ name ∈ nodes.map Node.name := by
  simp [List.any_eq_true]

theorem nodup_distinctFrom {seen : List Node} (h : (seen.map Node.name).Nodup)
    (nodes : List Node) : ((distinctFrom seen nodes).map Node.name).Nodup := by
  induction nodes generalizing seen with
  | nil => rwa [distinctFrom, List.map_reverse, List.nodup_reverse]
  | cons n rest ih =>
    unfold distinctFrom
    split
    · exact ih h
    · next hnew =>
      rw [any_name_iff] at hnew
      exact ih (List.nodup_cons.mpr ⟨hnew, h⟩)

theorem nodup_distinct (nodes : List Node) : ((distinct nodes).map Node.name).Nodup :=
  nodup_distinctFrom (by simp) nodes

theorem distinctFrom_ne_nil {seen : List Node} (h : seen ≠ []) (nodes : List Node) :
    distinctFrom seen nodes ≠ [] := by
  induction nodes generalizing seen with
  | nil => simpa [distinctFrom] using h
  | cons n rest ih =>
    unfold distinctFrom
    split
    · exact ih h
    · exact ih (List.cons_ne_nil _ _)

theorem distinct_ne_nil {nodes : List Node} (h : nodes ≠ []) : distinct nodes ≠ [] := by
  cases nodes with
  | nil => exact absurd rfl h
  | cons n rest => exact distinctFrom_ne_nil (List.cons_ne_nil n []) rest

theorem mem_distinctFrom {seen nodes : List Node} {n : Node} (h : n ∈ distinctFrom seen nodes) :
    n ∈ seen ∨ n ∈ nodes := by
  induction nodes generalizing seen with
  | nil =>
    rw [distinctFrom, List.mem_reverse] at h
    exact .inl h
  | cons m rest ih =>
    rw [distinctFrom] at h
    split at h
    · exact (ih h).imp_right (List.mem_cons_of_mem m)
    · rcases ih h with hseen | hrest
      · rcases List.mem_cons.mp hseen with rfl | hseen
        · exact .inr List.mem_cons_self
        · exact .inl hseen
      · exact .inr (List.mem_cons_of_mem m hrest)

theorem mem_of_mem_distinct {nodes : List Node} {n : Node} (h : n ∈ distinct nodes) : n ∈ nodes :=
  (mem_distinctFrom h).resolve_left List.not_mem_nil

theorem names_distinctFrom {seen nodes : List Node} {name : String}
    (h : name ∈ seen.map Node.name ∨ name ∈ nodes.map Node.name) :
    name ∈ (distinctFrom seen nodes).map Node.name := by
  induction nodes generalizing seen with
  | nil =>
    rw [distinctFrom, List.map_reverse, List.mem_reverse]
    exact h.resolve_right List.not_mem_nil
  | cons m rest ih =>
    rw [List.map_cons, List.mem_cons] at h
    rw [distinctFrom]
    split
    · next hknown =>
      refine ih ?_
      rcases h with h | rfl | h
      · exact .inl h
      · exact .inl (any_name_iff.mp hknown)
      · exact .inr h
    · refine ih ?_
      rw [List.map_cons, List.mem_cons]
      rcases h with h | h | h
      · exact .inl (.inr h)
      · exact .inl (.inl h)
      · exact .inr h

theorem names_distinct {nodes : List Node} {n : Node} (h : n ∈ nodes) :
    n.name ∈ (distinct nodes).map Node.name :=
  names_distinctFrom (.inr (List.mem_map_of_mem h))

end Node

/-! ## Seeds -/

theorem Settings.seeds_ne_nil {s : Settings} {addresses : List String} {seeds : List Node}
    (h : s.check addresses = .ok seeds) : seeds ≠ [] := by
  unfold check at h
  split at h
  · cases h
  next hsome =>
  split at h
  · cases h
  split at h
  · cases h
  cases addresses with
  | nil => exact absurd rfl hsome
  | cons address rest =>
    obtain ⟨node, -, h⟩ := exists_of_bind_ok h
    obtain ⟨more, -, h⟩ := exists_of_bind_ok h
    cases h
    exact List.cons_ne_nil _ _

/-! ## Whole registries -/

namespace Registry

open SlotCluster.Topology (Known)

structure Whole (r : Registry) : Prop where
  tables : Topology.Whole ⟨r.slots, r.nodes⟩
  seeds : (r.seeds.map Node.name).Nodup
  seeded : r.seeds ≠ []

theorem whole_new {seeds : List Node} (h : seeds ≠ []) (steps : UInt64) (replicas : Bool) :
    (Registry.new seeds steps replicas).Whole :=
  ⟨Topology.whole_empty, Node.nodup_distinct seeds, Node.distinct_ne_nil h⟩

/-! ### Moved slots -/

/-- The node at this address as a master. A known node keeps what else is known of it. -/
def masterAt (r : Registry) (host : String) (port : UInt16) : Node :=
  ((r.node? (nameOf host port)).getD (Node.new host port .master)).withRole .master

theorem setNode_eq (r : Registry) (host : String) (port : UInt16) :
    r.setNode host port .master = (r.masterAt host port,
      { r with nodes := r.nodes.insert (nameOf host port) (r.masterAt host port) }) := by
  have hname : (Node.new host port .master).name = nameOf host port := rfl
  unfold setNode masterAt
  simp only [hname]
  cases r.node? (nameOf host port) with
  | none => rfl
  | some known => rfl

theorem masterAt_name {r : Registry} (h : r.nodes.Keyed) (host : String) (port : UInt16) :
    (r.masterAt host port).name = nameOf host port := by
  unfold masterAt
  cases hknown : r.node? (nameOf host port) with
  | none => rfl
  | some known =>
    have hname : known.name = nameOf host port := h.name_eq hknown
    exact hname

theorem whole_setNode {r : Registry} (h : r.Whole) (host : String) (port : UInt16) :
    (r.setNode host port .master).2.Whole ∧
      Known (r.setNode host port .master).2.nodes (r.setNode host port .master).1.name .master := by
  rw [setNode_eq]
  have hname := masterAt_name h.tables.keyed host port
  have hself : Known (r.nodes.insert (nameOf host port) (r.masterAt host port))
      (nameOf host port) .master :=
    ⟨_, r.nodes.get?_insert_self _ _, fun _ => rfl⟩
  have hold : ∀ {name : String} {role : Role}, Known r.nodes name role →
      Known (r.nodes.insert (nameOf host port) (r.masterAt host port)) name role := by
    rintro name role ⟨n, hn, hrole⟩
    by_cases heq : name = nameOf host port
    · obtain ⟨m, hm, hmaster⟩ := hself
      exact ⟨m, heq ▸ hm, fun _ => hmaster rfl⟩
    · exact ⟨n, (r.nodes.get?_insert_ne _ heq).trans hn, hrole⟩
  refine ⟨⟨⟨h.tables.counted, ?_, fun hget => ?_, fun hget n hn => ?_⟩, h.seeds, h.seeded⟩, ?_⟩
  · exact h.tables.keyed.insert hname
  · exact hold (h.tables.primaries hget)
  · exact hold (h.tables.replicas hget hn)
  · simpa only [hname] using hself

theorem whole_setOwner {r : Registry} (h : r.Whole) (slot : UInt16) {node : Node}
    (hnode : Known r.nodes node.name .master) : (r.setOwner slot node).Whole := by
  refine ⟨⟨h.tables.counted.set _ _, h.tables.keyed, fun hget => ?_, fun hget n hn => ?_⟩,
    h.seeds, h.seeded⟩
  all_goals rcases SlotTable.get?_set_cases hget with hold | ⟨-, rfl⟩
  · exact h.tables.primaries hold
  · exact hnode
  · exact h.tables.replicas hold hn
  · -- The replicas of the slot were its replicas before.
    simp only at hn
    split at hn
    · next owners howners => exact h.tables.replicas howners (List.mem_filter.mp hn).1
    · cases hn

theorem whole_countMoves {r : Registry} (h : r.Whole) (n : UInt64) : (r.countMoves n).2.Whole := by
  unfold countMoves
  split
  · exact h
  · exact ⟨h.tables, h.seeds, h.seeded⟩

/-! ### Discoveries -/

theorem addSeeds_names (r : Registry) (hnodes : (r.nodes.values.map Node.name).Nodup)
    (hseeds : (r.seeds.map Node.name).Nodup) :
    (r.addSeeds.seeds.map Node.name).Nodup ∧ r.seeds <+: r.addSeeds.seeds ∧
      ∀ n ∈ r.nodes.values, n.name ∈ r.addSeeds.seeds.map Node.name := by
  have hall : (r.allNodes.map Node.name).Nodup := by
    have hperm := (List.mergeSort_perm r.nodes.values fun a b => !(b.name < a.name)).map Node.name
    exact hperm.nodup_iff.mpr hnodes
  unfold addSeeds
  refine ⟨?_, List.prefix_append _ _, fun n hn => ?_⟩
  · rw [List.map_append]
    refine List.nodup_append.mpr ⟨hseeds, ?_, ?_⟩
    · exact hall.sublist (List.filter_sublist.map Node.name)
    · rintro name hname _ hadded rfl
      obtain ⟨n, hn, rfl⟩ := List.mem_map.mp hadded
      have hnew := (List.mem_filter.mp hn).2
      rw [Bool.not_eq_true'] at hnew
      exact absurd (Node.any_name_iff.mpr hname) (by simp [hnew])
  · rw [List.map_append, List.mem_append]
    by_cases hseed : (r.seeds.any fun s => s.name == n.name) = true
    · exact .inl (Node.any_name_iff.mp hseed)
    · refine .inr (List.mem_map_of_mem (List.mem_filter.mpr ⟨?_, by simpa using hseed⟩))
      exact List.mem_mergeSort.mpr hn

theorem install_seeds {r : Registry} (h : r.Whole) {t : Topology} (ht : t.Whole)
    (required : Bool) :
    let r' := r.install t.table t.nodes required
    (r'.seeds.map Node.name).Nodup ∧ r.seeds <+: r'.seeds ∧
      ∀ n ∈ r'.nodes.values, n.name ∈ r'.seeds.map Node.name := by
  let replaced := { r with
    slots := t.table, nodes := t.nodes, coverageRequired := required, moves := 0,
    refreshPending := false }
  exact addSeeds_names replaced ht.keyed.nodup h.seeds

theorem whole_install {r : Registry} (h : r.Whole) {t : Topology} (ht : t.Whole)
    (required : Bool) : (r.install t.table t.nodes required).Whole := by
  obtain ⟨hnodup, hgrows, -⟩ := install_seeds h ht required
  refine ⟨ht, hnodup, fun hnil => ?_⟩
  rw [hnil, List.prefix_nil] at hgrows
  exact h.seeded hgrows

end Registry

/-! ## What is installed -/

/-- No topology is installed that is not whole. -/
def Request.InstallsWhole : Request → Prop
  | .install t _ => t.Whole
  | _ => True

open SlotCluster.Action

namespace Discovery

/-- All that a survey learns keeps the property. -/
structure Survey.Keeps (Q : Survey → Prop) : Prop where
  start : Q .start
  failed {v : Survey} (candidate : Node) (f : Fault) (h : Q v) : Q (v.addFailure candidate f)
  answered {v : Survey} {onlySeed : Bool} {candidate : Node} {reply : Reply} {t : Topology}
    (h : Q v) (absorbed : absorb onlySeed candidate reply v.topology = .ok t) :
    Q { v with answered := true, topology := t }
  decided {v : Survey} (required : Bool) (h : Q v) : Q { v with coverageRequired := some required }

section Keeps

variable {τ : Type} {P : Protocol τ} {φ : τ} {Q : Survey → Prop} (hQ : Survey.Keeps Q)

include hQ

theorem survey_keeps (s : Settings) (onlySeed : Bool)
    (surveys : ∀ r : Request, r.Surveys → P.Allows φ r ∧ ∀ a, P.next φ r a = φ)
    (candidates : List Node) {v : Survey} (hv : Q v) :
    Action.Keeps P (fun r ψ => ψ = φ ∧ ∀ v', r = .ok v' → Q v') (survey s onlySeed candidates v)
      φ := by
  induction candidates generalizing v with
  | nil =>
    refine ⟨rfl, ?_⟩
    rintro _ ⟨⟩
    exact hv
  | cons candidate rest ih =>
    have hquery := (query_surveys candidate (.inl rfl)).mono surveys
    refine keeps_bind_iff.mpr (keeps_outcome_iff.mpr (hquery.keeps_at.mono ?_))
    rintro (f | reply) _ rfl
    · exact ih (hQ.failed candidate f hv)
    refine keeps_bind_iff.mpr (keeps_lift_iff.mpr ?_)
    cases habsorb : absorb onlySeed candidate reply v.topology with
    | error f => exact ⟨rfl, fun v' h => nomatch h⟩
    | ok t =>
      have ht := hQ.answered hv habsorb
      simp only
      split
      · refine ⟨rfl, ?_⟩
        rintro _ ⟨⟩
        exact ht
      · have hcoverage := fun v : Survey => ((coverage_surveys s v).mono surveys).keeps_at
        refine keeps_bind_iff.mpr (Program.keeps_bind_iff.mpr ((hcoverage _).mono ?_))
        rintro (_ | _) _ rfl
        · refine ⟨rfl, ?_⟩
          rintro _ ⟨⟩
          exact hQ.decided false ht
        · exact ih (hQ.decided true ht)

theorem run_keeps_until_install (s : Settings) (φ ψ : τ)
    (surveys : ∀ r : Request, r.Surveys ∨ r = .registry → P.Allows φ r ∧ ∀ a, P.next φ r a = φ)
    (installs : ∀ (v : Survey) (required : Bool), Q v → v.answered = true →
      P.Allows φ (.install v.topology required) ∧
        ∀ a, P.next φ (.install v.topology required) a = ψ) :
    Action.Keeps P (fun r χ => χ = match r with | .ok _ => ψ | .error _ => φ) (run s) φ := by
  obtain ⟨hregistry, hstays⟩ := surveys .registry (.inr rfl)
  refine keeps_ask_bind_iff.mpr ⟨hregistry, fun registry => ?_⟩
  rw [hstays]
  have hsurvey := survey_keeps hQ s (registry.seeds.length == 1) (fun r hr => surveys r (.inl hr))
    (candidates s registry) hQ.start
  refine keeps_bind_iff.mpr (hsurvey.mono ?_)
  rintro (f | v) _ ⟨rfl, hv⟩
  · rfl
  refine keeps_bind_iff.mpr (keeps_lift_iff.mpr ?_)
  cases hconclude : v.conclude s with
  | error f => rfl
  | ok required =>
    have hanswered : v.answered = true := by
      unfold Survey.conclude at hconclude
      split at hconclude
      · cases hconclude
      · next h => simpa using h
    exact installs v required (hv v rfl) hanswered

end Keeps

theorem Survey.keeps_whole : Survey.Keeps fun v => v.topology.Whole :=
  ⟨Topology.whole_empty, fun _ _ h => h, fun h absorbed => whole_of_absorb absorbed h, fun _ h => h⟩

theorem survey_keeps_whole (s : Settings) (onlySeed : Bool) (candidates : List Node) :
    Action.Keeps (.always fun _ => True) (fun r ψ => ψ = () ∧ ∀ v, r = .ok v → v.topology.Whole)
      (survey s onlySeed candidates .start) () :=
  survey_keeps Survey.keeps_whole s onlySeed (fun _ _ => ⟨trivial, fun _ => rfl⟩) candidates
    Topology.whole_empty

theorem run_installs_whole (s : Settings) : Uses Request.InstallsWhole (run s) := by
  refine Program.Keeps.uses (run_keeps_until_install Survey.keeps_whole s () () ?_ ?_)
  · rintro r (hr | rfl)
    · cases r with
      | install => exact hr.elim
      | _ => exact ⟨trivial, fun _ => rfl⟩
    · exact ⟨trivial, fun _ => rfl⟩
  · exact fun v required hv _ => ⟨hv, fun _ => rfl⟩

end Discovery

theorem Request.admits_installsWhole : Admits InstallsWhole where
  others {r} h := by
    cases r with
    | install => cases h
    | _ => trivial
  discovery := Discovery.run_installs_whole

/-! ## What an event does to the registry -/

variable {σ : Type} [Transport σ]

theorem Client.answer_whole (task : Nat) (c : Client σ) {r : Request} (hr : r.InstallsWhole)
    (h : c.registry.Whole) : (c.answer task r).2.registry.Whole := by
  cases r with
  | flagRefresh | takeRefresh => exact ⟨h.tables, h.seeds, h.seeded⟩
  | recordMove slot host port =>
    obtain ⟨hset, hnode⟩ := Registry.whole_setNode h host port
    exact Registry.whole_countMoves (Registry.whole_setOwner hset slot hnode) 1
  | install t required => exact Registry.whole_install h hr required
  | forget => exact ⟨Topology.whole_empty, h.seeds, h.seeded⟩
  | lock | unlock => exact h
  | _ =>
    rw [(Client.answer_of_plain (by trivial) c task).1]
    exact h

theorem Client.answer_seeds (task : Nat) (c : Client σ) {r : Request} (hr : r.installs = false) :
    (c.answer task r).2.registry.seeds = c.registry.seeds := by
  cases r with
  | recordMove slot host port =>
    obtain ⟨node, nodes, moves, hmoved⟩ := c.recordMove_frame slot host port
    have hseeds := congrArg Registry.seeds hmoved
    exact hseeds
  | install t required => cases hr
  | flagRefresh | takeRefresh | forget | lock | unlock => rfl
  | _ => rw [(Client.answer_of_plain (by trivial) c task).1]

theorem Client.answer_grows (task : Nat) (c : Client σ) {r : Request} (hr : r.InstallsWhole)
    (h : c.registry.Whole) :
    c.registry.seeds <+: (c.answer task r).2.registry.seeds ∧
      (r.installs = true → ∀ n ∈ (c.answer task r).2.registry.nodes.values,
        n.name ∈ (c.answer task r).2.registry.seeds.map Node.name) := by
  by_cases hinstalls : r.installs = true
  · cases r with
    | install t required =>
      obtain ⟨-, hgrows, hseeded⟩ := Registry.install_seeds h hr required
      exact ⟨hgrows, fun _ => hseeded⟩
    | _ => cases hinstalls
  · rw [c.answer_seeds task (by simpa using hinstalls)]
    exact ⟨List.prefix_rfl, fun h => absurd h hinstalls⟩

/-! ## Any course -/

/-- The tables of the registry belong together. -/
structure Registry.Coherent (r : Registry) : Prop where
  primaries {slot : UInt16} {owners : SlotOwners} (h : r.slots.get? slot = some owners) :
    ∃ n, r.node? owners.primary.name = some n ∧ n.role = .master
  replicas {slot : UInt16} {owners : SlotOwners} (h : r.slots.get? slot = some owners)
    {replica : Node} (hreplica : replica ∈ owners.replicas) :
    ∃ n, r.node? replica.name = some n
  keys : ∀ entry ∈ r.nodes.entries, entry.1 = entry.2.name
  found {n : Node} (h : n ∈ r.nodes.values) : r.node? n.name = some n
  seeds : (r.seeds.map Node.name).Nodup
  seeded : r.seeds ≠ []

theorem Registry.Whole.coherent {r : Registry} (h : r.Whole) : r.Coherent where
  primaries hget := by
    obtain ⟨n, hn, hrole⟩ := h.tables.primaries hget
    exact ⟨n, hn, hrole rfl⟩
  replicas hget replica hreplica := by
    obtain ⟨n, hn, -⟩ := h.tables.replicas hget hreplica
    exact ⟨n, hn⟩
  keys := h.tables.keyed
  found hn := h.tables.keyed.get?_name hn
  seeds := h.seeds
  seeded := h.seeded

namespace Moment

/-- The tables belong together in every course of a client, the seeds only grow, and every known
node is among them after an install. -/
theorem Course.tables_belong_together {s : Settings} {addresses : List String} {seeds : List Node}
    (hseeds : s.check addresses = .ok seeds) {network : σ} {choices : Nat → Nat}
    {es : List (Event σ)} {S : Moment σ Answer}
    (h : Course ⟨[], Client.new s seeds network choices⟩ es S) :
    S.client.registry.Coherent ∧ Node.distinct seeds <+: S.client.registry.seeds ∧
      ∀ e ∈ es, e.client.registry.seeds <+: e.after.registry.seeds ∧
        (e.request.installs = true → ∀ n ∈ e.after.registry.nodes.values,
          n.name ∈ e.after.registry.seeds.map Node.name) := by
  have hstart : (Client.new s seeds network choices).registry.Whole :=
    Registry.whole_new (Settings.seeds_ne_nil hseeds) _ _
  let Grown : Registry → Prop := fun r => r.Whole ∧ Node.distinct seeds <+: r.seeds
  have hstep : ∀ e : Event σ, e.request.InstallsWhole → Grown e.client.registry →
      Grown e.after.registry := by
    rintro e he ⟨hwhole, hgrown⟩
    exact ⟨e.client.answer_whole e.task he hwhole,
      hgrown.trans (e.client.answer_grows e.task he hwhole).1⟩
  have hgrown : Grown (Client.new s seeds network choices).registry := ⟨hstart, List.prefix_rfl⟩
  obtain ⟨⟨hwhole, hgrown⟩, hevents⟩ :=
    h.registry_keeps Request.admits_installsWhole hstep hgrown
  have hallowed := (h.allows Request.admits_installsWhole).2
  refine ⟨hwhole.coherent, hgrown, fun e he => ?_⟩
  exact e.client.answer_grows e.task (hallowed e he) (hevents e he).1

/-- A discovery, and a command that is redirected to a node which the client does not know. -/
theorem Course.tables_belong_together_moved :
    let a := Node.new "a" 1 .master
    let node := fun host port => Reply.array [.bulk (Bytes.ofText host), .int port]
    let slots := Reply.array [.array [.int 0, .int 0, node "a" 1, node "b" 2]]
    let moved := Reply.error (.known .moved (some "0 c:3"))
    let count := Command.ofWords ["CLUSTER", "COUNTKEYSINSLOT", "0"]
    let s : Settings := { skipCoverageCheck := true }
    let c := Client.new s [a] (⟨0, [slots, moved]⟩ : Canned) fun _ => 0
    let ops := [Operation.refresh, .execute count]
    let S₀ : Moment Canned Answer := ⟨ops.map fun op => op.task s, c⟩
    let schedule := List.replicate 6 0 ++ List.replicate 11 1
    let es := (S₀.play schedule).1
    let S := (S₀.play schedule).2
    Settings.check s ["a:1"] = .ok [a] ∧ Course ⟨[], c⟩ es S ∧
      (S.client.registry.masterOf 0).toOption = some [Node.new "c" 3 .master] ∧
      S.client.registry.nodes.entries.map Prod.fst = ["a:1", "b:2", "c:3"] ∧
      S.client.registry.Coherent ∧ Node.distinct [a] <+: S.client.registry.seeds ∧
      ∀ e ∈ es, e.client.registry.seeds <+: e.after.registry.seeds ∧
        (e.request.installs = true → ∀ n ∈ e.after.registry.nodes.values,
          n.name ∈ e.after.registry.seeds.map Node.name) := by
  intro a node slots moved count s c ops S₀ schedule es S
  have hseeds : Settings.check s ["a:1"] = .ok [a] := by decide +kernel
  have hbegun : Course ⟨[], c⟩ [] S₀ :=
    (Course.refl.begun .refresh).begun (.execute count)
  have hcourse : Course ⟨[], c⟩ ([] ++ es) S := hbegun.run (S₀.run_play schedule)
  rw [List.nil_append] at hcourse
  exact ⟨hseeds, hcourse, by decide +kernel, by decide +kernel,
    tables_belong_together hseeds hcourse⟩

end Moment

end SlotCluster
