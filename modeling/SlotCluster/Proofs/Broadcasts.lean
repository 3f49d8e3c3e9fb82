import SlotCluster.Proofs.LearnedSlots
import SlotCluster.Proofs.MergeRules

/-!
# Broadcasts

A broadcast asks every node of its target at the same time, each of them once, and once more if the
network lost the first try. No node is asked in place of another, and nothing is learned from the
answers. They are merged in the order of the nodes, whatever their order in time.
-/

namespace SlotCluster

/-! ## Targets -/

namespace Node

structure IsOrdered (known nodes : List Node) : Prop where
  all : nodes.Perm known
  ordered : nodes.Pairwise fun a b => a.name ≤ b.name

theorem isOrdered_sortByName (nodes : List Node) : IsOrdered nodes (sortByName nodes) := by
  have hle : ∀ a b : Node, (!decide (b.name < a.name)) = true ↔ a.name ≤ b.name := by
    intro a b
    rw [Bool.not_eq_true', decide_eq_false_iff_not, String.not_lt]
  refine ⟨List.mergeSort_perm _ _, ?_⟩
  refine (List.pairwise_mergeSort (fun a b c => ?_) (fun a b => ?_) nodes).imp ?_
  · rw [hle, hle, hle]
    exact String.le_trans
  · rw [Bool.or_eq_true, hle, hle]
    exact String.le_total a.name b.name
  · exact fun {a b} => (hle a b).mp

end Node

namespace Registry

structure IsMasters (r : Registry) (nodes : List Node) : Prop where
  once : (nodes.map Node.name).Nodup
  serves : ∀ n ∈ nodes, ∃ slot owners, r.slots.get? slot = some owners ∧ owners.primary = n
  all : ∀ slot owners, r.slots.get? slot = some owners →
    owners.primary.name ∈ nodes.map Node.name

def IsOwned (r : Registry) : Prop := ∃ slot owners, r.slots.get? slot = some owners

inductive IsTarget (r : Registry) : MultiTarget → List Node → Prop
  | masters {nodes : List Node} (owned : r.IsOwned) (h : r.IsMasters nodes) :
      IsTarget r .allMasters nodes
  /-- Without any owner the known masters have to do. -/
  | knownMasters {nodes : List Node} (unowned : ¬ r.IsOwned)
      (h : Node.IsOrdered (r.nodes.values.filter fun n => n.role == .master) nodes) :
      IsTarget r .allMasters nodes
  | nodes {nodes : List Node} (h : Node.IsOrdered r.nodes.values nodes) : IsTarget r .allNodes nodes

theorem isTarget_targets (r : Registry) (target : MultiTarget) :
    r.IsTarget target (r.targets target) := by
  have hmem : ∀ {n : Node}, n ∈ r.slots.primaries →
      ∃ slot owners, r.slots.get? slot = some owners ∧ owners.primary = n :=
    fun hn => SlotTable.mem_owners_iff.mp (Node.mem_of_mem_distinct hn)
  have hnames : ∀ slot owners, r.slots.get? slot = some owners →
      owners.primary.name ∈ r.slots.primaries.map Node.name :=
    fun slot owners hget =>
      Node.names_distinct (SlotTable.mem_owners_iff.mpr ⟨slot, owners, hget, rfl⟩)
  cases target with
  | allNodes => exact .nodes (Node.isOrdered_sortByName r.nodes.values)
  | allMasters =>
    change r.IsTarget .allMasters r.allMasters
    unfold allMasters
    simp only
    split
    · next hnone =>
      refine .knownMasters ?_ (Node.isOrdered_sortByName _)
      rintro ⟨slot, owners, hget⟩
      have hname := hnames slot owners hget
      rw [List.isEmpty_iff.mp hnone] at hname
      cases hname
    · next hsome =>
      obtain ⟨n, hn⟩ := List.exists_mem_of_ne_nil _ fun hnil => hsome (List.isEmpty_iff.mpr hnil)
      obtain ⟨slot, owners, hget, -⟩ := hmem hn
      exact .masters ⟨slot, owners, hget⟩ ⟨Node.nodup_distinct _, fun n hn => hmem hn, hnames⟩

end Registry

/-! ## Owners that stay -/

namespace Registry

/-- What holds of the slots in one registry holds in the other: the count is right, and some slot
has an owner. -/
structure KeptIn (r r' : Registry) : Prop where
  counted (h : r.slots.Counted) : r'.slots.Counted
  owned (h : r.IsOwned) : r'.IsOwned

theorem KeptIn.refl (r : Registry) : r.KeptIn r := ⟨id, id⟩

theorem KeptIn.trans {r r' r'' : Registry} (h : r.KeptIn r') (h' : r'.KeptIn r'') :
    r.KeptIn r'' :=
  ⟨fun hr => h'.counted (h.counted hr), fun hr => h'.owned (h.owned hr)⟩

theorem keptIn_setOwner (r : Registry) (slot : UInt16) (node : Node) :
    r.KeptIn (r.setOwner slot node) := by
  refine ⟨fun hr => hr.set _ _, ?_⟩
  rintro ⟨other, owners, hget⟩
  by_cases heq : slot = other
  · subst heq
    exact ⟨slot, _, SlotTable.get?_set_self _ _ (SlotTable.lt_of_get? hget)⟩
  · exact ⟨other, owners, (SlotTable.get?_set_ne _ _ heq).trans hget⟩

theorem isOwned_of_isInitialized {r : Registry} (hr : r.slots.Counted)
    (h : r.isInitialized = true) : r.IsOwned :=
  hr.pos_iff.mp (by simpa [isInitialized] using h)

end Registry

/-- Only a reset takes the owners of slots away. -/
def Request.KeepsOwners : Request → Prop
  | .install t _ => t.IsUsable
  | .forget => False
  | _ => True

variable {σ : Type} [Transport σ]

theorem Event.keptIn {e : Event σ} (h : e.request.KeepsOwners) :
    e.client.registry.KeptIn e.after.registry := by
  obtain ⟨task, r, c⟩ := e
  change c.registry.KeptIn (c.answer task r).2.registry
  cases r with
  | flagRefresh | takeRefresh | lock | unlock => exact ⟨id, id⟩
  | recordMove slot host port =>
    obtain ⟨node, nodes, moves, hmoved⟩ := c.recordMove_frame slot host port
    change c.registry.KeptIn (c.recordMove slot host port).2.registry
    rw [hmoved]
    exact ⟨(c.registry.keptIn_setOwner slot node).counted,
      (c.registry.keptIn_setOwner slot node).owned⟩
  | install t required => exact ⟨fun _ => h.whole.counted, fun _ => h.owned⟩
  | forget => exact h.elim
  | _ =>
    rw [(Client.answer_of_plain (by trivial) c task).1]
    exact .refl _

/-- Whatever else goes on between the events, from this registry on, it takes no owners away. -/
def Undisturbed : Registry → List (Event σ) → Prop
  | _, [] => True
  | r, e :: es => r.KeptIn e.client.registry ∧ Undisturbed e.after.registry es

theorem Client.Unbroken.undisturbed {c c' : Client σ} {es : List (Event σ)}
    (h : Unbroken c es c') : Undisturbed c.registry es := by
  induction h with
  | refl => trivial
  | answer task r c _ ih => exact ⟨.refl _, ih⟩

theorem Undisturbed.keptIn {r : Registry} {es rest : List (Event σ)} {e : Event σ}
    (h : Undisturbed r (es ++ e :: rest)) (hkeeps : ∀ e' ∈ es, e'.request.KeepsOwners) :
    r.KeptIn e.client.registry ∧ Undisturbed e.after.registry rest := by
  induction es generalizing r with
  | nil => exact h
  | cons first es ih =>
    obtain ⟨hfirst, hall⟩ := List.forall_mem_cons.mp hkeeps
    obtain ⟨hkept, hundisturbed⟩ := ih h.2 hall
    exact ⟨h.1.trans ((Event.keptIn hfirst).trans hkept), hundisturbed⟩

/-- After the event some slot has an owner, if the count was right before it. -/
def Event.ShowsOwners (e : Event σ) : Prop :=
  e.client.registry.slots.Counted → e.after.registry.IsOwned

open SlotCluster.Action

namespace Discovery

theorem run_keepsOwners (s : Settings) : Uses Request.KeepsOwners (run s) := by
  refine Program.Keeps.uses (run_keeps_until_install Survey.keeps_usable s () () ?_ ?_)
  · rintro r (hr | rfl)
    · cases r with
      | install => exact hr.elim
      | forget => exact hr.elim
      | _ => exact ⟨trivial, fun _ => rfl⟩
    · exact ⟨trivial, fun _ => rfl⟩
  · exact fun v required hv hanswered => ⟨hv.2 hanswered, fun _ => rfl⟩

theorem admits_keepsOwners : Request.AdmitsDiscovery Request.KeepsOwners := by
  refine ⟨fun {r} hr => ?_, run_keepsOwners⟩
  cases r with
  | registry | flagRefresh | takeRefresh | recordMove | lock | unlock => trivial
  | _ => exact hr.elim

theorem showsOwners_of_registry {task : Nat} {c : Client σ}
    (h : c.registry.isInitialized = true) : Event.ShowsOwners ⟨task, .registry, c⟩ :=
  fun hcounted => Registry.isOwned_of_isInitialized hcounted h

theorem exists_showsOwners_of_run {s : Settings} {es : List (Event σ)}
    (h : Runs (run s) es (.ok ())) : ∃ e ∈ es, e.ShowsOwners := by
  obtain ⟨e, he, hinstalls⟩ := installs_of_run h
  have hkeeps := (run_keepsOwners s).of_runs h e he
  refine ⟨e, he, fun _ => ?_⟩
  obtain ⟨task, r, c⟩ := e
  cases r with
  | install t required => exact Topology.IsUsable.owned hkeeps
  | _ => cases hinstalls

theorem exists_showsOwners {s : Settings} {es : List (Event σ)}
    (h : Runs (refreshIfNeeded s) es (.ok ())) : ∃ e ∈ es, e.ShowsOwners := by
  obtain ⟨task, c, rest, rfl, hrest⟩ := runs_refreshIfNeeded_iff.mp h
  split at hrest
  · next hready =>
    have hinitialized : c.registry.isInitialized = true := by
      simp only [isReady, Bool.and_eq_true] at hready
      exact hready.1
    exact ⟨_, List.mem_cons_self, showsOwners_of_registry hinitialized⟩
  obtain ⟨lock, inner, unlock, rfl, -, -, hdue⟩ := runs_locked hrest
  have hinner : ∃ e ∈ inner, e.ShowsOwners := by
    cases runs_runIfDue hdue with
    | met hinitialized | taken hinitialized =>
      exact ⟨_, List.mem_cons_self, showsOwners_of_registry hinitialized⟩
    | unknown _ hretried =>
      cases hretried with
      | installed hrun =>
        obtain ⟨e, he, hshows⟩ := exists_showsOwners_of_run hrun
        exact ⟨e, List.mem_cons_of_mem _ he, hshows⟩
  obtain ⟨e, he, hshows⟩ := hinner
  exact ⟨e, by simp [he], hshows⟩

/-- So unless somebody resets the client, it finds some owner when it goes on. -/
theorem isOwned_of_refreshed {s : Settings} {es rest : List (Event σ)} {e : Event σ}
    (h : Runs (refreshIfNeeded s) es (.ok ())) {r : Registry} (hcounted : r.slots.Counted)
    (hundisturbed : Undisturbed r (es ++ e :: rest)) : e.client.registry.IsOwned := by
  have hkeeps := (refreshIfNeeded_uses admits_keepsOwners s).of_runs h
  obtain ⟨shown, hshown, hshows⟩ := exists_showsOwners h
  obtain ⟨before, after, rfl⟩ := List.append_of_mem hshown
  obtain ⟨hbefore, hfirst, hafter⟩ :=
    List.forall_mem_append.mp hkeeps |>.imp_right List.forall_mem_cons.mp
  rw [List.append_assoc, List.cons_append] at hundisturbed
  -- The count is right up to the event that shows an owner, and from there on the owner stays.
  obtain ⟨hkept, hrest⟩ := hundisturbed.keptIn hbefore
  exact (hrest.keptIn hafter).1.owned (hshows (hkept.counted hcounted))

end Discovery

/-! ## Shutdowns -/

/-- The first word is `SHUTDOWN`, with each letter large or small. -/
def Command.ShutsDown (c : Command) : Prop :=
  ∃ word rest, c = word :: rest ∧ List.Forall₂ (fun b capital => b = capital ∨ b = capital + 32)
    word (Bytes.ofText "SHUTDOWN")

theorem Bytes.upperByte_eq_iff {b capital : UInt8} (h : 65 ≤ capital ∧ capital ≤ 90) :
    upperByte b = capital ↔ b = capital ∨ b = capital + 32 := by
  unfold upperByte
  split
  · grind
  · grind

theorem Bytes.sameWord_capitals_iff {word capitals : Bytes}
    (h : ∀ c ∈ capitals, 65 ≤ c ∧ c ≤ 90) :
    word.sameWord capitals = true ↔
      List.Forall₂ (fun b capital => b = capital ∨ b = capital + 32) word capitals := by
  rw [sameWord, beq_iff_eq]
  induction capitals generalizing word with
  | nil => simp [upper]
  | cons capital rest ih =>
    obtain ⟨hcapital, hrest⟩ := List.forall_mem_cons.mp h
    have hself : upperByte capital = capital := (upperByte_eq_iff hcapital).mpr (.inl rfl)
    cases word with
    | nil => simp [upper]
    | cons b word =>
      rw [List.forall₂_cons, ← upperByte_eq_iff hcapital, ← ih hrest]
      simp [upper, hself]

theorem Dispatch.isShutdown_iff {c : Command} : isShutdown c = true ↔ c.ShutsDown := by
  have hcapitals : ∀ c ∈ Bytes.ofText "SHUTDOWN", 65 ≤ c ∧ c ≤ 90 := by decide +kernel
  cases c with
  | nil => simp [isShutdown, Command.ShutsDown]
  | cons word rest =>
    rw [isShutdown, List.head?_cons, Bytes.sameWord_capitals_iff hcapitals]
    simp [Command.ShutsDown]

/-! ## Asking a node -/

/-- What is done at one node of a broadcast, and what comes of it. -/
structure Poll (σ : Type) where
  node : Node
  events : List (Event σ)
  answer : Except Fault Reply

namespace Poll

omit [Transport σ] in
def outcome (p : Poll σ) : Merge.Outcome := (p.node.name, p.answer)

def asReplies (answer : Except Fault Reply) : Except Fault (List Reply) :=
  answer.map fun r => [r]

/-- A node is asked once, and once more just if the network failed the first time. -/
inductive Made (c : Command) : Poll σ → Prop
  | once {node : Node} {es : List (Event σ)} {answer : Except Fault Reply}
      (contact : Contact node.name [c] es (asReplies answer))
      (settled : ∀ f, answer = .error f → f.isIo = false) : Made c ⟨node, es, answer⟩
  | again {node : Node} {first second : List (Event σ)} {f : Fault} {answer : Except Fault Reply}
      (lost : Contact node.name [c] first (.error f)) (io : f.isIo = true)
      (stays : ¬ c.ShutsDown)
      (contact : Contact node.name [c] second (asReplies answer)) :
      Made c ⟨node, first ++ second, answer⟩
  /-- A node that shuts down does not answer, and that is no failure. -/
  | down {node : Node} {es : List (Event σ)} {f : Fault}
      (lost : Contact node.name [c] es (.error f)) (io : f.isIo = true)
      (shutdown : c.ShutsDown) : Made c ⟨node, es, .ok .okay⟩

theorem Made.isAt {c : Command} {p : Poll σ} (h : p.Made c) :
    ∀ e ∈ p.events, e.request.IsAt p.node.name := by
  cases h with
  | once contact => exact contact.isAt
  | again lost _ _ contact => exact List.forall_mem_append.mpr ⟨lost.isAt, contact.isAt⟩
  | down lost => exact lost.isAt

end Poll

namespace Dispatch

theorem contact_of_sendBatch {s : Settings} {c : Command} {node : String} {es : List (Event σ)}
    {result : BatchResult} (h : Program.Runs (sendBatch s node [c] false).run es result) :
    Contact node [c] es (Poll.asReplies (result.map lastReply)) := by
  obtain ⟨raw, hcontact, rfl⟩ := runs_sendBatch h
  cases raw with
  | error f => exact hcontact
  | ok replies =>
    obtain ⟨r, rfl⟩ := List.length_eq_one_iff.mp hcontact.length_eq
    exact hcontact

theorem runs_askNode {s : Settings} {c : Command} {node : Node} {es : List (Event σ)}
    {result : BatchResult} (h : Program.Runs (askNode s c node) es result) :
    Poll.Made c ⟨node, es, result.map lastReply⟩ := by
  obtain ⟨x, first, rest, rfl, hfirst, hrest⟩ := Program.runs_bind_iff.mp h
  have hcontact := contact_of_sendBatch hfirst
  have hdone : ∀ {v : BatchResult}, Program.Runs (.done v) rest result →
      first ++ rest = first ∧ result = v := by
    intro v hv
    obtain ⟨rfl, rfl⟩ := Program.runs_done_iff.mp hv
    exact ⟨List.append_nil _, rfl⟩
  cases x with
  | ok replies =>
    obtain ⟨hes, rfl⟩ := hdone hrest
    rw [hes]
    exact .once hcontact nofun
  | error f =>
    simp only at hrest
    split at hrest
    · next hio =>
      split at hrest
      · next hshutdown =>
        obtain ⟨hes, rfl⟩ := hdone hrest
        rw [hes]
        exact .down hcontact hio (isShutdown_iff.mp hshutdown)
      · next hstays =>
        exact .again hcontact hio (mt isShutdown_iff.mpr hstays) (contact_of_sendBatch hrest)
    · next hio =>
      obtain ⟨hes, rfl⟩ := hdone hrest
      rw [hes]
      refine .once hcontact ?_
      rintro g ⟨⟩
      simpa using hio

end Dispatch

/-! ## Whole broadcasts -/

structure Broadcast (σ : Type) where
  /-- What comes before the nodes are known. -/
  refresh : List (Event σ)
  look : Event σ
  /-- In the order of the nodes. -/
  polls : List (Poll σ)
  /-- In the order of time. -/
  sends : List (Event σ)

namespace Broadcast

def events (b : Broadcast σ) : List (Event σ) := b.refresh ++ b.look :: b.sends

/-- The broadcast asks each node of its target, and its result is merged from what comes of it. -/
structure Of (b : Broadcast σ) (c : Command) (target : MultiTarget)
    (policy : Option MergePolicy) (r : Except Fault Reply) : Prop where
  refresh : ∀ e ∈ b.refresh, e.request.IsUpkeep
  looks : b.look.request = .registry
  nodes : b.look.client.registry.IsTarget target (b.polls.map Poll.node)
  polled : ∀ p ∈ b.polls, p.Made c
  together : Interleaved (b.polls.map Poll.events) b.sends
  /-- Nothing is done elsewhere. -/
  stays : ∀ e ∈ b.sends, ∃ p ∈ b.polls, e ∈ p.events ∧ e.request.IsAt p.node.name
  learns : ∀ e ∈ b.look :: b.sends, e.after.registry = e.client.registry
  merged : r = Merge.merge policy (b.polls.map Poll.outcome)
  follows : Merge.Follows policy (b.polls.map Poll.outcome) r

end Broadcast

namespace Dispatch

theorem polls_of_runs {s : Settings} {c : Command} {nodes : List Node}
    {runs : List (List (Event σ) × BatchResult)}
    (h : List.Forall₂ (fun node run => Program.Runs (askNode s c node) run.1 run.2) nodes runs) :
    ∃ polls : List (Poll σ), polls.map Poll.node = nodes ∧
      polls.map Poll.events = runs.map Prod.fst ∧
      polls.map Poll.outcome = nodes.zipWith
        (fun node result => (node.name, result.map lastReply)) (runs.map Prod.snd) ∧
      ∀ p ∈ polls, p.Made c ∧ ∀ e ∈ p.events, e.request.IsPlain := by
  induction h with
  | nil => exact ⟨[], by simp⟩
  | @cons node run _ _ hrun _ ih =>
    obtain ⟨polls, rfl, hevents, houtcomes, hmade⟩ := ih
    have hfirst : Poll.Made c ⟨node, run.1, run.2.map lastReply⟩ := runs_askNode hrun
    have hplain := (askNode_plain s c node).of_runs hrun
    refine ⟨⟨node, run.1, run.2.map lastReply⟩ :: polls, rfl, ?_, ?_, ?_⟩
    · rw [List.map_cons, hevents, List.map_cons]
    · rw [List.map_cons, houtcomes]
      rfl
    · exact List.forall_mem_cons.mpr ⟨⟨hfirst, hplain⟩, hmade⟩

theorem runs_broadcast {s : Settings} {c : Command} {target : MultiTarget}
    {policy : Option MergePolicy} {es refresh : List (Event σ)} {r : Except Fault Reply}
    (hrefresh : ∀ e ∈ refresh, e.request.IsUpkeep)
    (h : Job.Runs (broadcast s c target policy) es r) :
    ∃ b : Broadcast σ, b.refresh = refresh ∧ es = b.look :: b.sends ∧ b.Of c target policy r := by
  unfold broadcast at h
  obtain ⟨f, hf, -⟩ | ⟨registry, es₁, es₂, rfl, hlook, hrest⟩ := Job.runs_bind_iff.mp h
  · obtain ⟨task, d, -, hanswer⟩ := (runs_ask_iff _).mp (Job.runs_action_iff.mp hf)
    cases hanswer
  obtain ⟨task, d, rfl, hanswer⟩ := (runs_ask_iff _).mp (Job.runs_action_iff.mp hlook)
  cases hanswer
  obtain ⟨f, hf, -⟩ | ⟨results, sends, es₃, rfl, hsends, hmerge⟩ := Job.runs_bind_iff.mp hrest
  · obtain ⟨v, -, hv⟩ := Job.runs_task_iff.mp hf
    cases hv
  obtain ⟨values, hall, hresults⟩ := Job.runs_task_iff.mp hsends
  cases hresults
  obtain ⟨rfl, rfl⟩ := Job.runs_lift_iff.mp hmerge
  obtain ⟨runs, rfl, htogether, hruns⟩ := (Task.runs_gatherAll_iff.mp hall).parts
  obtain ⟨polls, hnodes, hevents, houtcomes, hpolls⟩ :=
    polls_of_runs (List.forall₂_map_left_iff.mp hruns)
  rw [← hevents] at htogether
  have hstays : ∀ e ∈ sends, ∃ p ∈ polls, e ∈ p.events := by
    intro e he
    obtain ⟨part, hpart, hmem⟩ := htogether.exists_mem he
    obtain ⟨p, hp, rfl⟩ := List.mem_map.mp hpart
    exact ⟨p, hp, hmem⟩
  refine ⟨⟨refresh, ⟨task, .registry, d⟩, polls, sends⟩, rfl, by simp, ?_⟩
  rw [← houtcomes]
  refine ⟨hrefresh, rfl, ?_, fun p hp => (hpolls p hp).1, htogether, ?_, ?_, rfl,
    Merge.follows_merge policy _⟩
  · rw [hnodes]
    exact d.registry.isTarget_targets target
  · intro e he
    obtain ⟨p, hp, hmem⟩ := hstays e he
    exact ⟨p, hp, hmem, (hpolls p hp).1.isAt e hmem⟩
  · refine List.forall_mem_cons.mpr ⟨rfl, fun e he => ?_⟩
    obtain ⟨p, hp, hmem⟩ := hstays e he
    exact (e.client.answer_of_plain ((hpolls p hp).2 e hmem) e.task).1

/-- The command does not get to its nodes: it is refused, or there is no topology to be had. -/
inductive Unrouted (s : Settings) (c : Command) : List (Event σ) → Except Fault Reply → Prop
  | refused {f : Fault} (name : Words.checkedName (Routable.words c) = .error f) :
      Unrouted s c [] (.error f)
  | unlearned {es : List (Event σ)} {f : Fault}
      (refresh : Runs (Discovery.refreshIfNeeded s) es (.error f))
      (upkeep : ∀ e ∈ es, e.request.IsUpkeep) : Unrouted s c es (.error f)

/-- A command for many nodes is sent to each node of its target, once, or twice if the network
failed. It learns nothing from them, and merges their answers in the order of the nodes. As long as
nobody resets the client in between, some slot has an owner when the nodes are chosen. -/
theorem broadcast_asks_each_node {s : Settings} {c : Command} {target : MultiTarget}
    {policy : Option MergePolicy} {es : List (Event σ)} {r : Except Fault Reply}
    (h : Job.Runs (routeCommand s c (.multi target policy)) es r) :
    Unrouted s c es r ∨ ∃ b : Broadcast σ, es = b.events ∧ b.Of c target policy r ∧
      ∀ known : Registry, known.slots.Counted → Undisturbed known es →
        b.look.client.registry.IsOwned := by
  unfold routeCommand at h
  obtain ⟨f, hf, rfl⟩ | ⟨_, es₁, es₂, rfl, hname, hrest⟩ := Job.runs_bind_iff.mp h
  · obtain ⟨rfl, hname⟩ := Job.runs_lift_iff.mp hf
    exact .inl (.refused hname.symm)
  obtain ⟨rfl, -⟩ := Job.runs_lift_iff.mp hname
  rw [List.nil_append]
  obtain ⟨f, hf, rfl⟩ | ⟨_, refresh, es₃, rfl, hrefresh, hsent⟩ := Job.runs_bind_iff.mp hrest
  · have hfailed := Job.runs_action_iff.mp hf
    exact .inl (.unlearned hfailed ((Discovery.refreshIfNeeded_upkeep s).of_runs hfailed))
  have hrefresh := Job.runs_action_iff.mp hrefresh
  obtain ⟨b, rfl, rfl, hof⟩ :=
    runs_broadcast ((Discovery.refreshIfNeeded_upkeep s).of_runs hrefresh) hsent
  exact .inr ⟨b, rfl, hof, fun known => Discovery.isOwned_of_refreshed hrefresh⟩

/-- The network fails at one of two masters, twice, and one success is enough. Nodes that shut down
are asked once, and all of them have done so. -/
theorem broadcast_asks_each_node_lost :
    let size := Command.ofWords ["DBSIZE"]
    let shutdown := Command.ofWords ["ShutDown"]
    let range := fun slot host port => Reply.array
      [.int slot, .int slot, .array [.bulk (Bytes.ofText host), .int port]]
    let slots := Reply.array [range 0 "a" 1, range 1 "b" 2]
    let s : Settings := { skipCoverageCheck := true }
    let c := Canned.client s [slots, .int 3]
    let job := (routeCommand s size (.multi .allMasters (some .oneSucceeded))).run
    let es := c.trace job
    let r := (c.run job).1
    let new := Canned.client s [slots]
    let stop := (routeCommand s shutdown (.multi .allMasters (some .allSucceeded))).run
    Job.Runs (routeCommand s size (.multi .allMasters (some .oneSucceeded))) es r ∧
      written es = [[Command.clusterSlots], [size], [size], [size]] ∧
      (r.toOption == some (.int 3)) = true ∧ c.registry.slots.Counted ∧
      Undisturbed c.registry es ∧
      (Unrouted s size es r ∨ ∃ b : Broadcast Canned, es = b.events ∧
        b.Of size .allMasters (some .oneSucceeded) r ∧
        ∀ known : Registry, known.slots.Counted → Undisturbed known es →
          b.look.client.registry.IsOwned) ∧
      written (new.trace stop) = [[Command.clusterSlots], [shutdown], [shutdown]] ∧
      ((new.run stop).1.toOption == some .okay) = true ∧
      (Unrouted s shutdown (new.trace stop) (new.run stop).1 ∨
        ∃ b : Broadcast Canned, new.trace stop = b.events ∧
          b.Of shutdown .allMasters (some .allSucceeded) (new.run stop).1 ∧
          ∀ known : Registry, known.slots.Counted → Undisturbed known (new.trace stop) →
            b.look.client.registry.IsOwned) :=
  ⟨Client.runs_trace _ _, by decide +kernel, by decide +kernel, SlotTable.counted_empty,
    (Client.unbroken_trace _ _).undisturbed, broadcast_asks_each_node (Client.runs_trace _ _),
    by decide +kernel, by decide +kernel, broadcast_asks_each_node (Client.runs_trace _ _)⟩

end Dispatch

end SlotCluster
