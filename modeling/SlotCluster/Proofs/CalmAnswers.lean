import SlotCluster.Proofs.Attempts
import SlotCluster.Proofs.FaultKinds

/-!
# Calm answers

As long as no reply says that a slot has moved or that the cluster is down, a command has no reason
to change the registry. What it does once it has slots and nodes is plain.
-/

namespace SlotCluster

/-! ## What is calm -/

/-- Nobody notes a new owner or starts over because of the fault. -/
def Fault.isCalm (f : Fault) : Bool :=
  f.kind != .server .moved && f.kind != .server .clusterDown && f.kind != .clusterUnreachable

/-- If the reply is an error, it is a calm one. -/
def Reply.isCalm (r : Reply) : Bool := r.error?.all fun e => (Fault.server e).isCalm

/-- The network fails calmly and gives calm replies. A client that reads from replicas searches the
reply to its greeting for errors, so nothing inside a reply may be an error that is not calm. -/
def Request.isCalm (s : Settings) : (r : Request) → r.Answer → Bool
  | .connect _, .error f => f.isCalm
  | .write _ _, .error f => f.isCalm
  | .read _, .error f => f.isCalm
  | .read _, .ok reply =>
    reply.isCalm &&
      (!s.readFromReplicas || reply.firstError.all fun e => (Fault.server e).isCalm)
  | _, _ => true

namespace Fault

theorem isCalm_iff {f : Fault} : f.isCalm = true ↔
    f.kind ≠ .server .moved ∧ f.kind ≠ .server .clusterDown ∧ f.kind ≠ .clusterUnreachable := by
  simp [isCalm, and_assoc]

theorem isCalm_cause {kind : FaultKind} {summary : String} {detail : Option String}
    (h : kind ≠ .server .moved ∧ kind ≠ .server .clusterDown ∧ kind ≠ .clusterUnreachable) :
    (cause kind summary detail).isCalm = true :=
  isCalm_iff.mpr h

theorem advice_of_isCalm {f : Fault} (h : f.isCalm = true) :
    Attempt.advice f ≠ .startOver ∧ Attempt.advice f ≠ .followMoved := by
  obtain ⟨hmoved, hdown, hunreachable⟩ := isCalm_iff.mp h
  have hcause : ∀ {kind : FaultKind} {summary : String} {detail : Option String},
      kind ≠ .clusterUnreachable →
        (cause kind summary detail).advice ≠ .startOver ∧
          (cause kind summary detail).advice ≠ .followMoved := by
    intro kind summary detail hkind
    cases kind with
    | clusterUnreachable => exact absurd rfl hkind
    | _ => exact ⟨nofun, nofun⟩
  unfold Attempt.advice
  split
  · exact ⟨nofun, nofun⟩
  · cases f with
    | io kind text => exact absurd rfl ‹_›
    | cause kind summary detail => exact hcause hunreachable
    | server e =>
      cases e with
      | extension => exact ⟨nofun, nofun⟩
      | known kind detail =>
        cases kind with
        | moved => exact absurd rfl hmoved
        | clusterDown => exact absurd rfl hdown
        | _ => exact ⟨nofun, nofun⟩

end Fault

/-- The result is good, or a calm fault. -/
def IsCalmly {α : Type} (good : α → Prop) : Except Fault α → Prop
  | .ok value => good value
  | .error f => f.isCalm = true

theorem Attempt.effect_of_calm (s : Settings) (left : Nat) (st : RetryState)
    {outcome : Except Fault (List Reply)}
    (h : IsCalmly (fun replies => ∀ r ∈ replies, r.isCalm = true) outcome) :
    (judge s left st outcome).effect = .none := by
  have hfault : ∀ f, fault? outcome = some f → f.isCalm = true := by
    intro f hf
    cases outcome with
    | error g =>
      cases hf
      exact h
    | ok replies =>
      obtain ⟨e, he, rfl⟩ := Option.map_eq_some_iff.mp hf
      have hmem : ∃ r ∈ replies, r.error? = some e := by
        unfold decisive at he
        split at he
        · next r => exact ⟨r, List.mem_singleton_self r, he⟩
        · have hfound := List.mem_of_find?_eq_some he
          obtain ⟨r, hr, herror⟩ := List.mem_filterMap.mp hfound
          exact ⟨r, hr, herror⟩
      obtain ⟨r, hr, herror⟩ := hmem
      have hcalm := h r hr
      rwa [Reply.isCalm, herror, Option.all_some] at hcalm
  unfold judge
  split
  · rfl
  · next f hf =>
    obtain ⟨hstart, hmoved⟩ := Fault.advice_of_isCalm (hfault f hf)
    unfold judgeFault
    split
    · next h => exact absurd h hstart
    · rfl
    · rfl
    · next h => exact absurd h hmoved
    · split <;> rfl
    · rfl
    · rfl

/-! ## Registries that know something -/

/-- There are nodes and masters to choose from. -/
structure Registry.IsPopulated (r : Registry) : Prop where
  nodes : r.nodes.values ≠ []
  masters : r.allMasters ≠ []

namespace Registry

variable {r : Registry}

theorem IsPopulated.anyNode (h : r.IsPopulated) : r.anyNode = .ok r.nodes.values := by
  unfold Registry.anyNode
  rw [if_pos (by simpa using h.nodes)]

theorem IsPopulated.resolve (h : r.IsPopulated) (target : SingleTarget) :
    IsCalmly (fun nodes => nodes ≠ []) (r.resolve target) := by
  have hfails : ∀ f, r.resolve target = .error f → f.isCalm = true := by
    intro f hf
    cases target with
    | random =>
      rw [Registry.resolve, h.anyNode] at hf
      cases hf
    | randomMaster =>
      simp only [Registry.resolve] at hf
      rw [if_neg (by simpa using h.masters)] at hf
      cases hf
    | address host port => cases hf
    | route route =>
      have hunowned : r.unowned route.slot = .error f → f.isCalm = true := by
        intro hf
        unfold unowned at hf
        split at hf
        · cases hf
          exact Fault.isCalm_cause (by decide)
        · rw [h.anyNode] at hf
          cases hf
      simp only [Registry.resolve, nodesFor, replicasOf, masterOf] at hf
      split at hf
      all_goals
        split at hf
        · cases hf
        · exact hunowned hf
  cases hresolve : r.resolve target with
  | error f => exact hfails f hresolve
  | ok nodes => exact resolve_ne_nil hresolve

end Registry

/-! ## The contract -/

/-- The network answers calmly, and the client as it does while it knows some nodes. -/
def Request.Serves (s : Settings) : (r : Request) → r.Answer → Prop
  | .registry, known => known.IsPopulated
  | .choose nodes, node => nodes ≠ [] → node ≠ none
  | .checkout _, result => IsCalmly (fun _ => True) result
  | r, a => r.isCalm s a = true

/-- Whoever is served makes plain requests. -/
def calmContract (s : Settings) : Contract Unit where
  Allows _ r := r.IsPlain
  next _ _ _ := ()
  Honest _ r a := r.Serves s a
  Sound _ := True

theorem Client.answer_serves {σ : Type} [Transport σ] {s : Settings} (c : Client σ) (task : Nat)
    {r : Request} (hregistry : c.registry.IsPopulated)
    (hcalm : r.isCalm s (c.answer task r).1 = true) : r.Serves s (c.answer task r).1 := by
  cases r with
  | registry => exact hregistry
  | choose nodes =>
    intro hne hnone
    have hlt : c.choices c.choicesMade % nodes.length < nodes.length :=
      Nat.mod_lt _ (List.length_pos_iff.mpr hne)
    exact absurd (List.getElem?_eq_none_iff.mp hnone) (Nat.not_le.mpr hlt)
  | checkout node =>
    change IsCalmly _ (c.checkout task node).1
    cases hresult : (c.checkout task node).1 with
    | ok _ => trivial
    | error f =>
      refine Fault.isCalm_iff.mpr ?_
      rw [kind_of_checkout f hresult]
      decide
  | _ => exact hcalm

/-! ## Calm actions -/

variable {α β : Type} {s : Settings}

open SlotCluster.Action

/-- The action makes plain requests if it is served, and ends with something good or calmly. -/
abbrev Action.Calm (s : Settings) (good : α → Prop) (a : Action α) : Prop :=
  Meets (calmContract s) (fun r _ => IsCalmly good r) a ()

namespace Action

variable {good : α → Prop} {fine : β → Prop}

theorem calm_pure {value : α} (h : good value) : Calm s good (pure value) := h

theorem calm_throw {f : Fault} (h : f.isCalm = true) : Calm s good (throw f) := h

theorem calm_lift {x : Except Fault α} (h : IsCalmly good x) : Calm s good (liftM x) := h

theorem calm_ask {q : Request} (hplain : q.IsPlain) : Calm s (fun _ => True) (ask q) :=
  ⟨hplain, fun _ _ => trivial⟩

theorem calm_bind {a : Action α} {f : α → Action β} (ha : Calm s good a)
    (hf : ∀ v, good v → Calm s fine (f v)) : Calm s fine (a >>= f) := by
  refine meets_bind_iff.mpr (Program.Meets.mono ?_ ha)
  rintro (g | v) _ h
  · exact h
  · exact hf v h

theorem calm_outcome_bind {a : Action α} {f : Except Fault α → Action β} (ha : Calm s good a)
    (hf : ∀ r, IsCalmly good r → Calm s fine (f r)) : Calm s fine (outcome a >>= f) := by
  refine meets_outcome_bind_iff.mpr (Program.Meets.mono ?_ ha)
  exact fun r _ h => hf r h

end Action

/-! ### Writes -/

namespace Dispatch

variable (s)

theorem write_calm (link : Link) (commands : List Command) :
    Calm s (fun _ => True) (write link commands) := by
  refine ⟨trivial, ?_⟩
  rintro (f | _) h
  · exact h
  · trivial

theorem read_calm (link : Link) :
    Calm s (fun reply => reply.isCalm = true ∧
      (s.readFromReplicas = true → IsCalmly (fun _ => True) reply.checked)) (read link) := by
  refine ⟨trivial, ?_⟩
  rintro (f | reply) h
  · exact h
  have hread : (Request.read link).isCalm s (.ok reply) = true := h
  have hcalm : reply.isCalm = true ∧ (s.readFromReplicas = false ∨
      reply.firstError.all (fun e => (Fault.server e).isCalm) = true) := by
    simpa [Request.isCalm] using hread
  refine ⟨hcalm.1, fun hreplicas => ?_⟩
  have hinside := hcalm.2.resolve_left (by simp [hreplicas])
  unfold Reply.checked
  cases hfirst : reply.firstError with
  | none => trivial
  | some e => rwa [hfirst, Option.all_some] at hinside

theorem exchange_calm (link : Link) (commands : List Command) :
    Calm s (fun replies => ∀ r ∈ replies, r.isCalm = true) (exchange link commands) := by
  have hreads : ∀ n, Calm s (fun replies => ∀ r ∈ replies, r.isCalm = true) (readMany link n) := by
    intro n
    induction n with
    | zero => exact calm_pure (by simp)
    | succ n ih =>
      refine calm_bind (read_calm s link) fun reply hreply => ?_
      refine calm_bind ih fun replies hreplies => calm_pure ?_
      exact List.forall_mem_cons.mpr ⟨hreply.1, hreplies⟩
  exact calm_bind (write_calm s link commands) fun _ _ => hreads commands.length

theorem exchangeOne_calm (link : Link) (command : Command) :
    Calm s (fun reply => reply.isCalm = true ∧
      (s.readFromReplicas = true → IsCalmly (fun _ => True) reply.checked))
      (exchangeOne link command) :=
  calm_bind (write_calm s link [command]) fun _ _ => read_calm s link

theorem openLink_calm (node : String) : Calm s (fun _ => True) (openLink s node) := by
  have hclose : ∀ (link : Link) {f : Fault}, f.isCalm = true →
      Calm s (fun _ => True) (do ask (.close link); throw f : Action Link) :=
    fun link f hf => calm_bind (calm_ask trivial) fun _ _ => calm_throw hf
  have hconnect : Calm s (fun _ => True) (connect node) := by
    refine ⟨trivial, ?_⟩
    rintro (f | link) h
    · exact h
    · trivial
  refine calm_bind hconnect fun link _ => ?_
  split
  · next hreplicas =>
    refine calm_outcome_bind (exchangeOne_calm s link Command.readOnly) ?_
    rintro (f | reply) h
    · exact hclose link h
    have hchecked := h.2 hreplicas
    simp only
    cases hresult : reply.checked with
    | ok _ => exact calm_pure trivial
    | error f =>
      rw [hresult] at hchecked
      exact hclose link hchecked
  · exact calm_pure trivial

theorem lend_calm (node : String) : Calm s (fun _ => True) (lend s node) := by
  have hcheckout : Calm s (fun _ => True)
      (ExceptT.mk (Program.ask (.checkout node)) : Action (Lease × Option Link)) :=
    ⟨trivial, fun _ h => h⟩
  refine calm_bind hcheckout ?_
  rintro ⟨lease, _ | link⟩ -
  · refine calm_outcome_bind (openLink_calm s node) ?_
    rintro (f | link) h
    · exact calm_bind (calm_ask trivial) fun _ _ => calm_throw h
    · exact calm_bind (calm_ask trivial) fun _ _ => calm_pure trivial
  · exact calm_pure trivial

theorem sendBatch_calm (node : String) (commands : List Command) (asking : Bool) :
    Calm s (fun replies => ∀ r ∈ replies, r.isCalm = true)
      (sendBatch s node commands asking) := by
  refine calm_bind (lend_calm s node) ?_
  rintro ⟨lease, link⟩ -
  refine calm_outcome_bind (exchange_calm s link _) ?_
  rintro (f | replies) h
  · exact calm_bind (calm_ask trivial) fun _ _ => calm_throw h
  · refine calm_bind (calm_ask trivial) fun _ _ => calm_pure ?_
    split
    · exact fun r hr => h r (List.mem_of_mem_drop hr)
    · exact h

/-! ### Attempts -/

theorem choose_calm {nodes : List Node} (h : nodes ≠ []) :
    Calm s (fun _ => True) (choose nodes) := by
  refine meets_ask_bind_iff.mpr ⟨trivial, ?_⟩
  rintro (_ | node) hsome
  · exact absurd rfl (hsome h)
  · exact calm_pure trivial

theorem nodeFor_calm (target : SingleTarget) (direction : Direction) :
    Calm s (fun _ => True) (nodeFor target direction) := by
  cases direction with
  | route =>
    refine meets_ask_bind_iff.mpr ⟨trivial, fun registry hregistry => ?_⟩
    exact calm_bind (calm_lift (hregistry.resolve target)) fun nodes hnodes => choose_calm s hnodes
  | random =>
    refine meets_ask_bind_iff.mpr ⟨trivial, fun registry hregistry => ?_⟩
    have hany : IsCalmly (fun nodes => nodes ≠ []) registry.anyNode := by
      rw [Registry.IsPopulated.anyNode hregistry]
      exact hregistry.nodes
    exact calm_bind (calm_lift hany) fun nodes hnodes => choose_calm s hnodes
  | address address =>
    refine calm_lift ?_
    unfold Node.ofAddress Address.split
    split
    · trivial
    · exact Fault.isCalm_cause (by decide)

theorem attempt_calm (commands : List Command) (target : SingleTarget) (direction : Direction)
    (asking : Bool) :
    Calm s (fun replies => ∀ r ∈ replies, r.isCalm = true)
      (attempt s commands target direction asking) :=
  calm_bind (nodeFor_calm s target direction) fun node _ =>
    sendBatch_calm s node.name commands asking

theorem requestFrom_meets_calm (commands : List Command) (target : SingleTarget) (left : Nat)
    (st : RetryState) :
    Meets (calmContract s) (fun _ _ => True) (requestFrom s commands target left st) () := by
  induction left generalizing st with
  | zero => trivial
  | succ left ih =>
    unfold requestFrom
    have hattempt := attempt_calm s commands target st.aim.1 st.aim.2.asking
    refine meets_outcome_bind_iff.mpr (Program.Meets.mono ?_ hattempt)
    intro outcome _ houtcome
    have happly : Calm s (fun _ => True)
        (apply s (Attempt.judge s left st.aim.2 outcome).effect) := by
      rw [Attempt.effect_of_calm s left st.aim.2 houtcome]
      exact calm_pure trivial
    refine meets_bind_iff.mpr (Program.Meets.mono ?_ happly)
    rintro (f | _) _ -
    · trivial
    simp only
    split
    · trivial
    · next pause _ =>
      cases pause with
      | none => exact ih _
      | some duration => exact meets_ask_bind_iff.mpr ⟨trivial, fun _ _ => ih _⟩

/-! ### Commands -/

theorem askNode_meets_calm (c : Command) (node : Node) :
    (askNode s c node).Meets (calmContract s) (fun _ _ => True) () := by
  have hsend := sendBatch_calm s node.name [c] false
  refine Program.meets_bind_iff.mpr (hsend.mono ?_)
  rintro (f | replies) _ -
  · simp only
    split
    · split
      · trivial
      · exact hsend.mono fun _ _ _ => trivial
    · trivial
  · trivial

theorem broadcast_meets_calm (c : Command) (target : MultiTarget) (policy : Option MergePolicy) :
    Job.Meets (calmContract s) (fun _ _ => True) (broadcast s c target policy) () := by
  refine Job.meets_bind_iff.mpr (Job.meets_action_iff.mpr ⟨trivial, fun registry _ => ?_⟩)
  refine Job.meets_bind_iff.mpr (Job.meets_task_iff.mpr ⟨fun p hp => ?_, fun results _ => trivial⟩)
  obtain ⟨node, -, rfl⟩ := List.mem_map.mp hp
  exact ⟨(askNode_plain s c node).mono fun _ _ _ => rfl, askNode_meets_calm s c node⟩

end Dispatch

end SlotCluster
