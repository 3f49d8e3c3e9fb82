import SlotCluster.Proofs.Protocols

/-!
# Plain requests

Most of what a client does leaves its registry and its refresh lock alone. What is left over is a
discovery and its lock, a moved slot, and a reset.
-/

namespace SlotCluster

namespace Request

/-- The answer changes neither the registry nor the refresh lock. -/
def IsPlain : Request → Prop
  | .flagRefresh | .takeRefresh | .recordMove _ _ _ | .install _ _ | .forget => False
  | .lock | .unlock => False
  | _ => True

/-- One of the two questions about the topology. -/
def AsksTopology (commands : List Command) : Prop :=
  commands = [Command.clusterSlots] ∨ commands = [Command.configGetFullCoverage]

/-- A survey opens a link of its own, asks about the topology, and closes the link. -/
def Surveys : Request → Prop
  | .connect _ | .read _ | .close _ => True
  | .write _ commands => AsksTopology commands
  | _ => False

/-- A lookup reads the registry and takes one of its nodes. -/
def LooksUp : Request → Prop
  | .registry | .choose _ => True
  | _ => False

theorem Surveys.isPlain {r : Request} (h : r.Surveys) : r.IsPlain := by
  cases r
  case connect | read | close | write => trivial
  all_goals exact h.elim

theorem LooksUp.isPlain {r : Request} (h : r.LooksUp) : r.IsPlain := by
  cases r
  case registry | choose => trivial
  all_goals exact h.elim

end Request

/-! ## What stays -/

namespace Client

variable {σ : Type}

theorem enqueue_registry (c : Client σ) (task : Nat) (r : Request) :
    (c.enqueue task r).registry = c.registry := by
  cases r <;> rfl

theorem recordMove_frame (c : Client σ) (slot : UInt16) (host : String) (port : UInt16) :
    ∃ node nodes moves, (c.recordMove slot host port).2.registry =
      { c.registry.setOwner slot node with nodes, moves } := by
  unfold recordMove Registry.countMoves
  simp only [setRegistry]
  split <;> exact ⟨(c.registry.setNode host port .master).1, _, _, rfl⟩

variable [Transport σ]

theorem discard_frame (c : Client σ) (lease : Lease) :
    (c.discard lease).registry = c.registry ∧ (c.discard lease).lock = c.lock := by
  unfold discard
  split <;> exact ⟨rfl, rfl⟩

theorem release_frame (c : Client σ) (lease : Lease) :
    (c.release lease).registry = c.registry ∧ (c.release lease).lock = c.lock := by
  unfold release
  split
  · split
    · exact ⟨rfl, rfl⟩
    · exact discard_frame c lease
  · exact discard_frame c lease

theorem closeLinks_frame (c : Client σ) (links : List Link) :
    (c.closeLinks links).registry = c.registry ∧ (c.closeLinks links).lock = c.lock := by
  unfold closeLinks
  induction links generalizing c with
  | nil => exact ⟨rfl, rfl⟩
  | cons link rest ih =>
    rw [List.foldl_cons]
    exact ih (c.closeLink link)

theorem closeAll_frame (c : Client σ) :
    c.closeAll.registry = c.registry ∧ c.closeAll.lock = c.lock :=
  closeLinks_frame _ _

theorem checkout_frame (c : Client σ) (task : Nat) (node : String) :
    (c.checkout task node).2.registry = c.registry ∧ (c.checkout task node).2.lock = c.lock := by
  unfold checkout
  split
  · exact ⟨rfl, rfl⟩
  · split <;> exact closeLinks_frame _ _

theorem answer_of_plain {r : Request} (h : r.IsPlain) (c : Client σ) (task : Nat) :
    (c.answer task r).2.registry = c.registry ∧ (c.answer task r).2.lock = c.lock := by
  cases r with
  | flagRefresh | takeRefresh | recordMove | install | forget | lock | unlock => exact h.elim
  | discard lease => exact discard_frame c lease
  | release lease => exact release_frame c lease
  | closeAll => exact closeAll_frame c
  | checkout node => exact checkout_frame c task node
  | _ => exact ⟨rfl, rfl⟩

theorem Unbroken.registry_eq {c c' : Client σ} {es : List (Event σ)} (h : Unbroken c es c')
    (hplain : ∀ e ∈ es, e.request.IsPlain) : c'.registry = c.registry := by
  induction h with
  | refl c => rfl
  | answer task r c _ ih =>
    rw [ih fun e he => hplain e (List.mem_cons_of_mem _ he)]
    exact (answer_of_plain (hplain _ List.mem_cons_self) c task).1

end Client

/-! ## Exchanges and discovery -/

open SlotCluster.Action

theorem readMany_plain (link : Link) (n : Nat) : Uses Request.IsPlain (readMany link n) := by
  induction n with
  | zero => exact uses_pure _
  | succ n ih =>
    have hread : Uses Request.IsPlain (read link) := ⟨trivial, fun _ => trivial⟩
    exact uses_bind hread fun reply => uses_bind ih fun replies => uses_pure _

theorem connect_plain (node : String) : Uses Request.IsPlain (connect node) :=
  ⟨trivial, fun _ => trivial⟩

theorem write_plain (link : Link) (commands : List Command) :
    Uses Request.IsPlain (write link commands) :=
  ⟨trivial, fun _ => trivial⟩

theorem exchange_plain (link : Link) (commands : List Command) :
    Uses Request.IsPlain (exchange link commands) :=
  uses_bind (write_plain link commands) fun _ => readMany_plain link commands.length

theorem exchangeOne_plain (link : Link) (command : Command) :
    Uses Request.IsPlain (exchangeOne link command) :=
  uses_bind (write_plain link [command]) fun _ => ⟨trivial, fun _ => trivial⟩

theorem choose_looksUp (nodes : List Node) : Uses Request.LooksUp (choose nodes) := by
  refine uses_bind (uses_ask trivial) ?_
  rintro (_ | node)
  · exact uses_throw _
  · exact uses_pure _

namespace Discovery

theorem query_surveys (node : Node) {command : Command} (h : Request.AsksTopology [command]) :
    Uses Request.Surveys (query node command) := by
  refine uses_bind ⟨trivial, fun _ => trivial⟩ ?_
  intro link
  have hexchange : Uses Request.Surveys (exchangeOne link command) :=
    uses_bind ⟨h, fun _ => trivial⟩ fun _ => ⟨trivial, fun _ => trivial⟩
  refine uses_bind (uses_outcome hexchange) ?_
  intro result
  exact uses_bind (uses_ask trivial) fun _ => uses_lift _

theorem requiresCoverage_surveys (masters : List Node) :
    (requiresCoverage masters).Uses Request.Surveys := by
  induction masters with
  | nil => trivial
  | cons master rest ih =>
    refine Program.uses_bind (query_surveys master (.inr rfl)) ?_
    intro answer
    split
    · exact ih
    · trivial

theorem coverage_surveys (s : Settings) (v : Survey) : (v.coverage s).Uses Request.Surveys := by
  unfold Survey.coverage
  split
  · trivial
  · split
    · trivial
    · exact requiresCoverage_surveys _

theorem survey_surveys (s : Settings) (onlySeed : Bool) (candidates : List Node) (v : Survey) :
    Uses Request.Surveys (survey s onlySeed candidates v) := by
  induction candidates generalizing v with
  | nil => exact uses_pure _
  | cons candidate rest ih =>
    refine uses_bind (uses_outcome (query_surveys candidate (.inl rfl))) ?_
    rintro (f | reply)
    · exact ih _
    refine uses_bind (uses_lift _) ?_
    intro topology
    simp only
    split
    · exact uses_pure _
    · refine uses_bind (Program.uses_bind (coverage_surveys s _) fun _ => trivial) ?_
      intro required
      split
      · exact ih _
      · exact uses_pure _

theorem survey_plain (s : Settings) (onlySeed : Bool) (candidates : List Node) (v : Survey) :
    Uses Request.IsPlain (survey s onlySeed candidates v) :=
  (survey_surveys s onlySeed candidates v).mono fun _ => Request.Surveys.isPlain

/-- A discovery that is due. If it fails it stays asked for. -/
def runOrFlag (s : Settings) : Action Unit := do
  match ← outcome (run s) with
  | .ok () => return
  | .error f =>
    ask .flagRefresh
    throw f

theorem runIfDue_eq (s : Settings) : runIfDue s = (do if ← isDue then runOrFlag s) := rfl

end Discovery

/-! ## Around a discovery -/

/-- The request for a discovery and its lock, and a slot that has moved. -/
def Request.Tends : Request → Prop
  | .registry | .flagRefresh | .takeRefresh | .recordMove _ _ _ | .lock | .unlock => True
  | _ => False

/-- A discovery asks only for what is allowed, and so does what stands around it. -/
structure Request.AdmitsDiscovery (allowed : Request → Prop) : Prop where
  tends {r : Request} (h : r.Tends) : allowed r
  discovery (s : Settings) : Uses allowed (Discovery.run s)

theorem Request.admitsDiscovery_of {allowed : Request → Prop}
    (htends : ∀ {r : Request}, r.Tends → allowed r)
    (hsurveys : ∀ {r : Request}, r.Surveys → allowed r)
    (hinstall : ∀ topology required, allowed (.install topology required)) :
    Request.AdmitsDiscovery allowed := by
  refine ⟨htends, fun s => ?_⟩
  refine uses_bind (uses_ask (htends trivial)) fun registry => ?_
  refine uses_bind ((Discovery.survey_surveys s _ _ _).mono fun _ => hsurveys) fun v => ?_
  exact uses_bind (uses_lift _) fun required => uses_ask (hinstall v.topology required)

namespace Discovery

variable {allowed : Request → Prop} (h : Request.AdmitsDiscovery allowed)

include h

theorem locked_uses {a : Action Unit} (ha : Uses allowed a) : Uses allowed (locked a) := by
  refine uses_bind (uses_ask (h.tends trivial)) fun _ => ?_
  refine uses_bind (uses_outcome ha) fun result => ?_
  exact uses_bind (uses_ask (h.tends trivial)) fun _ => uses_lift _

theorem runIfDue_uses (s : Settings) : Uses allowed (runIfDue s) := by
  have hdue : Uses allowed isDue := by
    refine uses_bind (uses_ask (h.tends trivial)) fun registry => ?_
    split
    · exact uses_ask (h.tends trivial)
    · exact uses_pure _
  refine uses_bind hdue fun due => ?_
  split
  · refine uses_bind (uses_outcome (h.discovery s)) ?_
    rintro (f | _)
    · exact uses_bind (uses_ask (h.tends trivial)) fun _ => uses_throw f
    · exact uses_pure _
  · exact uses_pure _

theorem refreshIfNeeded_uses (s : Settings) : Uses allowed (refreshIfNeeded s) := by
  refine uses_bind (uses_ask (h.tends trivial)) fun registry => ?_
  split
  · exact uses_pure _
  · exact locked_uses h (runIfDue_uses h s)

theorem refreshIfPending_uses (s : Settings) : Uses allowed (refreshIfPending s) := by
  refine uses_bind (uses_ask (h.tends trivial)) fun taken => ?_
  split
  · exact h.discovery s
  · exact uses_pure _

theorem patchMovedSlot_uses (s : Settings) (r : Redirect) :
    Uses allowed (patchMovedSlot s r) := by
  refine uses_bind (uses_ask (h.tends trivial)) fun _ => ?_
  refine uses_bind (uses_lift _) fun parts => ?_
  refine uses_bind (uses_ask (h.tends trivial)) fun due => ?_
  split
  · exact locked_uses h (refreshIfPending_uses h s)
  · exact uses_pure _

end Discovery

/-! ## Dispatch -/

namespace Dispatch

theorem openLink_plain (s : Settings) (node : String) : Uses Request.IsPlain (openLink s node) := by
  have hclose : ∀ (link : Link) (f : Fault),
      Uses Request.IsPlain (do ask (.close link); throw f : Action Link) :=
    fun link f => uses_bind (uses_ask trivial) fun _ => uses_throw f
  refine uses_bind (connect_plain node) ?_
  intro link
  split
  · refine uses_bind (uses_outcome (exchangeOne_plain link Command.readOnly)) ?_
    rintro (f | reply)
    · exact hclose link f
    · simp only
      split
      · exact uses_pure _
      · exact hclose link _
  · exact uses_pure _

theorem lend_plain (s : Settings) (node : String) : Uses Request.IsPlain (lend s node) := by
  refine uses_bind ⟨trivial, fun _ => trivial⟩ ?_
  rintro ⟨lease, _ | link⟩
  · refine uses_bind (uses_outcome (openLink_plain s node)) ?_
    rintro (f | link)
    · exact uses_bind (uses_ask trivial) fun _ => uses_throw f
    · exact uses_bind (uses_ask trivial) fun _ => uses_pure _
  · exact uses_pure _

theorem sendBatch_plain (s : Settings) (node : String) (commands : List Command) (asking : Bool) :
    Uses Request.IsPlain (sendBatch s node commands asking) := by
  refine uses_bind (lend_plain s node) ?_
  rintro ⟨lease, link⟩
  refine uses_bind (uses_outcome (exchange_plain link _)) ?_
  rintro (f | replies)
  · exact uses_bind (uses_ask trivial) fun _ => uses_throw f
  · exact uses_bind (uses_ask trivial) fun _ => uses_pure _

theorem resolve_looksUp (target : SingleTarget) : Uses Request.LooksUp (resolve target) :=
  uses_bind (uses_ask trivial) fun _ => uses_bind (uses_lift _) fun nodes => choose_looksUp nodes

theorem anyNode_looksUp : Uses Request.LooksUp anyNode :=
  uses_bind (uses_ask trivial) fun _ => uses_bind (uses_lift _) fun nodes => choose_looksUp nodes

theorem attempt_plain (s : Settings) (commands : List Command) (target : SingleTarget)
    (direction : Direction) (asking : Bool) :
    Uses Request.IsPlain (attempt s commands target direction asking) := by
  refine uses_bind ?_ fun node => sendBatch_plain s node.name commands asking
  cases direction with
  | route => exact (resolve_looksUp target).mono fun _ => Request.LooksUp.isPlain
  | random => exact anyNode_looksUp.mono fun _ => Request.LooksUp.isPlain
  | address address => exact uses_lift _

theorem askNode_plain (s : Settings) (c : Command) (node : Node) :
    (askNode s c node).Uses Request.IsPlain := by
  refine Program.uses_bind (sendBatch_plain s node.name [c] false) ?_
  rintro (f | replies)
  · simp only
    split
    · split
      · trivial
      · exact sendBatch_plain s node.name [c] false
    · trivial
  · trivial

end Dispatch

/-! ## Pipelines -/

namespace Pipeline

theorem patchAll_uses {allowed : Request → Prop} (h : Request.AdmitsDiscovery allowed)
    (s : Settings) (moves : List Redirect) : Uses allowed (patchAll s moves) := by
  induction moves with
  | nil => exact uses_pure _
  | cons r rest ih => exact uses_bind (Discovery.patchMovedSlot_uses h s r) fun _ => ih

theorem sendPart_plain (s : Settings) (b : Batch) : (sendPart s b).Uses Request.IsPlain :=
  Dispatch.sendBatch_plain s b.node (b.commands.map Prod.snd) false

theorem commonTarget_cons {found : Option (Node × SingleTarget)} {target : SingleTarget}
    {rest : List SingleTarget} (h : target ≠ .random) :
    commonTarget found (target :: rest) = (do
      let node ← Dispatch.resolve (masterTarget target)
      match found with
      | none => commonTarget (some (node, masterTarget target)) rest
      | some (first, _) =>
        if first.name = node.name then commonTarget found rest
        else throw (.transactionOverNodes first.name node.name)) := by
  cases target
  case random => exact absurd rfl h
  all_goals rfl

theorem commonTarget_looksUp (found : Option (Node × SingleTarget))
    (targets : List SingleTarget) : Uses Request.LooksUp (commonTarget found targets) := by
  induction targets generalizing found with
  | nil => exact uses_pure _
  | cons target rest ih =>
    by_cases hrandom : target = .random
    · subst hrandom
      exact ih found
    rw [commonTarget_cons hrandom]
    refine uses_bind (Dispatch.resolve_looksUp _) ?_
    intro node
    split
    · exact ih _
    · split
      · exact ih _
      · exact uses_throw _

theorem group_looksUp (commands : List (Placed × SingleTarget)) (batches : List Batch) :
    Uses Request.LooksUp (group commands batches) := by
  induction commands generalizing batches with
  | nil => exact uses_pure _
  | cons c rest ih => exact uses_bind (Dispatch.resolve_looksUp c.2) fun node => ih _

theorem commonTarget_plain (found : Option (Node × SingleTarget)) (targets : List SingleTarget) :
    Uses Request.IsPlain (commonTarget found targets) :=
  (commonTarget_looksUp found targets).mono fun _ => Request.LooksUp.isPlain

theorem group_plain (commands : List (Placed × SingleTarget)) (batches : List Batch) :
    Uses Request.IsPlain (group commands batches) :=
  (group_looksUp commands batches).mono fun _ => Request.LooksUp.isPlain

end Pipeline

end SlotCluster
