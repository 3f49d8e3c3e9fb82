import SlotCluster.Proofs.PlainRequests
import SlotCluster.Proofs.Strands

/-!
# Grips

What a strand has in its hands while it uses a link: a lease, a link, and the number of replies
that the link has still to give. Before it lets go of a link it has read every reply, or it closes
the link. So a strand ends with empty hands, however it ends.
-/

namespace SlotCluster

/-! ## Grips -/

inductive Grip
  | nothing
  /-- A lease that has no link yet. -/
  | leased (lease : Lease)
  /-- A link that the strand has opened, and the lease that it may be for. -/
  | opened (lease : Option Lease) (link : Link) (due : Option Nat)
  /-- A link that the pool has noted for the lease. -/
  | lent (lease : Lease) (link : Link) (due : Option Nat)

namespace Grip

def lease? : Grip → Option Lease
  | nothing => none
  | leased lease => some lease
  | opened lease _ _ => lease
  | lent lease _ _ => some lease

def link? : Grip → Option Link
  | nothing | leased _ => none
  | opened _ link _ | lent _ link _ => some link

/-- The replies to come, or `none` if there is no link or an exchange on it has failed. -/
def due? : Grip → Option Nat
  | nothing | leased _ => none
  | opened _ _ due | lent _ _ due => due

/-- The link that the pool knows of. -/
def noted? : Grip → Option Link
  | lent _ link _ => some link
  | _ => none

def setDue (due : Option Nat) : Grip → Grip
  | opened lease link _ => opened lease link due
  | lent lease link _ => lent lease link due
  | g => g

def drop (g : Grip) : Grip := g.lease?.elim nothing leased

section SetDue

variable (g : Grip) (due due' : Option Nat)

@[simp] theorem lease_setDue : (g.setDue due).lease? = g.lease? := by cases g <;> rfl

@[simp] theorem link_setDue : (g.setDue due).link? = g.link? := by cases g <;> rfl

@[simp] theorem noted_setDue : (g.setDue due).noted? = g.noted? := by cases g <;> rfl

@[simp] theorem setDue_setDue : (g.setDue due).setDue due' = g.setDue due' := by cases g <;> rfl

theorem due_setDue {g : Grip} {link : Link} (h : g.link? = some link) (due : Option Nat) :
    (g.setDue due).due? = due := by
  cases g with
  | nothing | leased lease => cases h
  | opened | lent => rfl

end SetDue

end Grip

def gripProtocol : Protocol Grip where
  Allows g
    | .checkout _ => g = .nothing
    | .connect _ => g = .nothing ∨ ∃ lease, g = .leased lease
    | .write link _ => g.link? = some link ∧ g.due? = some 0
    | .read link => g.link? = some link ∧ ∃ n, g.due? = some (n + 1)
    | .close link => ∃ lease due, g = .opened lease link due
    | .attach lease link => g = .opened (some lease) link (some 0)
    | .release lease => ∃ link, g = .lent lease link (some 0)
    | .discard lease => g = .leased lease ∨ ∃ link due, g = .lent lease link due
    | _ => True
  next g
    | .checkout _, .ok (lease, some link) => .lent lease link (some 0)
    | .checkout _, .ok (lease, none) => .leased lease
    | .connect _, .ok link => .opened g.lease? link (some 0)
    | .write _ commands, .ok _ => g.setDue (some commands.length)
    | .write _ _, .error _ => g.setDue none
    | .read _, .ok _ => g.setDue (g.due?.map (· - 1))
    | .read _, .error _ => g.setDue none
    | .close _, _ => g.drop
    | .attach lease link, _ => .lent lease link (some 0)
    | .release _, _ | .discard _, _ => .nothing
    | _, _ => g

/-- The request has nothing to do with the links of the strand that makes it. -/
def Request.IsHandsFree : Request → Prop
  | .checkout _ | .attach _ _ | .release _ | .discard _ => False
  | .connect _ | .write _ _ | .read _ | .close _ => False
  | _ => True

theorem gripProtocol_ignores {r : Request} (h : r.IsHandsFree) : gripProtocol.Ignores r := by
  intro g
  cases r with
  | checkout | attach | release | discard | connect | write | read | close => exact h.elim
  | _ => exact ⟨trivial, fun _ => rfl⟩

variable {α : Type}

abbrev Action.HandsBack (a : Action α) (g : Grip) : Prop := Action.Settles gripProtocol .nothing a g

/-! ## Exchanges -/

open SlotCluster.Action

/-- What is due after an answer, if `n` replies are to come then. -/
def dueAfter (n : Nat) : Except Fault α → Option Nat
  | .ok _ => some n
  | .error _ => none

section Exchanges

variable {g : Grip} {link : Link}

theorem read_grips (hlink : g.link? = some link) (n : Nat) :
    Keeps gripProtocol (fun r g' => g' = g.setDue (dueAfter n r)) (read link)
      (g.setDue (some (n + 1))) := by
  have hdue := Grip.due_setDue hlink (some (n + 1))
  refine ⟨⟨by rw [Grip.link_setDue, hlink], n, hdue⟩, ?_⟩
  rintro (f | reply)
  · exact Grip.setDue_setDue g _ _
  · change Grip.setDue ((Grip.due? _).map (· - 1)) _ = _
    rw [hdue, Grip.setDue_setDue]
    rfl

theorem readMany_grips (hlink : g.link? = some link) (n : Nat) :
    Keeps gripProtocol (fun r g' => g' = g.setDue (dueAfter 0 r)) (readMany link n)
      (g.setDue (some n)) := by
  induction n with
  | zero => rfl
  | succ n ih =>
    refine keeps_bind_iff.mpr ((read_grips hlink n).mono ?_)
    rintro (f | reply) _ rfl
    · rfl
    · refine keeps_bind_iff.mpr (ih.mono ?_)
      rintro (f | replies) _ rfl <;> rfl

theorem write_grips (hlink : g.link? = some link) (hdue : g.due? = some 0)
    (commands : List Command) :
    Keeps gripProtocol (fun r g' => g' = g.setDue (dueAfter commands.length r))
      (write link commands) g := by
  refine ⟨⟨hlink, hdue⟩, ?_⟩
  rintro (f | ⟨⟩) <;> rfl

theorem exchange_grips (hlink : g.link? = some link) (hdue : g.due? = some 0)
    (commands : List Command) :
    Keeps gripProtocol (fun r g' => g' = g.setDue (dueAfter 0 r)) (exchange link commands) g := by
  refine keeps_bind_iff.mpr ((write_grips hlink hdue commands).mono ?_)
  rintro (f | ⟨⟩) _ rfl
  · rfl
  · exact readMany_grips hlink commands.length

theorem exchangeOne_grips (hlink : g.link? = some link) (hdue : g.due? = some 0)
    (command : Command) :
    Keeps gripProtocol (fun r g' => g' = g.setDue (dueAfter 0 r)) (exchangeOne link command) g := by
  refine keeps_bind_iff.mpr ((write_grips hlink hdue [command]).mono ?_)
  rintro (f | ⟨⟩) _ rfl
  · rfl
  · exact read_grips hlink 0

end Exchanges

/-! ## Discovery -/

namespace Discovery

theorem query_grips (node : Node) (command : Command) :
    HandsBack (query node command) .nothing := by
  unfold query
  refine keeps_bind_iff.mpr ⟨.inl rfl, ?_⟩
  rintro (f | link)
  · rfl
  refine keeps_bind_iff.mpr (keeps_outcome_iff.mpr ?_)
  refine (exchangeOne_grips (g := .opened none link (some 0)) rfl rfl command).mono ?_
  rintro result _ rfl
  exact ⟨⟨none, _, rfl⟩, fun _ => rfl⟩

theorem requiresCoverage_grips (masters : List Node) :
    (requiresCoverage masters).Settles gripProtocol .nothing .nothing := by
  induction masters with
  | nil => rfl
  | cons master rest ih =>
    refine Program.settles_bind (query_grips master Command.configGetFullCoverage) ?_
    intro answer
    split
    · exact ih
    · rfl

theorem coverage_grips (s : Settings) (v : Survey) :
    (v.coverage s).Settles gripProtocol .nothing .nothing := by
  unfold Survey.coverage
  split
  · rfl
  · split
    · rfl
    · exact requiresCoverage_grips _

theorem survey_grips (s : Settings) (onlySeed : Bool) (candidates : List Node) (v : Survey) :
    HandsBack (survey s onlySeed candidates v) .nothing := by
  induction candidates generalizing v with
  | nil => rfl
  | cons candidate rest ih =>
    refine settles_bind (settles_outcome (query_grips candidate Command.clusterSlots)) ?_
    rintro (f | reply)
    · exact ih _
    refine settles_bind (settles_lift _) ?_
    intro topology
    simp only
    split
    · rfl
    · refine settles_bind (Program.settles_bind (coverage_grips s _) fun _ => rfl) ?_
      intro required
      split
      · exact ih _
      · rfl

theorem run_grips (s : Settings) : HandsBack (run s) .nothing := by
  refine settles_bind (settles_ask (gripProtocol_ignores trivial)) fun registry => ?_
  refine settles_bind (survey_grips s _ _ _) fun v => ?_
  exact settles_bind (settles_lift _) fun required => settles_ask (gripProtocol_ignores trivial)

theorem runIfDue_grips (s : Settings) : HandsBack (runIfDue s) .nothing := by
  have hdue : HandsBack isDue .nothing := by
    refine settles_bind (settles_ask (gripProtocol_ignores trivial)) fun registry => ?_
    split
    · exact settles_ask (gripProtocol_ignores trivial)
    · rfl
  refine settles_bind hdue fun due => ?_
  split
  · refine settles_bind (settles_outcome (run_grips s)) ?_
    rintro (f | ⟨⟩)
    · exact settles_bind (settles_ask (gripProtocol_ignores trivial)) fun _ => rfl
    · rfl
  · rfl

theorem locked_grips {a : Action Unit} (h : HandsBack a .nothing) :
    HandsBack (locked a) .nothing := by
  refine settles_bind (settles_ask (gripProtocol_ignores trivial)) fun _ => ?_
  refine settles_bind (settles_outcome h) fun result => ?_
  exact settles_bind (settles_ask (gripProtocol_ignores trivial)) fun _ => settles_lift _

theorem refreshIfNeeded_grips (s : Settings) : HandsBack (refreshIfNeeded s) .nothing := by
  refine settles_bind (settles_ask (gripProtocol_ignores trivial)) fun registry => ?_
  split
  · rfl
  · exact locked_grips (runIfDue_grips s)

theorem patchMovedSlot_grips (s : Settings) (r : Redirect) :
    HandsBack (patchMovedSlot s r) .nothing := by
  have hpending : HandsBack (refreshIfPending s) .nothing := by
    refine settles_bind (settles_ask (gripProtocol_ignores trivial)) fun taken => ?_
    split
    · exact run_grips s
    · rfl
  refine settles_bind (settles_ask (gripProtocol_ignores trivial)) fun _ => ?_
  refine settles_bind (settles_lift _) fun parts => ?_
  refine settles_bind (settles_ask (gripProtocol_ignores trivial)) fun due => ?_
  split
  · exact locked_grips hpending
  · rfl

end Discovery

/-! ## Links that are lent -/

namespace Dispatch

theorem openLink_grips (s : Settings) (node : String) (lease : Lease) :
    Keeps gripProtocol
      (fun r g =>
        g = r.toOption.elim (.leased lease) fun link => .opened (some lease) link (some 0))
      (openLink s node) (.leased lease) := by
  unfold openLink
  refine keeps_bind_iff.mpr ⟨.inr ⟨lease, rfl⟩, ?_⟩
  rintro (f | link)
  · rfl
  have hclose : ∀ (f : Fault) (due : Option Nat),
      Keeps gripProtocol
        (fun r g =>
          g = r.toOption.elim (.leased lease) fun link => .opened (some lease) link (some 0))
        (do ask (.close link); throw f : Action Link) (.opened (some lease) link due) :=
    fun f due => keeps_ask_bind_iff.mpr ⟨⟨some lease, due, rfl⟩, fun _ => rfl⟩
  split
  · refine keeps_bind_iff.mpr (keeps_outcome_iff.mpr ?_)
    refine (exchangeOne_grips (g := .opened (some lease) link (some 0)) rfl rfl _).mono ?_
    rintro (f | reply) _ rfl
    · exact hclose f none
    · simp only
      split
      · rfl
      · exact hclose _ (some 0)
  · rfl

theorem lend_grips (s : Settings) (node : String) :
    Keeps gripProtocol
      (fun r g => g = r.toOption.elim .nothing fun lent => .lent lent.1 lent.2 (some 0))
      (lend s node) .nothing := by
  unfold lend
  refine keeps_bind_iff.mpr ⟨rfl, ?_⟩
  rintro (f | ⟨lease, _ | link⟩)
  · rfl
  · refine keeps_bind_iff.mpr (keeps_outcome_iff.mpr ((openLink_grips s node lease).mono ?_))
    rintro (f | link) _ rfl
    · exact keeps_ask_bind_iff.mpr ⟨.inl rfl, fun _ => rfl⟩
    · exact keeps_ask_bind_iff.mpr ⟨rfl, fun _ => rfl⟩
  · rfl

theorem sendBatch_grips (s : Settings) (node : String) (commands : List Command) (asking : Bool) :
    HandsBack (sendBatch s node commands asking) .nothing := by
  unfold sendBatch
  refine keeps_bind_iff.mpr ((lend_grips s node).mono ?_)
  rintro (f | ⟨lease, link⟩) _ rfl
  · rfl
  refine keeps_bind_iff.mpr (keeps_outcome_iff.mpr ?_)
  refine (exchange_grips (g := .lent lease link (some 0)) rfl rfl _).mono ?_
  rintro (f | replies) _ rfl
  · exact keeps_ask_bind_iff.mpr ⟨.inr ⟨link, none, rfl⟩, fun _ => rfl⟩
  · exact keeps_ask_bind_iff.mpr ⟨⟨link, rfl⟩, fun _ => rfl⟩

/-! ## Commands -/

theorem choose_grips (nodes : List Node) : HandsBack (choose nodes) .nothing := by
  refine settles_bind (settles_ask (gripProtocol_ignores trivial)) ?_
  rintro (_ | node) <;> rfl

theorem resolve_grips (target : SingleTarget) : HandsBack (resolve target) .nothing :=
  settles_bind (settles_ask (gripProtocol_ignores trivial)) fun _ =>
    settles_bind (settles_lift _) fun nodes => choose_grips nodes

theorem anyNode_grips : HandsBack anyNode .nothing :=
  settles_bind (settles_ask (gripProtocol_ignores trivial)) fun _ =>
    settles_bind (settles_lift _) fun nodes => choose_grips nodes

theorem attempt_grips (s : Settings) (commands : List Command) (target : SingleTarget)
    (direction : Direction) (asking : Bool) :
    HandsBack (attempt s commands target direction asking) .nothing := by
  refine settles_bind ?_ fun node => sendBatch_grips s node.name commands asking
  cases direction with
  | route => exact resolve_grips target
  | random => exact anyNode_grips
  | address address => exact settles_lift _

theorem apply_grips (s : Settings) (effect : Effect) : HandsBack (apply s effect) .nothing := by
  cases effect with
  | none => rfl
  | move r => exact Discovery.patchMovedSlot_grips s r
  | startOver =>
    exact settles_bind (settles_ask (gripProtocol_ignores trivial)) fun _ =>
      settles_ask (gripProtocol_ignores trivial)

theorem requestFrom_grips (s : Settings) (commands : List Command) (target : SingleTarget)
    (left : Nat) (st : RetryState) :
    HandsBack (requestFrom s commands target left st) .nothing := by
  induction left generalizing st with
  | zero => rfl
  | succ left ih =>
    unfold requestFrom
    refine settles_bind (settles_outcome (attempt_grips s commands target _ _)) fun outcome => ?_
    refine settles_bind (apply_grips s _) fun _ => ?_
    generalize Attempt.judge s left _ outcome = verdict
    obtain ⟨effect, result | pause, st'⟩ := verdict
    · exact settles_lift _
    · cases pause with
      | some duration =>
        exact settles_bind (settles_ask (gripProtocol_ignores trivial)) fun _ => ih st'
      | none => exact ih st'

theorem askNode_grips (s : Settings) (c : Command) (node : Node) :
    (askNode s c node).Settles gripProtocol .nothing .nothing := by
  refine Program.settles_bind (sendBatch_grips s node.name [c] false) ?_
  rintro (f | replies)
  · simp only
    split
    · split
      · rfl
      · exact sendBatch_grips s node.name [c] false
    · rfl
  · rfl

theorem broadcast_grips (s : Settings) (c : Command) (target : MultiTarget)
    (policy : Option MergePolicy) :
    Job.Shares gripProtocol .nothing (broadcast s c target policy) := by
  refine Job.shares_bind (Job.shares_action (settles_ask (gripProtocol_ignores trivial))) ?_
  intro registry
  refine Job.shares_bind (Job.shares_gatherAll ?_) fun _ => Job.shares_lift _
  intro p hp
  obtain ⟨node, -, rfl⟩ := List.mem_map.mp hp
  exact askNode_grips s c node

theorem routeCommand_grips (s : Settings) (c : Command) (routing : Routing) :
    Job.Shares gripProtocol .nothing (routeCommand s c routing) := by
  refine Job.shares_bind (Job.shares_lift _) fun name => ?_
  refine Job.shares_bind (Job.shares_action (Discovery.refreshIfNeeded_grips s)) fun _ => ?_
  cases routing with
  | single target =>
    exact Job.shares_bind (Job.shares_action (requestFrom_grips s [c] target s.attempts .start))
      fun replies => rfl
  | multi target policy => exact broadcast_grips s c target policy

theorem execute_grips (s : Settings) (c : Command) :
    Job.Shares gripProtocol .nothing (execute s c) :=
  Job.shares_bind (Job.shares_lift _) fun routing => routeCommand_grips s c routing

end Dispatch

/-! ## Pipelines -/

namespace Pipeline

theorem commonTarget_grips (found : Option (Node × SingleTarget)) (targets : List SingleTarget) :
    HandsBack (commonTarget found targets) .nothing := by
  induction targets generalizing found with
  | nil => rfl
  | cons target rest ih =>
    by_cases hrandom : target = .random
    · subst hrandom
      exact ih found
    rw [commonTarget_cons hrandom]
    refine settles_bind (Dispatch.resolve_grips _) fun node => ?_
    split
    · exact ih _
    · split
      · exact ih _
      · rfl

theorem runTransaction_grips (s : Settings) (commands : List Command)
    (targets : List SingleTarget) : HandsBack (runTransaction s commands targets) .nothing := by
  refine settles_bind (commonTarget_grips none targets) fun target => ?_
  refine settles_bind (Dispatch.requestFrom_grips s _ target s.attempts .start) fun replies => ?_
  exact settles_lift _

theorem group_grips (commands : List (Placed × SingleTarget)) (batches : List Batch) :
    HandsBack (group commands batches) .nothing := by
  induction commands generalizing batches with
  | nil => rfl
  | cons c rest ih => exact settles_bind (Dispatch.resolve_grips c.2) fun node => ih _

theorem patchAll_grips (s : Settings) (moves : List Redirect) :
    HandsBack (patchAll s moves) .nothing := by
  induction moves with
  | nil => rfl
  | cons r rest ih => exact settles_bind (Discovery.patchMovedSlot_grips s r) fun _ => ih

theorem replayAll_grips (s : Settings) (placed : List (Placed × SingleTarget))
    (indices : List Nat) (t : Table) :
    Job.Shares gripProtocol .nothing (replayAll s placed indices t) := by
  induction indices generalizing t with
  | nil => rfl
  | cons i rest ih =>
    unfold replayAll
    split
    · next c target _ =>
      exact Job.shares_bind (Job.shares_task (Dispatch.routeCommand_grips s c.2 (.single target)))
        fun result => ih _
    · exact ih t

theorem runParts_grips (s : Settings) (commands : List Command) (targets : List SingleTarget) :
    Job.Shares gripProtocol .nothing (runParts s commands targets) := by
  refine Job.shares_bind (Job.shares_action (group_grips _ [])) fun batches => ?_
  refine Job.shares_bind (Job.shares_gatherAll ?_) fun results => ?_
  · intro p hp
    obtain ⟨b, -, rfl⟩ := List.mem_map.mp hp
    exact Dispatch.sendBatch_grips s b.node _ false
  · refine Job.shares_bind (Job.shares_action (patchAll_grips s _)) fun _ => ?_
    exact Job.shares_bind (replayAll_grips s _ _ _) fun table => rfl

theorem run_grips (s : Settings) (p : Pipeline) : Job.Shares gripProtocol .nothing (p.run s) := by
  unfold run
  split
  · rfl
  refine Job.shares_bind (Job.shares_lift _) fun targets => ?_
  refine Job.shares_bind (Job.shares_action (Discovery.refreshIfNeeded_grips s)) fun _ => ?_
  split
  · exact Job.shares_action (runTransaction_grips s p.commands targets)
  · exact runParts_grips s p.commands targets

theorem query_grips (s : Settings) (p : Pipeline) :
    Job.Shares gripProtocol .nothing (p.query s) :=
  Job.shares_bind (run_grips s p) fun _ => Job.shares_lift _

end Pipeline

/-! ## Operations -/

theorem Operation.task_grips (s : Settings) (op : Operation) :
    (op.task s).Shares gripProtocol .nothing .nothing := by
  have hmap : ∀ {β : Type} {j : Job β} (f : Except Fault β → Answer),
      Job.Shares gripProtocol .nothing j → (f <$> j.run).Shares gripProtocol .nothing .nothing :=
    fun f h => Task.shares_bind h fun _ => rfl
  cases op with
  | execute c => exact hmap _ (Dispatch.execute_grips s c)
  | route c routing => exact hmap _ (Dispatch.routeCommand_grips s c routing)
  | pipeline p raise =>
    cases raise with
    | true => exact hmap _ (Pipeline.query_grips s p)
    | false => exact hmap _ (Pipeline.run_grips s p)
  | query p => exact hmap _ (Pipeline.query_grips s p)
  | refresh => exact hmap _ (Job.shares_action (Discovery.run_grips s))
  | reset =>
    exact hmap _ (Job.shares_action (Dispatch.apply_grips s .startOver))

end SlotCluster
