import SlotCluster.Proofs.PlainRequests

/-!
# The refresh lock

A task takes the lock before it takes a request for a discovery, and gives it back at the end. So
one task at a time has taken a request, and no other one is inside the lock with it.
-/

namespace SlotCluster

/-! ## Duties -/

/-- What a task has to do before it may give the lock back. -/
inductive Duty
  /-- It has not got the lock. -/
  | outside
  /-- It has got the lock, and nobody waits for a discovery of it. -/
  | inside
  /-- It has taken a request for a discovery. -/
  | owing
  deriving DecidableEq, Repr

namespace Duty

def settled : Duty → Duty
  | owing => inside
  | d => d

@[simp] theorem settled_eq_outside_iff (d : Duty) : d.settled = outside ↔ d = outside := by
  cases d <;> simp [settled]

end Duty

def refreshProtocol : Protocol Duty where
  Allows d
    | .lock => d = .outside
    | .unlock => d ≠ .outside
    | .takeRefresh => d = .inside
    | _ => True
  next d
    | .lock, _ => .inside
    | .unlock, _ => .outside
    | .takeRefresh, taken => if taken then .owing else d
    | .flagRefresh, _ => d.settled
    | .install _ _, _ => d.settled
    | _, _ => d

theorem refreshProtocol_ignores {r : Request} (h : r.IsPlain) : refreshProtocol.Ignores r := by
  intro d
  cases r with
  | flagRefresh | takeRefresh | recordMove | install | forget | lock | unlock => exact h.elim
  | _ => exact ⟨trivial, fun _ => rfl⟩

variable {α : Type}

theorem Program.Uses.keepsDuty {p : Program α} (h : p.Uses Request.IsPlain) (d : Duty) :
    p.Keeps refreshProtocol (fun _ d' => d' = d) d :=
  (h.mono fun _ => refreshProtocol_ignores).keeps d

/-! ## Discovery -/

open SlotCluster.Action

namespace Discovery

theorem run_keeps (s : Settings) (d : Duty) :
    Keeps refreshProtocol (fun r d' => d' = match r with | .ok _ => d.settled | .error _ => d)
      (run s) d := by
  unfold run
  refine keeps_ask_bind_iff.mpr ⟨trivial, fun registry => ?_⟩
  refine keeps_bind_iff.mpr ((survey_plain s _ _ _).keepsDuty d |>.mono ?_)
  rintro (f | v) _ rfl
  · rfl
  · refine keeps_bind_iff.mpr (keeps_lift_iff.mpr ?_)
    cases v.conclude s with
    | error f => rfl
    | ok required => exact ⟨trivial, fun _ => rfl⟩

theorem runIfDue_keeps (s : Settings) :
    Keeps refreshProtocol (fun _ d => d = .inside) (runIfDue s) .inside := by
  have hrun : ∀ d : Duty, d.settled = .inside →
      Keeps refreshProtocol (fun _ d => d = .inside) (runOrFlag s) d := by
    intro d hd
    refine keeps_bind_iff.mpr (keeps_outcome_iff.mpr ((run_keeps s d).mono ?_))
    rintro (f | ⟨⟩) _ rfl
    · exact ⟨trivial, fun _ => hd⟩
    · exact hd
  rw [runIfDue_eq, isDue, keeps_bind_iff]
  refine keeps_ask_bind_iff.mpr ⟨trivial, fun registry => ?_⟩
  split
  · refine ⟨rfl, ?_⟩
    rintro (_ | _)
    · rfl
    · exact hrun .owing rfl
  · exact hrun .inside rfl

theorem locked_keeps {a : Action Unit}
    (h : Keeps refreshProtocol (fun _ d => d ≠ .outside) a .inside) :
    Keeps refreshProtocol (fun _ d => d = .outside) (locked a) .outside := by
  unfold locked
  refine keeps_ask_bind_iff.mpr ⟨rfl, fun _ => ?_⟩
  refine keeps_bind_iff.mpr (keeps_outcome_iff.mpr (h.mono ?_))
  intro r d hd
  exact ⟨hd, fun _ => rfl⟩

theorem refreshIfNeeded_keeps (s : Settings) :
    Keeps refreshProtocol (fun _ d => d = .outside) (refreshIfNeeded s) .outside := by
  unfold refreshIfNeeded
  refine keeps_ask_bind_iff.mpr ⟨trivial, fun registry => ?_⟩
  split
  · rfl
  · refine locked_keeps ((runIfDue_keeps s).mono ?_)
    rintro r _ rfl
    simp

theorem refreshIfPending_keeps (s : Settings) :
    Keeps refreshProtocol (fun _ d => d ≠ .outside) (refreshIfPending s) .inside := by
  unfold refreshIfPending
  refine keeps_ask_bind_iff.mpr ⟨rfl, ?_⟩
  rintro (_ | _)
  · exact Duty.noConfusion
  · refine (run_keeps s .owing).mono ?_
    rintro (f | ⟨⟩) _ rfl
    · simp
    · simp [Duty.settled]

theorem patchMovedSlot_keeps (s : Settings) (r : Redirect) :
    Keeps refreshProtocol (fun _ d => d = .outside) (patchMovedSlot s r) .outside := by
  unfold patchMovedSlot
  refine keeps_ask_bind_iff.mpr ⟨trivial, fun _ => ?_⟩
  refine keeps_bind_iff.mpr (keeps_lift_iff.mpr ?_)
  cases Address.split r.address with
  | error f => rfl
  | ok parts =>
    refine keeps_ask_bind_iff.mpr ⟨trivial, fun due => ?_⟩
    split
    · exact locked_keeps (refreshIfPending_keeps s)
    · rfl

end Discovery

/-! ## Commands -/

namespace Dispatch

theorem apply_keeps (s : Settings) (effect : Effect) :
    Keeps refreshProtocol (fun _ d => d = .outside) (apply s effect) .outside := by
  cases effect with
  | none => rfl
  | move r => exact Discovery.patchMovedSlot_keeps s r
  | startOver => exact ⟨trivial, fun _ => ⟨trivial, fun _ => rfl⟩⟩

theorem requestFrom_keeps (s : Settings) (commands : List Command) (target : SingleTarget)
    (left : Nat) (st : RetryState) :
    Keeps refreshProtocol (fun _ d => d = .outside) (requestFrom s commands target left st)
      .outside := by
  induction left generalizing st with
  | zero => rfl
  | succ left ih =>
    unfold requestFrom
    refine keeps_bind_iff.mpr (keeps_outcome_iff.mpr ?_)
    refine ((attempt_plain s commands target _ _).keepsDuty .outside).mono ?_
    rintro outcome _ rfl
    refine keeps_bind_iff.mpr ((apply_keeps s _).mono ?_)
    rintro (f | ⟨⟩) _ rfl
    · rfl
    · simp only
      split
      · rfl
      · split
        · exact keeps_ask_bind_iff.mpr ⟨trivial, fun _ => ih _⟩
        · exact ih _

theorem broadcast_keeps (s : Settings) (c : Command) (target : MultiTarget)
    (policy : Option MergePolicy) :
    Job.Keeps refreshProtocol (fun _ d => d = .outside) (broadcast s c target policy) .outside := by
  unfold broadcast
  refine Job.keeps_bind_iff.mpr (Job.keeps_action_iff.mpr ⟨trivial, fun registry => ?_⟩)
  refine Job.keeps_bind_iff.mpr (Job.keeps_task_iff.mpr ⟨?_, fun results => rfl⟩)
  intro p hp
  obtain ⟨node, -, rfl⟩ := List.mem_map.mp hp
  exact (askNode_plain s c node).mono fun _ => refreshProtocol_ignores

theorem routeCommand_keeps (s : Settings) (c : Command) (routing : Routing) :
    Job.Keeps refreshProtocol (fun _ d => d = .outside) (routeCommand s c routing) .outside := by
  unfold routeCommand
  refine Job.keeps_bind_iff.mpr (Job.keeps_lift_iff.mpr ?_)
  cases Words.checkedName (Routable.words c) with
  | error f => rfl
  | ok name =>
    refine Job.keeps_bind_iff.mpr (Job.keeps_action_iff.mpr ?_)
    refine (Discovery.refreshIfNeeded_keeps s).mono ?_
    rintro (f | ⟨⟩) _ rfl
    · rfl
    cases routing with
    | single target =>
      refine Job.keeps_bind_iff.mpr (Job.keeps_action_iff.mpr ?_)
      refine (requestFrom_keeps s [c] target s.attempts .start).mono ?_
      rintro (f | replies) _ rfl <;> rfl
    | multi target policy => exact broadcast_keeps s c target policy

theorem execute_keeps (s : Settings) (c : Command) :
    Job.Keeps refreshProtocol (fun _ d => d = .outside) (execute s c) .outside := by
  unfold execute
  refine Job.keeps_bind_iff.mpr (Job.keeps_lift_iff.mpr ?_)
  cases Routing.of c with
  | error f => rfl
  | ok routing => exact routeCommand_keeps s c routing

end Dispatch

/-! ## Pipelines -/

namespace Pipeline

theorem runTransaction_keeps (s : Settings) (commands : List Command)
    (targets : List SingleTarget) :
    Keeps refreshProtocol (fun _ d => d = .outside) (runTransaction s commands targets)
      .outside := by
  unfold runTransaction
  refine keeps_bind_iff.mpr (((commonTarget_plain none targets).keepsDuty .outside).mono ?_)
  rintro (f | target) _ rfl
  · rfl
  refine keeps_bind_iff.mpr ((Dispatch.requestFrom_keeps s _ target s.attempts .start).mono ?_)
  rintro (f | replies) _ rfl
  · rfl
  · exact keeps_lift_iff.mpr rfl

theorem patchAll_keeps (s : Settings) (moves : List Redirect) :
    Keeps refreshProtocol (fun _ d => d = .outside) (patchAll s moves) .outside := by
  induction moves with
  | nil => rfl
  | cons r rest ih =>
    refine keeps_bind_iff.mpr ((Discovery.patchMovedSlot_keeps s r).mono ?_)
    rintro (f | ⟨⟩) _ rfl
    · rfl
    · exact ih

theorem replayAll_keeps (s : Settings) (placed : List (Placed × SingleTarget))
    (indices : List Nat) (t : Table) :
    Job.Keeps refreshProtocol (fun _ d => d = .outside) (replayAll s placed indices t)
      .outside := by
  induction indices generalizing t with
  | nil => rfl
  | cons i rest ih =>
    unfold replayAll
    split
    · next c target _ =>
      refine Job.keeps_bind_iff.mpr (Job.keeps_task_iff.mpr ?_)
      refine (Dispatch.routeCommand_keeps s c.2 (.single target)).mono ?_
      rintro result _ rfl
      exact ih _
    · exact ih t

theorem runParts_keeps (s : Settings) (commands : List Command) (targets : List SingleTarget) :
    Job.Keeps refreshProtocol (fun _ d => d = .outside) (runParts s commands targets)
      .outside := by
  unfold runParts
  refine Job.keeps_bind_iff.mpr (Job.keeps_action_iff.mpr ?_)
  refine ((group_plain _ []).keepsDuty .outside).mono ?_
  rintro (f | batches) _ rfl
  · rfl
  refine Job.keeps_bind_iff.mpr (Job.keeps_task_iff.mpr ⟨?_, fun results => ?_⟩)
  · intro p hp
    obtain ⟨b, -, rfl⟩ := List.mem_map.mp hp
    exact (sendPart_plain s b).mono fun _ => refreshProtocol_ignores
  · refine Job.keeps_bind_iff.mpr (Job.keeps_action_iff.mpr ((patchAll_keeps s _).mono ?_))
    rintro (f | ⟨⟩) _ rfl
    · rfl
    refine Job.keeps_bind_iff.mpr ((replayAll_keeps s _ _ _).mono ?_)
    rintro (f | table) _ rfl <;> rfl

theorem run_keeps (s : Settings) (p : Pipeline) :
    Job.Keeps refreshProtocol (fun _ d => d = .outside) (p.run s) .outside := by
  unfold run
  split
  · rfl
  refine Job.keeps_bind_iff.mpr (Job.keeps_lift_iff.mpr ?_)
  cases targets p.commands with
  | error f => rfl
  | ok targets =>
    refine Job.keeps_bind_iff.mpr (Job.keeps_action_iff.mpr ?_)
    refine (Discovery.refreshIfNeeded_keeps s).mono ?_
    rintro (f | ⟨⟩) _ rfl
    · rfl
    simp only
    split
    · exact Job.keeps_action_iff.mpr (runTransaction_keeps s p.commands targets)
    · exact runParts_keeps s p.commands targets

theorem query_keeps (s : Settings) (p : Pipeline) :
    Job.Keeps refreshProtocol (fun _ d => d = .outside) (p.query s) .outside := by
  unfold query
  refine Job.keeps_bind_iff.mpr ((run_keeps s p).mono ?_)
  rintro (f | results) _ rfl
  · rfl
  · exact Job.keeps_lift_iff.mpr rfl

end Pipeline

/-! ## Operations -/

theorem Operation.task_keeps (s : Settings) (op : Operation) :
    (op.task s).Keeps refreshProtocol (fun _ d => d = .outside) .outside := by
  have hmap : ∀ {β : Type} {j : Job β} (f : Except Fault β → Answer),
      Job.Keeps refreshProtocol (fun _ d => d = .outside) j .outside →
        (f <$> j.run).Keeps refreshProtocol (fun _ d => d = .outside) .outside :=
    fun f h => Task.keeps_bind_iff.mpr (h.mono fun _ _ hd => hd)
  cases op with
  | execute c => exact hmap _ (Dispatch.execute_keeps s c)
  | route c routing => exact hmap _ (Dispatch.routeCommand_keeps s c routing)
  | pipeline p raise =>
    cases raise with
    | true => exact hmap _ (Pipeline.query_keeps s p)
    | false => exact hmap _ (Pipeline.run_keeps s p)
  | query p => exact hmap _ (Pipeline.query_keeps s p)
  | refresh =>
    refine hmap _ (Job.keeps_action_iff.mpr ((Discovery.run_keeps s .outside).mono ?_))
    rintro (f | ⟨⟩) _ rfl <;> rfl
  | reset => exact ⟨trivial, fun _ => ⟨trivial, fun _ => rfl⟩⟩

/-! ## Who has the lock -/

namespace RefreshLock

theorem request_holder {l : RefreshLock} {holder : Nat} (h : l.holder = some holder) (task : Nat) :
    (l.request task).holder = some holder := by
  unfold request
  rw [h]
  simp only
  split
  · exact h
  · rfl

end RefreshLock

namespace Moment

variable {σ : Type}

/-- Every task is outside the lock and keeps to the rules. -/
def Orderly (S : Moment σ α) : Prop :=
  S.Keeps refreshProtocol (fun _ d => d = .outside) fun _ => .outside

theorem orderly_of_operations (s : Settings) (ops : List Operation) (c : Client σ) :
    Orderly ⟨ops.map fun op => op.task s, c⟩ := by
  intro i t ht
  rw [List.getElem?_map] at ht
  obtain ⟨op, -, rfl⟩ := Option.map_eq_some_iff.mp ht
  exact op.task_keeps s

variable [Transport σ]

def duty (i : Nat) (es : List (Event σ)) : Duty := refreshProtocol.after i .outside es

theorem duty_snoc (i : Nat) (es : List (Event σ)) (e : Event σ) :
    duty i (es ++ [e]) =
      if e.task = i then refreshProtocol.next (duty i es) e.request e.answer else duty i es := by
  unfold duty
  rw [Protocol.after_append, Protocol.after_singleton]

theorem Orderly.allows {S S' : Moment σ α} {before rest : List (Event σ)} {e : Event σ}
    (hS : S.Orderly) (h : Run S (before ++ e :: rest) S') :
    refreshProtocol.Allows (duty e.task before) e.request :=
  (Keeps.of_run hS h).2 before e rest rfl

theorem duty_of_next {d : Duty} {r : Request} {a : r.Answer} (hlock : r ≠ .lock)
    (hallows : refreshProtocol.Allows d r) (h : refreshProtocol.next d r a ≠ .outside) :
    d ≠ .outside := by
  cases r with
  | lock => exact absurd rfl hlock
  | unlock => exact hallows
  | takeRefresh =>
    have hd : d = .inside := hallows
    simp [hd]
  | flagRefresh | install => simpa [refreshProtocol] using h
  | _ => exact h

theorem answer_lock (c : Client σ) (task : Nat) {r : Request} (hlock : r ≠ .lock)
    (hunlock : r ≠ .unlock) : (c.answer task r).2.lock = c.lock := by
  cases r with
  | lock => exact absurd rfl hlock
  | unlock => exact absurd rfl hunlock
  | flagRefresh | takeRefresh | recordMove | install | forget => rfl
  | _ =>
    refine (Client.answer_of_plain ?_ c task).2
    trivial

section Answer

variable {c : Client σ} {task : Nat} {d : Duty} {r : Request}

theorem holder_of_answer (free : c.blocks task r = false) (hallows : refreshProtocol.Allows d r)
    (hd : d ≠ .outside → c.lock.holder = some task)
    (hnext : refreshProtocol.next d r (c.answer task r).1 ≠ .outside) :
    (c.answer task r).2.lock.holder = some task := by
  by_cases hlock : r = .lock
  · subst hlock
    have hholder : c.lock.holder = some task := by simpa [Client.blocks] using free
    exact RefreshLock.request_holder hholder task
  by_cases hunlock : r = .unlock
  · subst hunlock
    exact absurd rfl hnext
  · rw [answer_lock c task hlock hunlock]
    exact hd (duty_of_next hlock hallows hnext)

theorem holder_kept_of_answer (free : c.blocks task r = false)
    (hallows : refreshProtocol.Allows d r) (hd : d ≠ .outside → c.lock.holder = some task)
    {other : Nat} (hne : task ≠ other) (hholder : c.lock.holder = some other) :
    (c.answer task r).2.lock.holder = some other := by
  by_cases hlock : r = .lock
  · subst hlock
    have hown : c.lock.holder = some task := by simpa [Client.blocks] using free
    exact absurd (Option.some.inj (hown.symm.trans hholder)) hne
  by_cases hunlock : r = .unlock
  · subst hunlock
    exact absurd (Option.some.inj ((hd hallows).symm.trans hholder)) hne
  · rwa [answer_lock c task hlock hunlock]

end Answer

theorem Orderly.holder {S S' : Moment σ α} {es : List (Event σ)} (hS : S.Orderly)
    (h : Run S es S') (i : Nat) (hi : duty i es ≠ .outside) :
    S'.client.lock.holder = some i := by
  induction h generalizing i with
  | refl => exact absurd rfl hi
  | quiet h step ih =>
    have hholder := ih i hi
    cases step with
    | @wait j t r next task asks =>
      cases r with
      | lock => exact RefreshLock.request_holder hholder j
      | _ => exact hholder
    | pass => exact hholder
    | collect task done => exact hholder
  | event h step ih =>
    have hallows := hS.allows (h.event step)
    rw [duty_snoc] at hi
    cases step with
    | answer task asks free =>
      split at hi
      · next hij =>
        subst hij
        exact holder_of_answer free hallows (ih _) hi
      · next hij => exact holder_kept_of_answer free hallows (ih _) hij (ih i hi)

theorem Orderly.unique {S S' : Moment σ α} {es : List (Event σ)} (hS : S.Orderly)
    (h : Run S es S') {i j : Nat} (hi : duty i es ≠ .outside) (hj : duty j es ≠ .outside) :
    i = j :=
  Option.some.inj ((hS.holder h i hi).symm.trans (hS.holder h j hj))

end Moment

end SlotCluster
