import SlotCluster.Proofs.PendingRefresh

/-!
# Parts of an operation

An operation comes to a discovery in two ways, before a command and after a moved slot, and it takes
no request for a discovery anywhere else. When one of the two fails the operation is over, unless it
is a pipeline that sends its commands one by one.
-/

namespace SlotCluster

variable {σ : Type} [Transport σ]

/-- What an operation does, cut into whole parts: single events that take no request, and the two
ways to a discovery. After a part that fails there is no other, unless the operation goes on with
another command (`resumes`). The flag says whether another part may follow. -/
inductive Parts (s : Settings) (resumes : Bool) : Bool → List (Event σ) → Prop
  | none : Parts s resumes true []
  | event {es : List (Event σ)} {e : Event σ} (h : Parts s resumes true es)
      (e_ : e.request ≠ .takeRefresh) : Parts s resumes true (es ++ [e])
  | command {es part : List (Event σ)} {r : Except Fault Unit} (h : Parts s resumes true es)
      (part_ : Action.Runs (Discovery.locked (Discovery.runIfDue s)) part r) :
      Parts s resumes r.isOk (es ++ part)
  | move {es part : List (Event σ)} {m : Redirect} {r : Except Fault Unit}
      (h : Parts s resumes true es) (part_ : Action.Runs (Discovery.patchMovedSlot s m) part r) :
      Parts s resumes r.isOk (es ++ part)
  | resume {es : List (Event σ)} {ok : Bool} (h : Parts s resumes ok es) (on : resumes = true) :
      Parts s resumes true es

variable {s : Settings} {resumes : Bool} {es es' : List (Event σ)}

theorem Parts.plain (h : Parts s resumes true es) (hes' : ∀ e ∈ es', e.request.IsPlain) :
    Parts s resumes true (es ++ es') := by
  induction es' using List.reverseRecOn with
  | nil => rwa [List.append_nil]
  | append_singleton init e ih =>
    rw [← List.append_assoc]
    refine (ih fun e' he' => hes' e' (by simp [he'])).event ?_
    intro he
    have hplain := hes' e (by simp)
    rw [he] at hplain
    exact hplain

variable {α β : Type}

/-- These runs add whole parts. They fail if nothing may follow. -/
def AddParts (s : Settings) (resumes : Bool) (runs : List (Event σ) → Except Fault α → Prop) :
    Prop :=
  ∀ es r before, runs es r → Parts s resumes true before →
    ∃ ok, Parts s resumes ok (before ++ es) ∧ (ok = false → ∃ f, r = .error f)

theorem AddParts.bind {runs : List (Event σ) → Except Fault β → Prop}
    {first : List (Event σ) → Except Fault α → Prop}
    {second : α → List (Event σ) → Except Fault β → Prop}
    (h : ∀ es r, runs es r → (∃ g, first es (.error g) ∧ r = .error g) ∨
      ∃ v es₁ es₂, es = es₁ ++ es₂ ∧ first es₁ (.ok v) ∧ second v es₂ r)
    (hfirst : AddParts s resumes first) (hsecond : ∀ v, AddParts s resumes (second v)) :
    AddParts s resumes runs := by
  intro es r before hruns hbefore
  obtain ⟨g, hg, rfl⟩ | ⟨v, es₁, es₂, rfl, h₁, h₂⟩ := h es r hruns
  · obtain ⟨ok, hparts, -⟩ := hfirst _ _ before hg hbefore
    exact ⟨ok, hparts, fun _ => ⟨g, rfl⟩⟩
  · obtain ⟨ok, hparts, hok⟩ := hfirst _ _ before h₁ hbefore
    -- A first half that has failed has no second one.
    cases ok with
    | false =>
      obtain ⟨g, hg⟩ := hok rfl
      cases hg
    | true =>
      rw [← List.append_assoc]
      exact hsecond v _ _ _ h₂ hparts

/-! ## Actions and their parts -/

namespace Action

abbrev Adds (σ : Type) [Transport σ] (s : Settings) (resumes : Bool) (a : Action α) : Prop :=
  AddParts (σ := σ) s resumes (Runs a)

theorem Uses.adds {a : Action α} (h : Uses Request.IsPlain a) : Adds σ s resumes a := by
  intro es r before hruns hbefore
  exact ⟨true, hbefore.plain (h.of_runs hruns), by simp⟩

theorem adds_bind {a : Action α} {f : α → Action β} (ha : Adds σ s resumes a)
    (hf : ∀ v, Adds σ s resumes (f v)) : Adds σ s resumes (a >>= f) :=
  AddParts.bind (fun _ _ => runs_bind_iff.mp) ha hf

theorem adds_ask {q : Request} (h : q ≠ .takeRefresh) : Adds σ s resumes (ask q) := by
  intro es r before hruns hbefore
  obtain ⟨task, c, rfl, rfl⟩ := (runs_ask_iff _).mp hruns
  exact ⟨true, hbefore.event h, by simp⟩

end Action

open SlotCluster.Action

theorem Discovery.refreshIfNeeded_adds : Adds σ s resumes (refreshIfNeeded s) := by
  intro es r before hruns hbefore
  obtain ⟨task, c, rest, rfl, hrest⟩ := runs_refreshIfNeeded_iff.mp hruns
  have hasked : Parts s resumes true (before ++ [⟨task, .registry, c⟩]) :=
    hbefore.event Request.noConfusion
  rw [List.append_cons]
  split at hrest
  · obtain ⟨rfl, rfl⟩ := hrest
    exact ⟨true, by rwa [List.append_nil], by simp⟩
  · refine ⟨r.isOk, hasked.command hrest, ?_⟩
    cases r with
    | ok v => simp [Except.isOk, Except.toBool]
    | error f => exact fun _ => ⟨f, rfl⟩

theorem Discovery.patchMovedSlot_adds (m : Redirect) :
    Adds σ s resumes (patchMovedSlot s m) := by
  intro es r before hruns hbefore
  refine ⟨r.isOk, hbefore.move hruns, ?_⟩
  cases r with
  | ok v => simp [Except.isOk, Except.toBool]
  | error f => exact fun _ => ⟨f, rfl⟩

theorem Discovery.run_adds : Adds σ s resumes (run s) := by
  refine adds_bind (adds_ask Request.noConfusion) fun registry => ?_
  refine adds_bind (survey_plain s _ _ _).adds fun v => ?_
  exact adds_bind (uses_lift _).adds fun required => adds_ask Request.noConfusion

namespace Dispatch

theorem apply_adds (effect : Effect) : Adds σ s resumes (apply s effect) := by
  cases effect with
  | none => exact (uses_pure _).adds
  | move m => exact Discovery.patchMovedSlot_adds m
  | startOver =>
    exact adds_bind (adds_ask Request.noConfusion) fun _ => adds_ask Request.noConfusion

theorem requestFrom_adds (commands : List Command) (target : SingleTarget) (left : Nat)
    (st : RetryState) : Adds σ s resumes (requestFrom s commands target left st) := by
  induction left generalizing st with
  | zero => exact (uses_throw _).adds
  | succ left ih =>
    unfold requestFrom
    rcases st.aim with ⟨direction, st⟩
    refine adds_bind (uses_outcome (attempt_plain s commands target direction _)).adds ?_
    intro outcome
    generalize Attempt.judge s left st outcome = verdict
    refine adds_bind (apply_adds verdict.effect) ?_
    intro _
    cases verdict.next with
    | done result => exact (uses_lift result).adds
    | again pause =>
      cases pause with
      | none => exact ih _
      | some duration => exact adds_bind (adds_ask Request.noConfusion) fun _ => ih _

end Dispatch

/-! ## Jobs and their parts -/

namespace Job

abbrev Adds (σ : Type) [Transport σ] (s : Settings) (resumes : Bool) (j : Job α) : Prop :=
  AddParts (σ := σ) s resumes (Runs j)

theorem adds_action {a : Action α} (h : a.Adds σ s resumes) :
    Adds σ s resumes (liftM a : Job α) := by
  intro es r before hruns hbefore
  exact h es r before (runs_action_iff.mp hruns) hbefore

theorem adds_lift (x : Except Fault α) : Adds σ s resumes (liftM x : Job α) := by
  intro es r before hruns hbefore
  obtain ⟨rfl, rfl⟩ := runs_lift_iff.mp hruns
  exact ⟨true, by rwa [List.append_nil], by simp⟩

theorem adds_bind {j : Job α} {f : α → Job β} (hj : Adds σ s resumes j)
    (hf : ∀ v, Adds σ s resumes (f v)) : Adds σ s resumes (j >>= f) :=
  AddParts.bind (fun _ _ => runs_bind_iff.mp) hj hf

theorem adds_gatherAll {programs : List (Program BatchResult)}
    (h : ∀ p ∈ programs, p.Uses Request.IsPlain) :
    Adds σ s resumes (ExceptT.lift (Task.gatherAll programs)) := by
  intro es r before hruns hbefore
  obtain ⟨results, hgather, rfl⟩ := runs_task_iff.mp hruns
  exact ⟨true, hbefore.plain (Program.RunsAll.uses (Task.runs_gatherAll_iff.mp hgather) h), by simp⟩

theorem adds_outcome {j : Job α} (h : Adds σ s true j) : Adds σ s true (ExceptT.lift j.run) := by
  intro es r before hruns hbefore
  obtain ⟨x, hx, rfl⟩ := runs_task_iff.mp hruns
  obtain ⟨ok, hparts, -⟩ := h es x before hx hbefore
  exact ⟨true, hparts.resume rfl, by simp⟩

end Job

namespace Dispatch

theorem broadcast_adds (c : Command) (target : MultiTarget) (policy : Option MergePolicy) :
    Job.Adds σ s resumes (broadcast s c target policy) := by
  refine Job.adds_bind (Job.adds_action (adds_ask Request.noConfusion)) ?_
  intro registry
  refine Job.adds_bind (Job.adds_gatherAll ?_) fun _ => Job.adds_lift _
  intro p hp
  obtain ⟨node, -, rfl⟩ := List.mem_map.mp hp
  exact askNode_plain s c node

theorem routeCommand_adds (c : Command) (routing : Routing) :
    Job.Adds σ s resumes (routeCommand s c routing) := by
  refine Job.adds_bind (Job.adds_lift _) fun name => ?_
  refine Job.adds_bind (Job.adds_action Discovery.refreshIfNeeded_adds) fun _ => ?_
  cases routing with
  | single target =>
    refine Job.adds_bind (Job.adds_action ?_) fun replies =>
      Job.adds_lift (.ok (asOneReply replies))
    exact requestFrom_adds [c] target s.attempts .start
  | multi target policy => exact broadcast_adds c target policy

theorem execute_adds (c : Command) : Job.Adds σ s resumes (execute s c) :=
  Job.adds_bind (Job.adds_lift _) fun routing => routeCommand_adds c routing

end Dispatch

namespace Pipeline

theorem runTransaction_adds (commands : List Command) (targets : List SingleTarget) :
    Adds σ s resumes (runTransaction s commands targets) := by
  refine adds_bind (commonTarget_plain none targets).adds fun target => ?_
  refine adds_bind (Dispatch.requestFrom_adds _ target s.attempts .start) fun _ => ?_
  exact (uses_lift _).adds

theorem patchAll_adds (moves : List Redirect) : Adds σ s resumes (patchAll s moves) := by
  induction moves with
  | nil => exact (uses_pure _).adds
  | cons r rest ih => exact adds_bind (Discovery.patchMovedSlot_adds r) fun _ => ih

theorem replayAll_adds (placed : List (Placed × SingleTarget)) (indices : List Nat) (t : Table) :
    Job.Adds σ s true (replayAll s placed indices t) := by
  induction indices generalizing t with
  | nil => exact Job.adds_lift (.ok t)
  | cons i rest ih =>
    unfold replayAll
    split
    · next c target _ =>
      refine Job.adds_bind (Job.adds_outcome ?_) fun result => ih _
      exact Dispatch.routeCommand_adds c.2 (.single target)
    · exact ih t

theorem runParts_adds (commands : List Command) (targets : List SingleTarget) :
    Job.Adds σ s true (runParts s commands targets) := by
  refine Job.adds_bind (Job.adds_action (group_plain _ []).adds) fun batches => ?_
  refine Job.adds_bind (Job.adds_gatherAll ?_) fun _ => ?_
  · intro p hp
    obtain ⟨b, -, rfl⟩ := List.mem_map.mp hp
    exact sendPart_plain s b
  · refine Job.adds_bind (Job.adds_action (patchAll_adds _)) fun _ => ?_
    exact Job.adds_bind (replayAll_adds _ _ _) fun table => Job.adds_lift (.ok (finish table))

theorem run_adds (p : Pipeline) (h : p.transaction = false → resumes = true) :
    Job.Adds σ s resumes (p.run s) := by
  unfold run
  split
  · exact Job.adds_lift (.ok [])
  refine Job.adds_bind (Job.adds_lift _) fun targets => ?_
  refine Job.adds_bind (Job.adds_action Discovery.refreshIfNeeded_adds) fun _ => ?_
  split
  · exact Job.adds_action (runTransaction_adds p.commands targets)
  · next htransaction =>
    obtain rfl := h (by simpa using htransaction)
    exact runParts_adds p.commands targets

theorem query_adds (p : Pipeline) (h : p.transaction = false → resumes = true) :
    Job.Adds σ s resumes (p.query s) :=
  Job.adds_bind (run_adds p h) fun _ => Job.adds_lift _

end Pipeline

/-! ## Operations and their parts -/

/-- Sends commands one by one that failed together, and goes on if one of them fails again. -/
def Operation.inParts : Operation → Bool
  | pipeline p _ | query p => !p.transaction
  | _ => false

theorem Operation.parts_of_runs {op : Operation} {answer : Answer}
    (h : Task.Runs (op.task s) es answer) : ∃ ok, Parts s op.inParts ok es := by
  have hmap : ∀ {β : Type} {j : Job β} (f : Except Fault β → Answer),
      Job.Adds σ s op.inParts j → Task.Runs (f <$> j.run) es answer →
        ∃ ok, Parts s op.inParts ok es := by
    intro β j f hj hruns
    obtain ⟨x, es₁, es₂, rfl, hx, hdone⟩ := Task.runs_bind_iff.mp hruns
    obtain ⟨rfl, -⟩ := Task.runs_done_iff.mp hdone
    obtain ⟨ok, hparts, -⟩ := hj es₁ x [] hx .none
    exact ⟨ok, by rwa [List.append_nil]⟩
  cases op with
  | execute c => exact hmap _ (Dispatch.execute_adds c) h
  | route c routing => exact hmap _ (Dispatch.routeCommand_adds c routing) h
  | pipeline p raise =>
    cases raise with
    | true => exact hmap _ (Pipeline.query_adds p fun hp => by simp [inParts, hp]) h
    | false => exact hmap _ (Pipeline.run_adds p fun hp => by simp [inParts, hp]) h
  | query p => exact hmap _ (Pipeline.query_adds p fun hp => by simp [inParts, hp]) h
  | refresh => exact hmap _ (Job.adds_action Discovery.run_adds) h
  | reset => exact hmap _ (Job.adds_action (Dispatch.apply_adds .startOver)) h

end SlotCluster
