import SlotCluster.Proofs.OperationParts

/-!
# The body of an operation

An operation checks for a discovery first. What it does then leaves the registry alone, but for
slots that have moved and for a reset. A pipeline that sends commands one by one checks before each
of them again.
-/

namespace SlotCluster

variable {σ : Type} [Transport σ]

open Discovery in
/-- What is done behind the check of an operation. With `again` there are checks in it too. -/
inductive Body (s : Settings) (again : Bool) : List (Event σ) → Prop
  | none : Body s again []
  | event {es : List (Event σ)} {e : Event σ} (h : Body s again es)
      (e_ : e.request.IsPlain ∨ e.request = .forget) : Body s again (es ++ [e])
  | move {es part : List (Event σ)} {m : Redirect} {r : Except Fault Unit} (h : Body s again es)
      (part_ : Action.Runs (patchMovedSlot s m) part r) : Body s again (es ++ part)
  | check {es part : List (Event σ)} {r : Except Fault Unit} (h : Body s again es)
      (part_ : Action.Runs (refreshIfNeeded s) part r) (on : again = true) :
      Body s again (es ++ part)

variable {s : Settings} {again : Bool} {es es' : List (Event σ)}

theorem Body.append (h : Body s again es) (h' : Body s again es') : Body s again (es ++ es') := by
  induction h' with
  | none => rwa [List.append_nil]
  | event _ e_ ih =>
    rw [← List.append_assoc]
    exact ih.event e_
  | move _ part_ ih =>
    rw [← List.append_assoc]
    exact ih.move part_
  | check _ part_ on ih =>
    rw [← List.append_assoc]
    exact ih.check part_ on

theorem Body.of_plain (h : ∀ e ∈ es, e.request.IsPlain) : Body s again es := by
  induction es using List.reverseRecOn with
  | nil => exact .none
  | append_singleton init e ih =>
    obtain ⟨hinit, he⟩ := List.forall_mem_append.mp h
    exact (ih hinit).event (.inl (he e (List.mem_singleton_self e)))

/-! ## What stands where -/

variable {before after : List (Event σ)} {e : Event σ}

/-- A moved slot or a check stands at this place. -/
inductive Body.At (s : Settings) (again : Bool) (e : Event σ) :
    List (Event σ) → List (Event σ) → Prop
  | move {pre before after post : List (Event σ)} {m : Redirect} {r : Except Fault Unit}
      (part_ : Action.Runs (Discovery.patchMovedSlot s m) (before ++ e :: after) r)
      (post_ : Body s again post) : At s again e (pre ++ before) (after ++ post)
  | check {pre before after post : List (Event σ)} {r : Except Fault Unit}
      (part_ : Action.Runs (Discovery.refreshIfNeeded s) (before ++ e :: after) r)
      (post_ : Body s again post) (on : again = true) : At s again e (pre ++ before) (after ++ post)

theorem Body.At.append {more : List (Event σ)} (h : Body.At s again e before after)
    (hmore : Body s again more) : Body.At s again e before (after ++ more) := by
  cases h with
  | move part_ post_ =>
    rw [List.append_assoc]
    exact .move part_ (post_.append hmore)
  | check part_ post_ on =>
    rw [List.append_assoc]
    exact .check part_ (post_.append hmore) on

omit [Transport σ] in
theorem split_cons {first second : List (Event σ)} (h : first ++ second = before ++ e :: after) :
    (∃ rest, first = before ++ e :: rest ∧ after = rest ++ second) ∨
      ∃ rest, before = first ++ rest ∧ second = rest ++ e :: after := by
  rcases List.append_eq_append_iff.mp h with ⟨rest, rfl, hsecond⟩ | ⟨rest, rfl, hafter⟩
  · exact .inr ⟨rest, rfl, hsecond⟩
  · cases rest with
    | nil => exact .inr ⟨[], by simp, hafter.symm⟩
    | cons x rest =>
      obtain ⟨rfl, rfl⟩ := List.cons.inj hafter
      exact .inl ⟨rest, rfl, rfl⟩

/-- Only a moved slot and a check make requests that are not plain, apart from a reset. -/
theorem Body.place (h : Body s again es) (hes : es = before ++ e :: after)
    (hplain : ¬ e.request.IsPlain) (hforget : e.request ≠ .forget) :
    Body.At s again e before after := by
  induction h generalizing before after with
  | none => simp at hes
  | event _ e_ ih =>
    obtain ⟨rest, hfirst, rfl⟩ | ⟨rest, rfl, hlast⟩ := split_cons hes
    · exact (ih hfirst).append (Body.none.event e_)
    · have hmem : e ∈ rest ++ e :: after := by simp
      rw [← hlast, List.mem_singleton] at hmem
      rw [← hmem] at e_
      exact (e_.elim hplain hforget).elim
  | move _ part_ ih =>
    obtain ⟨rest, hfirst, rfl⟩ | ⟨rest, rfl, hlast⟩ := split_cons hes
    · exact (ih hfirst).append (Body.none.move part_)
    · rw [hlast] at part_
      rw [← List.append_nil after]
      exact .move part_ .none
  | check _ part_ on ih =>
    obtain ⟨rest, hfirst, rfl⟩ | ⟨rest, rfl, hlast⟩ := split_cons hes
    · exact (ih hfirst).append (Body.none.check part_ on)
    · rw [hlast] at part_
      rw [← List.append_nil after]
      exact .check part_ .none on

variable {α β : Type}

/-! ## Actions -/

namespace Action

/-- Each run of the action is a body. -/
def IsBody (σ : Type) [Transport σ] (s : Settings) (again : Bool) (a : Action α) : Prop :=
  ∀ (es : List (Event σ)) r, Runs a es r → Body s again es

theorem Uses.isBody {a : Action α} (h : Uses Request.IsPlain a) : IsBody σ s again a :=
  fun _ _ hruns => .of_plain (h.of_runs hruns)

theorem isBody_bind {a : Action α} {f : α → Action β} (ha : IsBody σ s again a)
    (hf : ∀ v, IsBody σ s again (f v)) : IsBody σ s again (a >>= f) := by
  intro es r h
  obtain ⟨g, hg, -⟩ | ⟨v, es₁, es₂, rfl, h₁, h₂⟩ := runs_bind_iff.mp h
  · exact ha _ _ hg
  · exact (ha _ _ h₁).append (hf v _ _ h₂)

theorem isBody_patch (m : Redirect) : IsBody σ s again (Discovery.patchMovedSlot s m) := by
  intro es r h
  have hbody : Body s again ([] ++ es) := Body.none.move h
  rwa [List.nil_append] at hbody

theorem isBody_forget : IsBody σ s again (ask .forget) := by
  intro es r h
  obtain ⟨task, c, rfl, -⟩ := (runs_ask_iff _).mp h
  exact Body.none.event (.inr rfl)

end Action

open SlotCluster.Action

namespace Dispatch

theorem isBody_apply (effect : Effect) : IsBody σ s again (apply s effect) := by
  cases effect with
  | none => exact (uses_pure _).isBody
  | move m => exact isBody_patch m
  | startOver => exact isBody_bind (uses_ask trivial).isBody fun _ => isBody_forget

theorem isBody_requestFrom (commands : List Command) (target : SingleTarget) (left : Nat)
    (st : RetryState) : IsBody σ s again (requestFrom s commands target left st) := by
  induction left generalizing st with
  | zero => exact (uses_throw _).isBody
  | succ left ih =>
    unfold requestFrom
    rcases st.aim with ⟨direction, st⟩
    refine isBody_bind (uses_outcome (attempt_plain s commands target direction _)).isBody ?_
    intro outcome
    generalize Attempt.judge s left st outcome = verdict
    refine isBody_bind (isBody_apply verdict.effect) fun _ => ?_
    cases verdict.next with
    | done result => exact (uses_lift result).isBody
    | again pause =>
      cases pause with
      | none => exact ih _
      | some duration => exact isBody_bind (uses_ask trivial).isBody fun _ => ih _

end Dispatch

namespace Pipeline

theorem isBody_runTransaction (commands : List Command) (targets : List SingleTarget) :
    IsBody σ s again (runTransaction s commands targets) := by
  refine isBody_bind (commonTarget_plain none targets).isBody fun target => ?_
  refine isBody_bind (Dispatch.isBody_requestFrom _ target s.attempts .start) fun _ => ?_
  exact (uses_lift _).isBody

theorem isBody_patchAll (moves : List Redirect) : IsBody σ s again (patchAll s moves) := by
  induction moves with
  | nil => exact (uses_pure _).isBody
  | cons m rest ih => exact isBody_bind (isBody_patch m) fun _ => ih

end Pipeline

/-! ## Jobs -/

namespace Job

def IsBody (σ : Type) [Transport σ] (s : Settings) (again : Bool) (j : Job α) : Prop :=
  ∀ (es : List (Event σ)) r, Runs j es r → Body s again es

theorem isBody_lift (x : Except Fault α) : IsBody σ s again (liftM x : Job α) := by
  intro es r h
  obtain ⟨rfl, -⟩ := runs_lift_iff.mp h
  exact .none

theorem isBody_action {a : Action α} (h : a.IsBody σ s again) :
    IsBody σ s again (liftM a : Job α) :=
  fun _ _ hruns => h _ _ (runs_action_iff.mp hruns)

theorem isBody_bind {j : Job α} {f : α → Job β} (hj : IsBody σ s again j)
    (hf : ∀ v, IsBody σ s again (f v)) : IsBody σ s again (j >>= f) := by
  intro es r h
  obtain ⟨g, hg, -⟩ | ⟨v, es₁, es₂, rfl, h₁, h₂⟩ := runs_bind_iff.mp h
  · exact hj _ _ hg
  · exact (hj _ _ h₁).append (hf v _ _ h₂)

theorem isBody_gatherAll {programs : List (Program BatchResult)}
    (h : ∀ p ∈ programs, p.Uses Request.IsPlain) :
    IsBody σ s again (ExceptT.lift (Task.gatherAll programs)) := by
  intro es r hruns
  obtain ⟨results, hgather, -⟩ := runs_task_iff.mp hruns
  exact .of_plain (Program.RunsAll.uses (Task.runs_gatherAll_iff.mp hgather) h)

theorem isBody_outcome {j : Job α} (h : IsBody σ s again j) :
    IsBody σ s again (ExceptT.lift j.run) := by
  intro es r hruns
  obtain ⟨x, hx, -⟩ := runs_task_iff.mp hruns
  exact h es x hx

end Job

/-! ## Behind a check -/

/-- The operation was refused at once, or it begins with a check, which another part follows. -/
inductive Checked (s : Settings) (again : Bool) : List (Event σ) → Prop
  | refused : Checked s again []
  | checked {check body : List (Event σ)} {r : Except Fault Unit}
      (check_ : Action.Runs (Discovery.refreshIfNeeded s) check r) (body_ : Body s again body) :
      Checked s again (check ++ body)

theorem Body.weaken (h : Body s again es) : Body s true es := by
  induction h with
  | none => exact .none
  | event _ e_ ih => exact ih.event e_
  | move _ part_ ih => exact ih.move part_
  | check _ part_ _ ih => exact ih.check part_ rfl

theorem Checked.body (h : Checked s again es) : Body s true es := by
  cases h with
  | refused => exact .none
  | checked check_ body_ =>
    have hcheck := Body.none.check check_ rfl
    rw [List.nil_append] at hcheck
    exact hcheck.append body_.weaken

theorem Checked.of_bind {f : Unit → Job α} (hf : ∀ v, Job.IsBody σ s again (f v))
    {r : Except Fault α}
    (h : Job.Runs ((liftM (Discovery.refreshIfNeeded s) : Job Unit) >>= f) es r) :
    Checked s again es := by
  obtain ⟨g, hg, -⟩ | ⟨v, check, body, rfl, hcheck, hbody⟩ := Job.runs_bind_iff.mp h
  · rw [← List.append_nil es]
    exact .checked (Job.runs_action_iff.mp hg) .none
  · exact .checked (Job.runs_action_iff.mp hcheck) (hf v _ _ hbody)

theorem Dispatch.checked_of_routeCommand {c : Command} {routing : Routing} {r : Except Fault Reply}
    (h : Job.Runs (routeCommand s c routing) es r) : Checked s again es := by
  unfold routeCommand at h
  obtain ⟨g, hg, -⟩ | ⟨name, es₁, es₂, rfl, h₁, h₂⟩ := Job.runs_bind_iff.mp h
  · obtain ⟨rfl, -⟩ := Job.runs_lift_iff.mp hg
    exact .refused
  obtain ⟨rfl, -⟩ := Job.runs_lift_iff.mp h₁
  refine Checked.of_bind (fun _ => ?_) h₂
  cases routing with
  | single target =>
    refine Job.isBody_bind (Job.isBody_action ?_) fun replies =>
      Job.isBody_lift (.ok (asOneReply replies))
    exact isBody_requestFrom [c] target s.attempts .start
  | multi target policy =>
    refine Job.isBody_bind (Job.isBody_action (uses_ask trivial).isBody) fun registry => ?_
    refine Job.isBody_bind (Job.isBody_gatherAll ?_) fun _ => Job.isBody_lift _
    intro p hp
    obtain ⟨node, -, rfl⟩ := List.mem_map.mp hp
    exact askNode_plain s c node

theorem Dispatch.checked_of_execute {c : Command} {r : Except Fault Reply}
    (h : Job.Runs (execute s c) es r) : Checked s again es := by
  obtain ⟨g, hg, -⟩ | ⟨routing, es₁, es₂, rfl, h₁, h₂⟩ := Job.runs_bind_iff.mp h
  · obtain ⟨rfl, -⟩ := Job.runs_lift_iff.mp hg
    exact .refused
  obtain ⟨rfl, -⟩ := Job.runs_lift_iff.mp h₁
  exact checked_of_routeCommand h₂

namespace Pipeline

theorem isBody_replayAll (placed : List (Placed × SingleTarget)) (indices : List Nat) (t : Table) :
    Job.IsBody σ s true (replayAll s placed indices t) := by
  induction indices generalizing t with
  | nil => exact Job.isBody_lift (.ok t)
  | cons i rest ih =>
    unfold replayAll
    split
    · refine Job.isBody_bind (Job.isBody_outcome ?_) fun result => ih _
      intro _ _ h
      have hchecked : Checked s true _ := Dispatch.checked_of_routeCommand h
      exact hchecked.body
    · exact ih t

theorem isBody_runParts (commands : List Command) (targets : List SingleTarget) :
    Job.IsBody σ s true (runParts s commands targets) := by
  refine Job.isBody_bind (Job.isBody_action (group_plain _ []).isBody) fun batches => ?_
  refine Job.isBody_bind (Job.isBody_gatherAll ?_) fun _ => ?_
  · intro p hp
    obtain ⟨b, -, rfl⟩ := List.mem_map.mp hp
    exact sendPart_plain s b
  · refine Job.isBody_bind (Job.isBody_action (isBody_patchAll _)) fun _ => ?_
    exact Job.isBody_bind (isBody_replayAll _ _ _) fun table => Job.isBody_lift (.ok (finish table))

theorem checked_of_run {p : Pipeline} {r : Except Fault (List (Except Fault Reply))}
    (h : Job.Runs (p.run s) es r) : Checked s (!p.transaction) es := by
  unfold run at h
  split at h
  · obtain ⟨rfl, -⟩ := Task.runs_done_iff.mp h
    exact .refused
  obtain ⟨g, hg, -⟩ | ⟨targets, es₁, es₂, rfl, h₁, h₂⟩ := Job.runs_bind_iff.mp h
  · obtain ⟨rfl, -⟩ := Job.runs_lift_iff.mp hg
    exact .refused
  obtain ⟨rfl, -⟩ := Job.runs_lift_iff.mp h₁
  refine Checked.of_bind (fun _ => ?_) h₂
  split
  · exact Job.isBody_action (isBody_runTransaction p.commands targets)
  · next htransaction =>
    rw [Bool.not_eq_true] at htransaction
    rw [htransaction]
    exact isBody_runParts p.commands targets

theorem checked_of_query {p : Pipeline} {r : Except Fault (List Reply)}
    (h : Job.Runs (p.query s) es r) : Checked s (!p.transaction) es := by
  obtain ⟨g, hg, -⟩ | ⟨results, es₁, es₂, rfl, h₁, h₂⟩ := Job.runs_bind_iff.mp h
  · exact checked_of_run hg
  · obtain ⟨rfl, -⟩ := Job.runs_lift_iff.mp h₂
    rw [List.append_nil]
    exact checked_of_run h₁

end Pipeline

/-! ## Operations -/

theorem Operation.checked_of_runs {op : Operation} {answer : Answer}
    (h : Task.Runs (op.task s) es answer) :
    (op = .refresh ∧ ∃ r, Action.Runs (Discovery.run s) es r) ∨
      (op = .reset ∧ Body s false es) ∨ Checked s op.inParts es := by
  have hmap {β : Type} {j : Job β} {f : Except Fault β → Answer}
      (hruns : Task.Runs (f <$> j.run) es answer) : ∃ r, Job.Runs j es r := by
    obtain ⟨x, es₁, es₂, rfl, hx, hdone⟩ := Task.runs_bind_iff.mp hruns
    obtain ⟨rfl, -⟩ := Task.runs_done_iff.mp hdone
    exact ⟨x, by rwa [List.append_nil]⟩
  cases op with
  | execute c =>
    obtain ⟨r, hr⟩ := hmap h
    exact .inr (.inr (Dispatch.checked_of_execute hr))
  | route c routing =>
    obtain ⟨r, hr⟩ := hmap h
    exact .inr (.inr (Dispatch.checked_of_routeCommand hr))
  | pipeline p raise =>
    cases raise with
    | true =>
      obtain ⟨r, hr⟩ := hmap h
      exact .inr (.inr (Pipeline.checked_of_query hr))
    | false =>
      obtain ⟨r, hr⟩ := hmap h
      exact .inr (.inr (Pipeline.checked_of_run hr))
  | query p =>
    obtain ⟨r, hr⟩ := hmap h
    exact .inr (.inr (Pipeline.checked_of_query hr))
  | refresh =>
    obtain ⟨r, hr⟩ := hmap h
    exact .inl ⟨rfl, r, Job.runs_action_iff.mp hr⟩
  | reset =>
    obtain ⟨r, hr⟩ := hmap h
    exact .inr (.inl ⟨rfl, Dispatch.isBody_apply .startOver _ _ (Job.runs_action_iff.mp hr)⟩)

theorem Operation.body_of_runs {op : Operation} {answer : Answer}
    (h : Task.Runs (op.task s) es answer) :
    (op = .refresh ∧ ∃ r, Action.Runs (Discovery.run s) es r) ∨ Body s true es := by
  obtain hrefresh | ⟨-, hreset⟩ | hchecked := op.checked_of_runs h
  · exact .inl hrefresh
  · exact .inr hreset.weaken
  · exact .inr hchecked.body

end SlotCluster
