import SlotCluster.Proofs.Contacts
import SlotCluster.Proofs.PlainRequests

/-!
# Upkeep

What a client does to keep its registry up to date writes no commands of its callers. It asks about
the topology, and that is all it writes. A lookup writes nothing.
-/

namespace SlotCluster

variable {σ : Type}

namespace Request

/-- No link is taken from the pool, and what is written asks about the topology. -/
def IsUpkeep : Request → Prop
  | .write _ commands => AsksTopology commands
  | .checkout _ => False
  | _ => True

theorem Surveys.isUpkeep {r : Request} (h : r.Surveys) : r.IsUpkeep := by
  cases r
  case connect | read | close => trivial
  case write => exact h
  all_goals exact h.elim

theorem LooksUp.isUpkeep {r : Request} (h : r.LooksUp) : r.IsUpkeep := by
  cases r
  case registry | choose => trivial
  all_goals exact h.elim

end Request

open SlotCluster.Action

/-! ## Discovery -/

namespace Discovery

theorem admits_upkeep : Request.AdmitsDiscovery Request.IsUpkeep := by
  refine Request.admitsDiscovery_of (fun {r} hr => ?_) Request.Surveys.isUpkeep fun _ _ => trivial
  cases r with
  | registry | flagRefresh | takeRefresh | recordMove | lock | unlock => trivial
  | _ => exact hr.elim

theorem refreshIfNeeded_upkeep (s : Settings) : Uses Request.IsUpkeep (refreshIfNeeded s) :=
  refreshIfNeeded_uses admits_upkeep s

theorem patchMovedSlot_upkeep (s : Settings) (r : Redirect) :
    Uses Request.IsUpkeep (patchMovedSlot s r) :=
  patchMovedSlot_uses admits_upkeep s r

end Discovery

theorem Pipeline.patchAll_upkeep (s : Settings) (moves : List Redirect) :
    Uses Request.IsUpkeep (patchAll s moves) :=
  patchAll_uses Discovery.admits_upkeep s moves

/-! ## What is written -/

/-- The run has failed before it took any link from the pool. -/
def Unsent {α : Type} (es : List (Event σ)) (r : Except Fault α) : Prop :=
  (∃ f, r = .error f) ∧ ∀ e ∈ es, e.request.IsUpkeep

theorem Contact.written_cases [Transport σ] {node : String} {batch : List Command}
    {es : List (Event σ)} {r : Except Fault (List Reply)} (h : Contact node batch es r) :
    (∃ f, r = .error f ∧ (written es = [] ∨ written es = [[Command.readOnly]])) ∨
      written es = [batch] ∨ written es = [[Command.readOnly], batch] := by
  have hwritten : ∀ {opening : List (Event σ)} {link : Link} {write : Event σ}
      {reads : List (Event σ)} {last : Event σ}, Opening node opening →
      write.request = .write link batch → (∀ e ∈ reads, e.request = .read link) →
      last.request.written? = none →
      written (opening ++ write :: (reads ++ [last])) = [batch] ∨
        written (opening ++ write :: (reads ++ [last])) = [[Command.readOnly], batch] := by
    intro opening link write reads last hopen hwrite hreads hlast
    have hwrites : write.request.written? = some batch := by rw [hwrite, Request.written?]
    rcases hopen.greets with hgreets | hgreets
    · exact .inl (by simp [hgreets, hwrites, written_reads hreads, hlast])
    · exact .inr (by simp [hgreets, hwrites, written_reads hreads, hlast])
  cases h with
  | refused open_ => exact .inl ⟨_, rfl, open_.greets⟩
  | broken open_ link_ write_ reads_ last_ =>
    exact .inr (hwritten open_ write_ reads_ (by rw [last_]; rfl))
  | answered open_ link_ write_ reads_ all_ last_ =>
    exact .inr (hwritten open_ write_ (request_of_reads reads_) (by rw [last_]; rfl))

/-! ## How a pipeline begins -/

theorem exists_of_bind_ok {α β : Type} {x : Except Fault α} {f : α → Except Fault β} {v : β}
    (h : x >>= f = .ok v) : ∃ a, x = .ok a ∧ f a = .ok v := by
  cases x with
  | error g => cases h
  | ok a => exact ⟨a, rfl, h⟩

theorem Pipeline.forall₂_targets {commands : List Command} {targets : List SingleTarget}
    (h : Pipeline.targets commands = .ok targets) :
    List.Forall₂ (fun c target => singleTarget c = .ok target) commands targets := by
  induction commands generalizing targets with
  | nil =>
    cases h
    exact .nil
  | cons c rest ih =>
    unfold Pipeline.targets at h
    obtain ⟨target, htarget, h⟩ := exists_of_bind_ok h
    obtain ⟨others, hothers, h⟩ := exists_of_bind_ok h
    cases h
    exact .cons htarget (ih hothers)

namespace Pipeline

theorem exists_of_targets_error {commands : List Command} {f : Fault}
    (h : targets commands = .error f) :
    ∃ before c after, commands = before ++ c :: after ∧
      (∀ b ∈ before, ∃ target, singleTarget b = .ok target) ∧ singleTarget c = .error f := by
  induction commands with
  | nil => cases h
  | cons c rest ih =>
    unfold targets at h
    cases hc : singleTarget c with
    | error g =>
      rw [hc] at h
      cases h
      exact ⟨[], c, rest, rfl, by simp, hc⟩
    | ok target =>
      rw [hc] at h
      cases hrest : targets rest with
      | error g =>
        simp only [hrest, bind, Except.bind] at h
        cases h
        obtain ⟨before, d, after, rfl, hbefore, hd⟩ := ih hrest
        exact ⟨c :: before, d, after, rfl, List.forall_mem_cons.mpr ⟨⟨target, hc⟩, hbefore⟩, hd⟩
      | ok others =>
        simp only [hrest, bind, Except.bind] at h
        cases h

variable [Transport σ]

/-- A pipeline that stops before it looks for a node: one of its commands goes to no single target,
or the refresh of the registry fails. -/
inductive Stopped (s : Settings) (commands : List Command) : List (Event σ) → Fault → Prop
  | misrouted {before after : List Command} {c : Command} {f : Fault}
      (commands_ : commands = before ++ c :: after)
      (routed : ∀ b ∈ before, ∃ target, singleTarget b = .ok target)
      (fails : singleTarget c = .error f) : Stopped s commands [] f
  | unrefreshed {targets : List SingleTarget} {es : List (Event σ)} {f : Fault}
      (targets_ : Pipeline.targets commands = .ok targets)
      (fails : Runs (Discovery.refreshIfNeeded s) es (.error f)) : Stopped s commands es f

theorem Stopped.upkeep {s : Settings} {commands : List Command} {es : List (Event σ)} {f : Fault}
    (h : Stopped s commands es f) : ∀ e ∈ es, e.request.IsUpkeep := by
  cases h with
  | misrouted _ _ _ => simp
  | unrefreshed _ hfails => exact (Discovery.refreshIfNeeded_upkeep s).of_runs hfails

theorem Stopped.unsent {α : Type} {s : Settings} {commands : List Command} {es : List (Event σ)}
    {f : Fault} (h : Stopped s commands es f) : Unsent es (.error f : Except Fault α) :=
  ⟨⟨f, rfl⟩, h.upkeep⟩

/-- A pipeline routes all its commands and refreshes the registry before it sends anything. -/
theorem runs_run {s : Settings} {p : Pipeline} {es : List (Event σ)}
    {r : Except Fault (List (Except Fault Reply))} (h : Job.Runs (p.run s) es r) :
    (p.commands = [] ∧ es = [] ∧ r = .ok []) ∨ (∃ f, Stopped s p.commands es f ∧ r = .error f) ∨
      ∃ targets refresh rest, Pipeline.targets p.commands = .ok targets ∧ es = refresh ++ rest ∧
        Runs (Discovery.refreshIfNeeded s) refresh (.ok ()) ∧
        Job.Runs (if p.transaction then liftM (runTransaction s p.commands targets)
          else runParts s p.commands targets) rest r := by
  unfold run at h
  split at h
  · next hempty =>
    obtain ⟨rfl, rfl⟩ := Task.runs_done_iff.mp h
    exact .inl ⟨List.isEmpty_iff.mp hempty, rfl, rfl⟩
  refine .inr ?_
  obtain ⟨f, hf, rfl⟩ | ⟨targets, es₁, es₂, rfl, h₁, h₂⟩ := Job.runs_bind_iff.mp h
  · obtain ⟨rfl, hfails⟩ := Job.runs_lift_iff.mp hf
    obtain ⟨before, c, after, hcommands, hrouted, hc⟩ := exists_of_targets_error hfails.symm
    exact .inl ⟨f, .misrouted hcommands hrouted hc, rfl⟩
  obtain ⟨rfl, htargets⟩ := Job.runs_lift_iff.mp h₁
  rw [List.nil_append]
  obtain ⟨f, hf, rfl⟩ | ⟨_, refresh, rest, rfl, hrefresh, hrest⟩ := Job.runs_bind_iff.mp h₂
  · exact .inl ⟨f, .unrefreshed htargets.symm (Job.runs_action_iff.mp hf), rfl⟩
  · exact .inr ⟨targets, refresh, rest, htargets.symm, rfl, Job.runs_action_iff.mp hrefresh, hrest⟩

end Pipeline

end SlotCluster
