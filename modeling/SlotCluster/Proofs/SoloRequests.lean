import SlotCluster.Proofs.OperationFaults
import SlotCluster.Proofs.PoolAccounts

/-!
# Solo requests

When every task is done, every permit is free again. An operation that then runs alone, and never
has two programs at work, has one lease at most, so the pool has no reason to refuse it the next.
-/

namespace SlotCluster

variable {σ α β : Type}

/-! ## One program at a time -/

namespace Task

theorem eq_done_of_result {t : Task α} {a : α} (h : t.result? = some a) : t = .done a := by
  cases t with
  | done v => rw [Option.some.inj h]
  | call | gather => cases h

/-- The task never starts two programs at once. -/
def Straight : Task α → Prop
  | done _ => True
  | call _ next => ∀ a, Straight (next a)
  | gather programs next => programs.length ≤ 1 ∧ ∀ results, Straight (next results)

theorem straight_bind {t : Task α} {f : α → Task β} (ht : t.Straight)
    (hf : ∀ v, (f v).Straight) : (t.bind f).Straight := by
  induction t with
  | done v => exact hf v
  | call r next ih => exact fun a => ih a (ht a)
  | gather programs next ih => exact ⟨ht.1, fun results => ih results (ht.2 results)⟩

theorem straight_ofProgram (p : Program α) : (ofProgram p).Straight := by
  induction p with
  | done v => trivial
  | call r next ih => exact ih

theorem Path.straight {t t' : Task α} {es : List (Event σ)} [Transport σ] (h : Path t es t')
    (ht : t.Straight) : t'.Straight := by
  induction h with
  | refl => exact ht
  | answer _ asks ih =>
    cases asks with
    | call => exact ih _
    | inside before after r next k =>
      obtain ⟨hlength, hk⟩ := ih
      exact ⟨by simpa using hlength, hk⟩
  | collect _ _ ih => exact ih.2 _

theorem Path.meets {τ : Type} {C : Contract τ} {post : α → τ → Prop} {φ : τ} {t t' : Task α}
    {es : List (Event σ)} [Transport σ] (h : Path t es t') (ht : t.Meets C post φ)
    (honest : ∀ e ∈ es, ∀ ψ, C.Honest ψ e.request e.answer) : ∃ ψ, t'.Meets C post ψ := by
  induction h with
  | refl => exact ⟨φ, ht⟩
  | answer _ asks ih =>
    obtain ⟨hbefore, hlast⟩ := List.forall_mem_append.mp honest
    obtain ⟨ψ, hψ⟩ := ih hbefore
    exact ⟨_, (hψ.of_asks asks).2 _ (hlast _ (.head _) ψ)⟩
  | collect _ done ih =>
    obtain ⟨ψ, hψ⟩ := ih honest
    exact ⟨ψ, hψ.of_results done⟩

end Task

namespace Job

abbrev Straight (j : Job α) : Prop := Task.Straight j.run

theorem straight_bind {j : Job α} {f : α → Job β} (hj : Straight j)
    (hf : ∀ v, Straight (f v)) : Straight (j >>= f) := by
  refine Task.straight_bind hj ?_
  rintro (g | v)
  · trivial
  · exact hf v

theorem straight_lift (x : Except Fault α) : Straight (liftM x : Job α) := trivial

theorem straight_action (a : Action α) : Straight (liftM a : Job α) := Task.straight_ofProgram _

end Job

/-! ## Operations for one node -/

/-- The operation sends what it has to say to one node, and starts again from another one at
most. -/
def Operation.IsSingle : Operation → Prop
  | execute c => ∀ target policy, Routing.of c ≠ .ok (.multi target policy)
  | route _ routing => ∀ target policy, routing ≠ .multi target policy
  | pipeline p _ | query p => p.transaction = true
  | refresh | reset => True

theorem Dispatch.routeCommand_straight (s : Settings) (c : Command) (target : SingleTarget) :
    Job.Straight (routeCommand s c (.single target)) := by
  refine Job.straight_bind (Job.straight_lift _) fun _ => ?_
  refine Job.straight_bind (Job.straight_action _) fun _ => ?_
  exact Job.straight_bind (Job.straight_action _) fun _ => trivial

theorem Pipeline.run_straight (s : Settings) {p : Pipeline} (h : p.transaction = true) :
    Job.Straight (p.run s) := by
  unfold run
  split
  · trivial
  refine Job.straight_bind (Job.straight_lift _) fun targets => ?_
  refine Job.straight_bind (Job.straight_action _) fun _ => ?_
  exact Job.straight_action _

theorem Operation.IsSingle.straight {op : Operation} (h : op.IsSingle) (s : Settings) :
    (op.task s).Straight := by
  have hmap : ∀ {α : Type} {t : Task α} (f : α → Answer), t.Straight → (f <$> t).Straight :=
    fun f ht => Task.straight_bind ht fun _ => trivial
  have hquery : ∀ {p : Pipeline}, p.transaction = true → Job.Straight (p.query s) :=
    fun hp => Job.straight_bind (Pipeline.run_straight s hp) fun _ => Job.straight_lift _
  cases op with
  | execute c =>
    refine hmap _ ?_
    unfold Dispatch.execute
    cases hc : Routing.of c with
    | error f => trivial
    | ok routing =>
      cases routing with
      | single target => exact Dispatch.routeCommand_straight s c target
      | multi target policy => exact absurd hc (h target policy)
  | route c routing =>
    cases routing with
    | single target => exact hmap _ (Dispatch.routeCommand_straight s c target)
    | multi target policy => exact absurd rfl (h target policy)
  | pipeline p raise =>
    cases raise with
    | true => exact hmap _ (hquery h)
    | false => exact hmap _ (Pipeline.run_straight s h)
  | query p => exact hmap _ (hquery h)
  | refresh | reset => exact hmap _ (Job.straight_action _)

/-! ## Permits for one -/

/-- If a strand makes a request and another one is at work, the task has more than one program. -/
theorem Task.SharesFrom.of_two {τ : Type} {P : Protocol τ} {rest : τ} {φ : Option Nat → τ}
    {t : Task α} (h : t.SharesFrom P rest φ) {program other : Option Nat} {r : Request}
    {next : r.Answer → Task α} (asks : t.AsksAt program r next) (hmine : φ program = rest)
    (hother : φ other ≠ rest) :
    ∃ programs next', t = .gather programs next' ∧ 1 < programs.length := by
  cases asks with
  | call =>
    obtain ⟨-, hrest⟩ := h
    cases other with
    | none => exact absurd hmine hother
    | some j => exact absurd (hrest j) hother
  | inside before after r next k =>
    obtain ⟨hnone, hprograms, -⟩ := h
    refine ⟨_, _, rfl, ?_⟩
    cases other with
    | none => exact absurd hnone hother
    | some j =>
      have hj : j ≠ before.length := by
        rintro rfl
        exact hother hmine
      have hlt : j < (before ++ .call r next :: after).length := by
        by_contra hge
        have hjth := hprograms j
        rw [List.getElem?_eq_none (Nat.le_of_not_lt hge)] at hjth
        exact hother hjth
      rw [List.length_append, List.length_cons] at hlt ⊢
      omega

/-- No lease is out, and every permit is there. -/
structure Pool.AllFree (total perNode : Nat) (p : Pool) : Prop where
  holdings : p.holdings = []
  free : p.free = total
  nodeFree (node : String) : p.freeAt node = perNode

theorem Accounts.allFree {total perNode : Nat} {p : Pool} (h : Accounts total perNode p)
    (hnone : p.holdings = []) : p.AllFree total perNode := by
  refine ⟨hnone, ?_, fun node => ?_⟩
  · have hpermits := h.permits
    rwa [hnone] at hpermits
  · have hnode := h.nodePermits node
    rwa [Pool.outAt, hnone] at hnode

theorem Settings.permits_of_check {s : Settings} {addresses : List String} {seeds : List Node}
    (h : s.check addresses = .ok seeds) : s.maxConnections ≠ 0 ∧ s.maxConnectionsPerNode ≠ 0 := by
  unfold check at h
  split at h
  · cases h
  · split at h
    · cases h
    · split at h
      · cases h
      · next hpermits => exact not_or.mp hpermits

variable [Transport σ]

/-- The pool has refused a lease. -/
def Event.IsRefusal (e : Event σ) : Prop :=
  ∃ node f, e.request = .checkout node ∧ (e.client.checkout e.task node).1 = .error f

namespace Moment

variable {s : Settings} {seeds : List Node} {network : σ} {choices : Nat → Nat}
  {es es' : List (Event σ)} {S S' : Moment σ Answer}

/-- The operation has begun, and has not asked for anything yet. -/
abbrev begun (S : Moment σ Answer) (op : Operation) : Moment σ Answer :=
  ⟨S.tasks ++ [op.task S.client.settings], S.client⟩

def AllDone (S : Moment σ Answer) : Prop := ∀ t ∈ S.tasks, ∃ a, t = .done a

omit [Transport σ] in
theorem allDone_of_results (h : S.tasks.all fun t => t.result?.isSome) : S.AllDone := by
  intro t ht
  obtain ⟨a, ha⟩ := Option.isSome_iff_exists.mp (List.all_eq_true.mp h t ht)
  exact ⟨a, Task.eq_done_of_result ha⟩

/-- On the way no task ever has two programs at work. -/
def StaysAtOneNode (S : Moment σ Answer) (es : List (Event σ)) : Prop :=
  ∀ (before : List (Event σ)) (M : Moment σ Answer) (programs : List (Program BatchResult))
    (next : List BatchResult → Task Answer), before <+: es → Run S before M →
      .gather programs next ∈ M.tasks → programs.length ≤ 1

section Alone

variable (hdone : S.AllDone)
include hdone

theorem Run.tasks_alone {op : Operation} (h : Run (S.begun op) es S') :
    ∃ u, S'.tasks = S.tasks ++ [u] ∧
      (op.task S.client.settings).Path (Event.of S.tasks.length es) u := by
  obtain ⟨u, hu, -⟩ := h.last_keeps (Q := fun _ _ => True) hdone trivial (fun _ _ => trivial)
    (fun _ _ => trivial) fun _ _ _ _ => trivial
  obtain ⟨v, hv, hpath⟩ := h.path (i := S.tasks.length) (t := op.task S.client.settings) (by simp)
  rw [hu] at hv
  obtain rfl : u = v := by simpa using hv
  exact ⟨u, hu, hpath⟩

theorem staysAtOneNode_of_single {op : Operation} (hop : op.IsSingle) :
    (S.begun op).StaysAtOneNode es := by
  intro before M programs next _ h hmem
  obtain ⟨u, hu, hpath⟩ := h.tasks_alone hdone
  rw [hu] at hmem
  rcases List.mem_append.mp hmem with hmem | hmem
  · obtain ⟨a, ha⟩ := hdone _ hmem
    cases ha
  · have hstraight := hpath.straight (hop.straight _)
    rw [← List.mem_singleton.mp hmem] at hstraight
    exact hstraight.1

theorem Course.programs_of_refusal (h : Course ⟨[], Client.new s seeds network choices⟩ es S')
    (hpermits : s.maxConnections ≠ 0 ∧ s.maxConnectionsPerNode ≠ 0) {u : Task Answer}
    (htasks : S'.tasks = S.tasks ++ [u]) {node : String} {next : _ → Task Answer}
    (asks : u.Asks (.checkout node) next) {f : Fault}
    (refused : (S'.client.checkout S.tasks.length node).1 = .error f) :
    ∃ programs next', u = .gather programs next' ∧ 1 < programs.length := by
  obtain ⟨k, hhands, hledger, hbalanced⟩ := h.books
  -- Somebody has a lease.
  obtain ⟨a, ha⟩ : ∃ a, a ∈ S'.client.pool.holdings := by
    refine List.exists_mem_of_length_pos (Nat.pos_of_ne_zero fun hnone => ?_)
    have hout : S'.client.pool.outAt node = 0 := by
      rw [Pool.outAt, List.length_eq_zero_iff.mp hnone, List.countP_nil]
    rcases (hbalanced.refused_iff hledger _ node).mp ⟨f, refused⟩ with hfull | hfull <;> omega
  obtain ⟨⟨i, other⟩, -, hlease⟩ := hledger.held a ha
  have hsome : k ⟨i, other⟩ ≠ .nothing := by
    intro hnothing
    rw [hnothing] at hlease
    cases hlease
  have hi : i < S'.tasks.length := by
    by_contra hge
    exact hsome (hhands.others i other (by omega))
  obtain ⟨v, hv⟩ : ∃ v, S'.tasks[i]? = some v := ⟨_, List.getElem?_eq_getElem hi⟩
  have hlast := hv
  rw [htasks] at hlast
  obtain ⟨rfl, rfl⟩ := Task.last_of_busy hdone hlast (by
    rintro answer rfl
    exact hsome ((hhands.tasks i _ hv).of_done other))
  obtain ⟨program, asks⟩ := Task.asks_iff.mp asks
  have hshares := hhands.tasks _ u hv
  exact hshares.of_two asks (hshares.of_asksAt asks).1 hsome

theorem Course.not_refused (h : Course ⟨[], Client.new s seeds network choices⟩ es S)
    (hpermits : s.maxConnections ≠ 0 ∧ s.maxConnectionsPerNode ≠ 0) {op : Operation}
    (hrun : Run (S.begun op) es' S') (hsingle : (S.begun op).StaysAtOneNode es') :
    ∀ e ∈ es', ¬e.IsRefusal := by
  rintro e he ⟨node, f, hrequest, hrefused⟩
  obtain ⟨before, after, rfl⟩ := List.append_of_mem he
  obtain ⟨M, M', hbefore, hstep, -⟩ := hrun.split_at
  obtain ⟨u, hu, -⟩ := hbefore.tasks_alone hdone
  cases hstep with
  | @answer i v r next task asks free =>
    obtain rfl : r = .checkout node := hrequest
    rw [hu] at task
    obtain ⟨rfl, rfl⟩ := Task.last_of_busy hdone task asks.busy
    obtain ⟨programs, next', rfl, hmany⟩ :=
      ((h.begun op).run hbefore).programs_of_refusal hdone hpermits hu asks hrefused
    have hmem : Task.gather programs next' ∈ M.tasks := by simp [hu]
    exact absurd (hsingle _ _ _ _ (List.prefix_append ..) hbefore hmem) (Nat.not_le.mpr hmany)

theorem Run.kind_of_answer {op : Operation} (h : Run (S.begun op) es S')
    (hnetwork : Transport.FailsOnly σ fun f => f.kind ≠ .poolExhausted)
    (hleases : ∀ e ∈ es, ¬e.IsRefusal) {answer : Answer}
    (hanswer : S'.tasks[S.tasks.length]? = some (.done answer)) :
    ∀ f ∈ answer.faults, f.kind ≠ .poolExhausted := by
  obtain ⟨u, hu, hpath⟩ := h.tasks_alone hdone
  obtain rfl : u = .done answer := by simpa [hu] using hanswer
  have honest : ∀ e ∈ Event.of S.tasks.length es, ∀ ψ,
      (faultContract (fun f => f.kind ≠ .poolExhausted) fun f => f.kind ≠ .poolExhausted).Honest ψ
        e.request e.answer := by
    intro e he ψ
    refine faultContract_honest hnetwork e (fun _ => .inl fun slot => nofun) ?_
    intro node hnode f hf
    exact absurd ⟨node, f, hnode, hf⟩ (hleases e (Event.mem_of_iff.mp he).1)
  obtain ⟨ψ, hfaults⟩ := hpath.meets (φ := false) (op.task_meets (fun _ hf => hf)
    (fun f hf => hf.2.2) (fun f hf => by rw [hf]; decide) (.inl fun slot => nofun) _) honest
  exact hfaults

end Alone

/-- The permits add up at any time, whatever leases were taken, refused, given back or dropped. So
when every task is done they are all there. An operation for one node that runs alone then is never
refused a lease, and its caller never hears of one. -/
theorem Course.permits_add_up {addresses : List String} (hcheck : s.check addresses = .ok seeds) :
    (∀ (es : List (Event σ)) (c : Client σ) (k : Strand → Grip),
      Dealings (Client.new s seeds network choices) (fun _ => .nothing) es c k →
        Accounts s.maxConnections s.maxConnectionsPerNode c.pool) ∧
    ∀ (es : List (Event σ)) (S : Moment σ Answer),
      Course ⟨[], Client.new s seeds network choices⟩ es S →
        Accounts s.maxConnections s.maxConnectionsPerNode S.client.pool ∧
        (S.AllDone →
          S.client.pool.AllFree s.maxConnections s.maxConnectionsPerNode ∧
          ∀ (op : Operation) (es' : List (Event σ)) (S' : Moment σ Answer),
            Run (S.begun op) es' S' → op.IsSingle ∨ (S.begun op).StaysAtOneNode es' →
              (∀ e ∈ es', ¬e.IsRefusal) ∧
              (Transport.FailsOnly σ (fun f => f.kind ≠ .poolExhausted) →
                ∀ answer, S'.tasks[S.tasks.length]? = some (.done answer) →
                  ∀ f ∈ answer.faults, f.kind ≠ .poolExhausted)) := by
  have hstart : Ledger (Client.new s seeds network choices).pool fun _ => .nothing :=
    Ledger.new _ _
  refine ⟨fun es c k h => (h.balanced hstart (Balanced.new _ _)).accounts (h.ledger hstart), ?_⟩
  intro es S h
  obtain ⟨k, hhands, hledger, hbalanced⟩ := h.books
  have haccounts := hbalanced.accounts hledger
  refine ⟨haccounts, fun hdone => ⟨haccounts.allFree ?_, fun op es' S' hrun hone => ?_⟩⟩
  · refine List.eq_nil_iff_forall_not_mem.mpr fun a ha => ?_
    obtain ⟨x, -, hx⟩ := hledger.held a ha
    rw [hhands.nothing_of_done hdone] at hx
    cases hx
  · have hleases : ∀ e ∈ es', ¬e.IsRefusal := by
      refine h.not_refused hdone (Settings.permits_of_check hcheck) hrun ?_
      exact hone.elim (staysAtOneNode_of_single hdone) id
    exact ⟨hleases, fun hnetwork answer hanswer =>
      hrun.kind_of_answer hdone hnetwork hleases hanswer⟩

/-- With one permit in all, a client asks two nodes one after the other. -/
theorem Course.permits_add_up_one :
    let s : Settings := { maxConnections := 1, maxConnectionsPerNode := 1 }
    let seeds := [Node.new "a" 1 .master]
    let c := Client.new s seeds (⟨0, [.array [], .okay, .okay]⟩ : Canned) fun _ => 0
    let ask := fun host port =>
      Operation.route (Command.ofWords ["PING"]) (.single (.address host port))
    let first := (Moment.begun ⟨[], c⟩ (ask "a" 1)).play (List.replicate 30 0)
    let second := (first.2.begun (ask "b" 2)).play (List.replicate 30 1)
    s.check ["a:1"] = .ok seeds ∧ Course ⟨[], c⟩ first.1 first.2 ∧ first.2.AllDone ∧
      (ask "b" 2).IsSingle ∧ Transport.FailsOnly Canned (fun f => f.kind ≠ .poolExhausted) ∧
      first.2.client.pool.AllFree 1 1 ∧ first.2.client.pool.idleCount "a:1" = 1 ∧
      (∀ e ∈ second.1, ¬e.IsRefusal) ∧ second.2.client.pool.idleCount "b:2" = 1 ∧
      Accounts 1 1 second.2.client.pool ∧
      ∃ answer, second.2.tasks[1]? = some (.done answer) ∧
        ∀ f ∈ answer.faults, f.kind ≠ .poolExhausted := by
  intro s seeds c ask first second
  have hcheck : s.check ["a:1"] = .ok seeds := by rfl
  have hcourse : Course ⟨[], c⟩ first.1 first.2 := by
    simpa using (Course.refl.begun (ask "a" 1)).run (run_play _ _)
  have hdone : first.2.AllDone := allDone_of_results (by decide +kernel)
  have hsingle : (ask "b" 2).IsSingle := fun _ _ => nofun
  have hnetwork : Transport.FailsOnly Canned (fun f => f.kind ≠ .poolExhausted) :=
    Canned.failsOnly nofun
  have hsecond : Run (first.2.begun (ask "b" 2)) second.1 second.2 := run_play _ _
  obtain ⟨hfree, hsolo⟩ := ((permits_add_up hcheck).2 _ _ hcourse).2 hdone
  obtain ⟨hleases, hkinds⟩ := hsolo _ _ _ hsecond (.inl hsingle)
  have haccounts := ((permits_add_up hcheck).2 _ _ ((hcourse.begun _).run hsecond)).1
  have hlast : first.2.tasks.length = 1 := by decide +kernel
  have hlength : 1 < second.2.tasks.length := by decide +kernel
  have hanswered : second.2.AllDone := allDone_of_results (by decide +kernel)
  obtain ⟨answer, hdone'⟩ := hanswered _ (List.getElem_mem hlength)
  have hanswer : second.2.tasks[1]? = some (.done answer) := by
    rw [List.getElem?_eq_getElem hlength, hdone']
  refine ⟨hcheck, hcourse, hdone, hsingle, hnetwork, hfree, by decide +kernel, hleases,
    by decide +kernel, haccounts, answer, hanswer, hkinds hnetwork answer ?_⟩
  rw [hlast, hanswer]

end Moment

end SlotCluster
