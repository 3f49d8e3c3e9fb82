import SlotCluster.Proofs.PendingRefresh

/-!
# A discovery in flight

A task that finds a discovery asked for waits for it at the lock. But the request is taken down as
soon as a task takes it, so a task that comes after that finds nothing to wait for, as long as some
slots are known.
-/

namespace SlotCluster

variable {σ α : Type} [Transport σ]

/-! ## Where commands begin -/

namespace Task

theorem map_begins {β : Type} {t : Task α} {p : Program β} {k : β → Task α} (f : α → Answer)
    (h : t = (ofProgram p).bind k) : ∃ k', f <$> t = (ofProgram p).bind k' := by
  refine ⟨fun v => (k v).bind fun a => .done (f a), ?_⟩
  rw [h, ← bind_assoc]
  rfl

end Task

theorem Dispatch.routeCommand_of_name (s : Settings) {c : Command} {name : Bytes}
    (h : Words.checkedName (Routable.words c) = .ok name) (routing : Routing) :
    ∃ k, (routeCommand s c routing).run =
      (Task.ofProgram (Discovery.refreshIfNeeded s).run).bind k := by
  unfold routeCommand
  rw [h]
  exact ⟨_, rfl⟩

theorem Dispatch.routeCommand_begins (s : Settings) (c : Command) (routing : Routing) :
    (∃ f, (routeCommand s c routing).run = .done (.error f)) ∨
      ∃ k, (routeCommand s c routing).run =
        (Task.ofProgram (Discovery.refreshIfNeeded s).run).bind k := by
  cases hname : Words.checkedName (Routable.words c) with
  | error f =>
    unfold routeCommand
    rw [hname]
    exact .inl ⟨f, rfl⟩
  | ok name => exact .inr (routeCommand_of_name s hname routing)

theorem Dispatch.execute_begins (s : Settings) (c : Command) :
    (∃ f, (execute s c).run = .done (.error f)) ∨
      ∃ k, (execute s c).run = (Task.ofProgram (Discovery.refreshIfNeeded s).run).bind k := by
  unfold execute
  cases Routing.of c with
  | error f => exact .inl ⟨f, rfl⟩
  | ok routing => exact routeCommand_begins s c routing

theorem Pipeline.run_begins (s : Settings) (p : Pipeline) :
    (∃ r, (p.run s).run = .done r) ∨
      ∃ k, (p.run s).run = (Task.ofProgram (Discovery.refreshIfNeeded s).run).bind k := by
  unfold run
  split
  · exact .inl ⟨_, rfl⟩
  · cases targets p.commands with
    | error f => exact .inl ⟨_, rfl⟩
    | ok targets => exact .inr ⟨_, rfl⟩

theorem Pipeline.query_begins (s : Settings) (p : Pipeline) :
    (∃ r, (p.query s).run = .done r) ∨
      ∃ k, (p.query s).run = (Task.ofProgram (Discovery.refreshIfNeeded s).run).bind k := by
  have hbind : (p.query s).run = (p.run s).run.bind (ExceptT.bindCont fun rs => raise rs) := rfl
  rw [hbind]
  rcases run_begins s p with ⟨r, hr⟩ | ⟨k, hk⟩
  · rw [hr]
    cases r <;> exact .inl ⟨_, rfl⟩
  · rw [hk, Task.bind_assoc]
    exact .inr ⟨_, rfl⟩

theorem Operation.begins (s : Settings) (op : Operation) :
    (∃ a, op.task s = .done a) ∨
      (∃ k, op.task s = (Task.ofProgram (Discovery.refreshIfNeeded s).run).bind k) ∨
      op = .refresh ∨ op = .reset := by
  have hmap : ∀ {β : Type} {t : Task β} (f : β → Answer),
      ((∃ r, t = .done r) ∨
        ∃ k, t = (Task.ofProgram (Discovery.refreshIfNeeded s).run).bind k) →
      (∃ a, f <$> t = .done a) ∨
        ∃ k, f <$> t = (Task.ofProgram (Discovery.refreshIfNeeded s).run).bind k := by
    rintro β t f (⟨r, rfl⟩ | ⟨k, hk⟩)
    · exact .inl ⟨_, rfl⟩
    · exact .inr (Task.map_begins f hk)
  cases op with
  | refresh => exact .inr (.inr (.inl rfl))
  | reset => exact .inr (.inr (.inr rfl))
  | execute c =>
    rw [← or_assoc]
    refine .inl (hmap Answer.reply ?_)
    rcases Dispatch.execute_begins s c with ⟨f, hf⟩ | h
    · exact .inl ⟨_, hf⟩
    · exact .inr h
  | route c routing =>
    rw [← or_assoc]
    refine .inl (hmap Answer.reply ?_)
    rcases Dispatch.routeCommand_begins s c routing with ⟨f, hf⟩ | h
    · exact .inl ⟨_, hf⟩
    · exact .inr h
  | pipeline p raise =>
    rw [← or_assoc]
    cases raise with
    | true => exact .inl (hmap _ (Pipeline.query_begins s p))
    | false => exact .inl (hmap _ (Pipeline.run_begins s p))
  | query p =>
    rw [← or_assoc]
    exact .inl (hmap _ (Pipeline.query_begins s p))

namespace Moment

variable {S₀ S S' : Moment σ α} {es es' : List (Event σ)}

/-! ## Duties -/

theorem duty_of_no_unlock {i : Nat} (hi : duty i es ≠ .outside)
    (h : ∀ e ∈ es', e.task = i → e.request ≠ .unlock) : duty i (es ++ es') ≠ .outside := by
  induction es' using List.reverseRecOn with
  | nil => simpa using hi
  | append_singleton init e ih =>
    have hinit := ih fun e' he' => h e' (by simp [he'])
    have hlast := h e (by simp)
    rw [← List.append_assoc, duty_snoc]
    split
    · next htask =>
      have hunlock := hlast htask
      obtain ⟨j, r, c⟩ := e
      cases r with
      | unlock => exact absurd rfl hunlock
      | lock => exact Duty.noConfusion
      | takeRefresh =>
        change (if _ then Duty.owing else duty i (es ++ init)) ≠ .outside
        split
        · exact Duty.noConfusion
        · exact hinit
      | flagRefresh | install => exact fun hd => hinit ((Duty.settled_eq_outside_iff _).mp hd)
      | _ => exact hinit
    · exact hinit

/-! ## Requests that are owed -/

/-- A task that owes a discovery gives the lock back. -/
def GivesUp (es es' : List (Event σ)) : Prop :=
  ∃ quiet e rest, es' = quiet ++ e :: rest ∧ e.request = .unlock ∧
    duty e.task (es ++ quiet) = .owing

/-- What has become of a request for a discovery that was made or taken by the end of `es`: it is
still pending, a task owes it, it was met, or it was given up. -/
def Accounted (es es' : List (Event σ)) (c : Client σ) : Prop :=
  c.registry.refreshPending = true ∨ (∃ x, duty x (es ++ es') = .owing) ∨
    (∃ e ∈ es', e.request.installs = true) ∨ GivesUp es es'

theorem Accounted.step {e : Event σ} (h : Accounted es es' e.client)
    (hallows : refreshProtocol.Allows (duty e.task (es ++ es')) e.request) :
    Accounted es (es' ++ [e]) e.after := by
  have hduty : ∀ x, duty x (es ++ (es' ++ [e])) =
      if e.task = x then refreshProtocol.next (duty x (es ++ es')) e.request e.answer
      else duty x (es ++ es') := by
    intro x
    rw [← List.append_assoc, duty_snoc]
  have hpending : e.after.registry.refreshPending =
      e.request.pending e.client.registry.refreshPending := Client.answer_refreshPending _ _ _
  have hmem : e ∈ es' ++ [e] := by simp
  rcases h with h | ⟨x, hx⟩ | ⟨d, hd, hinstall⟩ | ⟨quiet, d, rest, rfl, hunlock, howing⟩
  · -- It is pending. Whoever takes it down owes it or has met it.
    rw [h] at hpending
    obtain ⟨j, r, c⟩ := e
    cases r with
    | takeRefresh =>
      refine .inr (.inl ⟨j, ?_⟩)
      rw [hduty j, if_pos rfl]
      have htaken : (c.answer j .takeRefresh).1 = true := h
      change (if (c.answer j .takeRefresh).1 then Duty.owing else duty j (es ++ es')) = .owing
      rw [if_pos htaken]
    | install topology required => exact .inr (.inr (.inl ⟨_, hmem, rfl⟩))
    | _ => exact .inl hpending
  · -- A task owes it, and keeps to the rules.
    by_cases hj : e.task = x
    · subst hj
      rw [hx] at hallows
      obtain ⟨j, r, c⟩ := e
      cases r with
      | lock => cases hallows
      | takeRefresh => cases hallows
      | unlock => exact .inr (.inr (.inr ⟨es', _, [], rfl, rfl, hx⟩))
      | install topology required => exact .inr (.inr (.inl ⟨_, hmem, rfl⟩))
      | flagRefresh => exact .inl hpending
      | _ =>
        refine .inr (.inl ⟨j, ?_⟩)
        rw [hduty j, if_pos rfl]
        exact hx
    · exact .inr (.inl ⟨x, by rw [hduty x, if_neg hj, hx]⟩)
  · exact .inr (.inr (.inl ⟨d, by simp [hd], hinstall⟩))
  · exact .inr (.inr (.inr ⟨quiet, d, rest ++ [e], by simp, hunlock, howing⟩))

theorem Orderly.accounted (hS : S₀.Orderly) (h₁ : Run S₀ es S) (h₂ : Run S es' S')
    (h : S.client.registry.refreshPending = true ∨ ∃ x, duty x es = .owing) :
    Accounted es es' S'.client := by
  induction h₂ with
  | refl =>
    rcases h with h | ⟨x, hx⟩
    · exact .inl h
    · exact .inr (.inl ⟨x, by rwa [List.append_nil]⟩)
  | quiet _ step ih =>
    cases step with
    | wait =>
      unfold Accounted
      rw [Client.enqueue_registry]
      exact ih
    | collect | pass => exact ih
  | event hrun step ih =>
    have hall := h₁.trans (hrun.event step)
    rw [← List.append_assoc] at hall
    have hallows := hS.allows hall
    cases step with
    | answer task asks free => exact Accounted.step ih hallows

/-! ## Arrivals -/

theorem refreshIfNeeded_asks (s : Settings) (k : Except Fault Unit → Task α) :
    ∃ next, (Task.ofProgram (Discovery.refreshIfNeeded s).run).bind k = .call .registry next ∧
      ∀ r, (Discovery.isReady r = true → next r = k (.ok ())) ∧
        (Discovery.isReady r = false → ∃ more, next r = .call .lock more) := by
  refine ⟨_, rfl, ?_⟩
  intro r
  change (_ → (Task.ofProgram (ExceptT.run
      (if r.isInitialized = true ∧ (!r.refreshPending) = true then pure ()
        else Discovery.locked (Discovery.runIfDue s)))).bind k = k (.ok ())) ∧
    (_ → ∃ more, (Task.ofProgram (ExceptT.run
      (if r.isInitialized = true ∧ (!r.refreshPending) = true then pure ()
        else Discovery.locked (Discovery.runIfDue s)))).bind k = .call .lock more)
  unfold Discovery.isReady
  constructor
  · intro hr
    rw [if_pos (by simpa using hr)]
    rfl
  · intro hr
    rw [if_neg (by simpa using hr)]
    exact ⟨_, rfl⟩

theorem Orderly.waits (hS : S₀.Orderly) (h₁ : Run S₀ es S) {x b : Nat} {t : Task α}
    {next : Unit → Task α} (hx : duty x es ≠ .outside) (ht : t = .call .lock next)
    (hb : S.tasks[b]? = some t) (h₂ : Run S es' S')
    (hin : ∀ e ∈ es', e.task = x → e.request ≠ .unlock) : Event.of b es' = [] := by
  subst ht
  by_cases hnone : Event.of b es' = []
  · exact hnone
  exfalso
  obtain ⟨quiet, e, rest, rfl, hquiet, he⟩ := Event.of_ne_nil hnone
  obtain ⟨M, M', hbefore, hstep, -⟩ := h₂.split_at
  -- The first thing the task can do is to get the lock, which the other one has.
  have hlock : e.request = .lock := by
    obtain ⟨t', -, hpath⟩ := (hbefore.event hstep).path hb
    rw [Event.of_append, hquiet, Event.of_cons, if_pos he] at hpath
    obtain ⟨h, -⟩ | ⟨i, c, more, hes, -⟩ := hpath.of_call
    · simp at h
    · simp only [List.nil_append, List.cons.injEq] at hes
      rw [hes.1]
  have hduty : duty x (es ++ quiet) ≠ .outside :=
    duty_of_no_unlock hx fun e' he' => hin e' (by simp [he'])
  have hholder := hS.holder (h₁.trans hbefore) x hduty
  have hall := h₁.trans (hbefore.event hstep)
  rw [← List.append_assoc] at hall
  have hallows := hS.allows hall
  cases hstep with
  | @answer j u r k task asks free =>
    simp only at hlock he hallows
    subst hlock he
    have hj : M.client.lock.holder = some j := by simpa [Client.blocks] using free
    obtain rfl : x = j := Option.some.inj (hholder.symm.trans hj)
    exact hduty hallows

theorem path_of_arrival {s : Settings} {b : Nat} {c : Client σ} {k : Except Fault Unit → Task α}
    {t : Task α}
    (h : ((Task.ofProgram (Discovery.refreshIfNeeded s).run).bind k).Path (⟨b, .registry, c⟩ :: es)
      t) :
    (Discovery.isReady c.registry = true → (k (.ok ())).Path es t) ∧
      (Discovery.isReady c.registry = false → ∃ more, (Task.call .lock more).Path es t) := by
  obtain ⟨next, hnext, hafter⟩ := refreshIfNeeded_asks s k
  rw [hnext] at h
  obtain ⟨hes, -⟩ | ⟨i, d, rest, hes, hpath⟩ := h.of_call
  · cases hes
  · cases hes
    have hpath' : (next c.registry).Path es t := hpath
    constructor
    · intro hready
      rwa [(hafter c.registry).1 hready] at hpath'
    · intro hneeded
      obtain ⟨more, hmore⟩ := (hafter c.registry).2 hneeded
      exact ⟨more, by rwa [hmore] at hpath'⟩

theorem installs_of_retried {s : Settings} (h : Discovery.Retried s es (.ok ()))
    (hmem : ∀ e ∈ es, e ∈ es') : ∃ e ∈ es', e.request.installs = true := by
  cases h with
  | installed h =>
    obtain ⟨e, he, hinstall⟩ := Discovery.installs_of_run h
    exact ⟨e, hmem e he, hinstall⟩

/-- Where a task finds no request to take, an earlier one was met or given up. -/
theorem accounted_of_take {e₀ : Event σ} {j : Nat} {d : Client σ} (hS : S₀.Orderly)
    (h₁ : Run S₀ es S)
    (hrequested : S.client.registry.refreshPending = true ∨ ∃ x, duty x es = .owing)
    (hpending : d.registry.refreshPending = false)
    (hin : (⟨j, .takeRefresh, d⟩ : Event σ) ∈ es') (h₂ : Run S (e₀ :: es') S') :
    (∃ e ∈ e₀ :: es', e.request.installs = true) ∨ GivesUp es (e₀ :: es') := by
  obtain ⟨before, after, rfl⟩ := List.append_of_mem hin
  rw [← List.cons_append] at h₂
  obtain ⟨N, N', hN, hstep, -⟩ := h₂.split_at
  have hd : N.client = d := hstep.client_eq
  have hall := h₁.trans (hN.event hstep)
  rw [← List.append_assoc] at hall
  have hinside : duty j (es ++ e₀ :: before) = .inside := hS.allows hall
  rcases hS.accounted h₁ hN hrequested with
    h | ⟨x, hx⟩ | ⟨e, he, hinstall⟩ | ⟨quiet, e, rest, hes, h⟩
  · rw [hd, hpending] at h
    cases h
  · obtain rfl := hS.unique (h₁.trans hN) (i := x) (j := j) (by simp [hx]) (by simp [hinside])
    rw [hx] at hinside
    cases hinside
  · exact .inl ⟨e, by rw [← List.cons_append]; exact List.mem_append_left _ he, hinstall⟩
  · refine .inr ⟨quiet, e, rest ++ ⟨j, .takeRefresh, d⟩ :: after, ?_, h⟩
    rw [← List.cons_append, hes, List.append_assoc, List.cons_append]

/-- A task comes to where commands begin when a discovery has been asked for, and perhaps taken by
another task. If it finds slots and no request it goes on at once, with the slots that the discovery
is about to replace. Otherwise it does nothing while the other task is inside the lock, and it goes
on only if a discovery was installed since, or the other task has given the request up. -/
theorem goes_on_or_waits {s : Settings} {ops : List Operation} {c₀ c : Client σ}
    {S S' : Moment σ Answer} {b : Nat} {k : Except Fault Unit → Task Answer}
    (h₁ : Run ⟨ops.map fun op => op.task s, c₀⟩ es S)
    (hrequested : S.client.registry.refreshPending = true ∨ ∃ x, duty x es = .owing)
    (hb : S.tasks[b]? = some ((Task.ofProgram (Discovery.refreshIfNeeded s).run).bind k))
    (h₂ : Run S (⟨b, .registry, c⟩ :: es') S') :
    (Discovery.isReady c.registry = true → (∃ x, duty x es = .owing) ∧
      ∃ t, S'.tasks[b]? = some t ∧ (k (.ok ())).Path (Event.of b es') t) ∧
    (Discovery.isReady c.registry = false →
      (∀ x, duty x es ≠ .outside → (∀ e ∈ es', e.task = x → e.request ≠ .unlock) →
        Event.of b es' = []) ∧
      (Action.Runs (Discovery.refreshIfNeeded s) (⟨b, .registry, c⟩ :: Event.of b es') (.ok ()) →
        (∃ e ∈ es', e.request.installs = true) ∨ GivesUp es (⟨b, .registry, c⟩ :: es'))) := by
  have hS := orderly_of_operations s ops c₀
  have hcut : Run S ([] ++ ⟨b, .registry, c⟩ :: es') S' := h₂
  -- The check of this task is the first event, so its path can be cut behind it.
  obtain ⟨M, M', hM, hstep, h₃⟩ := hcut.split_at
  have hc : M.client = c := hstep.client_eq
  have hfirst : Run S [⟨b, .registry, c⟩] M' := hM.event hstep
  constructor
  · intro hready
    constructor
    · rcases hrequested with hpending | howing
      · have hsame := hM.refreshPending
        rw [hc, pendingAfter_nil, hpending] at hsame
        simp [Discovery.isReady, hsame] at hready
      · exact howing
    · obtain ⟨t, ht, hpath⟩ := h₂.path hb
      rw [Event.of_cons, if_pos rfl] at hpath
      exact ⟨t, ht, (path_of_arrival hpath).1 hready⟩
  · intro hneeded
    constructor
    · intro x hx hin
      obtain ⟨t, ht, hpath⟩ := hfirst.path hb
      rw [Event.of_cons, if_pos rfl] at hpath
      obtain ⟨more, hmore⟩ := (path_of_arrival hpath).2 hneeded
      obtain ⟨-, rfl⟩ | ⟨_, _, _, hnil, -⟩ := hmore.of_call
      · refine hS.waits (h₁.trans hfirst) (duty_of_no_unlock hx ?_) rfl ht h₃ hin
        simp
      · cases hnil
    · intro hruns
      have howner : ∀ e ∈ Event.of b es', e ∈ es' := fun e he => (Event.mem_of_iff.mp he).1
      obtain ⟨i, d, rest, hes, hrest⟩ := Discovery.runs_refreshIfNeeded_iff.mp hruns
      cases hes
      rw [if_neg (by simp [hneeded])] at hrest
      obtain ⟨lock, inner, unlock, hof, -, -, hinner⟩ := Discovery.runs_locked hrest
      have hmem : ∀ e ∈ inner, e ∈ es' := by
        intro e he
        apply howner
        rw [hof]
        simp [he]
      rcases Discovery.runs_runIfDue hinner with
        @⟨_, j, _, d, -, hpending⟩ | ⟨-, -, hretried⟩ | ⟨-, hretried⟩
      · -- The request is no longer there. Nobody owes it, so it was met or given up.
        have htake : (⟨j, .takeRefresh, d⟩ : Event σ) ∈ Event.of b es' := by
          rw [hof]
          simp
        obtain ⟨hin, rfl⟩ := Event.mem_of_iff.mp htake
        rcases accounted_of_take hS h₁ hrequested hpending hin h₂ with ⟨e, he, hinstall⟩ | hgivesUp
        · rcases List.mem_cons.mp he with rfl | he
          · cases hinstall
          · exact .inl ⟨e, he, hinstall⟩
        · exact .inr hgivesUp
      · exact .inl (installs_of_retried hretried fun e he => hmem e (by simp [he]))
      · exact .inl (installs_of_retried hretried fun e he => hmem e (by simp [he]))

/-- A command comes while another one has the only request and begins its discovery. -/
theorem goes_on_or_waits_stale :
    let node := Node.new "a" 1 .master
    let get : Command := [Bytes.ofText "GET", Bytes.ofText "foo"]
    let ops := [Operation.route get (.single .random), Operation.route get (.single .random)]
    let c := Canned.client {} []
    let known := { c.registry with slots := (Topology.single node).table, refreshPending := true }
    let S₀ : Moment Canned Answer := ⟨ops.map fun op => op.task {}, c.setRegistry known⟩
    let es := (S₀.play [0, 0, 0, 0, 0]).1
    let S := (S₀.play [0, 0, 0, 0, 0]).2
    Run S₀ es S ∧ duty 0 es = .owing ∧ Discovery.isReady S.client.registry = true ∧
      ∃ k S', S.tasks[1]? = some ((Task.ofProgram (Discovery.refreshIfNeeded {}).run).bind k) ∧
        Run S [⟨1, .registry, S.client⟩] S' ∧
        (∃ x, duty x es = .owing) ∧
        ∃ t, S'.tasks[1]? = some t ∧ (k (.ok ())).Path ([] : List (Event Canned)) t := by
  intro node get ops c known S₀ es S
  have hrun : Run S₀ es S := S₀.run_play _
  have howing : duty 0 es = .owing := by decide +kernel
  have hready : Discovery.isReady S.client.registry = true := by decide +kernel
  have hname : Words.checkedName (Routable.words get) = .ok (Bytes.ofText "GET") := by
    decide +kernel
  obtain ⟨k, hk⟩ := Dispatch.routeCommand_of_name {} hname (.single .random)
  obtain ⟨k, hk⟩ := Task.map_begins Answer.reply hk
  have hbegin : S₀.tasks[1]? =
      some ((Task.ofProgram (Discovery.refreshIfNeeded {}).run).bind k) := congrArg some hk
  have hquiet : Event.of 1 es = [] := by
    rw [← List.length_eq_zero_iff]
    decide +kernel
  have htask := hrun.still hbegin hquiet
  have harrival := Run.refl.event (.answer htask (.call _ _) rfl)
  have hboth := goes_on_or_waits hrun (.inr ⟨0, howing⟩) htask harrival
  exact ⟨hrun, howing, hready, k, _, htask, harrival, hboth.1 hready⟩

end Moment

end SlotCluster
