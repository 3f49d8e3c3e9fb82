import SlotCluster.Proofs.OperationParts

/-!
# Discoveries that fail

A client that performs one operation at a time runs a discovery before a command or after a moved
slot. Whoever runs it takes the request for it first. Before a command the request is made again if
the discovery fails. After a moved slot it is not.
-/

namespace SlotCluster

/-! ## Requests that are taken -/

variable {σ : Type} [Transport σ] {s : Settings} {resumes ok : Bool}
  {es before rest more : List (Event σ)} {take : Event σ}

/-- What comes before and after a request that an operation has taken. If its discovery fails the
operation is over, unless it goes on with another command. -/
inductive Taken (s : Settings) (resumes : Bool) : Bool → List (Event σ) → List (Event σ) → Prop
  | command {ok : Bool} {pre ds later : List (Event σ)} {lock registry unlock : Event σ}
      {r : Except Fault Unit} (lock_ : lock.request = .lock)
      (registry_ : registry.request = .registry) (h : Discovery.Retried s ds r)
      (unlock_ : unlock.request = .unlock)
      (last : ∀ f, r = .error f → resumes = false → ok = false ∧ later = []) :
      Taken s resumes ok (pre ++ [lock, registry]) (ds ++ unlock :: later)
  | move {ok : Bool} {pre ds later : List (Event σ)} {flag move lock unlock : Event σ}
      {slot : UInt16} {host : String} {port : UInt16} {r : Except Fault Unit}
      (flag_ : flag.request = .flagRefresh) (move_ : move.request = .recordMove slot host port)
      (lock_ : lock.request = .lock) (h : Action.Runs (Discovery.run s) ds r)
      (unlock_ : unlock.request = .unlock)
      (last : ∀ f, r = .error f → resumes = false → ok = false ∧ later = []) :
      Taken s resumes ok (pre ++ [flag, move, lock]) (ds ++ unlock :: later)

namespace Taken

theorem after (h : Taken s resumes ok before rest) : Taken s resumes ok (more ++ before) rest := by
  cases h with
  | command lock_ registry_ h unlock_ last =>
    rw [← List.append_assoc]
    exact .command lock_ registry_ h unlock_ last
  | move flag_ move_ lock_ h unlock_ last =>
    rw [← List.append_assoc]
    exact .move flag_ move_ lock_ h unlock_ last

theorem followed (h : Taken s resumes true before rest) :
    Taken s resumes ok before (rest ++ more) := by
  cases h with
  | command lock_ registry_ h unlock_ last =>
    rw [List.append_assoc, List.cons_append]
    exact .command lock_ registry_ h unlock_ fun f hf hr => absurd (last f hf hr).1 (by simp)
  | move flag_ move_ lock_ h unlock_ last =>
    rw [List.append_assoc, List.cons_append]
    exact .move flag_ move_ lock_ h unlock_ fun f hf hr => absurd (last f hf hr).1 (by simp)

end Taken

omit [Transport σ] in
theorem split_at_take {a b c d : List (Event σ)} {e e' : Event σ} (h : a ++ e :: b = c ++ e' :: d)
    (he : e.request = .takeRefresh) (hc : ∀ x ∈ c, x.request ≠ .takeRefresh)
    (hd : ∀ x ∈ d, x.request ≠ .takeRefresh) : a = c ∧ e = e' ∧ b = d := by
  rcases List.append_eq_append_iff.mp h with ⟨m, rfl, hm⟩ | ⟨m, rfl, hm⟩
  · cases m with
    | nil => simpa using hm
    | cons x m =>
      obtain ⟨rfl, -⟩ := List.cons.inj hm
      exact absurd he (hc e (by simp))
  · cases m with
    | nil =>
      obtain ⟨rfl, rfl⟩ := List.cons.inj hm
      simp
    | cons x m =>
      obtain ⟨rfl, rfl⟩ := List.cons.inj hm
      exact absurd he (hd e (by simp))

namespace Discovery

open SlotCluster.Action

theorem takes_nothing_of_run {ds : List (Event σ)} {r : Except Fault Unit} (h : Runs (run s) ds r) :
    ∀ e ∈ ds, e.request ≠ .takeRefresh := by
  have hplain : ∀ {e : Event σ}, e.request.IsPlain → e.request ≠ .takeRefresh := by
    intro e he htake
    rw [htake] at he
    exact he
  obtain ⟨f, -, hds⟩ | ⟨init, last, -, rfl, ⟨topology, required, hlast⟩, hinit⟩ := runs_run h
  · exact fun e he => hplain (hds e he)
  · intro e he
    rcases List.mem_append.mp he with he | he
    · exact hplain (hinit e he)
    · rw [List.mem_singleton.mp he, hlast]
      exact Request.noConfusion

theorem Retried.takes_nothing {ds : List (Event σ)} {r : Except Fault Unit} (h : Retried s ds r) :
    ∀ e ∈ ds, e.request ≠ .takeRefresh := by
  cases h with
  | installed h => exact takes_nothing_of_run h
  | failed h flag_ =>
    intro e he
    rcases List.mem_append.mp he with he | he
    · exact takes_nothing_of_run h e he
    · rw [List.mem_singleton.mp he, flag_]
      exact Request.noConfusion

theorem taken_of_command {part : List (Event σ)} {r : Except Fault Unit}
    (h : Runs (locked (runIfDue s)) part r) (hpart : part = before ++ take :: rest)
    (htake : take.request = .takeRefresh) (hpending : take.client.registry.refreshPending = true) :
    Taken s resumes r.isOk before rest := by
  obtain ⟨lock, inner, unlock, rfl, hlock, hunlock, hinner⟩ := runs_locked h
  have hnone : (∀ e ∈ lock :: (inner ++ [unlock]), e.request ≠ .takeRefresh) → False := by
    intro hes
    rw [hpart] at hes
    exact hes take (by simp) htake
  cases runs_runIfDue hinner with
  | met initialized pending =>
    obtain ⟨-, rfl, -⟩ := split_at_take (c := [lock, _]) hpart.symm htake
      (by simp [hlock]) (by simp [hunlock])
    rw [pending] at hpending
    cases hpending
  | @taken i j c c' ds _ initialized pending hretried =>
    obtain ⟨rfl, -, rfl⟩ := split_at_take (c := [lock, _]) (d := ds ++ [unlock]) hpart.symm htake
      (by simp [hlock]) (by
        intro e he
        rcases List.mem_append.mp he with he | he
        · exact hretried.takes_nothing e he
        · rw [List.mem_singleton.mp he, hunlock]
          exact Request.noConfusion)
    have hcommand : Taken s resumes r.isOk ([] ++ [lock, ⟨i, .registry, c⟩]) (ds ++ [unlock]) := by
      refine .command hlock rfl hretried hunlock ?_
      rintro f rfl -
      exact ⟨rfl, rfl⟩
    exact hcommand
  | unknown initialized hretried =>
    exfalso
    apply hnone
    simp only [List.mem_cons, List.mem_append, List.cons_append, List.not_mem_nil, or_false]
    rintro e (rfl | rfl | he | rfl)
    · simp [hlock]
    · simp
    · exact hretried.takes_nothing e he
    · simp [hunlock]

theorem taken_of_move {part : List (Event σ)} {m : Redirect} {r : Except Fault Unit}
    (h : Runs (patchMovedSlot s m) part r) (hpart : part = before ++ take :: rest)
    (htake : take.request = .takeRefresh) (hpending : take.client.registry.refreshPending = true) :
    Taken s resumes r.isOk before rest := by
  have hnone : (∀ e ∈ part, e.request ≠ .takeRefresh) → False := by
    intro hes
    rw [hpart] at hes
    exact hes take (by simp) htake
  cases runs_patchMovedSlot h with
  | nowhere flag_ => exact (hnone (by simp [flag_])).elim
  | noted flag_ move_ => exact (hnone (by simp [flag_, move_])).elim
  | @refreshed flag move slot host port es _ flag_ move_ hlocked =>
    obtain ⟨lock, inner, unlock, rfl, hlock, hunlock, hinner⟩ := runs_locked hlocked
    obtain ⟨i, c, ds, rfl, hds⟩ := runs_refreshIfPending hinner
    have hafter : ∀ e ∈ ds ++ [unlock], e.request ≠ .takeRefresh := by
      intro e he
      rcases List.mem_append.mp he with he | he
      · split at hds
        · exact takes_nothing_of_run hds e he
        · rw [hds.1] at he
          cases he
      · rw [List.mem_singleton.mp he, hunlock]
        exact Request.noConfusion
    obtain ⟨rfl, rfl, rfl⟩ := split_at_take (c := [flag, move, lock]) hpart.symm htake
      (by simp [flag_, move_, hlock]) hafter
    rw [if_pos hpending] at hds
    have hmove : Taken s resumes r.isOk ([] ++ [flag, move, lock]) (ds ++ [unlock]) := by
      refine .move flag_ move_ hlock hds hunlock ?_
      rintro f rfl -
      exact ⟨rfl, rfl⟩
    exact hmove

end Discovery

theorem Taken.of_append {part : List (Event σ)}
    (hes : ∀ {before rest}, es = before ++ take :: rest → Taken s resumes true before rest)
    (hpart : ∀ {before rest}, part = before ++ take :: rest → Taken s resumes ok before rest)
    (h : es ++ part = before ++ take :: rest) : Taken s resumes ok before rest := by
  rcases List.append_eq_append_iff.mp h with ⟨m, rfl, hm⟩ | ⟨m, hm, htail⟩
  · exact (hpart hm).after
  · cases m with
    | nil =>
      rw [List.append_nil] at hm
      have hfirst : Taken s resumes ok [] rest := hpart htail.symm
      have hafter : Taken s resumes ok (es ++ []) rest := hfirst.after
      rwa [List.append_nil, hm] at hafter
    | cons e m =>
      obtain ⟨rfl, rfl⟩ := List.cons.inj htail
      exact (hes hm).followed

theorem Parts.taken (h : Parts s resumes ok es) (htake : take.request = .takeRefresh)
    (hpending : take.client.registry.refreshPending = true) (hes : es = before ++ take :: rest) :
    Taken s resumes ok before rest := by
  -- The request is taken in the last part or before it. Where it is before, the last part follows.
  induction h generalizing before rest with
  | none => simp at hes
  | event h e_ ih =>
    refine Taken.of_append ih ?_ hes
    intro before rest he
    have hmem : take ∈ before ++ take :: rest := by simp
    rw [← he, List.mem_singleton] at hmem
    rw [← hmem] at e_
    exact absurd htake e_
  | command h part_ ih =>
    refine Taken.of_append ih ?_ hes
    exact fun hpart => Discovery.taken_of_command part_ hpart htake hpending
  | move h part_ ih =>
    refine Taken.of_append ih ?_ hes
    exact fun hpart => Discovery.taken_of_move part_ hpart htake hpending
  | @resume es ok h on ih =>
    cases ih hes with
    | command lock_ registry_ h unlock_ last =>
      exact .command lock_ registry_ h unlock_ fun f hf hr => absurd (on.symm.trans hr) (by simp)
    | move flag_ move_ lock_ h unlock_ last =>
      exact .move flag_ move_ lock_ h unlock_ fun f hf hr => absurd (on.symm.trans hr) (by simp)

/-! ## Requests whose discovery has failed -/

/-- What becomes of a request when its discovery has failed. Before a command it is made again, and
after a moved slot it is lost. -/
inductive Leaves : Bool → List (Event σ) → List (Event σ) → List (Event σ) → Prop
  | command {pre later : List (Event σ)} {lock registry flag unlock : Event σ}
      (lock_ : lock.request = .lock) (registry_ : registry.request = .registry)
      (flag_ : flag.request = .flagRefresh) (unlock_ : unlock.request = .unlock) :
      Leaves true (pre ++ [lock, registry]) (flag :: unlock :: later) later
  | move {pre later : List (Event σ)} {flag move lock unlock : Event σ} {slot : UInt16}
      {host : String} {port : UInt16} (flag_ : flag.request = .flagRefresh)
      (move_ : move.request = .recordMove slot host port) (lock_ : lock.request = .lock)
      (unlock_ : unlock.request = .unlock) :
      Leaves false (pre ++ [flag, move, lock]) (unlock :: later) later

theorem Taken.leaves {ds tail : List (Event σ)} {f : Fault} (h : Taken s resumes ok before rest)
    (hds : Action.Runs (Discovery.run s) ds (.error f)) (hrest : rest = ds ++ tail) :
    ∃ asked later, Leaves asked before tail later ∧ (resumes = false → later = []) := by
  cases h with
  | @command pre es later lock registry unlock r lock_ registry_ h unlock_ last =>
    cases h with
    | installed h =>
      obtain ⟨-, hr⟩ := h.unique_prefix hds hrest
      cases hr
    | failed h flag_ =>
      rw [List.append_assoc] at hrest
      obtain ⟨rfl, -⟩ := h.unique_prefix hds hrest
      rw [← List.append_cancel_left hrest]
      exact ⟨true, later, .command lock_ registry_ flag_ unlock_, fun hr => (last _ rfl hr).2⟩
  | @move pre es later flag move lock unlock slot host port r flag_ move_ lock_ h unlock_ last =>
    obtain ⟨rfl, rfl⟩ := h.unique_prefix hds hrest
    rw [← List.append_cancel_left hrest]
    exact ⟨false, later, .move flag_ move_ lock_ unlock_, fun hr => (last _ rfl hr).2⟩

theorem Taken.fails (h : Taken s resumes ok before rest)
    (hnone : ∀ e ∈ rest, e.request.installs = false) :
    ∃ ds tail f, rest = ds ++ tail ∧ Action.Runs (Discovery.run s) ds (.error f) := by
  have hcontra : ∀ {ds tail : List (Event σ)}, rest = ds ++ tail →
      ¬Action.Runs (Discovery.run s) ds (.ok ()) := by
    intro ds tail hrest hds
    obtain ⟨e, he, hinstall⟩ := Discovery.installs_of_run hds
    rw [hnone e (by simp [hrest, he])] at hinstall
    cases hinstall
  cases h with
  | command lock_ registry_ h unlock_ last =>
    cases h with
    | installed h => exact (hcontra rfl h).elim
    | failed h flag_ => exact ⟨_, _, _, List.append_assoc .., h⟩
  | @move pre ds later flag move lock unlock slot host port r flag_ move_ lock_ h unlock_ last =>
    cases r with
    | ok v => exact (hcontra rfl h).elim
    | error f => exact ⟨ds, _, f, rfl, h⟩

omit [Transport σ] in
theorem Leaves.pendingAfter {asked : Bool} {tail later : List (Event σ)}
    (h : Leaves asked before tail later) :
    SlotCluster.pendingAfter false tail = SlotCluster.pendingAfter asked later := by
  cases h with
  | command lock_ registry_ flag_ unlock_ =>
    rw [pendingAfter_cons, pendingAfter_cons, flag_, unlock_]
    rfl
  | move flag_ move_ lock_ unlock_ =>
    rw [pendingAfter_cons, unlock_]
    rfl

namespace Client

/-- An operation takes a pending request and the discovery fails. The request is pending again if
the operation took it before a command, and not if it took it after a moved slot. Nothing follows,
unless a pipeline goes on with another command. -/
theorem request_after_failed_discovery {c ct : Client σ} {op : Operation} {task : Nat}
    {before ds tail : List (Event σ)} {f : Fault}
    (htrace : c.trace (op.task c.settings) = before ++ ⟨task, .takeRefresh, ct⟩ :: (ds ++ tail))
    (hpending : ct.registry.refreshPending = true)
    (hfails : Action.Runs (Discovery.run c.settings) ds (.error f)) :
    ∃ asked later, Leaves asked before tail later ∧ (op.inParts = false → later = []) ∧
      (c.perform op).2.registry.refreshPending = pendingAfter asked later := by
  obtain ⟨ok, hparts⟩ := op.parts_of_runs (runs_trace (op.task c.settings) c)
  have htaken := hparts.taken rfl hpending htrace
  obtain ⟨asked, later, hleaves, hlater⟩ := htaken.leaves hfails rfl
  refine ⟨asked, later, hleaves, hlater, ?_⟩
  have hplain : ∀ e ∈ ds, e.request.IsPlain := by
    obtain ⟨-, -, hds⟩ | ⟨-, -, hok, -⟩ := Discovery.runs_run hfails
    · exact hds
    · cases hok
  calc (c.perform op).2.registry.refreshPending
      = pendingAfter c.registry.refreshPending (c.trace (op.task c.settings)) :=
        run_refreshPending _ _
    _ = pendingAfter (pendingAfter false ds) tail := by
        rw [htrace, pendingAfter_append, pendingAfter_cons, pendingAfter_append]
        rfl
    _ = pendingAfter false tail := by rw [pendingAfter_of_plain hplain]
    _ = pendingAfter asked later := hleaves.pendingAfter

/-- A node sends a client away whose policy is inline, and the discovery gets no reply. -/
theorem request_after_failed_discovery_moved :
    let new := Canned.client { refreshPolicy := .inline }
      [.error (.known .moved (some "12182 b:2"))]
    let slots := (Topology.single (Node.new "a" 1 .master)).table
    let c := new.setRegistry { new.registry with slots, refreshPending := false }
    let op := Operation.route [Bytes.ofText "GET", Bytes.ofText "foo"] (.single .random)
    ∃ task before ct ds tail f,
      c.trace (op.task c.settings) = before ++ ⟨task, .takeRefresh, ct⟩ :: (ds ++ tail) ∧
      ct.registry.refreshPending = true ∧ Action.Runs (Discovery.run c.settings) ds (.error f) ∧
      (∃ asked later, Leaves asked before tail later ∧ (op.inParts = false → later = []) ∧
        (c.perform op).2.registry.refreshPending = pendingAfter asked later) ∧
      (c.perform op).2.registry.refreshPending = false := by
  intro new slots c op
  have htake : ∃ e ∈ c.trace (op.task c.settings),
      (e.request matches .takeRefresh) = true ∧ e.client.registry.refreshPending = true := by
    decide +kernel
  have hnone : ∀ e ∈ c.trace (op.task c.settings), e.request.installs = false := by decide +kernel
  obtain ⟨⟨task, r, ct⟩, hmem, hr, hpending⟩ := htake
  obtain rfl : r = .takeRefresh := by
    cases r <;> first | rfl | cases hr
  obtain ⟨before, rest, hes⟩ := List.append_of_mem hmem
  obtain ⟨ok, hparts⟩ := op.parts_of_runs (runs_trace (op.task c.settings) c)
  obtain ⟨ds, tail, f, rfl, hfails⟩ := (hparts.taken rfl hpending hes).fails (by
    intro e he
    apply hnone
    rw [hes]
    simp [he])
  refine ⟨task, before, ct, ds, tail, f, hes, hpending, hfails, ?_, by decide +kernel⟩
  exact request_after_failed_discovery hes hpending hfails

end Client

end SlotCluster
