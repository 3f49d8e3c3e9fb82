import SlotCluster.Proofs.Canned
import SlotCluster.Proofs.MoveCounts
import SlotCluster.Proofs.OperationBodies

/-!
# The cadence of refreshes

At every so many moved slots a client runs a discovery at once, in the middle of the command that
was redirected. All other discoveries wait for the next command, or for a caller who asks for one.
-/

namespace SlotCluster

variable {σ : Type} [Transport σ] {s : Settings} {again : Bool} {es before after : List (Event σ)}
  {e : Event σ}

/-! ## Under the lock -/

/-- What a task asks for while it has the lock. -/
def Request.Refreshes : Request → Prop
  | .recordMove _ _ _ | .forget | .lock | .unlock => False
  | _ => True

theorem Request.IsPlain.refreshes {r : Request} (h : r.IsPlain) : r.Refreshes := by
  cases r <;> trivial

theorem Request.not_plain_of_installs {r : Request} (h : r.installs = true) :
    ¬ r.IsPlain ∧ r ≠ .forget := by
  cases r <;> first | exact ⟨id, Request.noConfusion⟩ | cases h

theorem Request.Refreshes.not_move {r : Request} (h : r.Refreshes) : ¬ r.IsMove := by
  cases r <;> first | exact h.elim | exact id

namespace Discovery

open SlotCluster.Action

theorem movesAfter_of_run {r : Except Fault Unit} (h : Runs (run s) es r) (before : Nat) :
    movesAfter before es = if r.isOk then 0 else before := by
  obtain ⟨f, rfl, hplain⟩ | ⟨init, last, rfl, rfl, ⟨topology, required, hlast⟩, -⟩ := runs_run h
  · exact movesAfter_of_plain hplain before
  · rw [movesAfter_append]
    change last.request.movesAfter _ = 0
    rw [hlast]
    rfl

theorem refreshes_of_run {r : Except Fault Unit} (h : Runs (run s) es r) :
    ∀ e ∈ es, e.request.Refreshes := by
  obtain ⟨f, -, hplain⟩ | ⟨init, last, -, rfl, ⟨topology, required, hlast⟩, hplain⟩ := runs_run h
  · exact fun e he => (hplain e he).refreshes
  · rw [List.forall_mem_append, List.forall_mem_singleton, hlast]
    exact ⟨fun e he => (hplain e he).refreshes, trivial⟩

theorem refreshes_of_runIfDue {r : Except Fault Unit} (h : Runs (runIfDue s) es r) :
    ∀ e ∈ es, e.request.Refreshes := by
  have hretried : ∀ {ds : List (Event σ)}, Retried s ds r → ∀ e ∈ ds, e.request.Refreshes := by
    intro ds hds
    cases hds with
    | installed hrun => exact refreshes_of_run hrun
    | failed hrun flag_ =>
      rw [List.forall_mem_append, List.forall_mem_singleton, flag_]
      exact ⟨refreshes_of_run hrun, trivial⟩
  cases runs_runIfDue h with
  | met => simp [Request.Refreshes]
  | taken _ _ h => simpa [Request.Refreshes] using hretried h
  | unknown _ h => simpa [Request.Refreshes] using hretried h

theorem refreshes_of_refreshIfPending {r : Except Fault Unit} (h : Runs (refreshIfPending s) es r) :
    ∀ e ∈ es, e.request.Refreshes := by
  obtain ⟨task, c, rest, rfl, hrest⟩ := runs_refreshIfPending h
  refine List.forall_mem_cons.mpr ⟨trivial, ?_⟩
  split at hrest
  · exact refreshes_of_run hrest
  · simp [hrest.1]

/-- These events take the lock, and give it back at their end. -/
inductive Held : List (Event σ) → Prop
  | mk {lock unlock : Event σ} {inner : List (Event σ)} (lock_ : lock.request = .lock)
      (inner_ : ∀ e ∈ inner, e.request.Refreshes) (unlock_ : unlock.request = .unlock) :
      Held (lock :: (inner ++ [unlock]))

theorem held_of_locked {a : Action Unit} {r : Except Fault Unit} (h : Runs (locked a) es r)
    (ha : ∀ inner : List (Event σ), Runs a inner r → ∀ e ∈ inner, e.request.Refreshes) :
    Held es := by
  obtain ⟨lock, inner, unlock, rfl, hlock, hunlock, hinner⟩ := runs_locked h
  exact .mk hlock (ha inner hinner) hunlock

/-- A moved slot or a check: what comes before the lock, and what is done with it. A lazy client
takes the lock behind a moved slot if the move makes a discovery due. -/
inductive Stretch (s : Settings) (again : Bool) : List (Event σ) → List (Event σ) → Prop
  | nowhere {flag : Event σ} (flag_ : flag.request = .flagRefresh) : Stretch s again [flag] []
  | noted {flag move : Event σ} (flag_ : flag.request = .flagRefresh) (move_ : move.request.IsMove)
      (early : move.isDue = false) : Stretch s again [flag, move] []
  | due {flag move : Event σ} {held : List (Event σ)} {r : Except Fault Unit}
      (flag_ : flag.request = .flagRefresh) (move_ : move.request.IsMove)
      (due : move.isDue = true) (held_ : Held held)
      (run_ : Runs (locked (refreshIfPending s)) held r) : Stretch s again [flag, move] held
  | check {check : Event σ} {held : List (Event σ)} (check_ : check.request = .registry)
      (held_ : held = [] ∨ Held held) (on : again = true) : Stretch s again [check] held

theorem stretch_of_refreshIfNeeded {r : Except Fault Unit} (h : Runs (refreshIfNeeded s) es r) :
    ∃ check held, es = [check] ++ held ∧ check.request = .registry ∧
      Stretch s true [check] held := by
  obtain ⟨task, c, rest, rfl, hrest⟩ := runs_refreshIfNeeded_iff.mp h
  refine ⟨_, rest, rfl, rfl, .check rfl ?_ rfl⟩
  split at hrest
  · exact .inl hrest.1
  · exact .inr (held_of_locked hrest fun _ => refreshes_of_runIfDue)

theorem stretch_of_patchMovedSlot (again : Bool) {m : Redirect} {r : Except Fault Unit}
    (hlazy : s.refreshPolicy = .lazily) (h : Runs (patchMovedSlot s m) es r) :
    ∃ flag rest held, es = (flag :: rest) ++ held ∧ Stretch s again (flag :: rest) held := by
  unfold patchMovedSlot at h
  obtain ⟨task, c, rest, rfl, hrest⟩ := (runs_ask_bind_iff _).mp h
  obtain ⟨f, -, rfl, rfl⟩ | ⟨⟨host, port⟩, -, hmove⟩ := runs_lift_bind_iff.mp hrest
  · exact ⟨_, [], [], rfl, .nowhere rfl⟩
  obtain ⟨task', c', held, rfl, hheld⟩ := (runs_ask_bind_iff _).mp hmove
  refine ⟨_, [_], held, rfl, ?_⟩
  simp only [hlazy, reduceCtorEq, or_false] at hheld
  split at hheld
  · next hdue =>
    exact .due rfl trivial hdue (held_of_locked hheld fun _ => refreshes_of_refreshIfPending) hheld
  · next hdue =>
    obtain ⟨rfl, -⟩ := runs_pure_iff.mp hheld
    exact .noted rfl trivial (Bool.not_eq_true _ ▸ hdue)

variable {lead held : List (Event σ)}

theorem Stretch.held_cases (h : Stretch s again lead held) : held = [] ∨ Held held := by
  cases h with
  | nowhere | noted => exact .inl rfl
  | due _ _ _ held_ => exact .inr held_
  | check _ held_ => exact held_

theorem Stretch.lead_free (h : Stretch s again lead held) :
    ∀ e ∈ lead, e.request ≠ .lock ∧ e.request.installs = false := by
  have hflag : ∀ {e : Event σ}, e.request = .flagRefresh →
      e.request ≠ .lock ∧ e.request.installs = false := by
    intro e he
    rw [he]
    exact ⟨nofun, rfl⟩
  cases h with
  | nowhere flag_ => exact List.forall_mem_singleton.mpr (hflag flag_)
  | noted flag_ move_ _ | due flag_ move_ _ _ _ =>
    exact List.forall_mem_cons.mpr ⟨hflag flag_, List.forall_mem_singleton.mpr move_.free⟩
  | check check_ _ _ => simp [check_, Request.installs]

end Discovery

/-! ## Where the lock is taken -/

namespace Discovery

omit [Transport σ] in
theorem Held.place (h : Held es) (hes : es = before ++ e :: after) :
    before = [] ∧ e.request = .lock ∨
      ∃ lock inner, before = lock :: inner ∧ lock.request = .lock ∧
        (∀ x ∈ inner, x.request.Refreshes) ∧ (e.request.Refreshes ∨ e.request = .unlock) := by
  obtain ⟨lock_, inner_, unlock_⟩ := h
  cases before with
  | nil =>
    obtain ⟨rfl, -⟩ := List.cons.inj hes
    exact .inl ⟨rfl, lock_⟩
  | cons x rest =>
    obtain ⟨rfl, hrest⟩ := List.cons.inj hes
    refine .inr ⟨_, rest, rfl, lock_, ?_⟩
    obtain ⟨more, rfl, -⟩ | ⟨more, rfl, hlast⟩ := split_cons hrest
    · exact ⟨fun x hx => inner_ x (List.mem_append_left _ hx), .inl (inner_ e (by simp))⟩
    · cases more with
      | nil =>
        obtain ⟨rfl, -⟩ := List.cons.inj hlast
        rw [List.append_nil]
        exact ⟨inner_, .inr unlock_⟩
      | cons x more => simp at hlast

omit [Transport σ] in
theorem Held.not_move (h : Held es) (he : e ∈ es) : ¬ e.request.IsMove := by
  intro hmove
  obtain ⟨before, after, hes⟩ := List.append_of_mem he
  obtain ⟨-, hlock⟩ | ⟨-, -, -, -, -, hrefreshes | hunlock⟩ := h.place hes
  · rw [hlock] at hmove
    exact hmove
  · exact hrefreshes.not_move hmove
  · rw [hunlock] at hmove
    exact hmove

omit [Transport σ] in
theorem Held.lock_first (h : Held es) (hes : es = before ++ e :: after) (he : e.request = .lock) :
    before = [] := by
  obtain ⟨hbefore, -⟩ | ⟨-, -, -, -, -, hrefreshes | hunlock⟩ := h.place hes
  · exact hbefore
  · rw [he] at hrefreshes
    exact hrefreshes.elim
  · rw [he] at hunlock
    cases hunlock

end Discovery

open Discovery

omit [Transport σ] in
theorem head_append {first second : List (Event σ)} {P : Event σ → Prop}
    (hfirst : ∀ e ∈ first.head?, P e) (hsecond : ∀ e ∈ second.head?, P e) :
    ∀ e ∈ (first ++ second).head?, P e := by
  cases first with
  | nil => exact hsecond
  | cons x rest => exact hfirst

theorem Body.head (h : Body s again es) (hlazy : s.refreshPolicy = .lazily) :
    ∀ e ∈ es.head?, e.request ≠ .lock := by
  induction h with
  | none => simp
  | @event es e _ e_ ih =>
    refine head_append ih fun x hx => ?_
    obtain rfl : e = x := by simpa using hx
    intro hlock
    rw [hlock] at e_
    exact e_.elim id Request.noConfusion
  | move _ part_ ih =>
    refine head_append ih fun x hx => ?_
    obtain ⟨flag, rest, held, rfl, hstretch⟩ := stretch_of_patchMovedSlot again hlazy part_
    obtain rfl := Option.some.inj hx
    exact (hstretch.lead_free flag (by simp)).1
  | check _ part_ _ ih =>
    refine head_append ih fun x hx => ?_
    obtain ⟨check, held, rfl, -, hstretch⟩ := stretch_of_refreshIfNeeded part_
    obtain rfl := Option.some.inj hx
    exact (hstretch.lead_free check (by simp)).1

theorem Body.At.stretch (h : Body.At s again e before after) (hlazy : s.refreshPolicy = .lazily) :
    ∃ pre first rest post lead held, before = pre ++ first ∧ after = rest ++ post ∧
      lead ++ held = first ++ e :: rest ∧ Stretch s again lead held ∧ Body s again post := by
  cases h with
  | @move pre first rest post m r part_ post_ =>
    obtain ⟨flag, more, held, hpart, hstretch⟩ := stretch_of_patchMovedSlot again hlazy part_
    exact ⟨pre, first, rest, post, _, held, rfl, rfl, hpart.symm, hstretch, post_⟩
  | @check pre first rest post r part_ post_ on =>
    obtain ⟨check, held, hpart, -, hstretch⟩ := stretch_of_refreshIfNeeded part_
    subst on
    exact ⟨pre, first, rest, post, _, held, rfl, rfl, hpart.symm, hstretch, post_⟩

theorem Body.At.of_move (h : Body.At s again e before after) (hlazy : s.refreshPolicy = .lazily)
    (hmove : e.request.IsMove) :
    ∃ pre flag, before = pre ++ [flag] ∧ flag.request = .flagRefresh ∧
      (e.isDue = true ∧ (∃ held later r, after = held ++ later ∧
          Action.Runs (locked (refreshIfPending s)) held r) ∨
        e.isDue = false ∧ ∀ x ∈ after.head?, x.request ≠ .lock) := by
  obtain ⟨pre, first, rest, post, lead, held, rfl, rfl, hplace, hstretch, hpost⟩ := h.stretch hlazy
  have hnot : ∀ {x : Event σ}, x.request = .flagRefresh ∨ x.request = .registry → e ≠ x := by
    rintro x hx rfl
    rcases hx with hx | hx <;> (rw [hx] at hmove; exact hmove)
  have hnotHeld : e ∉ held := by
    intro he
    obtain rfl | hheld := hstretch.held_cases
    · cases he
    · exact hheld.not_move he hmove
  have hcut : ∀ {flag move : Event σ}, flag.request = .flagRefresh →
      [flag] ++ move :: held = first ++ e :: rest → [flag] = first ∧ move = e ∧ held = rest := by
    intro flag move hflag hes
    exact (List.append_cons_inj_of_notMem (by simpa using hnot (.inl hflag)) hnotHeld).mp hes
  have hmem : e ∈ lead ++ held := by simp [hplace]
  cases hstretch with
  | nowhere flag_ => exact absurd hmem (by simpa using hnot (.inl flag_))
  | check check_ _ _ => exact absurd hmem (by simpa [hnotHeld] using hnot (.inr check_))
  | @noted flag _ flag_ _ early =>
    obtain ⟨rfl, rfl, rfl⟩ := hcut flag_ hplace
    exact ⟨pre, flag, rfl, flag_, .inr ⟨early, hpost.head hlazy⟩⟩
  | @due flag _ held r flag_ _ due _ run_ =>
    obtain ⟨rfl, rfl, rfl⟩ := hcut flag_ hplace
    exact ⟨pre, flag, rfl, flag_, .inl ⟨due, held, post, r, rfl, run_⟩⟩

theorem Body.At.of_lock (h : Body.At s again e before after) (hlazy : s.refreshPolicy = .lazily)
    (hlock : e.request = .lock) :
    (again = true ∧ ∃ init check, before = init ++ [check] ∧ check.request = .registry) ∨
      ∃ init move, before = init ++ [move] ∧ move.request.IsMove ∧ move.isDue = true := by
  obtain ⟨pre, first, rest, post, lead, held, rfl, rfl, hplace, hstretch, -⟩ := h.stretch hlazy
  obtain ⟨more, rfl, -⟩ | ⟨more, rfl, hmore⟩ := split_cons hplace
  · exact absurd hlock (hstretch.lead_free e (by simp)).1
  obtain rfl : more = [] := by
    obtain rfl | hheld := hstretch.held_cases
    · simp at hmore
    · exact hheld.lock_first hmore hlock
  rw [List.append_nil]
  cases hstretch with
  | nowhere _ | noted _ _ _ => simp at hmore
  | @due flag _ _ _ _ move_ due _ _ => exact .inr ⟨pre ++ [flag], _, by simp, move_, due⟩
  | check check_ _ on => exact .inl ⟨on, pre, _, rfl, check_⟩

theorem Body.At.of_install (h : Body.At s again e before after) (hlazy : s.refreshPolicy = .lazily)
    (hinstalls : e.request.installs = true) :
    ∃ init lock inner, before = init ++ lock :: inner ∧ lock.request = .lock ∧
      ∀ x ∈ inner, x.request ≠ .unlock := by
  obtain ⟨pre, first, rest, post, lead, held, rfl, rfl, hplace, hstretch, -⟩ := h.stretch hlazy
  obtain ⟨more, rfl, -⟩ | ⟨more, rfl, hmore⟩ := split_cons hplace
  · have hfree := (hstretch.lead_free e (by simp)).2
    rw [hinstalls] at hfree
    cases hfree
  obtain rfl | hheld := hstretch.held_cases
  · simp at hmore
  obtain ⟨-, hlock⟩ | ⟨lock, inner, rfl, hlock, hinner, -⟩ := hheld.place hmore
  · rw [hlock] at hinstalls
    cases hinstalls
  · refine ⟨pre ++ lead, lock, inner, by simp, hlock, fun x hx hunlock => ?_⟩
    have hrefreshes := hinner x hx
    rw [hunlock] at hrefreshes
    exact hrefreshes

theorem Checked.of_lock (h : Checked s again es) (hlazy : s.refreshPolicy = .lazily)
    (hes : es = before ++ e :: after) (hlock : e.request = .lock) :
    (∃ init check, before = init ++ [check] ∧ check.request = .registry ∧
        (again = false → init = [])) ∨
      ∃ init move, before = init ++ [move] ∧ move.request.IsMove ∧ move.isDue = true := by
  cases h with
  | refused => simp at hes
  | checked check_ body_ =>
    obtain ⟨check, held, rfl, hcheck, hstretch⟩ := stretch_of_refreshIfNeeded check_
    rw [List.append_assoc] at hes
    obtain ⟨more, hlead, -⟩ | ⟨more, rfl, hmore⟩ := split_cons hes
    · exact absurd hlock (hstretch.lead_free e (by simp [hlead])).1
    obtain ⟨rest, hheld, -⟩ | ⟨rest, rfl, hbody⟩ := split_cons hmore
    · obtain rfl | hhold := hstretch.held_cases
      · simp at hheld
      · rw [hhold.lock_first hheld hlock]
        exact .inl ⟨[], check, rfl, hcheck, fun _ => rfl⟩
    · have hplace := body_.place hbody (by rw [hlock]; exact id) (by rw [hlock]; exact nofun)
      obtain ⟨hagain, init, last, rfl, hlast⟩ | ⟨init, move, rfl, hmove⟩ :=
        hplace.of_lock hlazy hlock
      · exact .inl ⟨[check] ++ (held ++ init), last, by simp, hlast, by simp [hagain]⟩
      · exact .inr ⟨[check] ++ (held ++ init), move, by simp, hmove⟩

theorem Operation.lock_of_runs {op : Operation} {answer : Answer}
    (hlazy : s.refreshPolicy = .lazily) (h : Task.Runs (op.task s) es answer)
    (hes : es = before ++ e :: after) (hlock : e.request = .lock) :
    (∃ init check, before = init ++ [check] ∧ check.request = .registry ∧
        (op.inParts = false → init = [])) ∨
      ∃ init move, before = init ++ [move] ∧ move.request.IsMove ∧ move.isDue = true := by
  obtain ⟨-, r, hrefresh⟩ | ⟨-, hreset⟩ | hchecked := op.checked_of_runs h
  · have hrefreshes := refreshes_of_run hrefresh e (by simp [hes])
    rw [hlock] at hrefreshes
    exact hrefreshes.elim
  · have hplace := hreset.place hes (by rw [hlock]; exact id) (by rw [hlock]; exact nofun)
    obtain ⟨hagain, -⟩ | hmove := hplace.of_lock hlazy hlock
    · cases hagain
    · exact .inr hmove
  · exact hchecked.of_lock hlazy hes hlock

/-! ## Discoveries at once -/

/-- A discovery is run under the lock, by the task that has taken the request for it. -/
def Discovers (s : Settings) (es : List (Event σ)) : Prop :=
  ∃ lock take ds unlock later r, es = lock :: take :: (ds ++ unlock :: later) ∧
    lock.request = .lock ∧ take.request = .takeRefresh ∧ Action.Runs (run s) ds r ∧
    unlock.request = .unlock

namespace Client

variable {c c' : Client σ}

theorem Unbroken.discovers {flag move : Event σ} {held later : List (Event σ)}
    {r : Except Fault Unit} (h : Unbroken c (flag :: move :: (held ++ later)) c')
    (hflag : flag.request = .flagRefresh) (hmove : move.request.IsMove)
    (hheld : Action.Runs (locked (refreshIfPending s)) held r) : Discovers s (held ++ later) := by
  obtain ⟨lock, inner, unlock, rfl, hlock, hunlock, hinner⟩ := runs_locked hheld
  obtain ⟨i, d, ds, rfl, hds⟩ := runs_refreshIfPending hinner
  have hsplit : Unbroken c ([flag, move, lock] ++ (⟨i, .takeRefresh, d⟩ :: (ds ++ unlock :: later)))
      c' := by simpa using h
  obtain ⟨d', hbefore, htake⟩ := unbroken_append_iff.mp hsplit
  obtain rfl : d = d' := (unbroken_cons_iff.mp htake).1
  have hpending : d.registry.refreshPending = true := by
    rw [hbefore.refreshPending, pendingAfter_cons, pendingAfter_cons, pendingAfter_cons, hflag,
      hmove.pending, hlock]
    rfl
  rw [if_pos hpending] at hds
  exact ⟨lock, ⟨i, .takeRefresh, d⟩, ds, unlock, later, r, by simp, hlock, rfl, hds, hunlock⟩

/-! ## The cadence -/

variable {ops : List Operation} {op : Operation}

/-- The events of an operation that is performed after others. -/
def eventsAfter (c : Client σ) (ops : List Operation) (op : Operation) : List (Event σ) :=
  (c.performInTurn ops).trace (op.task (c.performInTurn ops).settings)

/-- The moves since the last discovery, up to a place in such an operation. -/
def movesUpTo (c : Client σ) (ops : List Operation) (before : List (Event σ)) : Nat :=
  movesAfter c.registry.moves.toNat (c.history ops ++ before)

/-- When an operation refreshes that is performed after others. -/
structure Cadence (c : Client σ) (ops : List Operation) (op : Operation) : Prop where
  /-- The registry counts the moves since the last discovery. -/
  counted : ∀ before e after, c.eventsAfter ops op = before ++ e :: after →
    c.registry.steps ≠ 0 → e.client.registry.moves.toNat = c.movesUpTo ops before
  /-- Whoever runs a discovery, the count starts again if it succeeds, and only then. -/
  discovered : ∀ before ds after r, c.eventsAfter ops op = before ++ (ds ++ after) →
    Action.Runs (Discovery.run c.settings) ds r →
    c.movesUpTo ops (before ++ ds) = if r.isOk then 0 else c.movesUpTo ops before
  /-- A moved slot brings about a discovery exactly when their number is a multiple of the steps. -/
  moved : ∀ before move after, c.eventsAfter ops op = before ++ move :: after →
    move.request.IsMove →
    (Discovers c.settings after ↔ c.registry.IsDueAt (c.movesUpTo ops (before ++ [move])))
  /-- Any other discovery comes before a command. -/
  locked : ∀ before lock after, c.eventsAfter ops op = before ++ lock :: after →
    lock.request = .lock →
    (∃ init check, before = init ++ [check] ∧ check.request = .registry ∧
        (op.inParts = false → init = [])) ∨
      ∃ init move, before = init ++ [move] ∧ move.request.IsMove ∧
        c.registry.IsDueAt (c.movesUpTo ops before)
  /-- Only a caller who asks for a discovery runs it without the lock. -/
  installed : ∀ before e after, c.eventsAfter ops op = before ++ e :: after →
    e.request.installs = true → op = .refresh ∨ ∃ init lock inner,
      before = init ++ lock :: inner ∧ lock.request = .lock ∧ ∀ x ∈ inner, x.request ≠ .unlock

theorem unbroken_eventsAfter (c : Client σ) (ops : List Operation) (op : Operation) :
    ∃ c', Unbroken c (c.history ops ++ c.eventsAfter ops op) c' :=
  ⟨_, unbroken_append_iff.mpr ⟨_, c.unbroken_history ops, unbroken_trace _ _⟩⟩

theorem runs_eventsAfter (c : Client σ) (ops : List Operation) (op : Operation) :
    ∃ answer, Task.Runs (op.task c.settings) (c.eventsAfter ops op) answer := by
  have hsettings := (c.unbroken_history ops).settings
  unfold eventsAfter
  rw [hsettings]
  exact ⟨_, runs_trace _ _⟩

theorem unbroken_upTo (hes : c.eventsAfter ops op = before ++ e :: after) :
    Unbroken c (c.history ops ++ before) e.client := by
  obtain ⟨c', h⟩ := c.unbroken_eventsAfter ops op
  rw [hes, ← List.append_assoc] at h
  obtain ⟨d, hbefore, hrest⟩ := unbroken_append_iff.mp h
  rwa [(unbroken_cons_iff.mp hrest).1]

/-- There are never more moves since a discovery than can be counted. -/
def CountsAll (c : Client σ) (ops : List Operation) (op : Operation) : Prop :=
  ∀ es, es <+: c.history ops ++ c.eventsAfter ops op → movesAfter c.registry.moves.toNat es < 2 ^ 64

theorem countsAll_of_length
    (h : c.registry.moves.toNat + (c.history ops ++ c.eventsAfter ops op).length < 2 ^ 64) :
    c.CountsAll ops op := by
  intro es hes
  calc movesAfter c.registry.moves.toNat es
      ≤ c.registry.moves.toNat + es.length := movesAfter_le _ es
    _ ≤ c.registry.moves.toNat + (c.history ops ++ c.eventsAfter ops op).length :=
        Nat.add_le_add_left hes.length_le _
    _ < 2 ^ 64 := h

theorem moves_upTo (hsmall : c.CountsAll ops op) (hsteps : c.registry.steps ≠ 0)
    (hes : c.eventsAfter ops op = before ++ e :: after) :
    e.client.registry.moves.toNat = c.movesUpTo ops before := by
  refine (unbroken_upTo hes).moves hsteps fun first hfirst => hsmall first (hfirst.trans ?_)
  rw [hes, ← List.append_assoc]
  exact List.prefix_append _ _

theorem movesUpTo_move (hmove : e.request.IsMove) :
    c.movesUpTo ops (before ++ [e]) = c.movesUpTo ops before + 1 := by
  unfold movesUpTo
  rw [← List.append_assoc, movesAfter_append]
  exact hmove.movesAfter _

theorem isDue_upTo (hsmall : c.CountsAll ops op)
    (hes : c.eventsAfter ops op = before ++ e :: after) (hmove : e.request.IsMove) :
    e.isDue = true ↔ c.registry.IsDueAt (c.movesUpTo ops (before ++ [e])) := by
  have hsteps := (unbroken_upTo hes).steps
  rw [e.isDue_of_move hmove]
  by_cases hzero : c.registry.steps = 0
  · simp [Registry.countMoves, Registry.IsDueAt, hsteps, hzero]
  have hmoves := moves_upTo hsmall hzero hes
  have hbound : c.movesUpTo ops (before ++ [e]) < 2 ^ 64 := by
    refine hsmall _ ?_
    rw [hes, List.prefix_append_right_inj]
    exact ⟨after, by simp⟩
  rw [movesUpTo_move hmove] at hbound ⊢
  rw [Registry.countMoves_one_eq_true_iff _ (by omega), Registry.IsDueAt, Registry.IsDueAt, hsteps,
    hmoves]

/-- A lazy client that is alone discovers the cluster again at every so many moves, and before a
command. -/
theorem cadence_of_lazy (c : Client σ) (ops : List Operation) (op : Operation)
    (hlazy : c.settings.refreshPolicy = .lazily) (hsmall : c.CountsAll ops op) :
    c.Cadence ops op := by
  obtain ⟨answer, hruns⟩ := c.runs_eventsAfter ops op
  have hbody := op.body_of_runs hruns
  refine ⟨fun _ _ _ hes hsteps => moves_upTo hsmall hsteps hes, ?_, ?_, ?_, ?_⟩
  · intro before ds after r _ hds
    rw [movesUpTo, ← List.append_assoc, movesAfter_append]
    exact movesAfter_of_run hds _
  · intro before move after hes hmove
    obtain ⟨-, r, hrefresh⟩ | hbody := hbody
    · exact absurd hmove (refreshes_of_run hrefresh move (by simp [hes])).not_move
    have hplace := hbody.place hes hmove.not_plain hmove.not_forget
    obtain ⟨pre, flag, rfl, hflag, ⟨hdue, held, later, r, rfl, hheld⟩ | ⟨hdue, hquiet⟩⟩ :=
      hplace.of_move hlazy hmove
    · refine iff_of_true ?_ ((isDue_upTo hsmall hes hmove).mp hdue)
      obtain ⟨c', hunbroken⟩ := c.unbroken_eventsAfter ops op
      rw [hes, List.append_assoc] at hunbroken
      obtain ⟨d, -, hnow⟩ := unbroken_append_iff.mp hunbroken
      obtain ⟨d', -, hpart⟩ := unbroken_append_iff.mp hnow
      exact hpart.discovers hflag hmove hheld
    · refine iff_of_false ?_ ?_
      · rintro ⟨lock, take, ds, unlock, later, r, rfl, hlock, -⟩
        exact hquiet lock rfl hlock
      · rw [← isDue_upTo hsmall hes hmove, hdue]
        exact Bool.false_ne_true
  · intro before lock after hes hlock
    obtain hcheck | ⟨init, move, rfl, hmove, hdue⟩ := op.lock_of_runs hlazy hruns hes hlock
    · exact .inl hcheck
    · rw [List.append_assoc] at hes
      exact .inr ⟨init, move, rfl, hmove, (isDue_upTo hsmall hes hmove).mp hdue⟩
  · intro before e after hes hinstalls
    obtain ⟨rfl, -⟩ | hbody := hbody
    · exact .inl rfl
    · obtain ⟨hplain, hforget⟩ := Request.not_plain_of_installs hinstalls
      exact .inr ((hbody.place hes hplain hforget).of_install hlazy hinstalls)

/-- The count of a registry says that a discovery is due if it has passed a multiple of the steps.
So a client that is alone discovers the cluster in the middle of a command exactly when the moves
since its last discovery become such a multiple. -/
theorem refreshes_at_multiples :
    (∀ (r : Registry) (d : UInt64), r.moves.toNat + d.toNat < 2 ^ 64 →
      ((r.countMoves d).1 = true ↔ 0 < r.steps.toNat ∧
        ∃ k, r.moves.toNat < k * r.steps.toNat ∧
          k * r.steps.toNat ≤ r.moves.toNat + d.toNat)) ∧
    ∀ (c : Client σ) (ops : List Operation) (op : Operation),
      c.settings.refreshPolicy = .lazily → c.CountsAll ops op → c.Cadence ops op :=
  ⟨fun r _ => r.countMoves_eq_true_iff, cadence_of_lazy⟩

/-- A client is sent away twice in one command, and its second move is due. -/
theorem refreshes_at_multiples_twice :
    let moved : Reply := .error (.known .moved (some "1 b:2"))
    let slots : Reply := .array [.array [.int 0, .int 0, .array [.nil, .int 1]]]
    let new := Canned.client { refreshSteps := 2, skipCoverageCheck := true }
      [moved, moved, slots, .okay]
    let c := new.setRegistry
      { new.registry with slots := (Topology.single (Node.new "a" 1 .master)).table }
    let op := Operation.route [Bytes.ofText "GET", Bytes.ofText "foo"] (.single .random)
    let r : Registry := { c.registry with moves := 3 }
    (r.moves.toNat + UInt64.toNat 2 < 2 ^ 64 ∧
      ((r.countMoves 2).1 = true ↔ 0 < r.steps.toNat ∧
        ∃ k, r.moves.toNat < k * r.steps.toNat ∧
          k * r.steps.toNat ≤ r.moves.toNat + UInt64.toNat 2)) ∧
    c.settings.refreshPolicy = .lazily ∧ c.CountsAll [] op ∧ c.Cadence [] op ∧
      (∃ move ∈ c.eventsAfter [] op, move.isDue = true) ∧
      (c.perform op).2.registry.moves = 0 := by
  intro moved slots new c op r
  have hcounts : c.CountsAll [] op := countsAll_of_length (by decide +kernel)
  have hsum : r.moves.toNat + UInt64.toNat 2 < 2 ^ 64 := by decide
  refine ⟨⟨hsum, (refreshes_at_multiples (σ := Canned)).1 r 2 hsum⟩, rfl, hcounts,
    refreshes_at_multiples.2 c [] op rfl hcounts, ?_, ?_⟩
  · decide +kernel
  · decide +kernel

end Client

end SlotCluster
