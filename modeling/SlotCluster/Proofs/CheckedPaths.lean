import SlotCluster.Proofs.CommandChecks

/-!
# What a command has done

How far a command has come follows from its own events, and so does most of what it has done. One
that installs a topology has just come to the end of a discovery.
-/

namespace SlotCluster

variable {σ α : Type} [Transport σ]

/-! ## The way of a command -/

theorem Task.Path.of_program {β : Type} (c : Client σ) {p : Program β} {k : β → Task α}
    {es : List (Event σ)} {t : Task α} (h : ((ofProgram p).bind k).Path es t) :
    (∃ es₁ es₂ v, es = es₁ ++ es₂ ∧ Program.Runs p es₁ v ∧ (k v).Path es₂ t) ∨
      (∃ left v, left ≠ [] ∧ Program.Runs p (es ++ left) v) ∧ ∀ a, t ≠ .done a := by
  induction p generalizing es with
  | done v => exact .inl ⟨[], es, v, rfl, .done v, h⟩
  | call r next ih =>
    have hcall : (Task.call r fun a => (ofProgram (next a)).bind k).Path es t := h
    obtain ⟨rfl, rfl⟩ | ⟨i, d, rest, rfl, hrest⟩ := hcall.of_call
    · obtain ⟨left, v, hleft⟩ := Program.exists_runs c (.call r next)
      refine .inr ⟨⟨left, v, ?_, hleft⟩, nofun⟩
      rintro rfl
      cases hleft
    · obtain ⟨es₁, es₂, v, rfl, hp, hk⟩ | ⟨⟨left, v, hleft, hp⟩, hbusy⟩ := ih _ hrest
      · exact .inl ⟨_ :: es₁, es₂, v, rfl, .call i r next d hp, hk⟩
      · exact .inr ⟨⟨left, v, hleft, .call i r next d hp⟩, hbusy⟩

/-! ## Discoveries that have ended -/

theorem Request.IsPlain.not_installs {r : Request} (h : r.IsPlain) : r.installs = false := by
  cases r <;> first | rfl | exact h.elim

omit [Transport σ] in
theorem Event.split_unique {front back init rest : List (Event σ)} {e last : Event σ}
    (h : front ++ e :: back = init ++ last :: rest) (he : e.request.installs = true)
    (hinit : ∀ d ∈ init, d.request.installs = false)
    (hrest : ∀ d ∈ rest, d.request.installs = false) : front = init ∧ e = last ∧ back = rest := by
  have hnot : ∀ {es : List (Event σ)}, (∀ d ∈ es, d.request.installs = false) → e ∉ es := by
    intro es hes hmem
    rw [hes e hmem] at he
    cases he
  obtain ⟨hfront, hlast, hback⟩ :=
    (List.append_cons_inj_of_notMem (hnot hinit) (hnot hrest)).mp h.symm
  exact ⟨hfront.symm, hlast.symm, hback.symm⟩

namespace Discovery

open SlotCluster.Action

/-- The events before a discovery that a command has to make. Under the lock it has found no slots,
or a request for a discovery. -/
inductive Lead : List (Event σ) → Prop
  | unknown {arrival lock : Event σ} {task : Nat} {c : Client σ}
      (arrival_ : arrival.request = .registry) (lock_ : lock.request = .lock)
      (initialized : c.registry.isInitialized = false) : Lead [arrival, lock, ⟨task, .registry, c⟩]
  | due {arrival lock : Event σ} {task task' : Nat} {c c' : Client σ}
      (arrival_ : arrival.request = .registry) (lock_ : lock.request = .lock)
      (initialized : c.registry.isInitialized = true)
      (pending : c'.registry.refreshPending = true) :
      Lead [arrival, lock, ⟨task, .registry, c⟩, ⟨task', .takeRefresh, c'⟩]

omit [Transport σ] in
theorem Lead.installs {lead : List (Event σ)} (h : Lead lead) :
    ∀ e ∈ lead, e.request.installs = false := by
  cases h with
  | unknown arrival_ lock_ => simp [arrival_, lock_, Request.installs]
  | due arrival_ lock_ => simp [arrival_, lock_, Request.installs]

/-- A command has come to a discovery, and has just brought it to this end. -/
def Discovers (s : Settings) (es : List (Event σ)) (r : Except Fault Unit) : Prop :=
  ∃ lead ds, es = lead ++ ds ∧ Lead lead ∧ Runs (run s) ds r

variable {s : Settings}

/-- A check installs nothing, or it does so at the end of a discovery and has only to give the lock
back then. One that fails asks for another discovery. -/
inductive Checked (s : Settings) : List (Event σ) → Except Fault Unit → Prop
  | spared {es : List (Event σ)} (installs : ∀ e ∈ es, e.request.installs = false) :
      Checked s es (.ok ())
  | failed {es : List (Event σ)} {f : Fault} (installs : ∀ e ∈ es, e.request.installs = false)
      (flags : ∃ e ∈ es, e.request = .flagRefresh) : Checked s es (.error f)
  | discovered {init : List (Event σ)} {last unlock : Event σ}
      (none_ : ∀ e ∈ init, e.request.installs = false) (installs : last.request.installs = true)
      (unlock_ : unlock.request = .unlock) (ran : Discovers s (init ++ [last]) (.ok ())) :
      Checked s (init ++ last :: [unlock]) (.ok ())

theorem Checked.of_retried {lead es : List (Event σ)} {unlock : Event σ} {r : Except Fault Unit}
    (hlead : Lead lead) (h : Retried s es r) (hunlock : unlock.request = .unlock) :
    Checked s (lead ++ (es ++ [unlock])) r := by
  have hplain : ∀ {ds : List (Event σ)}, (∀ e ∈ ds, e.request.IsPlain) →
      ∀ e ∈ lead ++ ds, e.request.installs = false := by
    intro ds hds
    exact List.forall_mem_append.mpr ⟨hlead.installs, fun e he => (hds e he).not_installs⟩
  cases h with
  | installed h =>
    obtain ⟨f, hf, -⟩ | ⟨init, last, -, rfl, ⟨t, required, hlast⟩, hinit⟩ := runs_run h
    · cases hf
    rw [List.append_assoc, List.singleton_append, ← List.append_assoc]
    refine .discovered (hplain hinit) (by rw [hlast]; rfl) hunlock ⟨lead, init ++ [last], ?_⟩
    exact ⟨List.append_assoc .., hlead, h⟩
  | @failed ds flag f h flag_ =>
    obtain ⟨-, -, hds⟩ | ⟨init, last, hok, -⟩ := runs_run h
    · refine .failed ?_ ⟨flag, by simp, flag_⟩
      rw [List.append_assoc, ← List.append_assoc]
      refine List.forall_mem_append.mpr ⟨hplain hds, ?_⟩
      simp [flag_, hunlock, Request.installs]
    · cases hok

theorem checked_of_runs {es : List (Event σ)} {r : Except Fault Unit}
    (h : Runs (refreshIfNeeded s) es r) : Checked s es r := by
  obtain ⟨task, c, rest, rfl, hrest⟩ := runs_refreshIfNeeded_iff.mp h
  split at hrest
  · obtain ⟨rfl, rfl⟩ := hrest
    exact .spared (by simp [Request.installs])
  obtain ⟨lock, inner, unlock, rfl, hlock, hunlock, hinner⟩ := runs_locked hrest
  cases runs_runIfDue hinner with
  | met => exact .spared (by simp [Request.installs, hlock, hunlock])
  | taken initialized pending h => exact .of_retried (.due rfl hlock initialized pending) h hunlock
  | unknown initialized h => exact .of_retried (.unknown rfl hlock initialized) h hunlock

theorem not_failed_of_raises {es : List (Event σ)} (h : ∀ e ∈ es, e.request.raises = false)
    (f : Fault) : ¬ Runs (refreshIfNeeded s) es (.error f) := by
  intro hfails
  cases checked_of_runs hfails with
  | failed installs flags =>
    obtain ⟨e, he, hflag⟩ := flags
    have hraises := h e he
    rw [hflag] at hraises
    cases hraises

theorem discovers_of_check {before left : List (Event σ)} {e : Event σ} {r : Except Fault Unit}
    (h : Runs (refreshIfNeeded s) (before ++ e :: left) r) (he : e.request.installs = true) :
    Discovers s (before ++ [e]) (.ok ()) := by
  generalize hall : before ++ e :: left = all at h
  have hmem : e ∈ all := by rw [← hall]; simp
  cases checked_of_runs h with
  | spared installs | failed installs =>
    rw [installs e hmem] at he
    cases he
  | discovered none_ installs unlock_ ran =>
    obtain ⟨rfl, rfl, -⟩ :=
      Event.split_unique hall he none_ (by simp [unlock_, Request.installs])
    exact ran

end Discovery

/-! ## How far a task has come -/

namespace Moment

def stage (i : Nat) (es : List (Event σ)) : Stage := checkProtocol.phase .fresh (Event.of i es)

theorem stage_snoc (i : Nat) (es : List (Event σ)) (e : Event σ) :
    stage i (es ++ [e]) =
      if e.task = i then checkProtocol.next (stage i es) e.request e.answer else stage i es := by
  unfold stage
  rw [Event.of_append, Event.of_cons]
  split
  · exact checkProtocol.phase_append .fresh _ _
  · rw [Event.of_nil, List.append_nil]

theorem phase_past (es : List (Event σ)) : checkProtocol.phase .past es = .past := by
  induction es with
  | nil => rfl
  | cons e rest ih => exact ih

theorem phase_gone (es : List (Event σ)) : checkProtocol.phase .gone es = .gone := by
  induction es with
  | nil => rfl
  | cons e rest ih => exact ih

theorem checking_of_path {s : Settings} {t u : Task Answer} {es : List (Event σ)} (c : Client σ)
    (ht : Operation.ChecksFirst s t) (h : t.Path es u) :
    (checkProtocol.phase .fresh es = .past ∨ checkProtocol.phase .fresh es = .gone) ∨
      (∃ left r, left ≠ [] ∧ Action.Runs (Discovery.refreshIfNeeded s) (es ++ left) r) ∧
        ∀ a, u ≠ .done a := by
  obtain ⟨k, rfl⟩ := ht.begins
  obtain ⟨check, rest, r, rfl, hcheck, -⟩ | hbusy := h.of_program c
  · refine .inl ?_
    have hphase := (Discovery.refreshIfNeeded_keeps_check s).of_runs hcheck
    rw [Protocol.phase_append, hphase]
    cases r with
    | ok _ => exact .inl (phase_past rest)
    | error f => exact .inr (phase_gone rest)
  · exact .inr hbusy

theorem failed_of_gone {s : Settings} {t u : Task Answer} {es : List (Event σ)} (c : Client σ)
    (ht : Operation.ChecksFirst s t) (h : t.Path es u)
    (hgone : checkProtocol.phase .fresh es = .gone) :
    ∃ check rest f, es = check ++ rest ∧
      Action.Runs (Discovery.refreshIfNeeded s) check (.error f) := by
  have hkeeps := Discovery.refreshIfNeeded_keeps_check s
  obtain ⟨k, rfl⟩ := ht.begins
  obtain ⟨check, rest, r, rfl, hcheck, -⟩ | ⟨⟨left, r, hleft, hcheck⟩, -⟩ := h.of_program c
  · cases r with
    | ok _ =>
      rw [Protocol.phase_append, hkeeps.of_runs hcheck, phase_past] at hgone
      cases hgone
    | error f => exact ⟨check, rest, f, rfl, hcheck⟩
  · obtain ⟨e, left, rfl⟩ := List.exists_cons_of_ne_nil hleft
    have hallows := hkeeps.allows_of_runs hcheck
    rw [hgone] at hallows
    exact hallows.elim

end Moment

/-! ## What it has done -/

namespace Stage

/-- The requests of a command that has to wait for the lock, and finds the slots known then. -/
def waiting : List Request := [.registry, .lock, .registry, .takeRefresh, .unlock]

/-- What is known of the events of a command that has come this far. -/
inductive Told : Stage → List (Event σ) → Prop
  | fresh : Told .fresh []
  | queued {es : List (Event σ)} (h : es.map Event.request = waiting.take 1) : Told .queued es
  | inside {es : List (Event σ)} (h : es.map Event.request = waiting.take 2) : Told .inside es
  | looked {es : List (Event σ)} (h : es.map Event.request = waiting.take 3) : Told .looked es
  | met {es : List (Event σ)} (h : es.map Event.request = waiting.take 4) : Told .met es
  | past {check rest : List (Event σ)}
      (h : check.map Event.request = waiting.take 1 ∨ check.map Event.request = waiting)
      (plain : ∀ e ∈ rest, e.request.IsPlain) : Told .past (check ++ rest)
  | installed {es : List (Event σ)} {last : Event σ} (installs : last.request.installs = true) :
      Told .met (es ++ [last])
  | discovered {es rest : List (Event σ)} {last unlock : Event σ}
      (installs : last.request.installs = true) (unlock_ : unlock.request = .unlock)
      (plain : ∀ e ∈ rest, e.request.IsPlain) : Told .past (es ++ last :: unlock :: rest)
  | discovering (es : List (Event σ)) : Told .discovering es
  | failed (es : List (Event σ)) : Told .failed es
  | gone (es : List (Event σ)) : Told .gone es

omit [Transport σ] in
theorem Told.ends_check {es : List (Event σ)}
    (h : es.map Event.request = waiting.take 1 ∨ es.map Event.request = waiting) :
    Told .past es := by
  have htold : Told .past (es ++ []) := .past h (by simp)
  rwa [List.append_nil] at htold

theorem Told.next {φ : Stage} {es : List (Event σ)} (h : Told φ es) (e : Event σ)
    (hallows : checkProtocol.Allows φ e.request) :
    Told (checkProtocol.next φ e.request e.answer) (es ++ [e]) := by
  obtain ⟨i, r, c⟩ := e
  -- What is told so far fixes the stage, and the stage the request.
  cases h with
  | fresh =>
    obtain rfl : r = .registry := hallows
    have hnext : checkProtocol.next .fresh .registry (c.answer i .registry).1 =
        if Discovery.isReady c.registry then Stage.past else .queued := rfl
    change Told (checkProtocol.next .fresh .registry (c.answer i .registry).1) _
    rw [hnext]
    split
    · exact .ends_check (.inl rfl)
    · exact .queued rfl
  | queued h =>
    obtain rfl : r = .lock := hallows
    exact .inside (by rw [List.map_append, h]; rfl)
  | inside h =>
    obtain rfl : r = .registry := hallows
    have hnext : checkProtocol.next .inside .registry (c.answer i .registry).1 =
        if c.registry.isInitialized then Stage.looked else .discovering := rfl
    change Told (checkProtocol.next .inside .registry (c.answer i .registry).1) _
    rw [hnext]
    split
    · exact .looked (by rw [List.map_append, h]; rfl)
    · exact .discovering _
  | looked h =>
    obtain rfl : r = .takeRefresh := hallows
    have hnext : checkProtocol.next .looked .takeRefresh (c.answer i .takeRefresh).1 =
        if c.registry.refreshPending then Stage.discovering else .met := rfl
    change Told (checkProtocol.next .looked .takeRefresh (c.answer i .takeRefresh).1) _
    rw [hnext]
    split
    · exact .discovering _
    · exact .met (by rw [List.map_append, h]; rfl)
  | met h =>
    obtain rfl : r = .unlock := hallows
    exact .ends_check (.inr (by rw [List.map_append, h]; rfl))
  | past h plain =>
    rw [List.append_assoc]
    exact .past h (List.forall_mem_append.mpr ⟨plain, List.forall_mem_singleton.mpr hallows⟩)
  | installed installs =>
    obtain rfl : r = .unlock := hallows
    rw [List.append_assoc]
    exact .discovered installs rfl (by simp)
  | discovered installs unlock_ plain =>
    rw [List.append_assoc]
    have hrest := List.forall_mem_append.mpr ⟨plain, List.forall_mem_singleton.mpr hallows⟩
    exact .discovered installs unlock_ hrest
  | discovering es =>
    rcases hallows with hplain | hinstalls | hflag
    · rw [checkProtocol_next_plain hplain]
      exact .discovering _
    · cases r with
      | install => exact .installed rfl
      | _ => exact hinstalls.elim
    · obtain rfl : r = .flagRefresh := hflag
      exact .failed _
  | failed es =>
    obtain rfl : r = .unlock := hallows
    exact .gone _
  | gone => exact hallows.elim

end Stage

end SlotCluster
