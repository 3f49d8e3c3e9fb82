import SlotCluster.Proofs.PlainRequests

/-!
# Discoveries and the ways to them

The events of a discovery, and of the three ways to one: before a command, after a moved slot, and
on its own.
-/

namespace SlotCluster

def Request.installs : Request → Bool
  | .install _ _ => true
  | _ => false

namespace Discovery

variable {σ : Type} [Transport σ]

open SlotCluster.Action

/-- A discovery makes plain requests. If it succeeds it ends with the one that is not. -/
theorem runs_run {s : Settings} {es : List (Event σ)} {r : Except Fault Unit}
    (h : Runs (run s) es r) :
    (∃ f, r = .error f ∧ ∀ e ∈ es, e.request.IsPlain) ∨
      ∃ init last, r = .ok () ∧ es = init ++ [last] ∧
        (∃ topology required, last.request = .install topology required) ∧
        ∀ e ∈ init, e.request.IsPlain := by
  unfold run at h
  obtain ⟨task, c, es, rfl, hes⟩ := (runs_ask_bind_iff _).mp h
  rw [runs_bind_iff] at hes
  obtain ⟨f, hsurvey, rfl⟩ | ⟨v, es₁, es₂, rfl, hsurvey, hrest⟩ := hes
  all_goals have hplain := (survey_plain s _ _ _).of_runs hsurvey
  · refine .inl ⟨f, rfl, ?_⟩
    rintro e (_ | ⟨_, he⟩)
    · trivial
    · exact hplain e he
  · obtain ⟨f, -, rfl, rfl⟩ | ⟨required, -, hinstall⟩ := runs_lift_bind_iff.mp hrest
    · refine .inl ⟨f, rfl, ?_⟩
      rw [List.append_nil]
      rintro e (_ | ⟨_, he⟩)
      · trivial
      · exact hplain e he
    · obtain ⟨task', c', rfl, rfl⟩ := (runs_ask_iff _).mp hinstall
      refine .inr ⟨_ :: es₁, _, rfl, rfl, ⟨v.topology, required, rfl⟩, ?_⟩
      rintro e (_ | ⟨_, he⟩)
      · trivial
      · exact hplain e he

theorem installs_of_run {s : Settings} {es : List (Event σ)} (h : Runs (run s) es (.ok ())) :
    ∃ e ∈ es, e.request.installs = true := by
  obtain ⟨f, hf, -⟩ | ⟨init, last, -, rfl, ⟨topology, required, hlast⟩, -⟩ := runs_run h
  · cases hf
  · exact ⟨last, by simp, by rw [hlast]; rfl⟩

theorem runs_locked {a : Action Unit} {es : List (Event σ)} {r : Except Fault Unit}
    (h : Runs (locked a) es r) :
    ∃ lock inner unlock, es = lock :: (inner ++ [unlock]) ∧ lock.request = .lock ∧
      unlock.request = .unlock ∧ Runs a inner r := by
  unfold locked at h
  obtain ⟨task, c, rest, rfl, hrest⟩ := (runs_ask_bind_iff _).mp h
  obtain ⟨x, inner, last, rfl, hinner, hlast⟩ := runs_outcome_bind_iff.mp hrest
  obtain ⟨task', c', rest, rfl, hunlock⟩ := (runs_ask_bind_iff _).mp hlast
  obtain ⟨rfl, rfl⟩ := runs_lift_iff.mp hunlock
  exact ⟨_, inner, _, rfl, rfl, rfl, hinner⟩

/-! ## Before a command -/

/-- A discovery that asks for another one if it fails. -/
inductive Retried (s : Settings) : List (Event σ) → Except Fault Unit → Prop
  | installed {es : List (Event σ)} (h : Runs (run s) es (.ok ())) : Retried s es (.ok ())
  | failed {es : List (Event σ)} {flag : Event σ} {f : Fault} (h : Runs (run s) es (.error f))
      (flag_ : flag.request = .flagRefresh) : Retried s (es ++ [flag]) (.error f)

/-- How a task finds out under the lock whether a discovery is due, and what follows. -/
inductive Due (s : Settings) : List (Event σ) → Except Fault Unit → Prop
  | met {task task' : Nat} {c c' : Client σ} (initialized : c.registry.isInitialized = true)
      (pending : c'.registry.refreshPending = false) :
      Due s [⟨task, .registry, c⟩, ⟨task', .takeRefresh, c'⟩] (.ok ())
  | taken {task task' : Nat} {c c' : Client σ} {es : List (Event σ)} {r : Except Fault Unit}
      (initialized : c.registry.isInitialized = true)
      (pending : c'.registry.refreshPending = true) (h : Retried s es r) :
      Due s (⟨task, .registry, c⟩ :: ⟨task', .takeRefresh, c'⟩ :: es) r
  | unknown {task : Nat} {c : Client σ} {es : List (Event σ)} {r : Except Fault Unit}
      (initialized : c.registry.isInitialized = false) (h : Retried s es r) :
      Due s (⟨task, .registry, c⟩ :: es) r

theorem runs_runIfDue {s : Settings} {es : List (Event σ)} {r : Except Fault Unit}
    (h : Runs (runIfDue s) es r) : Due s es r := by
  have hretried : ∀ es : List (Event σ), Runs (runOrFlag s) es r → Retried s es r := by
    intro es h
    obtain ⟨x, ds, rest, rfl, hds, hrest⟩ := runs_outcome_bind_iff.mp h
    cases x with
    | ok value =>
      obtain ⟨rfl, rfl⟩ := runs_pure_iff.mp hrest
      rw [List.append_nil]
      exact .installed hds
    | error f =>
      obtain ⟨task, c, rest, rfl, hthrow⟩ := (runs_ask_bind_iff _).mp hrest
      obtain ⟨rfl, rfl⟩ := runs_throw_iff.mp hthrow
      exact .failed hds rfl
  rw [runIfDue_eq, isDue, bind_assoc] at h
  obtain ⟨task, c, rest, rfl, hrest⟩ := (runs_ask_bind_iff _).mp h
  have hregistry : (c.answer task .registry).1 = c.registry := rfl
  rw [hregistry] at hrest
  split at hrest
  · next hinitialized =>
    obtain ⟨task', c', more, rfl, hmore⟩ := (runs_ask_bind_iff _).mp hrest
    have htaken : (c'.answer task' .takeRefresh).1 = c'.registry.refreshPending := rfl
    rw [htaken] at hmore
    split at hmore
    · next hpending => exact .taken hinitialized hpending (hretried _ hmore)
    · next hpending =>
      obtain ⟨rfl, rfl⟩ := runs_pure_iff.mp hmore
      exact .met hinitialized (by simpa using hpending)
  · next hinitialized =>
    exact .unknown (by simpa using hinitialized) (hretried _ hrest)

/-- Nothing asks for a discovery, so a command may go on with what is known. -/
def isReady (r : Registry) : Bool := r.isInitialized && !r.refreshPending

theorem runs_refreshIfNeeded_iff {s : Settings} {es : List (Event σ)} {r : Except Fault Unit} :
    Runs (refreshIfNeeded s) es r ↔ ∃ task c rest, es = ⟨task, .registry, c⟩ :: rest ∧
      if isReady c.registry then rest = [] ∧ r = .ok ()
      else Runs (locked (runIfDue s)) rest r := by
  unfold refreshIfNeeded
  refine (runs_ask_bind_iff _).trans ?_
  have hrest : ∀ (task : Nat) (c : Client σ) (rest : List (Event σ)),
      Runs (if (c.answer task .registry).1.isInitialized ∧
          !(c.answer task .registry).1.refreshPending then return
        else locked (runIfDue s)) rest r ↔
      if isReady c.registry then rest = [] ∧ r = .ok () else Runs (locked (runIfDue s)) rest r := by
    intro task c rest
    have hregistry : (c.answer task .registry).1 = c.registry := rfl
    rw [hregistry]
    unfold isReady
    by_cases hready : c.registry.isInitialized = true ∧ (!c.registry.refreshPending) = true
    · simp [hready]
    · rw [if_neg hready, if_neg (by simpa using hready)]
  constructor
  · rintro ⟨task, c, rest, rfl, h⟩
    exact ⟨task, c, rest, rfl, (hrest task c rest).mp h⟩
  · rintro ⟨task, c, rest, rfl, h⟩
    exact ⟨task, c, rest, rfl, (hrest task c rest).mpr h⟩

/-! ## After a moved slot -/

theorem runs_refreshIfPending {s : Settings} {es : List (Event σ)} {r : Except Fault Unit}
    (h : Runs (refreshIfPending s) es r) :
    ∃ task c rest, es = ⟨task, .takeRefresh, c⟩ :: rest ∧
      if c.registry.refreshPending then Runs (run s) rest r else rest = [] ∧ r = .ok () := by
  unfold refreshIfPending at h
  obtain ⟨task, c, rest, rfl, hrest⟩ := (runs_ask_bind_iff _).mp h
  have htaken : (c.answer task .takeRefresh).1 = c.registry.refreshPending := rfl
  rw [htaken] at hrest
  refine ⟨task, c, rest, rfl, ?_⟩
  split at hrest
  · next hpending => rwa [if_pos hpending]
  · next hpending =>
    rw [if_neg hpending]
    exact runs_pure_iff.mp hrest

inductive Patched (s : Settings) : List (Event σ) → Except Fault Unit → Prop
  /-- The redirect names no address. -/
  | nowhere {flag : Event σ} {f : Fault} (flag_ : flag.request = .flagRefresh) :
      Patched s [flag] (.error f)
  /-- The discovery is left to the next command. -/
  | noted {flag move : Event σ} {slot : UInt16} {host : String} {port : UInt16}
      (flag_ : flag.request = .flagRefresh) (move_ : move.request = .recordMove slot host port) :
      Patched s [flag, move] (.ok ())
  | refreshed {flag move : Event σ} {slot : UInt16} {host : String} {port : UInt16}
      {es : List (Event σ)} {r : Except Fault Unit} (flag_ : flag.request = .flagRefresh)
      (move_ : move.request = .recordMove slot host port)
      (h : Runs (locked (refreshIfPending s)) es r) : Patched s (flag :: move :: es) r

theorem runs_patchMovedSlot {s : Settings} {m : Redirect} {es : List (Event σ)}
    {r : Except Fault Unit} (h : Runs (patchMovedSlot s m) es r) : Patched s es r := by
  unfold patchMovedSlot at h
  obtain ⟨task, c, rest, rfl, hrest⟩ := (runs_ask_bind_iff _).mp h
  obtain ⟨f, -, rfl, rfl⟩ | ⟨parts, -, hmove⟩ := runs_lift_bind_iff.mp hrest
  · exact .nowhere rfl
  obtain ⟨task', c', more, rfl, hmore⟩ := (runs_ask_bind_iff _).mp hmove
  split at hmore
  · exact .refreshed rfl rfl hmore
  · obtain ⟨rfl, rfl⟩ := runs_pure_iff.mp hmore
    exact .noted rfl rfl

end Discovery

end SlotCluster
