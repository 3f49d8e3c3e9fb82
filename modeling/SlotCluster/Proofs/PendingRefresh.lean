import Mathlib.Data.List.Induction
import SlotCluster.Proofs.Canned
import SlotCluster.Proofs.Discoveries
import SlotCluster.Proofs.RefreshLock

/-!
# The pending refresh

A discovery is asked for by a moved slot, by a reset and by a discovery that failed. The request is
one flag, so it is lost as soon as somebody takes it down who does not act on it.
-/

namespace SlotCluster

variable {σ α : Type}

/-! ## The flag -/

namespace Request

def raises : Request → Bool
  | .flagRefresh | .forget => true
  | _ => false

def clears : Request → Bool
  | .takeRefresh | .install _ _ => true
  | _ => false

/-- Whether a discovery is asked for when the request is answered. -/
def pending (r : Request) (before : Bool) : Bool :=
  if r.raises then true else if r.clears then false else before

theorem pending_of_raises {r : Request} (h : r.raises = true) (before : Bool) :
    r.pending before = true := by
  unfold pending
  rw [if_pos h]

theorem not_raises_of_clears {r : Request} (h : r.clears = true) : r.raises = false := by
  cases r <;> first | rfl | cases h

theorem pending_of_clears {r : Request} (h : r.clears = true) (before : Bool) :
    r.pending before = false := by
  unfold pending
  simp [not_raises_of_clears h, h]

theorem pending_of_neither {r : Request} (hr : r.raises = false) (hc : r.clears = false)
    (before : Bool) : r.pending before = before := by
  unfold pending
  simp [hr, hc]

theorem IsPlain.not_raises {r : Request} (h : r.IsPlain) : r.raises = false := by
  cases r <;> first | rfl | exact h.elim

theorem IsPlain.not_clears {r : Request} (h : r.IsPlain) : r.clears = false := by
  cases r <;> first | rfl | exact h.elim

end Request

def pendingAfter (before : Bool) (es : List (Event σ)) : Bool :=
  es.foldl (fun pending e => e.request.pending pending) before

@[simp] theorem pendingAfter_nil (before : Bool) :
    pendingAfter before ([] : List (Event σ)) = before := rfl

@[simp] theorem pendingAfter_cons (before : Bool) (e : Event σ) (es : List (Event σ)) :
    pendingAfter before (e :: es) = pendingAfter (e.request.pending before) es := rfl

@[simp] theorem pendingAfter_append (before : Bool) (es es' : List (Event σ)) :
    pendingAfter before (es ++ es') = pendingAfter (pendingAfter before es) es' :=
  List.foldl_append ..

theorem pendingAfter_of_plain {es : List (Event σ)} (h : ∀ e ∈ es, e.request.IsPlain)
    (before : Bool) : pendingAfter before es = before := by
  induction es with
  | nil => rfl
  | cons e rest ih =>
    have he := h e (by simp)
    rw [pendingAfter_cons, Request.pending_of_neither he.not_raises he.not_clears]
    apply ih
    intro e' he'
    exact h e' (by simp [he'])

theorem pendingAfter_true_iff {es : List (Event σ)} : pendingAfter false es = true ↔
    ∃ quiet raise later, es = quiet ++ raise :: later ∧ raise.request.raises = true ∧
      ∀ e ∈ later, e.request.clears = false := by
  -- On the last event: it raises the flag, clears it, or leaves it as it was.
  induction es using List.reverseRecOn with
  | nil => simp
  | append_singleton init e ih =>
    rw [pendingAfter_append]
    simp only [pendingAfter_cons, pendingAfter_nil]
    constructor
    · intro h
      by_cases hr : e.request.raises = true
      · exact ⟨init, e, [], rfl, hr, by simp⟩
      by_cases hc : e.request.clears = true
      · rw [Request.pending_of_clears hc] at h
        cases h
      rw [Request.pending_of_neither (by simpa using hr) (by simpa using hc), ih] at h
      obtain ⟨quiet, raise, later, rfl, hraise, hlater⟩ := h
      refine ⟨quiet, raise, later ++ [e], by simp, hraise, ?_⟩
      intro e' he'
      rcases List.mem_append.mp he' with he' | he'
      · exact hlater e' he'
      · rw [List.mem_singleton.mp he']
        simpa using hc
    · rintro ⟨quiet, raise, later, hes, hraise, hlater⟩
      rcases List.eq_nil_or_concat later with rfl | ⟨more, last, rfl⟩
      · obtain ⟨-, hlast⟩ := List.append_inj' hes rfl
        rw [List.singleton_inj.mp hlast]
        exact Request.pending_of_raises hraise _
      · rw [List.concat_eq_append, ← List.cons_append, ← List.append_assoc] at hes
        obtain ⟨hinit, hlast⟩ := List.append_inj' hes rfl
        obtain rfl := List.singleton_inj.mp hlast
        have hbefore := ih.mpr ⟨quiet, raise, more, hinit, hraise, fun e' he' =>
          hlater e' (by simp [he'])⟩
        by_cases hr : e.request.raises = true
        · exact Request.pending_of_raises hr _
        · rw [Request.pending_of_neither (by simpa using hr) (hlater e (by simp)), hbefore]

namespace Client

variable [Transport σ]

theorem answer_refreshPending (c : Client σ) (task : Nat) (r : Request) :
    (c.answer task r).2.registry.refreshPending = r.pending c.registry.refreshPending := by
  cases r with
  | flagRefresh | takeRefresh | install | forget => rfl
  | recordMove slot host port =>
    obtain ⟨node, nodes, moves, hmoved⟩ := c.recordMove_frame slot host port
    have hpending := congrArg Registry.refreshPending hmoved
    exact hpending
  | lock | unlock => rfl
  | _ =>
    refine congrArg Registry.refreshPending (answer_of_plain ?_ c task).1
    trivial

theorem Unbroken.refreshPending {c c' : Client σ} {es : List (Event σ)} (h : Unbroken c es c') :
    c'.registry.refreshPending = pendingAfter c.registry.refreshPending es := by
  induction h with
  | refl c => rfl
  | answer task r c _ ih => rw [ih, pendingAfter_cons, c.answer_refreshPending task r]

theorem run_refreshPending (t : Task α) (c : Client σ) :
    (run t c).2.registry.refreshPending = pendingAfter c.registry.refreshPending (trace t c) :=
  (unbroken_trace t c).refreshPending

end Client

variable [Transport σ]

theorem Moment.Run.refreshPending {S S' : Moment σ α} {es : List (Event σ)} (h : Run S es S') :
    S'.client.registry.refreshPending = pendingAfter S.client.registry.refreshPending es := by
  induction h with
  | refl => rfl
  | quiet _ step ih =>
    rw [← ih]
    cases step with
    | wait task asks => rw [Client.enqueue_registry]
    | collect | pass => rfl
  | event _ step ih =>
    cases step with
    | answer task asks free =>
      rw [pendingAfter_append, ← ih]
      exact Client.answer_refreshPending _ _ _

/-! ## Discoveries -/

namespace Discovery

open Moment

/-- A discovery that succeeds drops every request that was made before it ends. After it, one is
pending if it was made later and nobody has taken it since. -/
theorem drops_requests {S S' : Moment σ α} {s : Settings} {i : Nat}
    {before during later : List (Event σ)} (h : Run S (before ++ during ++ later) S')
    (hrun : Action.Runs (run s) (Event.of i during) (.ok ()))
    (hend : ∀ e ∈ during.getLast?, e.task = i) :
    S'.client.registry.refreshPending = true ↔
      ∃ quiet raise rest, later = quiet ++ raise :: rest ∧ raise.request.raises = true ∧
        ∀ e ∈ rest, e.request.clears = false := by
  obtain ⟨f, hf, -⟩ | ⟨init, last, -, hof, ⟨topology, required, hlast⟩, -⟩ := runs_run hrun
  · cases hf
  obtain rfl | ⟨during, e, rfl⟩ := List.eq_nil_or_concat during
  · simp at hof
  rw [List.concat_eq_append] at h hend hof
  have he : e.task = i := hend e (by simp)
  rw [Event.of_append, Event.of_cons, if_pos he] at hof
  obtain ⟨-, hsame⟩ := List.append_inj' hof rfl
  have hinstall : e.request.clears = true := by
    rw [List.singleton_inj.mp hsame, hlast]
    rfl
  -- Whatever was pending up to here, the install clears it.
  rw [h.refreshPending, pendingAfter_append, pendingAfter_append, pendingAfter_append,
    pendingAfter_cons, Request.pending_of_clears hinstall]
  exact pendingAfter_true_iff

/-- A client is reset while a discovery asks for the coverage, after it has got its slots. -/
theorem drops_requests_reset :
    let slots : Reply := .array [.array [.int 0, .int 0, .array [.nil, .int 1]]]
    let gaps : Reply := .array [.nil, .bulk (Bytes.ofText "no")]
    let S : Moment Canned (Except Fault Unit) :=
      ⟨[Task.ofProgram (run {}).run, Task.ofProgram Dispatch.reset.run],
        Canned.client {} [slots, gaps]⟩
    let played := S.play [0, 0, 0, 0, 0, 0, 0, 1, 1, 0, 0, 0]
    Run S ([] ++ played.1 ++ []) played.2 ∧
      Action.Runs (run {}) (Event.of 0 played.1) (.ok ()) ∧
      (∀ e ∈ played.1.getLast?, e.task = 0) ∧ (∃ e ∈ played.1, e.request.raises = true) ∧
      (played.2.client.registry.refreshPending = true ↔
        ∃ quiet raise rest, ([] : List (Event Canned)) = quiet ++ raise :: rest ∧
          raise.request.raises = true ∧ ∀ e ∈ rest, e.request.clears = false) ∧
      played.2.client.registry.refreshPending = false := by
  intro slots gaps S played
  have hrun : Run S ([] ++ played.1 ++ []) played.2 := by
    rw [List.nil_append, List.append_nil]
    exact S.run_play _
  have hdone : Action.Runs (run {}) (Event.of 0 played.1) (.ok ()) := by
    refine (S.run_play _).runs rfl ?_
    decide +kernel
  have hend : ∀ e ∈ played.1.getLast?, e.task = 0 := by decide +kernel
  refine ⟨hrun, hdone, hend, ?_, drops_requests hrun hdone hend, ?_⟩
  · decide +kernel
  · decide +kernel

end Discovery

end SlotCluster
