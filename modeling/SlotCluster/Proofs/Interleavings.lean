import SlotCluster.Client.Operation
import SlotCluster.Proofs.Runs

/-!
# Interleavings

Tasks of one client whose requests are answered in any order. A task that waits takes its place
in the line at any time, and time may pass at any time. What holds of every such run holds of the
rounds in which the client gives its tasks their turns, and of every other way to schedule them.
-/

namespace SlotCluster

variable {σ α : Type}

/-! ## Moments -/

structure Moment (σ α : Type) where
  tasks : List (Task α)
  client : Client σ

/-- The task may make this request next. Of the programs that it has started any may be next. -/
inductive Task.Asks : Task α → (r : Request) → (r.Answer → Task α) → Prop
  | call (r : Request) (next : r.Answer → Task α) : Asks (.call r next) r next
  | inside (before after : List (Program BatchResult)) (r : Request)
      (next : r.Answer → Program BatchResult) (k : List BatchResult → Task α) :
      Asks (.gather (before ++ .call r next :: after) k) r
        fun a => .gather (before ++ next a :: after) k

namespace Event

def of (i : Nat) (es : List (Event σ)) : List (Event σ) := es.filter fun e => e.task == i

@[simp] theorem of_nil (i : Nat) : of i ([] : List (Event σ)) = [] := rfl

@[simp] theorem of_append (i : Nat) (es es' : List (Event σ)) :
    of i (es ++ es') = of i es ++ of i es' := List.filter_append ..

theorem of_cons (i : Nat) (e : Event σ) (es : List (Event σ)) :
    of i (e :: es) = if e.task = i then e :: of i es else of i es := by
  by_cases h : e.task = i <;> simp [of, h]

theorem of_ne_nil {i : Nat} {es : List (Event σ)} (h : of i es ≠ []) :
    ∃ before e after, es = before ++ e :: after ∧ of i before = [] ∧ e.task = i := by
  induction es with
  | nil => exact absurd rfl h
  | cons e rest ih =>
    by_cases he : e.task = i
    · exact ⟨[], e, rest, rfl, rfl, he⟩
    · rw [of_cons, if_neg he] at h
      obtain ⟨before, e', after, rfl, hbefore, he'⟩ := ih h
      exact ⟨e :: before, e', after, rfl, by rw [of_cons, if_neg he, hbefore], he'⟩

theorem mem_of_iff {i : Nat} {e : Event σ} {es : List (Event σ)} :
    e ∈ of i es ↔ e ∈ es ∧ e.task = i := by
  simp [of]

end Event

/-! ## Steps -/

variable [Transport σ]

namespace Moment

/-- What may happen. Only an answer is an event. -/
inductive Step (S : Moment σ α) : Option (Event σ) → Moment σ α → Prop
  | wait {i : Nat} {t : Task α} {r : Request} {next : r.Answer → Task α}
      (task : S.tasks[i]? = some t) (asks : t.Asks r next) :
      Step S none ⟨S.tasks, S.client.enqueue i r⟩
  | answer {i : Nat} {t : Task α} {r : Request} {next : r.Answer → Task α}
      (task : S.tasks[i]? = some t) (asks : t.Asks r next) (free : S.client.blocks i r = false) :
      Step S (some ⟨i, r, S.client⟩)
        ⟨S.tasks.set i (next (S.client.answer i r).1), (S.client.answer i r).2⟩
  | collect {i : Nat} {programs : List (Program BatchResult)} {next : List BatchResult → Task α}
      {results : List BatchResult} (task : S.tasks[i]? = some (.gather programs next))
      (done : Program.results? programs = some results) :
      Step S none ⟨S.tasks.set i (next results), S.client⟩
  | pass : Step S none ⟨S.tasks, S.client.setClock S.client.clock.advance⟩

/-! ## Runs -/

inductive Run (S : Moment σ α) : List (Event σ) → Moment σ α → Prop
  | refl : Run S [] S
  | quiet {es : List (Event σ)} {M S' : Moment σ α} (h : Run S es M) (step : Step M none S') :
      Run S es S'
  | event {es : List (Event σ)} {e : Event σ} {M S' : Moment σ α} (h : Run S es M)
      (step : Step M (some e) S') : Run S (es ++ [e]) S'

namespace Run

variable {S M S' : Moment σ α} {es es' : List (Event σ)}

theorem trans (h : Run S es M) (h' : Run M es' S') : Run S (es ++ es') S' := by
  induction h' with
  | refl => rwa [List.append_nil]
  | quiet _ step ih => exact .quiet ih step
  | event _ step ih =>
    rw [← List.append_assoc]
    exact .event ih step

theorem split (h : Run S (es ++ es') S') : ∃ M, Run S es M ∧ Run M es' S' := by
  generalize hall : es ++ es' = all at h
  induction h generalizing es es' with
  | refl =>
    obtain ⟨rfl, rfl⟩ := List.append_eq_nil_iff.mp hall
    exact ⟨S, .refl, .refl⟩
  | quiet _ step ih =>
    obtain ⟨M, h₁, h₂⟩ := ih hall
    exact ⟨M, h₁, .quiet h₂ step⟩
  | event h step ih =>
    rcases List.eq_nil_or_concat es' with rfl | ⟨init, last, rfl⟩
    · rw [List.append_nil] at hall
      subst hall
      exact ⟨_, .event h step, .refl⟩
    · rw [List.concat_eq_append, ← List.append_assoc] at hall
      obtain ⟨hinit, hlast⟩ := List.append_inj' hall rfl
      obtain rfl := List.singleton_inj.mp hlast
      rw [List.concat_eq_append]
      obtain ⟨M, h₁, h₂⟩ := ih hinit
      exact ⟨M, h₁, .event h₂ step⟩

theorem split_at {e : Event σ} (h : Run S (es ++ e :: es') S') :
    ∃ M M', Run S es M ∧ Step M (some e) M' ∧ Run M' es' S' := by
  have hsnoc : ∀ {all : List (Event σ)} {N : Moment σ α}, Run S all N → all = es ++ [e] →
      ∃ M M', Run S es M ∧ Step M (some e) M' ∧ Run M' [] N := by
    intro all N h hall
    induction h with
    | refl => simp at hall
    | quiet _ step ih =>
      obtain ⟨M, M', h₁, hstep, h₂⟩ := ih hall
      exact ⟨M, M', h₁, hstep, h₂.quiet step⟩
    | event hinit step _ =>
      obtain ⟨rfl, hlast⟩ := List.append_inj' hall rfl
      obtain rfl := List.singleton_inj.mp hlast
      exact ⟨_, _, hinit, step, .refl⟩
  rw [← List.singleton_append, ← List.append_assoc] at h
  obtain ⟨N, h₁, h₂⟩ := h.split
  obtain ⟨M, M', h₀, hstep, hquiet⟩ := hsnoc h₁ rfl
  exact ⟨M, M', h₀, hstep, hquiet.trans h₂⟩

end Run

theorem Step.client_eq {S S' : Moment σ α} {e : Event σ} (h : Step S (some e) S') :
    S.client = e.client := by
  cases h
  rfl

theorem Step.same_of_quiet {S S' : Moment σ α} (h : Step S none S') :
    S'.client.pool = S.client.pool ∧ S'.client.network = S.client.network := by
  cases h with
  | @wait i t r next task asks => cases r <;> exact ⟨rfl, rfl⟩
  | collect task done => exact ⟨rfl, rfl⟩
  | pass => exact ⟨rfl, rfl⟩

end Moment

/-! ## Ways -/

theorem Program.eq_done_of_results {β : Type} {programs : List (Program β)} {results : List β}
    (h : Program.results? programs = some results) : programs = results.map .done := by
  induction programs generalizing results with
  | nil =>
    cases h
    rfl
  | cons p rest ih =>
    cases p with
    | done value =>
      obtain ⟨values, hvalues, rfl⟩ := Option.map_eq_some_iff.mp h
      rw [List.map_cons, ← ih hvalues]
    | call r next => cases h

namespace Task

/-- The events on the way of one task, and what is left of it. -/
inductive Path : Task α → List (Event σ) → Task α → Prop
  | refl (t : Task α) : Path t [] t
  | answer {t t' : Task α} {es : List (Event σ)} {r : Request} {next : r.Answer → Task α} {i : Nat}
      {c : Client σ} (h : Path t es t') (asks : t'.Asks r next) :
      Path t (es ++ [⟨i, r, c⟩]) (next (c.answer i r).1)
  | collect {t : Task α} {es : List (Event σ)} {programs : List (Program BatchResult)}
      {next : List BatchResult → Task α} {results : List BatchResult}
      (h : Path t es (.gather programs next)) (done : Program.results? programs = some results) :
      Path t es (next results)

theorem Path.of_call {r : Request} {next : r.Answer → Task α} {es : List (Event σ)} {t : Task α}
    (h : Path (.call r next) es t) :
    es = [] ∧ t = .call r next ∨
      ∃ i c rest, es = ⟨i, r, c⟩ :: rest ∧ Path (next (c.answer i r).1) rest t := by
  generalize hstart : Task.call r next = start at h
  induction h with
  | refl => exact .inl ⟨rfl, rfl⟩
  | answer h asks ih =>
    rcases ih with ⟨rfl, rfl⟩ | ⟨j, d, rest, rfl, hpath⟩
    · subst hstart
      cases asks
      exact .inr ⟨_, _, [], rfl, .refl _⟩
    · exact .inr ⟨j, d, rest ++ [_], rfl, hpath.answer asks⟩
  | collect h done ih =>
    rcases ih with ⟨rfl, hgather⟩ | ⟨j, d, rest, rfl, hpath⟩
    · subst hstart
      cases hgather
    · exact .inr ⟨j, d, rest, rfl, hpath.collect done⟩

theorem Path.runs {t u : Task α} {es es' : List (Event σ)} {v : α} (h : Path t es u)
    (hu : Runs u es' v) : Runs t (es ++ es') v := by
  induction h generalizing es' with
  | refl => exact hu
  | @answer t' es r next i c _ asks ih =>
    rw [List.append_assoc, List.singleton_append]
    cases asks with
    | call => exact ih (.call i r next c hu)
    | inside before after r next k =>
      obtain ⟨results, es₁, es₂, rfl, hall, hk⟩ := runs_gather_iff.mp hu
      exact ih (.gather (.call i before after r next c hall) hk)
  | @collect es programs next results _ done ih =>
    have hall : Program.RunsAll programs ([] : List (Event σ)) results := by
      rw [Program.eq_done_of_results done]
      exact .done results
    exact ih (.gather hall hu)

end Task

namespace Moment

omit [Transport σ] in
theorem task_of_set {tasks : List (Task α)} {i j : Nat} {t u : Task α}
    (h : (tasks.set i t)[j]? = some u) : (i = j ∧ u = t) ∨ (i ≠ j ∧ tasks[j]? = some u) := by
  by_cases hij : i = j
  · subst hij
    have hlt := (List.getElem?_eq_some_iff.mp h).1
    rw [List.length_set] at hlt
    rw [List.getElem?_set_self hlt] at h
    exact .inl ⟨rfl, (Option.some.inj h).symm⟩
  · rw [List.getElem?_set_ne hij] at h
    exact .inr ⟨hij, h⟩

theorem Run.path {S S' : Moment σ α} {es : List (Event σ)} (h : Run S es S') {i : Nat} {t : Task α}
    (ht : S.tasks[i]? = some t) : ∃ t', S'.tasks[i]? = some t' ∧ t.Path (Event.of i es) t' := by
  induction h with
  | refl => exact ⟨t, ht, .refl t⟩
  | quiet _ step ih =>
    obtain ⟨t', ht', hpath⟩ := ih
    cases step with
    | wait | pass => exact ⟨t', ht', hpath⟩
    | @collect j programs next results task done =>
      by_cases hij : j = i
      · subst hij
        rw [task] at ht'
        cases ht'
        exact ⟨_, List.getElem?_set_self (List.getElem?_eq_some_iff.mp task).1, hpath.collect done⟩
      · exact ⟨t', by rw [List.getElem?_set_ne hij, ht'], hpath⟩
  | event _ step ih =>
    obtain ⟨t', ht', hpath⟩ := ih
    cases step with
    | @answer j u r next task asks free =>
      rw [Event.of_append, Event.of_cons]
      by_cases hij : j = i
      · subst hij
        rw [task] at ht'
        cases ht'
        refine ⟨_, List.getElem?_set_self (List.getElem?_eq_some_iff.mp task).1, ?_⟩
        simpa using hpath.answer asks (i := j) (c := _)
      · refine ⟨t', by rw [List.getElem?_set_ne hij, ht'], ?_⟩
        simpa [hij] using hpath

theorem Run.still {S S' : Moment σ α} {es : List (Event σ)} (h : Run S es S') {i : Nat}
    {r : Request} {next : r.Answer → Task α} (ht : S.tasks[i]? = some (.call r next))
    (hes : Event.of i es = []) : S'.tasks[i]? = some (.call r next) := by
  obtain ⟨t, ht', hpath⟩ := h.path ht
  rw [hes] at hpath
  obtain ⟨-, rfl⟩ | ⟨j, c, rest, hrest, -⟩ := hpath.of_call
  · exact ht'
  · cases hrest

theorem Run.task_runs {S S' : Moment σ α} {es : List (Event σ)} (h : Run S es S') {i : Nat}
    {t : Task α} {v : α} (ht : S.tasks[i]? = some t)
    (hv : S'.tasks[i]?.bind Task.result? = some v) : Task.Runs t (Event.of i es) v := by
  obtain ⟨u, hu, hpath⟩ := h.path ht
  rw [hu] at hv
  have hdone : u = .done v := by
    cases u with
    | done w => rw [Option.some.inj hv]
    | call | gather => cases hv
  rw [hdone] at hpath
  simpa using hpath.runs (.done v)

theorem Run.runs {S S' : Moment σ α} {es : List (Event σ)} (h : Run S es S') {i : Nat}
    {p : Program α} {v : α} (hp : S.tasks[i]? = some (Task.ofProgram p))
    (hv : S'.tasks[i]?.bind Task.result? = some v) : Program.Runs p (Event.of i es) v :=
  Task.runs_ofProgram_iff.mp (h.task_runs hp hv)

/-! ## Schedules -/

/-- Lets a task make its next request, unless it has to wait. -/
def advance? (i : Nat) (S : Moment σ α) : Option (Event σ × Moment σ α) :=
  match S.tasks[i]? with
  | some (.call r next) =>
    let c := S.client.enqueue i r
    if c.blocks i r then none
    else some (⟨i, r, c⟩, ⟨S.tasks.set i (next (c.answer i r).1), (c.answer i r).2⟩)
  | _ => none

def play (S : Moment σ α) : List Nat → List (Event σ) × Moment σ α
  | [] => ([], S)
  | i :: rest =>
    match S.advance? i with
    | none => S.play rest
    | some (e, S') => (e :: (S'.play rest).1, (S'.play rest).2)

theorem run_advance {i : Nat} {S S' : Moment σ α} {e : Event σ} (h : S.advance? i = some (e, S')) :
    Run S [e] S' := by
  unfold advance? at h
  split at h
  · next r next htask =>
    simp only at h
    split at h
    · cases h
    · next hfree =>
      cases h
      have hwait := Run.refl.quiet (.wait htask (.call r next))
      exact hwait.event (.answer htask (.call r next) (by simpa using hfree))
  · cases h

theorem run_play (schedule : List Nat) (S : Moment σ α) :
    Run S (S.play schedule).1 (S.play schedule).2 := by
  induction schedule generalizing S with
  | nil => exact .refl
  | cons i rest ih =>
    unfold play
    split
    · exact ih S
    · next e S' h => exact (run_advance h).trans (ih S')

end Moment

/-! ## Turns that do nothing -/

namespace Program

theorem turn_moved {β : Type} (i : Nat) (p : Program β) (c : Client σ) :
    (turn i true p c).moved = true := by
  induction p generalizing c with
  | done value => rfl
  | call r next ih =>
    unfold turn
    simp only
    split
    · rfl
    · split
      · rfl
      · exact ih _ _

theorem rest_of_still {β : Type} {i : Nat} {moved : Bool} {p : Program β} {c : Client σ}
    (h : (turn i moved p c).moved = false) : (turn i moved p c).rest = p := by
  cases p with
  | done value => rfl
  | call r next =>
    unfold turn at h ⊢
    simp only at h ⊢
    split
    · rfl
    · next hfree =>
      rw [if_neg hfree] at h
      split at h
      · cases h
      · rw [turn_moved] at h
        cases h

theorem rest_of_all_still {β : Type} {i : Nat} {ps : List (Program β)} {c : Client σ}
    (h : (turnAll i ps c).moved = false) : (turnAll i ps c).rest = ps := by
  induction ps generalizing c with
  | nil => rfl
  | cons p rest ih =>
    simp only [turnAll, Bool.or_eq_false_iff] at h
    simp only [turnAll, rest_of_still h.1, ih h.2]

end Program

namespace Task

theorem turn_moved (i : Nat) (t : Task α) (c : Client σ) : (turn i true t c).moved = true := by
  induction t generalizing c with
  | done value => rfl
  | call r next ih =>
    unfold turn
    simp only
    split
    · rfl
    · split
      · rfl
      · exact ih _ _
  | gather programs next ih =>
    unfold turn
    simp only
    split
    · exact ih _ _
    · rfl

theorem rest_of_still {i : Nat} {moved : Bool} {t : Task α} {c : Client σ}
    (h : (turn i moved t c).moved = false) : (turn i moved t c).rest = t := by
  cases t with
  | done value => rfl
  | call r next =>
    unfold turn at h ⊢
    simp only at h ⊢
    split
    · rfl
    · next hfree =>
      rw [if_neg hfree] at h
      split at h
      · cases h
      · rw [turn_moved] at h
        cases h
  | gather programs next =>
    unfold turn at h ⊢
    simp only at h ⊢
    split at h
    · rw [turn_moved] at h
      cases h
    · simp only [Bool.or_eq_false_iff] at h
      rw [Program.rest_of_all_still h.2]

theorem rest_of_round_still {first : Nat} {ts : List (Task α)} {c : Client σ}
    (h : (round first ts c).moved = false) : (round first ts c).rest = ts := by
  induction ts generalizing first c with
  | nil => rfl
  | cons t rest ih =>
    simp only [round, Bool.or_eq_false_iff] at h
    simp only [round, rest_of_still h.1, ih h.2]

end Task

/-! ## Turns and rounds -/

open Moment

namespace Program

variable {ts : List (Task α)} {i : Nat} {c : Client σ} {k : List BatchResult → Task α}

theorem run_turn (hi : i < ts.length) (before after : List (Program BatchResult))
    (p : Program BatchResult) (moved : Bool) (c : Client σ) :
    ∃ es, Run ⟨ts.set i (.gather (before ++ p :: after) k), c⟩ es
      ⟨ts.set i (.gather (before ++ (turn i moved p c).rest :: after) k),
        (turn i moved p c).client⟩ := by
  induction p generalizing moved c with
  | done value => exact ⟨[], .refl⟩
  | call r next ih =>
    have htask : (ts.set i (.gather (before ++ .call r next :: after) k))[i]? = some _ :=
      List.getElem?_set_self hi
    have hwait := Run.refl.quiet (.wait (S := ⟨_, c⟩) htask (.inside before after r next k))
    unfold turn
    simp only
    split
    · exact ⟨[], hwait⟩
    · next hfree =>
      have hanswer :=
        hwait.event (.answer htask (.inside before after r next k) (by simpa using hfree))
      rw [List.set_set] at hanswer
      split
      · exact ⟨_, hanswer⟩
      · obtain ⟨es, h⟩ := ih ((c.enqueue i r).answer i r).1 true ((c.enqueue i r).answer i r).2
        exact ⟨_, hanswer.trans h⟩

theorem run_turnAll (hi : i < ts.length) (before ps : List (Program BatchResult)) (c : Client σ) :
    ∃ es, Run ⟨ts.set i (.gather (before ++ ps) k), c⟩ es
      ⟨ts.set i (.gather (before ++ (turnAll i ps c).rest) k), (turnAll i ps c).client⟩ := by
  induction ps generalizing before c with
  | nil => exact ⟨[], .refl⟩
  | cons p rest ih =>
    obtain ⟨es, h⟩ := run_turn (k := k) hi before rest p false c
    obtain ⟨es', h'⟩ := ih (before ++ [(turn i false p c).rest]) (turn i false p c).client
    rw [List.append_assoc, List.singleton_append] at h'
    refine ⟨es ++ es', ?_⟩
    unfold turnAll
    simpa using h.trans h'

end Program

namespace Task

theorem run_turn {ts : List (Task α)} {i : Nat} (hi : i < ts.length) (t : Task α) (moved : Bool)
    (c : Client σ) :
    ∃ es, Run ⟨ts.set i t, c⟩ es ⟨ts.set i (turn i moved t c).rest, (turn i moved t c).client⟩ := by
  induction t generalizing moved c with
  | done value => exact ⟨[], .refl⟩
  | call r next ih =>
    have htask : (ts.set i (.call r next))[i]? = some (.call r next) := List.getElem?_set_self hi
    have hwait := Run.refl.quiet (.wait (S := ⟨_, c⟩) htask (.call r next))
    unfold turn
    simp only
    split
    · exact ⟨[], hwait⟩
    · next hfree =>
      have hanswer := hwait.event (.answer htask (.call r next) (by simpa using hfree))
      rw [List.set_set] at hanswer
      split
      · exact ⟨_, hanswer⟩
      · obtain ⟨es, h⟩ := ih ((c.enqueue i r).answer i r).1 true ((c.enqueue i r).answer i r).2
        exact ⟨_, hanswer.trans h⟩
  | gather programs next ih =>
    obtain ⟨es, h⟩ := Program.run_turnAll (k := next) hi [] programs c
    rw [List.nil_append, List.nil_append] at h
    unfold turn
    simp only
    split
    · next results hdone =>
      have hcollect := h.quiet (.collect (List.getElem?_set_self hi) hdone)
      rw [List.set_set] at hcollect
      obtain ⟨es', h'⟩ := ih results true (Program.turnAll i programs c).client
      exact ⟨_, hcollect.trans h'⟩
    · exact ⟨es, h⟩

theorem run_round (before ts : List (Task α)) (c : Client σ) :
    ∃ es, Run ⟨before ++ ts, c⟩ es
      ⟨before ++ (round before.length ts c).rest, (round before.length ts c).client⟩ := by
  induction ts generalizing before c with
  | nil => exact ⟨[], .refl⟩
  | cons t rest ih =>
    have hset : ∀ u, before ++ u :: rest = (before ++ t :: rest).set before.length u := by simp
    have hlt : before.length < (before ++ t :: rest).length := by simp
    obtain ⟨es, h⟩ := run_turn hlt t false c
    rw [← hset, ← hset] at h
    obtain ⟨es', h'⟩ := ih (before ++ [(turn before.length false t c).rest])
      (turn before.length false t c).client
    rw [List.append_assoc, List.singleton_append, List.length_append] at h'
    refine ⟨es ++ es', ?_⟩
    unfold round
    simpa using h.trans h'

end Task

namespace Client

theorem run_later (tasks : List (Task α)) (c : Client σ)
    (hstill : ¬(Task.round 0 tasks c).moved = true) :
    let turned := Task.round 0 tasks c
    let later := Task.round 0 tasks (turned.client.setClock turned.client.clock.advance)
    ∃ es, Run ⟨tasks, c⟩ es ⟨later.rest, later.client⟩ := by
  intro turned later
  -- The first round leaves the tasks as they were, so the second one starts from the same tasks.
  obtain ⟨es, h⟩ := Task.run_round [] tasks c
  have hrest : turned.rest = tasks := Task.rest_of_round_still (by simpa using hstill)
  have hpass := h.quiet .pass
  simp only [List.nil_append, List.length_nil] at hpass
  rw [show (Task.round 0 tasks c).rest = tasks from hrest] at hpass
  obtain ⟨es', h'⟩ := Task.run_round [] tasks (turned.client.setClock turned.client.clock.advance)
  exact ⟨_, hpass.trans h'⟩

theorem run_settle (tasks : List (Task α)) (c : Client σ) :
    ∃ es, Run ⟨tasks, c⟩ es ⟨(settle tasks c).1, (settle tasks c).2⟩ := by
  induction tasks, c using settle.induct with
  | case1 tasks c turned hmoved hdown ih =>
    obtain ⟨es, h⟩ := Task.run_round [] tasks c
    obtain ⟨es', h'⟩ := ih
    rw [settle, dif_pos hmoved]
    exact ⟨_, h.trans h'⟩
  | case2 tasks c turned hmoved later hlater hdown ih =>
    obtain ⟨es, h⟩ := run_later tasks c hmoved
    obtain ⟨es', h'⟩ := ih
    rw [settle, dif_neg hmoved, dif_pos hlater]
    exact ⟨_, h.trans h'⟩
  | case3 tasks c turned hmoved later hlater =>
    obtain ⟨es, h⟩ := run_later tasks c hmoved
    rw [settle, dif_neg hmoved, dif_neg hlater]
    exact ⟨es, h⟩

theorem run_performAll (c : Client σ) (ops : List Operation) :
    ∃ es S', Run ⟨ops.map fun op => op.task c.settings, c⟩ es S' ∧
      c.performAll ops = (S'.tasks.map Task.result?, S'.client) := by
  obtain ⟨es, h⟩ := run_settle (ops.map fun op => op.task c.settings) c
  exact ⟨es, _, h, rfl⟩

end Client

end SlotCluster
