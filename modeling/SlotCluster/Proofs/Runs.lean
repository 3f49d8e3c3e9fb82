import SlotCluster.Client.Exchange
import SlotCluster.Client.State

/-!
# Runs of a program

An event is a request together with the client that answers it. A run of a program is the list of
its events. Between two events the client may become any other: tasks beside the program, the
network and time may have changed it. What holds of every run holds whatever else goes on.
-/

namespace SlotCluster

variable {σ : Type} [Transport σ]

/-! ## Events -/

/-- A task makes a request, and a client answers it. -/
structure Event (σ : Type) where
  task : Nat
  request : Request
  client : Client σ

namespace Event

def answer (e : Event σ) : e.request.Answer := (e.client.answer e.task e.request).1

def after (e : Event σ) : Client σ := (e.client.answer e.task e.request).2

end Event

/-! ## Whole runs -/

namespace Program

/-- The events of a whole run, and its value. -/
inductive Runs {α : Type} : Program α → List (Event σ) → α → Prop
  | done (value : α) : Runs (done value) [] value
  | call (task : Nat) (r : Request) (next : r.Answer → Program α) (c : Client σ)
      {es : List (Event σ)} {value : α} (h : Runs (next (c.answer task r).1) es value) :
      Runs (call r next) (⟨task, r, c⟩ :: es) value

variable {α β : Type} {es : List (Event σ)}

theorem runs_done_iff {value v : α} : Runs (done value) es v ↔ es = [] ∧ v = value := by
  constructor
  · intro h
    cases h
    exact ⟨rfl, rfl⟩
  · rintro ⟨rfl, rfl⟩
    exact .done v

theorem runs_call_iff {r : Request} {next : r.Answer → Program α} {v : α} :
    Runs (call r next) es v ↔
      ∃ task c rest, es = ⟨task, r, c⟩ :: rest ∧ Runs (next (c.answer task r).1) rest v := by
  constructor
  · intro h
    cases h with
    | call task r next c h => exact ⟨task, c, _, rfl, h⟩
  · rintro ⟨task, c, rest, rfl, h⟩
    exact .call task r next c h

theorem runs_bind_iff {p : Program α} {f : α → Program β} {v : β} :
    Runs (p.bind f) es v ↔ ∃ x es₁ es₂, es = es₁ ++ es₂ ∧ Runs p es₁ x ∧ Runs (f x) es₂ v := by
  induction p generalizing es with
  | done value =>
    simp only [bind, runs_done_iff]
    constructor
    · intro h
      exact ⟨value, [], es, rfl, ⟨rfl, rfl⟩, h⟩
    · rintro ⟨x, es₁, es₂, rfl, ⟨rfl, rfl⟩, h⟩
      exact h
  | call r next ih =>
    simp only [bind, runs_call_iff, ih]
    constructor
    · rintro ⟨task, c, rest, rfl, x, es₁, es₂, rfl, h₁, h₂⟩
      exact ⟨x, ⟨task, r, c⟩ :: es₁, es₂, rfl, ⟨task, c, es₁, rfl, h₁⟩, h₂⟩
    · rintro ⟨x, es₁, es₂, rfl, ⟨task, c, rest, rfl, h₁⟩, h₂⟩
      exact ⟨task, c, rest ++ es₂, rfl, x, rest, es₂, rfl, h₁, h₂⟩

theorem runs_ask_iff (q : Request) {v : q.Answer} :
    Runs (ask q) es v ↔ ∃ task c, es = [⟨task, q, c⟩] ∧ v = (c.answer task q).1 := by
  simp only [ask, runs_call_iff, runs_done_iff]
  constructor
  · rintro ⟨task, c, rest, rfl, rfl, h⟩
    exact ⟨task, c, rfl, h⟩
  · rintro ⟨task, c, rfl, h⟩
    exact ⟨task, c, [], rfl, rfl, h⟩

theorem exists_runs (c : Client σ) (p : Program α) :
    ∃ (es : List (Event σ)) (v : α), Runs p es v := by
  induction p with
  | done value => exact ⟨[], value, .done value⟩
  | call r next ih =>
    obtain ⟨es, v, h⟩ := ih (c.answer 0 r).1
    exact ⟨⟨0, r, c⟩ :: es, v, .call 0 r next c h⟩

theorem Runs.unique_prefix {p : Program α} {es₁ es₂ rest₁ rest₂ : List (Event σ)} {v₁ v₂ : α}
    (h₁ : Runs p es₁ v₁) (h₂ : Runs p es₂ v₂) (h : es₁ ++ rest₁ = es₂ ++ rest₂) :
    es₁ = es₂ ∧ v₁ = v₂ := by
  induction h₁ generalizing es₂ with
  | done value =>
    rw [runs_done_iff] at h₂
    exact ⟨h₂.1.symm, h₂.2.symm⟩
  | call task r next c _ ih =>
    obtain ⟨task', c', rest, rfl, h'⟩ := runs_call_iff.mp h₂
    simp only [List.cons_append, List.cons.injEq, Event.mk.injEq] at h
    obtain ⟨⟨rfl, -, rfl⟩, h⟩ := h
    obtain ⟨rfl, rfl⟩ := ih h' h
    exact ⟨rfl, rfl⟩

end Program

/-! ## Whole runs of actions -/

namespace Action

variable {α β : Type} {es : List (Event σ)}

abbrev Runs (a : Action α) (es : List (Event σ)) (r : Except Fault α) : Prop :=
  Program.Runs a.run es r

@[simp] theorem runs_pure_iff {value : α} {r : Except Fault α} :
    Runs (pure value : Action α) es r ↔ es = [] ∧ r = .ok value :=
  Program.runs_done_iff

@[simp] theorem runs_throw_iff {f : Fault} {r : Except Fault α} :
    Runs (throw f : Action α) es r ↔ es = [] ∧ r = .error f :=
  Program.runs_done_iff

@[simp] theorem runs_lift_iff {x r : Except Fault α} :
    Runs (liftM x : Action α) es r ↔ es = [] ∧ r = x :=
  Program.runs_done_iff

theorem runs_bind_iff {a : Action α} {f : α → Action β} {r : Except Fault β} :
    Runs (a >>= f) es r ↔
      (∃ g, Runs a es (.error g) ∧ r = .error g) ∨
        ∃ x es₁ es₂, es = es₁ ++ es₂ ∧ Runs a es₁ (.ok x) ∧ Runs (f x) es₂ r := by
  refine Program.runs_bind_iff.trans ?_
  constructor
  · rintro ⟨x | x, es₁, es₂, rfl, h₁, h₂⟩
    · obtain ⟨rfl, rfl⟩ := Program.runs_done_iff.mp h₂
      exact .inl ⟨x, by rwa [List.append_nil], rfl⟩
    · exact .inr ⟨x, es₁, es₂, rfl, h₁, h₂⟩
  · rintro (⟨g, h, rfl⟩ | ⟨x, es₁, es₂, rfl, h₁, h₂⟩)
    · exact ⟨.error g, es, [], by simp, h, .done _⟩
    · exact ⟨.ok x, es₁, es₂, rfl, h₁, h₂⟩

theorem runs_ask_iff (q : Request) {r : Except Fault q.Answer} :
    Runs (ask q) es r ↔ ∃ task c, es = [⟨task, q, c⟩] ∧ r = .ok (c.answer task q).1 := by
  refine Program.runs_bind_iff.trans ?_
  constructor
  · rintro ⟨x, es₁, es₂, rfl, h₁, h₂⟩
    obtain ⟨rfl, rfl⟩ := Program.runs_done_iff.mp h₂
    obtain ⟨task, c, rfl, rfl⟩ := (Program.runs_ask_iff q).mp h₁
    exact ⟨task, c, rfl, rfl⟩
  · rintro ⟨task, c, rfl, rfl⟩
    exact ⟨_, [⟨task, q, c⟩], [], rfl, (Program.runs_ask_iff q).mpr ⟨task, c, rfl, rfl⟩, .done _⟩

theorem runs_ask_bind_iff (q : Request) {f : q.Answer → Action β} {r : Except Fault β} :
    Runs (ask q >>= f) es r ↔
      ∃ task c rest, es = ⟨task, q, c⟩ :: rest ∧ Runs (f (c.answer task q).1) rest r := by
  simp only [runs_bind_iff, runs_ask_iff]
  constructor
  · rintro (⟨g, ⟨task, c, _, h⟩, -⟩ | ⟨x, es₁, es₂, rfl, ⟨task, c, rfl, h₁⟩, h₂⟩)
    · cases h
    · cases h₁
      exact ⟨task, c, es₂, rfl, h₂⟩
  · rintro ⟨task, c, rest, rfl, h⟩
    exact .inr ⟨_, [⟨task, q, c⟩], rest, rfl, ⟨task, c, rfl, rfl⟩, h⟩

theorem runs_program_bind_iff {p : Program α} {f : α → Action β} {r : Except Fault β} :
    Runs (ExceptT.lift p >>= f) es r ↔
      ∃ x es₁ es₂, es = es₁ ++ es₂ ∧ Program.Runs p es₁ x ∧ Runs (f x) es₂ r := by
  have hlift : ∀ (es : List (Event σ)) y,
      Runs (ExceptT.lift p : Action α) es y ↔ ∃ x, Program.Runs p es x ∧ y = .ok x := by
    intro es y
    refine Program.runs_bind_iff.trans ?_
    constructor
    · rintro ⟨x, es₁, es₂, rfl, h₁, h₂⟩
      obtain ⟨rfl, rfl⟩ := Program.runs_done_iff.mp h₂
      exact ⟨x, by rwa [List.append_nil], rfl⟩
    · rintro ⟨x, h, rfl⟩
      exact ⟨x, es, [], by simp, h, .done _⟩
  simp only [runs_bind_iff, hlift]
  constructor
  · rintro (⟨g, ⟨x, _, h⟩, -⟩ | ⟨x, es₁, es₂, rfl, ⟨y, h₁, hy⟩, h₂⟩)
    · cases h
    · cases hy
      exact ⟨x, es₁, es₂, rfl, h₁, h₂⟩
  · rintro ⟨x, es₁, es₂, rfl, h₁, h₂⟩
    exact .inr ⟨x, es₁, es₂, rfl, ⟨x, h₁, rfl⟩, h₂⟩

theorem runs_outcome_bind_iff {a : Action α} {f : Except Fault α → Action β}
    {r : Except Fault β} :
    Runs (outcome a >>= f) es r ↔
      ∃ x es₁ es₂, es = es₁ ++ es₂ ∧ Runs a es₁ x ∧ Runs (f x) es₂ r :=
  runs_program_bind_iff

theorem runs_lift_bind_iff {x : Except Fault α} {f : α → Action β} {r : Except Fault β} :
    Runs (liftM x >>= f) es r ↔
      (∃ g, x = .error g ∧ es = [] ∧ r = .error g) ∨ ∃ v, x = .ok v ∧ Runs (f v) es r := by
  simp only [runs_bind_iff, runs_lift_iff]
  constructor
  · rintro (⟨g, ⟨rfl, h⟩, rfl⟩ | ⟨v, _, es₂, rfl, ⟨rfl, h₁⟩, h₂⟩)
    · exact .inl ⟨g, h.symm, rfl, rfl⟩
    · exact .inr ⟨v, h₁.symm, h₂⟩
  · rintro (⟨g, rfl, rfl, rfl⟩ | ⟨v, rfl, h⟩)
    · exact .inl ⟨g, ⟨rfl, rfl⟩, rfl⟩
    · exact .inr ⟨v, [], es, rfl, ⟨rfl, rfl⟩, h⟩

/-! ### Requests that may fail -/

theorem runs_checkout_iff {node : String} {r : Except Fault (Lease × Option Link)} :
    Runs (ExceptT.mk (Program.ask (.checkout node))) es r ↔
      ∃ task c, es = [⟨task, .checkout node, c⟩] ∧ r = (c.answer task (.checkout node)).1 :=
  Program.runs_ask_iff _

theorem runs_connect_iff {node : String} {r : Except Fault Link} :
    Runs (connect node) es r ↔
      ∃ task c, es = [⟨task, .connect node, c⟩] ∧ r = (c.answer task (.connect node)).1 :=
  Program.runs_ask_iff _

theorem runs_write_iff {link : Link} {commands : List Command} {r : Except Fault Unit} :
    Runs (write link commands) es r ↔
      ∃ task c, es = [⟨task, .write link commands, c⟩] ∧
        r = (c.answer task (.write link commands)).1 :=
  Program.runs_ask_iff _

theorem runs_read_iff {link : Link} {r : Except Fault Reply} :
    Runs (read link) es r ↔
      ∃ task c, es = [⟨task, .read link, c⟩] ∧ r = (c.answer task (.read link)).1 :=
  Program.runs_ask_iff _

end Action

/-! ## Whole runs of tasks -/

namespace Program

/-- The events of programs that run side by side, in any order, and their values. -/
inductive RunsAll {α : Type} : List (Program α) → List (Event σ) → List α → Prop
  | done (values : List α) : RunsAll (values.map .done) [] values
  | call (task : Nat) (before after : List (Program α)) (r : Request)
      (next : r.Answer → Program α) (c : Client σ) {es : List (Event σ)} {values : List α}
      (h : RunsAll (before ++ next (c.answer task r).1 :: after) es values) :
      RunsAll (before ++ .call r next :: after) (⟨task, r, c⟩ :: es) values

theorem Runs.before_all {p : Program α} {ps : List (Program α)} {es es' : List (Event σ)} {v : α}
    {done values : List α} (h : Runs p es v)
    (hs : RunsAll (done.map .done ++ .done v :: ps) es' values) :
    RunsAll (done.map .done ++ p :: ps) (es ++ es') values := by
  induction h with
  | done v => exact hs
  | call task r next c _ ih => exact .call task _ _ r next c (ih hs)

end Program

namespace Task

/-- The events of a whole run, and its value. Programs that the task starts run side by side. -/
inductive Runs {α : Type} : Task α → List (Event σ) → α → Prop
  | done (value : α) : Runs (done value) [] value
  | call (task : Nat) (r : Request) (next : r.Answer → Task α) (c : Client σ)
      {es : List (Event σ)} {value : α} (h : Runs (next (c.answer task r).1) es value) :
      Runs (call r next) (⟨task, r, c⟩ :: es) value
  | gather {programs : List (Program BatchResult)} {next : List BatchResult → Task α}
      {es es' : List (Event σ)} {results : List BatchResult} {value : α}
      (hs : Program.RunsAll programs es results) (h : Runs (next results) es' value) :
      Runs (gather programs next) (es ++ es') value

variable {α β : Type} {es : List (Event σ)}

theorem runs_done_iff {value v : α} : Runs (done value) es v ↔ es = [] ∧ v = value := by
  constructor
  · intro h
    cases h
    exact ⟨rfl, rfl⟩
  · rintro ⟨rfl, rfl⟩
    exact .done v

theorem runs_call_iff {r : Request} {next : r.Answer → Task α} {v : α} :
    Runs (call r next) es v ↔
      ∃ task c rest, es = ⟨task, r, c⟩ :: rest ∧ Runs (next (c.answer task r).1) rest v := by
  constructor
  · intro h
    cases h with
    | call task r next c h => exact ⟨task, c, _, rfl, h⟩
  · rintro ⟨task, c, rest, rfl, h⟩
    exact .call task r next c h

theorem runs_gather_iff {programs : List (Program BatchResult)}
    {next : List BatchResult → Task α} {v : α} :
    Runs (gather programs next) es v ↔ ∃ results es₁ es₂, es = es₁ ++ es₂ ∧
      Program.RunsAll programs es₁ results ∧ Runs (next results) es₂ v := by
  constructor
  · intro h
    cases h with
    | gather hs h => exact ⟨_, _, _, rfl, hs, h⟩
  · rintro ⟨results, es₁, es₂, rfl, hs, h⟩
    exact .gather hs h

theorem runs_bind_iff {t : Task α} {f : α → Task β} {v : β} :
    Runs (t.bind f) es v ↔ ∃ x es₁ es₂, es = es₁ ++ es₂ ∧ Runs t es₁ x ∧ Runs (f x) es₂ v := by
  induction t generalizing es with
  | done value =>
    simp only [bind, runs_done_iff]
    constructor
    · intro h
      exact ⟨value, [], es, rfl, ⟨rfl, rfl⟩, h⟩
    · rintro ⟨x, es₁, es₂, rfl, ⟨rfl, rfl⟩, h⟩
      exact h
  | call r next ih =>
    simp only [bind, runs_call_iff, ih]
    constructor
    · rintro ⟨task, c, rest, rfl, x, es₁, es₂, rfl, h₁, h₂⟩
      exact ⟨x, ⟨task, r, c⟩ :: es₁, es₂, rfl, ⟨task, c, es₁, rfl, h₁⟩, h₂⟩
    · rintro ⟨x, es₁, es₂, rfl, ⟨task, c, rest, rfl, h₁⟩, h₂⟩
      exact ⟨task, c, rest ++ es₂, rfl, x, rest, es₂, rfl, h₁, h₂⟩
  | gather programs next ih =>
    simp only [bind, runs_gather_iff, ih]
    constructor
    · rintro ⟨results, es₁, _, rfl, hs, x, es₂, es₃, rfl, h₁, h₂⟩
      exact ⟨x, es₁ ++ es₂, es₃, by simp, ⟨results, es₁, es₂, rfl, hs, h₁⟩, h₂⟩
    · rintro ⟨x, _, es₃, rfl, ⟨results, es₁, es₂, rfl, hs, h₁⟩, h₂⟩
      exact ⟨results, es₁, es₂ ++ es₃, by simp, hs, x, es₂, es₃, rfl, h₁, h₂⟩

theorem runs_ofProgram_iff {p : Program α} {v : α} :
    Runs (ofProgram p) es v ↔ Program.Runs p es v := by
  induction p generalizing es with
  | done value => rw [ofProgram, runs_done_iff, Program.runs_done_iff]
  | call r next ih => simp only [ofProgram, runs_call_iff, Program.runs_call_iff, ih]

theorem runs_gatherAll_iff {programs : List (Program BatchResult)} {results : List BatchResult} :
    Runs (gatherAll programs) es results ↔ Program.RunsAll programs es results := by
  simp only [gatherAll, runs_gather_iff, runs_done_iff]
  constructor
  · rintro ⟨_, es₁, _, rfl, hs, rfl, rfl⟩
    rwa [List.append_nil]
  · intro hs
    exact ⟨results, es, [], by simp, hs, rfl, rfl⟩

end Task

/-! ## Whole runs of jobs -/

namespace Job

variable {α β : Type} {es : List (Event σ)}

abbrev Runs (j : Job α) (es : List (Event σ)) (r : Except Fault α) : Prop := Task.Runs j.run es r

@[simp] theorem runs_lift_iff {x r : Except Fault α} :
    Runs (liftM x : Job α) es r ↔ es = [] ∧ r = x :=
  Task.runs_done_iff

theorem runs_bind_iff {j : Job α} {f : α → Job β} {r : Except Fault β} :
    Runs (j >>= f) es r ↔
      (∃ g, Runs j es (.error g) ∧ r = .error g) ∨
        ∃ x es₁ es₂, es = es₁ ++ es₂ ∧ Runs j es₁ (.ok x) ∧ Runs (f x) es₂ r := by
  refine Task.runs_bind_iff.trans ?_
  constructor
  · rintro ⟨x | x, es₁, es₂, rfl, h₁, h₂⟩
    · obtain ⟨rfl, rfl⟩ := Task.runs_done_iff.mp h₂
      exact .inl ⟨x, by rwa [List.append_nil], rfl⟩
    · exact .inr ⟨x, es₁, es₂, rfl, h₁, h₂⟩
  · rintro (⟨g, h, rfl⟩ | ⟨x, es₁, es₂, rfl, h₁, h₂⟩)
    · exact ⟨.error g, es, [], by simp, h, .done _⟩
    · exact ⟨.ok x, es₁, es₂, rfl, h₁, h₂⟩

theorem runs_action_iff {a : Action α} {r : Except Fault α} :
    Runs (liftM a : Job α) es r ↔ Action.Runs a es r :=
  Task.runs_ofProgram_iff

theorem runs_task_iff {t : Task α} {r : Except Fault α} :
    Runs (ExceptT.lift t) es r ↔ ∃ v, Task.Runs t es v ∧ r = .ok v := by
  refine Task.runs_bind_iff.trans ?_
  constructor
  · rintro ⟨x, es₁, es₂, rfl, h₁, h₂⟩
    obtain ⟨rfl, rfl⟩ := Task.runs_done_iff.mp h₂
    exact ⟨x, by rwa [List.append_nil], rfl⟩
  · rintro ⟨x, h, rfl⟩
    exact ⟨x, es, [], by simp, h, .done _⟩

end Job

/-! ## A task on its own -/

namespace Client

variable {α : Type}

def traceProgram : Program α → Client σ → List (Event σ)
  | .done _, _ => []
  | .call r next, c => ⟨0, r, c⟩ :: traceProgram (next (c.answer 0 r).1) (c.answer 0 r).2

def traceAll : List (Program α) → Client σ → List (Event σ)
  | [], _ => []
  | p :: rest, c => traceProgram p c ++ traceAll rest (runProgram p c).2

/-- The events of a task that has the client for itself. -/
def trace : Task α → Client σ → List (Event σ)
  | .done _, _ => []
  | .call r next, c => ⟨0, r, c⟩ :: trace (next (c.answer 0 r).1) (c.answer 0 r).2
  | .gather programs next, c =>
    traceAll programs c ++ trace (next (runAll programs c).1) (runAll programs c).2

theorem runs_traceProgram (p : Program α) (c : Client σ) :
    Program.Runs p (traceProgram p c) (runProgram p c).1 := by
  induction p generalizing c with
  | done value => exact .done value
  | call r next ih => exact .call 0 r next c (ih _ _)

theorem runsAll_traceAll (ps : List (Program α)) (c : Client σ) :
    Program.RunsAll ps (traceAll ps c) (runAll ps c).1 := by
  -- On the programs that are left. Those before them are done.
  have hall : ∀ (ps : List (Program α)) (done : List α) (c : Client σ),
      Program.RunsAll (done.map .done ++ ps) (traceAll ps c) (done ++ (runAll ps c).1) := by
    intro ps
    induction ps with
    | nil =>
      intro done c
      simpa [traceAll, runAll] using Program.RunsAll.done (σ := σ) done
    | cons p rest ih =>
      intro done c
      refine (runs_traceProgram p c).before_all ?_
      have hrest := ih (done ++ [(runProgram p c).1]) (runProgram p c).2
      rw [List.map_append, List.append_assoc, List.append_assoc] at hrest
      exact hrest
  exact hall ps [] c

theorem runs_trace (t : Task α) (c : Client σ) : Task.Runs t (trace t c) (run t c).1 := by
  induction t generalizing c with
  | done value => exact .done value
  | call r next ih => exact .call 0 r next c (ih _ _)
  | gather programs next ih => exact .gather (runsAll_traceAll programs c) (ih _ _)

/-! ### Nothing in between -/

/-- These events lead from one client to another, and nothing happens between them. -/
inductive Unbroken : Client σ → List (Event σ) → Client σ → Prop
  | refl (c : Client σ) : Unbroken c [] c
  | answer (task : Nat) (r : Request) (c : Client σ) {es : List (Event σ)} {c' : Client σ}
      (h : Unbroken (c.answer task r).2 es c') : Unbroken c (⟨task, r, c⟩ :: es) c'

theorem unbroken_traceProgram (p : Program α) (c : Client σ) :
    Unbroken c (traceProgram p c) (runProgram p c).2 := by
  induction p generalizing c with
  | done value => exact .refl c
  | call r next ih => exact .answer 0 r c (ih _ _)

theorem Unbroken.eq_of_nil {c c' : Client σ} (h : Unbroken c [] c') : c' = c := by
  cases h
  rfl

theorem unbroken_cons_iff {c c' : Client σ} {e : Event σ} {es : List (Event σ)} :
    Unbroken c (e :: es) c' ↔ e.client = c ∧ Unbroken e.after es c' := by
  constructor
  · intro h
    cases h with
    | answer task r c h => exact ⟨rfl, h⟩
  · rintro ⟨rfl, h⟩
    exact .answer _ _ _ h

theorem unbroken_append_iff {c c' : Client σ} {es es' : List (Event σ)} :
    Unbroken c (es ++ es') c' ↔ ∃ d, Unbroken c es d ∧ Unbroken d es' c' := by
  induction es generalizing c with
  | nil =>
    constructor
    · intro h
      exact ⟨c, .refl c, h⟩
    · rintro ⟨d, h, h'⟩
      rwa [← h.eq_of_nil]
  | cons e es ih =>
    simp only [List.cons_append, unbroken_cons_iff, ih]
    constructor
    · rintro ⟨he, d, h, h'⟩
      exact ⟨d, ⟨he, h⟩, h'⟩
    · rintro ⟨d, ⟨he, h⟩, h'⟩
      exact ⟨he, d, h, h'⟩

theorem unbroken_traceAll (ps : List (Program α)) (c : Client σ) :
    Unbroken c (traceAll ps c) (runAll ps c).2 := by
  induction ps generalizing c with
  | nil => exact .refl c
  | cons p rest ih => exact unbroken_append_iff.mpr ⟨_, unbroken_traceProgram p c, ih _⟩

theorem unbroken_trace (t : Task α) (c : Client σ) : Unbroken c (trace t c) (run t c).2 := by
  induction t generalizing c with
  | done value => exact .refl c
  | call r next ih => exact .answer 0 r c (ih _ _)
  | gather programs next ih =>
    exact unbroken_append_iff.mpr ⟨_, unbroken_traceAll programs c, ih _ _⟩

end Client

end SlotCluster
