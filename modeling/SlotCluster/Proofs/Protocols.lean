import SlotCluster.Proofs.Interleavings

/-!
# Protocols

A protocol says which requests a task may make. What it allows depends on a phase, and the answers
change the phase. A task that keeps a protocol on every branch keeps it in every interleaving.
-/

namespace SlotCluster

variable {σ τ α β : Type}

structure Protocol (τ : Type) where
  Allows : τ → Request → Prop
  next : τ → (r : Request) → r.Answer → τ

namespace Protocol

/-- The request is allowed in all phases and leaves them as they are. -/
def Ignores (P : Protocol τ) (r : Request) : Prop := ∀ φ, P.Allows φ r ∧ ∀ a, P.next φ r a = φ

/-- The protocol that has no phases. -/
def always (allowed : Request → Prop) : Protocol Unit := ⟨fun _ => allowed, fun _ _ _ => ()⟩

theorem always_ignores {allowed : Request → Prop} {r : Request} (h : allowed r) :
    (always allowed).Ignores r :=
  fun _ => ⟨h, fun _ => rfl⟩

def after [Transport σ] (P : Protocol τ) (i : Nat) (φ : τ) (es : List (Event σ)) : τ :=
  es.foldl (fun φ e => if e.task = i then P.next φ e.request e.answer else φ) φ

section After

variable [Transport σ] (P : Protocol τ) (i : Nat) (φ : τ)

@[simp] theorem after_nil : P.after i φ ([] : List (Event σ)) = φ := rfl

@[simp] theorem after_append (es es' : List (Event σ)) :
    P.after i φ (es ++ es') = P.after i (P.after i φ es) es' := List.foldl_append ..

theorem after_singleton (e : Event σ) :
    P.after i φ [e] = if e.task = i then P.next φ e.request e.answer else φ := rfl

end After

end Protocol

/-! ## Programs -/

namespace Program

/-- Every request on every branch is one of these. -/
def Uses (allowed : Request → Prop) : Program α → Prop
  | done _ => True
  | call r next => allowed r ∧ ∀ a, Uses allowed (next a)

theorem uses_bind {allowed : Request → Prop} {p : Program α} {f : α → Program β}
    (hp : p.Uses allowed) (hf : ∀ v, (f v).Uses allowed) : (p.bind f).Uses allowed := by
  induction p with
  | done v => exact hf v
  | call r next ih => exact ⟨hp.1, fun a => ih a (hp.2 a)⟩

theorem Uses.mono {allowed more : Request → Prop} (h : ∀ r, allowed r → more r) {p : Program α}
    (hp : p.Uses allowed) : p.Uses more := by
  induction p with
  | done v => trivial
  | call r next ih => exact ⟨h r hp.1, fun a => ih a (hp.2 a)⟩

theorem Uses.of_runs [Transport σ] {allowed : Request → Prop} {p : Program α}
    (hp : p.Uses allowed) {es : List (Event σ)} {v : α} (h : Runs p es v) :
    ∀ e ∈ es, allowed e.request := by
  induction h with
  | done => simp
  | call task r next c _ ih =>
    rintro e (_ | ⟨_, he⟩)
    · exact hp.1
    · exact ih (hp.2 _) e he

theorem RunsAll.uses [Transport σ] {allowed : Request → Prop} {ps : List (Program α)}
    {es : List (Event σ)} {vs : List α} (h : RunsAll ps es vs)
    (hps : ∀ p ∈ ps, p.Uses allowed) : ∀ e ∈ es, allowed e.request := by
  induction h with
  | done => simp
  | call task before after r next c _ ih =>
    obtain ⟨hr, hnext⟩ := hps (.call r next) (by simp)
    rintro e (_ | ⟨_, he⟩)
    · exact hr
    · refine ih ?_ e he
      intro p hp
      rcases List.mem_append.mp hp with hp | hp
      · exact hps p (by simp [hp])
      rcases List.mem_cons.mp hp with rfl | hp
      · exact hnext _
      · exact hps p (by simp [hp])

/-- The program keeps the protocol from this phase on, and ends with `post`. -/
def Keeps (P : Protocol τ) (post : α → τ → Prop) : Program α → τ → Prop
  | done v, φ => post v φ
  | call r next, φ => P.Allows φ r ∧ ∀ a, Keeps P post (next a) (P.next φ r a)

variable {P : Protocol τ} {φ : τ}

theorem keeps_bind_iff {post : β → τ → Prop} {p : Program α} {f : α → Program β} :
    (p.bind f).Keeps P post φ ↔ p.Keeps P (fun v ψ => (f v).Keeps P post ψ) φ := by
  induction p generalizing φ with
  | done v => exact Iff.rfl
  | call r next ih => simp only [bind, Keeps, ih]

theorem Keeps.mono {post post' : α → τ → Prop} (h : ∀ v ψ, post v ψ → post' v ψ) {p : Program α}
    (hp : p.Keeps P post φ) : p.Keeps P post' φ := by
  induction p generalizing φ with
  | done v => exact h v φ hp
  | call r next ih => exact ⟨hp.1, fun a => ih a (hp.2 a)⟩

theorem Uses.keeps_at {p : Program α}
    (h : p.Uses fun r => P.Allows φ r ∧ ∀ a, P.next φ r a = φ) :
    p.Keeps P (fun _ ψ => ψ = φ) φ := by
  induction p with
  | done v => rfl
  | call r next ih =>
    refine ⟨h.1.1, ?_⟩
    intro a
    rw [h.1.2 a]
    exact ih a (h.2 a)

theorem Uses.keeps {p : Program α} (h : p.Uses P.Ignores) (φ : τ) :
    p.Keeps P (fun _ ψ => ψ = φ) φ :=
  keeps_at (h.mono fun _ hr => hr φ)

theorem Keeps.uses {allowed : Request → Prop} {post : α → Unit → Prop} {p : Program α} {φ : Unit}
    (h : p.Keeps (.always allowed) post φ) : p.Uses allowed := by
  induction p with
  | done v => trivial
  | call r next ih => exact ⟨h.1, fun a => ih a (h.2 a)⟩

end Program

/-! ## Actions -/

namespace Action

abbrev Uses (allowed : Request → Prop) (a : Action α) : Prop := Program.Uses allowed a.run

section Uses

variable {allowed : Request → Prop}

theorem uses_pure (v : α) : Uses allowed (pure v : Action α) := trivial

theorem uses_throw (f : Fault) : Uses allowed (throw f : Action α) := trivial

theorem uses_lift (x : Except Fault α) : Uses allowed (liftM x : Action α) := trivial

theorem uses_ask {q : Request} (h : allowed q) : Uses allowed (ask q) := ⟨h, fun _ => trivial⟩

theorem uses_bind {a : Action α} {f : α → Action β} (ha : Uses allowed a)
    (hf : ∀ v, Uses allowed (f v)) : Uses allowed (a >>= f) := by
  refine Program.uses_bind ha ?_
  rintro (g | v)
  · trivial
  · exact hf v

theorem uses_outcome {a : Action α} (h : Uses allowed a) : Uses allowed (outcome a) :=
  Program.uses_bind h fun _ => trivial

end Uses

abbrev Keeps (P : Protocol τ) (post : Except Fault α → τ → Prop) (a : Action α) (φ : τ) : Prop :=
  Program.Keeps P post a.run φ

section Keeps

variable {P : Protocol τ} {φ : τ}

theorem keeps_lift_iff {post : Except Fault α → τ → Prop} {x : Except Fault α} :
    Keeps P post (liftM x) φ ↔ post x φ := Iff.rfl

theorem keeps_bind_iff {post : Except Fault β → τ → Prop} {a : Action α} {f : α → Action β} :
    Keeps P post (a >>= f) φ ↔
      Keeps P (fun r ψ =>
        match r with
        | .ok v => Keeps P post (f v) ψ
        | .error g => post (.error g) ψ) a φ := by
  have hbind : Keeps P post (a >>= f) φ ↔ _ := Program.keeps_bind_iff
  rw [hbind]
  constructor
  all_goals
    refine Program.Keeps.mono ?_
    rintro (g | v) ψ h
    all_goals exact h

theorem keeps_ask_bind_iff {q : Request} {f : q.Answer → Action β}
    {post : Except Fault β → τ → Prop} :
    Keeps P post (ask q >>= f) φ ↔
      P.Allows φ q ∧ ∀ a, Keeps P post (f a) (P.next φ q a) := Iff.rfl

theorem keeps_outcome_iff {a : Action α} {post : Except Fault (Except Fault α) → τ → Prop} :
    Keeps P post (outcome a) φ ↔ Keeps P (fun r ψ => post (.ok r) ψ) a φ :=
  Program.keeps_bind_iff

end Keeps

end Action

/-! ## Tasks -/

namespace Task

/-- The task keeps the protocol from this phase on, and ends with `post`. The programs that it
starts make only requests that the protocol ignores. -/
def Keeps (P : Protocol τ) (post : α → τ → Prop) : Task α → τ → Prop
  | done v, φ => post v φ
  | call r next, φ => P.Allows φ r ∧ ∀ a, Keeps P post (next a) (P.next φ r a)
  | gather programs next, φ =>
    (∀ p ∈ programs, p.Uses P.Ignores) ∧ ∀ results, Keeps P post (next results) φ

variable {P : Protocol τ} {φ : τ}

theorem keeps_bind_iff {post : β → τ → Prop} {t : Task α} {f : α → Task β} :
    (t.bind f).Keeps P post φ ↔ t.Keeps P (fun v ψ => (f v).Keeps P post ψ) φ := by
  induction t generalizing φ with
  | done v => exact Iff.rfl
  | call r next ih => simp only [bind, Keeps, ih]
  | gather programs next ih => simp only [bind, Keeps, ih]

theorem Keeps.mono {post post' : α → τ → Prop} (h : ∀ v ψ, post v ψ → post' v ψ) {t : Task α}
    (ht : t.Keeps P post φ) : t.Keeps P post' φ := by
  induction t generalizing φ with
  | done v => exact h v φ ht
  | call r next ih => exact ⟨ht.1, fun a => ih a (ht.2 a)⟩
  | gather programs next ih => exact ⟨ht.1, fun results => ih results (ht.2 results)⟩

theorem keeps_ofProgram_iff {post : α → τ → Prop} {p : Program α} :
    (ofProgram p).Keeps P post φ ↔ p.Keeps P post φ := by
  induction p generalizing φ with
  | done v => exact Iff.rfl
  | call r next ih => simp only [ofProgram, Keeps, Program.Keeps, ih]

theorem Keeps.of_asks {post : α → τ → Prop} {t : Task α} {r : Request} {next : r.Answer → Task α}
    (ht : t.Keeps P post φ) (h : t.Asks r next) :
    P.Allows φ r ∧ ∀ a, (next a).Keeps P post (P.next φ r a) := by
  cases h with
  | call => exact ht
  | inside before after r next k =>
    obtain ⟨hprograms, hk⟩ := ht
    obtain ⟨hr, hnext⟩ := hprograms (.call r next) (by simp)
    refine ⟨(hr φ).1, ?_⟩
    intro a
    rw [(hr φ).2 a]
    refine ⟨?_, hk⟩
    intro p hp
    rcases List.mem_append.mp hp with hp | hp
    · exact hprograms p (by simp [hp])
    rcases List.mem_cons.mp hp with rfl | hp
    · exact hnext a
    · exact hprograms p (by simp [hp])

end Task

/-! ## Jobs -/

namespace Job

abbrev Keeps (P : Protocol τ) (post : Except Fault α → τ → Prop) (j : Job α) (φ : τ) : Prop :=
  Task.Keeps P post j.run φ

variable {P : Protocol τ} {φ : τ}

theorem keeps_lift_iff {post : Except Fault α → τ → Prop} {x : Except Fault α} :
    Keeps P post (liftM x) φ ↔ post x φ := Iff.rfl

theorem keeps_bind_iff {post : Except Fault β → τ → Prop} {j : Job α} {f : α → Job β} :
    Keeps P post (j >>= f) φ ↔
      Keeps P (fun r ψ =>
        match r with
        | .ok v => Keeps P post (f v) ψ
        | .error g => post (.error g) ψ) j φ := by
  have hbind : Keeps P post (j >>= f) φ ↔ _ := Task.keeps_bind_iff
  rw [hbind]
  constructor
  all_goals
    refine Task.Keeps.mono ?_
    rintro (g | v) ψ h
    all_goals exact h

theorem keeps_action_iff {post : Except Fault α → τ → Prop} {a : Action α} :
    Keeps P post (liftM a) φ ↔ Action.Keeps P post a φ :=
  Task.keeps_ofProgram_iff

theorem keeps_task_iff {post : Except Fault α → τ → Prop} {t : Task α} :
    Keeps P post (ExceptT.lift t) φ ↔ t.Keeps P (fun v ψ => post (.ok v) ψ) φ :=
  Task.keeps_bind_iff

end Job

/-! ## Interleavings -/

namespace Moment

variable [Transport σ] {P : Protocol τ} {post : α → τ → Prop}

def Keeps (P : Protocol τ) (post : α → τ → Prop) (φ : Nat → τ) (S : Moment σ α) : Prop :=
  ∀ i (t : Task α), S.tasks[i]? = some t → t.Keeps P post (φ i)

theorem Keeps.of_run {φ : Nat → τ} {S S' : Moment σ α} {es : List (Event σ)}
    (hS : S.Keeps P post φ) (h : Run S es S') :
    S'.Keeps P post (fun i => P.after i (φ i) es) ∧
      ∀ before e rest, es = before ++ e :: rest →
        P.Allows (P.after e.task (φ e.task) before) e.request := by
  -- Only an event of its own moves a task to another phase.
  induction h with
  | refl => exact ⟨hS, by simp⟩
  | quiet _ step ih =>
    obtain ⟨htasks, hevents⟩ := ih
    refine ⟨?_, hevents⟩
    cases step with
    | wait task asks => exact htasks
    | pass => exact htasks
    | @collect j programs next results task done =>
      intro i t ht
      obtain ⟨rfl, rfl⟩ | ⟨-, ht⟩ := task_of_set ht
      · exact (htasks j _ task).2 results
      · exact htasks i t ht
  | event _ step ih =>
    obtain ⟨htasks, hevents⟩ := ih
    cases step with
    | @answer j t r next task asks free =>
      obtain ⟨hallows, hnext⟩ := (htasks j t task).of_asks asks
      constructor
      · intro i u hu
        simp only [Protocol.after_append, Protocol.after_singleton]
        obtain ⟨rfl, rfl⟩ | ⟨hij, hu⟩ := task_of_set hu
        · simp only [if_true]
          exact hnext _
        · simp only [if_neg hij]
          exact htasks i u hu
      · intro before e rest hes
        rcases List.eq_nil_or_concat rest with rfl | ⟨init, last, rfl⟩
        · obtain ⟨rfl, hlast⟩ := List.append_inj' hes rfl
          obtain rfl := List.singleton_inj.mp hlast
          exact hallows
        · rw [List.concat_eq_append, ← List.cons_append, ← List.append_assoc] at hes
          exact hevents before e init (List.append_inj' hes rfl).1

end Moment

end SlotCluster
