import SlotCluster.Proofs.PlainRequests

/-!
# Contracts

A contract is a protocol with two sides. Whoever keeps it makes the requests that the protocol
allows, and counts on honest answers. After an answer that is not honest, nothing is promised.
-/

namespace SlotCluster

variable {τ α β : Type}

structure Contract (τ : Type) extends Protocol τ where
  Honest : τ → (r : Request) → r.Answer → Prop
  /-- What a program may end with that was started with others. -/
  Sound : BatchResult → Prop

/-- The request leaves the phase as it is. -/
def Protocol.Leaves (P : Protocol τ) (φ : τ) (r : Request) : Prop := ∀ a, P.next φ r a = φ

variable {C : Contract τ} {φ : τ}

/-! ## Programs -/

namespace Program

/-- Under honest answers the program keeps the contract from this phase on, and ends with
`post`. -/
def Meets (C : Contract τ) (post : α → τ → Prop) : Program α → τ → Prop
  | done v, φ => post v φ
  | call r next, φ => C.Allows φ r ∧ ∀ a, C.Honest φ r a → Meets C post (next a) (C.next φ r a)

theorem meets_bind_iff {post : β → τ → Prop} {p : Program α} {f : α → Program β} :
    (p.bind f).Meets C post φ ↔ p.Meets C (fun v ψ => (f v).Meets C post ψ) φ := by
  induction p generalizing φ with
  | done v => exact Iff.rfl
  | call r next ih => simp only [bind, Meets, ih]

theorem Meets.mono {post post' : α → τ → Prop} (h : ∀ v ψ, post v ψ → post' v ψ) {p : Program α}
    (hp : p.Meets C post φ) : p.Meets C post' φ := by
  induction p generalizing φ with
  | done v => exact h v φ hp
  | call r next ih => exact ⟨hp.1, fun a ha => ih a (hp.2 a ha)⟩

theorem Keeps.meets {post : α → τ → Prop} {p : Program α} (h : p.Keeps C.toProtocol post φ) :
    p.Meets C post φ := by
  induction p generalizing φ with
  | done v => exact h
  | call r next ih => exact ⟨h.1, fun a _ => ih a (h.2 a)⟩

theorem Uses.meets {p : Program α} (h : p.Uses C.toProtocol.Ignores) (φ : τ) :
    p.Meets C (fun _ ψ => ψ = φ) φ :=
  (h.keeps φ).meets

/-- What holds at the end whatever the answers are, holds if they are honest. -/
theorem Meets.and_keeps {υ : Type} {P : Protocol υ} {post : α → τ → Prop} {kept : α → υ → Prop}
    {p : Program α} (hp : p.Meets C post φ) {χ : υ} (h : p.Keeps P kept χ) :
    p.Meets C (fun v ψ => post v ψ ∧ ∃ ω, kept v ω) φ := by
  induction p generalizing φ χ with
  | done v => exact ⟨hp, χ, h⟩
  | call r next ih => exact ⟨hp.1, fun a ha => ih a (hp.2 a ha) (h.2 a)⟩

end Program

/-! ## Actions -/

namespace Action

abbrev Meets (C : Contract τ) (post : Except Fault α → τ → Prop) (a : Action α) (φ : τ) : Prop :=
  Program.Meets C post a.run φ

theorem meets_lift_iff {post : Except Fault α → τ → Prop} {x : Except Fault α} :
    Meets C post (liftM x) φ ↔ post x φ := Iff.rfl

theorem meets_bind_iff {post : Except Fault β → τ → Prop} {a : Action α} {f : α → Action β} :
    Meets C post (a >>= f) φ ↔
      Meets C (fun r ψ =>
        match r with
        | .ok v => Meets C post (f v) ψ
        | .error g => post (.error g) ψ) a φ := by
  have hbind : Meets C post (a >>= f) φ ↔ _ := Program.meets_bind_iff
  rw [hbind]
  constructor
  all_goals
    refine Program.Meets.mono ?_
    rintro (g | v) ψ h
    all_goals exact h

theorem meets_ask_bind_iff {q : Request} {f : q.Answer → Action β}
    {post : Except Fault β → τ → Prop} :
    Meets C post (ask q >>= f) φ ↔
      C.Allows φ q ∧ ∀ a, C.Honest φ q a → Meets C post (f a) (C.next φ q a) := Iff.rfl

theorem meets_program_bind_iff {p : Program α} {f : α → Action β}
    {post : Except Fault β → τ → Prop} :
    Meets C post (ExceptT.lift p >>= f) φ ↔ p.Meets C (fun v ψ => Meets C post (f v) ψ) φ :=
  meets_bind_iff.trans Program.meets_bind_iff

theorem meets_outcome_bind_iff {a : Action α} {f : Except Fault α → Action β}
    {post : Except Fault β → τ → Prop} :
    Meets C post (outcome a >>= f) φ ↔ Meets C (fun r ψ => Meets C post (f r) ψ) a φ :=
  meets_program_bind_iff

end Action

/-! ## Tasks -/

namespace Task

/-- The programs that the task starts leave the phase as it is. They end with sound results, and the
task goes on with such results only. -/
def Meets (C : Contract τ) (post : α → τ → Prop) : Task α → τ → Prop
  | done v, φ => post v φ
  | call r next, φ => C.Allows φ r ∧ ∀ a, C.Honest φ r a → Meets C post (next a) (C.next φ r a)
  | gather programs next, φ =>
    (∀ p ∈ programs, p.Uses (C.toProtocol.Leaves φ) ∧ p.Meets C (fun v _ => C.Sound v) φ) ∧
      ∀ results, (∀ v ∈ results, C.Sound v) → Meets C post (next results) φ

theorem meets_bind_iff {post : β → τ → Prop} {t : Task α} {f : α → Task β} :
    (t.bind f).Meets C post φ ↔ t.Meets C (fun v ψ => (f v).Meets C post ψ) φ := by
  induction t generalizing φ with
  | done v => exact Iff.rfl
  | call r next ih => simp only [bind, Meets, ih]
  | gather programs next ih => simp only [bind, Meets, ih]

theorem Meets.mono {post post' : α → τ → Prop} (h : ∀ v ψ, post v ψ → post' v ψ) {t : Task α}
    (ht : t.Meets C post φ) : t.Meets C post' φ := by
  induction t generalizing φ with
  | done v => exact h v φ ht
  | call r next ih => exact ⟨ht.1, fun a ha => ih a (ht.2 a ha)⟩
  | gather programs next ih => exact ⟨ht.1, fun results hr => ih results (ht.2 results hr)⟩

theorem meets_ofProgram_iff {post : α → τ → Prop} {p : Program α} :
    (ofProgram p).Meets C post φ ↔ p.Meets C post φ := by
  induction p generalizing φ with
  | done v => exact Iff.rfl
  | call r next ih => simp only [ofProgram, Meets, Program.Meets, ih]

variable {post : α → τ → Prop} {t : Task α}

theorem Meets.of_asks {r : Request} {next : r.Answer → Task α} (ht : t.Meets C post φ)
    (h : t.Asks r next) :
    C.Allows φ r ∧ ∀ a, C.Honest φ r a → (next a).Meets C post (C.next φ r a) := by
  cases h with
  | call => exact ht
  | inside before after r next k =>
    obtain ⟨hprograms, hk⟩ := ht
    obtain ⟨⟨hleaves, huses⟩, hallows, hnext⟩ := hprograms (.call r next) (by simp)
    refine ⟨hallows, fun a ha => ?_⟩
    have hmeets := hnext a ha
    rw [hleaves a] at hmeets ⊢
    refine ⟨fun p hp => ?_, hk⟩
    rcases List.mem_append.mp hp with hp | hp
    · exact hprograms p (by simp [hp])
    rcases List.mem_cons.mp hp with rfl | hp
    · exact ⟨huses a, hmeets⟩
    · exact hprograms p (by simp [hp])

theorem Meets.of_results {programs : List (Program BatchResult)}
    {next : List BatchResult → Task α} {results : List BatchResult}
    (ht : (gather programs next).Meets C post φ)
    (done : Program.results? programs = some results) : (next results).Meets C post φ := by
  refine ht.2 results fun v hv => ?_
  have hmem : Program.done v ∈ programs := by
    rw [Program.eq_done_of_results done]
    exact List.mem_map_of_mem hv
  exact (ht.1 _ hmem).2

end Task

/-! ## Jobs -/

namespace Job

abbrev Meets (C : Contract τ) (post : Except Fault α → τ → Prop) (j : Job α) (φ : τ) : Prop :=
  Task.Meets C post j.run φ

theorem meets_lift_iff {post : Except Fault α → τ → Prop} {x : Except Fault α} :
    Meets C post (liftM x) φ ↔ post x φ := Iff.rfl

theorem meets_bind_iff {post : Except Fault β → τ → Prop} {j : Job α} {f : α → Job β} :
    Meets C post (j >>= f) φ ↔
      Meets C (fun r ψ =>
        match r with
        | .ok v => Meets C post (f v) ψ
        | .error g => post (.error g) ψ) j φ := by
  have hbind : Meets C post (j >>= f) φ ↔ _ := Task.meets_bind_iff
  rw [hbind]
  constructor
  all_goals
    refine Task.Meets.mono ?_
    rintro (g | v) ψ h
    all_goals exact h

theorem meets_action_iff {post : Except Fault α → τ → Prop} {a : Action α} :
    Meets C post (liftM a) φ ↔ Action.Meets C post a φ :=
  Task.meets_ofProgram_iff

theorem meets_task_iff {post : Except Fault α → τ → Prop} {t : Task α} :
    Meets C post (ExceptT.lift t) φ ↔ t.Meets C (fun v ψ => post (.ok v) ψ) φ :=
  Task.meets_bind_iff

end Job

/-! ## The last task -/

theorem Task.last_of_busy {tasks : List (Task α)} (hdone : ∀ u ∈ tasks, ∃ a, u = .done a)
    {u v : Task α} {i : Nat} (hv : (tasks ++ [u])[i]? = some v) (hbusy : ∀ a, v ≠ .done a) :
    i = tasks.length ∧ u = v := by
  rcases Nat.lt_or_ge i tasks.length with hlt | hge
  · rw [List.getElem?_append_left hlt] at hv
    obtain ⟨a, rfl⟩ := hdone v (List.mem_of_getElem? hv)
    exact absurd rfl (hbusy a)
  · rw [List.getElem?_append_right hge, List.getElem?_singleton] at hv
    split at hv
    · exact ⟨by omega, Option.some.inj hv⟩
    · cases hv

theorem Task.Asks.busy {t : Task α} {r : Request} {next : r.Answer → Task α} (h : t.Asks r next)
    (a : α) : t ≠ .done a := by
  rintro rfl
  cases h

theorem Moment.Run.last_keeps {σ : Type} [Transport σ] {tasks : List (Task α)} {t : Task α}
    {c : Client σ} {es : List (Event σ)} {S : Moment σ α} {Q : Task α → Client σ → Prop}
    (h : Run ⟨tasks ++ [t], c⟩ es S) (hdone : ∀ u ∈ tasks, ∃ a, u = .done a) (hstart : Q t c)
    (hquiet : ∀ {u : Task α} {d d' : Client σ}, Q u d → d'.registry = d.registry → Q u d')
    (hcollect : ∀ {programs : List (Program BatchResult)} {next : List BatchResult → Task α}
      {results : List BatchResult} {d : Client σ}, Q (.gather programs next) d →
        Program.results? programs = some results → Q (next results) d)
    (hanswer : ∀ {before : List (Event σ)} {M : Moment σ α} {u : Task α} {r : Request}
      {next : r.Answer → Task α}, Run ⟨tasks ++ [t], c⟩ before M → M.tasks = tasks ++ [u] →
        u.Asks r next → Q u M.client →
          Q (next (M.client.answer tasks.length r).1) (M.client.answer tasks.length r).2) :
    ∃ t', S.tasks = tasks ++ [t'] ∧ Q t' S.client := by
  have hset : ∀ u v : Task α, (tasks ++ [u]).set tasks.length v = tasks ++ [v] := by
    intro u v
    simp
  induction h with
  | refl => exact ⟨t, rfl, hstart⟩
  | quiet hbefore step ih =>
    obtain ⟨u, hu, hQ⟩ := ih
    cases step with
    | wait task asks => exact ⟨u, hu, hquiet hQ (Client.enqueue_registry _ _ _)⟩
    | pass => exact ⟨u, hu, hquiet hQ rfl⟩
    | @collect i programs next results task done =>
      rw [hu] at task
      obtain ⟨rfl, rfl⟩ := Task.last_of_busy hdone task nofun
      exact ⟨next results, by rw [hu, hset], hcollect hQ done⟩
  | event hbefore step ih =>
    obtain ⟨u, hu, hQ⟩ := ih
    cases step with
    | @answer i v r next task asks free =>
      rw [hu] at task
      obtain ⟨rfl, rfl⟩ := Task.last_of_busy hdone task asks.busy
      exact ⟨_, by rw [hu, hset], hanswer hbefore hu asks hQ⟩

end SlotCluster
