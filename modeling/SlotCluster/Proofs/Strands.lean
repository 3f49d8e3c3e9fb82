import SlotCluster.Proofs.Protocols

/-!
# Strands

A task is one strand of requests, and so is each program that it starts. A walk is a run that says
of every event which strand it belongs to, and every run is one. Strands that share a protocol,
each from rest to rest, keep it in every walk.
-/

namespace SlotCluster

variable {σ τ α β : Type}

/-! ## Marks -/

/-- A task itself, or the program at this place among those that it has started. -/
structure Strand where
  task : Nat
  program : Option Nat
  deriving DecidableEq

structure Mark (σ : Type) where
  program : Option Nat
  event : Event σ

namespace Mark

def strand (m : Mark σ) : Strand := ⟨m.event.task, m.program⟩

end Mark

/-- What one strand has done. -/
def eventsOf (s : Strand) (marks : List (Mark σ)) : List (Event σ) :=
  (marks.filter fun m => m.strand == s).map Mark.event

section EventsOf

variable {s : Strand} {marks : List (Mark σ)}

@[simp] theorem eventsOf_nil : eventsOf s ([] : List (Mark σ)) = [] := rfl

@[simp] theorem eventsOf_append (marks marks' : List (Mark σ)) :
    eventsOf s (marks ++ marks') = eventsOf s marks ++ eventsOf s marks' := by
  simp [eventsOf]

theorem eventsOf_singleton (m : Mark σ) :
    eventsOf s [m] = if m.strand = s then [m.event] else [] := by
  by_cases h : m.strand = s <;> simp [eventsOf, h]

theorem eventsOf_eq_nil_iff : eventsOf s marks = [] ↔ ∀ m ∈ marks, m.strand ≠ s := by
  simp [eventsOf]

theorem eventsOf_eq_append {es es' : List (Event σ)} (h : eventsOf s marks = es ++ es') :
    ∃ before after, marks = before ++ after ∧ eventsOf s before = es ∧ eventsOf s after = es' := by
  obtain ⟨ms, ms', hfilter, rfl, rfl⟩ := List.map_eq_append_iff.mp h
  obtain ⟨before, after, rfl, rfl, rfl⟩ := List.filter_eq_append_iff.mp hfilter
  exact ⟨before, after, rfl, rfl, rfl⟩

end EventsOf

/-! ## Walks -/

/-- The strand of the task that may make this request next. -/
inductive Task.AsksAt : Task α → Option Nat → (r : Request) → (r.Answer → Task α) → Prop
  | call (r : Request) (next : r.Answer → Task α) : AsksAt (.call r next) none r next
  | inside (before after : List (Program BatchResult)) (r : Request)
      (next : r.Answer → Program BatchResult) (k : List BatchResult → Task α) :
      AsksAt (.gather (before ++ .call r next :: after) k) (some before.length) r
        fun a => .gather (before ++ next a :: after) k

theorem Task.asks_iff {t : Task α} {r : Request} {next : r.Answer → Task α} :
    t.Asks r next ↔ ∃ program, t.AsksAt program r next := by
  constructor
  · intro h
    cases h with
    | call => exact ⟨none, .call r next⟩
    | inside before after r next k => exact ⟨some before.length, .inside before after r next k⟩
  · rintro ⟨program, h⟩
    cases h with
    | call => exact .call r next
    | inside before after r next k => exact .inside before after r next k

variable [Transport σ]

namespace Moment

inductive Walk (S : Moment σ α) : List (Mark σ) → Moment σ α → Prop
  | refl : Walk S [] S
  | quiet {marks : List (Mark σ)} {M S' : Moment σ α} (h : Walk S marks M)
      (step : Step M none S') : Walk S marks S'
  | event {marks : List (Mark σ)} {M : Moment σ α} {i : Nat} {t : Task α} {program : Option Nat}
      {r : Request} {next : r.Answer → Task α} (h : Walk S marks M)
      (task : M.tasks[i]? = some t) (asks : t.AsksAt program r next)
      (free : M.client.blocks i r = false) :
      Walk S (marks ++ [⟨program, i, r, M.client⟩])
        ⟨M.tasks.set i (next (M.client.answer i r).1), (M.client.answer i r).2⟩

/-- Walks are runs with marks. -/
theorem run_iff_walk {S S' : Moment σ α} {es : List (Event σ)} :
    Run S es S' ↔ ∃ marks, marks.map Mark.event = es ∧ Walk S marks S' := by
  constructor
  · intro h
    induction h with
    | refl => exact ⟨[], rfl, .refl⟩
    | quiet _ step ih =>
      obtain ⟨marks, rfl, h⟩ := ih
      exact ⟨marks, rfl, .quiet h step⟩
    | event _ step ih =>
      obtain ⟨marks, rfl, h⟩ := ih
      cases step with
      | answer task asks free =>
        obtain ⟨program, asks⟩ := Task.asks_iff.mp asks
        exact ⟨_, by simp, .event h task asks free⟩
  · rintro ⟨marks, rfl, h⟩
    induction h with
    | refl => exact .refl
    | quiet _ step ih => exact .quiet ih step
    | event _ task asks free ih =>
      rw [List.map_append]
      exact .event ih (.answer task (Task.asks_iff.mpr ⟨_, asks⟩) free)

namespace Walk

variable {S S' : Moment σ α} {marks : List (Mark σ)}

theorem cut {marks' : List (Mark σ)} (h : Walk S (marks ++ marks') S') :
    ∃ M, Walk S marks M := by
  generalize hall : marks ++ marks' = all at h
  induction h generalizing marks' with
  | refl =>
    obtain ⟨rfl, rfl⟩ := List.append_eq_nil_iff.mp hall
    exact ⟨S, .refl⟩
  | quiet _ step ih => exact ih hall
  | event h task asks free ih =>
    rcases List.eq_nil_or_concat marks' with rfl | ⟨init, last, rfl⟩
    · rw [List.append_nil] at hall
      subst hall
      exact ⟨_, .event h task asks free⟩
    · rw [List.concat_eq_append, ← List.append_assoc] at hall
      exact ih (List.append_inj' hall rfl).1

theorem length_eq (h : Walk S marks S') : S'.tasks.length = S.tasks.length := by
  induction h with
  | refl => rfl
  | quiet _ step ih =>
    cases step with
    | wait | pass => exact ih
    | collect task done => rw [List.length_set, ih]
  | event _ task asks free ih => rw [List.length_set, ih]

theorem task_lt (h : Walk S marks S') : ∀ m ∈ marks, m.event.task < S.tasks.length := by
  induction h with
  | refl => simp
  | quiet _ _ ih => exact ih
  | event h task asks free ih =>
    rintro m hm
    rcases List.mem_append.mp hm with hm | hm
    · exact ih m hm
    · rw [List.mem_singleton.mp hm, ← h.length_eq]
      exact (List.getElem?_eq_some_iff.mp task).1

end Walk

theorem Run.path_to {S S' : Moment σ α} {es : List (Event σ)} (h : Run S es S') {i : Nat}
    {u : Task α} (hu : S'.tasks[i]? = some u) :
    ∃ t, S.tasks[i]? = some t ∧ t.Path (Event.of i es) u := by
  obtain ⟨marks, -, hwalk⟩ := run_iff_walk.mp h
  have hlt : i < S.tasks.length := hwalk.length_eq ▸ (List.getElem?_eq_some_iff.mp hu).1
  obtain ⟨v, hv, hpath⟩ := h.path (List.getElem?_eq_getElem hlt)
  obtain rfl := Option.some.inj (hu.symm.trans hv)
  exact ⟨_, List.getElem?_eq_getElem hlt, hpath⟩

end Moment

/-! ## Phases -/

section Phases

/-- The phase after these events, all of them of one strand. -/
def Protocol.phase (P : Protocol τ) (φ : τ) (es : List (Event σ)) : τ :=
  es.foldl (fun φ e => P.next φ e.request e.answer) φ

@[simp] theorem Protocol.phase_nil (P : Protocol τ) (φ : τ) :
    P.phase φ ([] : List (Event σ)) = φ := rfl

@[simp] theorem Protocol.phase_cons (P : Protocol τ) (φ : τ) (e : Event σ) (es : List (Event σ)) :
    P.phase φ (e :: es) = P.phase (P.next φ e.request e.answer) es := rfl

@[simp] theorem Protocol.phase_append (P : Protocol τ) (φ : τ) (es es' : List (Event σ)) :
    P.phase φ (es ++ es') = P.phase (P.phase φ es) es' := List.foldl_append ..

theorem Program.Keeps.of_runs {P : Protocol τ} {post : α → τ → Prop} {φ : τ} {p : Program α}
    (hp : p.Keeps P post φ) {es : List (Event σ)} {v : α} (h : Runs p es v) :
    post v (P.phase φ es) := by
  induction h generalizing φ with
  | done v => exact hp
  | call task r next c _ ih => exact ih (hp.2 _)

theorem Program.Keeps.allows_of_runs {P : Protocol τ} {post : α → τ → Prop} {φ : τ} {p : Program α}
    (hp : p.Keeps P post φ) {before rest : List (Event σ)} {e : Event σ} {v : α}
    (h : Runs p (before ++ e :: rest) v) : P.Allows (P.phase φ before) e.request := by
  induction before generalizing p φ with
  | nil =>
    cases h with
    | call => exact hp.1
  | cons d before ih =>
    cases h with
    | call task r next c h => exact ih (hp.2 _) h

end Phases

/-! ## Protocols that strands share -/

section Shares

variable {P : Protocol τ} {rest : τ}

/-- The program keeps the protocol from this phase on, and rests at its end. -/
abbrev Program.Settles (P : Protocol τ) (rest : τ) (p : Program α) (φ : τ) : Prop :=
  p.Keeps P (fun _ ψ => ψ = rest) φ

theorem Program.settles_bind {p : Program α} {f : α → Program β} {φ : τ}
    (hp : p.Settles P rest φ) (hf : ∀ v, (f v).Settles P rest rest) :
    (p.bind f).Settles P rest φ := by
  refine keeps_bind_iff.mpr (hp.mono ?_)
  rintro v _ rfl
  exact hf v

namespace Action

abbrev Settles (P : Protocol τ) (rest : τ) (a : Action α) (φ : τ) : Prop :=
  Program.Settles P rest a.run φ

theorem settles_lift (x : Except Fault α) : Settles P rest (liftM x) rest := rfl

theorem settles_ask {q : Request} (h : P.Ignores q) : Settles P rest (ask q) rest :=
  ⟨(h rest).1, (h rest).2⟩

theorem settles_bind {a : Action α} {f : α → Action β} {φ : τ} (ha : Settles P rest a φ)
    (hf : ∀ v, Settles P rest (f v) rest) : Settles P rest (a >>= f) φ := by
  refine Program.settles_bind ha ?_
  rintro (g | v)
  · rfl
  · exact hf v

theorem settles_outcome {a : Action α} {φ : τ} (h : Settles P rest a φ) :
    Settles P rest (outcome a) φ :=
  Program.settles_bind h fun _ => rfl

end Action

/-- The task keeps the protocol from this phase on, and rests at its end. It rests too while
programs run that it has started, and each of these goes from rest to rest. -/
def Task.Shares (P : Protocol τ) (rest : τ) : Task α → τ → Prop
  | .done _, φ => φ = rest
  | .call r next, φ => P.Allows φ r ∧ ∀ a, Shares P rest (next a) (P.next φ r a)
  | .gather programs next, φ =>
    φ = rest ∧ (∀ p ∈ programs, p.Settles P rest rest) ∧
      ∀ results, Shares P rest (next results) rest

namespace Task

theorem shares_bind {t : Task α} {f : α → Task β} {φ : τ} (ht : t.Shares P rest φ)
    (hf : ∀ v, (f v).Shares P rest rest) : (t.bind f).Shares P rest φ := by
  induction t generalizing φ with
  | done v =>
    obtain rfl := ht
    exact hf v
  | call r next ih => exact ⟨ht.1, fun a => ih a (ht.2 a)⟩
  | gather programs next ih => exact ⟨ht.1, ht.2.1, fun results => ih results (ht.2.2 results)⟩

theorem shares_ofProgram_iff {p : Program α} {φ : τ} :
    (ofProgram p).Shares P rest φ ↔ p.Settles P rest φ := by
  induction p generalizing φ with
  | done v => exact Iff.rfl
  | call r next ih => simp only [ofProgram, Shares, Program.Settles, Program.Keeps, ih]

end Task

namespace Job

abbrev Shares (P : Protocol τ) (rest : τ) (j : Job α) : Prop := Task.Shares P rest j.run rest

theorem shares_lift (x : Except Fault α) : Shares P rest (liftM x : Job α) := rfl

theorem shares_bind {j : Job α} {f : α → Job β} (hj : Shares P rest j)
    (hf : ∀ v, Shares P rest (f v)) : Shares P rest (j >>= f) := by
  refine Task.shares_bind hj ?_
  rintro (g | v)
  · rfl
  · exact hf v

theorem shares_action {a : Action α} (h : Action.Settles P rest a rest) :
    Shares P rest (liftM a : Job α) :=
  Task.shares_ofProgram_iff.mpr h

theorem shares_task {t : Task α} (h : t.Shares P rest rest) : Shares P rest (ExceptT.lift t) :=
  Task.shares_bind h fun _ => rfl

theorem shares_gatherAll {programs : List (Program BatchResult)}
    (h : ∀ p ∈ programs, p.Settles P rest rest) :
    Shares P rest (ExceptT.lift (Task.gatherAll programs)) :=
  shares_task ⟨rfl, h, fun _ => rfl⟩

end Job

/-- What is left of the task and of the programs that it has started goes on from these phases. -/
def Task.SharesFrom (P : Protocol τ) (rest : τ) (φ : Option Nat → τ) : Task α → Prop
  | .gather programs next =>
    φ none = rest ∧
      (∀ k, (programs[k]?.elim (φ (some k) = rest) fun p => p.Settles P rest (φ (some k)))) ∧
      ∀ results, (next results).Shares P rest rest
  | t => t.Shares P rest (φ none) ∧ ∀ k, φ (some k) = rest

namespace Task

theorem Shares.from {t : Task α} {φ : Option Nat → τ} (ht : t.Shares P rest (φ none))
    (hφ : ∀ k, φ (some k) = rest) : t.SharesFrom P rest φ := by
  cases t with
  | done v => exact ⟨ht, hφ⟩
  | call r next => exact ⟨ht, hφ⟩
  | gather programs next =>
    obtain ⟨hnone, hprograms, hnext⟩ := ht
    refine ⟨hnone, ?_, hnext⟩
    intro k
    cases hk : programs[k]? with
    | none => exact hφ k
    | some p =>
      rw [Option.elim_some, hφ k]
      exact hprograms p (List.mem_of_getElem? hk)

theorem SharesFrom.of_done {v : α} {φ : Option Nat → τ} (h : (done v).SharesFrom P rest φ)
    (k : Option Nat) : φ k = rest := by
  cases k with
  | none => exact h.1
  | some k => exact h.2 k

theorem SharesFrom.of_asksAt {t : Task α} {φ : Option Nat → τ} (ht : t.SharesFrom P rest φ)
    {program : Option Nat} {r : Request} {next : r.Answer → Task α}
    (h : t.AsksAt program r next) :
    P.Allows (φ program) r ∧ ∀ (a : r.Answer) (ψ : Option Nat → τ),
      ψ program = P.next (φ program) r a → (∀ k, k ≠ program → ψ k = φ k) →
        (next a).SharesFrom P rest ψ := by
  cases h with
  | call =>
    obtain ⟨⟨hallows, hnext⟩, hrest⟩ := ht
    refine ⟨hallows, ?_⟩
    intro a ψ hψ hothers
    refine Shares.from (hψ ▸ hnext a) ?_
    intro k
    rw [hothers (some k) (by simp), hrest k]
  | inside before after r next k =>
    obtain ⟨hnone, hprograms, hk⟩ := ht
    have hown := hprograms before.length
    rw [List.getElem?_append_right Nat.le.refl] at hown
    simp only [Nat.sub_self, List.getElem?_cons_zero, Option.elim_some] at hown
    refine ⟨hown.1, ?_⟩
    intro a ψ hψ hothers
    refine ⟨by rw [hothers none (by simp), hnone], ?_, hk⟩
    intro j
    by_cases hj : j = before.length
    · subst hj
      rw [List.getElem?_append_right Nat.le.refl]
      simp only [Nat.sub_self, List.getElem?_cons_zero, Option.elim_some, hψ]
      exact hown.2 a
    · -- The other programs keep their places.
      have hsame : (before ++ next a :: after)[j]? = (before ++ .call r next :: after)[j]? := by
        rcases Nat.lt_or_gt_of_ne hj with hlt | hgt
        · rw [List.getElem?_append_left hlt, List.getElem?_append_left hlt]
        · rw [List.getElem?_append_right (by omega), List.getElem?_append_right (by omega)]
          obtain ⟨d, hd⟩ : ∃ d, j - before.length = d + 1 := ⟨j - before.length - 1, by omega⟩
          rw [hd, List.getElem?_cons_succ, List.getElem?_cons_succ]
      rw [hsame, hothers (some j) (by simpa using hj)]
      exact hprograms j

theorem SharesFrom.of_results {programs : List (Program BatchResult)}
    {next : List BatchResult → Task α} {results : List BatchResult} {φ : Option Nat → τ}
    (h : (gather programs next).SharesFrom P rest φ)
    (hdone : Program.results? programs = some results) : (next results).SharesFrom P rest φ := by
  obtain ⟨hnone, hprograms, hnext⟩ := h
  refine Shares.from (hnone ▸ hnext results) ?_
  intro k
  have hk := hprograms k
  cases hp : programs[k]? with
  | none => rwa [hp] at hk
  | some p =>
    have hmap := hp
    rw [Program.eq_done_of_results hdone, List.getElem?_map] at hmap
    obtain ⟨v, -, rfl⟩ := Option.map_eq_some_iff.mp hmap
    rwa [hp] at hk

end Task

namespace Moment

def Shares (P : Protocol τ) (rest : τ) (S : Moment σ α) : Prop :=
  ∀ (i : Nat) (t : Task α), S.tasks[i]? = some t → t.Shares P rest rest

variable {S S' : Moment σ α} {marks : List (Mark σ)}

theorem Walk.sharesFrom (h : Walk S marks S') (hS : S.Shares P rest) {i : Nat} {t : Task α}
    (ht : S'.tasks[i]? = some t) :
    t.SharesFrom P rest fun program => P.phase rest (eventsOf ⟨i, program⟩ marks) := by
  induction h generalizing i t with
  | refl => exact (hS i t ht).from fun _ => rfl
  | quiet _ step ih =>
    cases step with
    | wait | pass => exact ih ht
    | @collect j programs next results task done =>
      obtain ⟨rfl, rfl⟩ | ⟨-, ht⟩ := task_of_set ht
      · exact (ih task).of_results done
      · exact ih ht
  | @event marks M j u program r next h task asks free ih =>
    obtain ⟨rfl, rfl⟩ | ⟨hij, ht⟩ := task_of_set ht
    · refine ((ih task).of_asksAt asks).2 _ _ ?_ ?_
      · simp only [eventsOf_append, eventsOf_singleton, Mark.strand, if_true, Protocol.phase_append]
        rfl
      · intro k hk
        simp [eventsOf_singleton, Mark.strand, Ne.symm hk]
    · have hother : ∀ program', eventsOf ⟨i, program'⟩
          (marks ++ [(⟨program, j, r, M.client⟩ : Mark σ)]) = eventsOf ⟨i, program'⟩ marks := by
        intro program'
        simp [eventsOf_singleton, Mark.strand, hij]
      simp only [hother]
      exact ih ht

theorem Walk.allows (h : Walk S marks S') (hS : S.Shares P rest) {s : Strand} {e : Event σ}
    {before after : List (Event σ)} (hes : eventsOf s marks = before ++ e :: after) :
    P.Allows (P.phase rest before) e.request := by
  induction h generalizing after with
  | refl => simp at hes
  | quiet _ _ ih => exact ih hes
  | @event marks M j t program r next h task asks free ih =>
    rw [eventsOf_append, eventsOf_singleton] at hes
    split at hes
    · next hs =>
      subst hs
      rcases List.eq_nil_or_concat after with rfl | ⟨init, last, rfl⟩
      · obtain ⟨rfl, hlast⟩ := List.append_inj' hes rfl
        obtain rfl := List.singleton_inj.mp hlast
        exact ((h.sharesFrom hS task).of_asksAt asks).1
      · rw [List.concat_eq_append, ← List.cons_append, ← List.append_assoc] at hes
        exact ih (List.append_inj' hes rfl).1
    · rw [List.append_nil] at hes
      exact ih hes

theorem Walk.phase_of_idle (h : Walk S marks S') (hS : S.Shares P rest) {i : Nat}
    (hi : (∃ v, S'.tasks[i]? = some (.done v)) ∨ ∀ m ∈ marks, m.event.task ≠ i)
    (program : Option Nat) : P.phase rest (eventsOf ⟨i, program⟩ marks) = rest := by
  rcases hi with ⟨v, hv⟩ | hnone
  · exact (h.sharesFrom hS hv).of_done program
  · have hnil : eventsOf ⟨i, program⟩ marks = [] := by
      rw [eventsOf_eq_nil_iff]
      rintro m hm hstrand
      exact hnone m hm (congrArg Strand.task hstrand)
    rw [hnil, Protocol.phase_nil]

end Moment

end Shares

end SlotCluster
