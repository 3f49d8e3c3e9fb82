import SlotCluster.Proofs.Discoveries
import SlotCluster.Proofs.Readings

/-!
# Surveys

A survey is a list of inquiries: who was asked, what, and what came of it. The candidates are
asked for their slots, one after the other. When slots are missing for the first time the masters
are asked whether they may.
-/

namespace SlotCluster

namespace Discovery

variable {σ : Type}

open SlotCluster.Action

/-! ## Inquiries -/

inductive Question
  | slots
  | coverage
  deriving DecidableEq, Repr

def Question.command : Question → Command
  | slots => Command.clusterSlots
  | coverage => Command.configGetFullCoverage

/-- A node was asked on a link of its own. -/
structure Inquiry (σ : Type) where
  node : Node
  question : Question
  events : List (Event σ)
  outcome : Except Fault Reply

namespace Inquiry

def Made [Transport σ] (q : Inquiry σ) : Prop :=
  Runs (query q.node q.question.command) q.events q.outcome

def Fails (q : Inquiry σ) : Prop := ∃ f, q.outcome = .error f

/-- The node says that gaps are allowed. A failure says nothing. -/
def SaysNo (q : Inquiry σ) : Prop :=
  ∃ first value rest bytes, q.outcome = .ok (.array (first :: value :: rest)) ∧
    value.bytes? = some bytes ∧ bytes.sameWord (Bytes.ofText "no") = true

/-- The inquiries that were about this. -/
def about (question : Question) (qs : List (Inquiry σ)) : List (Inquiry σ) :=
  qs.filter fun q => q.question == question

end Inquiry

def Inquiry.reading? (q : Inquiry σ) : Option Reading :=
  match q.outcome with
  | .ok reply => some ⟨q.node, reply⟩
  | .error _ => none

/-- What was read of the slots. -/
def readings (qs : List (Inquiry σ)) : List Reading :=
  (Inquiry.about .slots qs).filterMap Inquiry.reading?

section Inquiries

variable {q : Inquiry σ} {qs : List (Inquiry σ)}

theorem Inquiry.allowsGaps_iff : allowsGaps q.outcome = true ↔ q.SaysNo := by
  unfold allowsGaps SaysNo
  constructor
  · intro h
    split at h
    · next first value rest houtcome =>
      split at h
      · next bytes hbytes => exact ⟨first, value, rest, bytes, houtcome, hbytes, h⟩
      · cases h
    · cases h
  · rintro ⟨first, value, rest, bytes, houtcome, hbytes, hsame⟩
    simp only [houtcome, hbytes, hsame]

@[simp] theorem Inquiry.about_nil (question : Question) :
    about question ([] : List (Inquiry σ)) = [] := rfl

@[simp] theorem Inquiry.about_cons (question : Question) :
    about question (q :: qs) =
      if q.question = question then q :: about question qs else about question qs := by
  simp [about, List.filter_cons]

@[simp] theorem Inquiry.about_append (question : Question) (qs' : List (Inquiry σ)) :
    about question (qs ++ qs') = about question qs ++ about question qs' :=
  List.filter_append ..

theorem Inquiry.about_self {question : Question} (h : ∀ q ∈ qs, q.question = question) :
    about question qs = qs :=
  List.filter_eq_self.mpr fun q hq => by simp [h q hq]

theorem Inquiry.about_other {question other : Question} (h : ∀ q ∈ qs, q.question = question)
    (hne : question ≠ other) : about other qs = [] :=
  List.filter_eq_nil_iff.mpr fun q hq => by simp [h q hq, hne]

@[simp] theorem readings_append (qs' : List (Inquiry σ)) :
    readings (qs ++ qs') = readings qs ++ readings qs' := by
  rw [readings, Inquiry.about_append, List.filterMap_append]
  rfl

@[simp] theorem readings_nil : readings ([] : List (Inquiry σ)) = [] := rfl

@[simp] theorem readings_failed (node : Node) (es : List (Event σ)) (f : Fault) :
    readings (⟨node, .slots, es, .error f⟩ :: qs) = readings qs := by
  rw [readings, Inquiry.about_cons, if_pos rfl]
  exact List.filterMap_cons_none rfl

@[simp] theorem readings_answered (node : Node) (es : List (Event σ)) (reply : Reply) :
    readings (⟨node, .slots, es, .ok reply⟩ :: qs) = ⟨node, reply⟩ :: readings qs := by
  rw [readings, Inquiry.about_cons, if_pos rfl]
  exact List.filterMap_cons_some rfl

end Inquiries

theorem readings_eq_nil_iff {qs : List (Inquiry σ)} :
    readings qs = [] ↔ ∀ q ∈ Inquiry.about .slots qs, q.Fails := by
  rw [readings, List.filterMap_eq_nil_iff]
  refine forall₂_congr fun q _ => ?_
  unfold Inquiry.reading? Inquiry.Fails
  cases q.outcome <;> simp

variable [Transport σ]

/-! ## Coverage -/

/-- Whom a survey asks whether gaps are a fault, given what it knows about that, and the answer. -/
inductive Probed (s : Settings) (masters : List Node) :
    Option Bool → List (Inquiry σ) → Bool → Prop
  | known (required : Bool) : Probed s masters (some required) [] required
  | skipped (skip : s.skipCoverageCheck = true) : Probed s masters none [] false
  | allowed {qs : List (Inquiry σ)} (skip : s.skipCoverageCheck = false)
      (made : ∀ q ∈ qs, q.Made ∧ q.question = .coverage) (nodes : qs.map Inquiry.node = masters)
      (no : ∀ q ∈ qs, q.SaysNo) : Probed s masters none qs false
  | required {qs : List (Inquiry σ)} (skip : s.skipCoverageCheck = false)
      (made : ∀ q ∈ qs, q.Made ∧ q.question = .coverage) (nodes : qs.map Inquiry.node <+: masters)
      (other : ∃ q ∈ qs, ¬ q.SaysNo) : Probed s masters none qs true

theorem runs_requiresCoverage {masters : List Node} {es : List (Event σ)} {required : Bool}
    (h : Program.Runs (requiresCoverage masters) es required) :
    ∃ qs : List (Inquiry σ), es = qs.flatMap Inquiry.events ∧
      (∀ q ∈ qs, q.Made ∧ q.question = .coverage) ∧
      if required then qs.map Inquiry.node <+: masters ∧ ∃ q ∈ qs, ¬ q.SaysNo
      else qs.map Inquiry.node = masters ∧ ∀ q ∈ qs, q.SaysNo := by
  induction masters generalizing es with
  | nil =>
    obtain ⟨rfl, rfl⟩ := Program.runs_done_iff.mp h
    exact ⟨[], rfl, by simp, rfl, by simp⟩
  | cons master rest ih =>
    obtain ⟨answer, es₁, es₂, rfl, hmade, hrest⟩ := Program.runs_bind_iff.mp h
    let q : Inquiry σ := ⟨master, .coverage, es₁, answer⟩
    have hq : q.Made ∧ q.question = .coverage := ⟨hmade, rfl⟩
    by_cases hno : allowsGaps answer = true
    · simp only [hno, if_true] at hrest
      obtain ⟨qs, rfl, hqs, hend⟩ := ih hrest
      refine ⟨q :: qs, rfl, List.forall_mem_cons.mpr ⟨hq, hqs⟩, ?_⟩
      have hq_no : q.SaysNo := Inquiry.allowsGaps_iff.mp hno
      cases required with
      | true =>
        obtain ⟨hnodes, q', hq', hother⟩ := hend
        exact ⟨(List.prefix_cons_inj master).mpr hnodes, q', .tail _ hq', hother⟩
      | false =>
        obtain ⟨hnodes, hall⟩ := hend
        exact ⟨by rw [List.map_cons, hnodes], List.forall_mem_cons.mpr ⟨hq_no, hall⟩⟩
    · simp only [hno, Bool.false_eq_true, if_false] at hrest
      obtain ⟨rfl, rfl⟩ := Program.runs_done_iff.mp hrest
      refine ⟨[q], by simp [q], List.forall_mem_singleton.mpr hq, ?_, q, by simp, ?_⟩
      · exact (List.prefix_cons_inj master).mpr List.nil_prefix
      · exact fun hq_no => hno (Inquiry.allowsGaps_iff.mpr hq_no)

theorem runs_coverage {s : Settings} {v : Survey} {es : List (Event σ)} {required : Bool}
    (h : Program.Runs (v.coverage s) es required) :
    ∃ qs : List (Inquiry σ), es = qs.flatMap Inquiry.events ∧
      Probed s v.topology.masters v.coverageRequired qs required := by
  unfold Survey.coverage at h
  split at h
  · next known hknown =>
    obtain ⟨rfl, rfl⟩ := Program.runs_done_iff.mp h
    exact ⟨[], rfl, hknown ▸ .known required⟩
  · next hnone =>
    rw [hnone]
    split at h
    · next hskip =>
      obtain ⟨rfl, rfl⟩ := Program.runs_done_iff.mp h
      exact ⟨[], rfl, .skipped hskip⟩
    · next hskip =>
      have hskip : s.skipCoverageCheck = false := by simpa using hskip
      obtain ⟨qs, hes, hmade, hend⟩ := runs_requiresCoverage h
      refine ⟨qs, hes, ?_⟩
      cases required with
      | true => exact .required hskip hmade hend.1 hend.2
      | false => exact .allowed hskip hmade hend.1 hend.2

section Probed

variable {s : Settings} {masters : List Node} {known : Option Bool} {probes : List (Inquiry σ)}
  {required : Bool}

theorem Probed.made (h : Probed s masters known probes required) :
    ∀ q ∈ probes, q.Made ∧ q.question = .coverage := by
  cases h with
  | known | skipped => simp
  | allowed skip made => exact made
  | required skip made => exact made

theorem Probed.about_coverage (h : Probed s masters known probes required) :
    Inquiry.about .coverage probes = probes :=
  Inquiry.about_self fun q hq => (h.made q hq).2

theorem Probed.about_slots (h : Probed s masters known probes required) :
    Inquiry.about .slots probes = [] :=
  Inquiry.about_other (fun q hq => (h.made q hq).2) Question.noConfusion

theorem Probed.readings (h : Probed s masters known probes required) :
    Discovery.readings probes = [] := by
  rw [Discovery.readings, h.about_slots, List.filterMap_nil]

end Probed

/-! ## The course of a survey -/

def Survey.add (v : Survey) (t : Topology) : Survey := { v with answered := true, topology := t }

def Survey.decide (v : Survey) (required : Bool) : Survey :=
  { v with coverageRequired := some required }

section Fields

variable (v : Survey) (candidate : Node) (f : Fault) (t : Topology) (required : Bool)

@[simp] theorem Survey.addFailure_topology : (v.addFailure candidate f).topology = v.topology := rfl

@[simp] theorem Survey.addFailure_answered : (v.addFailure candidate f).answered = v.answered := rfl

@[simp] theorem Survey.addFailure_coverageRequired :
    (v.addFailure candidate f).coverageRequired = v.coverageRequired := rfl

@[simp] theorem Survey.add_topology : (v.add t).topology = t := rfl

@[simp] theorem Survey.add_answered : (v.add t).answered = true := rfl

@[simp] theorem Survey.add_coverageRequired :
    (v.add t).coverageRequired = v.coverageRequired := rfl

@[simp] theorem Survey.decide_topology : (v.decide required).topology = v.topology := rfl

@[simp] theorem Survey.decide_answered : (v.decide required).answered = v.answered := rfl

@[simp] theorem Survey.decide_coverageRequired :
    (v.decide required).coverageRequired = some required := rfl

end Fields

/-- What a survey asks of the candidates that are left, and how it ends. -/
inductive Surveyed (s : Settings) (onlySeed : Bool) :
    List Node → Survey → List (Inquiry σ) → Except Fault Survey → Prop
  | done {v : Survey} : Surveyed s onlySeed [] v [] (.ok v)
  | skipped {candidate : Node} {rest : List Node} {v : Survey} {es : List (Event σ)} {f : Fault}
      {qs : List (Inquiry σ)} {r : Except Fault Survey}
      (made : Inquiry.Made ⟨candidate, .slots, es, .error f⟩)
      (h : Surveyed s onlySeed rest (v.addFailure candidate f) qs r) :
      Surveyed s onlySeed (candidate :: rest) v (⟨candidate, .slots, es, .error f⟩ :: qs) r
  | refused {candidate : Node} {rest : List Node} {v : Survey} {es : List (Event σ)}
      {reply : Reply} {f : Fault} (made : Inquiry.Made ⟨candidate, .slots, es, .ok reply⟩)
      (absorbs : absorb onlySeed candidate reply v.topology = .error f) :
      Surveyed s onlySeed (candidate :: rest) v [⟨candidate, .slots, es, .ok reply⟩] (.error f)
  | full {candidate : Node} {rest : List Node} {v : Survey} {es : List (Event σ)}
      {reply : Reply} {t : Topology} (made : Inquiry.Made ⟨candidate, .slots, es, .ok reply⟩)
      (absorbs : absorb onlySeed candidate reply v.topology = .ok t)
      (full : t.table.isFull = true) :
      Surveyed s onlySeed (candidate :: rest) v [⟨candidate, .slots, es, .ok reply⟩]
        (.ok (v.add t))
  | enough {candidate : Node} {rest : List Node} {v : Survey} {es : List (Event σ)}
      {reply : Reply} {t : Topology} {probes : List (Inquiry σ)}
      (made : Inquiry.Made ⟨candidate, .slots, es, .ok reply⟩)
      (absorbs : absorb onlySeed candidate reply v.topology = .ok t)
      (gaps : t.table.isFull = false)
      (probed : Probed s t.masters v.coverageRequired probes false) :
      Surveyed s onlySeed (candidate :: rest) v (⟨candidate, .slots, es, .ok reply⟩ :: probes)
        (.ok ((v.add t).decide false))
  | more {candidate : Node} {rest : List Node} {v : Survey} {es : List (Event σ)}
      {reply : Reply} {t : Topology} {probes qs : List (Inquiry σ)} {r : Except Fault Survey}
      (made : Inquiry.Made ⟨candidate, .slots, es, .ok reply⟩)
      (absorbs : absorb onlySeed candidate reply v.topology = .ok t)
      (gaps : t.table.isFull = false)
      (probed : Probed s t.masters v.coverageRequired probes true)
      (h : Surveyed s onlySeed rest ((v.add t).decide true) qs r) :
      Surveyed s onlySeed (candidate :: rest) v
        (⟨candidate, .slots, es, .ok reply⟩ :: (probes ++ qs)) r

theorem runs_survey {s : Settings} {onlySeed : Bool} {candidates : List Node} {v : Survey}
    {es : List (Event σ)} {r : Except Fault Survey}
    (h : Runs (survey s onlySeed candidates v) es r) :
    ∃ qs : List (Inquiry σ), es = qs.flatMap Inquiry.events ∧
      Surveyed s onlySeed candidates v qs r := by
  induction candidates generalizing v es with
  | nil =>
    obtain ⟨rfl, rfl⟩ := runs_pure_iff.mp h
    exact ⟨[], rfl, .done⟩
  | cons candidate rest ih =>
    obtain ⟨answer, es₁, es₂, rfl, hmade, hrest⟩ := runs_outcome_bind_iff.mp h
    cases answer with
    | error f =>
      obtain ⟨qs, rfl, hqs⟩ := ih hrest
      exact ⟨_ :: qs, rfl, .skipped hmade hqs⟩
    | ok reply =>
      obtain ⟨f, habsorb, rfl, rfl⟩ | ⟨t, habsorb, hadded⟩ := runs_lift_bind_iff.mp hrest
      · exact ⟨[_], by simp, .refused hmade habsorb⟩
      simp only at hadded
      split at hadded
      · next hfull =>
        obtain ⟨rfl, rfl⟩ := runs_pure_iff.mp hadded
        exact ⟨[_], by simp, .full hmade habsorb hfull⟩
      next hgaps =>
      have hgaps : t.table.isFull = false := by simpa using hgaps
      obtain ⟨required, es₃, es₄, rfl, hcoverage, hend⟩ := runs_program_bind_iff.mp hadded
      obtain ⟨probes, rfl, hprobed⟩ := runs_coverage hcoverage
      cases required with
      | true =>
        obtain ⟨qs, rfl, hqs⟩ := ih hend
        exact ⟨_ :: (probes ++ qs), by simp, .more hmade habsorb hgaps hprobed hqs⟩
      | false =>
        obtain ⟨rfl, rfl⟩ := runs_pure_iff.mp hend
        exact ⟨_ :: probes, by simp, .enough hmade habsorb hgaps hprobed⟩

namespace Surveyed

variable {s : Settings} {onlySeed : Bool} {candidates : List Node} {v : Survey}
  {qs : List (Inquiry σ)} {r : Except Fault Survey}

theorem made (h : Surveyed s onlySeed candidates v qs r) : ∀ q ∈ qs, q.Made := by
  induction h with
  | done => simp
  | skipped made h ih => exact List.forall_mem_cons.mpr ⟨made, ih⟩
  | refused made | full made => exact List.forall_mem_singleton.mpr made
  | enough made absorbs gaps probed =>
    exact List.forall_mem_cons.mpr ⟨made, fun q hq => (probed.made q hq).1⟩
  | more made absorbs gaps probed h ih =>
    refine List.forall_mem_cons.mpr ⟨made, ?_⟩
    exact List.forall_mem_append.mpr ⟨fun q hq => (probed.made q hq).1, ih⟩

theorem gathers (h : Surveyed s onlySeed candidates v qs r) :
    gather onlySeed (readings qs) v.topology = r.map Survey.topology := by
  induction h with
  | done => rfl
  | skipped made h ih => simpa using ih
  | refused made absorbs =>
    rw [readings_answered, gather, absorbs]
    rfl
  | full made absorbs =>
    rw [readings_answered, gather, absorbs]
    rfl
  | enough made absorbs gaps probed =>
    rw [readings_answered, gather, absorbs, probed.readings]
    rfl
  | more made absorbs gaps probed h ih =>
    rw [readings_answered, gather, absorbs, readings_append, probed.readings]
    exact ih

theorem gaps_before (h : Surveyed s onlySeed candidates v qs r)
    (hstart : v.topology.table.isFull = false) {init rest : List Reading}
    (hreadings : readings qs = init ++ rest) (hrest : rest ≠ []) :
    ∃ t, gather onlySeed init v.topology = .ok t ∧ t.table.isFull = false := by
  -- If a survey ends with its first reading, nothing was read before that.
  have hlast : ∀ {reading : Reading} {init : List Reading},
      [reading] = init ++ rest → init = [] := by
    intro reading init h
    rcases List.append_eq_singleton_iff.mp h.symm with ⟨hinit, -⟩ | ⟨-, hnil⟩
    · exact hinit
    · exact absurd hnil hrest
  induction h generalizing init with
  | done => exact absurd (List.append_eq_nil_iff.mp hreadings.symm).2 hrest
  | skipped made h ih => exact ih hstart (by simpa using hreadings)
  | refused | full =>
    obtain rfl := hlast (by simpa using hreadings)
    exact ⟨_, rfl, hstart⟩
  | enough made absorbs gaps probed =>
    obtain rfl := hlast (by simpa [probed.readings] using hreadings)
    exact ⟨_, rfl, hstart⟩
  | more made absorbs gaps probed h ih =>
    rw [readings_answered, readings_append, probed.readings, List.nil_append] at hreadings
    cases init with
    | nil => exact ⟨_, rfl, hstart⟩
    | cons reading init =>
      rw [List.cons_append, List.cons.injEq] at hreadings
      obtain ⟨rfl, hmore⟩ := hreadings
      obtain ⟨t, ht, hgaps⟩ := ih gaps hmore
      refine ⟨t, ?_, hgaps⟩
      rw [gather, absorbs]
      exact ht

end Surveyed

/-- The events of a discovery: it reads the registry, makes its inquiries, and may install. -/
theorem runs_run_surveyed {s : Settings} {es : List (Event σ)} {r : Except Fault Unit}
    (h : Runs (run s) es r) :
    ∃ task c qs last v, es = ⟨task, .registry, c⟩ :: (qs.flatMap Inquiry.events ++ last) ∧
      Surveyed s (c.registry.seeds.length == 1) (candidates s c.registry) .start qs v ∧
      ((∃ f, v.bind (Survey.conclude s) = .error f ∧ last = [] ∧ r = .error f) ∨
        ∃ v' required task' c', v = .ok v' ∧ v'.conclude s = .ok required ∧
          last = [⟨task', .install v'.topology required, c'⟩] ∧ r = .ok ()) := by
  unfold run at h
  obtain ⟨task, c, es, rfl, hes⟩ := (runs_ask_bind_iff _).mp h
  obtain ⟨f, hsurvey, rfl⟩ | ⟨v, es₁, es₂, rfl, hsurvey, hrest⟩ := runs_bind_iff.mp hes
  · obtain ⟨qs, rfl, hqs⟩ := runs_survey hsurvey
    exact ⟨task, c, qs, [], _, by simp, hqs, .inl ⟨f, rfl, rfl, rfl⟩⟩
  · obtain ⟨qs, rfl, hqs⟩ := runs_survey hsurvey
    obtain ⟨f, hf, rfl, rfl⟩ | ⟨required, hrequired, hinstall⟩ := runs_lift_bind_iff.mp hrest
    · exact ⟨task, c, qs, [], _, rfl, hqs, .inl ⟨f, hf, rfl, rfl⟩⟩
    · obtain ⟨task', c', rfl, rfl⟩ := (runs_ask_iff _).mp hinstall
      exact ⟨task, c, qs, _, _, rfl, hqs, .inr ⟨v, required, task', c', rfl, hrequired, rfl, rfl⟩⟩

end Discovery

end SlotCluster
