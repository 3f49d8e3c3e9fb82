import SlotCluster.Proofs.Canned
import SlotCluster.Proofs.Surveys

/-!
# How a discovery ends

A discovery passes over the candidates that fail. It installs what the others said, if no slot is
missing or gaps are allowed, and otherwise it leaves the registry as it is.
-/

namespace SlotCluster

namespace Discovery

variable {σ : Type}

open SlotCluster.Action

/-! ## Whom a survey asks -/

/-- The candidates were asked in order. Only one that answered may end this before the last. -/
def AskedInTurn (candidates : List Node) (asked : List (Inquiry σ)) : Prop :=
  asked.map Inquiry.node <+: candidates ∧
    (asked.map Inquiry.node = candidates ∨ ∃ init q, asked = init ++ [q] ∧ ¬ q.Fails)

namespace AskedInTurn

variable {candidate : Node} {rest : List Node} {q : Inquiry σ}

theorem answered {reply : Reply} (hnode : q.node = candidate) (hanswer : q.outcome = .ok reply) :
    AskedInTurn (candidate :: rest) [q] := by
  have hanswered : ¬ q.Fails := by
    rintro ⟨f, hf⟩
    rw [hanswer] at hf
    cases hf
  refine ⟨?_, .inr ⟨[], q, rfl, hanswered⟩⟩
  rw [List.map_singleton, hnode]
  exact (List.prefix_cons_inj candidate).mpr List.nil_prefix

theorem cons {asked : List (Inquiry σ)} (h : AskedInTurn rest asked) (q : Inquiry σ)
    (hnode : q.node = candidate) : AskedInTurn (candidate :: rest) (q :: asked) := by
  obtain ⟨hbegins, hend⟩ := h
  rw [AskedInTurn, List.map_cons, hnode]
  refine ⟨(List.prefix_cons_inj candidate).mpr hbegins, ?_⟩
  rcases hend with hall | ⟨init, last, rfl, hlast⟩
  · exact .inl (by rw [hall])
  · exact .inr ⟨q :: init, last, rfl, hlast⟩

end AskedInTurn

variable [Transport σ]

/-! ## What a survey has done -/

namespace Surveyed

variable {s : Settings} {onlySeed : Bool} {candidates : List Node} {v : Survey}
  {qs : List (Inquiry σ)} {r : Except Fault Survey}

theorem asked (h : Surveyed s onlySeed candidates v qs r) :
    AskedInTurn candidates (Inquiry.about .slots qs) := by
  induction h with
  | done => exact ⟨List.prefix_rfl, .inl rfl⟩
  | skipped made h ih => simpa using ih.cons _ rfl
  | refused | full => simpa using AskedInTurn.answered rfl rfl
  | enough made absorbs gaps probed =>
    simpa [probed.about_slots] using AskedInTurn.answered rfl rfl
  | more made absorbs gaps probed h ih => simpa [probed.about_slots] using ih.cons _ rfl

theorem exhausts {v' : Survey} (h : Surveyed s onlySeed candidates v qs (.ok v'))
    (hgaps : v'.topology.table.isFull = false) (hrequired : v'.coverageRequired ≠ some false) :
    (Inquiry.about .slots qs).map Inquiry.node = candidates := by
  generalize hr : Except.ok v' = r at h
  induction h with
  | done => rfl
  | skipped made h ih => simp [ih hr]
  | refused => cases hr
  | full made absorbs full =>
    cases hr
    exact absurd full (by simp at hgaps; simp [hgaps])
  | enough =>
    cases hr
    exact absurd rfl hrequired
  | more made absorbs gaps probed h ih => simp [probed.about_slots, ih hr]

theorem answered_iff {v' : Survey} (h : Surveyed s onlySeed candidates v qs (.ok v')) :
    v'.answered = true ↔ v.answered = true ∨ readings qs ≠ [] := by
  generalize hr : Except.ok v' = r at h
  induction h with
  | done =>
    cases hr
    simp [readings, Inquiry.about]
  | skipped made h ih => simpa using ih hr
  | refused => cases hr
  | full | enough =>
    cases hr
    simp [Survey.add, Survey.decide]
  | more made absorbs gaps probed h ih => simpa [Survey.add, Survey.decide] using ih hr

theorem asks_once (h : Surveyed s onlySeed candidates v qs r)
    (hv : v.coverageRequired = some true) :
    Inquiry.about .coverage qs = [] ∧ ∀ v', r = .ok v' → v'.coverageRequired = some true := by
  induction h with
  | done => exact ⟨rfl, by rintro _ ⟨⟩; exact hv⟩
  | skipped made h ih => simpa using ih hv
  | refused => simp
  | full => simp [hv]
  | enough made absorbs gaps probed =>
    rw [hv] at probed
    cases probed
  | more made absorbs gaps probed h ih =>
    obtain ⟨hnone, hend⟩ := ih rfl
    rw [hv] at probed
    cases probed
    exact ⟨by simp [hnone], hend⟩

theorem coverage {v' : Survey} (h : Surveyed s onlySeed candidates v qs (.ok v'))
    (hv : v.coverageRequired = none) :
    match v'.coverageRequired with
    | none => v'.topology.table.isFull = true ∨ readings qs = []
    | some false => s.skipCoverageCheck = true ∨
        (Inquiry.about .coverage qs).map Inquiry.node = v'.topology.masters ∧
          ∀ q ∈ Inquiry.about .coverage qs, q.SaysNo
    | some true => s.skipCoverageCheck = false ∧ ∃ q ∈ Inquiry.about .coverage qs, ¬ q.SaysNo := by
  generalize hr : Except.ok v' = r at h
  induction h with
  | done =>
    cases hr
    simp [hv]
  | skipped made h ih => simpa using ih hv hr
  | refused => cases hr
  | full made absorbs full =>
    cases hr
    simp [hv, full]
  | enough made absorbs gaps probed =>
    cases hr
    rw [hv] at probed
    cases probed with
    | skipped skip => exact .inl skip
    | allowed skip made nodes no =>
      have habout := Inquiry.about_self fun q hq => (made q hq).2
      exact .inr ⟨by simpa [habout] using nodes, by simpa [habout] using no⟩
  | more made absorbs gaps probed h ih =>
    obtain ⟨hnone, hend⟩ := h.asks_once rfl
    rw [hend v' hr.symm]
    rw [hv] at probed
    have habout := probed.about_coverage
    cases probed with
    | required skip made nodes other =>
      refine ⟨skip, ?_⟩
      simpa [habout, hnone] using other

theorem refuses {f : Fault} (h : Surveyed s onlySeed candidates v qs (.error f)) :
    ∃ node reply t, absorb onlySeed node reply t = .error f := by
  generalize hr : Except.error f = r at h
  induction h with
  | skipped made h ih => exact ih hr
  | refused made absorbs =>
    cases hr
    exact ⟨_, _, _, absorbs⟩
  | more made absorbs gaps probed h ih => exact ih hr
  | done | full | enough => cases hr

end Surveyed

/-! ## How a survey is concluded -/

theorem mem_masters_iff {t : Topology} {n : Node} :
    n ∈ t.masters ↔ n ∈ t.nodes.values ∧ n.role = .master := by
  rw [Topology.masters, Node.sortByName, List.mem_mergeSort, List.mem_filter, beq_iff_eq]

theorem conclude_cases (s : Settings) (v : Survey) :
    (v.answered = false ∧ v.conclude s = .error (.noCandidateAnswered v.failures)) ∨
    (v.answered = true ∧ v.topology.table.isFull = true ∧
      v.conclude s = .ok (!s.skipCoverageCheck)) ∨
    (v.answered = true ∧ v.topology.table.isFull = false ∧
      v.coverageRequired.getD (!s.skipCoverageCheck) = true ∧
      v.conclude s = .error (.slotsMissing v.topology.table.covered)) ∨
    (v.answered = true ∧ v.topology.table.isFull = false ∧
      v.coverageRequired.getD (!s.skipCoverageCheck) = false ∧ v.conclude s = .ok false) := by
  unfold Survey.conclude
  cases v.answered <;> cases v.topology.table.isFull <;>
    cases v.coverageRequired.getD (!s.skipCoverageCheck) <;> simp

/-- How a discovery ended, told by its inquiries and by what it did last. -/
structure Ended (s : Settings) (registry : Registry) (qs : List (Inquiry σ))
    (last : List (Event σ)) (r : Except Fault Unit) : Prop where
  asked : AskedInTurn (candidates s registry) (Inquiry.about .slots qs)
  unreachable : (∃ f, r = .error f ∧ f.kind = .clusterUnreachable) ↔
    ∀ q ∈ Inquiry.about .slots qs, q.Fails
  installed (h : r = .ok ()) : ∃ t required task c,
    last = [⟨task, .install t required, c⟩] ∧
    gather (registry.seeds.length == 1) (readings qs) .empty = .ok t ∧
    ((∀ slot : UInt16, slot.toNat < 16384 → t.table.get? slot ≠ none) ∨
      s.skipCoverageCheck = true ∨
      ∀ n ∈ t.nodes.values, n.role = .master →
        ∃ q ∈ Inquiry.about .coverage qs, q.node = n ∧ q.SaysNo)
  incomplete {f : Fault} (h : r = .error f) (kind : f.kind = .incompleteCoverage) :
    (Inquiry.about .slots qs).map Inquiry.node = candidates s registry ∧
    (∃ t, gather (registry.seeds.length == 1) (readings qs) .empty = .ok t ∧
      ∃ slot : UInt16, slot.toNat < 16384 ∧ t.table.get? slot = none) ∧
    s.skipCoverageCheck = false ∧ ∃ q ∈ Inquiry.about .coverage qs, ¬ q.SaysNo
  failed {f : Fault} (h : r = .error f) : last = []

theorem Ended.of_refused {s : Settings} {registry : Registry} {qs : List (Inquiry σ)} {f : Fault}
    (h : Surveyed s (registry.seeds.length == 1) (candidates s registry) .start qs (.error f)) :
    Ended s registry qs [] (.error f) := by
  obtain ⟨node, reply, t, habsorb⟩ := h.refuses
  have hkind : f.kind ≠ .clusterUnreachable ∧ f.kind ≠ .incompleteCoverage := by
    rcases kind_of_absorb habsorb with ⟨e, rfl⟩ | hkind | hkind | hkind
    · cases e <;> exact ⟨FaultKind.noConfusion, FaultKind.noConfusion⟩
    all_goals
      rw [hkind]
      exact ⟨FaultKind.noConfusion, FaultKind.noConfusion⟩
  have hread : readings qs ≠ [] := by
    intro hnil
    have hgather := h.gathers
    rw [hnil] at hgather
    cases hgather
  refine ⟨h.asked, ⟨?_, fun hall => ?_⟩, by rintro ⟨⟩, ?_, fun _ => rfl⟩
  · rintro ⟨_, ⟨⟩, hunreachable⟩
    exact absurd hunreachable hkind.1
  · exact absurd (readings_eq_nil_iff.mpr hall) hread
  · rintro _ ⟨⟩ hincomplete
    exact absurd hincomplete hkind.2

theorem Ended.of_concluded {s : Settings} {registry : Registry} {qs : List (Inquiry σ)}
    {v : Survey} {required : Bool} {task : Nat} {c : Client σ}
    (h : Surveyed s (registry.seeds.length == 1) (candidates s registry) .start qs (.ok v))
    (hconclude : v.conclude s = .ok required) :
    Ended s registry qs [⟨task, .install v.topology required, c⟩] (.ok ()) := by
  have hgather := h.gathers
  have hwhole : v.topology.Whole := whole_of_gather hgather Topology.whole_empty
  have hread : v.answered = true → readings qs ≠ [] := by
    intro hanswered
    exact (h.answered_iff.mp hanswered).resolve_left Bool.noConfusion
  have hanswered : v.answered = true := by
    rcases conclude_cases s v with ⟨-, herror⟩ | ⟨hanswered, -⟩ | ⟨hanswered, -⟩ | ⟨hanswered, -⟩
    · rw [herror] at hconclude
      cases hconclude
    all_goals exact hanswered
  refine ⟨h.asked, ⟨?_, fun hall => ?_⟩, fun _ => ?_, by rintro _ ⟨⟩, by rintro _ ⟨⟩⟩
  · rintro ⟨_, ⟨⟩, -⟩
  · exact absurd (readings_eq_nil_iff.mpr hall) (hread hanswered)
  refine ⟨v.topology, required, task, c, rfl, hgather, ?_⟩
  rcases conclude_cases s v with ⟨-, herror⟩ | ⟨-, hfull, -⟩ | ⟨-, -, -, herror⟩ |
    ⟨-, hgaps, hallowed, -⟩
  · rw [herror] at hconclude
    cases hconclude
  · exact .inl (hwhole.counted.isFull_iff.mp hfull)
  · rw [herror] at hconclude
    cases hconclude
  · have hcoverage := h.coverage rfl
    cases hv : v.coverageRequired with
    | none =>
      rw [hv] at hcoverage
      rcases hcoverage with hfull | hnone
      · rw [hgaps] at hfull
        cases hfull
      · exact absurd hnone (hread hanswered)
    | some known =>
      rw [hv] at hallowed hcoverage
      obtain rfl : known = false := hallowed
      refine .inr (hcoverage.imp_right ?_)
      rintro ⟨hnodes, hno⟩ n hn hmaster
      have hmem := mem_masters_iff.mpr ⟨hn, hmaster⟩
      rw [← hnodes] at hmem
      obtain ⟨q, hq, rfl⟩ := List.mem_map.mp hmem
      exact ⟨q, hq, rfl, hno q hq⟩

theorem Ended.of_unconcluded {s : Settings} {registry : Registry} {qs : List (Inquiry σ)}
    {v : Survey} {f : Fault}
    (h : Surveyed s (registry.seeds.length == 1) (candidates s registry) .start qs (.ok v))
    (hconclude : v.conclude s = .error f) : Ended s registry qs [] (.error f) := by
  have hgather := h.gathers
  have hwhole : v.topology.Whole := whole_of_gather hgather Topology.whole_empty
  rcases conclude_cases s v with ⟨hunanswered, herror⟩ | ⟨-, -, hok⟩ |
    ⟨hanswered, hgaps, hrequired, herror⟩ | ⟨-, -, -, hok⟩
  · -- Nobody has answered.
    obtain rfl : Fault.noCandidateAnswered v.failures = f :=
      Except.error.inj (herror.symm.trans hconclude)
    have hnone : readings qs = [] := by
      by_contra hread
      rw [h.answered_iff.mpr (.inr hread)] at hunanswered
      cases hunanswered
    refine ⟨h.asked, ⟨fun _ => readings_eq_nil_iff.mp hnone, fun _ => ⟨_, rfl, rfl⟩⟩,
      by rintro ⟨⟩, ?_, fun _ => rfl⟩
    rintro _ ⟨⟩ hkind
    cases hkind
  · rw [hok] at hconclude
    cases hconclude
  · -- Slots are missing.
    obtain rfl : Fault.slotsMissing v.topology.table.covered = f :=
      Except.error.inj (herror.symm.trans hconclude)
    have hread : readings qs ≠ [] := (h.answered_iff.mp hanswered).resolve_left Bool.noConfusion
    refine ⟨h.asked, ⟨?_, fun hall => ?_⟩, by rintro ⟨⟩, ?_, fun _ => rfl⟩
    · rintro ⟨_, ⟨⟩, hkind⟩
      cases hkind
    · exact absurd (readings_eq_nil_iff.mpr hall) hread
    rintro _ ⟨⟩ -
    have hnot : v.coverageRequired ≠ some false := by
      intro hv
      rw [hv] at hrequired
      cases hrequired
    refine ⟨h.exhausts hgaps hnot, ⟨_, hgather, hwhole.counted.exists_unowned hgaps⟩, ?_⟩
    have hcoverage := h.coverage rfl
    split at hcoverage
    · rcases hcoverage with hfull | hnone
      · rw [hgaps] at hfull
        cases hfull
      · exact absurd hnone hread
    · next hv => exact absurd hv hnot
    · exact hcoverage
  · rw [hok] at hconclude
    cases hconclude

/-- How every discovery ends. -/
theorem ended_of_runs {s : Settings} {es : List (Event σ)} {r : Except Fault Unit}
    (h : Runs (run s) es r) :
    ∃ task c qs last, es = ⟨task, .registry, c⟩ :: (qs.flatMap Inquiry.events ++ last) ∧
      (∀ q ∈ qs, q.Made) ∧ Ended s c.registry qs last r ∧
      ∀ f, r = .error f → ∀ e ∈ es, e.after.registry = e.client.registry := by
  have huntouched : ∀ f, r = .error f → ∀ e ∈ es, e.after.registry = e.client.registry := by
    rintro f rfl e he
    obtain ⟨_, -, hplain⟩ | ⟨_, _, hok, -⟩ := runs_run h
    · exact (Client.answer_of_plain (hplain e he) e.client e.task).1
    · cases hok
  obtain ⟨task, c, qs, last, v, hes, hsurveyed, hend⟩ := runs_run_surveyed h
  refine ⟨task, c, qs, last, hes, hsurveyed.made, ?_, huntouched⟩
  rcases hend with ⟨f, hf, rfl, rfl⟩ | ⟨v', required, task', c', rfl, hrequired, rfl, rfl⟩
  · cases v with
    | error g =>
      cases hf
      exact .of_refused hsurveyed
    | ok v => exact .of_unconcluded hsurveyed hf
  · exact .of_concluded hsurveyed hrequired

/-- The only seed owns one slot and requires coverage. -/
theorem ended_of_runs_incomplete :
    let slots := Reply.array [.array [.int 0, .int 0, .array [.bulk (Bytes.ofText "a"), .int 1]]]
    let yes := Reply.array [.simple "cluster-require-full-coverage", .simple "yes"]
    let es := (Canned.client {} [slots, yes]).traceProgram (run {}).run
    let r : Except Fault Unit := .error (.slotsMissing 1)
    Runs (run {}) es r ∧
      ∃ task c qs last, es = ⟨task, .registry, c⟩ :: (qs.flatMap Inquiry.events ++ last) ∧
        (∀ q ∈ qs, q.Made) ∧ Ended {} c.registry qs last r ∧
        ∀ f, r = .error f → ∀ e ∈ es, e.after.registry = e.client.registry := by
  intro slots yes es r
  have hr : ((Canned.client {} [slots, yes]).runProgram (run {}).run).1 = r := by decide +kernel
  have hrun : Runs (run {}) es r := hr ▸ Client.runs_traceProgram _ _
  exact ⟨hrun, ended_of_runs hrun⟩

end Discovery

end SlotCluster
