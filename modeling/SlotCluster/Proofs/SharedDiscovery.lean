import SlotCluster.Proofs.Canned
import SlotCluster.Proofs.DiscoveryTurns
import SlotCluster.Proofs.LearnedSlots
import SlotCluster.Proofs.SoloRequests

/-!
# A discovery that commands share

Commands that begin after a reset make one discovery. The first to get the lock makes it, the others
wait, and all of them go by what it has installed.
-/

namespace SlotCluster

variable {σ : Type} [Transport σ]

namespace Moment

/-- The discovery is still to come or under way. Every command is at its check, and all but one have
looked at the registry once at most. -/
structure Awaits (s : Settings) (es : List (Event σ)) (S : Moment σ Answer) : Prop where
  nothing : ∀ e ∈ es, e.request.installs = false
  checking {i : Nat} {u : Task Answer} (task : S.tasks[i]? = some u) :
    (∃ left r, left ≠ [] ∧ Action.Runs (Discovery.refreshIfNeeded s) (Event.of i es ++ left) r) ∧
      ∀ a, u ≠ .done a
  alone : ∃ i, ∀ j, j ≠ i → (Event.of j es).map Event.request <+: [.registry]

/-- Whoever looks at the registry now, goes by this topology. -/
structure Routed (t : Topology) (required : Bool) (e : Event σ) : Prop where
  plain : e.request.IsPlain
  shown : e.client.registry.Shows t required

/-- A command that makes no discovery. It has found the slots known, at once or under the lock. -/
structure Spared (t : Topology) (required : Bool) (check rest : List (Event σ)) : Prop where
  check_ : check.map Event.request <+: Stage.waiting
  passed (h : rest ≠ []) :
    check.map Event.request = [.registry] ∨ check.map Event.request = Stage.waiting
  routed : ∀ e ∈ rest, Routed t required e

/-- One command has made a discovery, and installed its topology at the end. The others had looked
at the registry once at most by then, and make none. What follows the checks goes by the
topology. -/
structure OneDiscovery (s : Settings) (before : List (Event σ)) (last : Event σ)
    (after : List (Event σ)) (t : Topology) (required : Bool) : Prop where
  installs : last.request = .install t required
  made : Discovery.Discovers s (Event.of last.task (before ++ [last])) (.ok ())
  goesOn : Event.of last.task after = [] ∨ ∃ unlock rest,
    Event.of last.task after = unlock :: rest ∧ unlock.request = .unlock ∧
      ∀ e ∈ rest, Routed t required e
  waits (j : Nat) (h : j ≠ last.task) : (Event.of j before).map Event.request <+: [.registry]
  spared (j : Nat) (h : j ≠ last.task) : ∃ check rest,
    Event.of j (before ++ last :: after) = check ++ rest ∧ Spared t required check rest

/-- The commands have made one discovery between them. -/
def SharesDiscovery (s : Settings) (es : List (Event σ)) : Prop :=
  ∃ before last after t required,
    es = before ++ last :: after ∧ OneDiscovery s before last after t required

variable {s : Settings} {es before after : List (Event σ)} {last : Event σ} {t : Topology}
  {required : Bool} {r : Registry}

namespace Learned

variable (h : Learned es before last after t required r)

include h

theorem eq_last {e : Event σ} (he : e ∈ es) (hinstalls : e.request.installs = true) : e = last := by
  rw [h.split] at he
  rcases List.mem_append.mp he with he | he
  · rw [h.only e (List.mem_append_left _ he)] at hinstalls
    cases hinstalls
  rcases List.mem_cons.mp he with rfl | he
  · rfl
  · rw [h.only e (List.mem_append_right _ he)] at hinstalls
    cases hinstalls

theorem routed_after {rest : List (Event σ)} (hplain : ∀ e ∈ rest, e.request.IsPlain)
    (hrest : rest ⊆ after) : ∀ e ∈ rest, Routed t required e :=
  fun e he => ⟨hplain e he, h.routed e (hrest he)⟩

theorem last_installs : last.request.installs = true := by
  rw [h.installs]
  rfl

theorem goesOn (htold : (stage last.task es).Told (Event.of last.task es)) :
    Event.of last.task after = [] ∨ ∃ unlock rest,
      Event.of last.task after = unlock :: rest ∧ unlock.request = .unlock ∧
        ∀ e ∈ rest, Routed t required e := by
  have hown : Event.of last.task es =
      Event.of last.task before ++ last :: Event.of last.task after := by
    rw [h.split, Event.of_append, Event.of_cons, if_pos rfl]
  obtain ⟨check, rest, hspared, hcheck, -, hplain⟩ | ⟨front, e, back, hfront, hinstalls, hback⟩ :=
    htold.late_cases (h.late last.task)
  · -- It has done the install, and there is none among these events.
    exfalso
    have hlast : last ∈ check ++ rest := by
      rw [← hspared, hown]
      simp
    have hinstalls := h.last_installs
    rcases List.mem_append.mp hlast with hlast | hlast
    · have hwaits := hcheck.subset (List.mem_map_of_mem hlast)
      rw [h.installs] at hwaits
      simp [Stage.waiting] at hwaits
    · have hlast := hplain last hlast
      rw [h.installs] at hlast
      exact hlast
  · have honly : ∀ {part : List (Event σ)}, part ⊆ before ++ after →
        ∀ d ∈ Event.of last.task part, d.request.installs = false :=
      fun hpart d hd => h.only d (hpart (Event.mem_of_iff.mp hd).1)
    obtain ⟨-, -, rfl⟩ := Event.split_unique (hfront.symm.trans hown) hinstalls
      (honly (List.subset_append_left before after)) (honly (List.subset_append_right before after))
    refine hback.imp_right ?_
    rintro ⟨unlock, rest, heq, hunlock, hplain⟩
    refine ⟨unlock, rest, heq, hunlock, h.routed_after hplain fun d hd => ?_⟩
    have hd : d ∈ Event.of last.task after := by simp [heq, hd]
    exact (Event.mem_of_iff.mp hd).1

theorem spared {j : Nat} (hj : j ≠ last.task) (htold : (stage j es).Told (Event.of j es)) :
    ∃ check rest, Event.of j (before ++ last :: after) = check ++ rest ∧
      Spared t required check rest := by
  rw [← h.split]
  obtain ⟨check, rest, hspared, hcheck, hpassed, hplain⟩ | ⟨front, e, back, hfront, hinstalls, -⟩ :=
    htold.late_cases (h.late j)
  · refine ⟨check, rest, hspared, hcheck, hpassed, h.routed_after hplain fun d hd => ?_⟩
    rw [h.split, Event.of_append, Event.of_cons, if_neg hj.symm] at hspared
    -- What it has done before the install belongs to its check.
    have hafter : d ∈ Event.of j after := by
      obtain ⟨more, -, hafter⟩ | ⟨more, hbefore, hrest⟩ := List.append_eq_append_iff.mp hspared
      · simp [hafter, hd]
      · have hlooked : (Event.of j before).length ≤ 1 := by
          simpa [Stage.waiting] using (h.waits j hj).length_le
        have hchecked : 1 ≤ check.length := by
          rcases hpassed (List.ne_nil_of_mem hd) with hcheck | hcheck
          all_goals
            have hlength := congrArg List.length hcheck
            rw [List.length_map] at hlength
            rw [hlength]
            decide
        rw [hbefore, List.length_append] at hlooked
        obtain rfl : more = [] := List.length_eq_zero_iff.mp (by omega)
        simpa [hrest] using hd
    exact (Event.mem_of_iff.mp hafter).1
  · have he : e ∈ Event.of j es := by rw [hfront]; simp
    obtain ⟨hmem, rfl⟩ := Event.mem_of_iff.mp he
    exact absurd (congrArg Event.task (h.eq_last hmem hinstalls)) hj

end Learned

theorem initialized_of_reset (c : Client σ) :
    (c.runProgram Dispatch.reset.run).2.registry.isInitialized = false := rfl

section Runs

variable {ops : List Operation} {c : Client σ} {S : Moment σ Answer}
  (hops : ∀ op ∈ ops, op.IsCommand ∧ ∀ f, ¬ op.Rejects f)
  (h : Run ⟨ops.map fun op => op.task s, c⟩ es S) (htracked : Tracked s es S)

include hops h htracked

theorem awaits_of_unlearned (hnone : Unlearned es S.client.registry) : Awaits s es S := by
  have hunique : ∀ i j, (stage i es).isInside = true → (stage j es).isInside = true → i = j :=
    fun i j hi hj =>
      (orderly_of_operations s ops c).unique h (htracked.inside i hi) (htracked.inside j hj)
  refine ⟨hnone.installs, fun {i u} hu => ?_, ?_⟩
  · obtain ⟨t, ht, hpath⟩ := h.path_to hu
    rcases checking_of_path c (checksFirst_of_accepted hops ht) hpath with hlast | hchecking
    · have hearly := hnone.early i
      rcases hlast with hlast | hlast
      all_goals
        rw [stage, hlast] at hearly
        cases hearly
    · exact hchecking
  · by_cases hinside : ∃ i, (stage i es).isInside = true
    · obtain ⟨i, hi⟩ := hinside
      refine ⟨i, fun j hne => (htracked.told j).waits (hnone.early j) ?_⟩
      by_contra hj
      exact hne (hunique j i (by simpa using hj) hi)
    · refine ⟨0, fun j _ => (htracked.told j).waits (hnone.early j) ?_⟩
      by_contra hj
      exact hinside ⟨j, by simpa using hj⟩

theorem oneDiscovery_of_learned
    (hlearned : Learned es before last after t required S.client.registry) :
    OneDiscovery s before last after t required where
  installs := hlearned.installs
  made := by
    have hrun := h
    rw [hlearned.split] at hrun
    obtain ⟨M, M', hbefore, hstep, -⟩ := hrun.split_at
    exact hbefore.discovers hops hstep hlearned.leads hlearned.last_installs
  goesOn := hlearned.goesOn (htracked.told last.task)
  waits := hlearned.waits
  spared j hj := hlearned.spared hj (htracked.told j)

theorem awaits_or_shares : Awaits s es S ∨ SharesDiscovery s es := by
  rcases htracked.learned with hnone | ⟨before, last, after, t, required, hlearned⟩
  · exact .inl (awaits_of_unlearned hops h htracked hnone)
  · have hone := oneDiscovery_of_learned hops h htracked hlearned
    exact .inr ⟨before, last, after, t, required, hlearned.split, hone⟩

omit hops htracked in
theorem Awaits.not_allDone (hawaits : Awaits s es S) (hsome : ops ≠ []) : ¬ S.AllDone := by
  intro hdone
  obtain ⟨op, rest, rfl⟩ := List.exists_cons_of_ne_nil hsome
  obtain ⟨u, hu, -⟩ := h.path (i := 0) (t := op.task s) rfl
  obtain ⟨a, ha⟩ := hdone u (List.mem_of_getElem? hu)
  exact (hawaits.checking hu).2 a ha

end Runs

/-- Commands that begin after a reset make one discovery, as long as it succeeds and no reply says
that a slot has moved or the cluster is down: until it has ended all of them are at their checks,
and from then on all of them go by what it has installed. So they have made one when they are done.
And whatever is done with a client, no two discoveries are under way at a time that a command or a
moved slot has come to. -/
theorem discoveries_shared (s : Settings) (c : Client σ) :
    (∀ {ops : List Operation} {es : List (Event σ)} {S : Moment σ Answer},
      (∀ op ∈ ops, op.IsCommand ∧ ∀ f, ¬ op.Rejects f) →
      Run ⟨ops.map fun op => op.task s, (c.runProgram Dispatch.reset.run).2⟩ es S →
      (∀ e ∈ es, e.request.isCalm s e.answer = true) →
      (∀ i check rest f, Event.of i es = check ++ rest →
        ¬ Action.Runs (Discovery.refreshIfNeeded s) check (.error f)) →
      (Awaits s es S ∨ SharesDiscovery s es) ∧ (ops ≠ [] → S.AllDone → SharesDiscovery s es)) ∧
    ∀ {es : List (Event σ)} {S : Moment σ Answer} {i j : Nat} {t u : Task Answer},
      Course ⟨[], c⟩ es S → S.tasks[i]? = some t → S.tasks[j]? = some u →
      (∀ a, t ≠ .done a) → (∀ a, u ≠ .done a) → Discovery.Underway (Event.of i es) →
      Discovery.Underway (Event.of j es) → i = j := by
  constructor
  · intro ops es S hops h hcalm hsucceeds
    have htracked := h.tracked hops (initialized_of_reset c) hcalm hsucceeds
    have hcases := awaits_or_shares hops h htracked
    exact ⟨hcases, fun hsome hdone =>
      hcases.resolve_left fun hawaits => hawaits.not_allDone h hsome hdone⟩
  · intro es S i j t u hcourse hi hj ht hu hfirst hsecond
    exact hcourse.takesTurns.underway_unique hi hj ht hu hfirst hsecond

/-- Two commands take turns after a reset. Before that, one of them is stopped in its discovery. -/
theorem discoveries_shared_commands :
    let s : Settings := { skipCoverageCheck := true }
    let owner := Reply.array [.bulk (Bytes.ofText "a"), .int 1]
    let slots := Reply.array [.array [.int 1, .int 1, owner]]
    let c := Canned.client s [slots, .okay, .okay]
    let get := Operation.execute (.ofWords ["GET", "emj"])
    let set := Operation.execute (.ofWords ["SET", "emj", "1"])
    let ops := [get, set]
    let S₀ : Moment Canned Answer :=
      ⟨ops.map fun op => op.task s, (c.runProgram Dispatch.reset.run).2⟩
    let es := (S₀.play ((List.range 48).map (· % 2))).1
    let S := (S₀.play ((List.range 48).map (· % 2))).2
    let S₁ : Moment Canned Answer := ⟨ops.map fun op => op.task s, c⟩
    let begun := (S₁.play [0, 1, 0, 0, 0, 0]).1
    let M := (S₁.play [0, 1, 0, 0, 0, 0]).2
    (∀ op ∈ ops, op.IsCommand ∧ ∀ f, ¬ op.Rejects f) ∧ Run S₀ es S ∧
      (∀ e ∈ es, e.request.isCalm s e.answer = true) ∧
      (∀ i check rest f, Event.of i es = check ++ rest →
        ¬ Action.Runs (Discovery.refreshIfNeeded s) check (.error f)) ∧
      ops ≠ [] ∧ S.AllDone ∧ SharesDiscovery s es ∧
      Course ⟨[], c⟩ begun M ∧ Discovery.Underway (Event.of 0 begun) ∧
      ∀ j u, M.tasks[j]? = some u → (∀ a, u ≠ .done a) →
        Discovery.Underway (Event.of j begun) → j = 0 := by
  intro s owner slots c get set ops S₀ es S S₁ begun M
  have hops : ∀ op ∈ ops, op.IsCommand ∧ ∀ f, ¬ op.Rejects f := by
    have hrouted : ∀ c : Command, (faultOf? (Routing.of c)).isNone = true →
        ∀ f, ¬ (Operation.execute c).Rejects f := by
      rintro c hok f ⟨hrejects⟩
      rw [hrejects] at hok
      cases hok
    refine List.forall_mem_cons.mpr ⟨⟨trivial, hrouted _ (by decide +kernel)⟩, ?_⟩
    exact List.forall_mem_singleton.mpr ⟨trivial, hrouted _ (by decide +kernel)⟩
  have hrun : Run S₀ es S := S₀.run_play _
  have hcalm : ∀ e ∈ es, e.request.isCalm s e.answer = true := by decide +kernel
  have hflags : ∀ e ∈ es, e.request.raises = false := by decide +kernel
  have hsucceeds : ∀ i check rest f, Event.of i es = check ++ rest →
      ¬ Action.Runs (Discovery.refreshIfNeeded s) check (.error f) := by
    intro i check rest f hof
    refine Discovery.not_failed_of_raises (fun e he => hflags e ?_) f
    have hmem : e ∈ Event.of i es := hof ▸ List.mem_append_left rest he
    exact (Event.mem_of_iff.mp hmem).1
  have hsome : ops ≠ [] := List.cons_ne_nil get [set]
  have hdone : S.AllDone := allDone_of_results (by decide +kernel)
  obtain ⟨hone, hturns⟩ := discoveries_shared s c
  have hshares : SharesDiscovery s es := (hone hops hrun hcalm hsucceeds).2 hsome hdone
  have hbegun : Course ⟨[], c⟩ [] S₁ := (Course.refl.begun _).begun _
  have hcourse : Course ⟨[], c⟩ ([] ++ begun) M := hbegun.run (S₁.run_play _)
  rw [List.nil_append] at hcourse
  have hunderway : Discovery.Underway (Event.of 0 begun) := by
    let alone : Moment Canned (Except Fault Unit) :=
      ⟨[Task.ofProgram (Discovery.refreshIfNeeded s).run], c⟩
    let check := (alone.play (List.replicate 10 0)).1
    have hcheck : Action.Runs (Discovery.refreshIfNeeded s) (Event.of 0 check) (.ok ()) :=
      (alone.run_play _).runs rfl (by decide +kernel)
    let discovery : Moment Canned (Except Fault Unit) :=
      ⟨[Task.ofProgram (Discovery.run s).run], (alone.play (List.replicate 3 0)).2.client⟩
    have hdiscovery : Action.Runs (Discovery.run s)
        (Event.of 0 (discovery.play (List.replicate 6 0)).1) (.ok ()) :=
      (discovery.run_play _).runs rfl (by decide +kernel)
    have hall : Event.of 0 check = check := List.filter_eq_self.mpr (by decide +kernel)
    have hran : Event.of 0 (discovery.play (List.replicate 6 0)).1 = (check.drop 3).take 6 := by rfl
    have hbegun : Event.of 0 begun = check.take 3 ++ ((check.drop 3).take 6).take 2 := by rfl
    have hparts : check = check.take 3 ++ ((check.drop 3).take 6 ++ (check.drop 3).drop 6) := by
      simp only [List.take_append_drop]
    rw [hall, hparts] at hcheck
    rw [hran] at hdiscovery
    rw [hbegun]
    exact .of_take .check hcheck hdiscovery (by decide) (by decide +kernel)
  refine ⟨hops, hrun, hcalm, hsucceeds, hsome, hdone, hshares, hcourse, hunderway, ?_⟩
  intro j u hj hu hsecond
  have hnonempty : 0 < M.tasks.length := by decide +kernel
  have hbusy : (M.tasks[0]?.bind Task.result?).isNone = true := by decide +kernel
  have hfirst := List.getElem?_eq_getElem hnonempty
  rw [hfirst] at hbusy
  refine hturns hcourse hj hfirst hu (fun a hend => ?_) hsecond hunderway
  rw [hend] at hbusy
  cases hbusy

end Moment

end SlotCluster
