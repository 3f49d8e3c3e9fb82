import SlotCluster.Proofs.CheckedPaths

/-!
# Slots that commands learn

Commands begin when no slot is known. As long as their discoveries do not fail, either none has been
installed and nobody has come past the check, or one has, and the registry shows what it has found.
Every step keeps this.
-/

namespace SlotCluster

/-! ## What a discovery has installed -/

/-- The registry says what the topology says, and no discovery is asked for. -/
structure Registry.Shows (t : Topology) (required : Bool) (r : Registry) : Prop where
  slots : r.slots = t.table
  nodes : r.nodes = t.nodes
  coverage : r.coverageRequired = required
  pending : r.refreshPending = false

namespace Registry.Shows

variable {t : Topology} {required : Bool} {r : Registry}

theorem isInitialized (h : r.Shows t required) (ht : t.IsUsable) : r.isInitialized = true := by
  have hcounted : t.table.Counted := ht.whole.counted
  rw [Registry.isInitialized, h.slots, decide_eq_true_iff, hcounted.pos_iff]
  exact ht.owned

theorem isReady (h : r.Shows t required) (ht : t.IsUsable) : Discovery.isReady r = true := by
  rw [Discovery.isReady, h.isInitialized ht, h.pending]
  rfl

theorem isPopulated (h : r.Shows t required) (ht : t.IsUsable) : r.IsPopulated := by
  obtain ⟨slot, owners, hget⟩ := ht.owned
  constructor
  · obtain ⟨n, hn, -⟩ := ht.whole.primaries hget
    rw [h.nodes]
    exact List.ne_nil_of_mem (NodeTable.mem_values_iff.mpr ⟨_, hn⟩)
  · have howner := SlotTable.mem_owners_iff.mpr ⟨slot, owners, hget, rfl⟩
    have hprimaries : t.table.primaries ≠ [] := Node.distinct_ne_nil (List.ne_nil_of_mem howner)
    unfold allMasters
    rw [h.slots, if_neg (by simpa using hprimaries)]
    exact hprimaries

end Registry.Shows

/-- The answer leaves slots and nodes alone, and asks for no discovery. -/
def Request.KeepsTables (r : Request) : Prop :=
  r.IsPlain ∨ r = .lock ∨ r = .unlock ∨ r = .takeRefresh

theorem Request.KeepsTables.installs {r : Request} (h : r.KeepsTables) : r.installs = false := by
  rcases h with h | rfl | rfl | rfl
  · exact h.not_installs
  all_goals rfl

variable {σ : Type} [Transport σ]

namespace Client

variable {r : Request} (c : Client σ) (task : Nat)

theorem answer_keepsTables (h : r.KeepsTables) :
    (c.answer task r).2.registry = c.registry ∨
      (c.answer task r).2.registry = { c.registry with refreshPending := false } := by
  rcases h with h | rfl | rfl | rfl
  · exact .inl (answer_of_plain h c task).1
  · exact .inl rfl
  · exact .inl rfl
  · exact .inr rfl

theorem isInitialized_of_keepsTables (h : r.KeepsTables ∨ r = .flagRefresh) :
    (c.answer task r).2.registry.isInitialized = c.registry.isInitialized := by
  rcases h with h | rfl
  · rcases c.answer_keepsTables task h with heq | heq
    · rw [heq]
    · rw [heq]
      rfl
  · rfl

theorem shows_of_keepsTables {t : Topology} {required : Bool} (h : r.KeepsTables)
    (hshows : c.registry.Shows t required) : (c.answer task r).2.registry.Shows t required := by
  rcases c.answer_keepsTables task h with heq | heq
  · rwa [heq]
  · rw [heq]
    exact ⟨hshows.slots, hshows.nodes, hshows.coverage, rfl⟩

end Client

namespace Stage

/-- A command can have come this far as long as no slots are known. -/
def isEarly : Stage → Bool
  | fresh | queued | inside | discovering | failed => true
  | _ => false

/-- A command can have come this far once some slots are known. -/
def isLate : Stage → Bool
  | fresh | queued | inside | looked | met | past => true
  | _ => false

theorem inside_next {φ : Stage} {d : Duty} {r : Request} {a : r.Answer}
    (hallows : checkProtocol.Allows φ r) (hd : φ.isInside = true → d ≠ .outside)
    (hnext : (checkProtocol.next φ r a).isInside = true) :
    refreshProtocol.next d r a ≠ .outside := by
  cases φ with
  | fresh =>
    obtain rfl : r = .registry := hallows
    change (if Discovery.isReady a then Stage.past else .queued).isInside = true at hnext
    split at hnext <;> cases hnext
  | queued =>
    obtain rfl : r = .lock := hallows
    exact Duty.noConfusion
  | inside =>
    obtain rfl : r = .registry := hallows
    exact hd rfl
  | looked =>
    obtain rfl : r = .takeRefresh := hallows
    change (if a then Duty.owing else d) ≠ .outside
    split
    · exact Duty.noConfusion
    · exact hd rfl
  | discovering =>
    have hinside := hd rfl
    rcases hallows with hplain | hinstalls | rfl
    · rwa [(refreshProtocol_ignores hplain d).2]
    · cases r with
      | install => exact fun h => hinside ((Duty.settled_eq_outside_iff d).mp h)
      | _ => exact hinstalls.elim
    · exact fun h => hinside ((Duty.settled_eq_outside_iff d).mp h)
  | failed | met =>
    obtain rfl : r = .unlock := hallows
    cases hnext
  | past => cases hnext
  | gone => exact hallows.elim

omit [Transport σ] in
theorem Told.waits {φ : Stage} {es : List (Event σ)} (h : Told φ es) (hearly : φ.isEarly = true)
    (hout : φ.isInside = false) : es.map Event.request <+: waiting.take 1 := by
  cases h with
  | fresh => exact List.nil_prefix
  | queued h => exact h ▸ List.prefix_rfl
  | inside | looked | met | discovering | failed | installed => cases hout
  | past | discovered | gone => cases hearly

omit [Transport σ] in
theorem Told.late_cases {φ : Stage} {es : List (Event σ)} (h : Told φ es)
    (hlate : φ.isLate = true) :
    (∃ check rest, es = check ++ rest ∧ check.map Event.request <+: waiting ∧
      (rest ≠ [] → check.map Event.request = waiting.take 1 ∨ check.map Event.request = waiting) ∧
      ∀ e ∈ rest, e.request.IsPlain) ∨
    ∃ front last back, es = front ++ last :: back ∧ last.request.installs = true ∧
      (back = [] ∨ ∃ unlock rest, back = unlock :: rest ∧ unlock.request = .unlock ∧
        ∀ e ∈ rest, e.request.IsPlain) := by
  have hwaits : ∀ n, es.map Event.request = waiting.take n → ∃ check rest, es = check ++ rest ∧
      check.map Event.request <+: waiting ∧
      (rest ≠ [] → check.map Event.request = waiting.take 1 ∨ check.map Event.request = waiting) ∧
      ∀ e ∈ rest, e.request.IsPlain := by
    intro n hn
    exact ⟨es, [], by simp, hn ▸ List.take_prefix n waiting, absurd rfl, by simp⟩
  cases h with
  | fresh => exact .inl (hwaits 0 rfl)
  | queued h => exact .inl (hwaits 1 h)
  | inside h => exact .inl (hwaits 2 h)
  | looked h => exact .inl (hwaits 3 h)
  | met h => exact .inl (hwaits 4 h)
  | @past check rest h plain =>
    refine .inl ⟨check, rest, rfl, ?_, fun _ => h, plain⟩
    rcases h with h | h
    · exact h ▸ List.take_prefix 1 waiting
    · exact h ▸ List.prefix_rfl
  | @installed front last installs => exact .inr ⟨front, last, [], rfl, installs, .inl rfl⟩
  | @discovered front rest last unlock installs unlock_ plain =>
    exact .inr ⟨front, last, _, rfl, installs, .inr ⟨unlock, rest, rfl, unlock_, plain⟩⟩
  | discovering | failed | gone => cases hlate

theorem keepsTables_of_allows {φ : Stage} {r : Request} (hallows : checkProtocol.Allows φ r) :
    r.KeepsTables ∨ φ = .discovering ∧ (r.InstallsUsable ∨ r = .flagRefresh) := by
  have hregistry : Request.KeepsTables .registry := .inl trivial
  cases φ with
  | fresh | inside => exact .inl (hallows ▸ hregistry)
  | queued => exact .inl (.inr (.inl hallows))
  | looked => exact .inl (.inr (.inr (.inr hallows)))
  | failed | met => exact .inl (.inr (.inr (.inl hallows)))
  | past => exact .inl (.inl hallows)
  | discovering => exact hallows.imp .inl fun h => ⟨rfl, h⟩
  | gone => exact hallows.elim

/-- As long as no slots are known and nothing is installed, nobody comes past the check. -/
theorem early_next (c : Client σ) (task : Nat) {φ : Stage} {r : Request}
    (hallows : checkProtocol.Allows φ r) (hearly : φ.isEarly = true)
    (hinstalls : r.installs = false) (hunknown : c.registry.isInitialized = false)
    (hgoes : checkProtocol.next φ r (c.answer task r).1 ≠ .gone) :
    (checkProtocol.next φ r (c.answer task r).1).isEarly = true := by
  cases φ with
  | fresh =>
    obtain rfl : r = .registry := hallows
    have hready : Discovery.isReady c.registry = false := by simp [Discovery.isReady, hunknown]
    change (if Discovery.isReady c.registry then Stage.past else .queued).isEarly = true
    rw [hready]
    rfl
  | queued =>
    obtain rfl : r = .lock := hallows
    rfl
  | inside =>
    obtain rfl : r = .registry := hallows
    change (if c.registry.isInitialized then Stage.looked else .discovering).isEarly = true
    rw [hunknown]
    rfl
  | discovering =>
    rcases hallows with hplain | hinstall | rfl
    · rw [checkProtocol_next_plain hplain]
      rfl
    · obtain ⟨t, required, rfl, -⟩ := hinstall.exists_install
      cases hinstalls
    · rfl
  | failed =>
    obtain rfl : r = .unlock := hallows
    exact absurd rfl hgoes
  | looked | met | past | gone => cases hearly

/-- Once some slots are known and no discovery is asked for, nobody makes one. -/
theorem late_next (c : Client σ) (task : Nat) {φ : Stage} {r : Request}
    (hallows : checkProtocol.Allows φ r) (hlate : φ.isLate = true)
    (hready : Discovery.isReady c.registry = true) :
    (checkProtocol.next φ r (c.answer task r).1).isLate = true := by
  obtain ⟨hknown, hpending⟩ :
      c.registry.isInitialized = true ∧ c.registry.refreshPending = false := by
    simpa [Discovery.isReady] using hready
  cases φ with
  | fresh =>
    obtain rfl : r = .registry := hallows
    change (if Discovery.isReady c.registry then Stage.past else .queued).isLate = true
    rw [hready]
    rfl
  | queued =>
    obtain rfl : r = .lock := hallows
    rfl
  | inside =>
    obtain rfl : r = .registry := hallows
    change (if c.registry.isInitialized then Stage.looked else .discovering).isLate = true
    rw [hknown]
    rfl
  | looked =>
    obtain rfl : r = .takeRefresh := hallows
    change (if c.registry.refreshPending then Stage.discovering else .met).isLate = true
    rw [hpending]
    rfl
  | met =>
    obtain rfl : r = .unlock := hallows
    rfl
  | past => rfl
  | discovering | failed | gone => cases hlate

end Stage

namespace Moment

/-! ## Before and after the discovery -/

/-- No topology has been installed, and no slots are known. -/
structure Unlearned (es : List (Event σ)) (r : Registry) : Prop where
  installs : ∀ e ∈ es, e.request.installs = false
  unknown : r.isInitialized = false
  early (i : Nat) : (stage i es).isEarly = true

/-- One task has installed a topology when the others had not got the lock yet, and the registry has
shown it since. -/
structure Learned (es before : List (Event σ)) (last : Event σ) (after : List (Event σ))
    (t : Topology) (required : Bool) (r : Registry) : Prop where
  split : es = before ++ last :: after
  installs : last.request = .install t required
  usable : t.IsUsable
  leads : stage last.task before = .discovering
  waits (j : Nat) (h : j ≠ last.task) :
    (Event.of j before).map Event.request <+: Stage.waiting.take 1
  shows : r.Shows t required
  routed : ∀ e ∈ after, e.client.registry.Shows t required
  only : ∀ e ∈ before ++ after, e.request.installs = false
  late (i : Nat) : (stage i es).isLate = true

structure Tracked (s : Settings) (es : List (Event σ)) (S : Moment σ Answer) : Prop where
  meets {i : Nat} {t : Task Answer} (task : S.tasks[i]? = some t) :
    t.Meets (checkContract s) Stage.IsLast (stage i es)
  told (i : Nat) : (stage i es).Told (Event.of i es)
  inside (i : Nat) (h : (stage i es).isInside = true) : duty i es ≠ .outside
  learned : Unlearned es S.client.registry ∨
    ∃ before last after t required, Learned es before last after t required S.client.registry

/-! ### One step -/

variable {s : Settings} {es before after : List (Event σ)} {last e : Event σ} {t : Topology}
  {required : Bool}

theorem Unlearned.step (h : Unlearned es e.client.registry)
    (hallows : checkProtocol.Allows (stage e.task es) e.request)
    (hkeeps : e.request.KeepsTables ∨ e.request = .flagRefresh)
    (hgoes : stage e.task (es ++ [e]) ≠ .gone) : Unlearned (es ++ [e]) e.after.registry := by
  have hinstalls : e.request.installs = false := by
    rcases hkeeps with hkeeps | hflag
    · exact hkeeps.installs
    · rw [hflag]
      rfl
  refine ⟨?_, ?_, fun i => ?_⟩
  · exact List.forall_mem_append.mpr ⟨h.installs, List.forall_mem_singleton.mpr hinstalls⟩
  · rw [← h.unknown]
    exact e.client.isInitialized_of_keepsTables e.task hkeeps
  · rw [stage_snoc] at hgoes ⊢
    rw [if_pos rfl] at hgoes
    split
    · next htask =>
      subst htask
      exact Stage.early_next e.client e.task hallows (h.early e.task) hinstalls h.unknown hgoes
    · exact h.early i

theorem Learned.step (h : Learned es before last after t required e.client.registry)
    (hallows : checkProtocol.Allows (stage e.task es) e.request)
    (hkeeps : e.request.KeepsTables) :
    Learned (es ++ [e]) before last (after ++ [e]) t required e.after.registry where
  split := by rw [h.split, List.append_assoc, List.cons_append]
  installs := h.installs
  usable := h.usable
  leads := h.leads
  waits := h.waits
  shows := e.client.shows_of_keepsTables e.task hkeeps h.shows
  routed := List.forall_mem_append.mpr ⟨h.routed, List.forall_mem_singleton.mpr h.shows⟩
  only := by
    rw [← List.append_assoc]
    exact List.forall_mem_append.mpr ⟨h.only, List.forall_mem_singleton.mpr hkeeps.installs⟩
  late i := by
    rw [stage_snoc]
    split
    · next htask =>
      subst htask
      exact Stage.late_next e.client e.task hallows (h.late e.task) (h.shows.isReady h.usable)
    · exact h.late i

theorem Unlearned.learn (h : Unlearned es e.client.registry)
    (hleads : stage e.task es = .discovering) (hinstall : e.request = .install t required)
    (husable : t.IsUsable) (htold : ∀ i, (stage i es).Told (Event.of i es))
    (halone : ∀ j, j ≠ e.task → (stage j es).isInside = false) :
    Learned (es ++ [e]) es e [] t required e.after.registry := by
  obtain ⟨i, r, c⟩ := e
  obtain rfl : r = .install t required := hinstall
  refine ⟨rfl, rfl, husable, hleads, fun j hj => ?_, ⟨rfl, rfl, rfl, rfl⟩, by simp, ?_, fun j => ?_⟩
  · exact (htold j).waits (h.early j) (halone j hj)
  · rw [List.append_nil]
    exact h.installs
  · rw [stage_snoc]
    split
    · next htask =>
      obtain rfl : i = j := htask
      have hstage : stage i es = .discovering := hleads
      rw [hstage]
      rfl
    · next hne =>
      have hearly := h.early j
      have hout := halone j fun heq => hne heq.symm
      cases hstage : stage j es with
      | fresh | queued => rfl
      | inside | looked | discovering | failed | met =>
        rw [hstage] at hout
        cases hout
      | past | gone =>
        rw [hstage] at hearly
        cases hearly

namespace Tracked

variable {S S' : Moment σ Answer}

theorem step_quiet (h : Tracked s es S) (step : Step S none S') : Tracked s es S' := by
  refine ⟨?_, h.told, h.inside, ?_⟩
  · cases step with
    | wait | pass => exact h.meets
    | @collect i programs next results task done =>
      intro j u hu
      obtain ⟨rfl, rfl⟩ | ⟨-, hu⟩ := task_of_set hu
      · exact (h.meets task).of_results done
      · exact h.meets hu
  · cases step with
    | wait task asks =>
      rw [Client.enqueue_registry]
      exact h.learned
    | collect | pass => exact h.learned

theorem honest (h : Tracked s es S) {i : Nat} {r : Request}
    (hcalm : r.isCalm s (S.client.answer i r).1 = true) :
    (checkContract s).Honest (stage i es) r (S.client.answer i r).1 := by
  cases hstage : stage i es with
  | past =>
    rcases h.learned with hnone | ⟨before, last, after, t, required, hlearned⟩
    · have hearly := hnone.early i
      rw [hstage] at hearly
      cases hearly
    · exact S.client.answer_serves i (hlearned.shows.isPopulated hlearned.usable) hcalm
  | _ => trivial

theorem learned_next (h : Tracked s es S) (e : Event σ) (hclient : S.client = e.client)
    (hallows : checkProtocol.Allows (stage e.task es) e.request)
    (hgoes : stage e.task (es ++ [e]) ≠ .gone)
    (hunique : ∀ i j, duty i es ≠ .outside → duty j es ≠ .outside → i = j) :
    Unlearned (es ++ [e]) e.after.registry ∨ ∃ before last after t required,
      Learned (es ++ [e]) before last after t required e.after.registry := by
  have hlearned := h.learned
  rw [hclient] at hlearned
  have hcases := Stage.keepsTables_of_allows hallows
  rcases hlearned with hnone | ⟨before, last, after, t, required, hlearned⟩
  · rcases hcases with hkeeps | ⟨hleads, hinstalls | hflag⟩
    · exact .inl (hnone.step hallows (.inl hkeeps) hgoes)
    · obtain ⟨t, required, hinstall, husable⟩ := hinstalls.exists_install
      have hinside : (stage e.task es).isInside = true := by rw [hleads]; rfl
      have halone : ∀ j, j ≠ e.task → (stage j es).isInside = false := by
        intro j hne
        by_contra hin
        exact hne (hunique _ _ (h.inside j (by simpa using hin)) (h.inside e.task hinside))
      exact .inr ⟨es, e, [], t, required, hnone.learn hleads hinstall husable h.told halone⟩
    · exact .inl (hnone.step hallows (.inr hflag) hgoes)
  · rcases hcases with hkeeps | ⟨hleads, -⟩
    · exact .inr ⟨before, last, _, t, required, hlearned.step hallows hkeeps⟩
    · have hlate := hlearned.late e.task
      rw [hleads] at hlate
      cases hlate

theorem step_event (h : Tracked s es S) (step : Step S (some e) S')
    (hcalm : e.request.isCalm s e.answer = true) (hgoes : stage e.task (es ++ [e]) ≠ .gone)
    (hunique : ∀ i j, duty i es ≠ .outside → duty j es ≠ .outside → i = j) :
    Tracked s (es ++ [e]) S' := by
  cases step with
  | @answer i u r next task asks free =>
    obtain ⟨hallows, hnext⟩ := (h.meets task).of_asks asks
    have hallows : checkProtocol.Allows (stage i es) r := hallows
    refine ⟨fun {j v} hv => ?_, fun j => ?_, fun j hj => ?_, ?_⟩
    · rw [stage_snoc]
      obtain ⟨rfl, rfl⟩ | ⟨hij, hv⟩ := task_of_set hv
      · rw [if_pos rfl]
        exact hnext _ (h.honest hcalm)
      · rw [if_neg hij]
        exact h.meets hv
    · rw [stage_snoc, Event.of_append, Event.of_cons]
      by_cases hij : i = j
      · subst hij
        rw [if_pos rfl, if_pos rfl]
        exact (h.told i).next ⟨i, r, S.client⟩ hallows
      · rw [if_neg hij, if_neg hij, Event.of_nil, List.append_nil]
        exact h.told j
    · rw [stage_snoc] at hj
      rw [duty_snoc]
      by_cases hij : i = j
      · subst hij
        rw [if_pos rfl] at hj ⊢
        exact Stage.inside_next hallows (h.inside i) hj
      · rw [if_neg hij] at hj ⊢
        exact h.inside j hj
    · exact h.learned_next ⟨i, r, S.client⟩ rfl hallows hgoes hunique

end Tracked

/-! ### Whole runs -/

section Runs

variable {ops : List Operation} {c : Client σ} {S S' : Moment σ Answer}
  (hops : ∀ op ∈ ops, op.IsCommand ∧ ∀ f, ¬ op.Rejects f)

include hops

theorem checksFirst_of_accepted {i : Nat} {u : Task Answer}
    (hu : (ops.map fun op => op.task s)[i]? = some u) : Operation.ChecksFirst s u := by
  rw [List.getElem?_map] at hu
  obtain ⟨op, hop, rfl⟩ := Option.map_eq_some_iff.mp hu
  obtain ⟨hcommand, haccepted⟩ := hops op (List.mem_of_getElem? hop)
  exact op.checksFirst s hcommand haccepted

theorem tracked_start (hunknown : c.registry.isInitialized = false) :
    Tracked s ([] : List (Event σ)) ⟨ops.map fun op => op.task s, c⟩ where
  meets hu := (checksFirst_of_accepted hops hu).meets
  told _ := .fresh
  inside _ h := nomatch h
  learned := .inl ⟨by simp, hunknown, fun _ => rfl⟩

theorem Run.path_of_event (h : Run ⟨ops.map fun op => op.task s, c⟩ before S)
    (step : Step S (some e) S') :
    ∃ t u, Operation.ChecksFirst s t ∧ t.Path (Event.of e.task (before ++ [e])) u := by
  obtain ⟨u, hu⟩ : ∃ u, S'.tasks[e.task]? = some u := by
    cases step with
    | answer task => exact ⟨_, List.getElem?_set_self (List.getElem?_eq_some_iff.mp task).1⟩
  obtain ⟨t, ht, hpath⟩ := (h.event step).path_to hu
  exact ⟨t, u, checksFirst_of_accepted hops ht, hpath⟩

theorem Run.discovers (h : Run ⟨ops.map fun op => op.task s, c⟩ before S)
    (step : Step S (some e) S') (hleads : stage e.task before = .discovering)
    (hinstalls : e.request.installs = true) :
    Discovery.Discovers s (Event.of e.task (before ++ [e])) (.ok ()) := by
  obtain ⟨t, u, ht, hpath⟩ := h.path_of_event hops step
  have hown : Event.of e.task (before ++ [e]) = Event.of e.task before ++ [e] := by
    rw [Event.of_append, Event.of_cons, if_pos rfl, Event.of_nil]
  have hmet : stage e.task (before ++ [e]) = .met := by
    rw [stage_snoc, if_pos rfl, hleads]
    obtain ⟨i, r, d⟩ := e
    cases r with
    | install => rfl
    | _ => cases hinstalls
  rcases checking_of_path c ht hpath with hlast | ⟨⟨left, r, -, hruns⟩, -⟩
  · rw [stage] at hmet
    rcases hlast with hlast | hlast
    all_goals
      rw [hmet] at hlast
      cases hlast
  · rw [hown, List.append_assoc, List.singleton_append] at hruns
    rw [hown]
    exact Discovery.discovers_of_check hruns hinstalls

theorem Run.tracked (hunknown : c.registry.isInitialized = false)
    (h : Run ⟨ops.map fun op => op.task s, c⟩ es S)
    (hcalm : ∀ e ∈ es, e.request.isCalm s e.answer = true)
    (hsucceeds : ∀ i check rest f, Event.of i es = check ++ rest →
      ¬ Action.Runs (Discovery.refreshIfNeeded s) check (.error f)) : Tracked s es S := by
  induction h with
  | refl => exact tracked_start hops hunknown
  | quiet _ step ih => exact (ih hcalm hsucceeds).step_quiet step
  | @event es e M S' hrun step ih =>
    obtain ⟨hcalms, hlast⟩ := List.forall_mem_append.mp hcalm
    have htracked : Tracked s es M := by
      refine ih hcalms fun i check rest f hof => ?_
      refine hsucceeds i check (rest ++ Event.of i [e]) f ?_
      rw [Event.of_append, hof, List.append_assoc]
    have hgoes : stage e.task (es ++ [e]) ≠ .gone := by
      intro hgone
      obtain ⟨t, u, ht, hpath⟩ := hrun.path_of_event hops step
      obtain ⟨check, rest, f, hof, hfails⟩ := failed_of_gone c ht hpath hgone
      exact hsucceeds e.task check rest f hof hfails
    refine htracked.step_event step (hlast e (by simp)) hgoes ?_
    exact fun _ _ => (orderly_of_operations s ops c).unique hrun

end Runs

end Moment

end SlotCluster
