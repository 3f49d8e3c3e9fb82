import SlotCluster.Proofs.OneSlotTransactions

/-!
# Faults of operations

What an operation ends with is common, or it comes from the keys of its commands, the network or the
pool, or from a slot without an owner. The results of a pipeline are no exception, and neither is a
command that is sent again after the client has started over.
-/

namespace SlotCluster

open Fault (IsCommon)

variable {net P : Fault → Prop} {ready : Bool}

theorem exists_of_mem_zipWith {α β γ : Type} {f : α → β → γ} {as : List α} {bs : List β} {c : γ}
    (h : c ∈ List.zipWith f as bs) : ∃ a ∈ as, ∃ b ∈ bs, f a b = c := by
  rw [← List.map_uncurry_zip_eq_zipWith] at h
  obtain ⟨⟨a, b⟩, hab, rfl⟩ := List.mem_map.mp h
  obtain ⟨ha, hb⟩ := List.of_mem_zip hab
  exact ⟨a, ha, b, hb, rfl⟩

/-! ## Merging -/

namespace Merge

section

variable (hcommon : ∀ f, f.IsCommon → P f)
include hcommon

theorem failsIn_cause {α : Type} {kind : FaultKind} {summary : String} {detail : Option String}
    (h : kind ≠ .crossSlot ∧ kind ≠ .noNodeForSlot ∧ kind ≠ .poolExhausted) :
    FailsIn P (.error (.cause kind summary detail) : Except Fault α) :=
  failsIn_error (hcommon _ (Fault.isCommon_cause h))

theorem failsIn_integer (r : Reply) : FailsIn P r.integer := by
  simp only [Reply.integer]
  split
  · exact failsIn_ok _
  · exact failsIn_cause hcommon (by decide)

theorem failsIn_numbers (rule : NumberRule) (replies : List Reply) :
    FailsIn P (numbers rule replies) := by
  have hstep : ∀ acc n, FailsIn P (numberStep rule acc n) := by
    intro acc n
    cases rule with
    | min | max => exact failsIn_ok _
    | sum =>
      simp only [numberStep, addChecked]
      split
      · exact failsIn_ok _
      · exact failsIn_cause hcommon (by decide)
  have hfold : ∀ acc, FailsIn P (numberFold rule acc replies) := by
    induction replies with
    | nil => exact fun acc => failsIn_ok _
    | cons r rest ih =>
      exact fun acc => (failsIn_integer hcommon r).bind fun n _ =>
        (hstep acc n).bind fun acc' _ => ih acc'
  exact (hfold _).map _

theorem failsIn_logical (rule : LogicRule) (replies : List Reply) :
    FailsIn P (logical rule replies) := by
  have hrow : ∀ acc row, FailsIn P (logicRow rule acc row) := by
    intro acc
    induction acc with
    | nil => exact fun row => failsIn_ok _
    | cons a acc ih =>
      rintro (_ | ⟨r, row⟩)
      · exact failsIn_ok _
      · exact (failsIn_integer hcommon r).bind fun n _ => (ih row).bind fun _ _ => failsIn_ok _
  have hfold : ∀ acc, FailsIn P (logicFold rule acc replies) := by
    induction replies with
    | nil => exact fun acc => failsIn_ok _
    | cons r rest ih =>
      intro acc
      cases r with
      | array row =>
        simp only [logicFold]
        generalize (if acc.isEmpty then List.replicate row.length (logicStart rule) else acc) = acc'
        split
        · exact failsIn_cause hcommon (by decide)
        · exact (hrow acc' row).bind fun acc'' _ => ih acc''
      | _ => exact failsIn_cause hcommon (by decide)
  exact (hfold []).map _

theorem failsIn_concatenation (replies : List Reply) : FailsIn P (concatenation replies) := by
  induction replies with
  | nil => exact failsIn_ok _
  | cons r rest ih =>
    cases r with
    | array items => exact ih.map _
    | nil => exact ih
    | _ => exact failsIn_cause hcommon (by decide)

theorem failsIn_agreed (replies : List Reply) : FailsIn P (agreed replies) := by
  unfold agreed
  split
  · exact failsIn_ok _
  · split
    · exact failsIn_cause hcommon (by decide)
    · exact failsIn_ok _

variable {outcomes : List Outcome} (houtcomes : ∀ o ∈ outcomes, FailsIn P o.2)
include houtcomes

theorem failsIn_success {o : Outcome} (ho : o ∈ outcomes) : FailsIn P (success o) :=
  (houtcomes o ho).bind fun _ _ f hf => hcommon f (Reply.isCommon_of_checked f hf)

theorem failsIn_byPolicy (policy : MergePolicy) : FailsIn P (byPolicy outcomes policy) := by
  have hall : ∀ some, some ⊆ outcomes → FailsIn P (allSuccesses some) := by
    intro some hsome
    induction some with
    | nil => exact failsIn_ok _
    | cons o rest ih =>
      obtain ⟨ho, hrest⟩ := List.cons_subset.mp hsome
      exact (failsIn_success hcommon houtcomes ho).bind fun r _ =>
        (ih hrest).bind fun _ _ => failsIn_ok _
  have hfirst : ∀ wanted otherwise some, some ⊆ outcomes → FailsIn P otherwise →
      FailsIn P (firstSuccess wanted otherwise some) := by
    intro wanted otherwise some hsome hotherwise
    induction some generalizing otherwise with
    | nil => exact hotherwise
    | cons o rest ih =>
      obtain ⟨ho, hrest⟩ := List.cons_subset.mp hsome
      unfold firstSuccess
      split
      · split
        · exact failsIn_ok _
        · exact ih _ hrest hotherwise
      · next f hf =>
        exact ih _ hrest (failsIn_error (failsIn_success hcommon houtcomes ho f hf))
  have hsuccesses := hall outcomes (List.Subset.refl _)
  cases policy with
  | allSucceeded => exact hsuccesses.map _
  | oneSucceeded =>
    exact hfirst _ _ _ (List.Subset.refl _) (failsIn_cause hcommon (by decide))
  | firstNonEmpty => exact hfirst _ _ _ (List.Subset.refl _) (failsIn_ok _)
  | allEqual => exact hsuccesses.bind fun rs _ => failsIn_agreed hcommon rs
  | number rule => exact hsuccesses.bind fun rs _ => failsIn_numbers hcommon rule rs
  | logical rule => exact hsuccesses.bind fun rs _ => failsIn_logical hcommon rule rs
  | combineArrays =>
    exact hsuccesses.bind fun rs _ => (failsIn_concatenation hcommon rs).map _

theorem failsIn_merge (policy : Option MergePolicy) : FailsIn P (merge policy outcomes) := by
  have hentries : ∀ some, some ⊆ outcomes → FailsIn P (entries some) := by
    intro some hsome
    induction some with
    | nil => exact failsIn_ok _
    | cons o rest ih =>
      obtain ⟨ho, hrest⟩ := List.cons_subset.mp hsome
      exact (houtcomes o ho).bind fun r _ => (ih hrest).bind fun _ _ => failsIn_ok _
  unfold merge
  split
  · exact failsIn_cause hcommon (by decide)
  · split
    · exact failsIn_byPolicy hcommon houtcomes _
    · exact (hentries outcomes (List.Subset.refl _)).map _

end

end Merge

/-! ## Routes -/

theorem Slot.ofKey_lt (key : Bytes) : (Slot.ofKey key).toNat < 16384 := by
  unfold ofKey
  rw [UInt16.toNat_mod]
  exact Nat.mod_lt _ (by decide)

namespace Words

theorem fault_of_routing {w : Words} :
    FailsIn (fun f => f.IsCommon ∨ f.kind = .crossSlot) w.routing := by
  obtain ⟨f, hname, hf⟩ | ⟨name, hname, hrouting⟩ := w.routing_cases
  · rw [hf]
    exact failsIn_error (.inl (isCommon_of_checkedName f hname))
  obtain ⟨t, policy, hmulti⟩ | hrandom | ⟨-, hargument⟩ | ⟨-, hkeys⟩ := hrouting
  · rw [hmulti]
    exact failsIn_ok _
  · rw [hrandom]
    exact failsIn_ok _
  · rw [hargument, routeBySlot]
    split
    · split
      · exact failsIn_ok _
      · exact failsIn_error (.inl (Fault.isCommon_cause (by decide)))
    · exact failsIn_error (.inl (Fault.isCommon_cause (by decide)))
  · rw [hkeys]
    refine FailsIn.bind (fun f hf => .inl (isCommon_of_designated f hf)) fun keys _ => ?_
    cases keys with
    | none => exact failsIn_ok _
    | some keys =>
      refine FailsIn.bind ?_ fun slot _ => failsIn_ok _
      unfold commonSlot
      split
      · exact failsIn_error (.inl (Fault.isCommon_cause (by decide)))
      · simp only
        split
        · exact failsIn_error (.inr rfl)
        · exact failsIn_ok _

theorem inTable_of_routing {w : Words} {target : SingleTarget}
    (h : w.routing = .ok (.single target)) : target.InTable := by
  obtain ⟨f, -, hf⟩ | ⟨name, -, hrouting⟩ := w.routing_cases
  · rw [hf] at h
    cases h
  obtain ⟨t, policy, hmulti⟩ | hrandom | ⟨-, hargument⟩ | ⟨-, hkeys⟩ := hrouting
  · rw [hmulti] at h
    cases h
  · rw [hrandom] at h
    cases h
    trivial
  · rw [hargument, routeBySlot] at h
    split at h
    · split at h
      · next hslot =>
        cases h
        exact UInt16.lt_iff_toNat_lt.mp hslot
      · cases h
    · cases h
  · rw [hkeys] at h
    obtain ⟨keys, -, h⟩ := exists_of_bind_ok h
    cases keys with
    | none =>
      cases h
      trivial
    | some keys =>
      obtain ⟨slot, hcommon, h⟩ := exists_of_bind_ok h
      cases h
      obtain ⟨key, -, rfl⟩ := List.mem_map.mp (commonSlot_mem hcommon)
      exact Slot.ofKey_lt key

end Words

/-! ## Commands -/

open SlotCluster.Action

/-- Neither the whole fails in another way, nor any of its results. -/
structure FailsInside (P : Fault → Prop) (r : Except Fault (List (Except Fault Reply))) : Prop where
  whole : FailsIn P r
  results (rs : List (Except Fault Reply)) (h : r = .ok rs) : ∀ x ∈ rs, FailsIn P x

theorem failsInside_error {f : Fault} (h : P f) : FailsInside P (.error f) :=
  ⟨failsIn_error h, nofun⟩

section

variable (hnet : ∀ f, net f → P f) (hcommon : ∀ f, f.IsCommon → P f)
include hnet hcommon

namespace Dispatch

theorem askNode_meets (s : Settings) (c : Command) (node : Node) :
    (askNode s c node).Meets (faultContract net P) (fun v _ => FailsIn P v) ready := by
  have hsend : (sendBatch s node.name [c] false).run.Meets (faultContract net P)
      (fun v ψ => FailsIn P v ∧ ψ = ready) ready :=
    sendBatch_steady hnet (fun f hf => hcommon f hf.isCommon) s node.name [c] false
  refine Program.meets_bind_iff.mpr (hsend.mono ?_)
  rintro (f | replies) _ ⟨hfails, rfl⟩
  · simp only
    split
    · split
      · exact failsIn_ok _
      · exact hsend.mono fun _ _ h => h.1
    · exact failsIn_error (hfails f rfl)
  · exact failsIn_ok _

theorem broadcast_meets (s : Settings) (c : Command) (target : MultiTarget)
    (policy : Option MergePolicy) :
    Job.Meets (faultContract net P) (fun r _ => FailsIn P r) (broadcast s c target policy)
      true := by
  refine Job.meets_bind_iff.mpr (Job.meets_action_iff.mpr ⟨trivial, fun registry _ => ?_⟩)
  refine Job.meets_bind_iff.mpr (Job.meets_task_iff.mpr ⟨?_, fun results hsound => ?_⟩)
  · intro p hp
    obtain ⟨node, -, rfl⟩ := List.mem_map.mp hp
    exact ⟨(askNode_plain s c node).mono fun r => faultContract_leaves,
      askNode_meets hnet hcommon s c node⟩
  · refine Merge.failsIn_merge hcommon (fun o ho => ?_) policy
    obtain ⟨node, -, result, hresult, rfl⟩ := exists_of_mem_zipWith ho
    exact (hsound result hresult).map _

theorem routeCommand_meets (s : Settings) (c : Command) {routing : Routing}
    (hrouting : ∀ target, routing = .single target → target.Found P) :
    Job.Meets (faultContract net P) (fun r _ => FailsIn P r) (routeCommand s c routing)
      ready := by
  have hname : FailsIn P (Words.checkedName (Routable.words c)) :=
    fun f hf => hcommon f (Words.isCommon_of_checkedName f hf)
  refine Job.meets_bind_iff.mpr (Job.meets_lift_iff.mpr ?_)
  cases hchecked : Words.checkedName (Routable.words c) with
  | error f => exact failsIn_error (hname f hchecked)
  | ok name =>
    refine Job.meets_bind_iff.mpr (Job.meets_action_iff.mpr ?_)
    refine (Discovery.refreshIfNeeded_refreshes hcommon s).mono ?_
    rintro (f | _) ψ hrefreshed
    · exact failsIn_error (hrefreshed.fails f rfl)
    obtain rfl : ψ = true := hrefreshed.found rfl
    cases routing with
    | multi target policy => exact broadcast_meets hnet hcommon s c target policy
    | single target =>
      refine Job.meets_bind_iff.mpr (Job.meets_action_iff.mpr ?_)
      refine (request_meets hnet hcommon s [c] (hrouting target rfl)).mono ?_
      rintro (f | replies) χ hfails
      · exact failsIn_error (hfails f rfl)
      · exact failsIn_ok _

end Dispatch

/-! ## Pipelines -/

namespace Pipeline

omit hnet in
theorem failsIn_targets (hcross : ∀ f : Fault, f.kind = .crossSlot → P f)
    (commands : List Command) : FailsIn P (Pipeline.targets commands) := by
  induction commands with
  | nil => exact failsIn_ok _
  | cons c rest ih =>
    have hsingle : FailsIn P (singleTarget c) := by
      refine FailsIn.bind (fun f hf => ?_) fun routing _ => ?_
      · exact (Words.fault_of_routing f hf).elim (hcommon f) (hcross f)
      · cases routing with
        | single target => exact failsIn_ok _
        | multi t policy => exact failsIn_error (hcommon _ (Fault.isCommon_cause (by decide)))
    exact hsingle.bind fun target _ => ih.bind fun _ _ => failsIn_ok _

omit hnet hcommon in
theorem found_of_targets {commands : List Command} {targets : List SingleTarget}
    (h : Pipeline.targets commands = .ok targets) : ∀ target ∈ targets, target.Found P := by
  intro target htarget
  obtain ⟨c, -, hsingle⟩ := exists_command_of_mem h htarget
  obtain ⟨routing, hrouting, hsingle⟩ := exists_of_bind_ok hsingle
  cases routing with
  | single target' =>
    cases hsingle
    exact .inr (Words.inTable_of_routing hrouting)
  | multi t policy => cases hsingle

omit hnet in
theorem commonTarget_meets (hcross : ∀ f : Fault, f.kind = .crossSlot → P f)
    {found : Option (Node × SingleTarget)} {targets : List SingleTarget}
    (hfound : ∀ target ∈ found.map Prod.snd, target.Found P)
    (htargets : ∀ target ∈ targets, target.Found P) :
    Meets (faultContract net P) (fun r ψ => FailsIn P r ∧ ψ = true ∧
      ∀ target, r = .ok target → target.Found P) (commonTarget found targets) true := by
  induction targets generalizing found with
  | nil =>
    refine ⟨failsIn_ok _, rfl, ?_⟩
    rintro target ⟨⟩
    cases found with
    | none => exact .inr trivial
    | some first => exact hfound _ rfl
  | cons target rest ih =>
    obtain ⟨htarget, hrest⟩ := List.forall_mem_cons.mp htargets
    by_cases hrandom : target = .random
    · subst hrandom
      exact ih hfound hrest
    have hmaster : (masterTarget target).Found P := by
      refine htarget.imp_right fun hin => ?_
      cases target with
      | route r => exact hin
      | random | randomMaster | address => trivial
    rw [commonTarget_cons hrandom]
    have hresolve : Steady net P (Dispatch.resolve (masterTarget target)) true :=
      Dispatch.resolve_steady (fun f hf => hcommon f hf.isCommon) hmaster
    refine meets_bind_iff.mpr (hresolve.mono ?_)
    rintro (f | node) _ ⟨hfails, rfl⟩
    · exact ⟨failsIn_error (hfails f rfl), rfl, nofun⟩
    simp only
    split
    · refine ih ?_ hrest
      rintro _ ⟨⟩
      exact hmaster
    · split
      · exact ih hfound hrest
      · exact ⟨failsIn_error (hcross _ rfl), rfl, nofun⟩

omit hnet in
theorem failsInside_execResults (reply : Option Reply) : FailsInside P (execResults reply) := by
  refine ⟨fun f hf => hcommon f (isCommon_of_execResults f hf), fun rs hrs x hx => ?_⟩
  unfold execResults at hrs
  split at hrs
  · cases hrs
    obtain ⟨item, -, rfl⟩ := List.mem_map.mp hx
    exact fun f hf => hcommon f (Reply.isCommon_of_checked f hf)
  · cases hrs
    cases hx
  · cases hrs
  · cases hrs

theorem runTransaction_meets (hcross : ∀ f : Fault, f.kind = .crossSlot → P f) (s : Settings)
    (commands : List Command) {targets : List SingleTarget}
    (htargets : ∀ target ∈ targets, target.Found P) :
    Meets (faultContract net P) (fun r _ => FailsInside P r) (runTransaction s commands targets)
      true := by
  refine meets_bind_iff.mpr ((commonTarget_meets hcommon hcross (by simp) htargets).mono ?_)
  rintro (f | target) _ ⟨hfails, rfl, hfound⟩
  · exact failsInside_error (hfails f rfl)
  refine meets_bind_iff.mpr ((Dispatch.request_meets hnet hcommon s _ (hfound target rfl)).mono ?_)
  rintro (f | replies) _ hreplies
  · exact failsInside_error (hreplies f rfl)
  · exact failsInside_execResults hcommon _

/-! ### In parts -/

omit hnet in
theorem group_steady {placed : List (Placed × SingleTarget)}
    (hplaced : ∀ c ∈ placed, c.2.Found P) (batches : List Batch) :
    Steady net P (group placed batches) true := by
  induction placed generalizing batches with
  | nil => exact steady_pure _
  | cons c rest ih =>
    obtain ⟨hc, hrest⟩ := List.forall_mem_cons.mp hplaced
    have hresolve : Steady net P (Dispatch.resolve c.2) true :=
      Dispatch.resolve_steady (fun f hf => hcommon f hf.isCommon) hc
    exact steady_bind hresolve fun node => ih hrest _

omit hnet in
theorem patchAll_steady (s : Settings) (moves : List Redirect) :
    Steady net P (patchAll s moves) true := by
  induction moves with
  | nil => exact steady_pure _
  | cons r rest ih =>
    exact steady_bind (Discovery.patchMovedSlot_steady hcommon s r) fun _ => ih

omit hnet in
theorem failsIn_of_fateOfReply {reply : Reply} {x : Except Fault Reply}
    (h : fateOfReply reply = .settled x) : FailsIn P x := by
  unfold fateOfReply at h
  split at h
  · cases h
    exact failsIn_ok _
  · split at h
    all_goals cases h
    exact failsIn_error (hcommon _ (Fault.isCommon_server _))

omit hnet in
theorem failsIn_of_fates {batches : List Batch} {results : List BatchResult}
    (hresults : ∀ v ∈ results, FailsIn P v) {i : Nat} {x : Except Fault Reply}
    (h : (i, Fate.settled x) ∈ fates batches results) : FailsIn P x := by
  obtain ⟨part, hpart, hmem⟩ := List.mem_flatten.mp h
  obtain ⟨b, -, result, hresult, rfl⟩ := exists_of_mem_zipWith hpart
  cases result with
  | ok replies =>
    obtain ⟨c, -, reply, -, heq⟩ := exists_of_mem_zipWith hmem
    exact failsIn_of_fateOfReply hcommon (Prod.mk.inj heq).2
  | error f =>
    obtain ⟨c, -, heq⟩ := List.mem_map.mp hmem
    have hfate := (Prod.mk.inj heq).2
    split at hfate
    · cases hfate
    · cases hfate
      exact failsIn_error (hresults _ hresult f rfl)

/-- No result in the table is a failure of another kind. -/
def TableFailsIn (P : Fault → Prop) (t : Table) : Prop := ∀ x, some x ∈ t → FailsIn P x

omit hnet hcommon in
theorem TableFailsIn.set {t : Table} (ht : TableFailsIn P t) (i : Nat) {x : Except Fault Reply}
    (hx : FailsIn P x) : TableFailsIn P (t.set i (some x)) := by
  intro y hy
  rcases List.mem_or_eq_of_mem_set hy with hy | hy
  · exact ht y hy
  · cases hy
    exact hx

omit hnet hcommon in
theorem tableFailsIn_settle (size : Nat) {fates : List (Nat × Fate)}
    (h : ∀ i x, (i, Fate.settled x) ∈ fates → FailsIn P x) :
    TableFailsIn P (settle size fates) := by
  have hempty : TableFailsIn P (List.replicate size none) := by
    intro x hx
    cases (List.mem_replicate.mp hx).2
  unfold settle
  induction fates using List.reverseRecOn with
  | nil => exact hempty
  | append_singleton init fate ih =>
    rw [List.foldl_append, List.foldl_cons, List.foldl_nil]
    have hinit := ih fun i x hx => h i x (List.mem_append_left _ hx)
    obtain ⟨i, result | move⟩ := fate
    · exact hinit.set i (h i result (by simp))
    · exact hinit

omit hnet in
theorem TableFailsIn.finish {t : Table} (ht : TableFailsIn P t) :
    ∀ x ∈ finish t, FailsIn P x := by
  intro x hx
  obtain ⟨entry, hentry, rfl⟩ := List.mem_map.mp hx
  cases entry with
  | none => exact failsIn_error (hcommon _ (Fault.isCommon_cause (by decide)))
  | some result => exact ht result hentry

theorem replayAll_meets (s : Settings) {placed : List (Placed × SingleTarget)}
    (hplaced : ∀ c ∈ placed, c.2.Found P) (places : List Nat) {t : Table}
    (ht : TableFailsIn P t) :
    Job.Meets (faultContract net P) (fun r _ => ∃ t', r = .ok t' ∧ TableFailsIn P t')
      (replayAll s placed places t) ready := by
  induction places generalizing t ready with
  | nil => exact ⟨t, rfl, ht⟩
  | cons i rest ih =>
    unfold replayAll
    split
    · next c target hc =>
      refine Job.meets_bind_iff.mpr (Job.meets_task_iff.mpr ?_)
      have htarget : ∀ target', Routing.single target = .single target' → target'.Found P := by
        rintro _ ⟨⟩
        exact hplaced _ (List.mem_of_getElem? hc)
      exact (Dispatch.routeCommand_meets hnet hcommon s c.2 htarget).mono
        fun result ψ hresult => ih (ht.set i hresult)
    · exact ih ht

theorem runParts_meets (s : Settings) (commands : List Command) {targets : List SingleTarget}
    (htargets : ∀ target ∈ targets, target.Found P) :
    Job.Meets (faultContract net P) (fun r _ => FailsInside P r) (runParts s commands targets)
      true := by
  have hplaced : ∀ (numbered : List Placed), ∀ c ∈ numbered.zip targets, c.2.Found P :=
    fun _ c hc => htargets c.2 (List.of_mem_zip hc).2
  refine Job.meets_bind_iff.mpr (Job.meets_action_iff.mpr ?_)
  refine (group_steady hcommon (hplaced _) []).mono ?_
  rintro (f | batches) _ ⟨hfails, rfl⟩
  · exact failsInside_error (hfails f rfl)
  refine Job.meets_bind_iff.mpr (Job.meets_task_iff.mpr ⟨?_, fun results hsound => ?_⟩)
  · intro p hp
    obtain ⟨b, -, rfl⟩ := List.mem_map.mp hp
    refine ⟨(sendPart_plain s b).mono fun r => faultContract_leaves, ?_⟩
    have hsend : Steady net P (Dispatch.sendBatch s b.node (b.commands.map Prod.snd) false) true :=
      Dispatch.sendBatch_steady hnet (fun f hf => hcommon f hf.isCommon) s b.node _ false
    exact hsend.mono fun _ _ h => h.1
  refine Job.meets_bind_iff.mpr (Job.meets_action_iff.mpr ?_)
  refine (patchAll_steady hcommon s _).mono ?_
  rintro (f | _) _ ⟨hfails, rfl⟩
  · exact failsInside_error (hfails f rfl)
  have htable : TableFailsIn P (settle commands.length (fates batches results)) :=
    tableFailsIn_settle _ fun i x hx => failsIn_of_fates hcommon hsound hx
  refine Job.meets_bind_iff.mpr
    ((replayAll_meets hnet hcommon s (hplaced _) (replays (fates batches results)) htable).mono ?_)
  rintro _ ψ ⟨t, rfl, ht⟩
  refine ⟨failsIn_ok _, ?_⟩
  rintro _ ⟨⟩
  exact ht.finish hcommon

/-! ### Whole pipelines -/

theorem run_meets (hcross : ∀ f : Fault, f.kind = .crossSlot → P f) (s : Settings) (p : Pipeline) :
    Job.Meets (faultContract net P) (fun r _ => FailsInside P r) (p.run s) ready := by
  unfold run
  split
  · refine ⟨failsIn_ok _, ?_⟩
    rintro _ ⟨⟩
    simp
  refine Job.meets_bind_iff.mpr (Job.meets_lift_iff.mpr ?_)
  cases htargets : Pipeline.targets p.commands with
  | error f => exact failsInside_error (failsIn_targets hcommon hcross p.commands f htargets)
  | ok targets =>
    have hfound : ∀ target ∈ targets, target.Found P := found_of_targets htargets
    refine Job.meets_bind_iff.mpr (Job.meets_action_iff.mpr ?_)
    refine (Discovery.refreshIfNeeded_refreshes hcommon s).mono ?_
    rintro (f | _) ψ hrefreshed
    · exact failsInside_error (hrefreshed.fails f rfl)
    obtain rfl : ψ = true := hrefreshed.found rfl
    dsimp only
    split
    · exact Job.meets_action_iff.mpr
        (runTransaction_meets hnet hcommon hcross s p.commands hfound)
    · exact runParts_meets hnet hcommon s p.commands hfound

theorem query_meets (hcross : ∀ f : Fault, f.kind = .crossSlot → P f) (s : Settings)
    (p : Pipeline) :
    Job.Meets (faultContract net P) (fun r _ => FailsIn P r) (p.query s) ready := by
  refine Job.meets_bind_iff.mpr ((run_meets hnet hcommon hcross s p).mono ?_)
  rintro (f | rs) ψ hinside
  · exact failsIn_error (hinside.whole f rfl)
  have hall := hinside.results rs rfl
  clear hinside
  induction rs with
  | nil => exact failsIn_ok _
  | cons x rest ih =>
    obtain ⟨hx, hrest⟩ := List.forall_mem_cons.mp hall
    exact hx.bind fun r _ => FailsIn.bind (ih hrest) fun _ _ => failsIn_ok _

end Pipeline

/-! ## Operations -/

/-- The faults that a caller gets, those among the results of a pipeline included. -/
def Answer.faults : Answer → List Fault
  | .reply r => (faultOf? r).toList
  | .results (.ok rs) => rs.filterMap faultOf?
  | .results (.error f) => [f]
  | .replies rs => (faultOf? rs).toList
  | .done r => (faultOf? r).toList

omit hnet hcommon in
theorem FailsIn.faults {α : Type} {r : Except Fault α} (h : FailsIn P r) :
    ∀ f ∈ (faultOf? r).toList, P f := by
  intro f hf
  exact h f (eq_error_of_faultOf? (Option.mem_toList.mp hf))

omit hnet hcommon in
theorem FailsInside.faults {rs : Except Fault (List (Except Fault Reply))} (h : FailsInside P rs) :
    ∀ f ∈ (Answer.results rs).faults, P f := by
  intro f hf
  cases rs with
  | error g =>
    obtain rfl := List.mem_singleton.mp hf
    exact h.whole f rfl
  | ok rs =>
    obtain ⟨x, hx, hfault⟩ := List.mem_filterMap.mp hf
    exact h.results rs rfl x hx f (eq_error_of_faultOf? hfault)

/-- A caller names the slot of an explicit route, and it is in the table. -/
def Operation.InTable : Operation → Prop
  | .route _ (.single target) => target.InTable
  | _ => True

theorem Operation.task_meets (hcross : ∀ f : Fault, f.kind = .crossSlot → P f) {op : Operation}
    (hop : (∀ slot, P (.unownedSlot slot)) ∨ op.InTable) (s : Settings) :
    (op.task s).Meets (faultContract net P) (fun a _ => ∀ f ∈ a.faults, P f) ready := by
  have hmap : ∀ {α : Type} {j : Job α} {good : Except Fault α → Prop} {g : Except Fault α → Answer},
      Job.Meets (faultContract net P) (fun r _ => good r) j ready →
      (∀ r, good r → ∀ f ∈ (g r).faults, P f) →
      (g <$> j.run).Meets (faultContract net P) (fun a _ => ∀ f ∈ a.faults, P f) ready :=
    fun hj hg => Task.meets_bind_iff.mpr (Task.Meets.mono (fun r _ => hg r) hj)
  cases op with
  | execute c =>
    have hrouting : FailsIn P (Routing.of c) := fun f hf =>
      (Words.fault_of_routing f hf).elim (hcommon f) (hcross f)
    refine hmap (Job.meets_bind_iff.mpr (Job.meets_lift_iff.mpr ?_)) fun r hr => FailsIn.faults hr
    cases hc : Routing.of c with
    | error f => exact failsIn_error (hrouting f hc)
    | ok routing =>
      refine Dispatch.routeCommand_meets hnet hcommon s c ?_
      rintro target rfl
      exact .inr (Words.inTable_of_routing hc)
  | route c routing =>
    refine hmap (Dispatch.routeCommand_meets hnet hcommon s c ?_) fun r hr => hr.faults
    rintro target rfl
    exact hop
  | pipeline p raise =>
    cases raise with
    | true =>
      refine hmap (Pipeline.query_meets hnet hcommon hcross s p) fun r hr => ?_
      refine FailsInside.faults ⟨hr.map _, fun rs hrs x hx => ?_⟩
      cases r with
      | error f => cases hrs
      | ok replies =>
        cases hrs
        obtain ⟨reply, -, rfl⟩ := List.mem_map.mp hx
        exact failsIn_ok _
    | false => exact hmap (Pipeline.run_meets hnet hcommon hcross s p) fun r hr => hr.faults
  | query p => exact hmap (Pipeline.query_meets hnet hcommon hcross s p) fun r hr => hr.faults
  | refresh =>
    refine hmap (Job.meets_action_iff.mpr ((Discovery.run_refreshes hcommon s).mono ?_))
      fun r hr => FailsIn.faults hr
    exact fun r ψ h => h.fails
  | reset =>
    refine hmap (Job.meets_action_iff.mpr ?_) fun r hr => FailsIn.faults hr
    exact ⟨trivial, fun _ _ => ⟨trivial, fun _ _ => failsIn_ok _⟩⟩

end

end SlotCluster
