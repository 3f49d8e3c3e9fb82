import SlotCluster.Proofs.Contracts
import SlotCluster.Proofs.Readings
import SlotCluster.Proofs.RegistryIntegrity
import SlotCluster.Proofs.Runs

/-!
# What kind of fault

Faults of three kinds have one source each: keys in different slots, a slot without an owner, and a
pool without permits. Any other fault is common. What a discovery or a request ends with is common,
or comes from a lookup, the pool or the network.
-/

namespace SlotCluster

/-! ## Common faults -/

/-- The outcome is no failure, or one of these. -/
def FailsIn {α : Type} (P : Fault → Prop) (r : Except Fault α) : Prop := ∀ f, r = .error f → P f

theorem failsIn_ok {α : Type} {P : Fault → Prop} (value : α) : FailsIn P (.ok value) := nofun

theorem failsIn_error {α : Type} {P : Fault → Prop} {f : Fault} (h : P f) :
    FailsIn P (.error f : Except Fault α) := by
  rintro _ ⟨⟩
  exact h

theorem FailsIn.bind {α β : Type} {P : Fault → Prop} {r : Except Fault α}
    {f : α → Except Fault β} (hr : FailsIn P r) (hf : ∀ v, r = .ok v → FailsIn P (f v)) :
    FailsIn P (r >>= f) := by
  cases r with
  | error g => exact failsIn_error (hr g rfl)
  | ok v => exact hf v rfl

theorem FailsIn.map {α β : Type} {P : Fault → Prop} {r : Except Fault α} (h : FailsIn P r)
    (f : α → β) : FailsIn P (r.map f) := by
  cases r with
  | error g => exact failsIn_error (h g rfl)
  | ok v => exact failsIn_ok _

namespace Fault

/-- The fault is not about keys in different slots. -/
def IsOther (f : Fault) : Prop := f.kind ≠ .crossSlot

/-- Any operation may fail like this. -/
def IsCommon (f : Fault) : Prop :=
  f.kind ≠ .crossSlot ∧ f.kind ≠ .noNodeForSlot ∧ f.kind ≠ .poolExhausted

theorem isOther_cause {kind : FaultKind} {summary : String} {detail : Option String}
    (h : kind ≠ .crossSlot) : (cause kind summary detail).IsOther := h

theorem isCommon_cause {kind : FaultKind} {summary : String} {detail : Option String}
    (h : kind ≠ .crossSlot ∧ kind ≠ .noNodeForSlot ∧ kind ≠ .poolExhausted) :
    (cause kind summary detail).IsCommon := h

theorem isCommon_server (e : ServerError) : (server e).IsCommon := by
  cases e <;> exact ⟨nofun, nofun, nofun⟩

/-- A lookup, an address, or a node that refuses a greeting fails like this. -/
def IsOwn (f : Fault) : Prop :=
  f.kind = .clusterUnreachable ∨ f.kind = .invalidConfig ∨ ∃ e, f = .server e

theorem IsOwn.isCommon {f : Fault} (h : f.IsOwn) : f.IsCommon := by
  obtain h | h | ⟨e, rfl⟩ := h
  · simp [IsCommon, h]
  · simp [IsCommon, h]
  · exact isCommon_server e

theorem isOther_io (kind : IoKind) (text : Option String) : (io kind text).IsOther := by
  intro h
  cases h

end Fault

open Fault (IsCommon IsOther IsOwn)

theorem Reply.isOwn_of_checked {r : Reply} : FailsIn IsOwn r.checked := by
  unfold checked
  split
  · exact failsIn_error (.inr (.inr ⟨_, rfl⟩))
  · exact failsIn_ok _

theorem Reply.isCommon_of_checked {r : Reply} : FailsIn IsCommon r.checked :=
  fun f hf => (isOwn_of_checked f hf).isCommon

theorem Address.isOwn_of_split (address : String) : FailsIn IsOwn (Address.split address) := by
  unfold split
  split
  · exact failsIn_ok _
  · exact failsIn_error (.inr (.inl rfl))

theorem Node.isOwn_of_ofAddress (address : String) : FailsIn IsOwn (Node.ofAddress address) := by
  intro f h
  unfold ofAddress at h
  cases hsplit : Address.split address with
  | ok parts =>
    rw [hsplit] at h
    cases h
  | error g =>
    rw [hsplit] at h
    cases h
    exact Address.isOwn_of_split address _ hsplit

/-! ### Lookups -/

/-- Every slot has an owner, unless gaps are allowed. -/
def Registry.Serves (r : Registry) : Prop :=
  r.coverageRequired = true → ∀ slot : UInt16, slot.toNat < 16384 → r.slots.get? slot ≠ none

/-- The slot that is asked for is in the table. -/
def SingleTarget.InTable : SingleTarget → Prop
  | .route r => r.slot.toNat < 16384
  | _ => True

/-- A lookup for the target may fail for a slot without an owner, or does not. -/
def SingleTarget.Found (P : Fault → Prop) (target : SingleTarget) : Prop :=
  (∀ slot, P (.unownedSlot slot)) ∨ target.InTable

namespace Registry

variable {reg : Registry}

theorem isOwn_of_anyNode : FailsIn IsOwn reg.anyNode := by
  unfold anyNode
  split
  · exact failsIn_ok _
  · split
    · exact failsIn_ok _
    · exact failsIn_error (.inl rfl)

theorem fault_of_unowned {slot : UInt16} :
    FailsIn (fun f => f.IsOwn ∨ f = .unownedSlot slot ∧ reg.coverageRequired = true)
      (reg.unowned slot) := by
  unfold unowned
  split
  · next hrequired => exact failsIn_error (.inr ⟨rfl, hrequired⟩)
  · exact fun f hf => .inl (isOwn_of_anyNode f hf)

theorem fault_of_resolve {target : SingleTarget} :
    FailsIn (fun f => f.IsOwn ∨ ∃ r, target = .route r ∧ f = .unownedSlot r.slot ∧
      reg.coverageRequired = true ∧ reg.slots.get? r.slot = none) (reg.resolve target) := by
  cases target with
  | random => exact fun f hf => .inl (isOwn_of_anyNode f hf)
  | randomMaster =>
    simp only [resolve]
    split
    · exact failsIn_error (.inl (.inl rfl))
    · exact failsIn_ok _
  | address host port => exact failsIn_ok _
  | route r =>
    intro f hf
    simp only [resolve, nodesFor, replicasOf, masterOf] at hf
    split at hf
    all_goals
      split at hf
      · cases hf
      · next hnone =>
        obtain hown | ⟨hfault, hrequired⟩ := fault_of_unowned f hf
        · exact .inl hown
        · exact .inr ⟨r, rfl, hfault, hrequired, hnone⟩

theorem isOther_of_resolve {target : SingleTarget} {f : Fault} (h : reg.resolve target = .error f) :
    f.IsOther := by
  obtain hown | ⟨r, -, rfl, -⟩ := fault_of_resolve f h
  · exact hown.isCommon.1
  · exact Fault.isOther_cause (by decide)

end Registry

/-! ### Discoveries and verdicts -/

namespace Discovery

theorem isCommon_of_absorb {onlySeed : Bool} {node : Node} {reply : Reply} {t : Topology} :
    FailsIn IsCommon (absorb onlySeed node reply t) := by
  intro f h
  obtain ⟨e, rfl⟩ | hkind | hkind | hkind := kind_of_absorb h
  · exact Fault.isCommon_server e
  all_goals
    unfold IsCommon
    rw [hkind]
    decide

theorem isCommon_of_conclude {s : Settings} {v : Survey} : FailsIn IsCommon (v.conclude s) := by
  unfold Survey.conclude
  split
  · exact failsIn_error (Fault.isCommon_cause (by decide))
  · split
    · exact failsIn_ok _
    · split
      · exact failsIn_error (Fault.isCommon_cause (by decide))
      · exact failsIn_ok _

theorem isFull_of_conclude {s : Settings} {v : Survey} (h : v.conclude s = .ok true) :
    v.topology.table.isFull = true := by
  unfold Survey.conclude at h
  split at h
  · cases h
  · split at h
    · assumption
    · split at h <;> cases h

end Discovery

namespace Dispatch

theorem fault_of_judge {s : Settings} {left : Nat} {st : RetryState}
    {outcome : Except Fault (List Reply)} {result : Except Fault (List Reply)}
    (h : (Attempt.judge s left st outcome).next = .done result) :
    FailsIn (fun f => f.IsCommon ∨ outcome = .error f) result := by
  rintro f rfl
  have hagain : ∀ {g : Fault} {pause : Option Nat},
      Attempt.again left g pause = .done (.error f) → f.IsCommon := by
    intro g pause hdone
    unfold Attempt.again at hdone
    split at hdone
    · cases hdone
      exact Fault.isCommon_cause (by decide)
    · cases hdone
  unfold Attempt.judge at h
  split at h
  · cases h
    exact .inr rfl
  · next g hg =>
    -- A fault out of the replies is one of a node.
    have hown : g.IsCommon ∨ outcome = .error g := by
      cases outcome with
      | error g' =>
        cases hg
        exact .inr rfl
      | ok replies =>
        obtain ⟨e, -, rfl⟩ := Option.map_eq_some_iff.mp hg
        exact .inl (Fault.isCommon_server e)
    have hdone : Next.done (.error g) = .done (.error f) → f.IsCommon ∨ outcome = .error f := by
      rintro ⟨⟩
      exact hown
    unfold Attempt.judgeFault at h
    split at h
    · exact hdone h
    · exact .inl (hagain h)
    · exact .inl (hagain h)
    · split at h
      · exact .inl (hagain h)
      · exact hdone h
    · split at h
      · exact .inl (hagain h)
      · exact hdone h
    · exact hdone h
    · exact hdone h

theorem done_of_startOver {s : Settings} {left : Nat} {st : RetryState}
    {outcome : Except Fault (List Reply)}
    (h : (Attempt.judge s left st outcome).effect = .startOver) :
    ∃ result, (Attempt.judge s left st outcome).next = .done result := by
  generalize hverdict : Attempt.judge s left st outcome = verdict at h ⊢
  unfold Attempt.judge at hverdict
  split at hverdict
  · subst hverdict
    cases h
  · unfold Attempt.judgeFault at hverdict
    split at hverdict
    case h_1 =>
      subst hverdict
      exact ⟨_, rfl⟩
    case h_4 | h_5 =>
      split at hverdict
      all_goals
        subst hverdict
        cases h
    all_goals
      subst hverdict
      cases h

end Dispatch

/-! ## The contract -/

/-- Lookups count on the slots from the first registry on that has any. The network fails with
`net`, and the pool with `P`. -/
def faultContract (net P : Fault → Prop) : Contract Bool where
  Allows ready
    | .recordMove _ _ _ => ready = true
    | .install t required => t.table.Counted ∧ (required = true → t.table.isFull = true)
    | _ => True
  next ready
    | .registry, registry => ready || registry.isInitialized
    | .install _ _, _ => true
    | .forget, _ => false
    | _, _ => ready
  Honest ready
    | .registry, registry =>
      (∀ slot, P (.unownedSlot slot)) ∨ ((ready || registry.isInitialized) = true → registry.Serves)
    | .checkout _, result => FailsIn P result
    | .connect _, result => FailsIn net result
    | .write _ _, result => FailsIn net result
    | .read _, result => FailsIn net result
    | _, _ => True
  Sound := FailsIn P

variable {α β : Type} {net P : Fault → Prop} {ready : Bool}

theorem faultContract_ignores {r : Request} (h : r.IsPlain) (hr : r ≠ .registry) :
    (faultContract net P).toProtocol.Ignores r := by
  intro ready
  cases r with
  | registry => exact absurd rfl hr
  | recordMove | install | forget | flagRefresh | takeRefresh | lock | unlock => exact h.elim
  | _ => exact ⟨trivial, fun _ => rfl⟩

theorem faultContract_ignores_surveys {r : Request} (h : r.Surveys) :
    (faultContract net P).toProtocol.Ignores r :=
  faultContract_ignores h.isPlain (by rintro rfl; exact h)

theorem faultContract_leaves {r : Request} (h : r.IsPlain) :
    (faultContract net P).toProtocol.Leaves true r := by
  intro a
  cases r with
  | recordMove | install | forget | flagRefresh | takeRefresh | lock | unlock => exact h.elim
  | _ => rfl

open SlotCluster.Action

/-- The action fails with such faults only, and leaves the phase as it is. -/
abbrev Action.Steady (net P : Fault → Prop) (a : Action α) (ready : Bool) : Prop :=
  Meets (faultContract net P) (fun r ψ => FailsIn P r ∧ ψ = ready) a ready

namespace Action

theorem steady_pure (value : α) : Steady net P (pure value) ready := ⟨failsIn_ok value, rfl⟩

theorem steady_throw {f : Fault} (h : P f) : Steady net P (throw f : Action α) ready :=
  ⟨failsIn_error h, rfl⟩

theorem steady_lift {x : Except Fault α} (h : FailsIn P x) : Steady net P (liftM x) ready :=
  ⟨h, rfl⟩

theorem steady_ask {q : Request} (hallows : (faultContract net P).Allows ready q)
    (hnext : ∀ a, (faultContract net P).next ready q a = ready) : Steady net P (ask q) ready :=
  ⟨hallows, fun a _ => ⟨failsIn_ok a, hnext a⟩⟩

theorem steady_bind {a : Action α} {f : α → Action β} (ha : Steady net P a ready)
    (hf : ∀ v, Steady net P (f v) ready) : Steady net P (a >>= f) ready := by
  refine meets_bind_iff.mpr (Program.Meets.mono ?_ ha)
  rintro (g | v) _ ⟨hfails, rfl⟩
  · exact ⟨failsIn_error (hfails g rfl), rfl⟩
  · exact hf v

theorem steady_outcome_bind {a : Action α} {f : Except Fault α → Action β}
    (ha : Steady net P a ready) (hf : ∀ r, FailsIn P r → Steady net P (f r) ready) :
    Steady net P (outcome a >>= f) ready := by
  refine meets_outcome_bind_iff.mpr (Program.Meets.mono ?_ ha)
  rintro r _ ⟨hfails, rfl⟩
  exact hf r hfails

theorem steady_program_bind {p : Program α} {f : α → Action β}
    (hp : p.Uses (faultContract net P).toProtocol.Ignores)
    (hf : ∀ v, Steady net P (f v) ready) : Steady net P (ExceptT.lift p >>= f) ready := by
  refine meets_program_bind_iff.mpr ((hp.meets ready).mono ?_)
  rintro v _ rfl
  exact hf v

end Action

/-! ### Discoveries -/

namespace Discovery

/-- After a success the slots are there, and they are never lost. -/
structure Refreshed (P : Fault → Prop) (ready : Bool) (r : Except Fault Unit) (ψ : Bool) :
    Prop where
  fails : FailsIn P r
  found (h : r = .ok ()) : ψ = true
  kept (h : ready = true) : ψ = true

theorem Refreshed.mono {ready' : Bool} {r : Except Fault Unit} {ψ : Bool}
    (h : Refreshed P ready' r ψ) (hready : ready = true → ready' = true) : Refreshed P ready r ψ :=
  ⟨h.fails, h.found, fun hr => h.kept (hready hr)⟩

theorem locked_refreshes {a : Action Unit}
    (h : Meets (faultContract net P) (Refreshed P ready) a ready) :
    Meets (faultContract net P) (Refreshed P ready) (locked a) ready := by
  refine meets_ask_bind_iff.mpr ⟨trivial, fun _ _ => ?_⟩
  refine meets_outcome_bind_iff.mpr (Program.Meets.mono ?_ h)
  intro r ψ hr
  exact meets_ask_bind_iff.mpr ⟨trivial, fun _ _ => meets_lift_iff.mpr hr⟩

section

variable (hcommon : ∀ f, f.IsCommon → P f)
include hcommon

theorem survey_steady (s : Settings) (onlySeed : Bool) (candidates : List Node) (v : Survey) :
    Steady net P (survey s onlySeed candidates v) ready := by
  induction candidates generalizing v with
  | nil => exact steady_pure _
  | cons candidate rest ih =>
    refine steady_program_bind ?_ ?_
    · exact (query_surveys candidate (.inl rfl)).mono fun _ => faultContract_ignores_surveys
    rintro (f | reply)
    · exact ih _
    refine steady_bind (steady_lift fun f hf => hcommon f (isCommon_of_absorb f hf)) ?_
    intro topology
    split
    · exact steady_pure _
    · refine steady_program_bind ?_ fun required => ?_
      · exact (coverage_surveys s _).mono fun _ => faultContract_ignores_surveys
      split
      · exact ih _
      · exact steady_pure _

theorem run_refreshes (s : Settings) :
    Meets (faultContract net P) (Refreshed P ready) (run s) ready := by
  refine meets_ask_bind_iff.mpr ⟨trivial, fun registry _ => ?_⟩
  have hkept : ∀ {f : Fault}, P f →
      Refreshed P ready (.error f) (ready || registry.isInitialized) := by
    intro f hf
    exact ⟨failsIn_error hf, nofun, fun hready => by rw [hready, Bool.true_or]⟩
  have hsteady : Steady net P (survey s (registry.seeds.length == 1) (candidates s registry) .start)
      (ready || registry.isInitialized) := survey_steady hcommon s _ _ _
  have hsurvey := hsteady.and_keeps (survey_keeps_whole s _ _)
  refine meets_bind_iff.mpr (hsurvey.mono ?_)
  rintro (f | v) _ ⟨⟨hfails, rfl⟩, -, -, hwhole⟩
  · exact hkept (hfails f rfl)
  refine meets_bind_iff.mpr (meets_lift_iff.mpr ?_)
  cases hconclude : v.conclude s with
  | error f => exact hkept (hcommon f (isCommon_of_conclude f hconclude))
  | ok required =>
    refine ⟨⟨(hwhole v rfl).counted, ?_⟩, fun _ _ => ⟨failsIn_ok _, fun _ => rfl, fun _ => rfl⟩⟩
    rintro rfl
    exact isFull_of_conclude hconclude

theorem runIfDue_refreshes (s : Settings) :
    Meets (faultContract net P) (Refreshed P ready) (runIfDue s) ready := by
  have hdue : Meets (faultContract net P) (fun r ψ => ∃ due, r = .ok due ∧
      (due = false → ψ = true) ∧ (ready = true → ψ = true)) isDue ready := by
    refine meets_ask_bind_iff.mpr ⟨trivial, fun registry _ => ?_⟩
    have hkept : ready = true → (ready || registry.isInitialized) = true := by
      rintro rfl
      rfl
    split
    · next hinit =>
      refine ⟨trivial, fun taken _ => ⟨taken, rfl, fun _ => ?_, hkept⟩⟩
      exact (congrArg (ready || ·) hinit).trans (Bool.or_true ready)
    · exact ⟨true, rfl, nofun, hkept⟩
  have hrun : ∀ ψ, Meets (faultContract net P) (Refreshed P ψ) (runOrFlag s) ψ := by
    intro ψ
    refine meets_outcome_bind_iff.mpr ((run_refreshes hcommon s).mono ?_)
    rintro (f | _) χ hr
    · exact ⟨trivial, fun _ _ => ⟨failsIn_error (hr.fails f rfl), nofun, hr.kept⟩⟩
    · exact hr
  rw [runIfDue_eq]
  refine meets_bind_iff.mpr (Program.Meets.mono ?_ hdue)
  rintro _ ψ ⟨due, rfl, hfound, hkept⟩
  cases due with
  | true => exact (hrun ψ).mono fun r χ h => h.mono hkept
  | false => exact ⟨failsIn_ok _, fun _ => hfound rfl, hkept⟩

theorem refreshIfNeeded_refreshes (s : Settings) :
    Meets (faultContract net P) (Refreshed P ready) (refreshIfNeeded s) ready := by
  refine meets_ask_bind_iff.mpr ⟨trivial, fun registry _ => ?_⟩
  have hkept : ready = true → (ready || registry.isInitialized) = true := by
    rintro rfl
    rfl
  split
  · next hinit =>
    have hfound : (ready || registry.isInitialized) = true :=
      (congrArg (ready || ·) hinit.1).trans (Bool.or_true ready)
    exact ⟨failsIn_ok _, fun _ => hfound, hkept⟩
  · exact (locked_refreshes (runIfDue_refreshes hcommon s)).mono fun r χ h => h.mono hkept

theorem patchMovedSlot_steady (s : Settings) (r : Redirect) :
    Steady net P (patchMovedSlot s r) true := by
  have hpending : Meets (faultContract net P) (Refreshed P true) (refreshIfPending s) true := by
    refine meets_ask_bind_iff.mpr ⟨trivial, fun taken _ => ?_⟩
    split
    · exact run_refreshes hcommon s
    · exact ⟨failsIn_ok _, fun _ => rfl, fun _ => rfl⟩
  refine steady_bind (steady_ask trivial fun _ => rfl) fun _ => ?_
  refine steady_bind (steady_lift fun f hf => hcommon f (Address.isOwn_of_split _ f hf).isCommon) ?_
  intro parts
  refine steady_bind (steady_ask rfl fun _ => rfl) fun due => ?_
  split
  · exact (locked_refreshes hpending).mono fun _ _ h => ⟨h.fails, h.kept rfl⟩
  · exact steady_pure _

end

end Discovery

/-! ### Requests -/

namespace Dispatch

section

variable (hown : ∀ f, f.IsOwn → P f)
include hown

theorem choose_steady (nodes : List Node) : Steady net P (choose nodes) ready := by
  refine steady_bind (steady_ask trivial fun _ => rfl) ?_
  rintro (_ | node)
  · exact steady_throw (hown _ (.inl rfl))
  · exact steady_pure _

theorem resolve_steady {target : SingleTarget}
    (htarget : target.Found P) :
    Steady net P (resolve target) true := by
  refine meets_ask_bind_iff.mpr ⟨trivial, fun registry hhonest => ?_⟩
  have hfails : FailsIn P (registry.resolve target) := by
    intro f hf
    obtain hown' | ⟨r, rfl, rfl, hrequired, hnone⟩ := Registry.fault_of_resolve f hf
    · exact hown f hown'
    obtain hP | hin := htarget
    · exact hP _
    obtain hP | hserves := hhonest
    · exact hP _
    · exact absurd hnone (hserves rfl hrequired r.slot hin)
  exact steady_bind (steady_lift hfails) (choose_steady hown)

theorem nodeFor_steady {target : SingleTarget}
    (htarget : target.Found P) (direction : Direction) :
    Steady net P (nodeFor target direction) true := by
  cases direction with
  | route => exact resolve_steady hown htarget
  | random =>
    refine steady_bind (steady_ask trivial fun _ => rfl) fun registry => ?_
    refine steady_bind (steady_lift fun f hf => hown f ?_) (choose_steady hown)
    exact Registry.isOwn_of_anyNode f hf
  | address address =>
    exact steady_lift fun f hf => hown f (Node.isOwn_of_ofAddress address f hf)

end

/-! ### Writes -/

section

variable (hnet : ∀ f, net f → P f)
include hnet

theorem write_steady (link : Link) (commands : List Command) :
    Steady net P (write link commands) ready :=
  ⟨trivial, fun _ hr => ⟨fun f hf => hnet f (hr f hf), rfl⟩⟩

theorem read_steady (link : Link) : Steady net P (read link) ready :=
  ⟨trivial, fun _ hr => ⟨fun f hf => hnet f (hr f hf), rfl⟩⟩

theorem exchange_steady (link : Link) (commands : List Command) :
    Steady net P (exchange link commands) ready := by
  have hreads : ∀ n, Steady net P (readMany link n) ready := by
    intro n
    induction n with
    | zero => exact steady_pure _
    | succ n ih =>
      exact steady_bind (read_steady hnet link) fun reply =>
        steady_bind ih fun replies => steady_pure _
  exact steady_bind (write_steady hnet link commands) fun _ => hreads commands.length

theorem exchangeOne_steady (link : Link) (command : Command) :
    Steady net P (exchangeOne link command) ready :=
  steady_bind (write_steady hnet link [command]) fun _ => read_steady hnet link

variable (hown : ∀ f, f.IsOwn → P f)
include hown

theorem openLink_steady (s : Settings) (node : String) :
    Steady net P (openLink s node) ready := by
  have hclose : ∀ (link : Link) {f : Fault}, P f →
      Steady net P (do ask (.close link); throw f : Action Link) ready :=
    fun link f hf => steady_bind (steady_ask trivial fun _ => rfl) fun _ => steady_throw hf
  have hconnect : Steady net P (connect node) ready :=
    ⟨trivial, fun _ hr => ⟨fun f hf => hnet f (hr f hf), rfl⟩⟩
  refine steady_bind hconnect fun link => ?_
  split
  · refine steady_outcome_bind (exchangeOne_steady hnet link _) ?_
    rintro (f | reply) hf
    · exact hclose link (hf f rfl)
    simp only
    split
    · exact steady_pure _
    · next hchecked => exact hclose link (hown _ (Reply.isOwn_of_checked _ hchecked))
  · exact steady_pure _

theorem lend_steady (s : Settings) (node : String) : Steady net P (lend s node) ready := by
  have hcheckout :
      Steady net P (ExceptT.mk (Program.ask (.checkout node)) : Action _) ready :=
    ⟨trivial, fun _ hr => ⟨hr, rfl⟩⟩
  refine steady_bind hcheckout ?_
  rintro ⟨lease, _ | link⟩
  · refine steady_outcome_bind (openLink_steady hnet hown s node) ?_
    rintro (f | link) hf
    · exact steady_bind (steady_ask trivial fun _ => rfl) fun _ => steady_throw (hf f rfl)
    · exact steady_bind (steady_ask trivial fun _ => rfl) fun _ => steady_pure _
  · exact steady_pure _

theorem sendBatch_steady (s : Settings) (node : String) (commands : List Command)
    (asking : Bool) : Steady net P (sendBatch s node commands asking) ready := by
  refine steady_bind (lend_steady hnet hown s node) ?_
  rintro ⟨lease, link⟩
  refine steady_outcome_bind (exchange_steady hnet link _) ?_
  rintro (f | replies) hf
  · exact steady_bind (steady_ask trivial fun _ => rfl) fun _ => steady_throw (hf f rfl)
  · exact steady_bind (steady_ask trivial fun _ => rfl) fun _ => steady_pure _

/-! ### Attempts -/

theorem attempt_steady (s : Settings) (commands : List Command) {target : SingleTarget}
    (htarget : target.Found P) (direction : Direction) (asking : Bool) :
    Steady net P (attempt s commands target direction asking) true :=
  steady_bind (nodeFor_steady hown htarget direction) fun node =>
    sendBatch_steady hnet hown s node.name commands asking

end

section

variable (hnet : ∀ f, net f → P f) (hcommon : ∀ f, f.IsCommon → P f)
include hnet hcommon

omit hnet in
theorem apply_meets (s : Settings) (effect : Effect) :
    Meets (faultContract net P) (fun r ψ => FailsIn P r ∧ (effect ≠ .startOver → ψ = true))
      (apply s effect) true := by
  cases effect with
  | none => exact ⟨failsIn_ok _, fun _ => rfl⟩
  | move r =>
    exact (Discovery.patchMovedSlot_steady hcommon s r).mono fun _ _ h => ⟨h.1, fun _ => h.2⟩
  | startOver =>
    exact ⟨trivial, fun _ _ => ⟨trivial, fun _ _ => ⟨failsIn_ok _, fun h => absurd rfl h⟩⟩⟩

theorem requestFrom_meets (s : Settings) (commands : List Command) {target : SingleTarget}
    (htarget : target.Found P) (left : Nat) (st : RetryState) :
    Meets (faultContract net P) (fun r _ => FailsIn P r)
      (requestFrom s commands target left st) true := by
  induction left generalizing st with
  | zero => exact failsIn_error (hcommon _ (Fault.isCommon_cause (by decide)))
  | succ left ih =>
    unfold requestFrom
    have hattempt : Steady net P (attempt s commands target st.aim.1 st.aim.2.asking) true :=
      attempt_steady hnet (fun f hf => hcommon f hf.isCommon) s commands htarget _ _
    refine meets_outcome_bind_iff.mpr (Program.Meets.mono ?_ hattempt)
    rintro outcome _ ⟨houtcome, rfl⟩
    refine meets_bind_iff.mpr ((apply_meets hcommon s _).mono ?_)
    rintro (f | _) ψ ⟨hfails, hready⟩
    · exact failsIn_error (hfails f rfl)
    simp only
    split
    · next result hnext =>
      intro f hf
      obtain hown | hown := fault_of_judge hnext f hf
      · exact hcommon f hown
      · exact houtcome f hown
    · next pause hnext =>
      -- There is another attempt, so the client has not started over.
      obtain rfl : ψ = true := by
        refine hready fun hstart => ?_
        obtain ⟨result, hresult⟩ := done_of_startOver hstart
        rw [hresult] at hnext
        cases hnext
      cases pause with
      | none => exact ih _
      | some duration => exact meets_ask_bind_iff.mpr ⟨trivial, fun _ _ => ih _⟩

/-- A request for a target fails like the network or the pool, or for a slot without an owner. -/
theorem request_meets (s : Settings) (commands : List Command) {target : SingleTarget}
    (htarget : target.Found P) :
    Meets (faultContract net P) (fun r _ => FailsIn P r) (request s commands target) true :=
  requestFrom_meets hnet hcommon s commands htarget s.attempts .start

end

end Dispatch

/-! ## Faults of runs -/

section Runs

variable {σ : Type} [Transport σ]

/-- The network fails with such faults only. -/
structure Transport.FailsOnly (σ : Type) [Transport σ] (P : Fault → Prop) : Prop where
  connect {node : String} {n : σ} {f : Fault} (h : (Transport.connect node n).1 = .error f) : P f
  write {link : Link} {commands : List Command} {n : σ} {f : Fault}
    (h : (Transport.write link commands n).1 = .error f) : P f
  read {link : Link} {n : σ} {f : Fault} (h : (Transport.read link n).1 = .error f) : P f

theorem Transport.failsOnly_of_all (h : ∀ f, P f) : Transport.FailsOnly σ P :=
  ⟨fun _ => h _, fun _ => h _, fun _ => h _⟩

theorem Canned.failsOnly (h : P (.io .unexpectedEof none)) : Transport.FailsOnly Canned P := by
  refine ⟨?_, ?_, ?_⟩
  · rintro node n f ⟨⟩
  · rintro link commands n f ⟨⟩
  · rintro link ⟨next, replies⟩ f hread
    cases replies with
    | nil =>
      cases hread
      exact h
    | cons reply rest => cases hread

/-- A run of the action that fails ends with such a fault. -/
def Action.FailsOnly (σ : Type) [Transport σ] (P : Fault → Prop) (a : Action α) : Prop :=
  ∀ (es : List (Event σ)) (f : Fault), Runs a es (.error f) → P f

theorem Action.failsOnly_lift {x : Except Fault α} (h : FailsIn P x) :
    FailsOnly σ P (liftM x : Action α) := by
  intro es f hlift
  exact h f (runs_lift_iff.mp hlift).2.symm

theorem Action.failsOnly_bind {a : Action α} {f : α → Action β} (ha : FailsOnly σ P a)
    (hf : ∀ x, FailsOnly σ P (f x)) : FailsOnly σ P (a >>= f) := by
  intro es g h
  obtain ⟨g', hg, heq⟩ | ⟨x, es₁, es₂, rfl, -, hrest⟩ := runs_bind_iff.mp h
  · cases heq
    exact ha es g hg
  · exact hf x es₂ g hrest

theorem Program.Meets.of_runs {τ : Type} {C : Contract τ} {post : α → τ → Prop} {φ : τ}
    {p : Program α} (hp : p.Meets C post φ) {es : List (Event σ)} {v : α} (h : Runs p es v)
    (honest : ∀ e ∈ es, ∀ ψ, C.Honest ψ e.request e.answer) : ∃ ψ, post v ψ := by
  induction h generalizing φ with
  | done v => exact ⟨φ, hp⟩
  | call task r next c _ ih =>
    obtain ⟨hfirst, hrest⟩ := List.forall_mem_cons.mp honest
    exact ih (hp.2 _ (hfirst φ)) hrest

theorem Pool.kind_of_take {p : Pool} {node : String} {holder : Nat} :
    FailsIn (fun f => f.kind = .poolExhausted) (p.take node holder).1 := by
  intro f h
  simp only [take] at h
  split at h
  · cases h
    rfl
  · split at h
    · cases h
      rfl
    · split at h
      · cases h
        rfl
      · cases h

theorem Client.kind_of_checkout {c : Client σ} {task : Nat} {node : String} :
    FailsIn (fun f => f.kind = .poolExhausted) (c.checkout task node).1 := by
  intro f h
  unfold checkout at h
  split at h
  · next htake =>
    cases h
    exact Pool.kind_of_take _ (by rw [htake])
  · split at h <;> cases h

theorem faultContract_honest (hnetwork : Transport.FailsOnly σ net) (e : Event σ)
    (hlookup : e.request = .registry → (∀ slot, P (.unownedSlot slot)) ∨
      ((ready || e.client.registry.isInitialized) = true → e.client.registry.Serves))
    (hcheckout : ∀ node, e.request = .checkout node → FailsIn P (e.client.checkout e.task node).1) :
    (faultContract net P).Honest ready e.request e.answer := by
  obtain ⟨task, r, c⟩ := e
  cases r with
  | registry => exact hlookup rfl
  | checkout node => exact hcheckout node rfl
  | connect node => exact fun f hf => hnetwork.connect hf
  | write link commands => exact fun f hf => hnetwork.write hf
  | read link => exact fun f hf => hnetwork.read hf
  | _ => trivial

theorem Action.failsOnly_of_meets {a : Action α} {post : Except Fault α → Bool → Prop}
    (hnetwork : Transport.FailsOnly σ net) (hslot : ∀ slot, P (.unownedSlot slot))
    (hpool : ∀ f, f.kind = .poolExhausted → P f) (ha : Meets (faultContract net P) post a true)
    (hpost : ∀ r ψ, post r ψ → FailsIn P r) : FailsOnly σ P a := by
  intro es f hruns
  obtain ⟨ψ, hf⟩ := ha.of_runs hruns fun e _ ψ => faultContract_honest hnetwork e
    (fun _ => .inl hslot) (fun node _ f hf => hpool f (Client.kind_of_checkout f hf))
  exact hpost _ ψ hf f rfl

theorem Action.isOther_of_meets {a : Action α} {post : Except Fault α → Bool → Prop}
    (hnetwork : Transport.FailsOnly σ net) (ha : Meets (faultContract net IsOther) post a true)
    (hpost : ∀ r ψ, post r ψ → FailsIn IsOther r) : FailsOnly σ IsOther a := by
  refine failsOnly_of_meets hnetwork (fun slot => Fault.isOther_cause (by decide)) ?_ ha hpost
  intro f hf
  unfold IsOther
  rw [hf]
  decide

theorem Discovery.refreshIfNeeded_isOther (s : Settings) :
    FailsOnly σ IsOther (refreshIfNeeded s) :=
  have hmeets : Meets (faultContract (fun _ => True) IsOther) (Refreshed IsOther true)
      (refreshIfNeeded s) true := refreshIfNeeded_refreshes (fun _ h => h.1) s
  isOther_of_meets (Transport.failsOnly_of_all fun _ => trivial) hmeets fun _ _ h => h.fails

theorem Dispatch.attempt_failsOnly (hnetwork : Transport.FailsOnly σ P)
    (hown : ∀ f, f.IsOwn → P f) (hslot : ∀ slot, P (.unownedSlot slot))
    (hpool : ∀ f, f.kind = .poolExhausted → P f) (s : Settings) (commands : List Command)
    (target : SingleTarget) (direction : Direction) (asking : Bool) :
    FailsOnly σ P (attempt s commands target direction asking) :=
  failsOnly_of_meets hnetwork hslot hpool
    (attempt_steady (fun _ h => h) hown s commands (.inl hslot) direction asking) fun _ _ h => h.1

theorem Dispatch.request_isOther (hnetwork : Transport.FailsOnly σ IsOther) (s : Settings)
    (commands : List Command) (target : SingleTarget) :
    FailsOnly σ IsOther (request s commands target) :=
  isOther_of_meets hnetwork
    (request_meets (fun _ h => h) (fun _ h => h.1) s commands
      (.inl fun _ => Fault.isOther_cause (by decide))) fun _ _ h => h

end Runs

end SlotCluster
