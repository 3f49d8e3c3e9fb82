import Mathlib.Data.List.Chain
import SlotCluster.Proofs.Batches
import SlotCluster.Proofs.Canned

/-!
# Transactions

A transaction is sent whole or not at all. Its commands stand between `MULTI` and `EXEC` in one
write, and every attempt writes all of them again.
-/

namespace SlotCluster

/-! ## Errors inside a reply -/

namespace Reply

/-- The reply is this error, or an array that holds it at some depth. -/
inductive Carries (e : ServerError) : Reply → Prop
  | here : Carries e (.error e)
  | inside {items : List Reply} {r : Reply} (mem : r ∈ items) (h : Carries e r) :
      Carries e (.array items)

theorem firstErrorOf_eq (items : List Reply) : firstErrorOf items = items.findSome? firstError := by
  induction items with
  | nil => rw [firstErrorOf, List.findSome?_nil]
  | cons r rest ih =>
    rw [firstErrorOf, List.findSome?_cons]
    cases r.firstError with
    | some e => rfl
    | none => exact ih

mutual

theorem carries_of_firstError {e : ServerError} :
    (r : Reply) → r.firstError = some e → r.Carries e
  | .error e', h => by
    rw [firstError, Option.some.injEq] at h
    subst h
    exact .here
  | .array items, h => by
    rw [firstError] at h
    obtain ⟨r, hr, hcarries⟩ := carries_of_firstErrorOf items h
    exact .inside hr hcarries
  | .nil, h | .int _, h | .bulk _, h | .simple _, h | .okay, h | .map _, h => by
    simp [firstError] at h

theorem carries_of_firstErrorOf {e : ServerError} :
    (items : List Reply) → firstErrorOf items = some e → ∃ r ∈ items, r.Carries e
  | [], h => by simp [firstErrorOf] at h
  | r :: rest, h => by
    rw [firstErrorOf] at h
    cases hr : r.firstError with
    | some e' =>
      rw [hr] at h
      cases h
      exact ⟨r, by simp, carries_of_firstError r hr⟩
    | none =>
      rw [hr] at h
      obtain ⟨r', hr', hcarries⟩ := carries_of_firstErrorOf rest h
      exact ⟨r', by simp [hr'], hcarries⟩

end

theorem Carries.firstError_isSome {e : ServerError} {r : Reply} (h : r.Carries e) :
    r.firstError.isSome = true := by
  induction h with
  | here => rw [firstError, Option.isSome_some]
  | inside mem _ ih =>
    rw [firstError, firstErrorOf_eq, List.findSome?_isSome_iff]
    exact ⟨_, mem, ih⟩

/-- An item of the reply to `EXEC`, and its result. -/
inductive Yields (item : Reply) : Except Fault Reply → Prop
  | reply (clean : ∀ e, ¬ item.Carries e) : Yields item (.ok item)
  | error {e : ServerError} (carries : item.Carries e) : Yields item (.error (.server e))

end Reply

/-! ## Targets -/

namespace Words

theorem routing_single {w : Words} {target : SingleTarget} (h : w.routing = .ok (.single target)) :
    target = .random ∨ ∃ r, target = .route r := by
  have hslot : ∀ name, w.routeBySlot name = .ok (.single target) → ∃ r, target = .route r := by
    intro name h
    unfold routeBySlot at h
    split at h
    · split at h
      · cases h
        exact ⟨_, rfl⟩
      · cases h
    · cases h
  have hkeys : ∀ name family, w.routeByKeys name family = .ok (.single target) →
      target = .random ∨ ∃ r, target = .route r := by
    intro name family h
    obtain ⟨keys, -, h⟩ := exists_of_bind_ok h
    cases keys with
    | none =>
      cases h
      exact .inl rfl
    | some keys =>
      obtain ⟨slot, -, h⟩ := exists_of_bind_ok h
      cases h
      exact .inr ⟨_, rfl⟩
  obtain ⟨name, -, h⟩ := exists_of_bind_ok h
  split at h
  · cases h
  · cases h
  · cases h
    exact .inl rfl
  · exact .inr (hslot name h)
  · exact hkeys name _ h

end Words

namespace Pipeline

theorem singleTarget_cases {c : Command} {target : SingleTarget}
    (h : singleTarget c = .ok target) : target = .random ∨ ∃ r, target = .route r := by
  obtain ⟨routing, hrouting, h⟩ := exists_of_bind_ok h
  cases routing with
  | single t =>
    cases h
    exact Words.routing_single hrouting
  | multi t policy => cases h

/-- The targets that name a slot, each with its master. -/
def keyed (targets : List SingleTarget) : List SingleTarget :=
  (targets.filter (· ≠ .random)).map masterTarget

theorem exists_command_of_mem {commands : List Command} {targets : List SingleTarget}
    (h : Pipeline.targets commands = .ok targets) {target : SingleTarget}
    (hmem : target ∈ targets) : ∃ c ∈ commands, singleTarget c = .ok target := by
  obtain ⟨i, hi, rfl⟩ := List.mem_iff_getElem.mp hmem
  have hroutes := forall₂_targets h
  have hlt : i < commands.length := by rwa [hroutes.length_eq]
  exact ⟨commands[i], List.getElem_mem hlt, (List.forall₂_iff_get.mp hroutes).2 i hlt hi⟩

theorem keyed_master {commands : List Command} {targets : List SingleTarget}
    (h : Pipeline.targets commands = .ok targets) :
    ∀ target ∈ keyed targets, ∃ slot, target = .route ⟨slot, .master⟩ := by
  intro master hmaster
  obtain ⟨target, htarget, rfl⟩ := List.mem_map.mp hmaster
  obtain ⟨htarget, hkeyed⟩ := List.mem_filter.mp htarget
  obtain ⟨c, -, hroute⟩ := exists_command_of_mem h htarget
  obtain rfl | ⟨r, rfl⟩ := singleTarget_cases hroute
  · simp at hkeyed
  · exact ⟨r.slot, rfl⟩

/-- The master of the first target that names a slot. Without one, any master. -/
def goal (targets : List SingleTarget) : SingleTarget := (keyed targets).head?.getD .randomMaster

end Pipeline

/-! ## Masters -/

/-- The node is the master for the target, as the registry has it. A slot without an owner is left
to any known node, if gaps are allowed. -/
inductive Registry.Leads (reg : Registry) (node : Node) : SingleTarget → Prop
  | owner {slot : UInt16} {owners : SlotOwners} (owned : reg.slots.get? slot = some owners)
      (primary : node = owners.primary) : Leads reg node (.route ⟨slot, .master⟩)
  | known {slot : UInt16} {nodes : List Node} (unowned : reg.slots.get? slot = none)
      (gaps : reg.coverageRequired = false) (nodes_ : reg.anyNode = .ok nodes)
      (member : node ∈ nodes) : Leads reg node (.route ⟨slot, .master⟩)
  | master (member : node ∈ reg.allMasters) : Leads reg node .randomMaster

theorem Registry.leads_of_resolve {reg : Registry} {nodes : List Node} {node : Node}
    {target : SingleTarget}
    (htarget : target = .randomMaster ∨ ∃ slot, target = .route ⟨slot, .master⟩)
    (h : reg.resolve target = .ok nodes) (hnode : node ∈ nodes) : reg.Leads node target := by
  obtain rfl | ⟨slot, rfl⟩ := htarget
  · simp only [resolve] at h
    split at h
    · cases h
    · cases h
      exact .master hnode
  · have hmaster : reg.masterOf slot = .ok nodes := h
    unfold masterOf at hmaster
    split at hmaster
    · next owners howned =>
      cases hmaster
      exact .owner howned (List.mem_singleton.mp hnode)
    · next howned =>
      unfold unowned at hmaster
      split at hmaster
      · cases hmaster
      · next hgaps => exact .known howned (by simpa using hgaps) hmaster hnode

variable {σ : Type}

/-- In these events the node was found to be the master for the target. -/
def LeadsIn (target : SingleTarget) (es : List (Event σ)) (node : Node) : Prop :=
  ∃ task c rest, es = ⟨task, .registry, c⟩ :: rest ∧ c.registry.Leads node target

/-- In these events the slot of the target had this owner. -/
def OwnedIn (target : SingleTarget) (es : List (Event σ)) (owner : Node) : Prop :=
  ∃ task c rest slot owners, es = ⟨task, .registry, c⟩ :: rest ∧
    target = .route ⟨slot, .master⟩ ∧ c.registry.slots.get? slot = some owners ∧
    owner = owners.primary

theorem leadsIn_of_looks {target : SingleTarget}
    (htarget : target = .randomMaster ∨ ∃ slot, target = .route ⟨slot, .master⟩)
    {es : List (Event σ)} {node : Node}
    (h : Looks (fun reg => reg.resolve target) es (.ok node)) : LeadsIn target es node := by
  obtain ⟨task, c, rest, rfl, h⟩ := h
  refine ⟨task, c, rest, rfl, ?_⟩
  simp only at h
  cases hresolve : c.registry.resolve target with
  | error f =>
    rw [hresolve] at h
    cases h.2
  | ok nodes =>
    rw [hresolve] at h
    obtain ⟨task', c', -, found, hfound, heq⟩ := h
    cases heq
    exact Registry.leads_of_resolve htarget hresolve hfound

namespace Pipeline

open SlotCluster.Action

/-! ## The common master -/

/-- A master was found for each target, and all have one name. -/
structure Agreed (targets : List SingleTarget) (lookups : List (Lookup σ)) : Prop where
  found : List.Forall₂ (fun target l => LeadsIn target l.events l.node) targets lookups
  same : ∀ l ∈ lookups, ∀ l' ∈ lookups, l.node.name = l'.node.name

/-- The first target whose master has another name, or that has none. -/
inductive Divided (targets : List SingleTarget) : List (Event σ) → Fault → Prop
  | apart {before after : List SingleTarget} {target : SingleTarget} {lookups : List (Lookup σ)}
      {first last : Lookup σ} (targets_ : targets = before ++ target :: after)
      (agreed : Agreed before lookups) (first_ : lookups.head? = some first)
      (last_ : LeadsIn target last.events last.node)
      (differ : first.node.name ≠ last.node.name) :
      Divided targets (lookups.flatMap Lookup.events ++ last.events)
        (.transactionOverNodes first.node.name last.node.name)
  | nowhere {before after : List SingleTarget} {target : SingleTarget}
      {lookups : List (Lookup σ)} {es : List (Event σ)} {f : Fault}
      (targets_ : targets = before ++ target :: after) (agreed : Agreed before lookups)
      (fails : Looks (fun reg => reg.resolve target) es (.error f)) :
      Divided targets (lookups.flatMap Lookup.events ++ es) f

theorem Agreed.concat {targets : List SingleTarget} {lookups : List (Lookup σ)}
    (h : Agreed targets lookups) {target : SingleTarget} {l : Lookup σ}
    (found : LeadsIn target l.events l.node)
    (hname : ∀ l' ∈ lookups, l'.node.name = l.node.name) :
    Agreed (targets ++ [target]) (lookups ++ [l]) := by
  refine ⟨List.rel_append h.found (.cons found .nil), ?_⟩
  simp only [List.mem_append, List.mem_singleton]
  rintro a (ha | rfl) b (hb | rfl)
  · exact h.same a ha b hb
  · exact hname a ha
  · exact (hname b hb).symm
  · rfl

theorem keyed_cons {target : SingleTarget} {rest : List SingleTarget} (h : target ≠ .random) :
    keyed (target :: rest) = masterTarget target :: keyed rest := by
  simp [keyed, h]

variable [Transport σ]

/-- What was found is the first of the targets that are done, with its master. -/
structure Begun (found : Option (Node × SingleTarget)) (done : List SingleTarget)
    (lookups : List (Lookup σ)) : Prop where
  agreed : Agreed done lookups
  node : found.map Prod.fst = lookups.head?.map Lookup.node
  target : found.map Prod.snd = done.head?

theorem Begun.joins_or_parts {found : Option (Node × SingleTarget)} {done : List SingleTarget}
    {lookups : List (Lookup σ)} (h : Begun found done lookups) {target : SingleTarget}
    {l : Lookup σ} (hleads : LeadsIn target l.events l.node) {rest : List SingleTarget}
    {es : List (Event σ)} {r : Except Fault SingleTarget}
    (hruns : Runs (match found with
      | none => commonTarget (some (l.node, target)) rest
      | some (first, _) =>
        if first.name = l.node.name then commonTarget found rest
        else throw (.transactionOverNodes first.name l.node.name)) es r) :
    (∃ next, Begun next (done ++ [target]) (lookups ++ [l]) ∧ Runs (commonTarget next rest) es r) ∨
      ∃ first : Lookup σ, lookups.head? = some first ∧ first.node.name ≠ l.node.name ∧ es = [] ∧
        r = .error (.transactionOverNodes first.node.name l.node.name) := by
  have hnode := h.node
  cases lookups with
  | nil =>
    have hnone : done = [] := List.forall₂_nil_right_iff.mp h.agreed.found
    obtain rfl : found = none := by simpa using hnode
    subst hnone
    exact .inl ⟨_, ⟨h.agreed.concat hleads (by simp), rfl, rfl⟩, hruns⟩
  | cons first others =>
    obtain ⟨⟨_, t⟩, rfl, rfl⟩ := Option.map_eq_some_iff.mp hnode
    simp only at hruns
    split at hruns
    · next hname =>
      refine .inl ⟨_, ⟨h.agreed.concat hleads ?_, rfl, ?_⟩, hruns⟩
      · intro l' hl'
        rw [h.agreed.same l' hl' first (by simp), hname]
      · rw [h.target, List.head?_append, ← h.target]
        rfl
    · next hname =>
      obtain ⟨rfl, rfl⟩ := runs_throw_iff.mp hruns
      exact .inr ⟨first, rfl, hname, rfl, rfl⟩

theorem runs_commonTarget {found : Option (Node × SingleTarget)} {targets : List SingleTarget}
    (hmaster : ∀ target ∈ keyed targets, ∃ slot, target = .route ⟨slot, .master⟩)
    {done : List SingleTarget} {lookups : List (Lookup σ)} (hbegun : Begun found done lookups)
    {es : List (Event σ)} {r : Except Fault SingleTarget}
    (h : Runs (commonTarget found targets) es r) :
    (∃ f, Divided (done ++ keyed targets) (lookups.flatMap Lookup.events ++ es) f ∧
        r = .error f) ∨
      ∃ more : List (Lookup σ), es = more.flatMap Lookup.events ∧
        Agreed (done ++ keyed targets) (lookups ++ more) ∧
        r = .ok ((done ++ keyed targets).head?.getD .randomMaster) := by
  -- On the targets that are left.
  induction targets generalizing found done lookups es with
  | nil =>
    obtain ⟨rfl, rfl⟩ := runs_pure_iff.mp h
    refine .inr ⟨[], rfl, by simpa [keyed] using hbegun.agreed, ?_⟩
    rw [hbegun.target]
    simp [keyed]
  | cons target rest ih =>
    by_cases hrandom : target = .random
    · subst hrandom
      exact ih hmaster hbegun h
    rw [keyed_cons hrandom] at hmaster ⊢
    rw [commonTarget_cons hrandom, runs_bind_iff] at h
    obtain ⟨f, hresolve, rfl⟩ | ⟨node, es₁, es₂, rfl, hresolve, hrest⟩ := h
    · exact .inl ⟨f, .nowhere rfl hbegun.agreed (runs_resolve hresolve), rfl⟩
    have hleads :
        LeadsIn (masterTarget target) (Lookup.mk es₁ node).events (Lookup.mk es₁ node).node :=
      leadsIn_of_looks (.inr (hmaster _ (by simp))) (runs_resolve hresolve)
    have hmore : ∀ t ∈ keyed rest, ∃ slot, t = .route ⟨slot, .master⟩ :=
      fun t ht => hmaster t (by simp [ht])
    obtain ⟨next, hnext, hruns⟩ | ⟨first, hfirst, hname, rfl, rfl⟩ :=
      hbegun.joins_or_parts hleads hrest
    · have hjoined := ih hmore hnext hruns
      simp only [List.append_assoc, List.singleton_append, List.flatMap_append, List.flatMap_cons,
        List.flatMap_nil, List.append_nil] at hjoined
      obtain hdivided | ⟨more, rfl, hagreed, rfl⟩ := hjoined
      · exact .inl hdivided
      · exact .inr ⟨⟨es₁, node⟩ :: more, rfl, hagreed, rfl⟩
    · refine .inl ⟨_, ?_, rfl⟩
      rw [List.append_nil]
      exact .apart rfl hbegun.agreed hfirst hleads hname

end Pipeline

/-! ## What an attempt writes -/

variable [Transport σ]

theorem Cue.Prepares.upkeep {s : Settings} {cue : Cue} {es : List (Event σ)}
    (h : cue.Prepares s es) : ∀ e ∈ es, e.request.IsUpkeep := by
  have hpause : (es = [] ∨ ∃ task c duration, es = [⟨task, .sleep duration, c⟩]) →
      ∀ e ∈ es, e.request.IsUpkeep := by
    rintro (rfl | ⟨task, c, duration, rfl⟩)
    · simp
    · simp [Request.IsUpkeep]
  cases cue with
  | moved m => exact (Discovery.patchMovedSlot_upkeep s m).of_runs h
  | route | random | ask m => exact hpause h

namespace Trial

variable {s : Settings} {commands : List Command} {target : SingleTarget} {t : Trial σ}

theorem Ends.upkeep {spent : Prop} {result : Except Fault (List Reply)}
    (h : t.Ends s spent result) : ∀ e ∈ t.aftermath, e.request.IsUpkeep := by
  cases h with
  | final h gives quiet =>
    obtain hnone | ⟨i, c, i', c', hreset⟩ := quiet
    · rw [hnone]
      simp
    · rw [hreset]
      simp [Request.IsUpkeep]
  | unpatched h hpatch => exact (Discovery.patchMovedSlot_upkeep s _).of_runs hpatch
  | spent h hf hprepares all => exact hprepares.upkeep

/-- All the commands are written in one go, after `ASKING` if the cue says so, or none of them. -/
structure WritesWhole (commands : List Command) (t : Trial σ) : Prop where
  lookup : ∀ e ∈ t.lookup, e.request.LooksUp
  contact : ((∃ f, t.outcome = .error f) ∧
      (written t.contact = [] ∨ written t.contact = [[Command.readOnly]])) ∨
    written t.contact = [batchOf t.cue.isAsking commands] ∨
    written t.contact = [[Command.readOnly], batchOf t.cue.isAsking commands]
  aftermath : ∀ e ∈ t.aftermath, e.request.IsUpkeep

theorem Goes.length_eq (h : t.Goes commands target) {replies : List Reply}
    (houtcome : t.outcome = .ok replies) : replies.length = commands.length := by
  cases h with
  | nowhere hfinds hcontact hfails =>
    rw [hfails] at houtcome
    cases houtcome
  | @there node raw hfinds hcontact hraw =>
    cases raw with
    | error f =>
      rw [hraw] at houtcome
      cases houtcome
    | ok all =>
      rw [hraw] at houtcome
      cases houtcome
      have hlength := hcontact.length_eq
      cases hasking : t.cue.isAsking
      all_goals
        rw [hasking] at hlength
        simp only [batchOf] at hlength
        simp [repliesOf, hlength]

end Trial

theorem Trial.Before.asks_iff {s : Settings} {t next : Trial σ} (h : t.Before s next) :
    next.cue.isAsking = true ↔ ∃ detail m, Attempt.Faces t.outcome (.server (.known .ask detail)) ∧
      (ServerError.known .ask detail).PointsTo m := by
  obtain ⟨hfollows, -⟩ := h
  rw [hfollows.isAsking_iff]
  constructor
  · rintro ⟨detail, hask⟩
    obtain ⟨f, hf, hcue⟩ := hfollows
    obtain rfl := hask.unique hf
    generalize next.cue = cue at hcue
    cases hcue with
    | asks hpoints => exact ⟨detail, _, hask, hpoints⟩
  · rintro ⟨detail, m, hask, -⟩
    exact ⟨detail, hask⟩

namespace Pipeline

open SlotCluster.Action

/-! ## Results -/

inductive ExecGives : Reply → Except Fault (List (Except Fault Reply)) → Prop
  | array {items : List Reply} {results : List (Except Fault Reply)}
      (each : List.Forall₂ Reply.Yields items results) : ExecGives (.array items) (.ok results)
  | nil : ExecGives .nil (.ok [])
  | error (e : ServerError) : ExecGives (.error e) (.error (.server e))
  | other {r : Reply} (array_ : ∀ items, r ≠ .array items) (nil_ : r ≠ .nil)
      (error_ : ∀ e, r ≠ .error e) : ExecGives r (.error (invalidExecReply (some r)))

/-- A transaction that was sent ends with the fault of its last attempt, or with what the last
reply of that attempt gives. -/
inductive Concludes (trials : List (Trial σ)) :
    Except Fault (List Reply) → Except Fault (List (Except Fault Reply)) → Prop
  | failed (f : Fault) : Concludes trials (.error f) (.error f)
  | executed {t : Trial σ} {replies : List Reply} {exec : Reply}
      {r : Except Fault (List (Except Fault Reply))} (last : trials.getLast? = some t)
      (outcome_ : t.outcome = .ok replies) (exec_ : replies.getLast? = some exec)
      (gives : ExecGives exec r) : Concludes trials (.ok replies) r

/-! ## Whole transactions -/

def bracketed (commands : List Command) : List Command :=
  Command.multi :: commands ++ [Command.exec]

/-- The attempts of a transaction. Each writes all of it or nothing, and the first goes to the
master that the registry has at that time. -/
structure Attempted (s : Settings) (commands : List Command) (target : SingleTarget)
    (trials : List (Trial σ)) (es : List (Event σ)) (result : Except Fault (List Reply)) :
    Prop where
  tried : Tried s (bracketed commands) target s.attempts .route es result trials
  whole : ∀ t ∈ trials, t.WritesWhole (bracketed commands)
  asks : trials.IsChain fun t next => next.cue.isAsking = true ↔ ∃ detail m,
    Attempt.Faces t.outcome (.server (.known .ask detail)) ∧
      (ServerError.known .ask detail).PointsTo m
  first : ∀ t ∈ trials.head?, t.cue = .route ∧
    (t.contact = [] ∨ ∃ node raw, LeadsIn target t.lookup node ∧
      Contact node.name (bracketed commands) t.contact raw)

/-- If the slot has an owner by now, the attempt goes there, and the lookups have found this owner's
name for every target. -/
def Joins (commands : List Command) (target : SingleTarget) (lookups : List (Lookup σ))
    (t : Trial σ) : Prop :=
  ∀ owner, OwnedIn target t.lookup owner →
    (∃ raw, Contact owner.name (bracketed commands) t.contact raw) ∧
      ∀ l ∈ lookups, l.node.name = owner.name

/-- The attempt goes to the owner that the slot has by now. If it is the one that was looked up, it
has the name of all the others. -/
def JoinsKept (commands : List Command) (target : SingleTarget) (lookups : List (Lookup σ))
    (t : Trial σ) : Prop :=
  ∀ owner, OwnedIn target t.lookup owner →
    (∃ raw, Contact owner.name (bracketed commands) t.contact raw) ∧
      ((∀ l ∈ lookups.head?, OwnedIn target l.events owner) →
        ∀ l ∈ lookups, l.node.name = owner.name)

/-- What may come of a transaction. The first attempt stands in a relation to the lookups. -/
inductive InOne (s : Settings) (commands : List Command)
    (first : SingleTarget → List (Lookup σ) → Trial σ → Prop) :
    List (Event σ) → Except Fault (List (Except Fault Reply)) → Prop
  | empty (none_ : commands = []) : InOne s commands first [] (.ok [])
  /-- No node was looked up yet. -/
  | stopped {es : List (Event σ)} {f : Fault} (h : Stopped s commands es f)
      (upkeep : ∀ e ∈ es, e.request.IsUpkeep) : InOne s commands first es (.error f)
  /-- Its commands have no common master. -/
  | divided {targets : List SingleTarget} {refresh es : List (Event σ)} {f : Fault}
      (targets_ : Pipeline.targets commands = .ok targets)
      (refresh_ : Runs (Discovery.refreshIfNeeded s) refresh (.ok ()))
      (upkeep : ∀ e ∈ refresh, e.request.IsUpkeep) (divided_ : Divided (keyed targets) es f)
      (quiet : ∀ e ∈ es, e.request.LooksUp) : InOne s commands first (refresh ++ es) (.error f)
  /-- Its commands have a common master, but no attempt is allowed. -/
  | unattempted {targets : List SingleTarget} {refresh : List (Event σ)}
      {lookups : List (Lookup σ)} (targets_ : Pipeline.targets commands = .ok targets)
      (refresh_ : Runs (Discovery.refreshIfNeeded s) refresh (.ok ()))
      (upkeep : ∀ e ∈ refresh, e.request.IsUpkeep) (agreed : Agreed (keyed targets) lookups)
      (quiet : ∀ e ∈ lookups.flatMap Lookup.events, e.request.LooksUp) (none_ : s.attempts = 0) :
      InOne s commands first (refresh ++ lookups.flatMap Lookup.events) (.error .noAttemptMade)
  | sent {targets : List SingleTarget} {refresh es : List (Event σ)} {lookups : List (Lookup σ)}
      {trials : List (Trial σ)} {result : Except Fault (List Reply)}
      {r : Except Fault (List (Except Fault Reply))}
      (targets_ : Pipeline.targets commands = .ok targets)
      (refresh_ : Runs (Discovery.refreshIfNeeded s) refresh (.ok ()))
      (upkeep : ∀ e ∈ refresh, e.request.IsUpkeep) (agreed : Agreed (keyed targets) lookups)
      (quiet : ∀ e ∈ lookups.flatMap Lookup.events, e.request.LooksUp)
      (attempted : Attempted s commands (goal targets) trials es result)
      (joins : ∀ t ∈ trials.head?, first (goal targets) lookups t)
      (concludes : Concludes trials result r) :
      InOne s commands first (refresh ++ (lookups.flatMap Lookup.events ++ es)) r

theorem runs_commonTarget_none {commands : List Command} {targets : List SingleTarget}
    (htargets : Pipeline.targets commands = .ok targets) {es : List (Event σ)}
    {r : Except Fault SingleTarget} (h : Runs (commonTarget none targets) es r) :
    (∃ f, Divided (keyed targets) es f ∧ r = .error f) ∨
      ∃ lookups : List (Lookup σ), es = lookups.flatMap Lookup.events ∧
        Agreed (keyed targets) lookups ∧ r = .ok (goal targets) := by
  have hnone : Agreed ([] : List SingleTarget) ([] : List (Lookup σ)) := ⟨.nil, by simp⟩
  exact runs_commonTarget (keyed_master htargets) ⟨hnone, rfl, rfl⟩ h

/-! ### The first attempt -/

/-- A client on its own finds the registry in the first attempt as it was in the lookups. -/
theorem JoinsKept.joins {commands : List Command} {targets : List SingleTarget}
    {lookups : List (Lookup σ)} {t : Trial σ} (h : JoinsKept commands (goal targets) lookups t)
    (hagreed : Agreed (keyed targets) lookups)
    (hquiet : ∀ e ∈ lookups.flatMap Lookup.events, e.request.LooksUp) {c c' : Client σ}
    {later : List (Event σ)}
    (hc : c.Unbroken (lookups.flatMap Lookup.events ++ (t.lookup ++ later)) c') :
    Joins commands (goal targets) lookups t := by
  intro owner howned
  refine ⟨(h owner howned).1, (h owner howned).2 fun l hl => ?_⟩
  obtain ⟨task, d, rest, slot, owners, hlookup, hgoal, hslot, rfl⟩ := howned
  obtain ⟨others, rfl⟩ : ∃ others, lookups = l :: others := by
    cases lookups with
    | nil => cases hl
    | cons first others => cases hl; exact ⟨others, rfl⟩
  obtain ⟨target, _, ⟨task', d', rest', hes, -⟩, -, -⟩ :=
    List.forall₂_cons_right_iff.mp hagreed.found
  obtain ⟨c₂, hbefore, hafter⟩ := Client.unbroken_append_iff.mp hc
  have hsame := hbefore.registry_eq fun e he => (hquiet e he).isPlain
  rw [List.flatMap_cons, hes] at hbefore
  rw [hlookup] at hafter
  obtain rfl : d' = c := (Client.unbroken_cons_iff.mp hbefore).1
  obtain rfl : d = c₂ := (Client.unbroken_cons_iff.mp hafter).1
  exact ⟨task', d', rest', slot, owners, hes, hgoal, by rw [← hsame]; exact hslot, rfl⟩

/-! ### All of it -/

theorem InOne.alone {s : Settings} {commands : List Command} {es : List (Event σ)}
    {r : Except Fault (List (Except Fault Reply))} (h : InOne s commands (JoinsKept commands) es r)
    {c c' : Client σ} (hc : c.Unbroken es c') : InOne s commands (Joins commands) es r := by
  cases h with
  | empty hnone => exact .empty hnone
  | stopped hstopped hupkeep => exact .stopped hstopped hupkeep
  | divided htargets hrefresh hupkeep hdivided hquiet =>
    exact .divided htargets hrefresh hupkeep hdivided hquiet
  | unattempted htargets hrefresh hupkeep hagreed hquiet hzero =>
    exact .unattempted htargets hrefresh hupkeep hagreed hquiet hzero
  | @sent _ refresh es lookups trials _ _ htargets hrefresh hupkeep hagreed hquiet hattempted hjoins
      hconcludes =>
    refine .sent htargets hrefresh hupkeep hagreed hquiet hattempted (fun t ht => ?_) hconcludes
    obtain ⟨d, -, hafter⟩ := Client.unbroken_append_iff.mp hc
    obtain ⟨later, hes⟩ : ∃ later, es = t.lookup ++ later := by
      obtain ⟨rest, rfl⟩ := List.head?_eq_some_iff.mp ht
      refine ⟨t.contact ++ t.aftermath ++ rest.flatMap Trial.events, ?_⟩
      rw [hattempted.tried.events, List.flatMap_cons, Trial.events]
      simp only [List.append_assoc]
    rw [hes] at hafter
    exact (hjoins t ht).joins hagreed hquiet hafter

end Pipeline

end SlotCluster
