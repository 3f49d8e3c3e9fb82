import SlotCluster.Proofs.Canned
import SlotCluster.Proofs.CommandNames
import SlotCluster.Proofs.OperationUses
import SlotCluster.Proofs.Upkeep

/-!
# Refused commands

Some commands a cluster cannot serve. None of them is ever written to a node, whichever way it came
in and in whatever letter case, but for the `MULTI` and the `EXEC` around a transaction. An
operation that holds a command that is refused does nothing at all: it has its answer before its
first request.
-/

namespace SlotCluster

/-! ## Blocked commands -/

namespace Command

/-- The command is one that no cluster serves, in any letter case. -/
def IsBlocked : Command → Prop
  | [] => False
  | [first] => first.upper ∈ CommandTable.blocked
  | first :: second :: _ =>
    first.upper ∈ CommandTable.blocked ∨ first.upper ++ 32 :: second.upper ∈ CommandTable.blocked

instance : DecidablePred IsBlocked
  | [] => .isFalse id
  | [first] => inferInstanceAs (Decidable (first.upper ∈ CommandTable.blocked))
  | first :: second :: _ =>
    inferInstanceAs (Decidable (first.upper ∈ CommandTable.blocked ∨
      first.upper ++ 32 :: second.upper ∈ CommandTable.blocked))

open CommandTable Words

theorem isBlocked_iff (first : Bytes) (rest : Command) :
    ∃ name, name? (Routable.words (first :: rest : Command)) = some name ∧
      (IsBlocked (first :: rest) ↔ first.upper ∈ blocked ∨ name ∈ blocked) := by
  have hfirst : word? (Routable.words (first :: rest : Command)) 0 = some first := rfl
  by_cases hcontainer : first.upper ∈ containers
  · cases rest with
    | nil =>
      have hsecond : word? (Routable.words ([first] : Command)) 1 = none := rfl
      exact ⟨first.upper, by simp [name?_eq, hfirst, hsecond], by simp [IsBlocked]⟩
    | cons second rest =>
      have hsecond : word? (Routable.words (first :: second :: rest : Command)) 1 = some second :=
        rfl
      exact ⟨_, by simp [name?_eq, hfirst, hcontainer, hsecond], Iff.rfl⟩
  · refine ⟨first.upper, by simp [name?_eq, hfirst, hcontainer], ?_⟩
    cases rest with
    | nil => simp [IsBlocked]
    | cons second rest =>
      have htwo : first.upper ++ 32 :: second.upper ∉ blocked := fun hblocked =>
        hcontainer (container_of_isBlocked (by simpa [isBlocked] using hblocked))
      simp [IsBlocked, htwo]

theorem isBlocked_iff_checkedName (c : Command) :
    c.IsBlocked ↔ ∃ name, checkedName (Routable.words c) = .error (.blockedCommand name) := by
  cases c with
  | nil =>
    refine ⟨False.elim, ?_⟩
    rintro ⟨name, hname⟩
    cases hname
  | cons first rest =>
    obtain ⟨name, hname, hblocked⟩ := isBlocked_iff first rest
    have hfirst : word? (Routable.words (first :: rest : Command)) 0 = some first := rfl
    rw [hblocked, checkedName, hfirst, hname]
    by_cases hone : first.upper ∈ blocked
    · simp [isBlocked, hone]
    · by_cases htwo : name ∈ blocked <;> simp [isBlocked, hone, htwo]

theorem not_isBlocked_of_checkedName {c : Command} {name : Bytes}
    (h : checkedName (Routable.words c) = .ok name) : ¬ c.IsBlocked := by
  intro hblocked
  obtain ⟨blocked, hrefused⟩ := c.isBlocked_iff_checkedName.mp hblocked
  cases h.symm.trans hrefused

end Command

/-! ## What an operation may send -/

namespace Operation

/-- The operation is a transaction, and these are its commands in their frame. -/
def Frames (op : Operation) (commands : List Command) : Prop :=
  ∃ p asking, (op = .query p ∨ ∃ raise, op = .pipeline p raise) ∧ p.transaction = true ∧
    commands = batchOf asking (Command.multi :: p.commands ++ [Command.exec]) ∧
      ∀ c ∈ p.commands, ¬ c.IsBlocked

def MaySend (op : Operation) (commands : List Command) : Prop :=
  (∀ c ∈ commands, ¬ c.IsBlocked) ∨ op.Frames commands

end Operation

namespace Pipeline

theorem singleTarget_eq (c : Command) :
    singleTarget c = match Routing.of c with
      | .ok (.single target) => .ok target
      | .ok (.multi _ _) => .error (.notInPipeline ((c.headD []).lossy.map Char.toUpper))
      | .error f => .error f := by
  unfold singleTarget
  rcases Routing.of c with f | (target | ⟨t, policy⟩) <;> rfl

theorem checkedName_of_singleTarget {c : Command} {target : SingleTarget}
    (h : singleTarget c = .ok target) :
    ∃ name, Words.checkedName (Routable.words c) = .ok name := by
  cases hname : Words.checkedName (Routable.words c) with
  | ok name => exact ⟨name, rfl⟩
  | error f =>
    have hrouting : Routing.of c = .error f := by rw [Routing.of, Words.routing, hname]; rfl
    rw [singleTarget_eq, hrouting] at h
    cases h

theorem not_isBlocked_of_targets {commands : List Command} {targets : List SingleTarget}
    (h : Pipeline.targets commands = .ok targets) : ∀ c ∈ commands, ¬ c.IsBlocked := by
  intro c hc
  obtain ⟨i, hi, rfl⟩ := List.mem_iff_getElem.mp hc
  have hroutes := forall₂_targets h
  have hlt : i < targets.length := hroutes.length_eq ▸ hi
  obtain ⟨name, hname⟩ :=
    checkedName_of_singleTarget ((List.forall₂_iff_get.mp hroutes).2 i hi hlt)
  exact Command.not_isBlocked_of_checkedName hname

end Pipeline

/-- What is written is `sent`. -/
def Request.Writes (sent : List Command → Prop) : Request → Prop
  | .write _ commands => sent commands
  | _ => True

namespace Operation

theorem forall_batchOf {P : Command → Prop} (hasking : P Command.asking) {commands : List Command}
    (h : ∀ c ∈ commands, P c) (asking : Bool) : ∀ c ∈ batchOf asking commands, P c := by
  cases asking with
  | true => exact List.forall_mem_cons.mpr ⟨hasking, h⟩
  | false => exact h

theorem sends_unblocked (op : Operation) : op.Sends op.MaySend := by
  have hasking : ¬ Command.asking.IsBlocked := by decide +kernel
  have hone : ∀ {c : Command}, ¬ c.IsBlocked → ∀ asking, op.MaySend (batchOf asking [c]) :=
    fun hc asking => .inl (forall_batchOf hasking (by simpa using hc) asking)
  have hcommand : ∀ {c : Command} (name : Bytes), Words.checkedName (Routable.words c) = .ok name →
      ∀ asking, op.MaySend (batchOf asking [c]) :=
    fun _ hname => hone (Command.not_isBlocked_of_checkedName hname)
  have hpipeline : ∀ p : Pipeline, (op = .query p ∨ ∃ raise, op = .pipeline p raise) →
      p.Sends op.MaySend := by
    intro p hop targets htargets
    have hall := Pipeline.not_isBlocked_of_targets htargets
    split
    · next htransaction => exact fun asking => .inr ⟨p, asking, hop, htransaction, rfl, hall⟩
    · exact ⟨fun part hpart => .inl fun c hc => hall c (hpart hc), fun c hc => hone (hall c hc)⟩
  cases op with
  | execute c | route c routing => exact hcommand
  | pipeline p raise => exact hpipeline p (.inr ⟨raise, rfl⟩)
  | query p => exact hpipeline p (.inl rfl)
  | refresh | reset => trivial

theorem admits_writes (op : Operation) :
    Request.AdmitsSending (Request.Writes op.MaySend) op.MaySend where
  others {r} _ hwritten := by
    cases r with
    | write => cases hwritten
    | _ => trivial
  writes h := h
  greeting := .inl (by decide +kernel)
  discovery s := by
    refine (Discovery.admits_upkeep.discovery s).mono fun r hr => ?_
    cases r with
    | write link commands =>
      refine .inl ?_
      obtain rfl | rfl := hr <;> decide +kernel
    | _ => trivial

end Operation

theorem Operation.writes_unblocked (s : Settings) (op : Operation) :
    (op.task s).Uses (Request.Writes op.MaySend) :=
  Operation.task_sends op.admits_writes s op.sends_unblocked

/-! ## What is refused -/

/-- The first command that has no single target is refused, and the pipeline with it. -/
def Pipeline.Rejects (p : Pipeline) (f : Fault) : Prop :=
  ∃ front c rest, p.commands = front ++ c :: rest ∧
    (∀ d ∈ front, ∃ target, Routing.of d = .ok (.single target)) ∧
    (Routing.of c = .error f ∨ ∃ t policy, Routing.of c = .ok (.multi t policy) ∧
      f = .notInPipeline ((c.headD []).lossy.map Char.toUpper))

theorem Pipeline.targets_of_rejects {p : Pipeline} {f : Fault} (h : p.Rejects f) :
    Pipeline.targets p.commands = .error f := by
  obtain ⟨front, c, rest, hcommands, hfront, hc⟩ := h
  rw [hcommands]
  clear hcommands
  induction front with
  | nil =>
    have hsingle : singleTarget c = .error f := by
      rw [singleTarget_eq]
      obtain hc | ⟨t, policy, hc, rfl⟩ := hc <;> rw [hc]
    simp only [List.nil_append, targets, hsingle]
    rfl
  | cons d front ih =>
    obtain ⟨target, htarget⟩ := hfront d (by simp)
    have hsingle : singleTarget d = .ok target := by rw [singleTarget_eq, htarget]
    simp only [List.cons_append, targets, hsingle, ih fun d hd => hfront d (by simp [hd])]
    rfl

theorem Pipeline.exists_rejects {p : Pipeline} {c : Command} (hc : c ∈ p.commands)
    (hnone : ∀ target, Routing.of c ≠ .ok (.single target)) : ∃ f, p.Rejects f := by
  classical
  let spread (d : Command) : Bool := decide (∀ target, Routing.of d ≠ .ok (.single target))
  cases hfind : p.commands.find? spread with
  | none => exact absurd (decide_eq_true hnone) (List.find?_eq_none.mp hfind c hc)
  | some d =>
    obtain ⟨hd, front, rest, hcommands, hfront⟩ := List.find?_eq_some_iff_append.mp hfind
    have hfront' : ∀ e ∈ front, ∃ target, Routing.of e = .ok (.single target) :=
      fun e he => by simpa [spread] using hfront e he
    cases hrouting : Routing.of d with
    | error f => exact ⟨f, front, d, rest, hcommands, hfront', .inl hrouting⟩
    | ok routing =>
      cases routing with
      | single target => exact absurd hrouting (of_decide_eq_true hd target)
      | multi t policy =>
        exact ⟨_, front, d, rest, hcommands, hfront', .inr ⟨t, policy, hrouting, rfl⟩⟩

namespace Operation

inductive Rejects : Operation → Fault → Prop
  | execute {c : Command} {f : Fault} (h : Routing.of c = .error f) : Rejects (.execute c) f
  | route {c : Command} {routing : Routing} {f : Fault}
    (h : Words.checkedName (Routable.words c) = .error f) : Rejects (.route c routing) f
  | pipeline {p : Pipeline} {raise : Bool} {f : Fault} (h : p.Rejects f) :
    Rejects (.pipeline p raise) f
  | query {p : Pipeline} {f : Fault} (h : p.Rejects f) : Rejects (.query p) f

/-- The answer that consists of a fault. -/
def failed (f : Fault) : Operation → Answer
  | execute _ | route _ _ => .reply (.error f)
  | pipeline _ _ => .results (.error f)
  | query _ => .replies (.error f)
  | refresh | reset => .done (.error f)

theorem task_of_rejects {op : Operation} {f : Fault} (h : op.Rejects f) (s : Settings) :
    op.task s = .done (op.failed f) := by
  have hrun : ∀ {p : Pipeline}, p.Rejects f → (p.run s).run = .done (.error f) := by
    intro p hp
    have hsome : p.isEmpty = false := by
      obtain ⟨front, c, rest, hcommands, -⟩ := hp
      simp [Pipeline.isEmpty, hcommands]
    simp only [Pipeline.run, hsome, Pipeline.targets_of_rejects hp]
    rfl
  have hquery : ∀ {p : Pipeline}, p.Rejects f → (p.query s).run = .done (.error f) := by
    intro p hp
    change Task.bind (p.run s).run _ = _
    rw [hrun hp]
    rfl
  cases h with
  | execute h => simp only [task, Dispatch.execute, h]; rfl
  | route h => simp only [task, Dispatch.routeCommand, h]; rfl
  | @pipeline p raise _ h =>
    cases raise with
    | true =>
      change Task.bind (p.query s).run _ = _
      rw [hquery h]
      rfl
    | false =>
      change Task.bind (p.run s).run _ = _
      rw [hrun h]
      rfl
  | @query p _ h =>
    change Task.bind (p.query s).run _ = _
    rw [hquery h]
    rfl

end Operation

/-! ## Courses -/

namespace Task

variable {σ α : Type} [Transport σ] {t t' : Task α} {es : List (Event σ)}

theorem Path.uses {allowed : Request → Prop} (h : Path t es t') (ht : t.Uses allowed) :
    t'.Uses allowed ∧ ∀ e ∈ es, allowed e.request := by
  induction h with
  | refl => exact ⟨ht, by simp⟩
  | answer _ asks ih =>
    obtain ⟨hallowed, hnext⟩ := ih.1.of_asks asks
    exact ⟨hnext _, List.forall_mem_append.mpr ⟨ih.2, List.forall_mem_singleton.mpr hallowed⟩⟩
  | collect _ done ih => exact ⟨ih.1.2 _, ih.2⟩

theorem Path.of_done {a : α} (h : Path (.done a) es t') : es = [] ∧ t' = .done a := by
  induction h with
  | refl => exact ⟨rfl, rfl⟩
  | answer _ asks ih =>
    obtain ⟨-, rfl⟩ := ih
    cases asks
  | collect _ done ih => cases ih.2

end Task

namespace Moment

variable {σ : Type} [Transport σ] {c : Client σ} {es : List (Event σ)} {S : Moment σ Answer}

/-- A task is an operation that has gone a part of its way. It may have been abandoned there. -/
def IsOn (op : Operation) (es : List (Event σ)) (task : Task Answer) : Prop :=
  ∃ s t, (op.task s).Path es t ∧ (task = t ∨ ∃ a, task = .done a)

namespace IsOn

variable {op : Operation} {task : Task Answer}

theorem start (op : Operation) (s : Settings) : IsOn op ([] : List (Event σ)) (op.task s) :=
  ⟨s, _, .refl _, .inl rfl⟩

theorem answered {r : Request} {next : r.Answer → Task Answer} (h : IsOn op es task)
    (asks : task.Asks r next) (i : Nat) (c : Client σ) :
    IsOn op (es ++ [⟨i, r, c⟩]) (next (c.answer i r).1) := by
  obtain ⟨s, t, hpath, rfl | ⟨a, rfl⟩⟩ := h
  · exact ⟨s, _, hpath.answer asks, .inl rfl⟩
  · cases asks

theorem collected {programs : List (Program BatchResult)} {next : List BatchResult → Task Answer}
    {results : List BatchResult} (h : IsOn op es (.gather programs next))
    (done : Program.results? programs = some results) : IsOn op es (next results) := by
  obtain ⟨s, t, hpath, rfl | ⟨a, ha⟩⟩ := h
  · exact ⟨s, _, hpath.collect done, .inl rfl⟩
  · cases ha

theorem abandoned (h : IsOn op es task) (a : Answer) : IsOn op es (.done a) := by
  obtain ⟨s, t, hpath, -⟩ := h
  exact ⟨s, t, hpath, .inr ⟨a, rfl⟩⟩

end IsOn

/-- The tasks of a moment are these operations, each on its way. -/
structure Performs (ops : List Operation) (es : List (Event σ)) (tasks : List (Task Answer)) :
    Prop where
  length_eq : ops.length = tasks.length
  known : ∀ e ∈ es, e.task < ops.length
  way : ∀ i op task, ops[i]? = some op → tasks[i]? = some task → IsOn op (Event.of i es) task

namespace Performs

variable {ops : List Operation} {tasks : List (Task Answer)}

theorem begun (h : Performs ops es tasks) (op : Operation) (s : Settings) :
    Performs (ops ++ [op]) es (tasks ++ [op.task s]) := by
  refine ⟨by simp [h.length_eq], fun e he => ?_, fun i op' task hop htask => ?_⟩
  · rw [List.length_append]
    exact Nat.lt_add_right _ (h.known e he)
  · by_cases hi : i < ops.length
    · rw [List.getElem?_append_left hi] at hop
      rw [List.getElem?_append_left (h.length_eq ▸ hi)] at htask
      exact h.way i op' task hop htask
    · have hnone : Event.of i es = [] := by
        refine List.eq_nil_iff_forall_not_mem.mpr fun e he => ?_
        obtain ⟨hmem, rfl⟩ := Event.mem_of_iff.mp he
        exact hi (h.known e hmem)
      obtain rfl : i = ops.length := by
        have := (List.getElem?_eq_some_iff.mp hop).1
        rw [List.length_append, List.length_singleton] at this
        omega
      rw [List.getElem?_concat_length] at hop
      rw [h.length_eq, List.getElem?_concat_length] at htask
      cases hop
      cases htask
      rw [hnone]
      exact .start op s

theorem set {i : Nat} {task task' : Task Answer} {es' : List (Event σ)} (h : Performs ops es tasks)
    (htask : tasks[i]? = some task) (hes : ∀ e ∈ es', e.task = i)
    (hway : ∀ op, IsOn op (Event.of i es) task → IsOn op (Event.of i es ++ es') task') :
    Performs ops (es ++ es') (tasks.set i task') := by
  have hi : i < tasks.length := (List.getElem?_eq_some_iff.mp htask).1
  refine ⟨by simp [h.length_eq], ?_, fun j op other hop hother => ?_⟩
  · refine List.forall_mem_append.mpr ⟨h.known, fun e he => ?_⟩
    rw [hes e he, h.length_eq]
    exact hi
  · obtain ⟨rfl, rfl⟩ | ⟨hij, hother⟩ := task_of_set hother
    · have hsame : Event.of i es' = es' := List.filter_eq_self.mpr (by simpa using hes)
      rw [Event.of_append, hsame]
      exact hway op (h.way i op task hop htask)
    · have hnone : Event.of j es' = [] := by
        refine List.filter_eq_nil_iff.mpr fun e he => ?_
        simpa [hes e he] using hij
      rw [Event.of_append, hnone, List.append_nil]
      exact h.way j op other hop hother

theorem replace {i : Nat} {task task' : Task Answer} (h : Performs ops es tasks)
    (htask : tasks[i]? = some task)
    (hway : ∀ op, IsOn op (Event.of i es) task → IsOn op (Event.of i es) task') :
    Performs ops es (tasks.set i task') := by
  have hset : Performs ops (es ++ []) (tasks.set i task') :=
    h.set htask (by simp) fun op hon => by simpa using hway op hon
  simpa using hset

end Performs

theorem Course.performs (h : Course ⟨[], c⟩ es S) :
    ∃ ops : List Operation, Performs ops es S.tasks := by
  induction h with
  | refl => exact ⟨[], rfl, by simp, by simp⟩
  | begun _ op ih =>
    obtain ⟨ops, hops⟩ := ih
    exact ⟨_, hops.begun op _⟩
  | quiet _ step ih =>
    obtain ⟨ops, hops⟩ := ih
    refine ⟨ops, ?_⟩
    cases step with
    | wait | pass => exact hops
    | collect task done => exact hops.replace task fun op hon => hon.collected done
  | event _ step ih =>
    obtain ⟨ops, hops⟩ := ih
    refine ⟨ops, ?_⟩
    cases step with
    | answer task asks free =>
      exact hops.set task (by simp) fun op hon => hon.answered asks _ _
  | @abandoned es M _ i answer ih =>
    obtain ⟨ops, hops⟩ := ih
    refine ⟨ops, ?_⟩
    cases htask : M.tasks[i]? with
    | none => rwa [List.set_eq_of_length_le (List.getElem?_eq_none_iff.mp htask)]
    | some task => exact hops.replace htask fun op hon => hon.abandoned answer

/-- **Refused commands never reach a node.** Whatever becomes of a client, what is written is none
of the blocked commands, but for the frame of a transaction. An operation that is refused asks for
nothing, and on its own it leaves the client as it was. -/
theorem Course.refused_never_sent (h : Course ⟨[], c⟩ es S) :
    (∃ ops : List Operation, Performs ops es S.tasks ∧
      (∀ e ∈ es, ∀ link commands, e.request = .write link commands →
        ∃ op, ops[e.task]? = some op ∧ op.MaySend commands) ∧
      ∀ (i : Nat) (op : Operation) (f : Fault), ops[i]? = some op → op.Rejects f →
        Event.of i es = []) ∧
    (∀ (op : Operation) (f : Fault), op.Rejects f →
      ∀ c' : Client σ, c'.perform op = (op.failed f, c')) ∧
    (∀ (p : Pipeline), ∀ d ∈ p.commands, (∀ target, Routing.of d ≠ .ok (.single target)) →
      ∃ f, p.Rejects f) ∧
    ∀ d : Command, d.IsBlocked → ∃ name,
      Words.checkedName (Routable.words d) = .error (.blockedCommand name) ∧
        Routing.of d = .error (.blockedCommand name) := by
  refine ⟨?_, fun op f hrejects c' => ?_, fun p d hd => p.exists_rejects hd, fun d hd => ?_⟩
  · obtain ⟨ops, hops⟩ := h.performs
    refine ⟨ops, hops, fun e he link commands hwrite => ?_, fun i op f hop hrejects => ?_⟩
    · have hop := List.getElem?_eq_getElem (hops.known e he)
      have htask := List.getElem?_eq_getElem (hops.length_eq ▸ hops.known e he)
      obtain ⟨s, t, hpath, -⟩ := hops.way _ _ _ hop htask
      refine ⟨_, hop, ?_⟩
      have hsends := hpath.uses (Operation.writes_unblocked s _)
      have hallowed := hsends.2 e (Event.mem_of_iff.mpr ⟨he, rfl⟩)
      rwa [hwrite] at hallowed
    · have hi := (List.getElem?_eq_some_iff.mp hop).1
      have htask := List.getElem?_eq_getElem (hops.length_eq ▸ hi)
      obtain ⟨s, t, hpath, -⟩ := hops.way _ _ _ hop htask
      rw [Operation.task_of_rejects hrejects] at hpath
      exact hpath.of_done.1
  · rw [Client.perform, Operation.task_of_rejects hrejects]
    rfl
  · obtain ⟨name, hname⟩ := d.isBlocked_iff_checkedName.mp hd
    refine ⟨name, hname, ?_⟩
    rw [Routing.of, Words.routing, hname]
    rfl

/-- A blocked command in mixed letters beside a transaction. -/
theorem Course.refused_never_sent_select :
    let s : Settings := { skipCoverageCheck := true }
    let owner := Reply.array [.bulk (Bytes.ofText "a"), .int 1]
    let slots := Reply.array [.array [.int 1, .int 1, owner]]
    let c := Canned.client s [slots, .okay, .okay, .array [.okay]]
    let select := Command.ofWords ["Select", "1"]
    let set := Command.ofWords ["SET", "emj", "1"]
    let transaction : Pipeline := ⟨[set], true⟩
    let S₀ : Moment Canned Answer :=
      ⟨[(Operation.execute select).task s, (Operation.pipeline transaction false).task s], c⟩
    let es := (S₀.play (List.replicate 22 1)).1
    let S := (S₀.play (List.replicate 22 1)).2
    Course ⟨[], c⟩ es S ∧
      written es = [[Command.clusterSlots], [Command.multi, set, Command.exec]] ∧
      select.IsBlocked ∧ Command.multi.IsBlocked ∧
      ∃ f, Routing.of select = .error f ∧ c.perform (.execute select) = (.reply (.error f), c) := by
  intro s owner slots c select set transaction S₀ es S
  have hbegun : Course ⟨[], c⟩ [] S₀ :=
    (Course.refl.begun (.execute select)).begun (.pipeline transaction false)
  have hcourse : Course ⟨[], c⟩ ([] ++ es) S := hbegun.run (S₀.run_play _)
  rw [List.nil_append] at hcourse
  have hselect : select.IsBlocked := by decide +kernel
  obtain ⟨-, halone, -, hblocked⟩ := refused_never_sent hcourse
  obtain ⟨name, -, hrouting⟩ := hblocked select hselect
  exact ⟨hcourse, by decide +kernel, hselect, by decide +kernel, _, hrouting,
    halone _ _ (.execute hrouting) c⟩

end Moment

end SlotCluster
