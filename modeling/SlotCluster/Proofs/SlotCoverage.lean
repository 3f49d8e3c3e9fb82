import SlotCluster.Proofs.SoloRequests

/-!
# Slot coverage

A discovery installs a table without gaps, or one whose gaps are allowed. A move gives a slot
another owner, and a new start takes all of them away. So where gaps are not allowed the table is
empty or full, whenever a client that does one thing at a time is looked at. No such client looks up
a slot in an empty table: whatever starts over ends, or learns the topology again first.
-/

namespace SlotCluster

/-! ## Empty or full -/

theorem SlotTable.Counted.isFull_set {t : SlotTable} (h : t.Counted) (hfull : t.isFull = true)
    (slot : UInt16) (owners : SlotOwners) : (t.set slot owners).isFull = true := by
  refine (h.set slot owners).isFull_iff.mpr fun other hother => ?_
  by_cases heq : slot = other
  · subst heq
    rw [get?_set_self t owners hother]
    exact Option.some_ne_none _
  · rw [get?_set_ne t owners heq]
    exact h.isFull_iff.mp hfull other hother

namespace Registry

/-- Where gaps are not allowed, no slot has an owner or every slot has. From the phase on in which
some slot is known to have one, every slot has. -/
structure Covers (ready : Bool) (r : Registry) : Prop where
  counted : r.slots.Counted
  allOrNone (h : r.coverageRequired = true) : r.slots.covered = 0 ∨ r.slots.isFull = true
  found (h : ready = true) (hrequired : r.coverageRequired = true) : r.slots.isFull = true

variable {ready : Bool} {r : Registry}

theorem covers_new (seeds : List Node) (steps : UInt64) (replicas : Bool) :
    (new seeds steps replicas).Covers false :=
  ⟨SlotTable.counted_empty, fun _ => .inl rfl, nofun⟩

theorem Covers.unready (h : r.Covers ready) : r.Covers false := ⟨h.counted, h.allOrNone, nofun⟩

theorem Covers.full (h : r.Covers ready) (hready : (ready || r.isInitialized) = true)
    (hrequired : r.coverageRequired = true) : r.slots.isFull = true := by
  rcases Bool.or_eq_true_iff.mp hready with hready | hsome
  · exact h.found hready hrequired
  · have hpos : 0 < r.slots.covered := of_decide_eq_true hsome
    exact (h.allOrNone hrequired).resolve_left (Nat.ne_of_gt hpos)

theorem Covers.serves (h : r.Covers ready) (hready : (ready || r.isInitialized) = true) :
    r.Serves :=
  fun hrequired => h.counted.isFull_iff.mp (h.full hready hrequired)

theorem Covers.setOwner (h : r.Covers true) (slot : UInt16) (node : Node) :
    (r.setOwner slot node).Covers true := by
  have hfull : r.coverageRequired = true → (r.setOwner slot node).slots.isFull = true :=
    fun hrequired => h.counted.isFull_set (h.found rfl hrequired) slot _
  exact ⟨h.counted.set slot _, fun hrequired => .inr (hfull hrequired), fun _ => hfull⟩

end Registry

variable {σ : Type} [Transport σ] {net P : Fault → Prop}

theorem Client.answer_covers (c : Client σ) (task : Nat) {ready : Bool} {r : Request}
    (hr : (faultContract net P).Allows ready r) (h : c.registry.Covers ready) :
    (c.answer task r).2.registry.Covers
      ((faultContract net P).next ready r (c.answer task r).1) := by
  cases r with
  | registry =>
    refine ⟨h.counted, h.allOrNone, fun hready => h.full hready⟩
  | flagRefresh | takeRefresh => exact ⟨h.counted, h.allOrNone, h.found⟩
  | recordMove slot host port =>
    obtain rfl : ready = true := hr
    obtain ⟨node, nodes, moves, hmoved⟩ := c.recordMove_frame slot host port
    have howned := h.setOwner slot node
    change (c.recordMove slot host port).2.registry.Covers true
    rw [hmoved]
    exact ⟨howned.counted, howned.allOrNone, howned.found⟩
  | install t required =>
    exact ⟨hr.1, fun hrequired => .inr (hr.2 hrequired), fun _ hrequired => hr.2 hrequired⟩
  | forget => exact ⟨SlotTable.counted_empty, fun _ => .inl rfl, nofun⟩
  | lock | unlock => exact h
  | _ =>
    rw [(Client.answer_of_plain (by trivial) c task).1]
    exact h

/-! ## One thing at a time -/

namespace Moment

variable {s : Settings} {seeds : List Node} {network : σ} {choices : Nat → Nat}
  {es : List (Event σ)} {S S' : Moment σ Answer}

/-- The moments of a client that begins with an operation only when all others are done, or were
abandoned. -/
inductive Succession (c : Client σ) : Moment σ Answer → Prop
  | start : Succession c ⟨[], c⟩
  | next {S S' : Moment σ Answer} {es : List (Event σ)} (h : Succession c S) (done : S.AllDone)
      (op : Operation) (run : Run (S.begun op) es S') : Succession c S'
  | abandoned {S : Moment σ Answer} (h : Succession c S) (i : Nat) (answer : Answer) :
      Succession c ⟨S.tasks.set i (.done answer), S.client.abandon i⟩

/-- An operation that runs alone finds the slots as its contract wants them, and leaves them so. -/
theorem Run.covers (hdone : S.AllDone) {op : Operation} (h : Run (S.begun op) es S')
    (hS : S.client.registry.Covers false) (hnetwork : Transport.FailsOnly σ net)
    (hpool : ∀ f, f.kind = .poolExhausted → P f) {post : Answer → Bool → Prop}
    (hop : (op.task S.client.settings).Meets (faultContract net P) post false) :
    ∃ u ψ, S'.tasks = S.tasks ++ [u] ∧ u.Meets (faultContract net P) post ψ ∧
      S'.client.registry.Covers ψ := by
  suffices hlast : ∃ u, S'.tasks = S.tasks ++ [u] ∧
      ∃ ψ, u.Meets (faultContract net P) post ψ ∧ S'.client.registry.Covers ψ by
    obtain ⟨u, hu, ψ, hkept⟩ := hlast
    exact ⟨u, ψ, hu, hkept⟩
  refine h.last_keeps (Q := fun u d => ∃ ψ, u.Meets (faultContract net P) post ψ ∧
    d.registry.Covers ψ) hdone ⟨false, hop, hS⟩ ?_ ?_ ?_
  · rintro u d d' ⟨ψ, hu, hd⟩ hsame
    exact ⟨ψ, hu, hsame ▸ hd⟩
  · rintro programs next results d ⟨ψ, hu, hd⟩ hresults
    exact ⟨ψ, hu.of_results hresults, hd⟩
  · rintro before M u r next - - asks ⟨ψ, hu, hM⟩
    obtain ⟨hallowed, hnext⟩ := hu.of_asks asks
    refine ⟨_, hnext _ ?_, M.client.answer_covers _ hallowed hM⟩
    exact faultContract_honest hnetwork ⟨S.tasks.length, r, M.client⟩
      (fun hr => .inr hM.serves) fun node hr f hf => hpool f (Client.kind_of_checkout f hf)

theorem Succession.covers (h : Succession (Client.new s seeds network choices) S) :
    S.client.registry.Covers false := by
  induction h with
  | start => exact Registry.covers_new _ _ _
  | next _ done op run ih =>
    -- Any fault will do here.
    have hnetwork : Transport.FailsOnly σ fun _ => True :=
      Transport.failsOnly_of_all fun _ => trivial
    obtain ⟨u, ψ, -, -, hcovers⟩ := run.covers (P := fun _ => True) done ih hnetwork
      (fun _ _ => trivial) (op.task_meets (fun _ _ => trivial) (fun _ _ => trivial)
        (fun _ _ => trivial) (.inl fun _ => trivial) _)
    exact hcovers.unready
  | abandoned _ i answer ih =>
    rw [(abandon_frame _ _).1]
    exact ih

/-- Where gaps are not allowed and some slot has an owner, every slot has. So no operation fails
for a slot without an owner, whatever has happened before. -/
theorem Succession.slots_covered (h : Succession (Client.new s seeds network choices) S) :
    (S.client.registry.coverageRequired = true → S.client.registry.isInitialized = true →
      ∀ slot : UInt16, slot.toNat < 16384 → S.client.registry.slots.get? slot ≠ none) ∧
    (Transport.FailsOnly σ (fun f => f.kind ≠ .noNodeForSlot) → S.AllDone →
      ∀ (op : Operation) (es : List (Event σ)) (S' : Moment σ Answer) (answer : Answer),
        op.InTable → Run (S.begun op) es S' → S'.tasks[S.tasks.length]? = some (.done answer) →
          ∀ f ∈ answer.faults, f.kind ≠ .noNodeForSlot) := by
  refine ⟨fun hrequired hsome => h.covers.serves hsome hrequired, ?_⟩
  intro hnetwork hdone op es S' answer hin hrun hanswer
  obtain ⟨u, ψ, hu, hmeets, -⟩ := hrun.covers hdone h.covers hnetwork
    (fun f hf => by rw [hf]; decide)
    (op.task_meets (fun _ hf => hf) (fun f hf => hf.2.1) (fun f hf => by rw [hf]; decide)
      (.inr hin) _)
  obtain rfl : u = .done answer := by simpa [hu] using hanswer
  exact hmeets

/-- A node says that its cluster is down, a discovery fails, and a slot moves. After that the
network is gone. -/
theorem Succession.slots_covered_moved :
    let a := Node.new "a" 1 .master
    let error := fun kind detail => Reply.error (.known kind detail)
    let s : Settings := {}
    let c := Client.new s [a]
      (⟨0, [.array [], error .clusterDown none, error .busyLoading none, .array [],
        error .moved (some "1 b:2"), .okay]⟩ : Canned) fun _ => 0
    let get := Operation.execute (Command.ofWords ["GET", "emj"])
    let perform := fun (S : Moment Canned Answer) op =>
      (S.begun op).play (List.replicate 26 S.tasks.length)
    let down := (perform ⟨[], c⟩ get).2
    let failed := (perform down .refresh).2
    let moved := (perform failed get).2
    let gone := (perform moved get).2
    Succession c moved ∧ moved.AllDone ∧ get.InTable ∧
      Transport.FailsOnly Canned (fun f => f.kind ≠ .noNodeForSlot) ∧
      down.client.registry.isInitialized = false ∧
      (failed.tasks.map fun t => t.result?.map (·.faults.length)) = [some 1, some 1] ∧
      moved.client.registry.coverageRequired = true ∧
      moved.client.registry.isInitialized = true ∧
      (moved.client.registry.masterOf 1).toOption = some [Node.new "b" 2 .master] ∧
      (∀ slot : UInt16, slot.toNat < 16384 → moved.client.registry.slots.get? slot ≠ none) ∧
      ∃ answer, gone.tasks[3]? = some (.done answer) ∧
        answer.faults.map Fault.kind = [.clusterUnreachable] ∧
          ∀ f ∈ answer.faults, f.kind ≠ .noNodeForSlot := by
  intro a error s c get perform down failed moved gone
  have hperform : ∀ S op, Run (S.begun op) (perform S op).1 (perform S op).2 :=
    fun S op => run_play _ _
  have hdown : down.AllDone := allDone_of_results (by decide +kernel)
  have hfailed : failed.AllDone := allDone_of_results (by decide +kernel)
  have hmoved : moved.AllDone := allDone_of_results (by decide +kernel)
  have hnetwork : Transport.FailsOnly Canned (fun f => f.kind ≠ .noNodeForSlot) :=
    Canned.failsOnly nofun
  have hsuccession : Succession c moved := by
    have hfirst : Succession c down := .next .start nofun get (hperform ⟨[], c⟩ get)
    have hsecond : Succession c failed := .next hfirst hdown .refresh (hperform down .refresh)
    exact .next hsecond hfailed get (hperform failed get)
  obtain ⟨hcovered, hkinds⟩ := slots_covered hsuccession
  have hrequired : moved.client.registry.coverageRequired = true := by decide +kernel
  have hsome : moved.client.registry.isInitialized = true := by decide +kernel
  have hfaults : (gone.tasks[3]?.bind Task.result?).map (·.faults.map Fault.kind) =
      some [.clusterUnreachable] := by decide +kernel
  obtain ⟨answer, hanswer, hkind⟩ := Option.map_eq_some_iff.mp hfaults
  obtain ⟨t, ht, hresult⟩ := Option.bind_eq_some_iff.mp hanswer
  obtain rfl := Task.eq_done_of_result hresult
  have hlength : moved.tasks.length = 3 := by decide +kernel
  refine ⟨hsuccession, hmoved, trivial, hnetwork, by decide +kernel, by decide +kernel, hrequired,
    hsome, by decide +kernel, hcovered hrequired hsome, answer, ht, hkind, ?_⟩
  refine hkinds hnetwork hmoved get _ gone answer trivial (hperform moved get) ?_
  rw [hlength]
  exact ht

end Moment

end SlotCluster
