import Mathlib.Data.List.ReduceOption
import SlotCluster.Proofs.Attempts
import SlotCluster.Proofs.MovedSlots
import SlotCluster.Proofs.Turnovers

/-!
# What a request changes

A request that has the client for itself changes the registry by the moves that it is told of, one
for each attempt that ends with one, and by nothing else. Only a cluster that is down makes it
forget the topology.
-/

namespace SlotCluster

variable {σ : Type}

/-! ## Moves -/

/-- The slot is in the table, and the address names a node. -/
def Redirect.IsProper (m : Redirect) : Prop :=
  m.slot.toNat < 16384 ∧ ∃ parts, Address.split m.address = .ok parts

namespace Trial

/-- The attempt ends with this move, or with none. -/
def Moves (t : Trial σ) (move? : Option Redirect) : Prop :=
  ∀ m, move? = some m ↔ (Cue.moved m).Follows t.outcome

theorem moves_none {t : Trial σ} (h : ∀ m, ¬ (Cue.moved m).Follows t.outcome) : t.Moves none :=
  fun m => ⟨nofun, fun hm => absurd hm (h m)⟩

theorem moves_some {t : Trial σ} {m : Redirect} (h : (Cue.moved m).Follows t.outcome) :
    t.Moves (some m) := by
  intro m'
  constructor
  · rintro ⟨⟩
    exact h
  · intro h'
    cases h.unique h'
    rfl

theorem exists_moves (t : Trial σ) : ∃ move?, t.Moves move? := by
  by_cases h : ∃ m, (Cue.moved m).Follows t.outcome
  · obtain ⟨m, hm⟩ := h
    exact ⟨_, moves_some hm⟩
  · exact ⟨_, moves_none (not_exists.mp h)⟩

theorem Moves.eq_none {t : Trial σ} {move? : Option Redirect} (h : t.Moves move?)
    (hnone : ∀ m, ¬ (Cue.moved m).Follows t.outcome) : move? = none :=
  Option.eq_none_iff_forall_not_mem.mpr fun m hm => hnone m ((h m).mp hm)

end Trial

theorem exists_moves (trials : List (Trial σ)) :
    ∃ moves, List.Forall₂ Trial.Moves trials moves := by
  induction trials with
  | nil => exact ⟨[], .nil⟩
  | cons t rest ih =>
    obtain ⟨move?, ht⟩ := t.exists_moves
    obtain ⟨moves, hrest⟩ := ih
    exact ⟨move? :: moves, .cons ht hrest⟩

theorem reduceOption_cons_eq (move? : Option Redirect) (moves : List (Option Redirect)) :
    (move? :: moves).reduceOption = move?.toList ++ moves.reduceOption := by
  cases move? with
  | none => rw [List.reduceOption_cons_of_none]; rfl
  | some m => rw [List.reduceOption_cons_of_some]; rfl

/-! ## One attempt -/

/-- Nothing is known any more but the seeds, and no link is idle. -/
structure Client.Forgets (c : Client σ) (seeds : List Node) : Prop where
  slots : ∀ slot, c.registry.slots.get? slot = none
  covered : c.registry.slots.covered = 0
  nodes : c.registry.nodes = .empty
  pending : c.registry.refreshPending = true
  seeds : c.registry.seeds = seeds
  idle : ∀ node, c.pool.idleCount node = 0

section

variable [Transport σ] {s : Settings} {commands : List Command} {target : SingleTarget} {left : Nat}
  {t : Trial σ} {c c' : Client σ}

omit [Transport σ] in
theorem Pool.idleCount_drain (p : Pool) (node : String) : p.drain.2.idleCount node = 0 := by
  unfold idleCount nodePool? drain
  rw [List.find?_map]
  cases p.nodes.find? _ with
  | none => rfl
  | some n => rfl

theorem Client.forgets_reset (c : Client σ) (i i' : Nat) :
    ((c.answer i .closeAll).2.answer i' .forget).2.Forgets c.registry.seeds where
  slots := SlotTable.get?_empty
  covered := rfl
  nodes := rfl
  pending := rfl
  seeds := by
    change c.closeAll.registry.seeds = c.registry.seeds
    rw [c.closeAll_frame.1]
  idle := by
    intro node
    change c.closeAll.pool.idleCount node = 0
    rw [c.closeAll_pool]
    exact c.pool.idleCount_drain node

theorem Trial.Made.registry_eq (h : t.Made s commands target)
    (hc : c.Unbroken (t.lookup ++ t.contact) c') : c'.registry = c.registry :=
  hc.registry_eq ((Dispatch.attempt_plain s commands target _ _).of_runs h)

theorem Trial.Followed.movedBy (h : t.Followed s left) (hmade : t.Made s commands target)
    (hover : ¬ Attempt.StartsOver t.outcome) (hlazy : s.refreshPolicy = .lazily)
    {move? : Option Redirect} (hmoves : t.Moves move?) (hproper : ∀ m ∈ move?, m.IsProper)
    (hc : c.Unbroken t.events c') (hdue : ∀ e ∈ t.events, e.isDue = false) :
    Registry.MovedBy move?.toList c.registry c'.registry := by
  obtain ⟨d, hattempt, haftermath⟩ := Client.unbroken_append_iff.mp hc
  rw [← hmade.registry_eq hattempt]
  have hstays : (∀ e ∈ t.aftermath, e.request.IsPlain) →
      (∀ m, ¬ (Cue.moved m).Follows t.outcome) →
      Registry.MovedBy move?.toList d.registry c'.registry := by
    intro hplain hcue
    rw [haftermath.registry_eq hplain, hmoves.eq_none hcue]
    exact .none _
  cases h with
  | quiet hfinal _ hnothing => exact hstays (by simp [hnothing]) fun m => hfinal (.moved m)
  | startOver h _ => exact absurd h hover
  | @moved m result hcue hpatch =>
    have hmove := (hmoves m).mpr hcue
    obtain ⟨hslot, ⟨host, port⟩, haddress⟩ := hproper m hmove
    obtain ⟨-, hmoved⟩ := haftermath.moved_of_patchMovedSlot hlazy haddress hslot hpatch
      fun e he => hdue e (by simp [Trial.events, he])
    rw [hmove]
    exact .move haddress hmoved (.none _)
  | @paused cue hcue hne hsleeps =>
    refine hstays (fun e he => ?_) fun m hm => hne m (hcue.unique hm)
    have hrequest := List.mem_map_of_mem (f := Event.request) he
    rw [hsleeps] at hrequest
    split at hrequest
    · cases hrequest
    · obtain ⟨duration, -, heq⟩ := List.mem_map.mp hrequest
      rw [← heq]
      trivial

theorem Trial.Followed.forgets (h : t.Followed s left) (hmade : t.Made s commands target)
    (hover : Attempt.StartsOver t.outcome) (hc : c.Unbroken t.events c') :
    c'.Forgets c.registry.seeds := by
  obtain ⟨d, hattempt, haftermath⟩ := Client.unbroken_append_iff.mp hc
  rw [← hmade.registry_eq hattempt]
  cases h with
  | quiet _ hstays _ => exact absurd hover hstays
  | startOver _ hreset =>
    obtain ⟨i, e, i', e', hreset⟩ := hreset
    rw [hreset] at haftermath
    cases haftermath with
    | answer _ _ _ haftermath =>
    cases haftermath with
    | answer _ _ _ haftermath =>
    rw [haftermath.eq_of_nil]
    exact Client.forgets_reset d i i'
  | moved hcue _ => exact absurd hcue (hover.isFinal _)
  | paused hcue _ _ => exact absurd hcue (hover.isFinal _)

/-! ## All attempts -/

variable {trials : List (Trial σ)} {es : List (Event σ)} {result : Except Fault (List Reply)}

theorem Dispatch.Paced.forall (h : Dispatch.Paced s commands target left trials) :
    ∀ t ∈ trials, t.Made s commands target ∧ ∃ left, t.Followed s left := by
  intro t ht
  obtain ⟨k, hk⟩ := List.mem_iff_getElem?.mp ht
  exact ⟨(h k t hk).1, _, (h k t hk).2⟩

theorem movedBy_trials
    (h : ∀ t ∈ trials, t.Made s commands target ∧ ∃ left, t.Followed s left)
    (hover : ∀ t ∈ trials, ¬ Attempt.StartsOver t.outcome) (hlazy : s.refreshPolicy = .lazily)
    {moves : List (Option Redirect)} (hmoves : List.Forall₂ Trial.Moves trials moves)
    (hproper : ∀ m ∈ moves.reduceOption, m.IsProper)
    (hc : c.Unbroken (trials.flatMap Trial.events) c')
    (hdue : ∀ e ∈ trials.flatMap Trial.events, e.isDue = false) :
    Registry.MovedBy moves.reduceOption c.registry c'.registry := by
  induction hmoves generalizing c with
  | nil =>
    rw [hc.eq_of_nil]
    exact .none _
  | @cons t move? rest moves hmove _ ih =>
    rw [List.flatMap_cons] at hc hdue
    obtain ⟨d, hfirst, hrest⟩ := Client.unbroken_append_iff.mp hc
    rw [reduceOption_cons_eq] at hproper ⊢
    obtain ⟨⟨hmade, left, hfollowed⟩, h⟩ := List.forall_mem_cons.mp h
    obtain ⟨hnot, hover⟩ := List.forall_mem_cons.mp hover
    refine (hfollowed.movedBy hmade hnot hlazy hmove ?_ hfirst ?_).append (ih h hover ?_ hrest ?_)
    · exact fun m hm => hproper m (List.mem_append_left _ (by simpa using hm))
    · exact fun e he => hdue e (List.mem_append_left _ he)
    · exact fun m hm => hproper m (List.mem_append_right _ hm)
    · exact fun e he => hdue e (List.mem_append_right _ he)

/-- How the client is left by a request whose attempts have found these slots moved. -/
structure LeavesBehind (s : Settings) (c c' : Client σ) (result : Except Fault (List Reply))
    (trials : List (Trial σ)) (moves : List Redirect) (r : Registry) : Prop where
  moved : Registry.MovedBy moves c.registry r
  pending : r.refreshPending = (c.registry.refreshPending || !moves.isEmpty)
  counted : r.moves = if c.registry.steps = 0 then c.registry.moves
    else c.registry.moves + UInt64.ofNat moves.length
  others : ∀ slot, slot ∉ moves.map Redirect.slot →
    r.slots.get? slot = c.registry.slots.get? slot
  /-- The last attempt that was left counts too. -/
  spent : ∀ t ∈ trials.getLast?, ∀ m, (Cue.moved m).Follows t.outcome →
    trials.length = s.attempts ∧
      ∃ f, Attempt.Faces t.outcome f ∧ result = .error (.outOfAttempts f)
  kept : (∀ t ∈ trials, ¬ Attempt.StartsOver t.outcome) → c'.registry = r
  startOver : ∀ t ∈ trials, Attempt.StartsOver t.outcome → trials.getLast? = some t ∧
    (∃ f, Attempt.Faces t.outcome f ∧ result = .error f) ∧ c'.Forgets c.registry.seeds

theorem Trial.Ends.spent_of_move {spent : Prop} {m : Redirect} (h : t.Ends s spent result)
    (hmove : (Cue.moved m).Follows t.outcome) (hlazy : s.refreshPolicy = .lazily)
    (hproper : m.IsProper) (hc : c.Unbroken t.aftermath c')
    (hdue : ∀ e ∈ t.aftermath, e.isDue = false) :
    spent ∧ ∃ f, Attempt.Faces t.outcome f ∧ result = .error (.outOfAttempts f) := by
  cases h with
  | final hfinal _ _ => exact absurd hmove (hfinal _)
  | @unpatched r f hunpatched hpatch =>
    obtain rfl : r = m := by cases hmove.unique hunpatched; rfl
    obtain ⟨hslot, ⟨host, port⟩, haddress⟩ := hproper
    cases (hc.moved_of_patchMovedSlot hlazy haddress hslot hpatch hdue).1
  | spent _ hf _ hall => exact ⟨hall, _, hf, rfl⟩

theorem Trial.Ends.result_of_startsOver {spent : Prop} (h : t.Ends s spent result)
    (hover : Attempt.StartsOver t.outcome) :
    ∃ f, Attempt.Faces t.outcome f ∧ result = .error f := by
  have hfinal := hover.isFinal
  cases h with
  | final _ hgives _ =>
    obtain ⟨f, hf, -⟩ := hover
    exact ⟨f, hf, hgives.eq_error hf⟩
  | unpatched hcue _ => exact absurd hcue (hfinal _)
  | spent hcue _ _ _ => exact absurd hcue (hfinal _)

theorem Tried.leavesBehind {cue : Cue} (h : Tried s commands target s.attempts cue es result trials)
    (hpaced : Dispatch.Paced s commands target s.attempts trials)
    (hlazy : s.refreshPolicy = .lazily) (hc : c.Unbroken es c')
    (hdue : ∀ e ∈ es, e.isDue = false) :
    ∃ moves, List.Forall₂ Trial.Moves trials moves ∧
      ((∀ m ∈ moves.reduceOption, m.IsProper) →
        ∃ r, LeavesBehind s c c' result trials moves.reduceOption r) := by
  have hforall := hpaced.forall
  rw [h.events] at hc hdue
  obtain ⟨init, t, rfl, hlast⟩ := h.exists_last
  have hends := h.ends t hlast
  have hinit : ∀ u ∈ init, ¬ Attempt.StartsOver u.outcome := by
    intro u hu hover
    obtain ⟨next, -, hcue, -⟩ := h.exists_next u (by simpa using hu)
    exact hover.isFinal _ hcue
  obtain ⟨first, hfirst⟩ := exists_moves init
  obtain ⟨move?, hmove⟩ := t.exists_moves
  refine ⟨first ++ [move?], List.rel_append hfirst (.cons hmove .nil), fun hproper => ?_⟩
  have hsplit : (first ++ [move?]).reduceOption = first.reduceOption ++ move?.toList := by
    rw [List.reduceOption_append, reduceOption_cons_eq, List.reduceOption_nil, List.append_nil]
  -- The client before the last attempt.
  obtain ⟨d, hbefore, htrial⟩ : ∃ d, c.Unbroken (init.flatMap Trial.events) d ∧
      d.Unbroken t.events c' := by
    simpa [Client.unbroken_append_iff] using hc
  have hmovedInit : Registry.MovedBy first.reduceOption c.registry d.registry := by
    refine movedBy_trials (fun u hu => hforall u (by simp [hu])) hinit hlazy hfirst ?_ hbefore ?_
    · exact fun m hm => hproper m (by simp [hsplit, hm])
    · exact fun e he => hdue e (by rw [List.flatMap_append]; exact List.mem_append_left _ he)
  have hdueLast : ∀ e ∈ t.events, e.isDue = false :=
    fun e he => hdue e (by simp [List.flatMap_append, he])
  have hproperLast : ∀ m ∈ move?, m.IsProper :=
    fun m hm => hproper m (by rw [hsplit]; exact List.mem_append_right _ (by simpa using hm))
  obtain ⟨hmade, left, hfollowed⟩ := hforall t (by simp)
  obtain ⟨d', -, haftermath⟩ := Client.unbroken_append_iff.mp htrial
  have hspent : ∀ u ∈ (init ++ [t]).getLast?, ∀ m, (Cue.moved m).Follows u.outcome →
      (init ++ [t]).length = s.attempts ∧
        ∃ f, Attempt.Faces u.outcome f ∧ result = .error (.outOfAttempts f) := by
    intro u hu m hm
    obtain rfl : t = u := Option.some.inj (hlast.symm.trans hu)
    exact hends.spent_of_move hm hlazy (hproperLast m ((hmove m).mpr hm)) haftermath
      fun e he => hdueLast e (by simp [Trial.events, he])
  by_cases hover : Attempt.StartsOver t.outcome
  · have hmoved : Registry.MovedBy (first ++ [move?]).reduceOption c.registry d.registry := by
      rwa [hsplit, hmove.eq_none fun m => hover.isFinal _, Option.toList_none, List.append_nil]
    refine ⟨d.registry, hmoved, hmoved.pending, hmoved.counted, fun slot => hmoved.others, hspent,
      fun hkept => absurd hover (hkept t (by simp)), fun u hu huover => ?_⟩
    obtain rfl : t = u :=
      Option.some.inj (hlast.symm.trans (h.last_of_startsOver hu huover))
    refine ⟨hlast, hends.result_of_startsOver hover, ?_⟩
    rw [← hmovedInit.seeds]
    exact hfollowed.forgets hmade hover htrial
  · have hmoved : Registry.MovedBy (first ++ [move?]).reduceOption c.registry c'.registry := by
      rw [hsplit]
      exact hmovedInit.append
        (hfollowed.movedBy hmade hover hlazy hmove hproperLast htrial hdueLast)
    refine ⟨c'.registry, hmoved, hmoved.pending, hmoved.counted, fun slot => hmoved.others, hspent,
      fun _ => rfl, fun u hu huover => ?_⟩
    obtain rfl : t = u :=
      Option.some.inj (hlast.symm.trans (h.last_of_startsOver hu huover))
    exact absurd huover hover

/-- A request that has the client for itself patches one slot for each attempt that ends with a
move, in their order, as long as no discovery is due. It changes nothing else, unless it makes the
client start over. -/
theorem Dispatch.request_patches_registry (hattempts : 1 ≤ s.attempts)
    (hlazy : s.refreshPolicy = .lazily)
    (hdue : ∀ e ∈ c.traceProgram (request s commands target).run, e.isDue = false) :
    ∃ (trials : List (Trial σ)) (moves : List (Option Redirect)),
      Tried s commands target s.attempts .route (c.traceProgram (request s commands target).run)
        (c.runProgram (request s commands target).run).1 trials ∧
      List.Forall₂ Trial.Moves trials moves ∧
      ((∀ m ∈ moves.reduceOption, m.IsProper) →
        ∃ r, LeavesBehind s c (c.runProgram (request s commands target).run).2
          (c.runProgram (request s commands target).run).1 trials moves.reduceOption r) := by
  have hstart : Cue.route.IsNotedIn .start := ⟨rfl, rfl⟩
  obtain ⟨trials, htried, hpaced⟩ :=
    runs_rounds hstart hattempts (Client.runs_traceProgram (request s commands target).run c)
  obtain ⟨moves, hmoves, hleaves⟩ :=
    htried.leavesBehind hpaced hlazy (Client.unbroken_traceProgram _ c) hdue
  exact ⟨trials, moves, htried, hmoves, hleaves⟩

end

/-- The only attempt of this request ends with a move. -/
theorem Dispatch.request_patches_registry_last :
    let s : Settings := { attempts := 1 }
    let c := Canned.client s [.error (.known .moved (some "12182 b:2"))]
    let a := request s [Command.ofWords ["GET", "foo"]] .random
    1 ≤ s.attempts ∧ s.refreshPolicy = .lazily ∧
      (∀ e ∈ c.traceProgram a.run, e.isDue = false) ∧ (c.runProgram a.run).2.registry.moves = 1 ∧
      ∃ (trials : List (Trial Canned)) (moves : List (Option Redirect)),
        Tried s [Command.ofWords ["GET", "foo"]] .random s.attempts .route (c.traceProgram a.run)
          (c.runProgram a.run).1 trials ∧
        List.Forall₂ Trial.Moves trials moves ∧
        ((∀ m ∈ moves.reduceOption, m.IsProper) →
          ∃ r, LeavesBehind s c (c.runProgram a.run).2 (c.runProgram a.run).1 trials
            moves.reduceOption r) := by
  intro s c a
  have hdue : ∀ e ∈ c.traceProgram a.run, e.isDue = false := by
    have hall : (c.traceProgram a.run).all (fun e => !e.isDue) = true := by decide +kernel
    simpa using hall
  exact ⟨by decide, rfl, hdue, by decide +kernel, request_patches_registry (by decide) rfl hdue⟩

/-! ## Moves in one write -/

def Event.movedReply? [Transport σ] (e : Event σ) : Option Redirect :=
  match e.request with
  | .read link =>
    match (e.client.answer e.task (.read link)).1 with
    | .ok (.error (.known .moved detail)) => (ServerError.known .moved detail).redirect?
    | _ => none
  | _ => none

def movedReplies [Transport σ] (es : List (Event σ)) : List Redirect :=
  es.filterMap Event.movedReply?

/-- Of two moved replies to one write only the first is followed. Without steps no move is counted.
A request that finds no master starts over, though nothing was read. -/
theorem Dispatch.not_every_moved_reply_counts :
    (let s : Settings := { attempts := 2, refreshSteps := 3 }
     let c := Canned.client s [.error (.known .moved (some "1 b:2")),
      .error (.known .moved (some "2 c:3")), .okay, .okay]
     let a := request s [Command.ofWords ["GET", "x"], Command.ofWords ["GET", "y"]] .random
     s.refreshPolicy = .lazily ∧ (∀ e ∈ c.traceProgram a.run, e.isDue = false) ∧
      (∀ m ∈ movedReplies (c.traceProgram a.run), m.IsProper) ∧
      ¬ Registry.MovedBy (movedReplies (c.traceProgram a.run)) c.registry
        (c.runProgram a.run).2.registry) ∧
    (let s : Settings := { attempts := 1, refreshSteps := 0 }
     let c := Canned.client s [.error (.known .moved (some "1 b:2"))]
     let a := request s [Command.ofWords ["GET", "x"]] .random
     s.refreshPolicy = .lazily ∧ (∀ e ∈ c.traceProgram a.run, e.isDue = false) ∧
      (∀ m ∈ movedReplies (c.traceProgram a.run), m.IsProper) ∧
      (c.runProgram a.run).2.registry.moves ≠
        c.registry.moves + UInt64.ofNat (movedReplies (c.traceProgram a.run)).length) ∧
    (let c := Canned.client {} []
     let a := request {} [Command.ofWords ["GET", "x"]] .randomMaster
     ({} : Settings).refreshPolicy = .lazily ∧ (∀ e ∈ c.traceProgram a.run, e.isDue = false) ∧
      movedReplies (c.traceProgram a.run) = [] ∧
      (c.runProgram a.run).2.registry.refreshPending ≠ c.registry.refreshPending) := by
  refine ⟨?_, ?_, ?_⟩
  · intro s c a
    have hreplies : movedReplies (c.traceProgram a.run) = [⟨1, "b:2"⟩, ⟨2, "c:3"⟩] := by
      decide +kernel
    have hall : (c.traceProgram a.run).all (fun e => !e.isDue) = true := by decide +kernel
    have hone : (c.runProgram a.run).2.registry.moves = 1 := by decide +kernel
    rw [hreplies]
    refine ⟨rfl, by simpa using hall, ?_, fun hmoved => ?_⟩
    · rintro m (_ | ⟨_, _ | ⟨_, ⟨⟩⟩⟩)
      · exact ⟨by decide, ("b", 2), by decide +kernel⟩
      · exact ⟨by decide, ("c", 3), by decide +kernel⟩
    · have hcounted := hmoved.counted
      rw [hone] at hcounted
      exact absurd hcounted (by decide +kernel)
  · intro s c a
    have hreplies : movedReplies (c.traceProgram a.run) = [⟨1, "b:2"⟩] := by decide +kernel
    have hall : (c.traceProgram a.run).all (fun e => !e.isDue) = true := by decide +kernel
    have hnone : (c.runProgram a.run).2.registry.moves = 0 := by decide +kernel
    rw [hreplies, hnone]
    refine ⟨rfl, by simpa using hall, ?_, by decide +kernel⟩
    rintro m (_ | ⟨_, ⟨⟩⟩)
    exact ⟨by decide, ("b", 2), by decide +kernel⟩
  · intro c a
    have hall : (c.traceProgram a.run).all (fun e => !e.isDue) = true := by decide +kernel
    exact ⟨rfl, by simpa using hall, by decide +kernel, by decide +kernel⟩

end SlotCluster
