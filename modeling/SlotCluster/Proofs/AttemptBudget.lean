import Mathlib.Algebra.Order.Ring.Nat
import SlotCluster.Proofs.Attempts
import SlotCluster.Proofs.FaultKinds

/-!
# The budget of a request

A request makes an attempt as long as one is left and the last outcome calls for another. It pauses
only in the second half of its attempts, and never after a redirect or after the last attempt. So
the time that it spends on pauses is bounded before it begins.
-/

namespace SlotCluster

variable {σ : Type}

/-! ## Outcomes that call for another attempt -/

namespace Fault

/-- Another attempt may end better: the link failed, its reply cannot be read, the node needs a
moment, or it names another node. -/
def IsRetryable (f : Fault) : Prop :=
  f.kind = .io ∨ f.kind = .parse ∨ (∃ detail, f = .server (.known .tryAgain detail)) ∨
    ∃ r, f.redirect? = some r

/-- How long a client waits because of the fault, if it waits at all. -/
def backOff (s : Settings) : Fault → Option Nat
  | .server (.known .tryAgain _) => some s.tryAgainPause
  | f => if f.kind = .io ∨ f.kind = .parse then some s.connectionErrorPause else none

end Fault

namespace Attempt

def IsRetryable (outcome : Except Fault (List Reply)) : Prop :=
  ∃ f, Faces outcome f ∧ f.IsRetryable

/-- How long the client waits after this outcome, if it waits at all. -/
inductive BacksOff (s : Settings) (outcome : Except Fault (List Reply)) : Option Nat → Prop
  | fault {f : Fault} (faces : Faces outcome f) : BacksOff s outcome (f.backOff s)
  | replies (clear : ∀ f, ¬ Faces outcome f) : BacksOff s outcome none

theorem exists_backsOff (s : Settings) (outcome : Except Fault (List Reply)) :
    ∃ wait, BacksOff s outcome wait := by
  by_cases hclear : ∀ f, ¬ Faces outcome f
  · exact ⟨none, .replies hclear⟩
  · obtain ⟨f, hf⟩ := Classical.not_forall_not.mp hclear
    exact ⟨_, .fault hf⟩

theorem BacksOff.eq {s : Settings} {outcome : Except Fault (List Reply)} {wait : Option Nat}
    (h : BacksOff s outcome wait) {f : Fault} (hf : Faces outcome f) : wait = f.backOff s := by
  cases h with
  | fault hg => rw [hg.unique hf]
  | replies hclear => exact absurd hf (hclear f)

end Attempt

namespace Cue

theorem exists_answers_of_redirect {e : ServerError} {r : Redirect} (h : e.redirect? = some r) :
    ∃ cue : Cue, cue.Answers (.server e) := by
  obtain ⟨hkind, hpoints⟩ := ServerError.redirect?_eq_some_iff.mp h
  cases e with
  | extension code detail => simp [ServerError.kind?] at hkind
  | known kind detail =>
    obtain hmoved | hask := hkind
    · cases hmoved
      exact ⟨_, .moved hpoints⟩
    · cases hask
      exact ⟨_, .asks hpoints⟩

theorem exists_answers_iff {f : Fault} : (∃ cue : Cue, cue.Answers f) ↔ f.IsRetryable := by
  constructor
  · rintro ⟨cue, h⟩
    cases h with
    | failed | broken => exact .inl rfl
    | unread => exact .inr (.inl rfl)
    | waits => exact .inr (.inr (.inl ⟨_, rfl⟩))
    | moved hpoints =>
      exact .inr (.inr (.inr ⟨_, ServerError.redirect?_eq_some_iff.mpr ⟨.inl rfl, hpoints⟩⟩))
    | asks hpoints =>
      exact .inr (.inr (.inr ⟨_, ServerError.redirect?_eq_some_iff.mpr ⟨.inr rfl, hpoints⟩⟩))
  · rintro (hio | hparse | ⟨detail, rfl⟩ | ⟨r, hr⟩)
    · cases f with
      | cause kind summary detail =>
        cases hio
        exact ⟨_, .broken summary detail⟩
      | io kind text => exact ⟨_, .failed kind text⟩
      | server error => cases error <;> cases hio
    · cases f with
      | cause kind summary detail =>
        cases hparse
        exact ⟨_, .unread summary detail⟩
      | io kind text => cases hparse
      | server error => cases error <;> cases hparse
    · exact ⟨_, .waits detail⟩
    · cases f with
      | cause | io => cases hr
      | server error => exact exists_answers_of_redirect hr

theorem isFinal_iff {outcome : Except Fault (List Reply)} :
    Attempt.IsFinal outcome ↔ ¬ Attempt.IsRetryable outcome := by
  constructor
  · rintro h ⟨f, hf, hretryable⟩
    obtain ⟨cue, hcue⟩ := exists_answers_iff.mpr hretryable
    exact h cue ⟨f, hf, hcue⟩
  · rintro h cue ⟨f, hf, hcue⟩
    exact h ⟨f, hf, exists_answers_iff.mp ⟨cue, hcue⟩⟩

theorem Follows.isRetryable {outcome : Except Fault (List Reply)} {cue : Cue}
    (h : cue.Follows outcome) : Attempt.IsRetryable outcome := by
  by_contra hnot
  exact isFinal_iff.mpr hnot cue h

theorem backsOff_of_final {s : Settings} {outcome : Except Fault (List Reply)} {wait : Option Nat}
    (h : Attempt.IsFinal outcome) (hwait : Attempt.BacksOff s outcome wait) : wait = none := by
  cases hwait with
  | replies _ => rfl
  | @fault f hf =>
    have hnot : ¬ f.IsRetryable := fun hretryable => isFinal_iff.mp h ⟨f, hf, hretryable⟩
    unfold Fault.backOff
    split
    · exact absurd (.inr (.inr (.inl ⟨_, rfl⟩))) hnot
    · rw [if_neg]
      rintro (hkind | hkind)
      · exact hnot (.inl hkind)
      · exact hnot (.inr (.inl hkind))

theorem Follows.pause_eq {s : Settings} {outcome : Except Fault (List Reply)} {cue : Cue}
    {wait : Option Nat} (h : cue.Follows outcome) (hwait : Attempt.BacksOff s outcome wait)
    (left : Nat) : cue.pause s left = if left < s.attempts / 2 then wait else none := by
  obtain ⟨f, hf, hcue⟩ := h
  rw [hwait.eq hf]
  cases hcue <;> simp [pause, Attempt.pause, Fault.backOff, Fault.kind]

end Cue

/-! ## Pauses -/

def Request.pause? : Request → Option Nat
  | .sleep duration => some duration
  | _ => none

/-- The durations of all pauses, in their order. -/
def pauses (es : List (Event σ)) : List Nat := es.filterMap fun e => e.request.pause?

theorem pauses_append (es es' : List (Event σ)) : pauses (es ++ es') = pauses es ++ pauses es' :=
  List.filterMap_append ..

theorem pauses_eq_nil {es : List (Event σ)} (h : ∀ e ∈ es, e.request.pause? = none) :
    pauses es = [] := List.filterMap_eq_nil_iff.mpr h

theorem Discovery.patchMovedSlot_awake (s : Settings) (m : Redirect) :
    Action.Uses (fun r => r.pause? = none) (patchMovedSlot s m) := by
  refine patchMovedSlot_uses (Request.admitsDiscovery_of ?_ ?_ fun _ _ => rfl) s m
  all_goals
    intro r hr
    cases r with
    | sleep => exact hr.elim
    | _ => rfl

namespace Trial

variable [Transport σ] {s : Settings} {commands : List Command} {target : SingleTarget} {left : Nat}
  {t : Trial σ}

theorem Goes.awake (h : t.Goes commands target) :
    pauses t.lookup = [] ∧ pauses t.contact = [] := by
  have hlookup : ∀ r : Except Fault Node, t.cue.Finds target t.lookup r →
      pauses t.lookup = [] := by
    intro r hfinds
    refine pauses_eq_nil fun e he => ?_
    have hlooks := hfinds.looksUp e he
    cases hrequest : e.request with
    | sleep duration =>
      rw [hrequest] at hlooks
      exact hlooks.elim
    | _ => rfl
  cases h with
  | nowhere hfinds hcontact _ =>
    rw [hcontact]
    exact ⟨hlookup _ hfinds, rfl⟩
  | there hfinds hcontact _ =>
    refine ⟨hlookup _ hfinds, pauses_eq_nil fun e he => ?_⟩
    have hat := hcontact.isAt e he
    cases hrequest : e.request with
    | sleep duration =>
      rw [hrequest] at hat
      exact hat.elim
    | _ => rfl

theorem Followed.pauses_eq (h : t.Followed s left) {wait : Option Nat}
    (hwait : Attempt.BacksOff s t.outcome wait) :
    pauses t.aftermath = if 0 < left ∧ left < s.attempts / 2 then wait.toList else [] := by
  -- A final outcome asks for no pause, and a cue for the one that its outcome is a reason for.
  have hquiet : Attempt.IsFinal t.outcome → ([] : List Nat) =
      if 0 < left ∧ left < s.attempts / 2 then wait.toList else [] := by
    intro hfinal
    rw [Cue.backsOff_of_final hfinal hwait, Option.toList_none, ite_self]
  have hcued : ∀ {cue : Cue}, cue.Follows t.outcome →
      (if left = 0 then [] else (cue.pause s left).toList) =
        if 0 < left ∧ left < s.attempts / 2 then wait.toList else [] := by
    intro cue hcue
    rw [hcue.pause_eq hwait left]
    by_cases hzero : left = 0
    · simp [hzero]
    · by_cases hhalf : left < s.attempts / 2
      · simp [hzero, hhalf, Nat.pos_of_ne_zero hzero]
      · simp [hzero, hhalf]
  cases h with
  | quiet hfinal _ hnothing =>
    rw [hnothing]
    exact hquiet hfinal
  | startOver hover hreset =>
    obtain ⟨i, c, i', c', hreset⟩ := hreset
    rw [hreset]
    exact hquiet hover.isFinal
  | moved hcue hpatch =>
    rw [← hcued hcue, pauses_eq_nil ((Discovery.patchMovedSlot_awake s _).of_runs hpatch)]
    exact (ite_self _).symm
  | @paused cue hcue _ hsleeps =>
    have hrequests :
        pauses t.aftermath = (t.aftermath.map Event.request).filterMap Request.pause? := by
      rw [List.filterMap_map]
      rfl
    rw [← hcued hcue, hrequests, hsleeps]
    split
    · rfl
    · cases cue.pause s left <;> rfl

theorem Made.kind_of_gives (hnetwork : Transport.FailsOnly σ fun f => f.kind ≠ .attemptsExhausted)
    (h : t.Made s commands target) {f : Fault} (hf : Attempt.Gives t.outcome (.error f)) :
    f.kind ≠ .attemptsExhausted := by
  have hattempt := Dispatch.attempt_failsOnly hnetwork
    (by rintro g (hg | hg | ⟨e, rfl⟩)
        · simp [hg]
        · simp [hg]
        · cases e <;> simp [Fault.kind])
    (fun slot => by simp [Fault.kind, Fault.unownedSlot]) (fun g hg => by simp [hg])
    s commands target t.cue.direction t.cue.isAsking
  have hfailed : t.outcome = .error f → f.kind ≠ .attemptsExhausted := by
    intro houtcome
    unfold Made at h
    rw [houtcome] at h
    exact hattempt _ f h
  generalize hresult : (Except.error f : Except Fault (List Reply)) = result at hf
  cases hf with
  | replies _ => exact hfailed hresult.symm
  | fault hfaces =>
    cases hresult
    generalize houtcome : t.outcome = outcome at hfaces
    -- A reply is no fault of the client's own.
    cases hfaces with
    | failed => exact hfailed houtcome
    | alone e | @among _ _ _ e => cases e <;> simp [Fault.kind]

end Trial

/-! ## The whole budget -/

theorem Fault.outOfAttempts_ne (f : Fault) : outOfAttempts f ≠ f := by
  -- The detail would hold the message, and the message holds the detail.
  intro h
  have hmessage : (outOfAttempts f).message = f.message := by rw [h]
  have hlength := congrArg String.length hmessage
  rw [outOfAttempts, message, String.length_append, String.length_append] at hlength
  have hdetail := String.length_append "last error: " f.message
  have hwords : 0 < "last error: ".length := by decide
  omega

section

variable [Transport σ] {s : Settings} {commands : List Command} {target : SingleTarget}
  {es : List (Event σ)} {result : Except Fault (List Reply)} {trials : List (Trial σ)}

/-- The slot that the outcome names as moved could not be patched. -/
def Trial.PatchFails (s : Settings) (t : Trial σ) : Prop :=
  ∃ r f, (Cue.moved r).Follows t.outcome ∧
    Action.Runs (Discovery.patchMovedSlot s r) t.aftermath (.error f)

/-- All attempts are used up, and each of them called for another one. -/
def UsedUp (s : Settings) (trials : List (Trial σ)) : Prop :=
  trials.length = s.attempts ∧ ∀ t ∈ trials, Attempt.IsRetryable t.outcome

/-- How a request spends its attempts and its time, and what it ends with. -/
structure Budgeted (s : Settings) (es : List (Event σ)) (result : Except Fault (List Reply))
    (trials : List (Trial σ)) : Prop where
  count : 1 ≤ trials.length ∧ trials.length ≤ s.attempts
  retried : ∀ t ∈ trials.dropLast, Attempt.IsRetryable t.outcome
  /-- The attempts are counted from zero here. -/
  pauses : ∀ (k : Nat) (t : Trial σ), trials[k]? = some t →
    ∃ wait, Attempt.BacksOff s t.outcome wait ∧ pauses t.events =
      if 0 < s.attempts - (k + 1) ∧ s.attempts - (k + 1) < s.attempts / 2 then wait.toList
      else []
  last : ∀ t ∈ trials.getLast?, SlotCluster.pauses t.events = []
  total : (SlotCluster.pauses es).sum ≤
    (s.attempts / 2 - 1) * max s.connectionErrorPause s.tryAgainPause
  exhausted (patched : ∀ t ∈ trials, ¬ t.PatchFails s) :
    UsedUp s trials ↔ ∃ t ∈ trials.getLast?, ∃ f, Attempt.Faces t.outcome f ∧
      result = .error (.outOfAttempts f)
  kind (patched : ∀ t ∈ trials, ¬ t.PatchFails s)
      (honest : Transport.FailsOnly σ fun f => f.kind ≠ .attemptsExhausted) :
    UsedUp s trials ↔ ∃ f, result = .error f ∧ f.kind = .attemptsExhausted
  otherwise (patched : ∀ t ∈ trials, ¬ t.PatchFails s) (h : ¬ UsedUp s trials) :
    ∃ t ∈ trials.getLast?, ¬ Attempt.IsRetryable t.outcome ∧ Attempt.Gives t.outcome result

/-! ### Pauses of all attempts -/

omit [Transport σ] in
theorem sum_pauses_le {half longest left : Nat} (hcount : trials.length ≤ left)
    (h : ∀ (k : Nat) (t : Trial σ), trials[k]? = some t → (pauses t.events).sum ≤
      if 0 < left - (k + 1) ∧ left - (k + 1) < half then longest else 0) :
    (pauses (trials.flatMap Trial.events)).sum ≤ (min left half - 1) * longest := by
  -- On the trials. The first one pauses only if so many are left that the bound grows with it.
  induction trials generalizing left with
  | nil => simp [pauses]
  | cons t rest ih =>
    obtain ⟨n, rfl⟩ : ∃ n, left = n + 1 := ⟨left - 1, by simp at hcount; omega⟩
    have hfirst : (pauses t.events).sum ≤ if 0 < n ∧ n < half then longest else 0 := by
      simpa using h 0 t rfl
    have hrest : (pauses (rest.flatMap Trial.events)).sum ≤ (min n half - 1) * longest := by
      refine ih (by simpa using hcount) fun k u hu => ?_
      simpa only [Nat.add_sub_add_right] using h (k + 1) u (by simpa using hu)
    rw [List.flatMap_cons, pauses_append, List.sum_append]
    by_cases hpauses : 0 < n ∧ n < half
    · rw [if_pos hpauses] at hfirst
      have hmore : min (n + 1) half - 1 = min n half - 1 + 1 := by omega
      rw [hmore, Nat.add_mul, Nat.one_mul]
      omega
    · rw [if_neg hpauses] at hfirst
      have hsame : min (n + 1) half - 1 = min n half - 1 := by omega
      rw [hsame]
      omega

theorem Attempt.BacksOff.le {s : Settings} {outcome : Except Fault (List Reply)}
    {wait : Option Nat} (h : BacksOff s outcome wait) :
    wait.toList.sum ≤ max s.connectionErrorPause s.tryAgainPause := by
  cases h with
  | replies _ => simp
  | fault _ =>
    unfold Fault.backOff
    split
    · simp
    · split
      · simp
      · simp

theorem Tried.pauses_eq {left : Nat} {cue : Cue}
    (h : Tried s commands target left cue es result trials)
    (hpaced : Dispatch.Paced s commands target left trials) {k : Nat} {t : Trial σ}
    (ht : trials[k]? = some t) {wait : Option Nat} (hwait : Attempt.BacksOff s t.outcome wait) :
    pauses t.events =
      if 0 < left - (k + 1) ∧ left - (k + 1) < s.attempts / 2 then wait.toList else [] := by
  obtain ⟨hlookup, hcontact⟩ := (h.goes t (List.mem_of_getElem? ht)).awake
  rw [Trial.events, pauses_append, pauses_append, hlookup, hcontact]
  exact (hpaced k t ht).2.pauses_eq hwait

theorem Tried.last_awake {cue : Cue} (h : Tried s commands target s.attempts cue es result trials)
    (hpaced : Dispatch.Paced s commands target s.attempts trials) :
    ∀ t ∈ trials.getLast?, pauses t.events = [] := by
  intro t ht
  have hplace : trials[trials.length - 1]? = some t := by
    rw [← List.getLast?_eq_getElem?]
    exact ht
  obtain ⟨wait, hwait⟩ := Attempt.exists_backsOff s t.outcome
  rw [h.pauses_eq hpaced hplace hwait]
  cases h.ends t ht with
  | final hfinal _ _ => rw [Cue.backsOff_of_final hfinal hwait, Option.toList_none, ite_self]
  | unpatched hcue _ =>
    split
    · next hhalf =>
      have hnone := hcue.pause_eq hwait (s.attempts - (trials.length - 1 + 1))
      rw [if_pos hhalf.2] at hnone
      rw [← hnone]
      rfl
    · rfl
  | spent _ _ _ hall =>
    rw [if_neg]
    omega

/-! ### The end of all attempts -/

theorem Tried.retried {left : Nat} {cue : Cue}
    (h : Tried s commands target left cue es result trials) :
    ∀ t ∈ trials.dropLast, Attempt.IsRetryable t.outcome := by
  intro t ht
  obtain ⟨next, -, hcue, -⟩ := h.exists_next t ht
  exact hcue.isRetryable

/-- If every moved slot could be patched, the last attempt is final, or all are used up. -/
theorem Tried.end_cases {cue : Cue} (h : Tried s commands target s.attempts cue es result trials)
    (hpatched : ∀ t ∈ trials, ¬ t.PatchFails s) :
    ∃ t ∈ trials.getLast?,
      (¬ UsedUp s trials ∧ ¬ Attempt.IsRetryable t.outcome ∧ Attempt.Gives t.outcome result) ∨
      ∃ f, UsedUp s trials ∧ Attempt.Faces t.outcome f ∧ result = .error (.outOfAttempts f) := by
  obtain ⟨init, t, rfl, ht⟩ := h.exists_last
  refine ⟨t, ht, ?_⟩
  cases h.ends t ht with
  | final hfinal hgives _ =>
    have hlast := Cue.isFinal_iff.mp hfinal
    exact .inl ⟨fun hused => hlast (hused.2 t (List.mem_of_getLast? ht)), hlast, hgives⟩
  | unpatched hcue hpatch =>
    exact absurd ⟨_, _, hcue, hpatch⟩ (hpatched t (List.mem_of_getLast? ht))
  | @spent cue f hcue hf _ hall =>
    refine .inr ⟨f, ⟨hall, fun u hu => ?_⟩, hf, rfl⟩
    rcases List.mem_append.mp hu with hu | hu
    · exact h.retried u (by simpa using hu)
    · obtain rfl := List.mem_singleton.mp hu
      exact hcue.isRetryable

theorem Tried.budgeted {cue : Cue} (h : Tried s commands target s.attempts cue es result trials)
    (hpaced : Dispatch.Paced s commands target s.attempts trials) :
    Budgeted s es result trials where
  count := by
    refine ⟨?_, h.count⟩
    cases trials with
    | nil => cases h.first
    | cons t rest => simp
  retried := h.retried
  pauses := by
    intro k t ht
    obtain ⟨wait, hwait⟩ := Attempt.exists_backsOff s t.outcome
    exact ⟨wait, hwait, h.pauses_eq hpaced ht hwait⟩
  last := h.last_awake hpaced
  total := by
    have hhalf : min s.attempts (s.attempts / 2) = s.attempts / 2 := by omega
    rw [h.events, ← hhalf]
    refine sum_pauses_le h.count fun k t ht => ?_
    obtain ⟨wait, hwait⟩ := Attempt.exists_backsOff s t.outcome
    rw [h.pauses_eq hpaced ht hwait]
    split
    · exact hwait.le
    · simp
  exhausted := by
    intro hpatched
    obtain ⟨t, ht, hend⟩ := h.end_cases hpatched
    constructor
    · intro hused
      obtain ⟨hnot, -⟩ | ⟨f, -, hf, hresult⟩ := hend
      · exact absurd hused hnot
      · exact ⟨t, ht, f, hf, hresult⟩
    · rintro ⟨u, hu, f, hf, hresult⟩
      obtain rfl : t = u := Option.some.inj (ht.symm.trans hu)
      obtain ⟨-, -, hgives⟩ | ⟨f, hused, -⟩ := hend
      · -- A final outcome is the fault itself, and not that it was the last of many.
        have hsame := hgives.eq_error hf
        rw [hresult] at hsame
        exact absurd (Except.error.inj hsame) (Fault.outOfAttempts_ne f)
      · exact hused
  kind := by
    intro hpatched hhonest
    obtain ⟨t, ht, hend⟩ := h.end_cases hpatched
    constructor
    · intro hused
      obtain ⟨hnot, -⟩ | ⟨f, -, -, hresult⟩ := hend
      · exact absurd hused hnot
      · exact ⟨_, hresult, rfl⟩
    · rintro ⟨f, hresult, hkind⟩
      obtain ⟨-, -, hgives⟩ | ⟨_, hused, -⟩ := hend
      · obtain ⟨k, hk⟩ := List.mem_iff_getElem?.mp (List.mem_of_getLast? ht)
        rw [hresult] at hgives
        exact absurd hkind ((hpaced k t hk).1.kind_of_gives hhonest hgives)
      · exact hused
  otherwise := by
    intro hpatched hnot
    obtain ⟨t, ht, ⟨-, hlast, hgives⟩ | ⟨f, hused, -⟩⟩ := h.end_cases hpatched
    · exact ⟨t, ht, hlast, hgives⟩
    · exact absurd hused hnot

/-- A request ends with its attempts at the latest, and its pauses are bounded. It runs out of
attempts just if every one of them called for another, and otherwise ends with the first that did
not. -/
theorem Dispatch.request_keeps_budget (hattempts : 1 ≤ s.attempts) :
    (∀ c : Client σ, Action.Runs (request s commands target)
      (c.traceProgram (request s commands target).run)
      (c.runProgram (request s commands target).run).1) ∧
    ∀ (es : List (Event σ)) (result : Except Fault (List Reply)),
      Action.Runs (request s commands target) es result →
        ∃ trials : List (Trial σ), Tried s commands target s.attempts .route es result trials ∧
          Budgeted s es result trials := by
  refine ⟨fun c => Client.runs_traceProgram _ c, fun es result h => ?_⟩
  have hstart : Cue.route.IsNotedIn .start := ⟨rfl, rfl⟩
  obtain ⟨trials, htried, hpaced⟩ := runs_rounds hstart hattempts h
  exact ⟨trials, htried, htried.budgeted hpaced⟩

end

/-- A node asks for patience six times. Of the pauses between six attempts two are made. -/
theorem Dispatch.request_keeps_budget_in_vain :
    let s : Settings := { attempts := 6 }
    let c := Canned.client s (List.replicate 6 (.error (.known .tryAgain none)))
    let a := request s [Command.ofWords ["GET", "foo"]] .random
    1 ≤ s.attempts ∧ pauses (c.traceProgram a.run) = [50, 50] ∧
      faultOf? (c.runProgram a.run).1 = some (.outOfAttempts (.server (.known .tryAgain none))) ∧
      (∀ c : Client Canned, Action.Runs a (c.traceProgram a.run) (c.runProgram a.run).1) ∧
      ∀ (es : List (Event Canned)) (result : Except Fault (List Reply)), Action.Runs a es result →
        ∃ trials : List (Trial Canned),
          Tried s [Command.ofWords ["GET", "foo"]] .random s.attempts .route es result trials ∧
            Budgeted s es result trials :=
  ⟨by decide, by rfl, by rfl, request_keeps_budget (by decide)⟩

end SlotCluster
