import Mathlib.Data.List.Induction
import SlotCluster.Proofs.Contracts
import SlotCluster.Proofs.OperationUses
import SlotCluster.Proofs.RefreshInFlight

/-!
# One discovery at a time

A discovery that a command or a moved slot has come to runs inside the refresh lock. So there is
one of them at most at any time, whatever becomes of a client. A task that is abandoned gives the
lock up.
-/

namespace SlotCluster

variable {σ : Type}

/-! ## Discoveries under way -/

namespace Discovery

/-- The ways to a discovery that a command or a moved slot takes. -/
inductive Way (s : Settings) : Action Unit → Prop
  | check : Way s (refreshIfNeeded s)
  | move (r : Redirect) : Way s (patchMovedSlot s r)

variable [Transport σ]

open SlotCluster.Action

/-- The last events of a task belong to a discovery that has not ended: it has `begun`, and some
events are `left` to do. Before them are those of a way that has come to the discovery. -/
inductive Underway : List (Event σ) → Prop
  | mk {s : Settings} {way : Action Unit} {front head begun left rest : List (Event σ)}
      {r r' : Except Fault Unit} (way_ : Way s way)
      (whole : Runs way (head ++ (begun ++ left ++ rest)) r')
      (discovery : Runs (run s) (begun ++ left) r) (begun_ : begun ≠ []) (left_ : left ≠ []) :
      Underway (front ++ (head ++ begun))

variable {s : Settings} {es : List (Event σ)} {r : Except Fault Unit}

theorem Underway.of_take {way : Action Unit} (hway : Way s way) {head block rest : List (Event σ)}
    {r' : Except Fault Unit} (whole : Runs way (head ++ (block ++ rest)) r')
    (discovery : Runs (run s) block r) {n : Nat} (hpos : 0 < n) (hlt : n < block.length) :
    Underway (head ++ block.take n) := by
  have hparts : block.take n ++ block.drop n = block := List.take_append_drop n block
  have hbegun : block.take n ≠ [] := by
    refine List.ne_nil_of_length_pos ?_
    rw [List.length_take]
    omega
  have hleft : block.drop n ≠ [] := by
    refine List.ne_nil_of_length_pos ?_
    rw [List.length_drop]
    omega
  rw [← hparts] at whole discovery
  rw [← List.nil_append (head ++ _)]
  exact .mk hway whole discovery hbegun hleft

/-- The requests of a discovery. -/
abbrev Makes (r : Request) : Prop := r.IsPlain ∨ r.installs = true

theorem requests_of_run (h : Runs (run s) es r) : ∀ e ∈ es, Makes e.request := by
  obtain ⟨f, -, hplain⟩ | ⟨init, last, -, rfl, ⟨t, required, hlast⟩, hplain⟩ := runs_run h
  · exact fun e he => .inl (hplain e he)
  · refine List.forall_mem_append.mpr ⟨fun e he => .inl (hplain e he), ?_⟩
    exact List.forall_mem_singleton.mpr (.inr (by rw [hlast]; rfl))

theorem ne_unlock_of_run (h : Runs (run s) es r) : ∀ e ∈ es, e.request ≠ .unlock := by
  intro e he hunlock
  obtain hplain | hinstalls := requests_of_run h e he
  · exact (hunlock ▸ hplain : Request.IsPlain .unlock)
  · rw [hunlock] at hinstalls
    cases hinstalls

theorem ne_unlock_of_runIfDue (h : Runs (runIfDue s) es r) : ∀ e ∈ es, e.request ≠ .unlock := by
  have hretried : ∀ {es : List (Event σ)}, Retried s es r → ∀ e ∈ es, e.request ≠ .unlock := by
    intro es hes
    cases hes with
    | installed hrun => exact ne_unlock_of_run hrun
    | failed hrun flag_ =>
      refine List.forall_mem_append.mpr ⟨ne_unlock_of_run hrun, List.forall_mem_singleton.mpr ?_⟩
      rw [flag_]
      exact nofun
  cases runs_runIfDue h with
  | met => simp
  | taken _ _ hes => simpa using hretried hes
  | unknown _ hes => simpa using hretried hes

theorem ne_unlock_of_refreshIfPending (h : Runs (refreshIfPending s) es r) :
    ∀ e ∈ es, e.request ≠ .unlock := by
  obtain ⟨task, c, rest, rfl, hrest⟩ := runs_refreshIfPending h
  refine List.forall_mem_cons.mpr ⟨nofun, ?_⟩
  split at hrest
  · exact ne_unlock_of_run hrest
  · simp [hrest.1]

theorem isPrefix_of_append_singleton {α : Type} {xs ys zs : List α} {x : α}
    (h : xs ++ [x] = ys ++ zs) (hzs : zs ≠ []) : ys <+: xs := by
  obtain rfl | ⟨init, last, rfl⟩ := List.eq_nil_or_concat zs
  · exact absurd rfl hzs
  · rw [List.concat_eq_append, ← List.append_assoc] at h
    exact ⟨init, (List.append_inj' h rfl).1.symm⟩

omit [Transport σ] in
theorem exists_cons_of_append {head block rest tail : List (Event σ)} {e : Event σ}
    (hblock : block ≠ []) (hmakes : ∀ d ∈ block, Makes d.request) (he : ¬ Makes e.request)
    (h : head ++ (block ++ rest) = e :: tail) :
    ∃ back, head = e :: back ∧ back ++ (block ++ rest) = tail := by
  cases head with
  | nil =>
    obtain ⟨first, more, rfl⟩ := List.exists_cons_of_ne_nil hblock
    obtain ⟨rfl, -⟩ := List.cons_eq_cons.mp h
    exact absurd (hmakes first List.mem_cons_self) he
  | cons d back =>
    obtain ⟨rfl, htail⟩ := List.cons_eq_cons.mp h
    exact ⟨back, rfl, htail⟩

/-- A way has taken the lock before it comes to a discovery, and does not give it back before the
discovery has ended. -/
theorem locked_of_way {way : Action Unit} (hway : Way s way)
    {head begun left rest : List (Event σ)} {r' : Except Fault Unit}
    (whole : Runs way (head ++ (begun ++ left ++ rest)) r')
    (discovery : Runs (run s) (begun ++ left) r) (hbegun : begun ≠ []) (hleft : left ≠ []) :
    ∃ front lock back, head = front ++ lock :: back ∧ lock.request = .lock ∧
      ∀ e ∈ back ++ begun, e.request ≠ .unlock := by
  have hskip {head tail : List (Event σ)} {e : Event σ} (he : ¬ Makes e.request)
      (h : head ++ (begun ++ left ++ rest) = e :: tail) :
      ∃ back, head = e :: back ∧ back ++ (begun ++ left ++ rest) = tail :=
    exists_cons_of_append (List.append_ne_nil_of_left_ne_nil hbegun left)
      (requests_of_run discovery) he h
  have hflag {e : Event σ} (he : e.request = .flagRefresh) : ¬ Makes e.request := by
    simp [he, Request.IsPlain, Request.installs]
  have hmove {e : Event σ} {slot : UInt16} {host : String} {port : UInt16}
      (he : e.request = .recordMove slot host port) : ¬ Makes e.request := by
    simp [he, Request.IsPlain, Request.installs]
  have hlock {e : Event σ} (he : e.request = .lock) : ¬ Makes e.request := by
    simp [he, Request.IsPlain, Request.installs]
  -- What stands inside the lock up to the end of the discovery does not unlock.
  have hunlocked {inner back : List (Event σ)} {unlock : Event σ}
      (heq : back ++ (begun ++ left ++ rest) = inner ++ [unlock])
      (hinner : ∀ e ∈ inner, e.request ≠ .unlock) : ∀ e ∈ back ++ begun, e.request ≠ .unlock := by
    intro e he
    rw [List.append_assoc begun, ← List.append_assoc back] at heq
    have hbegins := isPrefix_of_append_singleton heq.symm (by simp [hleft])
    exact hinner e (hbegins.subset he)
  generalize hall : head ++ (begun ++ left ++ rest) = all at whole
  cases hway with
  | check =>
    obtain ⟨task, c, tail, rfl, hrest⟩ := runs_refreshIfNeeded_iff.mp whole
    -- The arrival could be the first event of a discovery, but nothing after it could be the next.
    obtain ⟨arrival, begun, rfl⟩ := List.exists_cons_of_ne_nil hbegun
    split at hrest
    · have hlength := congrArg List.length hall
      have htwo := List.length_pos_iff.mpr hleft
      simp [hrest.1] at hlength
      omega
    obtain ⟨lock, inner, unlock, rfl, hlocks, -, hinner⟩ := runs_locked hrest
    cases head with
    | nil =>
      have hmakes := (List.forall_mem_cons.mp (requests_of_run discovery)).2
      have hnext : [] ++ (begun ++ left ++ rest) = lock :: (inner ++ [unlock]) :=
        (List.cons_eq_cons.mp hall).2
      obtain ⟨back, hnil, -⟩ := exists_cons_of_append
        (List.append_ne_nil_of_right_ne_nil begun hleft) hmakes (hlock hlocks) hnext
      cases hnil
    | cons first head =>
      obtain ⟨-, hall⟩ := List.cons_eq_cons.mp hall
      obtain ⟨back, rfl, heq⟩ := hskip (hlock hlocks) hall
      exact ⟨[first], lock, back, rfl, hlocks, hunlocked heq (ne_unlock_of_runIfDue hinner)⟩
  | move m =>
    cases runs_patchMovedSlot whole with
    | nowhere flag_ =>
      obtain ⟨back, -, hnil⟩ := hskip (hflag flag_) hall
      simp [hbegun] at hnil
    | @noted flag move slot host port flag_ move_ =>
      obtain ⟨back, -, hone⟩ := hskip (hflag flag_) hall
      obtain ⟨back', -, hnil⟩ := hskip (hmove move_) hone
      simp [hbegun] at hnil
    | @refreshed flag move slot host port es r flag_ move_ h =>
      obtain ⟨lock, inner, unlock, rfl, hlocks, -, hinner⟩ := runs_locked h
      obtain ⟨head, rfl, hmoved⟩ := hskip (hflag flag_) hall
      obtain ⟨head, rfl, hlocked⟩ := hskip (hmove move_) hmoved
      obtain ⟨back, rfl, heq⟩ := hskip (hlock hlocks) hlocked
      exact ⟨[flag, move], lock, back, rfl, hlocks,
        hunlocked heq (ne_unlock_of_refreshIfPending hinner)⟩

end Discovery

/-! ## Who has the lock in a course -/

theorem RefreshLock.abandon_holder {l : RefreshLock} {task other : Nat} (hne : task ≠ other)
    (h : l.holder = some other) : (l.abandon task).holder = some other := by
  unfold abandon
  rw [if_neg]
  · exact h
  · rw [h, Option.some.injEq]
    exact fun heq => hne heq.symm

namespace Moment

variable [Transport σ] {α : Type} {c : Client σ} {es : List (Event σ)}

/-- Every task that has something left to do keeps to the rules of the lock, and has the lock unless
it is outside. -/
structure TakesTurns (es : List (Event σ)) (S : Moment σ α) : Prop where
  known : ∀ e ∈ es, e.task < S.tasks.length
  kept {i : Nat} {t : Task α} (task : S.tasks[i]? = some t) (busy : ∀ a, t ≠ .done a) :
    t.Keeps refreshProtocol (fun _ d => d = .outside) (duty i es)
  holder {i : Nat} {t : Task α} (task : S.tasks[i]? = some t) (busy : ∀ a, t ≠ .done a)
    (inside : duty i es ≠ .outside) : S.client.lock.holder = some i

theorem duty_of_none {i : Nat} (h : ∀ e ∈ es, e.task ≠ i) : duty i es = .outside := by
  induction es using List.reverseRecOn with
  | nil => rfl
  | append_singleton init e ih =>
    rw [duty_snoc, if_neg (h e (by simp))]
    exact ih fun e' he' => h e' (by simp [he'])

namespace TakesTurns

variable {S S' : Moment σ α}

theorem set (h : TakesTurns es S) {i : Nat} {t : Task α} {es' : List (Event σ)} {c' : Client σ}
    (known : ∀ e ∈ es', e.task < S.tasks.length)
    (others : ∀ j, i ≠ j → duty j es' = duty j es)
    (lock : ∀ j, i ≠ j → S.client.lock.holder = some j → c'.lock.holder = some j)
    (own : (∀ a, t ≠ .done a) → t.Keeps refreshProtocol (fun _ d => d = .outside) (duty i es') ∧
      (duty i es' ≠ .outside → c'.lock.holder = some i)) :
    TakesTurns es' ⟨S.tasks.set i t, c'⟩ := by
  refine ⟨by simpa using known, fun hu busy => ?_, fun hu busy inside => ?_⟩
  · obtain ⟨rfl, rfl⟩ | ⟨hne, hu⟩ := task_of_set hu
    · exact (own busy).1
    · exact others _ hne ▸ h.kept hu busy
  · obtain ⟨rfl, rfl⟩ | ⟨hne, hu⟩ := task_of_set hu
    · exact (own busy).2 inside
    · exact lock _ hne (h.holder hu busy (others _ hne ▸ inside))

theorem step_quiet (h : TakesTurns es S) (step : Step S none S') : TakesTurns es S' := by
  cases step with
  | @wait i t r next task asks =>
    refine ⟨h.known, h.kept, fun hu busy inside => ?_⟩
    have hholder := h.holder hu busy inside
    cases r with
    | lock => exact RefreshLock.request_holder hholder i
    | _ => exact hholder
  | pass => exact ⟨h.known, h.kept, h.holder⟩
  | collect task done =>
    refine h.set h.known (fun _ _ => rfl) (fun _ _ hholder => hholder) fun _ => ⟨?_, ?_⟩
    · exact (h.kept task nofun).2 _
    · exact h.holder task nofun

theorem step_event (h : TakesTurns es S) {e : Event σ} (step : Step S (some e) S') :
    TakesTurns (es ++ [e]) S' := by
  cases step with
  | @answer i t r next task asks free =>
    obtain ⟨hallows, hnext⟩ := (h.kept task asks.busy).of_asks asks
    have hholder := h.holder task asks.busy
    have hown : duty i (es ++ [⟨i, r, S.client⟩]) =
        refreshProtocol.next (duty i es) r (S.client.answer i r).1 := by
      rw [duty_snoc, if_pos rfl]
      rfl
    refine h.set ?_ (fun j hne => ?_) (fun j hne => ?_) fun _ => ?_
    · refine List.forall_mem_append.mpr ⟨h.known, List.forall_mem_singleton.mpr ?_⟩
      exact (List.getElem?_eq_some_iff.mp task).1
    · rw [duty_snoc, if_neg hne]
    · exact holder_kept_of_answer free hallows hholder hne
    · rw [hown]
      exact ⟨hnext _, holder_of_answer free hallows hholder⟩

end TakesTurns

theorem Course.takesTurns {S : Moment σ Answer} (h : Course ⟨[], c⟩ es S) : TakesTurns es S := by
  induction h with
  | refl => exact ⟨by simp, by simp, by simp⟩
  | @begun es M _ op ih =>
    -- An operation that has just begun has done nothing yet, and so is outside.
    have hat : ∀ {i : Nat} {t : Task Answer},
        (M.tasks ++ [op.task M.client.settings])[i]? = some t →
          M.tasks[i]? = some t ∨ t = op.task M.client.settings ∧ duty i es = .outside := by
      intro i t ht
      rcases Nat.lt_or_ge i M.tasks.length with hlt | hge
      · exact .inl (by rwa [List.getElem?_append_left hlt] at ht)
      · refine .inr ⟨?_, duty_of_none fun e he htask => ?_⟩
        · rw [List.getElem?_append_right hge] at ht
          exact List.mem_singleton.mp (List.mem_of_getElem? ht)
        · exact absurd (ih.known e he) (Nat.not_lt.mpr (htask ▸ hge))
    refine ⟨fun e he => ?_, fun ht busy => ?_, fun ht busy inside => ?_⟩
    · rw [List.length_append]
      exact Nat.lt_add_right _ (ih.known e he)
    · obtain ht | ⟨rfl, houtside⟩ := hat ht
      · exact ih.kept ht busy
      · rw [houtside]
        exact op.task_keeps M.client.settings
    · obtain ht | ⟨-, houtside⟩ := hat ht
      · exact ih.holder ht busy inside
      · exact absurd houtside inside
  | quiet _ step ih => exact ih.step_quiet step
  | event _ step ih => exact ih.step_event step
  | abandoned _ i answer ih =>
    refine ih.set ih.known (fun _ _ => rfl) (fun j hne hholder => ?_) fun busy =>
      absurd rfl (busy _)
    rw [(abandon_frame _ i).2]
    exact RefreshLock.abandon_holder hne hholder

theorem duty_of (i : Nat) (es : List (Event σ)) : duty i (Event.of i es) = duty i es := by
  induction es using List.reverseRecOn with
  | nil => rfl
  | append_singleton init e ih =>
    rw [Event.of_append, Event.of_cons, duty_snoc]
    split
    · next hi => rw [Event.of_nil, duty_snoc, if_pos hi, ih]
    · rw [Event.of_nil, List.append_nil, ih]

theorem duty_of_lock {i : Nat} {front back : List (Event σ)} {lock : Event σ}
    (hof : Event.of i es = front ++ lock :: back) (hlock : lock.request = .lock)
    (hback : ∀ e ∈ back, e.request ≠ .unlock) : duty i es ≠ .outside := by
  have htask : lock.task = i := (Event.mem_of_iff.mp (hof ▸ by simp : lock ∈ Event.of i es)).2
  rw [← duty_of, hof, ← List.singleton_append, ← List.append_assoc]
  refine duty_of_no_unlock ?_ fun e he _ => hback e he
  rw [duty_snoc, if_pos htask]
  obtain ⟨j, r, d⟩ := lock
  obtain rfl : r = .lock := hlock
  exact Duty.noConfusion

theorem TakesTurns.underway_unique {S : Moment σ α} (h : TakesTurns es S) {i j : Nat} {t u : Task α}
    (hi : S.tasks[i]? = some t) (hj : S.tasks[j]? = some u) (ht : ∀ a, t ≠ .done a)
    (hu : ∀ a, u ≠ .done a) (hfirst : Discovery.Underway (Event.of i es))
    (hsecond : Discovery.Underway (Event.of j es)) : i = j := by
  have hinside : ∀ {k : Nat}, Discovery.Underway (Event.of k es) → duty k es ≠ .outside := by
    intro k hk
    generalize hof : Event.of k es = own at hk
    cases hk with
    | @mk s way front head begun left rest r r' way_ whole discovery begun_ left_ =>
      obtain ⟨front', lock, back, rfl, hlock, hback⟩ :=
        Discovery.locked_of_way way_ whole discovery begun_ left_
      have hcut : Event.of k es = (front ++ front') ++ lock :: (back ++ begun) := by
        rw [hof]
        simp
      exact duty_of_lock hcut hlock hback
  exact Option.some.inj
    ((h.holder hi ht (hinside hfirst)).symm.trans (h.holder hj hu (hinside hsecond)))

end Moment

end SlotCluster
