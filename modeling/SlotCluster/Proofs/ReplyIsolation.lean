import SlotCluster.Proofs.Bookkeeping
import SlotCluster.Proofs.Contacts

/-!
# Reply isolation

Whatever the operations of a client do side by side, nobody reads a reply to somebody else's
command, and no link is lost.
-/

namespace SlotCluster

open QueueTransport

variable {σ α : Type} [QueueTransport σ]

/-! ## What an exchange reads -/

theorem forall₂_concat {β γ : Type} {R : β → γ → Prop} {init : List β} {last : β} {values : List γ}
    (h : List.Forall₂ R (init ++ [last]) values) :
    ∃ rest value, values = rest ++ [value] ∧ List.Forall₂ R init rest ∧ R last value := by
  induction init generalizing values with
  | nil =>
    obtain ⟨value, rest, hvalue, hrest, rfl⟩ := List.forall₂_cons_left_iff.mp h
    cases hrest
    exact ⟨[], value, rfl, .nil, hvalue⟩
  | cons first init ih =>
    obtain ⟨value, rest, hvalue, hrest, rfl⟩ := List.forall₂_cons_left_iff.mp h
    obtain ⟨rest, last, rfl, hinit, hlast⟩ := ih hrest
    exact ⟨value :: rest, last, rfl, .cons hvalue hinit, hlast⟩

/-- The commands are written to the link, and these replies to them are queued there. -/
def Event.Queues (link : Link) (commands : List Command) (own : List Reply) (e : Event σ) : Prop :=
  ∃ task c, e = ⟨task, .write link commands, c⟩ ∧
    (c.answer task (.write link commands)).1 = .ok () ∧ own.length = commands.length ∧
      queue e.after.network link = queue c.network link ++ own

theorem Event.queues_of_write [LawfulTransport σ] {task : Nat} {link : Link}
    {commands : List Command} {c : Client σ}
    (h : (c.answer task (.write link commands)).1 = .ok ()) :
    ∃ own, Event.Queues link commands own (⟨task, .write link commands, c⟩ : Event σ) := by
  rcases hwrite : Transport.write link commands c.network with ⟨result, n⟩
  have hok : result = .ok () := by
    have hfst : (Transport.write link commands c.network).1 = .ok () := h
    rwa [hwrite] at hfst
  subst hok
  obtain ⟨-, own, hlength, hqueue⟩ := LawfulTransport.write_ok hwrite
  refine ⟨own, task, c, rfl, h, hlength, ?_⟩
  change queue (Transport.write link commands c.network).2 link = _
  rw [hwrite, hqueue]

theorem link_of_exchange {g : Grip} {link : Link} {w : Event σ} {reads : List (Event σ)}
    {commands : List Command} (hg : g.link? = some link)
    (hw : w.request = .write link commands) (hreads : ∀ e ∈ reads, e.request = .read link) :
    (gripProtocol.phase g (w :: reads)).link? = some link := by
  have hstep : ∀ (e : Event σ) (g : Grip), g.link? = some link →
      (e.request = .write link commands ∨ e.request = .read link) →
        (gripProtocol.next g e.request e.answer).link? = some link := by
    rintro ⟨task, r, c⟩ g hg hr
    simp only at hr
    obtain rfl | rfl := hr
    · change (gripProtocol.next g _ (c.answer task (.write link commands)).1).link? = _
      rcases (c.answer task (.write link commands)).1 with f | ⟨⟩
      all_goals exact (Grip.link_setDue _ _).trans hg
    · change (gripProtocol.next g _ (c.answer task (.read link)).1).link? = _
      rcases (c.answer task (.read link)).1 with f | reply
      all_goals exact (Grip.link_setDue _ _).trans hg
  have hall : ∀ (es : List (Event σ)) (g : Grip), g.link? = some link →
      (∀ e ∈ es, e.request = .write link commands ∨ e.request = .read link) →
        (gripProtocol.phase g es).link? = some link := by
    intro es
    induction es with
    | nil => exact fun g hg _ => hg
    | cons e rest ih =>
      intro g hg hes
      exact ih _ (hstep e g hg (hes e (.head _))) fun e' he' => hes e' (.tail _ he')
  refine hall _ g hg ?_
  rintro e (_ | ⟨_, he⟩)
  · exact .inl hw
  · exact .inr (hreads e he)

namespace Moment

variable {S S' : Moment σ α} {marks : List (Mark σ)}

/-- What a strand has read since it wrote is the beginning of what its write has queued, and the
rest is still there. -/
theorem Walk.reads_own [LawfulTransport σ] (h : Walk S marks S')
    (hS : S.Shares gripProtocol .nothing) (hstart : Tidy S.client fun _ : Strand => .nothing)
    {s : Strand} {before reads : List (Event σ)} {w : Event σ} {link : Link}
    {commands : List Command} {own replies : List Reply}
    (hes : eventsOf s marks = before ++ w :: reads) (hw : w.Queues link commands own)
    (hreads : List.Forall₂ (Event.Reads link) reads replies) :
    own = replies ++ queue S'.client.network link := by
  induction h generalizing reads replies with
  | refl => simp at hes
  | quiet _ step ih =>
    rw [step.same_of_quiet.2]
    exact ih hes hreads
  | @event marks M i t program r next h task asks free ih =>
    have htidy := h.tidy hS hstart
    have hallows : gripProtocol.Allows (grips marks ⟨i, program⟩) r :=
      ((h.sharesFrom hS task).of_asksAt asks).1
    rw [eventsOf_append, eventsOf_singleton] at hes
    split at hes
    · next hs =>
      rcases List.eq_nil_or_concat reads with rfl | ⟨init, last, rfl⟩
      · -- This is the write. Nothing was due before it.
        obtain ⟨-, hlast⟩ := List.append_inj' hes rfl
        obtain ⟨j, c, rfl, -, -, hqueue⟩ := hw
        cases hlast
        cases hreads
        obtain ⟨hlink, hdue⟩ := hallows
        have hempty := ((htidy.links.of_grip hlink).2.2.2 0 hdue).2
        rw [List.length_eq_zero_iff.mp hempty] at hqueue
        exact hqueue.symm
      · rw [List.concat_eq_append, ← List.cons_append, ← List.append_assoc] at hes
        rw [List.concat_eq_append] at hreads
        obtain ⟨hinit, hlast⟩ := List.append_inj' hes rfl
        obtain ⟨replies, reply, rfl, hothers, j, c, hread, hreply⟩ := forall₂_concat hreads
        obtain rfl := List.singleton_inj.mp hlast
        cases hread
        rw [ih hinit hothers, List.append_assoc]
        congr 1
        rcases hnext : Transport.read link M.client.network with ⟨result, n⟩
        have hok : result = .ok reply := by
          have hfst : (Transport.read link M.client.network).1 = .ok reply := hreply
          rwa [hnext] at hfst
        subst hok
        change _ = [reply] ++ queue (Transport.read link M.client.network).2 link
        rw [hnext]
        exact (LawfulTransport.read_ok hnext).2
    · next hs =>
      rw [List.append_nil] at hes
      rw [ih hes hreads]
      obtain ⟨j, c, rfl, -, -, -⟩ := hw
      have hlink : (grips marks s).link? = some link := by
        have hstarts : gripProtocol.Allows (gripProtocol.phase .nothing before)
            (.write link commands) := h.allows hS hes
        unfold grips
        rw [hes, Protocol.phase_append]
        exact link_of_exchange hstarts.1 rfl (request_of_reads hreads)
      rw [(htidy.untouched hallows i (Ne.symm hs) hlink).queue]

end Moment

/-! ## Batches that were sent -/

open SlotCluster.Action in
theorem runs_sendBatch_ok {s : Settings} {node : String} {commands : List Command} {asking : Bool}
    {es : List (Event σ)} {replies : List Reply}
    (h : Runs (Dispatch.sendBatch s node commands asking) es (.ok replies)) :
    ∃ opening task link c reads last raw,
      es = opening ++ ⟨task, .write link (batchOf asking commands), c⟩ :: (reads ++ [last]) ∧
        (c.answer task (.write link (batchOf asking commands))).1 = .ok () ∧
        List.Forall₂ (Event.Reads link) reads raw ∧
        raw.length = (batchOf asking commands).length ∧ replies = repliesOf asking raw := by
  unfold Dispatch.sendBatch at h
  rw [runs_bind_iff] at h
  obtain ⟨f, -, h⟩ | ⟨⟨lease, link⟩, opening, es₂, rfl, -, h⟩ := h
  · cases h
  simp only [runs_outcome_bind_iff] at h
  obtain ⟨x, es₃, es₄, rfl, hexchange, h⟩ := h
  cases x with
  | error f =>
    obtain ⟨task, c, rest, rfl, hthrow⟩ := (runs_ask_bind_iff _).mp h
    cases (runs_throw_iff.mp hthrow).2
  | ok raw =>
    obtain ⟨j, d, rest, rfl, hpure⟩ := (runs_ask_bind_iff _).mp h
    obtain ⟨rfl, hreplies⟩ := runs_pure_iff.mp hpure
    cases hreplies
    rw [exchange, runs_bind_iff] at hexchange
    obtain ⟨f, -, h⟩ | ⟨_, es₅, reads, rfl, hwrite, hreads⟩ := hexchange
    · cases h
    obtain ⟨task, c, rfl, hok⟩ := runs_write_iff.mp hwrite
    obtain ⟨hlength, hall⟩ := (runs_readMany hreads).2 raw rfl
    refine ⟨opening, task, link, c, reads, ⟨j, .release lease, d⟩, raw, ?_, hok.symm, hall, hlength,
      rfl⟩
    simp [batchOf]

/-! ## Isolation -/

namespace Moment

/-- What a walk leaves to its strands, and to those that come after them. -/
structure Isolates (settings : Settings) (marks : List (Mark σ)) (S : Moment σ α) : Prop where
  /-- A batch that was sent has got the replies to its own commands, in their order. -/
  own : ∀ (s : Strand) (before es after : List (Event σ)) (node : String) (commands : List Command)
    (asking : Bool) (replies : List Reply), eventsOf s marks = before ++ es ++ after →
      Action.Runs (Dispatch.sendBatch settings node commands asking) es (.ok replies) →
        ∃ link raw, (∃ e ∈ es, e.Queues link (batchOf asking commands) raw) ∧
          replies = repliesOf asking raw
  /-- No idle link has a reply to give. -/
  empty : ∀ link ∈ S.client.pool.idleLinks, queue S.client.network link = []
  /-- A link that a strand has just been lent is open. -/
  lent : ∀ (s : Strand) (before es : List (Event σ)) (node : String) (lease : Lease) (link : Link),
    eventsOf s marks = before ++ es →
      Action.Runs (Dispatch.lend settings node) es (.ok (lease, link)) →
        Transport.isOpen link S.client.network = true
  /-- When every task is done or has not begun, every link that was opened and not closed is idle,
  at one node and once. -/
  kept : (∀ (i : Nat) (t : Task α), S.tasks[i]? = some t →
      (∃ v, t = .done v) ∨ ∀ m ∈ marks, m.event.task ≠ i) →
    ∀ link, Held S.client.network link → S.client.pool.idleLinks.count link = 1

variable [LawfulTransport σ] {S S' : Moment σ α} {marks : List (Mark σ)}

theorem Walk.isolates {settings : Settings} (h : Walk S marks S')
    (hS : S.Shares gripProtocol .nothing) (hstart : Tidy S.client fun _ : Strand => .nothing) :
    Isolates settings marks S' := by
  have htidy := h.tidy hS hstart
  constructor
  case own =>
    intro s before es after node commands asking replies hes hruns
    obtain ⟨opening, task, link, c, reads, last, raw, rfl, hok, hreads, hlength, rfl⟩ :=
      runs_sendBatch_ok hruns
    obtain ⟨own, hown⟩ := Event.queues_of_write hok
    obtain ⟨-, -, -, -, hcount, -⟩ := id hown
    -- Up to its last read the strand has read all that its write has queued.
    have hcut : eventsOf s marks =
        (before ++ opening ++ ⟨task, .write link (batchOf asking commands), c⟩ :: reads) ++
          (last :: after) := by
      rw [hes]
      simp
    obtain ⟨first, second, rfl, hfirst, -⟩ := eventsOf_eq_append hcut
    obtain ⟨M, hM⟩ := h.cut
    have hsame := hM.reads_own hS hstart hfirst hown hreads
    have hnone : queue M.client.network link = [] := by
      have hlengths := congrArg List.length hsame
      rw [List.length_append, hcount, hlength] at hlengths
      exact List.length_eq_zero_iff.mp (by omega)
    rw [hnone, List.append_nil] at hsame
    subst hsame
    exact ⟨link, _, ⟨_, by simp, hown⟩, rfl⟩
  case empty => exact fun link hlink => (htidy.links.of_mem_idle hlink).2.2.2
  case lent =>
    intro s before es node lease link hes hruns
    obtain ⟨j, c, rest, rfl⟩ := (runs_lend hruns).1.begins
    have hbefore : gripProtocol.phase .nothing before = .nothing := h.allows hS hes
    have hgrip : grips marks s = .lent lease link (some 0) := by
      unfold grips
      rw [hes, Protocol.phase_append, hbefore]
      exact (Dispatch.lend_grips settings node).of_runs hruns
    exact ((htidy.links.of_grip (by rw [hgrip]; rfl)).2.2.2 0 (by rw [hgrip]; rfl)).1
  case kept =>
    intro hidle link hheld
    refine htidy.links.count_eq_one ?_ hheld
    rintro ⟨i, program⟩
    have hrest : grips marks ⟨i, program⟩ = .nothing := by
      refine h.phase_of_idle hS ?_ program
      cases ht : S'.tasks[i]? with
      | none =>
        refine .inr ?_
        rintro m hm rfl
        have hlt := h.task_lt m hm
        rw [← h.length_eq] at hlt
        exact absurd (List.getElem?_eq_none_iff.mp ht) (by omega)
      | some t =>
        rcases hidle i t ht with ⟨v, rfl⟩ | hnone
        · exact .inl ⟨v, rfl⟩
        · exact .inr hnone
    rw [hrest]
    rfl

omit [QueueTransport σ] [LawfulTransport σ] in
theorem shares_of_operations (settings : Settings) (ops : List Operation) (c : Client σ) :
    Shares gripProtocol .nothing ⟨ops.map fun op => op.task settings, c⟩ := by
  intro i t ht
  rw [List.getElem?_map] at ht
  obtain ⟨op, -, rfl⟩ := Option.map_eq_some_iff.mp ht
  exact op.task_grips settings

omit [LawfulTransport σ] in
theorem tidy_of_new {settings : Settings} {seeds : List Node} {network : σ} {choices : Nat → Nat}
    (hnone : ∀ link, ¬ Held network link) :
    Tidy (Client.new settings seeds network choices) fun _ : Strand => .nothing where
  leases := ⟨List.nodup_nil, nofun, nofun⟩
  links link := .gone (hnone link) rfl nofun

/-- Whatever the operations of a client do side by side, each batch gets its own replies, no idle
link has a reply to give, a link that is lent is open, and no link is lost. -/
theorem every_walk_isolates {settings : Settings} {seeds : List Node} {network : σ}
    {choices : Nat → Nat} {ops : List Operation} {S : Moment σ Answer}
    (hnone : ∀ link, ¬ Held network link)
    (h : Walk ⟨ops.map fun op => op.task settings, Client.new settings seeds network choices⟩
      marks S) : Isolates settings marks S :=
  h.isolates (shares_of_operations settings ops _) (tidy_of_new hnone)

/-- Two commands that take turns at one node of a network that echoes. -/
theorem every_walk_isolates_echo :
    let ops := [Operation.route (Command.ofWords ["GET", "foo"]) (.single .random),
      Operation.route (Command.ofWords ["GET", "bar"]) (.single .random)]
    let seeds := [Node.new "a" 1 .master]
    let start : Moment Echo Answer :=
      ⟨ops.map fun op => op.task {}, Client.new {} seeds Echo.silent fun _ => 0⟩
    let S := (start.play (List.replicate 9 0 ++ (List.replicate 10 [1, 0]).flatten)).2
    (∀ link, ¬ Held Echo.silent link) ∧ S.client.pool.idleLinks = [2, 1] ∧
      (S.tasks.map fun t => t.result?.isSome) = [true, true] ∧
      ∃ marks, Walk start marks S ∧ Isolates {} marks S := by
  intro ops seeds start S
  have hnone : ∀ link, ¬ Held Echo.silent link := fun link => Bool.false_ne_true
  have hidle : S.client.pool.idleLinks = [2, 1] := by decide +kernel
  have hdone : (S.tasks.map fun t => t.result?.isSome) = [true, true] := by decide +kernel
  obtain ⟨marks, -, hwalk⟩ := run_iff_walk.mp (start.run_play _)
  exact ⟨hnone, hidle, hdone, marks, hwalk, every_walk_isolates hnone hwalk⟩

end Moment

end SlotCluster
