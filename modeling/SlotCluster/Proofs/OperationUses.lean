import SlotCluster.Client.Operation
import SlotCluster.Proofs.Contacts
import SlotCluster.Proofs.Discoveries

/-!
# What operations ask for

Only a discovery installs, and it writes commands of its own. All else that is written are commands
of the callers, or greets a node. So if these may be sent, and every other request is allowed, no
operation asks for anything that is not allowed, wherever it stands.
-/

namespace SlotCluster

variable {σ α β : Type} {allowed : Request → Prop}

/-! ## Tasks -/

namespace Task

/-- Every request on every branch is one of these, also those of the programs that it starts. -/
def Uses (allowed : Request → Prop) : Task α → Prop
  | done _ => True
  | call r next => allowed r ∧ ∀ a, Uses allowed (next a)
  | gather programs next =>
    (∀ p ∈ programs, p.Uses allowed) ∧ ∀ results, Uses allowed (next results)

theorem uses_bind {t : Task α} {f : α → Task β} (ht : t.Uses allowed)
    (hf : ∀ v, (f v).Uses allowed) : (t.bind f).Uses allowed := by
  induction t with
  | done v => exact hf v
  | call r next ih => exact ⟨ht.1, fun a => ih a (ht.2 a)⟩
  | gather programs next ih => exact ⟨ht.1, fun results => ih results (ht.2 results)⟩

theorem uses_ofProgram {p : Program α} (h : p.Uses allowed) : (ofProgram p).Uses allowed := by
  induction p with
  | done v => trivial
  | call r next ih => exact ⟨h.1, fun a => ih a (h.2 a)⟩

theorem uses_ofProgram_bind {p : Program α} {f : α → Task β} {post : α → Unit → Prop}
    (hp : p.Keeps (.always allowed) post ()) (hf : ∀ v, post v () → (f v).Uses allowed) :
    ((ofProgram p).bind f).Uses allowed := by
  induction p with
  | done v => exact hf v hp
  | call r next ih => exact ⟨hp.1, fun a => ih a (hp.2 a)⟩

theorem Uses.of_asks {t : Task α} {r : Request} {next : r.Answer → Task α} (ht : t.Uses allowed)
    (h : t.Asks r next) : allowed r ∧ ∀ a, (next a).Uses allowed := by
  cases h with
  | call => exact ht
  | inside before after r next k =>
    obtain ⟨hprograms, hk⟩ := ht
    obtain ⟨hbefore, hr, hafter⟩ := List.forall_mem_append.mp hprograms |>.imp_right
      List.forall_mem_cons.mp
    refine ⟨hr.1, fun a => ⟨?_, hk⟩⟩
    exact List.forall_mem_append.mpr ⟨hbefore, List.forall_mem_cons.mpr ⟨hr.2 a, hafter⟩⟩

end Task

namespace Job

abbrev Uses (allowed : Request → Prop) (j : Job α) : Prop := Task.Uses allowed j.run

theorem uses_lift (x : Except Fault α) : Uses allowed (liftM x : Job α) := trivial

theorem uses_bind {j : Job α} {f : α → Job β} (hj : Uses allowed j)
    (hf : ∀ v, Uses allowed (f v)) : Uses allowed (j >>= f) := by
  refine Task.uses_bind hj ?_
  rintro (g | v)
  · trivial
  · exact hf v

theorem uses_action {a : Action α} (h : Action.Uses allowed a) :
    Uses allowed (liftM a : Job α) :=
  Task.uses_ofProgram h

theorem uses_lift_bind {x : Except Fault α} {f : α → Job β}
    (hf : ∀ v, x = .ok v → Uses allowed (f v)) : Uses allowed ((liftM x : Job α) >>= f) := by
  cases x with
  | error g => trivial
  | ok v => exact hf v rfl

theorem uses_bind_of_keeps {a : Action α} {f : α → Job β} {post : Except Fault α → Unit → Prop}
    (ha : Action.Keeps (.always allowed) post a ())
    (hf : ∀ v, post (.ok v) () → Uses allowed (f v)) : Uses allowed ((liftM a : Job α) >>= f) := by
  refine Task.uses_ofProgram_bind ha ?_
  rintro (g | v) hv
  · trivial
  · exact hf v hv

theorem uses_task {t : Task α} (h : t.Uses allowed) : Uses allowed (ExceptT.lift t) :=
  Task.uses_bind h fun _ => trivial

end Job

/-! ## Operations -/

theorem Pipeline.mem_addTo {node : String} {c c' : Pipeline.Placed}
    {batches : List Pipeline.Batch} {b : Pipeline.Batch}
    (hb : b ∈ Pipeline.addTo node c batches) (hc : c' ∈ b.commands) :
    c' = c ∨ ∃ b' ∈ batches, c' ∈ b'.commands := by
  induction batches with
  | nil =>
    obtain rfl := List.mem_singleton.mp hb
    exact .inl (List.mem_singleton.mp hc)
  | cons first rest ih =>
    unfold Pipeline.addTo at hb
    split at hb
    · obtain rfl | hb := List.mem_cons.mp hb
      · obtain hc | hc := List.mem_append.mp hc
        · exact .inr ⟨first, by simp, hc⟩
        · exact .inl (List.mem_singleton.mp hc)
      · exact .inr ⟨b, by simp [hb], hc⟩
    · obtain rfl | hb := List.mem_cons.mp hb
      · exact .inr ⟨b, by simp, hc⟩
      · exact (ih hb).imp_right fun ⟨b', hb', hc'⟩ => ⟨b', by simp [hb'], hc'⟩

/-- All but an install is allowed, and a discovery asks only for what is allowed. -/
structure Request.Admits (allowed : Request → Prop) : Prop where
  others {r : Request} (h : r.installs = false) : allowed r
  discovery (s : Settings) : Action.Uses allowed (Discovery.run s)

open SlotCluster.Action

/-- All but an install and a write is allowed. A write is allowed if its commands are `sent`, and
the greeting of a new link is. -/
structure Request.AdmitsSending (allowed : Request → Prop) (sent : List Command → Prop) : Prop where
  others {r : Request} (h : r.installs = false) (hwritten : r.written? = none) : allowed r
  writes {link : Link} {commands : List Command} (h : sent commands) :
    allowed (.write link commands)
  greeting : sent [Command.readOnly]
  discovery (s : Settings) : Uses allowed (Discovery.run s)

theorem Request.Admits.sending (h : Request.Admits allowed) :
    Request.AdmitsSending allowed fun _ => True :=
  ⟨fun hr _ => h.others hr, fun _ => h.others rfl, trivial, h.discovery⟩

variable {sent : List Command → Prop} (h : Request.AdmitsSending allowed sent)

include h

theorem Request.AdmitsSending.admitsDiscovery : Request.AdmitsDiscovery allowed := by
  refine ⟨fun {r} hr => ?_, h.discovery⟩
  cases r with
  | registry | flagRefresh | takeRefresh | recordMove | lock | unlock => exact h.others rfl rfl
  | _ => exact hr.elim

theorem Request.AdmitsSending.looksUp (r : Request) (hr : r.LooksUp) : allowed r := by
  cases r with
  | registry | choose => exact h.others rfl rfl
  | _ => exact hr.elim

theorem exchangeOne_uses (link : Link) {command : Command} (hsent : sent [command]) :
    Uses allowed (exchangeOne link command) :=
  uses_bind ⟨h.writes hsent, fun _ => trivial⟩ fun _ => ⟨h.others rfl rfl, fun _ => trivial⟩

theorem exchange_uses (link : Link) {commands : List Command} (hsent : sent commands) :
    Uses allowed (exchange link commands) := by
  have hreads : ∀ n, Uses allowed (readMany link n) := by
    intro n
    induction n with
    | zero => exact uses_pure _
    | succ n ih =>
      refine uses_bind ⟨h.others rfl rfl, fun _ => trivial⟩ fun _ => ?_
      exact uses_bind ih fun _ => uses_pure _
  exact uses_bind ⟨h.writes hsent, fun _ => trivial⟩ fun _ => hreads commands.length

namespace Dispatch

theorem openLink_uses (s : Settings) (node : String) : Uses allowed (openLink s node) := by
  have hclose : ∀ (link : Link) (f : Fault),
      Uses allowed (do ask (.close link); throw f : Action Link) :=
    fun link f => uses_bind (uses_ask (h.others rfl rfl)) fun _ => uses_throw f
  refine uses_bind ⟨h.others rfl rfl, fun _ => trivial⟩ fun link => ?_
  split
  · refine uses_bind (uses_outcome (exchangeOne_uses h link h.greeting)) ?_
    rintro (f | reply)
    · exact hclose link f
    · simp only
      split
      · exact uses_pure _
      · exact hclose link _
  · exact uses_pure _

theorem lend_uses (s : Settings) (node : String) : Uses allowed (lend s node) := by
  refine uses_bind ⟨h.others rfl rfl, fun _ => trivial⟩ ?_
  rintro ⟨lease, _ | link⟩
  · refine uses_bind (uses_outcome (openLink_uses h s node)) ?_
    rintro (f | link)
    · exact uses_bind (uses_ask (h.others rfl rfl)) fun _ => uses_throw f
    · exact uses_bind (uses_ask (h.others rfl rfl)) fun _ => uses_pure _
  · exact uses_pure _

theorem sendBatch_uses (s : Settings) (node : String) {commands : List Command} {asking : Bool}
    (hsent : sent (batchOf asking commands)) :
    Uses allowed (sendBatch s node commands asking) := by
  refine uses_bind (lend_uses h s node) ?_
  rintro ⟨lease, link⟩
  refine uses_bind (uses_outcome (exchange_uses h link hsent)) ?_
  rintro (f | replies)
  · exact uses_bind (uses_ask (h.others rfl rfl)) fun _ => uses_throw f
  · exact uses_bind (uses_ask (h.others rfl rfl)) fun _ => uses_pure _

theorem attempt_uses (s : Settings) {commands : List Command} (target : SingleTarget)
    (direction : Direction) {asking : Bool} (hsent : sent (batchOf asking commands)) :
    Uses allowed (attempt s commands target direction asking) := by
  refine uses_bind ?_ fun node => sendBatch_uses h s node.name hsent
  cases direction with
  | route => exact (resolve_looksUp target).mono h.looksUp
  | random => exact anyNode_looksUp.mono h.looksUp
  | address address => exact uses_lift _

theorem apply_uses (s : Settings) (effect : Effect) : Uses allowed (apply s effect) := by
  cases effect with
  | none => exact uses_pure _
  | move r => exact Discovery.patchMovedSlot_uses h.admitsDiscovery s r
  | startOver =>
    exact uses_bind (uses_ask (h.others rfl rfl)) fun _ => uses_ask (h.others rfl rfl)

theorem requestFrom_uses (s : Settings) {commands : List Command} (target : SingleTarget)
    (hsent : ∀ asking, sent (batchOf asking commands)) (left : Nat) (st : RetryState) :
    Uses allowed (requestFrom s commands target left st) := by
  induction left generalizing st with
  | zero => exact uses_throw _
  | succ left ih =>
    unfold requestFrom
    refine uses_bind (uses_outcome (attempt_uses h s target _ (hsent _))) ?_
    intro outcome
    refine uses_bind (apply_uses h s _) fun _ => ?_
    simp only
    split
    · exact uses_lift _
    · split
      · exact uses_bind (uses_ask (h.others rfl rfl)) fun _ => ih _
      · exact ih _

theorem askNode_uses (s : Settings) {c : Command} (node : Node) (hsent : sent [c]) :
    (askNode s c node).Uses allowed := by
  have hbatch : Uses allowed (sendBatch s node.name [c] false) := sendBatch_uses h s node.name hsent
  refine Program.uses_bind hbatch ?_
  rintro (f | replies)
  · simp only
    split
    · split
      · trivial
      · exact hbatch
    · trivial
  · trivial

theorem broadcast_uses (s : Settings) {c : Command} (target : MultiTarget)
    (policy : Option MergePolicy) (hsent : sent [c]) :
    Job.Uses allowed (broadcast s c target policy) := by
  refine Job.uses_bind (Job.uses_action (uses_ask (h.others rfl rfl))) fun registry => ?_
  refine Job.uses_bind (Job.uses_task ⟨?_, fun results => trivial⟩) fun results => Job.uses_lift _
  intro p hp
  obtain ⟨node, -, rfl⟩ := List.mem_map.mp hp
  exact askNode_uses h s node hsent

theorem routeCommand_uses (s : Settings) {c : Command} (routing : Routing)
    (hsent : ∀ name, Words.checkedName (Routable.words c) = .ok name →
      ∀ asking, sent (batchOf asking [c])) :
    Job.Uses allowed (routeCommand s c routing) := by
  refine Job.uses_lift_bind fun name hname => ?_
  have hrefresh := Discovery.refreshIfNeeded_uses h.admitsDiscovery s
  refine Job.uses_bind (Job.uses_action hrefresh) fun _ => ?_
  cases routing with
  | single target =>
    have hrequest := requestFrom_uses h s target (hsent name hname) s.attempts .start
    exact Job.uses_bind (Job.uses_action hrequest) fun replies => Job.uses_lift _
  | multi target policy => exact broadcast_uses h s target policy (hsent name hname false)

end Dispatch

namespace Pipeline

theorem runTransaction_uses (s : Settings) {commands : List Command} (targets : List SingleTarget)
    (hsent : ∀ asking, sent (batchOf asking (Command.multi :: commands ++ [Command.exec]))) :
    Uses allowed (runTransaction s commands targets) := by
  refine uses_bind ((commonTarget_looksUp none targets).mono h.looksUp) fun target => ?_
  refine uses_bind (Dispatch.requestFrom_uses h s target hsent s.attempts .start) fun replies => ?_
  exact uses_lift _

theorem group_keeps {Q : Command → Prop} {placed : List (Placed × SingleTarget)}
    {batches : List Batch} (hplaced : ∀ c ∈ placed, Q c.1.2)
    (hbatches : ∀ b ∈ batches, ∀ c ∈ b.commands, Q c.2) :
    Keeps (.always allowed)
      (fun r _ => ∀ bs, r = .ok bs → ∀ b ∈ bs, ∀ c ∈ b.commands, Q c.2)
      (group placed batches) () := by
  induction placed generalizing batches with
  | nil =>
    rintro _ ⟨⟩
    exact hbatches
  | cons c rest ih =>
    have hresolve := (Dispatch.resolve_looksUp c.2).mono h.looksUp
    refine keeps_bind_iff.mpr ?_
    refine (Program.Uses.keeps (hresolve.mono fun _ => Protocol.always_ignores) ()).mono ?_
    rintro (g | node) _ rfl
    · rintro _ ⟨⟩
    · refine ih (fun c hc => hplaced c (by simp [hc])) fun b hb c' hc' => ?_
      obtain rfl | ⟨b', hb', hc'⟩ := mem_addTo hb hc'
      · exact hplaced c (by simp)
      · exact hbatches b' hb' c' hc'

theorem replayAll_uses (s : Settings) {placed : List (Placed × SingleTarget)}
    (hsent : ∀ c ∈ placed, ∀ asking, sent (batchOf asking [c.1.2])) (indices : List Nat)
    (t : Table) : Job.Uses allowed (replayAll s placed indices t) := by
  induction indices generalizing t with
  | nil => exact Job.uses_lift (.ok t)
  | cons i rest ih =>
    unfold replayAll
    split
    · next c target hc =>
      refine Job.uses_bind (Job.uses_task ?_) fun result => ih _
      exact Dispatch.routeCommand_uses h s _ fun _ _ => hsent _ (List.mem_of_getElem? hc)
    · exact ih t

/-- What a pipeline sends may be sent: all of it in a frame, or any part of it and each command on
its own. -/
def Sends (sent : List Command → Prop) (p : Pipeline) : Prop :=
  ∀ targets, Pipeline.targets p.commands = .ok targets →
    if p.transaction then
      ∀ asking, sent (batchOf asking (Command.multi :: p.commands ++ [Command.exec]))
    else
      (∀ commands ⊆ p.commands, sent commands) ∧
        ∀ c ∈ p.commands, ∀ asking, sent (batchOf asking [c])

theorem runParts_uses (s : Settings) {commands : List Command} (targets : List SingleTarget)
    (hparts : ∀ part ⊆ commands, sent part)
    (hsent : ∀ c ∈ commands, ∀ asking, sent (batchOf asking [c])) :
    Job.Uses allowed (runParts s commands targets) := by
  have hplaced : ∀ c ∈ (commands.zipIdx.map fun p => (p.2, p.1)).zip targets,
      c.1.2 ∈ commands := by
    rintro ⟨⟨i, c⟩, target⟩ hc
    obtain ⟨⟨c', i'⟩, hmem, heq⟩ := List.mem_map.mp (List.of_mem_zip hc).1
    cases heq
    exact List.fst_mem_of_mem_zipIdx hmem
  refine Job.uses_bind_of_keeps (group_keeps h hplaced (by simp)) fun batches hbatches => ?_
  refine Job.uses_bind (Job.uses_task ⟨?_, fun results => trivial⟩) fun results => ?_
  · intro p hp
    obtain ⟨b, hb, rfl⟩ := List.mem_map.mp hp
    refine Dispatch.sendBatch_uses h s b.node (hparts _ fun c hc => ?_)
    obtain ⟨placed, hplaced, rfl⟩ := List.mem_map.mp hc
    exact hbatches batches rfl b hb placed hplaced
  · refine Job.uses_bind (Job.uses_action (patchAll_uses h.admitsDiscovery s _)) fun _ => ?_
    have hreplayed := fun c hc => hsent _ (hplaced c hc)
    refine Job.uses_bind (replayAll_uses h s hreplayed _ _) fun table => ?_
    exact Job.uses_lift (.ok (finish table))

theorem run_uses (s : Settings) {p : Pipeline} (hp : p.Sends sent) :
    Job.Uses allowed (p.run s) := by
  unfold run
  split
  · exact Job.uses_lift (.ok [])
  refine Job.uses_lift_bind fun targets htargets => ?_
  have hrefresh := Discovery.refreshIfNeeded_uses h.admitsDiscovery s
  refine Job.uses_bind (Job.uses_action hrefresh) fun _ => ?_
  have hsent := hp targets htargets
  split
  · next htransaction =>
    rw [if_pos htransaction] at hsent
    exact Job.uses_action (runTransaction_uses h s targets hsent)
  · next htransaction =>
    rw [if_neg htransaction] at hsent
    exact runParts_uses h s targets hsent.1 hsent.2

theorem query_uses (s : Settings) {p : Pipeline} (hp : p.Sends sent) :
    Job.Uses allowed (p.query s) :=
  Job.uses_bind (run_uses h s hp) fun _ => Job.uses_lift _

end Pipeline

/-- What an operation sends may be sent. -/
def Operation.Sends (sent : List Command → Prop) : Operation → Prop
  | execute c | route c _ => ∀ name, Words.checkedName (Routable.words c) = .ok name →
      ∀ asking, sent (batchOf asking [c])
  | pipeline p _ | query p => p.Sends sent
  | refresh | reset => True

theorem Operation.task_sends (s : Settings) {op : Operation} (hop : op.Sends sent) :
    (op.task s).Uses allowed := by
  have hmap : ∀ {β : Type} {j : Job β} (f : Except Fault β → Answer),
      Job.Uses allowed j → (f <$> j.run).Uses allowed :=
    fun f hj => Task.uses_bind hj fun _ => trivial
  cases op with
  | execute c =>
    exact hmap _ (Job.uses_bind (Job.uses_lift _) fun r => Dispatch.routeCommand_uses h s r hop)
  | route c routing => exact hmap _ (Dispatch.routeCommand_uses h s routing hop)
  | pipeline p raise =>
    cases raise with
    | true => exact hmap _ (Pipeline.query_uses h s hop)
    | false => exact hmap _ (Pipeline.run_uses h s hop)
  | query p => exact hmap _ (Pipeline.query_uses h s hop)
  | refresh => exact hmap _ (Job.uses_action (h.discovery s))
  | reset => exact hmap _ (Job.uses_action (Dispatch.apply_uses h s .startOver))

omit h

theorem Operation.sends_all (op : Operation) : op.Sends fun _ => True := by
  cases op with
  | execute | route => exact fun _ _ _ => trivial
  | pipeline p | query p =>
    intro targets _
    split
    · exact fun _ => trivial
    · exact ⟨fun _ _ => trivial, fun _ _ _ => trivial⟩
  | refresh | reset => trivial

theorem Operation.task_uses (h : Request.Admits allowed) (s : Settings) (op : Operation) :
    (op.task s).Uses allowed :=
  Operation.task_sends h.sending s op.sends_all

/-! ## Courses -/

namespace Moment

variable [Transport σ]

/-- What may become of a client: operations begin at any time, take turns in any order, and may be
abandoned. Nobody gets the answer of an abandoned one. -/
inductive Course (S : Moment σ Answer) : List (Event σ) → Moment σ Answer → Prop
  | refl : Course S [] S
  | begun {es : List (Event σ)} {M : Moment σ Answer} (h : Course S es M) (op : Operation) :
      Course S es ⟨M.tasks ++ [op.task M.client.settings], M.client⟩
  | quiet {es : List (Event σ)} {M S' : Moment σ Answer} (h : Course S es M)
      (step : Step M none S') : Course S es S'
  | event {es : List (Event σ)} {e : Event σ} {M S' : Moment σ Answer} (h : Course S es M)
      (step : Step M (some e) S') : Course S (es ++ [e]) S'
  | abandoned {es : List (Event σ)} {M : Moment σ Answer} (h : Course S es M) (i : Nat)
      (answer : Answer) : Course S es ⟨M.tasks.set i (.done answer), M.client.abandon i⟩

theorem Course.run {S M S' : Moment σ Answer} {es es' : List (Event σ)} (h : Course S es M)
    (h' : Run M es' S') : Course S (es ++ es') S' := by
  induction h' with
  | refl => rwa [List.append_nil]
  | quiet _ step ih => exact .quiet ih step
  | event _ step ih =>
    rw [← List.append_assoc]
    exact .event ih step

variable {c : Client σ} {es : List (Event σ)} {S : Moment σ Answer}

theorem Course.allows (h : Request.Admits allowed) (hc : Course ⟨[], c⟩ es S) :
    (∀ t ∈ S.tasks, t.Uses allowed) ∧ ∀ e ∈ es, allowed e.request := by
  induction hc with
  | refl => simp
  | @begun es M _ op ih =>
    refine ⟨List.forall_mem_append.mpr ⟨ih.1, ?_⟩, ih.2⟩
    exact List.forall_mem_singleton.mpr (op.task_uses h M.client.settings)
  | quiet _ step ih =>
    refine ⟨?_, ih.2⟩
    cases step with
    | wait | pass => exact ih.1
    | collect task done =>
      intro t ht
      rcases List.mem_or_eq_of_mem_set ht with ht | rfl
      · exact ih.1 t ht
      · exact (ih.1 _ (List.mem_of_getElem? task)).2 _
  | event _ step ih =>
    cases step with
    | answer task asks free =>
      obtain ⟨hallowed, hnext⟩ := (ih.1 _ (List.mem_of_getElem? task)).of_asks asks
      constructor
      · intro t ht
        rcases List.mem_or_eq_of_mem_set ht with ht | rfl
        · exact ih.1 t ht
        · exact hnext _
      · exact List.forall_mem_append.mpr ⟨ih.2, List.forall_mem_singleton.mpr hallowed⟩
  | abandoned _ i answer ih =>
    refine ⟨?_, ih.2⟩
    intro t ht
    rcases List.mem_or_eq_of_mem_set ht with ht | rfl
    · exact ih.1 t ht
    · trivial

theorem abandon_frame (c : Client σ) (i : Nat) :
    (c.abandon i).registry = c.registry ∧ (c.abandon i).lock = c.lock.abandon i := by
  have hdiscards : ∀ (leases : List Lease) (c : Client σ),
      (leases.foldl Client.discard c).registry = c.registry ∧
        (leases.foldl Client.discard c).lock = c.lock := by
    intro leases
    induction leases with
    | nil => exact fun _ => ⟨rfl, rfl⟩
    | cons lease rest ih =>
      intro c
      obtain ⟨hregistry, hlock⟩ := ih (c.discard lease)
      obtain ⟨hregistry', hlock'⟩ := Client.discard_frame c lease
      exact ⟨hregistry.trans hregistry', hlock.trans hlock'⟩
  obtain ⟨hregistry, hlock⟩ :=
    hdiscards ((c.pool.holdings.filter fun h => h.holder == i).map Holding.lease) c
  exact ⟨hregistry, congrArg (RefreshLock.abandon · i) hlock⟩

/-- What every event keeps, holds of the registry at any time. -/
theorem Course.registry_keeps (h : Request.Admits allowed) {P : Registry → Prop}
    (hstep : ∀ e : Event σ, allowed e.request → P e.client.registry → P e.after.registry)
    (hstart : P c.registry) (hc : Course ⟨[], c⟩ es S) :
    P S.client.registry ∧ ∀ e ∈ es, P e.client.registry := by
  induction hc with
  | refl => exact ⟨hstart, by simp⟩
  | begun _ op ih => exact ih
  | quiet _ step ih =>
    refine ⟨?_, ih.2⟩
    cases step with
    | wait task asks =>
      rw [Client.enqueue_registry]
      exact ih.1
    | collect | pass => exact ih.1
  | @event es e M S' hc step ih =>
    have hallowed := (Course.allows h (hc.event step)).2 e (by simp)
    cases step with
    | answer task asks free =>
      refine ⟨hstep _ hallowed ih.1, ?_⟩
      exact List.forall_mem_append.mpr ⟨ih.2, List.forall_mem_singleton.mpr ih.1⟩
  | abandoned _ i answer ih =>
    refine ⟨?_, ih.2⟩
    rw [(abandon_frame _ i).1]
    exact ih.1

end Moment

end SlotCluster
