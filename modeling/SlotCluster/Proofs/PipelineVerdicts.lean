import SlotCluster.Proofs.AttemptBudget
import SlotCluster.Proofs.PipelineResults

/-!
# The verdicts of a pipeline

A pipeline in parts judges what a batch gave to a command, as a request judges what came of its
attempt, but it does so on its own. Both go on after the same outcomes, except for a batch that was
refused before it was written, or whose replies cannot be read, and for a redirect to nowhere. A
request starts over when the cluster is down. A pipeline only reports it, and the client keeps the
topology that has failed.
-/

namespace SlotCluster

variable {σ : Type}

/-! ## Verdicts of a request -/

namespace Attempt

/-- A request makes another attempt after this outcome, as long as one is left. -/
def GoesOn (s : Settings) (outcome : Except Fault (List Reply)) : Prop :=
  ∀ left st, 0 < left → ∃ pause, (judge s left st outcome).next = .again pause

theorem judge_notes (s : Settings) (left : Nat) (st st' : RetryState)
    (outcome : Except Fault (List Reply)) :
    (judge s left st outcome).effect = (judge s left st' outcome).effect ∧
      (judge s left st outcome).next = (judge s left st' outcome).next := by
  unfold judge
  split
  · exact ⟨rfl, rfl⟩
  · unfold judgeFault
    split
    case h_4 | h_5 => split <;> exact ⟨rfl, rfl⟩
    all_goals exact ⟨rfl, rfl⟩

theorem goesOn_iff {s : Settings} {outcome : Except Fault (List Reply)} :
    GoesOn s outcome ↔ IsRetryable outcome := by
  constructor
  · intro h
    by_contra hnot
    obtain ⟨pause, hpause⟩ := h 1 .start Nat.one_pos
    obtain ⟨result, -, hnext, -⟩ := judge_of_final s 1 .start (Cue.isFinal_iff.mpr hnot)
    rw [hnext] at hpause
    cases hpause
  · intro h left st hleft
    obtain ⟨cue, hcue⟩ : ∃ cue : Cue, cue.Follows outcome := by
      by_contra hnone
      exact Cue.isFinal_iff.mp (not_exists.mp hnone) h
    obtain ⟨f, -, -, -, hnext⟩ := judge_of_cue s left false hcue
    refine ⟨cue.pause s left, ?_⟩
    rw [(judge_notes s left st ⟨none, false, false⟩ outcome).2, hnext, again, if_neg hleft.ne']

theorem effect_eq_startOver_iff {s : Settings} {left : Nat} {st : RetryState}
    {outcome : Except Fault (List Reply)} :
    (judge s left st outcome).effect = .startOver ↔ StartsOver outcome := by
  by_cases hfinal : IsFinal outcome
  · obtain ⟨-, -, -, ⟨hnot, heffect⟩ | ⟨hover, heffect⟩⟩ := judge_of_final s left st hfinal
    · simp [heffect, hnot]
    · simp [heffect, hover]
  · obtain ⟨cue, hcue⟩ := Classical.not_forall_not.mp hfinal
    have hnot : ¬ StartsOver outcome := fun hover => hfinal hover.isFinal
    obtain ⟨f, -, -, heffect, -⟩ := judge_of_cue s left false hcue
    rw [(judge_notes s left st ⟨none, false, false⟩ outcome).1, heffect]
    cases cue <;> simp [Cue.effect, hnot]

/-! ## Verdicts of a pipeline -/

/-- The batch has failed, though not in the network. -/
def IsRefused (outcome : Except Fault (List Reply)) : Prop :=
  ∃ f, outcome = .error f ∧ f.isIo = false

/-- The reply sends the command elsewhere, but cannot be read as a redirect. -/
def IsAstray (outcome : Except Fault (List Reply)) : Prop :=
  ∃ e, outcome = .ok [.error e] ∧ (e.kind? = some .moved ∨ e.kind? = some .ask) ∧
    e.redirect? = none

/-- A pipeline sends the command again where a request would go on, with two exceptions. -/
def IsReplayed (s : Settings) (outcome : Except Fault (List Reply)) : Prop :=
  (GoesOn s outcome ∧ ¬ IsRefused outcome) ∨ IsAstray outcome

theorem isReplayed_error_iff {s : Settings} {f : Fault} :
    IsReplayed s (.error f) ↔ f.isIo = true := by
  have hastray : ¬ IsAstray (.error f) := by
    rintro ⟨e, he, -⟩
    cases he
  have hrefused : IsRefused (.error f) ↔ f.isIo = false := by
    simp [IsRefused]
  unfold IsReplayed
  rw [goesOn_iff, hrefused, Bool.not_eq_false]
  constructor
  · rintro (⟨-, hio⟩ | h)
    · exact hio
    · exact absurd h hastray
  · intro hio
    exact .inl ⟨⟨f, .failed f, .inl (by simpa [Fault.isIo] using hio)⟩, hio⟩

theorem isReplayed_reply_iff {s : Settings} {r : Reply} :
    IsReplayed s (.ok [r]) ↔ r.defers = true := by
  have hrefused : ¬ IsRefused (.ok [r]) := by
    rintro ⟨f, hf, -⟩
    cases hf
  unfold IsReplayed
  rw [goesOn_iff]
  cases r with
  | error e =>
    have hretryable : IsRetryable (.ok [.error e]) ↔ (Fault.server e).IsRetryable := by
      simp [IsRetryable, faces_iff, fault?, decisive, Reply.error?]
    have hastray : IsAstray (.ok [.error e]) ↔
        (e.kind? = some .moved ∨ e.kind? = some .ask) ∧ e.redirect? = none := by
      simp [IsAstray]
    rw [hretryable, hastray]
    simp only [hrefused, not_false_eq_true, and_true, Fault.IsRetryable, Fault.redirect?]
    cases e with
    | extension code detail =>
      simp [Fault.kind, Reply.defers, ServerError.kind?, ServerError.redirect?]
    | known kind detail =>
      cases kind
      case moved | ask =>
        -- With a redirect the request goes on, and without one the reply leads astray.
        simp [Fault.kind, Reply.defers, ServerError.kind?, ← Option.ne_none_iff_exists', em']
      all_goals simp [Fault.kind, Reply.defers, ServerError.kind?, ServerError.redirect?]
  | _ => simp [IsRetryable, IsAstray, faces_iff, fault?, decisive, Reply.error?, Reply.defers]

end Attempt

namespace Pipeline

open Attempt

/-- What a batch gave to one of its commands, as an attempt for it alone would have given it. -/
inductive Part.Gives (part : Part σ) (c : Placed) : Except Fault (List Reply) → Prop
  | replied {replies : List Reply} {reply : Reply} (outcome_ : part.outcome = .ok replies)
      (reply_ : (c, reply) ∈ part.batch.commands.zip replies) : Gives part c (.ok [reply])
  | failed {f : Fault} (outcome_ : part.outcome = .error f) (member : c ∈ part.batch.commands) :
      Gives part c (.error f)

theorem gives_reply (r : Reply) :
    ∃ given, Attempt.Gives (.ok [r]) given ∧ r.result = given.map Dispatch.asOneReply := by
  have hclear : r.error? = none → ∀ f, ¬ Faces (.ok [r]) f := by
    intro hnone f
    simp [faces_iff, fault?, decisive, hnone]
  cases r with
  | error e => exact ⟨_, .fault (.alone e), rfl⟩
  | _ => exact ⟨_, .replies (hclear rfl), rfl⟩

theorem Part.Gives.fate (s : Settings) {part : Part σ} {c : Placed}
    {outcome : Except Fault (List Reply)} (h : part.Gives c outcome) :
    (IsReplayed s outcome ∧ ∃ move, (c.1, .replay move) ∈ part.fates) ∨
      (¬ IsReplayed s outcome ∧ ∃ given, Attempt.Gives outcome given ∧
        (c.1, .settled (given.map Dispatch.asOneReply)) ∈ part.fates) := by
  cases h with
  | @replied replies reply houtcome hreply =>
    have hfate := Part.fate_of_reply houtcome hreply
    obtain ⟨given, hgiven, hresult⟩ := gives_reply reply
    rw [isReplayed_reply_iff]
    cases hdefers : reply.defers with
    | true =>
      rw [hdefers, if_pos rfl] at hfate
      exact .inl ⟨rfl, _, hfate⟩
    | false =>
      rw [hdefers, if_neg Bool.false_ne_true, hresult] at hfate
      exact .inr ⟨Bool.false_ne_true, given, hgiven, hfate⟩
  | @failed f houtcome hmember =>
    have hfate := Part.fate_of_error houtcome hmember
    rw [isReplayed_error_iff]
    cases hio : f.isIo with
    | true =>
      rw [hio, if_pos rfl] at hfate
      exact .inl ⟨rfl, _, hfate⟩
    | false =>
      rw [hio, if_neg Bool.false_ne_true] at hfate
      exact .inr ⟨Bool.false_ne_true, _, .fault (.failed f), hfate⟩

theorem Part.Defers.gives (s : Settings) {part : Part σ} {c : Placed} (h : part.Defers c) :
    ∃ outcome, part.Gives c outcome ∧ IsReplayed s outcome := by
  cases h with
  | lost houtcome hmember hio => exact ⟨_, .failed houtcome hmember, isReplayed_error_iff.mpr hio⟩
  | deferred houtcome hreply hdefers =>
    exact ⟨_, .replied houtcome hreply, isReplayed_reply_iff.mpr hdefers⟩

theorem Part.Settles.gives (s : Settings) {part : Part σ} {c : Placed}
    {result : Except Fault Reply} (h : part.Settles c result) :
    ∃ outcome given, part.Gives c outcome ∧ ¬ IsReplayed s outcome ∧
      Attempt.Gives outcome given ∧ result = given.map Dispatch.asOneReply := by
  cases h with
  | @own replies reply houtcome hreply hstays =>
    obtain ⟨given, hgiven, hresult⟩ := gives_reply reply
    exact ⟨_, given, .replied houtcome hreply, by simp [isReplayed_reply_iff, hstays], hgiven,
      hresult⟩
  | refused houtcome hmember hio =>
    exact ⟨_, _, .failed houtcome hmember, by simp [isReplayed_error_iff, hio],
      .fault (.failed _), rfl⟩

end Pipeline

/-! ## No reset -/

/-- All links are closed, or the topology is forgotten. -/
def Request.Resets : Request → Prop
  | .closeAll | .forget => True
  | _ => False

theorem Request.LooksUp.not_resets {r : Request} (h : r.LooksUp) : ¬ r.Resets := by
  cases r with
  | registry | choose => exact id
  | _ => exact h.elim

theorem Request.IsAt.not_resets {node : String} {r : Request} (h : r.IsAt node) : ¬ r.Resets := by
  cases r with
  | closeAll | forget => exact h.elim
  | _ => exact id

theorem Discovery.admits_unreset : Request.AdmitsDiscovery fun r => ¬ r.Resets := by
  refine Request.admitsDiscovery_of ?_ ?_ fun _ _ => id
  all_goals
    intro r hr
    cases r with
    | closeAll | forget => exact hr.elim
    | _ => exact id

namespace Pipeline

open Attempt

variable [Transport σ] {s : Settings} {commands : List Command} {v : Volley σ}

theorem Volley.Of.unreset (h : v.Of s commands) : ∀ e ∈ v.events, ¬ e.request.Resets := by
  have hlookups : ∀ l ∈ v.lookups, ∀ e ∈ l.events, e.request.LooksUp := by
    intro l hl
    obtain ⟨target, -, hlooks⟩ := exists_of_forall₂_right h.lookups hl
    exact hlooks.looksUp
  intro e he
  rcases List.mem_append.mp he with he | he
  · obtain ⟨l, hl, he⟩ := List.mem_flatMap.mp he
    exact (hlookups l hl e he).not_resets
  · obtain ⟨_, hevents, he⟩ := h.together.exists_mem he
    obtain ⟨part, hpart, rfl⟩ := List.mem_map.mp hevents
    exact ((h.sent part hpart).contact.isAt e he).not_resets

theorem Volley.Unpatched.unreset {m : Redirect} {es : List (Event σ)} {f : Fault}
    (h : Unpatched s m es f) : ∀ e ∈ es, ¬ e.request.Resets := by
  cases h with
  | nowhere _ hflag =>
    intro e he
    rw [List.mem_singleton.mp he, hflag]
    exact id
  | undiscovered _ hflag hmove hruns =>
    have hlocked := Discovery.locked_uses Discovery.admits_unreset
      (Discovery.refreshIfPending_uses Discovery.admits_unreset s)
    rintro e (_ | ⟨_, _ | ⟨_, he⟩⟩)
    · rw [hflag]
      exact id
    · rw [hmove]
      exact id
    · exact hlocked.of_runs hruns e he

/-! ## Every outcome of a volley -/

/-- What becomes of the outcome that a volley has given to a command. -/
structure Volley.Judges (s : Settings) (v : Volley σ) (again : List (Replay σ))
    (results : List (Except Fault Reply)) (c : Placed) : Prop where
  given : ∃ part ∈ v.parts, ∃ outcome, part.Gives c outcome
  replayed : ∀ part ∈ v.parts, ∀ outcome, part.Gives c outcome →
    (c.1 ∈ again.map Replay.place ↔ IsReplayed s outcome)
  inBand : ∀ part ∈ v.parts, ∀ outcome, part.Gives c outcome → c.1 ∉ again.map Replay.place →
    ∃ given, Attempt.Gives outcome given ∧
      results[c.1]? = some (given.map Dispatch.asOneReply)

theorem Volley.Of.fate_eq (h : v.Of s commands) {i : Nat} {fate fate' : Fate}
    (hfate : (i, fate) ∈ v.fates) (hfate' : (i, fate') ∈ v.fates) : fate = fate' := by
  have hnodup : (v.fates.map Prod.fst).Nodup := h.places.nodup_iff.mpr List.nodup_range
  exact congrArg Prod.snd (List.inj_on_of_nodup_map hnodup hfate hfate' rfl)

theorem Volley.Answers.judges {again : List (Replay σ)} {results : List (Except Fault Reply)}
    (h : v.Answers s commands again results) (hof : v.Of s commands) {i : Nat} {c : Command}
    (hc : commands[i]? = some c) : v.Judges s again results (i, c) := by
  have hfates : ∀ {part : Part σ} {fate : Fate}, part ∈ v.parts → (i, fate) ∈ part.fates →
      (i, fate) ∈ v.fates := fun hpart hfate => List.mem_flatMap.mpr ⟨_, hpart, hfate⟩
  obtain ⟨result, hresult, haccounts⟩ := h.accounts i c hc
  cases haccounts with
  | settled hpart hsettles honce =>
    obtain ⟨outcome, given, hgives, hnot, hgiven, rfl⟩ := hsettles.gives s
    obtain ⟨hreplayed, -⟩ | ⟨-, given₂, hgiven₂, hsettled⟩ := hgives.fate s
    · exact absurd hreplayed hnot
    obtain rfl := hgiven.unique hgiven₂
    have hsame : ∀ part ∈ v.parts, ∀ outcome', part.Gives (i, c) outcome' →
        ¬ IsReplayed s outcome' ∧ ∃ given', Attempt.Gives outcome' given' ∧
          given'.map Dispatch.asOneReply = given.map Dispatch.asOneReply := by
      intro part hpart' outcome' hgives'
      obtain ⟨-, move, hreplay⟩ | ⟨hnot', given', hgiven', hsettled'⟩ := hgives'.fate s
      · cases hof.fate_eq (hfates hpart hsettled) (hfates hpart' hreplay)
      · have heq := hof.fate_eq (hfates hpart' hsettled') (hfates hpart hsettled)
        exact ⟨hnot', given', hgiven', Fate.settled.inj heq⟩
    refine ⟨⟨_, hpart, outcome, hgives⟩, ?_, ?_⟩
    · intro part hpart' outcome' hgives'
      exact ⟨fun hi => absurd hi honce, fun hi => absurd hi (hsame part hpart' _ hgives').1⟩
    · intro part hpart' outcome' hgives' _
      obtain ⟨-, given', hgiven', heq⟩ := hsame part hpart' _ hgives'
      exact ⟨given', hgiven', by rw [heq, hresult]⟩
  | @again part x hpart hdefers hx hplace =>
    obtain ⟨outcome, hgives, hreplayed⟩ := hdefers.gives s
    have hi : i ∈ again.map Replay.place := by
      rw [← show x.place = i from hplace]
      exact List.mem_map_of_mem hx
    obtain ⟨-, move, hreplay⟩ | ⟨hnot, -⟩ := hgives.fate s
    · refine ⟨⟨part, hpart, outcome, hgives⟩, ?_, fun _ _ _ _ hnot => absurd hi hnot⟩
      intro part' hpart' outcome' hgives'
      refine ⟨fun _ => ?_, fun _ => hi⟩
      obtain ⟨hreplayed', -⟩ | ⟨-, given', -, hsettled⟩ := hgives'.fate s
      · exact hreplayed'
      · cases hof.fate_eq (hfates hpart hreplay) (hfates hpart' hsettled)
    · exact absurd hreplayed hnot

/-- How a pipeline goes on after a volley. Nothing is reset but while a command is sent again. -/
structure Volley.Concludes (s : Settings) (commands : List Command) (v : Volley σ)
    (refresh rest : List (Event σ)) (r : Except Fault (List (Except Fault Reply))) : Prop where
  volley : v.Of s commands
  ends : v.Ends s commands rest r
  failed : (∃ f, r = .error f) → ∀ e ∈ refresh ++ v.events ++ rest, ¬ e.request.Resets
  judged : ∀ results, r = .ok results → ∃ (patches : List (Event σ)) (again : List (Replay σ)),
    rest = patches ++ again.flatMap Replay.events ∧
    (∀ e ∈ refresh ++ v.events ++ patches, ¬ e.request.Resets) ∧
    ∀ i c, commands[i]? = some c → v.Judges s again results (i, c)

theorem Volley.Ends.concludes {refresh rest : List (Event σ)}
    {r : Except Fault (List (Except Fault Reply))} (h : v.Ends s commands rest r)
    (hof : v.Of s commands)
    (hrefresh : Action.Runs (Discovery.refreshIfNeeded s) refresh (.ok ())) :
    v.Concludes s commands refresh rest r := by
  have hbefore : ∀ e ∈ refresh ++ v.events, ¬ e.request.Resets := by
    intro e he
    rcases List.mem_append.mp he with he | he
    · exact (Discovery.refreshIfNeeded_uses Discovery.admits_unreset s).of_runs hrefresh e he
    · exact hof.unreset e he
  have hwith : ∀ {patched : List (Event σ)} {moves : List Redirect},
      Action.Runs (patchAll s moves) patched (.ok ()) →
        ∀ e ∈ refresh ++ v.events ++ patched, ¬ e.request.Resets := by
    intro patched moves hpatched e he
    rcases List.mem_append.mp he with he | he
    · exact hbefore e he
    · exact (patchAll_uses Discovery.admits_unreset s moves).of_runs hpatched e he
  refine ⟨hof, h, ?_, ?_⟩
  · rintro ⟨f, rfl⟩ e he
    cases h with
    | unpatched _ hpatched hfailed =>
      rw [← List.append_assoc] at he
      rcases List.mem_append.mp he with he | he
      · exact hwith hpatched e he
      · exact hfailed.unreset e he
  · rintro results rfl
    cases h with
    | answered hpatches hanswers =>
      exact ⟨_, _, rfl, hwith hpatches, fun i c hc => hanswers.judges hof hc⟩

/-- Once the batches of a pipeline were sent, each command is sent again if a request would go on
after its outcome, but for two exceptions, and else has the outcome for its result. Whatever the
outcomes are, nothing is reset before a command is sent again. -/
theorem outcomes_judged_without_reset {p : Pipeline} (hparts : p.transaction = false)
    {es : List (Event σ)} {r : Except Fault (List (Except Fault Reply))}
    (h : Job.Runs (p.run s) es r) (hsent : ∃ e ∈ es, ∃ node, e.request = .checkout node) :
    ∃ (v : Volley σ) (refresh rest : List (Event σ)), es = refresh ++ v.events ++ rest ∧
      v.Concludes s p.commands refresh rest r := by
  obtain ⟨e, he, node, hcheckout⟩ := hsent
  rcases inParts_of_runs hparts h with hempty | hunsent | ⟨hrefresh, hof, hends⟩
  · cases he
  · have hupkeep := hunsent.2 e he
    rw [hcheckout] at hupkeep
    exact hupkeep.elim
  · exact ⟨_, _, _, rfl, hends.concludes hof hrefresh⟩

/-- The cluster is down. After a request the client has forgotten its topology and asks for it
anew. After a pipeline it goes on with the old one. -/
theorem outcomes_judged_without_reset_down :
    let time := Command.ofWords ["TIME"]
    let down : ServerError := .known .clusterDown (some "down")
    let p : Pipeline := ⟨[time], false⟩
    let c := Canned.client {} [.array [], .error down, .array [], .okay]
    let es := c.trace (p.run {}).run
    let r := (c.run (p.run {}).run).1
    let later := (c.run (p.run {}).run).2
    let execute := (Dispatch.execute {} time).run
    p.transaction = false ∧ Job.Runs (p.run {}) es r ∧
      (∃ e ∈ es, ∃ node, e.request = .checkout node) ∧
      r.toOption.map (List.map faultOf?) = some [some (.server down)] ∧
      (∀ left st, (judge {} left st (.ok [.error down])).effect = .startOver) ∧
      written (later.trace execute) = [[time]] ∧
      written ((c.run execute).2.trace execute) = [[Command.clusterSlots], [time]] ∧
      ∃ (v : Volley Canned) (refresh rest : List (Event Canned)),
        es = refresh ++ v.events ++ rest ∧ v.Concludes {} p.commands refresh rest r := by
  intro time down p c es r later execute
  have hruns : Job.Runs (p.run {}) es r := Client.runs_trace _ _
  have hsent : ∃ e ∈ es, ∃ node, e.request = .checkout node :=
    exists_checkout_of_matches (by decide +kernel)
  have hover : ∀ left st, (judge {} left st (.ok [.error down])).effect = .startOver :=
    fun left st => effect_eq_startOver_iff.mpr ⟨.server down, .alone down, .inl ⟨some "down", rfl⟩⟩
  exact ⟨rfl, hruns, hsent, by decide +kernel, hover, by decide +kernel, by decide +kernel,
    outcomes_judged_without_reset rfl hruns hsent⟩

end Pipeline

end SlotCluster
