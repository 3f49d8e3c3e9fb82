import SlotCluster.Proofs.Batches
import SlotCluster.Proofs.ResultTable

/-!
# The results of a pipeline in parts

Every command gets one result: its own reply, the error of its batch, or what came of it when it
was sent again alone. This holds unless a moved slot could not be patched, which ends the pipeline
with nothing but that error.
-/

namespace SlotCluster

variable {σ : Type}

/-! ## Replies -/

namespace Reply

/-- The node sends the command elsewhere, or asks to wait. -/
def defers : Reply → Bool
  | .error (.known .moved _) | .error (.known .ask _) | .error (.known .tryAgain _) => true
  | _ => false

def move? : Reply → Option Redirect
  | .error (.known .moved detail) => (ServerError.known .moved detail).redirect?
  | _ => none

def result : Reply → Except Fault Reply
  | .error e => .error (.server e)
  | r => .ok r

end Reply

namespace Pipeline

theorem fateOfReply_eq (r : Reply) :
    fateOfReply r = if r.defers then .replay r.move? else .settled r.result := by
  cases r with
  | error e =>
    cases e with
    | known kind detail => cases kind <;> rfl
    | extension code detail => rfl
  | _ => rfl

theorem fateOfReply_move? (r : Reply) : (fateOfReply r).move? = r.move? := by
  cases r with
  | error e =>
    cases e with
    | known kind detail => cases kind <;> rfl
    | extension code detail => rfl
  | _ => rfl

/-! ## Parts -/

def Part.moves (part : Part σ) : List Redirect :=
  match part.outcome with
  | .ok replies => replies.filterMap Reply.move?
  | .error _ => []

def Part.fates (part : Part σ) : List (Nat × Fate) := fatesOfBatch part.batch part.outcome

theorem Part.fates_ok {part : Part σ} {replies : List Reply}
    (houtcome : part.outcome = .ok replies) :
    part.fates =
      (part.batch.commands.zip replies).map fun x => (x.1.1, fateOfReply x.2) := by
  unfold Part.fates fatesOfBatch
  rw [houtcome, List.zip_eq_zipWith, List.map_zipWith]

theorem Part.fate_of_reply {part : Part σ} {c : Placed} {replies : List Reply} {reply : Reply}
    (houtcome : part.outcome = .ok replies)
    (hreply : (c, reply) ∈ part.batch.commands.zip replies) :
    (c.1, if reply.defers then .replay reply.move? else .settled reply.result) ∈ part.fates := by
  rw [← fateOfReply_eq, Part.fates_ok houtcome]
  exact List.mem_map_of_mem hreply

theorem Part.fate_of_error {part : Part σ} {c : Placed} {f : Fault}
    (houtcome : part.outcome = .error f) (hc : c ∈ part.batch.commands) :
    (c.1, if f.isIo then .replay none else .settled (.error f)) ∈ part.fates := by
  simp only [Part.fates, fatesOfBatch, houtcome]
  exact List.mem_map_of_mem hc

/-- The command has a reply that defers it, or its batch was lost in the network. -/
inductive Part.Defers (part : Part σ) (c : Placed) : Prop
  | lost {f : Fault} (outcome_ : part.outcome = .error f) (member : c ∈ part.batch.commands)
      (io : f.isIo = true)
  | deferred {replies : List Reply} {reply : Reply} (outcome_ : part.outcome = .ok replies)
      (reply_ : (c, reply) ∈ part.batch.commands.zip replies) (defers : reply.defers = true)

/-- The command has this result from its batch, and no reason to be sent again. -/
inductive Part.Settles (part : Part σ) (c : Placed) : Except Fault Reply → Prop
  | own {replies : List Reply} {reply : Reply} (outcome_ : part.outcome = .ok replies)
      (reply_ : (c, reply) ∈ part.batch.commands.zip replies) (stays : reply.defers = false) :
      Settles part c reply.result
  | refused {f : Fault} (outcome_ : part.outcome = .error f) (member : c ∈ part.batch.commands)
      (io : f.isIo = false) : Settles part c (.error f)

variable [Transport σ]

theorem Part.Sent.length_eq {s : Settings} {part : Part σ} (h : part.Sent s) {replies : List Reply}
    (houtcome : part.outcome = .ok replies) : part.batch.commands.length = replies.length := by
  have hcontact := h.contact
  rw [houtcome] at hcontact
  simpa using hcontact.length_eq.symm

theorem Part.Sent.replied {s : Settings} {part : Part σ} (h : part.Sent s) {replies : List Reply}
    (houtcome : part.outcome = .ok replies) :
    (part.batch.commands.zip replies).map Prod.fst = part.batch.commands :=
  List.map_fst_zip (h.length_eq houtcome).le

theorem Part.Sent.places {s : Settings} {part : Part σ} (h : part.Sent s) :
    part.fates.map Prod.fst = part.batch.commands.map Prod.fst := by
  cases houtcome : part.outcome with
  | ok replies =>
    rw [Part.fates_ok houtcome, List.map_map]
    conv_rhs => rw [← h.replied houtcome, List.map_map]
    rfl
  | error f => simp [Part.fates, fatesOfBatch, houtcome, Function.comp_def]

theorem Part.Sent.moves_eq {s : Settings} {part : Part σ} (h : part.Sent s) :
    part.fates.filterMap (fun f => f.2.move?) = part.moves := by
  unfold Part.moves
  cases houtcome : part.outcome with
  | ok replies =>
    have hsnd : (part.batch.commands.zip replies).map Prod.snd = replies :=
      List.map_snd_zip (h.length_eq houtcome).ge
    rw [Part.fates_ok houtcome, List.filterMap_map]
    change _ = replies.filterMap Reply.move?
    conv_rhs => rw [← hsnd, List.filterMap_map]
    congr 1
    funext x
    exact fateOfReply_move? x.2
  | error f =>
    rw [List.filterMap_eq_nil_iff]
    intro x hx
    simp only [Part.fates, fatesOfBatch, houtcome, List.mem_map] at hx
    obtain ⟨c, -, rfl⟩ := hx
    cases f.isIo <;> rfl

/-- At most the batch is written, in one go, and before it a greeting. -/
def Part.WritesOnce (part : Part σ) : Prop :=
  (∃ f, part.outcome = .error f ∧
    (written part.events = [] ∨ written part.events = [[Command.readOnly]])) ∨
  written part.events = [part.batch.commands.map Prod.snd] ∨
  written part.events = [[Command.readOnly], part.batch.commands.map Prod.snd]

theorem Part.Sent.writesOnce {s : Settings} {part : Part σ} (h : part.Sent s) : part.WritesOnce :=
  Contact.written_cases h.contact

theorem Part.Sent.fate {s : Settings} {part : Part σ} (h : part.Sent s) {c : Placed}
    (hc : c ∈ part.batch.commands) :
    (∃ result, part.Settles c result ∧ (c.1, .settled result) ∈ part.fates) ∨
      part.Defers c ∧ ∃ move, (c.1, .replay move) ∈ part.fates := by
  cases houtcome : part.outcome with
  | ok replies =>
    obtain ⟨reply, hreply⟩ : ∃ reply, (c, reply) ∈ part.batch.commands.zip replies := by
      rw [← h.replied houtcome] at hc
      obtain ⟨⟨_, reply⟩, hmem, rfl⟩ := List.mem_map.mp hc
      exact ⟨reply, hmem⟩
    have hfate := Part.fate_of_reply houtcome hreply
    cases hdefers : reply.defers with
    | true =>
      rw [hdefers, if_pos rfl] at hfate
      exact .inr ⟨.deferred houtcome hreply hdefers, _, hfate⟩
    | false =>
      rw [hdefers, if_neg Bool.false_ne_true] at hfate
      exact .inl ⟨_, .own houtcome hreply hdefers, hfate⟩
  | error f =>
    have hfate := Part.fate_of_error houtcome hc
    cases hio : f.isIo with
    | true =>
      rw [hio, if_pos rfl] at hfate
      exact .inr ⟨.lost houtcome hc hio, _, hfate⟩
    | false =>
      rw [hio, if_neg Bool.false_ne_true] at hfate
      exact .inl ⟨_, .refused houtcome hc hio, hfate⟩

/-! ## Volleys -/

def numbered (commands : List Command) : List Placed := commands.zipIdx.map fun (c, i) => (i, c)

theorem numbered_places (commands : List Command) :
    (numbered commands).map Prod.fst = List.range commands.length := by
  rw [numbered, List.map_map, List.range_eq_range', ← List.zipIdx_map_snd 0 commands]
  rfl

theorem getElem?_numbered (commands : List Command) (i : Nat) :
    (numbered commands)[i]? = commands[i]?.map fun c => (i, c) := by
  rw [numbered, List.getElem?_map, List.getElem?_zipIdx, Option.map_map, Nat.zero_add]
  rfl

theorem mem_numbered {commands : List Command} {i : Nat} {c : Command}
    (h : commands[i]? = some c) : (i, c) ∈ numbered commands :=
  List.mem_of_getElem? (by rw [getElem?_numbered, h, Option.map_some])

theorem length_targets {commands : List Command} {targets : List SingleTarget}
    (h : Pipeline.targets commands = .ok targets) : targets.length = commands.length :=
  (forall₂_targets h).length_eq.symm

/-- All batches of a pipeline, sent at once. -/
structure Volley (σ : Type) where
  targets : List SingleTarget
  lookups : List (Lookup σ)
  parts : List (Part σ)
  sends : List (Event σ)

namespace Volley

def events (v : Volley σ) : List (Event σ) := v.lookups.flatMap Lookup.events ++ v.sends

/-- The commands, each with the name of the node that was found for it. -/
def named (v : Volley σ) (commands : List Command) : List (String × Placed) :=
  (v.lookups.map fun l => l.node.name).zip (numbered commands)

def moves (v : Volley σ) : List Redirect := v.parts.flatMap Part.moves

def fates (v : Volley σ) : List (Nat × Fate) := v.parts.flatMap Part.fates

/-- One lookup for each command in its turn. Then the batches of the nodes are sent side by side,
and each is written to its node once at most. -/
structure Of (s : Settings) (commands : List Command) (v : Volley σ) : Prop where
  targets : Pipeline.targets commands = .ok v.targets
  lookups : List.Forall₂
    (fun target l => Looks (fun reg => reg.resolve target) l.events (.ok l.node))
    v.targets v.lookups
  sorted : Sorted (v.named commands) (v.parts.map Part.batch)
  sent : ∀ part ∈ v.parts, part.Sent s
  together : Interleaved (v.parts.map Part.events) v.sends

/-! ## After a volley -/

/-- Why a moved slot was not patched. -/
inductive Unpatched (s : Settings) (m : Redirect) : List (Event σ) → Fault → Prop
  /-- The address is of no use. -/
  | nowhere {flag : Event σ} {f : Fault} (address : Address.split m.address = .error f)
      (flag_ : flag.request = .flagRefresh) : Unpatched s m [flag] f
  /-- A discovery was due at once, and has failed. -/
  | undiscovered {flag move : Event σ} {host : String} {port : UInt16} {es : List (Event σ)}
      {f : Fault} (address : Address.split m.address = .ok (host, port))
      (flag_ : flag.request = .flagRefresh) (move_ : move.request = .recordMove m.slot host port)
      (h : Action.Runs (Discovery.locked (Discovery.refreshIfPending s)) es (.error f)) :
      Unpatched s m (flag :: move :: es) f

theorem unpatched_of_runs {s : Settings} {m : Redirect} {es : List (Event σ)} {f : Fault}
    (h : Action.Runs (Discovery.patchMovedSlot s m) es (.error f)) : Unpatched s m es f := by
  unfold Discovery.patchMovedSlot at h
  obtain ⟨task, c, rest, rfl, hrest⟩ := (Action.runs_ask_bind_iff _).mp h
  obtain ⟨g, haddress, rfl, hg⟩ | ⟨⟨host, port⟩, haddress, hmove⟩ :=
    Action.runs_lift_bind_iff.mp hrest
  · cases hg
    exact .nowhere haddress rfl
  obtain ⟨task', c', more, rfl, hmore⟩ := (Action.runs_ask_bind_iff _).mp hmove
  split at hmore
  · exact .undiscovered haddress rfl rfl hmore
  · obtain ⟨-, hf⟩ := Action.runs_pure_iff.mp hmore
    cases hf

/-- How a command comes to its result. -/
inductive Accounts (v : Volley σ) (again : List (Replay σ)) (c : Placed) :
    Except Fault Reply → Prop
  | settled {part : Part σ} {result : Except Fault Reply} (part_ : part ∈ v.parts)
      (settles : part.Settles c result) (once : c.1 ∉ again.map Replay.place) :
      Accounts v again c result
  | again {part : Part σ} {x : Replay σ} (part_ : part ∈ v.parts) (defers : part.Defers c)
      (x_ : x ∈ again) (place : x.place = c.1) : Accounts v again c x.result

structure Answers (s : Settings) (commands : List Command) (v : Volley σ)
    (again : List (Replay σ)) (results : List (Except Fault Reply)) : Prop where
  length : results.length = commands.length
  ascending : (again.map Replay.place).Pairwise (· < ·)
  alone : ∀ x ∈ again, ∃ c target, commands[x.place]? = some c ∧
    v.targets[x.place]? = some target ∧
    Job.Runs (Dispatch.routeCommand s c (.single target)) x.events x.result
  accounts : ∀ i c, commands[i]? = some c →
    ∃ result, results[i]? = some result ∧ v.Accounts again (i, c) result
  /-- No place of the table is empty in the end. -/
  full : Job.Runs (replayAll s ((numbered commands).zip v.targets) (replays v.fates)
    (settle commands.length v.fates)) (again.flatMap Replay.events) (.ok (results.map some))

/-- What follows a volley: the moved slots are patched, and what is left is sent again. -/
inductive Ends (s : Settings) (commands : List Command) (v : Volley σ) :
    List (Event σ) → Except Fault (List (Except Fault Reply)) → Prop
  | answered {patches : List (Event σ)} {again : List (Replay σ)}
      {results : List (Except Fault Reply)}
      (patches_ : Action.Runs (patchAll s v.moves) patches (.ok ()))
      (answers : v.Answers s commands again results) :
      Ends s commands v (patches ++ again.flatMap Replay.events) (.ok results)
  /-- The first move that could not be patched ends it. -/
  | unpatched {before after : List Redirect} {m : Redirect} {patched failed : List (Event σ)}
      {f : Fault} (moves_ : v.moves = before ++ m :: after)
      (patched_ : Action.Runs (patchAll s before) patched (.ok ()))
      (failed_ : Unpatched s m failed f) : Ends s commands v (patched ++ failed) (.error f)

variable {s : Settings} {commands : List Command} {v : Volley σ}

theorem Of.length_lookups (h : v.Of s commands) : v.lookups.length = commands.length := by
  rw [← length_targets h.targets, h.lookups.length_eq]

theorem Of.named_commands (h : v.Of s commands) :
    (v.named commands).map Prod.snd = numbered commands :=
  List.map_snd_zip (by simp [numbered, h.length_lookups])

theorem Of.places (h : v.Of s commands) :
    (v.fates.map Prod.fst).Perm (List.range commands.length) := by
  have hfates : v.fates.map Prod.fst =
      (v.parts.map Part.batch).flatMap fun b => b.commands.map Prod.fst := by
    rw [fates, List.map_flatMap, List.flatMap_map]
    exact List.flatMap_congr fun part hpart => (h.sent part hpart).places
  rw [hfates, ← numbered_places, ← h.named_commands, ← List.map_flatMap]
  exact h.sorted.all.map Prod.fst

theorem Of.moves_eq (h : v.Of s commands) :
    v.fates.filterMap (fun f => f.2.move?) = v.moves := by
  rw [fates, List.filterMap_flatMap, moves]
  exact List.flatMap_congr fun part hpart => (h.sent part hpart).moves_eq

theorem Of.fate (h : v.Of s commands) {i : Nat} {c : Command} (hc : commands[i]? = some c) :
    ∃ part ∈ v.parts, (∃ result, part.Settles (i, c) result ∧ (i, .settled result) ∈ v.fates) ∨
      part.Defers (i, c) ∧ ∃ move, (i, .replay move) ∈ v.fates := by
  have hmem : (i, c) ∈ (v.parts.map Part.batch).flatMap Batch.commands := by
    rw [h.sorted.all.mem_iff, h.named_commands]
    exact mem_numbered hc
  rw [List.flatMap_map, List.mem_flatMap] at hmem
  obtain ⟨part, hpart, hc⟩ := hmem
  have hfates : ∀ fate, (i, fate) ∈ part.fates → (i, fate) ∈ v.fates :=
    fun fate hfate => List.mem_flatMap.mpr ⟨part, hpart, hfate⟩
  refine ⟨part, hpart, ?_⟩
  obtain ⟨result, hsettles, hfate⟩ | ⟨hdefers, move, hfate⟩ := (h.sent part hpart).fate hc
  · exact .inl ⟨result, hsettles, hfates _ hfate⟩
  · exact .inr ⟨hdefers, move, hfates _ hfate⟩

theorem Of.answers (h : v.Of s commands) {es : List (Event σ)} {r : Except Fault Table}
    (hreplays : Job.Runs (replayAll s ((numbered commands).zip v.targets) (replays v.fates)
      (settle commands.length v.fates)) es r) :
    ∃ (again : List (Replay σ)) (results : List (Except Fault Reply)),
      es = again.flatMap Replay.events ∧ r = .ok (results.map some) ∧
        v.Answers s commands again results := by
  have hnodup : (v.fates.map Prod.fst).Nodup := h.places.nodup_iff.mpr List.nodup_range
  have hperm := settled_replays_perm v.fates
  have hplaced : ∀ i ∈ replays v.fates, i < ((numbered commands).zip v.targets).length := by
    intro i hi
    have hrange := h.places.mem_iff.mp (hperm.mem_iff.mp (List.mem_append_right _ hi))
    simpa [numbered, length_targets h.targets] using hrange
  obtain ⟨again, rfl, hplaces, halone, rfl⟩ := runs_replayAll hplaced hreplays
  have hentries : ((settled v.fates ++ again.map Replay.entry).map Prod.fst).Perm
      (List.range commands.length) := by
    have hagain : (again.map Replay.entry).map Prod.fst = replays v.fates := by
      rw [List.map_map, ← hplaces]
      rfl
    rw [List.map_append, hagain]
    exact hperm.trans h.places
  -- Each place is settled by the volley or replayed, and none is both.
  obtain ⟨results, hfull, hlength, hresults⟩ := enter_full hentries
  rw [enter_append, ← settle_eq_enter] at hfull
  refine ⟨again, results, rfl, by rw [hfull], ?_⟩
  constructor
  · exact hlength
  · rw [hplaces]
    exact replays_ascending hnodup
  · intro x hx
    obtain ⟨⟨i, c⟩, target, hplace, hroute⟩ := halone x hx
    obtain ⟨hcommand, htarget⟩ := List.getElem?_zip_eq_some.mp hplace
    rw [getElem?_numbered] at hcommand
    obtain ⟨_, hcommand, heq⟩ := Option.map_eq_some_iff.mp hcommand
    cases heq
    exact ⟨c, target, hcommand, htarget, hroute⟩
  · intro i c hc
    obtain ⟨part, hpart, ⟨result, hsettles, hfate⟩ | ⟨hdefers, move, hfate⟩⟩ := h.fate hc
    · have hsettled : (i, result) ∈ settled v.fates := mem_settled_iff.mpr hfate
      refine ⟨result, hresults _ (List.mem_append_left _ hsettled), .settled hpart hsettles ?_⟩
      rw [hplaces]
      exact List.disjoint_of_nodup_append (hperm.nodup_iff.mpr hnodup)
        (List.mem_map_of_mem hsettled)
    · have hi : i ∈ again.map Replay.place := by
        rw [hplaces]
        exact mem_replays_iff.mpr ⟨move, hfate⟩
      obtain ⟨x, hx, rfl⟩ := List.mem_map.mp hi
      refine ⟨x.result, ?_, .again hpart hdefers hx rfl⟩
      exact hresults x.entry (List.mem_append_right _ (List.mem_map_of_mem hx))
  · rwa [hfull] at hreplays

end Volley

theorem runs_patchAll_error {s : Settings} {moves : List Redirect} {es : List (Event σ)} {f : Fault}
    (h : Action.Runs (patchAll s moves) es (.error f)) :
    ∃ before m after patched failed, moves = before ++ m :: after ∧ es = patched ++ failed ∧
      Action.Runs (patchAll s before) patched (.ok ()) ∧ Volley.Unpatched s m failed f := by
  induction moves generalizing es with
  | nil =>
    obtain ⟨-, hf⟩ := Action.runs_pure_iff.mp h
    cases hf
  | cons m rest ih =>
    rw [patchAll, Action.runs_bind_iff] at h
    obtain ⟨g, hg, hfg⟩ | ⟨_, es₁, es₂, rfl, h₁, h₂⟩ := h
    · cases hfg
      exact ⟨[], m, rest, [], es, rfl, rfl, Action.runs_pure_iff.mpr ⟨rfl, rfl⟩,
        Volley.unpatched_of_runs hg⟩
    · obtain ⟨before, m', after, patched, failed, rfl, rfl, hpatched, hfailed⟩ := ih h₂
      refine ⟨m :: before, m', after, es₁ ++ patched, failed, rfl, by simp, ?_, hfailed⟩
      rw [patchAll, Action.runs_bind_iff]
      exact .inr ⟨(), es₁, patched, rfl, h₁, hpatched⟩

omit [Transport σ] in
theorem fates_of_parts (parts : List (Part σ)) :
    fates (parts.map Part.batch) (parts.map Part.outcome) = parts.flatMap Part.fates := by
  rw [fates, List.zipWith_map, List.zipWith_self, List.flatMap_def]
  rfl

theorem Volley.of_sends {s : Settings} {commands : List Command} {targets : List SingleTarget}
    (htargets : Pipeline.targets commands = .ok targets) {lookups : List (Lookup σ)}
    (hlookups : List.Forall₂
      (fun c l => Looks (fun reg => reg.resolve c.2) l.events (.ok l.node))
      ((numbered commands).zip targets) lookups)
    {parts : List (Part σ)}
    (hsorted : Sorted (((numbered commands).zip targets).zipWith (fun c l => (l.node.name, c.1))
      lookups) (parts.map Part.batch))
    (hsent : ∀ part ∈ parts, part.Sent s) {sends : List (Event σ)}
    (htogether : Interleaved (parts.map Part.events) sends) :
    Volley.Of s commands ⟨targets, lookups, parts, sends⟩ := by
  have hlength : (numbered commands).length = targets.length := by
    rw [length_targets htargets, numbered, List.length_map, List.length_zipIdx]
  constructor
  · exact htargets
  · rw [← List.map_snd_zip hlength.ge, List.forall₂_map_left_iff]
    exact hlookups
  · have hnamed : Volley.named ⟨targets, lookups, parts, sends⟩ commands =
        ((numbered commands).zip targets).zipWith (fun c l => (l.node.name, c.1)) lookups := by
      conv_lhs => rw [Volley.named, ← List.map_fst_zip hlength.le]
      rw [List.zip_eq_zipWith, List.zipWith_map, List.zipWith_comm]
    rw [hnamed]
    exact hsorted
  · exact hsent
  · exact htogether

theorem Volley.Of.ends {s : Settings} {commands : List Command} {v : Volley σ}
    (h : v.Of s commands) {es : List (Event σ)} {r : Except Fault (List (Except Fault Reply))}
    (hruns : Job.Runs (do
      patchAll s (v.fates.filterMap fun f => f.2.move?)
      let table ← replayAll s ((numbered commands).zip v.targets) (replays v.fates)
        (settle commands.length v.fates)
      return finish table) es r) : v.Ends s commands es r := by
  rw [h.moves_eq] at hruns
  obtain ⟨f, hf, rfl⟩ | ⟨_, patches, es₁, rfl, hpatches, hafter⟩ := Job.runs_bind_iff.mp hruns
  · obtain ⟨before, m, after, patched, failed, hmoves, rfl, hpatched, hfailed⟩ :=
      runs_patchAll_error (Job.runs_action_iff.mp hf)
    exact .unpatched hmoves hpatched hfailed
  obtain ⟨f, hf, -⟩ | ⟨table, again, es₂, rfl, hagain, hdone⟩ := Job.runs_bind_iff.mp hafter
  · obtain ⟨again, results, -, hresults, -⟩ := h.answers hf
    cases hresults
  · obtain ⟨xs, results, rfl, hresults, hanswers⟩ := h.answers hagain
    cases hresults
    obtain ⟨rfl, rfl⟩ := Task.runs_done_iff.mp hdone
    rw [finish_some, List.append_nil]
    exact .answered (Job.runs_action_iff.mp hpatches) hanswers

/-- Either no node could be found for some command and nothing is written, or all batches are
sent. -/
theorem runs_runParts {s : Settings} {commands : List Command} {targets : List SingleTarget}
    (htargets : Pipeline.targets commands = .ok targets) {es : List (Event σ)}
    {r : Except Fault (List (Except Fault Reply))}
    (h : Job.Runs (runParts s commands targets) es r) :
    Unsent es r ∨
      ∃ (v : Volley σ) (rest : List (Event σ)), v.Of s commands ∧ es = v.events ++ rest ∧
        v.Ends s commands rest r := by
  unfold runParts at h
  obtain ⟨f, hf, rfl⟩ | ⟨batches, _, es₂, rfl, hgroup, hrest⟩ := Job.runs_bind_iff.mp h
  · have hlooks := (group_looksUp _ _).of_runs (Job.runs_action_iff.mp hf)
    exact .inl ⟨⟨f, rfl⟩, fun e he => (hlooks e he).isUpkeep⟩
  refine .inr ?_
  obtain ⟨lookups, rfl, hlookups, hsorted⟩ := runs_group .nil (Job.runs_action_iff.mp hgroup)
  obtain ⟨f, hf, -⟩ | ⟨results, sends, es₃, rfl, hsends, hends⟩ := Job.runs_bind_iff.mp hrest
  · obtain ⟨v, -, hv⟩ := Job.runs_task_iff.mp hf
    cases hv
  obtain ⟨outcomes, hall, hresults⟩ := Job.runs_task_iff.mp hsends
  cases hresults
  obtain ⟨parts, rfl, rfl, htogether, hsent⟩ := runs_sendParts (Task.runs_gatherAll_iff.mp hall)
  have hof := Volley.of_sends htargets hlookups hsorted hsent htogether
  rw [fates_of_parts] at hends
  exact ⟨_, es₃, hof, by simp [Volley.events], hof.ends hends⟩

/-! ## Whole pipelines -/

/-- What may come of a pipeline in parts. -/
inductive InParts (s : Settings) (commands : List Command) :
    List (Event σ) → Except Fault (List (Except Fault Reply)) → Prop
  | empty (none_ : commands = []) : InParts s commands [] (.ok [])
  | unsent {es : List (Event σ)} {r : Except Fault (List (Except Fault Reply))}
      (h : Unsent es r) : InParts s commands es r
  | sent {v : Volley σ} {refresh rest : List (Event σ)}
      {r : Except Fault (List (Except Fault Reply))}
      (refresh_ : Action.Runs (Discovery.refreshIfNeeded s) refresh (.ok ()))
      (volley : v.Of s commands) (ends : v.Ends s commands rest r) :
      InParts s commands (refresh ++ v.events ++ rest) r

theorem inParts_of_runs {s : Settings} {p : Pipeline} (hparts : p.transaction = false)
    {es : List (Event σ)} {r : Except Fault (List (Except Fault Reply))}
    (h : Job.Runs (p.run s) es r) : InParts s p.commands es r := by
  obtain ⟨hempty, rfl, rfl⟩ | ⟨f, hstopped, rfl⟩ |
    ⟨targets, refresh, rest, htargets, rfl, hrefresh, hrest⟩ := runs_run h
  · exact .empty hempty
  · exact .unsent hstopped.unsent
  rw [hparts, if_neg Bool.false_ne_true] at hrest
  obtain ⟨hfails, hquiet⟩ | ⟨v, rest, hof, rfl, hends⟩ := runs_runParts htargets hrest
  · refine .unsent ⟨hfails, ?_⟩
    intro e he
    rcases List.mem_append.mp he with he | he
    · exact (Discovery.refreshIfNeeded_upkeep s).of_runs hrefresh e he
    · exact hquiet e he
  · rw [← List.append_assoc]
    exact .sent hrefresh hof hends

/-- Every command of a pipeline in parts has a result that is its own. The commands for a node are
written to it in one go, in their order. -/
theorem each_command_answered {s : Settings} {p : Pipeline} (hparts : p.transaction = false)
    {es : List (Event σ)} {r : Except Fault (List (Except Fault Reply))}
    (h : Job.Runs (p.run s) es r) :
    (p.commands = [] ∧ es = [] ∧ r = .ok []) ∨ Unsent es r ∨
      ∃ (v : Volley σ) (refresh rest : List (Event σ)), es = refresh ++ v.events ++ rest ∧
        (∀ e ∈ refresh, e.request.IsUpkeep) ∧ v.Of s p.commands ∧
        (∀ part ∈ v.parts, part.WritesOnce) ∧
        ∀ results, r = .ok results → ∃ (patches : List (Event σ)) (again : List (Replay σ)),
          rest = patches ++ again.flatMap Replay.events ∧ (∀ e ∈ patches, e.request.IsUpkeep) ∧
          v.Answers s p.commands again results := by
  rcases inParts_of_runs hparts h with hempty | hunsent | ⟨hrefresh, hof, hends⟩
  · exact .inl ⟨hempty, rfl, rfl⟩
  · exact .inr (.inl hunsent)
  refine .inr (.inr ⟨_, _, _, rfl, (Discovery.refreshIfNeeded_upkeep s).of_runs hrefresh, hof,
    fun part hpart => (hof.sent part hpart).writesOnce, ?_⟩)
  rintro results rfl
  cases hends with
  | answered hpatches hanswers =>
    exact ⟨_, _, rfl, (patchAll_upkeep s _).of_runs hpatches, hanswers⟩

/-- Two commands for one node, the second of which has to wait and is sent again. -/
theorem each_command_answered_waiting :
    let time := Command.ofWords ["TIME"]
    let p : Pipeline := ⟨[time, time], false⟩
    let c := Canned.client {}
      [.array [], .okay, .error (.known .tryAgain none), .simple "later"]
    let es := c.trace (p.run {}).run
    let r := (c.run (p.run {}).run).1
    p.transaction = false ∧ Job.Runs (p.run {}) es r ∧
      written es = [[Command.clusterSlots], [time, time], [time]] ∧ faultOf? r = none ∧
      ((p.commands = [] ∧ es = [] ∧ r = .ok []) ∨ Unsent es r ∨
        ∃ (v : Volley Canned) (refresh rest : List (Event Canned)),
          es = refresh ++ v.events ++ rest ∧ (∀ e ∈ refresh, e.request.IsUpkeep) ∧
          v.Of {} p.commands ∧ (∀ part ∈ v.parts, part.WritesOnce) ∧
          ∀ results, r = .ok results →
            ∃ (patches : List (Event Canned)) (again : List (Replay Canned)),
            rest = patches ++ again.flatMap Replay.events ∧ (∀ e ∈ patches, e.request.IsUpkeep) ∧
            v.Answers {} p.commands again results) :=
  ⟨rfl, Client.runs_trace _ _, by decide +kernel, by decide +kernel,
    each_command_answered rfl (Client.runs_trace _ _)⟩

/-- A node that is loading refuses the link of a client that reads from replicas. The command has
this error for its result, though it was never written and is not sent again. -/
theorem refused_batch_not_replayed :
    let time := Command.ofWords ["TIME"]
    let p : Pipeline := ⟨[time], false⟩
    let s : Settings := { readFromReplicas := true }
    let loading : ServerError := .known .busyLoading (some "busy")
    let c := Canned.client s [.array [], .error loading, .okay]
    let es := c.trace (p.run s).run
    let r := (c.run (p.run s).run).1
    r.toOption.map (List.map faultOf?) = some [some (.server loading)] ∧
      (Fault.server loading).isIo = false ∧
      written es = [[Command.clusterSlots], [Command.readOnly]] ∧
      (es.filter fun e => e.request matches .checkout _).length = 1 := by
  decide +kernel

omit [Transport σ] in
theorem exists_checkout_of_matches {es : List (Event σ)}
    (h : ∃ e ∈ es, (e.request matches .checkout _) = true) :
    ∃ e ∈ es, ∃ node, e.request = .checkout node := by
  obtain ⟨e, he, hmatch⟩ := h
  refine ⟨e, he, ?_⟩
  cases hrequest : e.request
  case checkout node => exact ⟨node, rfl⟩
  all_goals
    rw [hrequest] at hmatch
    cases hmatch

/-- Once batches were sent there is one result per command, unless a moved slot cannot be patched.
The first such slot ends the pipeline, and no reply that has come is left. -/
theorem answered_unless_unpatched {s : Settings} {p : Pipeline} (hparts : p.transaction = false)
    {es : List (Event σ)} {r : Except Fault (List (Except Fault Reply))}
    (h : Job.Runs (p.run s) es r) (hsent : ∃ e ∈ es, ∃ node, e.request = .checkout node) :
    ∃ (v : Volley σ) (refresh rest : List (Event σ)), es = refresh ++ v.events ++ rest ∧
      v.Of s p.commands ∧ v.Ends s p.commands rest r := by
  obtain ⟨e, he, node, hcheckout⟩ := hsent
  rcases inParts_of_runs hparts h with hempty | hunsent | ⟨-, hof, hends⟩
  · cases he
  · have hupkeep := hunsent.2 e he
    rw [hcheckout] at hupkeep
    exact hupkeep.elim
  · exact ⟨_, _, _, rfl, hof, hends⟩

/-- The second of two commands has moved to nowhere, and the first loses its reply. -/
theorem answered_unless_unpatched_nowhere :
    let time := Command.ofWords ["TIME"]
    let p : Pipeline := ⟨[time, time], false⟩
    let c := Canned.client {} [.array [], .okay, .error (.known .moved (some "1 nowhere"))]
    let es := c.trace (p.run {}).run
    let r := (c.run (p.run {}).run).1
    p.transaction = false ∧ Job.Runs (p.run {}) es r ∧
      (∃ e ∈ es, ∃ node, e.request = .checkout node) ∧
      written es = [[Command.clusterSlots], [time, time]] ∧
      faultOf? r = some (.invalidAddress "nowhere") ∧
      ∃ (v : Volley Canned) (refresh rest : List (Event Canned)),
        es = refresh ++ v.events ++ rest ∧ v.Of {} p.commands ∧ v.Ends {} p.commands rest r := by
  intro time p c es r
  have hruns : Job.Runs (p.run {}) es r := Client.runs_trace _ _
  have hsent : ∃ e ∈ es, ∃ node, e.request = .checkout node :=
    exists_checkout_of_matches (by decide +kernel)
  exact ⟨rfl, hruns, hsent, by decide +kernel, by decide +kernel,
    answered_unless_unpatched rfl hruns hsent⟩

end Pipeline

end SlotCluster
