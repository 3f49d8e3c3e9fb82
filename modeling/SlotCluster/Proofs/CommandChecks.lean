import SlotCluster.Proofs.CalmAnswers
import SlotCluster.Proofs.RefreshInFlight
import SlotCluster.Proofs.RefusedCommands
import SlotCluster.Proofs.Strands

/-!
# The check before a command

A command looks whether some slots are known and no discovery is asked for. Otherwise it takes the
lock and looks again, and it makes the discovery itself unless another one has done so. All its
requests up to there follow a protocol, and after it those of a command that is answered calmly are
plain.
-/

namespace SlotCluster

/-! ## Usable topologies -/

/-- What belongs together, and some slot has an owner. -/
structure Topology.IsUsable (t : Topology) : Prop where
  whole : t.Whole
  owned : ∃ slot owners, t.table.get? slot = some owners

def Request.InstallsUsable : Request → Prop
  | .install t _ => t.IsUsable
  | _ => False

theorem Request.InstallsUsable.exists_install {r : Request} (h : r.InstallsUsable) :
    ∃ t required, r = .install t required ∧ t.IsUsable := by
  cases r with
  | install t required => exact ⟨t, required, rfl, h⟩
  | _ => exact h.elim

open SlotCluster.Action

namespace Discovery

theorem owned_of_absorb {onlySeed : Bool} {node : Node} {reply : Reply} {t t' : Topology}
    (h : absorb onlySeed node reply t = .ok t') :
    ∃ slot owners, t'.table.get? slot = some owners := by
  have hsingle : ∃ slot owners, (Topology.single node).table.get? slot = some owners := by
    have hzero : (0 : UInt16).toNat < 16384 := by decide
    obtain ⟨owner, -, -, -, hget⟩ := Topology.get?_single node hzero
    exact ⟨0, _, hget⟩
  rw [absorb_eq] at h
  split at h
  · cases h
    exact hsingle
  split at h
  · cases h
  split at h
  · cases h
  next ranges hranges =>
  split at h
  · cases h
    exact hsingle
  · next hsome =>
    have hlisted := SlotRange.listed_of_ofReply hranges
    obtain ⟨range, hrange⟩ := List.exists_mem_of_ne_nil ranges fun hnil => hsome (by simp [hnil])
    have hcovers : range.Covers range.first := ⟨UInt16.le_refl _, (hlisted range hrange).ordered⟩
    obtain ⟨owners, howners, -⟩ := (Topology.merged_of_ok h hlisted).agreed hrange hcovers
    exact ⟨range.first, owners, howners⟩

theorem Survey.keeps_usable :
    Survey.Keeps fun v => v.topology.Whole ∧ (v.answered = true → v.topology.IsUsable) where
  start := ⟨Topology.whole_empty, nofun⟩
  failed _ _ h := h
  answered h absorbed :=
    have hwhole := whole_of_absorb absorbed h.1
    ⟨hwhole, fun _ => ⟨hwhole, owned_of_absorb absorbed⟩⟩
  decided _ h := h

end Discovery

/-! ## How far a command has come -/

inductive Stage
  /-- It has done nothing. -/
  | fresh
  /-- It has to take the lock. -/
  | queued
  /-- It has the lock, and has to look again. -/
  | inside
  /-- It has found slots, and has to ask whether a discovery is asked for. -/
  | looked
  | discovering
  /-- Its discovery has failed. -/
  | failed
  /-- It has to give the lock back. -/
  | met
  /-- It goes on. -/
  | past
  /-- It does not go on. -/
  | gone
  deriving DecidableEq, Repr

namespace Stage

/-- The command has the lock. -/
def isInside : Stage → Bool
  | inside | looked | discovering | failed | met => true
  | _ => false

end Stage

def checkProtocol : Protocol Stage where
  Allows
    | .fresh, r | .inside, r => r = .registry
    | .queued, r => r = .lock
    | .looked, r => r = .takeRefresh
    | .discovering, r => r.IsPlain ∨ r.InstallsUsable ∨ r = .flagRefresh
    | .failed, r | .met, r => r = .unlock
    | .past, r => r.IsPlain
    | .gone, _ => False
  next
    | .fresh, .registry, known => if Discovery.isReady known then .past else .queued
    | .queued, .lock, _ => .inside
    | .inside, .registry, known => if known.isInitialized then .looked else .discovering
    | .looked, .takeRefresh, taken => if taken then .discovering else .met
    | .discovering, .install _ _, _ => .met
    | .discovering, .flagRefresh, _ => .failed
    | .failed, .unlock, _ => .gone
    | .met, .unlock, _ => .past
    | stage, _, _ => stage

/-- Only a command that goes on has to be served. -/
def checkContract (s : Settings) : Contract Stage where
  toProtocol := checkProtocol
  Honest
    | .past, r, a => r.Serves s a
    | _, _, _ => True
  Sound _ := True

theorem checkProtocol_next_plain {r : Request} (h : r.IsPlain) (a : r.Answer) :
    checkProtocol.next .discovering r a = .discovering := by
  cases r with
  | flagRefresh | takeRefresh | recordMove | install | forget | lock | unlock => exact h.elim
  | _ => rfl

theorem checkProtocol_next_past (r : Request) (a : r.Answer) :
    checkProtocol.next .past r a = .past := rfl

/-! ### Checks -/

namespace Discovery

theorem run_keeps_check (s : Settings) :
    Action.Keeps checkProtocol
      (fun r φ => φ = match r with | .ok _ => .met | .error _ => .discovering)
      (run s) .discovering := by
  refine run_keeps_until_install Survey.keeps_usable s Stage.discovering Stage.met ?_ ?_
  · have hplain : ∀ r : Request, r.IsPlain → checkProtocol.Allows .discovering r ∧
        ∀ a, checkProtocol.next .discovering r a = .discovering :=
      fun r hr => ⟨.inl hr, checkProtocol_next_plain hr⟩
    rintro r (hr | rfl)
    · exact hplain r hr.isPlain
    · exact hplain .registry trivial
  · exact fun v required hv hanswered => ⟨.inr (.inl (hv.2 hanswered)), fun _ => rfl⟩

theorem runIfDue_keeps_check (s : Settings) :
    Action.Keeps checkProtocol (fun r φ => φ = match r with | .ok _ => .met | .error _ => .failed)
      (runIfDue s) .inside := by
  have hrun : Action.Keeps checkProtocol
      (fun r φ => φ = match r with | .ok _ => .met | .error _ => .failed)
      (runOrFlag s) .discovering := by
    refine keeps_bind_iff.mpr (keeps_outcome_iff.mpr ((run_keeps_check s).mono ?_))
    rintro (f | ⟨⟩) _ rfl
    · exact ⟨.inr (.inr rfl), fun _ => rfl⟩
    · rfl
  rw [runIfDue_eq, isDue, keeps_bind_iff]
  refine keeps_ask_bind_iff.mpr ⟨rfl, fun registry => ?_⟩
  have hnext : checkProtocol.next .inside .registry registry =
      if registry.isInitialized then .looked else .discovering := rfl
  rw [hnext]
  split
  · refine ⟨rfl, ?_⟩
    rintro (_ | _)
    · rfl
    · exact hrun
  · exact hrun

theorem refreshIfNeeded_keeps_check (s : Settings) :
    Action.Keeps checkProtocol (fun r φ => φ = match r with | .ok _ => .past | .error _ => .gone)
      (refreshIfNeeded s) .fresh := by
  unfold refreshIfNeeded
  refine keeps_ask_bind_iff.mpr ⟨rfl, fun registry => ?_⟩
  have hnext : checkProtocol.next .fresh .registry registry =
      if isReady registry then .past else .queued := rfl
  rw [hnext]
  by_cases hready : isReady registry = true
  · rw [if_pos hready, if_pos (by simpa [isReady] using hready)]
    rfl
  · rw [if_neg hready, if_neg (by simpa [isReady] using hready)]
    refine keeps_ask_bind_iff.mpr ⟨rfl, fun _ => ?_⟩
    refine keeps_bind_iff.mpr (keeps_outcome_iff.mpr ((runIfDue_keeps_check s).mono ?_))
    rintro (f | ⟨⟩) _ rfl
    all_goals exact ⟨rfl, fun _ => rfl⟩

end Discovery

/-! ### Calm commands -/

variable {α β : Type} {s : Settings}

theorem Program.Meets.past {p : Program α} (h : p.Meets (calmContract s) (fun _ _ => True) ()) :
    p.Meets (checkContract s) (fun _ φ => φ = .past) .past := by
  induction p with
  | done v => rfl
  | call r next ih => exact ⟨h.1, fun a ha => ih a (h.2 a ha)⟩

theorem Task.Meets.past {t : Task α} (h : t.Meets (calmContract s) (fun _ _ => True) ()) :
    t.Meets (checkContract s) (fun _ φ => φ = .past) .past := by
  induction t with
  | done v => rfl
  | call r next ih => exact ⟨h.1, fun a ha => ih a (h.2 a ha)⟩
  | gather programs next ih =>
    refine ⟨fun p hp => ?_, fun results hr => ih results (h.2 results hr)⟩
    obtain ⟨hleaves, hmeets⟩ := h.1 p hp
    exact ⟨hleaves.mono fun r _ => checkProtocol_next_past r, hmeets.past.mono fun _ _ _ => trivial⟩

/-- The command has come past its check, or it has ended with the fault of the discovery. -/
abbrev Stage.IsLast (_ : α) (φ : Stage) : Prop := φ = .past ∨ φ = .gone

namespace Dispatch

variable (s)

theorem routeCommand_meets_check {c : Command} {name : Bytes}
    (hname : Words.checkedName (Routable.words c) = .ok name) (routing : Routing) :
    Job.Meets (checkContract s) Stage.IsLast (routeCommand s c routing) .fresh := by
  unfold routeCommand
  rw [hname]
  refine Job.meets_bind_iff.mpr (Job.meets_lift_iff.mpr ?_)
  refine Job.meets_bind_iff.mpr (Job.meets_action_iff.mpr ?_)
  refine Program.Meets.mono ?_ (Discovery.refreshIfNeeded_keeps_check s).meets
  rintro (f | ⟨⟩) _ rfl
  · exact .inr rfl
  cases routing with
  | single target =>
    refine Job.meets_bind_iff.mpr (Job.meets_action_iff.mpr ?_)
    refine Program.Meets.mono ?_ (requestFrom_meets_calm s [c] target s.attempts .start).past
    rintro (f | replies) _ rfl
    all_goals exact .inl rfl
  | multi target policy =>
    exact (broadcast_meets_calm s c target policy).past.mono fun _ _ => .inl

end Dispatch

/-! ## Accepted commands -/

namespace Operation

def IsCommand : Operation → Prop
  | execute _ | route _ _ => True
  | _ => False

/-- The task begins with the check, and keeps to the contract from there on. -/
structure ChecksFirst (s : Settings) (t : Task Answer) : Prop where
  begins : ∃ k, t = (Task.ofProgram (Discovery.refreshIfNeeded s).run).bind k
  meets : t.Meets (checkContract s) Stage.IsLast .fresh

theorem checksFirst (s : Settings) {op : Operation} (hcommand : op.IsCommand)
    (haccepted : ∀ f, ¬ op.Rejects f) : ChecksFirst s (op.task s) := by
  have hroute : ∀ {c : Command} {name : Bytes} (routing : Routing),
      Words.checkedName (Routable.words c) = .ok name →
        ChecksFirst s (Answer.reply <$> (Dispatch.routeCommand s c routing).run) := by
    intro c name routing hname
    obtain ⟨k, hk⟩ := Dispatch.routeCommand_of_name s hname routing
    refine ⟨Task.map_begins Answer.reply hk, ?_⟩
    exact Task.meets_bind_iff.mpr (Dispatch.routeCommand_meets_check s hname routing)
  cases op with
  | execute c =>
    cases hrouting : Routing.of c with
    | error f => exact absurd (.execute hrouting) (haccepted f)
    | ok routing =>
      obtain ⟨name, hname, -⟩ := exists_of_bind_ok hrouting
      have hexecute : Dispatch.execute s c = Dispatch.routeCommand s c routing := by
        unfold Dispatch.execute
        rw [hrouting]
        rfl
      rw [task, hexecute]
      exact hroute routing hname
  | route c routing =>
    cases hname : Words.checkedName (Routable.words c) with
    | error f => exact absurd (.route hname) (haccepted f)
    | ok name => exact hroute routing hname
  | pipeline | query | refresh | reset => exact hcommand.elim

end Operation

end SlotCluster
