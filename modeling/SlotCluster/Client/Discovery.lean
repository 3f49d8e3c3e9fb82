import SlotCluster.Client.Exchange
import SlotCluster.Settings

/-!
# Discovery

A client learns the topology from one node after the other, until all slots have an owner or a
gap is allowed. A gap is allowed if the settings say so, or if every master does.

A discovery is run before the first command, when one was asked for, and after a move if it is
due. One task at a time runs it. The others wait, and then use what it has learned.
-/

namespace SlotCluster

namespace Discovery

open SlotCluster.Action

def query (node : Node) (command : Command) : Action Reply := do
  let link ← connect node.name
  let result ← outcome (exchangeOne link command)
  ask (.close link)
  result

/-! ## Coverage -/

/-- The reply to the coverage question says that gaps are allowed. -/
def allowsGaps : Except Fault Reply → Bool
  | .ok (.array (_ :: value :: _)) =>
    match value.bytes? with
    | some bytes => bytes.sameWord (Bytes.ofText "no")
    | none => false
  | _ => false

/-- Asks one master after the other until one does not allow gaps. -/
def requiresCoverage : List Node → Program Bool
  | [] => return false
  | master :: rest => do
    let answer ← (query master Command.configGetFullCoverage).run
    if allowsGaps answer then requiresCoverage rest else return true

/-! ## The survey -/

structure Survey where
  topology : Topology
  answered : Bool
  failures : List String
  /-- Whether gaps are a fault, once that was asked. -/
  coverageRequired : Option Bool

def Survey.start : Survey := ⟨.empty, false, [], none⟩

def Survey.addFailure (v : Survey) (candidate : Node) (f : Fault) : Survey :=
  { v with failures := v.failures ++ [candidate.name ++ ": " ++ f.message] }

def isStandalone (r : Reply) : Bool :=
  match r.error?.bind ServerError.detail? with
  | some detail => (Bytes.ofText "cluster support disabled").holds (Bytes.ofText detail)
  | none => false

/-- Adds the reply of a candidate. A candidate without slot ranges serves every slot itself, and
so does a standalone one if it is the only seed. -/
def absorb (onlySeed : Bool) (candidate : Node) (reply : Reply) (t : Topology) :
    Except Fault Topology :=
  if isStandalone reply && onlySeed then .ok (.single candidate)
  else do
    let ranges ← SlotRange.ofReply candidate.host (← reply.checked)
    if ranges.isEmpty then return .single candidate else t.merge ranges

/-- Whether gaps are a fault. Asked once in a survey. -/
def Survey.coverage (s : Settings) (v : Survey) : Program Bool :=
  match v.coverageRequired with
  | some required => return required
  | none => if s.skipCoverageCheck then return false else requiresCoverage v.topology.masters

/-- Asks the candidates in order, up to the one that makes the topology good enough. -/
def survey (s : Settings) (onlySeed : Bool) : List Node → Survey → Action Survey
  | [], v => return v
  | candidate :: rest, v => do
    match ← outcome (query candidate Command.clusterSlots) with
    | .error f => survey s onlySeed rest (v.addFailure candidate f)
    | .ok reply =>
      let topology ← absorb onlySeed candidate reply v.topology
      let v := { v with answered := true, topology }
      if topology.table.isFull then return v
      else
        let required ← v.coverage s
        let v := { v with coverageRequired := some required }
        if required then survey s onlySeed rest v else return v

def Survey.conclude (s : Settings) (v : Survey) : Except Fault Bool :=
  if !v.answered then .error (.noCandidateAnswered v.failures)
  else if v.topology.table.isFull then .ok (!s.skipCoverageCheck)
  else if v.coverageRequired.getD (!s.skipCoverageCheck) then
    .error (.slotsMissing v.topology.table.covered)
  else .ok false

/-! ## Discovery -/

def candidates (s : Settings) (r : Registry) : List Node :=
  let known := r.allNodes
  if s.followCluster ∧ !known.isEmpty then known else r.seeds

def run (s : Settings) : Action Unit := do
  let registry ← ask .registry
  let v ← survey s (registry.seeds.length == 1) (candidates s registry) .start
  let required ← v.conclude s
  ask (.install v.topology required)

/-- Takes the request for a discovery. A registry that knows nothing needs none to be asked for. -/
def isDue : Action Bool := do
  let registry ← ask .registry
  if registry.isInitialized then ask .takeRefresh else return true

/-- Runs a discovery if one is due. If it fails it stays asked for. -/
def runIfDue (s : Settings) : Action Unit := do
  if ← isDue then
    match ← outcome (run s) with
    | .ok () => return
    | .error f =>
      ask .flagRefresh
      throw f

def locked (a : Action Unit) : Action Unit := do
  ask .lock
  let result ← outcome a
  ask .unlock
  result

def refreshIfNeeded (s : Settings) : Action Unit := do
  let registry ← ask .registry
  if registry.isInitialized ∧ !registry.refreshPending then return
  else locked (runIfDue s)

/-! ## Moves -/

def refreshIfPending (s : Settings) : Action Unit := do
  if ← ask .takeRefresh then run s

/-- Notes the new owner of a slot and asks for a discovery. It is run at once if the number of
moves or the policy says so. -/
def patchMovedSlot (s : Settings) (r : Redirect) : Action Unit := do
  ask .flagRefresh
  let (host, port) ← Address.split r.address
  let due ← ask (.recordMove r.slot host port)
  if due ∨ s.refreshPolicy = .inline then locked (refreshIfPending s)

end Discovery

end SlotCluster
