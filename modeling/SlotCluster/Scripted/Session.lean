import SlotCluster.Client.Operation
import SlotCluster.Scripted.Network

/-!
# Sessions on a scripted network

A session opens a client and takes it through a list of steps: operations, changes of the
network, and looks at the registry. Every step leaves a report.
-/

namespace SlotCluster.Scripted

inductive Step
  | perform (op : Operation)
  /-- Performs operations side by side. -/
  | together (ops : List Operation)
  /-- Performs an operation for some turns, and then abandons it. -/
  | abandon (op : Operation) (turns : Nat)
  | setRules (rules : List Rule)
  | sever (node : String)
  /-- How many idle links there are to a node. -/
  | idle (node : String)
  /-- The master of a slot. -/
  | master (slot : UInt16)
  | masters (slot : UInt16)
  | replicas (slot : UInt16)
  | anyNodes
  /-- Who owns which slots. -/
  | owners
  | node (name : String)
  | setNode (host : String) (port : UInt16) (role : Role)
  | setOwner (slot : UInt16) (host : String) (port : UInt16) (role : Role)
  /-- Forgets the cluster but for the owner of one slot. -/
  | isolate (slot : UInt16)
  | countMoves (n : UInt64)
  | takeRefresh
  | flagRefresh
  | addSeeds
  | forget
  | describe

/-- A run of slots with one owner, or with one kind of fault. -/
structure OwnerRun where
  first : Nat
  last : Nat
  owner : Except FaultKind String

inductive Outcome
  | done
  | answer (a : Answer)
  /-- An operation that waits for ever has no answer. -/
  | answers (list : List (Option Answer))
  /-- What came of an operation that was to be abandoned, if it had an answer in time. -/
  | inTime (a : Option Answer)
  | failed (f : Fault)
  | count (n : Nat)
  | node (n : Option Node)
  | names (list : List String)
  | runs (list : List OwnerRun)
  | flag (b : Bool)
  | text (s : String)

structure Report where
  outcome : Outcome
  log : List Event
  registry : Registry
  /-- How long the step has paused, in milliseconds. -/
  slept : Nat

/-! ## Looks at the registry -/

/-- The names that a lookup leaves the choice among. -/
def namesOf : Except Fault (List Node) → Outcome
  | .ok nodes => .names ((Node.sortByName (Node.distinct nodes)).map Node.name)
  | .error f => .failed f

def ownerOf (r : Registry) (slot : UInt16) : Except FaultKind String :=
  match r.masterOf slot with
  | .ok nodes => .ok ((nodes.head?.map Node.name).getD "")
  | .error f => .error f.kind

def sameOwner : Except FaultKind String → Except FaultKind String → Bool
  | .ok a, .ok b => a == b
  | .error a, .error b => a == b
  | _, _ => false

/-- Puts the owner of a slot in front of the runs of the slots after it. -/
def addOwner (r : Registry) (slot : Nat) (runs : List OwnerRun) : List OwnerRun :=
  let owner := ownerOf r (UInt16.ofNat slot)
  match runs with
  | run :: rest =>
    if sameOwner owner run.owner then { run with first := slot } :: rest
    else ⟨slot, slot, owner⟩ :: run :: rest
  | [] => [⟨slot, slot, owner⟩]

def ownerRuns (r : Registry) : List OwnerRun := (List.range 16384).foldr (addOwner r) []

/-! ## Steps -/

abbrev TestClient := Client Network

/-- One of the nodes that a lookup leaves the choice among. -/
def chooseFrom (c : TestClient) : Except Fault (List Node) → Except Fault Node × TestClient
  | .error f => (.error f, c)
  | .ok nodes =>
    match c.choose nodes with
    | (some node, c) => (.ok node, c)
    | (none, c) => (.error .noKnownNodes, c)

def onRegistry (c : TestClient) (f : Registry → Registry) : Outcome × TestClient :=
  (.done, c.setRegistry (f c.registry))

def runStep (c : TestClient) : Step → Outcome × TestClient
  | .perform op =>
    let (a, c) := c.perform op
    (.answer a, c)
  | .together ops =>
    let (as, c) := c.performAll ops
    (.answers as, c)
  | .abandon op turns =>
    let (a, c) := c.performFor turns op
    (.inTime a, c)
  | .setRules rules => (.done, { c with network := { c.network with rules } })
  | .sever node => (.done, { c with network := c.network.sever node })
  | .idle node => (.count (c.pool.idleCount node), c)
  | .master slot =>
    match chooseFrom c (c.registry.masterOf slot) with
    | (.ok node, c) => (.node (some node), c)
    | (.error f, c) => (.failed f, c)
  | .masters slot => (namesOf (c.registry.masterOf slot), c)
  | .replicas slot => (namesOf (c.registry.replicasOf slot), c)
  | .anyNodes => (namesOf c.registry.anyNode, c)
  | .owners => (.runs (ownerRuns c.registry), c)
  | .node name => (.node (c.registry.node? name), c)
  | .setNode host port role =>
    let (node, registry) := c.registry.setNode host port role
    (.node (some node), c.setRegistry registry)
  | .setOwner slot host port role =>
    let (node, registry) := c.registry.setNode host port role
    (.done, c.setRegistry (registry.setOwner slot node))
  | .isolate slot =>
    match chooseFrom c (c.registry.masterOf slot) with
    | (.ok node, c) =>
      let (taken, registry) := (c.registry.forget.setOwner slot node).takeRefresh
      (.flag taken, c.setRegistry registry)
    | (.error f, c) => (.failed f, c)
  | .countMoves n =>
    let (due, registry) := c.registry.countMoves n
    (.flag due, c.setRegistry registry)
  | .takeRefresh =>
    let (taken, registry) := c.registry.takeRefresh
    (.flag taken, c.setRegistry registry)
  | .flagRefresh => onRegistry c Registry.flagRefresh
  | .addSeeds => onRegistry c Registry.addSeeds
  | .forget => onRegistry c Registry.forget
  | .describe => (.text c.registry.text, c)

/-! ## Sessions -/

/-- The report on what was done since the time `since`. -/
def report (since : Nat) (outcome : Outcome) (c : TestClient) : Report × TestClient :=
  let (log, network) := c.network.takeLog
  (⟨outcome, log, c.registry, c.clock.now - since⟩, { c with network })

def runSteps (c : TestClient) : List Step → Except Breakdown (List Report)
  | [] => .ok []
  | step :: rest => do
    let (outcome, c') := runStep c step
    c'.checkPool
    let (r, c') := report c.clock.now outcome c'
    return r :: (← runSteps c' rest)

/-- One report for the start of the client and one for each step. A client that could not learn
the topology takes no step. -/
def runSession (settings : Settings) (addresses : List String) (rules : List Rule)
    (choices : Nat → Nat) (steps : List Step) : Except Breakdown (List Report) := do
  let seeds ← (settings.check addresses).mapError .refused
  let (started, c) := Client.start settings seeds (Network.new rules) choices
  c.checkPool
  match started with
  | .ok () =>
    let (r, c) := report 0 .done c
    return r :: (← runSteps c steps)
  | .error f => return [(report 0 (.failed f) c).1]

end SlotCluster.Scripted
