import SlotCluster.Client.Attempt
import SlotCluster.Client.Discovery
import SlotCluster.Merge

/-!
# Dispatch

How a command reaches its nodes. A command for one node is sent in attempts, and a broadcast is
sent to all its nodes at once. Every write takes a lease, and gives its link back only when all
replies have been read.
-/

namespace SlotCluster

namespace Dispatch

open SlotCluster.Action

/-! ## Links -/

/-- Opens a link. A client that reads from replicas says so first. -/
def openLink (s : Settings) (node : String) : Action Link := do
  let link ← connect node
  if s.readFromReplicas then
    match ← outcome (exchangeOne link Command.readOnly) with
    | .ok reply =>
      match reply.checked with
      | .ok _ => return link
      | .error f =>
        ask (.close link)
        throw f
    | .error f =>
      ask (.close link)
      throw f
  else return link

/-- A lease with an idle link, or with a new one. -/
def lend (s : Settings) (node : String) : Action (Lease × Link) := do
  let (lease, idle) ← ExceptT.mk (Program.ask (.checkout node))
  match idle with
  | some link => return (lease, link)
  | none =>
    match ← outcome (openLink s node) with
    | .ok link =>
      ask (.attach lease link)
      return (lease, link)
    | .error f =>
      ask (.discard lease)
      throw f

/-- Writes the commands to a node in one go, and gives the reply to each. An asking batch starts
with `ASKING`, whose reply is dropped. -/
def sendBatch (s : Settings) (node : String) (commands : List Command) (asking : Bool) :
    Action (List Reply) := do
  let (lease, link) ← lend s node
  let batch := if asking then Command.asking :: commands else commands
  match ← outcome (exchange link batch) with
  | .ok replies =>
    ask (.release lease)
    return if asking then replies.drop 1 else replies
  | .error f =>
    ask (.discard lease)
    throw f

/-! ## One node -/

def resolve (target : SingleTarget) : Action Node := do
  let registry ← ask .registry
  choose (← registry.resolve target)

def anyNode : Action Node := do
  let registry ← ask .registry
  choose (← registry.anyNode)

def nodeFor (target : SingleTarget) : Direction → Action Node
  | .route => resolve target
  | .random => anyNode
  | .address address => (Node.ofAddress address : Except Fault Node)

def attempt (s : Settings) (commands : List Command) (target : SingleTarget)
    (direction : Direction) (asking : Bool) : Action (List Reply) := do
  let node ← nodeFor target direction
  sendBatch s node.name commands asking

def reset : Action Unit := do
  ask .closeAll
  ask .forget

def apply (s : Settings) : Effect → Action Unit
  | .none => return
  | .move r => Discovery.patchMovedSlot s r
  | .startOver => reset

def requestFrom (s : Settings) (commands : List Command) (target : SingleTarget) :
    Nat → RetryState → Action (List Reply)
  | 0, _ => throw .noAttemptMade
  | left + 1, st => do
    let (direction, st) := st.aim
    let outcome ← outcome (attempt s commands target direction st.asking)
    let verdict := Attempt.judge s left st outcome
    apply s verdict.effect
    match verdict.next with
    | .done result => result
    | .again pause =>
      if let some duration := pause then ask (.sleep duration)
      requestFrom s commands target left verdict.state

/-- Sends commands that go to one node, in one write. -/
def request (s : Settings) (commands : List Command) (target : SingleTarget) :
    Action (List Reply) :=
  requestFrom s commands target s.attempts .start

def asOneReply : List Reply → Reply
  | [r] => r
  | replies => .array replies

/-! ## Many nodes -/

def isShutdown (c : Command) : Bool :=
  match c.head? with
  | some name => name.sameWord (Bytes.ofText "SHUTDOWN")
  | none => false

/-- Asks one node of a broadcast, and once more if the network fails. A node that shuts down
does not answer, and that is no failure. -/
def askNode (s : Settings) (c : Command) (node : Node) : Program BatchResult := do
  match ← (sendBatch s node.name [c] false).run with
  | .error f =>
    if f.isIo then
      if isShutdown c then return .ok [.okay] else (sendBatch s node.name [c] false).run
    else return .error f
  | .ok replies => return .ok replies

def lastReply (replies : List Reply) : Reply := replies.getLastD .nil

/-- Asks all nodes of a target at once and merges what they say. -/
def broadcast (s : Settings) (c : Command) (target : MultiTarget) (policy : Option MergePolicy) :
    Job Reply := do
  let registry ← Action.ask .registry
  let nodes := registry.targets target
  let results ← ExceptT.lift (Task.gatherAll (nodes.map (askNode s c)))
  let outcomes := nodes.zipWith (fun node result => (node.name, result.map lastReply)) results
  Merge.merge policy outcomes

/-! ## Commands -/

def routeCommand (s : Settings) (c : Command) (routing : Routing) : Job Reply := do
  let _ ← Words.checkedName (Routable.words c)
  Discovery.refreshIfNeeded s
  match routing with
  | .single target => return asOneReply (← request s [c] target)
  | .multi target policy => broadcast s c target policy

def execute (s : Settings) (c : Command) : Job Reply := do
  routeCommand s c (← Routing.of c)

end Dispatch

end SlotCluster
