import SlotCluster.Client.Dispatch

/-!
# Pipelines

Commands that are sent together. In parts, each node gets those that it serves in one write, and
a command that was redirected or whose write failed is sent again on its own. As a transaction,
all of them go to one node between `MULTI` and `EXEC`.

A pipeline gives one result per command, in the order of the commands.
-/

namespace SlotCluster

structure Pipeline where
  commands : List Command
  transaction : Bool
  deriving Repr

namespace Pipeline

/-! ## Building -/

def empty : Pipeline := ⟨[], false⟩

def isEmpty (p : Pipeline) : Bool := p.commands.isEmpty

def size (p : Pipeline) : Nat := p.commands.length

def add (p : Pipeline) (c : Command) : Pipeline := { p with commands := p.commands ++ [c] }

def addArgument? (p : Pipeline) (arg : Bytes) : Option Pipeline :=
  p.commands.getLast?.map fun c => { p with commands := p.commands.dropLast ++ [c ++ [arg]] }

/-! ## Routes -/

/-- A command that goes to many nodes has no place in a pipeline. -/
def singleTarget (c : Command) : Except Fault SingleTarget := do
  match ← Routing.of c with
  | .single target => return target
  | .multi _ _ => throw (.notInPipeline ((c.headD []).lossy.map Char.toUpper))

def targets : List Command → Except Fault (List SingleTarget)
  | [] => .ok []
  | c :: rest => do
    let target ← singleTarget c
    return target :: (← targets rest)

/-! ## Transactions -/

/-- A transaction reads from the master too. -/
def masterTarget : SingleTarget → SingleTarget
  | .route r => .route ⟨r.slot, .master⟩
  | target => target

/-- The one node that serves all targets, which those that any node serves leave open, and the
first target that names it. -/
def commonTarget : Option (Node × SingleTarget) → List SingleTarget → Action SingleTarget
  | found, [] => return (found.map Prod.snd).getD .randomMaster
  | found, .random :: rest => commonTarget found rest
  | found, target :: rest => do
    let target := masterTarget target
    let node ← Dispatch.resolve target
    match found with
    | none => commonTarget (some (node, target)) rest
    | some (first, _) =>
      if first.name = node.name then commonTarget found rest
      else throw (.transactionOverNodes first.name node.name)

def invalidExecReply (reply : Option Reply) : Fault :=
  let text :=
    match reply with
    | some r => "Some(" ++ r.text ++ ")"
    | none => "None"
  .cause .unexpectedReply "Invalid response to EXEC" (some text)

/-- The results in the reply to `EXEC`. There are none if a watched key has changed. -/
def execResults : Option Reply → Except Fault (List (Except Fault Reply))
  | some (.array items) => .ok (items.map Reply.checked)
  | some .nil => .ok []
  | some (.error e) => .error (.server e)
  | other => .error (invalidExecReply other)

def runTransaction (s : Settings) (commands : List Command) (targets : List SingleTarget) :
    Action (List (Except Fault Reply)) := do
  let target ← commonTarget none targets
  let replies ← Dispatch.request s (Command.multi :: commands ++ [Command.exec]) target
  execResults replies.getLast?

/-! ## Batches -/

abbrev Placed := Nat × Command

structure Batch where
  node : String
  commands : List Placed
  deriving Repr

/-- Adds a command to the batch of its node. A node's first command opens its batch. -/
def addTo (node : String) (c : Placed) : List Batch → List Batch
  | [] => [⟨node, [c]⟩]
  | b :: rest =>
    if b.node = node then ⟨node, b.commands ++ [c]⟩ :: rest else b :: addTo node c rest

def group : List (Placed × SingleTarget) → List Batch → Action (List Batch)
  | [], batches => return batches
  | (c, target) :: rest, batches => do
    let node ← Dispatch.resolve target
    group rest (addTo node.name c batches)

def sendPart (s : Settings) (b : Batch) : Program BatchResult :=
  (Dispatch.sendBatch s b.node (b.commands.map Prod.snd) false).run

/-! ## What becomes of a command -/

inductive Fate
  | settled (result : Except Fault Reply)
  /-- Sent again on its own, after the slot was moved if the reply says where to. -/
  | replay (move : Option Redirect)

def fateOfReply (r : Reply) : Fate :=
  match r.error? with
  | none => .settled (.ok r)
  | some e =>
    match e.advice with
    | .followMoved => .replay e.redirect?
    | .followAsk | .waitAndRetry => .replay none
    | _ => .settled (.error (.server e))

def fatesOfBatch (b : Batch) : BatchResult → List (Nat × Fate)
  | .ok replies => b.commands.zipWith (fun c r => (c.1, fateOfReply r)) replies
  | .error f => b.commands.map fun c => (c.1, if f.isIo then .replay none else .settled (.error f))

def fates (batches : List Batch) (results : List BatchResult) : List (Nat × Fate) :=
  (batches.zipWith fatesOfBatch results).flatten

def Fate.move? : Fate → Option Redirect
  | .replay move => move
  | .settled _ => none

def Fate.isReplay : Fate → Bool
  | .replay _ => true
  | .settled _ => false

def patchAll (s : Settings) : List Redirect → Action Unit
  | [] => return
  | r :: rest => do
    Discovery.patchMovedSlot s r
    patchAll s rest

/-! ## The table of results -/

/-- One place for each command, empty until its result is known. -/
abbrev Table := List (Option (Except Fault Reply))

/-- The table with what is settled before any command is sent again. -/
def settle (size : Nat) (fates : List (Nat × Fate)) : Table :=
  fates.foldl
    (fun t f =>
      match f.2 with
      | .settled result => t.set f.1 (some result)
      | .replay _ => t)
    (List.replicate size none)

/-- The places of the commands that are sent again, in ascending order. -/
def replays (fates : List (Nat × Fate)) : List Nat :=
  ((fates.filter fun f => f.2.isReplay).map Prod.fst).mergeSort

/-- Sends the commands at these places again, one by one, and enters their results. -/
def replayAll (s : Settings) (placed : List (Placed × SingleTarget)) :
    List Nat → Table → Job Table
  | [], t => return t
  | i :: rest, t =>
    match placed[i]? with
    | some (c, target) => do
      let result ← ExceptT.lift (Dispatch.routeCommand s c.2 (.single target)).run
      replayAll s placed rest (t.set i (some result))
    | none => replayAll s placed rest t

def finish (t : Table) : List (Except Fault Reply) := t.map fun r => r.getD (.error .missingReply)

def runParts (s : Settings) (commands : List Command) (targets : List SingleTarget) :
    Job (List (Except Fault Reply)) := do
  let placed := (commands.zipIdx.map fun (c, i) => (i, c)).zip targets
  let batches ← group placed []
  let results ← ExceptT.lift (Task.gatherAll (batches.map (sendPart s)))
  let fates := fates batches results
  patchAll s (fates.filterMap fun f => f.2.move?)
  let table ← replayAll s placed (replays fates) (settle commands.length fates)
  return finish table

/-! ## Running -/

def run (s : Settings) (p : Pipeline) : Job (List (Except Fault Reply)) := do
  if p.isEmpty then return []
  else
    let targets ← targets p.commands
    Discovery.refreshIfNeeded s
    if p.transaction then runTransaction s p.commands targets
    else runParts s p.commands targets

/-- The first error among the results, or all the replies. -/
def raise : List (Except Fault Reply) → Except Fault (List Reply)
  | [] => .ok []
  | result :: rest => do
    let r ← result
    return r :: (← raise rest)

/-- One reply per command. Any error is an error of the whole. -/
def query (s : Settings) (p : Pipeline) : Job (List Reply) := do
  raise (← p.run s)

end Pipeline

end SlotCluster
