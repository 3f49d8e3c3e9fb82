import SlotCluster.Client.Operation
import SlotCluster.Simulated.Network

/-!
# Sessions on a simulated cluster

Either a client that executes commands, or a single link that is used by hand.
-/

namespace SlotCluster.Simulated

/-! ## A client -/

def executeAll (c : Client Network) : List Command → List (Except Fault Reply) × Client Network
  | [] => ([], c)
  | command :: rest =>
    let (r, c) := c.run (Dispatch.execute c.settings command).run
    let (rs, c) := executeAll c rest
    (r :: rs, c)

/-- The results of the commands, and the network that they leave. -/
def runClient (settings : Settings) (addresses : List String) (network : Network)
    (choices : Nat → Nat) (commands : List Command) :
    Except Breakdown (List (Except Fault Reply) × Network) := do
  let seeds ← (settings.check addresses).mapError .refused
  let (started, c) := Client.start settings seeds network choices
  c.checkPool
  started.mapError .refused
  let (results, c) := executeAll c commands
  c.checkPool
  return (results, c.network)

/-! ## A link -/

inductive LinkStep
  | write (c : Command)
  | read
  | close

inductive LinkOutcome
  | written (r : Except Fault Unit)
  | reply (r : Except Fault Reply)
  | closed

def runLinkStep (link : Link) (n : Network) : LinkStep → LinkOutcome × Network
  | .write c =>
    let (r, n) := n.write link [c]
    (.written r, n)
  | .read =>
    let (r, n) := n.read link
    (.reply r, n)
  | .close => (.closed, n.close link)

/-- What each step gives, and whether the link is open after it. -/
def runLink (link : Link) (n : Network) : List LinkStep → List (LinkOutcome × Bool)
  | [] => []
  | step :: rest =>
    let (outcome, n) := runLinkStep link n step
    (outcome, n.isOpen link) :: runLink link n rest

end SlotCluster.Simulated
