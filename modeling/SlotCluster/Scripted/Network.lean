import SlotCluster.Transport.Endpoints

/-!
# A scripted network

A network in memory whose answers are written down in rules. The first rule that fits decides,
and a rule may be used up. Everything that a client does to the network is logged.
-/

namespace SlotCluster.Scripted

/-! ## Rules -/

/-- When a rule is looked up. -/
inductive Stage
  | connect
  /-- Before a write, for its first command. -/
  | send
  /-- For each command of a write. -/
  | command
  deriving DecidableEq, Repr

structure Rule where
  stage : Stage
  /-- Fits this node only. -/
  node : Option String
  /-- Fits commands that start with these words only. -/
  words : List Bytes
  /-- Fits so many times only. -/
  times : Option Nat
  outcome : Except Fault Reply

def Rule.fits (rule : Rule) (stage : Stage) (node : String) (c : Command) : Bool :=
  rule.stage == stage && (rule.node.all fun n => n == node) && rule.words.isPrefixOf c &&
    rule.times != some 0

def Rule.use (rule : Rule) : Rule := { rule with times := rule.times.map fun n => n - 1 }

/-- The outcome of the first rule that fits, and the rules after its use. -/
def lookup (stage : Stage) (node : String) (c : Command) :
    List Rule → Option (Except Fault Reply) × List Rule
  | [] => (none, [])
  | rule :: rest =>
    if rule.fits stage node c then (some rule.outcome, rule.use :: rest)
    else
      let (outcome, rest) := lookup stage node c rest
      (outcome, rule :: rest)

/-! ## Log -/

inductive Event
  | connected (node : String) (link : Link)
  | refused (node : String)
  | sent (node : String) (link : Link) (commands : List Command)
  | sendFailed (node : String) (link : Link) (commands : List Command)
  | disconnected (node : String) (link : Link)
  deriving Repr

/-- Puts an event into a log in which neighbouring disconnections are in the order of their
links. -/
def insert : Event → List Event → List Event
  | .disconnected node link, .disconnected node' link' :: rest =>
    if link' < link then .disconnected node' link' :: insert (.disconnected node link) rest
    else .disconnected node link :: .disconnected node' link' :: rest
  | e, rest => e :: rest

/-- Puts neighbouring disconnections in the order of their links. -/
def sortDisconnections (log : List Event) : List Event := log.foldr insert []

/-! ## The network -/

structure Network where
  rules : List Rule
  /-- The far ends of the links, by the names of their nodes. -/
  endpoints : Endpoints String
  /-- The last event first. -/
  log : List Event

namespace Network

def new (rules : List Rule) : Network := ⟨rules, [], []⟩

def note (n : Network) (e : Event) : Network := { n with log := e :: n.log }

def lookup (n : Network) (stage : Stage) (node : String) (c : Command) :
    Option (Except Fault Reply) × Network :=
  let (outcome, rules) := Scripted.lookup stage node c n.rules
  (outcome, { n with rules })

def shut (n : Network) (link : Link) : Network := { n with endpoints := n.endpoints.shut link }

/-- A failure of the network takes the link down. -/
def failed (n : Network) (link : Link) (f : Fault) : Network := if f.isIo then n.shut link else n

def connect (node : String) (n : Network) : Except Fault Link × Network :=
  match n.lookup .connect node [] with
  | (some (.error f), n) => (.error f, n.note (.refused node))
  | (_, n) =>
    let (link, endpoints) := n.endpoints.add node
    (.ok link, { n with endpoints }.note (.connected node link))

/-- A command that no rule fits gets an error reply. -/
def noRule : Reply := .error (.ofLine "ERR no rule")

/-- The outcome of each command. -/
def outcomes (node : String) : List Command → Network → List (Except Fault Reply) × Network
  | [], n => ([], n)
  | c :: rest, n =>
    let (outcome, n) := n.lookup .command node c
    let (more, n) := outcomes node rest n
    (outcome.getD (.ok noRule) :: more, n)

def write (link : Link) (commands : List Command) (n : Network) : Except Fault Unit × Network :=
  match n.endpoints.owner? link with
  | none => (.error (.io .notConnected none), n)
  | some node =>
    match n.lookup .send node (commands.headD []) with
    | (some (.error f), n) => (.error f, (n.note (.sendFailed node link commands)).failed link f)
    | (_, n) =>
      let (queued, n) := outcomes node commands (n.note (.sent node link commands))
      (.ok (), { n with endpoints := n.endpoints.push link queued })

def read (link : Link) (n : Network) : Except Fault Reply × Network :=
  let (outcome, endpoints) := n.endpoints.pop link
  let n := { n with endpoints }
  match outcome.getD (.error (.io .unexpectedEof none)) with
  | .ok r => (.ok r, n)
  | .error f => (.error f, n.failed link f)

def close (link : Link) (n : Network) : Network :=
  match n.endpoints.owner? link with
  | some node => (n.note (.disconnected node link)).shut link
  | none => n

instance : Transport Network where
  connect := connect
  write := write
  read := read
  close := close
  isOpen link n := n.endpoints.isOpen link

/-! ## Changes from outside -/

/-- Takes down every link to a node. The client is not told. -/
def sever (node : String) (n : Network) : Network :=
  { n with endpoints := n.endpoints.shutAll node }

/-- The events since the last time, and the network with an empty log. -/
def takeLog (n : Network) : List Event × Network :=
  (sortDisconnections n.log.reverse, { n with log := [] })

end Network

end SlotCluster.Scripted
