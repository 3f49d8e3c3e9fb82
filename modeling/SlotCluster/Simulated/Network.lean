import SlotCluster.Node
import SlotCluster.Reply.Reader
import SlotCluster.Simulated.Layout
import SlotCluster.Transport.Endpoints

/-!
# A simulated cluster

One host that serves on every port. Its nodes answer by a layout, then by the first rule that
fits, and otherwise with their port.
-/

namespace SlotCluster.Simulated

/-! ## Rules -/

inductive Response
  /-- The link breaks. -/
  | lost
  /-- An error reply, read from its line. -/
  | line (text : String)
  | reply (r : Reply)

structure Rule where
  /-- Fits packed commands in which these bytes occur. -/
  word : Bytes
  /-- Fits this port only. -/
  port : Option UInt16
  response : Response

def Rule.fits (rule : Rule) (packed : Bytes) (port : UInt16) : Bool :=
  rule.word.holds packed && rule.port.all fun p => p == port

def Response.outcome : Response → Except Fault Reply
  | .lost => .error (.io .connectionReset none)
  | .line text => Reply.parse (45 :: Bytes.ofText text ++ Command.crlf)
  | .reply r => .ok r

/-! ## Addresses -/

/-- Why a text is no address. -/
inductive AddressError
  | noColon
  | invalidPort (e : Decimal.ReadError)
  deriving DecidableEq, Repr

/-- Host and port, with the last colon between them. -/
def splitAddress (address : String) : Except AddressError (String × UInt16) :=
  match Address.cutLastColon address.toList with
  | none => .error .noColon
  | some (host, port) =>
    match Decimal.readUnsigned 65535 (Bytes.ofText (String.ofList port)) with
    | .ok n => .ok (String.ofList host, UInt16.ofNat n)
    | .error e => .error (.invalidPort e)

/-! ## The network -/

structure Network where
  host : String
  layout : Layout
  rules : List Rule
  /-- The far ends of the links, by their ports. -/
  endpoints : Endpoints UInt16
  /-- The ports that were written to, one for each write. -/
  writes : List UInt16

namespace Network

def new (host : String) (layout : Layout) (rules : List Rule) : Network :=
  ⟨host, layout, rules, [], []⟩

/-- What a node says to one packed command. -/
def handle (n : Network) (packed : Bytes) (port : UInt16) : Except Fault Reply :=
  match n.layout.startupReply? n.host packed with
  | some r => .ok r
  | none =>
    match n.rules.find? fun rule => rule.fits packed port with
    | some rule => rule.response.outcome
    | none => .ok (Layout.port port)

def refused : Fault := .io .connectionRefused none

/-- Any port of the host can be reached, and no other host. -/
def reach (host : String) (port : UInt16) (n : Network) : Except Fault Link × Network :=
  if host = n.host then
    let (link, endpoints) := n.endpoints.add port
    (.ok link, { n with endpoints })
  else (.error refused, n)

def connect (node : String) (n : Network) : Except Fault Link × Network :=
  match splitAddress node with
  | .ok (host, port) => reach host port n
  | .error _ => (.error refused, n)

def write (link : Link) (commands : List Command) (n : Network) : Except Fault Unit × Network :=
  match n.endpoints.owner? link with
  | none => (.error (.io .notConnected none), n)
  | some port =>
    let outcomes := commands.map fun c => n.handle c.pack port
    (.ok (), { n with endpoints := n.endpoints.push link outcomes, writes := port :: n.writes })

def close (link : Link) (n : Network) : Network :=
  { n with endpoints := n.endpoints.shut link }

def read (link : Link) (n : Network) : Except Fault Reply × Network :=
  match n.endpoints.pop link with
  | (none, _) => (.error (.io .unexpectedEof none), n)
  | (some (.ok r), endpoints) => (.ok r, { n with endpoints })
  | (some (.error f), endpoints) =>
    let n := { n with endpoints }
    (.error f, if f.isIo then n.close link else n)

def isOpen (link : Link) (n : Network) : Bool := n.endpoints.isOpen link

instance : Transport Network where
  connect := connect
  write := write
  read := read
  close := close
  isOpen := isOpen

/-- How many writes a port has received. A write may hold several commands. -/
def writeCount (n : Network) (port : UInt16) : Nat := n.writes.count port

/-- Takes the host away. Its writes are forgotten. -/
def remove (n : Network) : Network := { n with endpoints := [], writes := [] }

end Network

end SlotCluster.Simulated
