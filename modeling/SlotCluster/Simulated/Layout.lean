import SlotCluster.Command
import SlotCluster.Reply

/-!
# Layouts

A layout says which port of a host serves which slots. It is written as the reply that a node
gives to `CLUSTER SLOTS`.
-/

namespace SlotCluster.Simulated

/-- The slots from `first` to `last`, both included, on one host. -/
structure Part where
  first : UInt16
  last : UInt16
  primary : UInt16
  replicas : List UInt16
  deriving DecidableEq, Repr

abbrev Layout := List Part

namespace Layout

/-! ## Layouts to start with -/

def oneNode : Layout := [⟨0, 16383, 6379, []⟩]

def twoNodes : Layout := [⟨0, 8191, 6379, []⟩, ⟨8192, 16383, 6380, []⟩]

def withReplicas : Layout := [⟨0, 8191, 6379, [6380]⟩, ⟨8192, 16383, 6381, [6382]⟩]

/-! ## Replies -/

def port (p : UInt16) : Reply := .int (Int64.ofNat p.toNat)

/-- A node's id is its host and its port. -/
def node (host : String) (p : UInt16) : Reply :=
  .array [.bulk (Bytes.ofText host), port p, .bulk (Bytes.ofText (host ++ "-" ++ toString p.toNat))]

def part (host : String) (p : Part) : Reply :=
  .array (port p.first :: port p.last :: node host p.primary :: p.replicas.map (node host))

/-- The reply to `CLUSTER SLOTS`. -/
def reply (host : String) (l : Layout) : Reply := .array (l.map (part host))

/-- The reply to a packed command that a client sends by itself. Such a command is recognised by
a word that occurs in it. -/
def startupReply? (host : String) (packed : Bytes) (l : Layout) : Option Reply :=
  let has (word : String) : Bool := (Bytes.ofText word).holds packed
  if has "PING" || has "READONLY" then some .okay
  else if has "CLUSTER" && has "SLOTS" then some (l.reply host)
  else none

end Layout

end SlotCluster.Simulated
