import SlotCluster.Registry

/-!
# Topologies

A node describes its cluster as a list of slot ranges, each with a master and replicas. A
discovery reads such lists from one node after the other, and merges them: all lists have to
name the same master for a slot, and the first to mention a slot decides on its replicas.
-/

namespace SlotCluster

/-! ## Slot ranges -/

/-- The slots from `first` to `last`, both included. -/
structure SlotRange where
  first : UInt16
  last : UInt16
  primary : Node
  replicas : List Node
  deriving DecidableEq

namespace SlotRange

def new (first last : UInt16) (primary : Node) (replicas : List Node) :
    Except Fault SlotRange :=
  if last < first ∨ Slot.count ≤ last then .error (.invalidSlotRange first last)
  else .ok ⟨first, last, primary, replicas⟩

def slots (s : SlotRange) : List UInt16 :=
  (List.range (s.last.toNat + 1 - s.first.toNat)).map fun i => s.first + UInt16.ofNat i

/-! ### Reading -/

/-- A 16-bit number. -/
def word? : Reply → Option UInt16
  | .int n => if 0 ≤ n ∧ n < 65536 then some (UInt16.ofNat n.toInt.toNat) else none
  | _ => none

/-- The host of a node. An empty or missing one is the host that answered, and a question mark
one that nobody knows. -/
def host? (answering : String) : Reply → Option String
  | .bulk bytes =>
    let host := bytes.lossy
    if host.isEmpty then some answering else if host = "?" then none else some host
  | .nil => some answering
  | _ => none

/-- Host, port and perhaps an id. -/
def node? (answering : String) (role : Role) : Reply → Option Node
  | .array (host :: port :: rest) => do
    let node := Node.new (← host? answering host) (← word? port) role
    match rest with
    | .bulk id :: _ => some (node.withId id.lossy)
    | _ => some node
  | _ => none

/-- The first usable node is the master, the usable ones after it are replicas. -/
def nodes? (answering : String) : List Reply → Option (Node × List Node)
  | [] => none
  | r :: rest =>
    match node? answering .master r with
    | some primary => some (primary, rest.filterMap (node? answering .replica))
    | none => nodes? answering rest

/-- An entry of the list. One that has not the right shape, or no usable node, is left out. -/
def entry? (answering : String) : Reply → Option (UInt16 × UInt16 × Node × List Node)
  | .array (first :: last :: node :: more) => do
    let first ← word? first
    let last ← word? last
    let (primary, replicas) ← nodes? answering (node :: more)
    some (first, last, primary, replicas)
  | _ => none

def ofEntries (answering : String) : List Reply → Except Fault (List SlotRange)
  | [] => .ok []
  | r :: rest =>
    match entry? answering r with
    | none => ofEntries answering rest
    | some (first, last, primary, replicas) => do
      let range ← SlotRange.new first last primary replicas
      return range :: (← ofEntries answering rest)

def notAnArray (r : Reply) : Fault :=
  .cause .unexpectedReply "CLUSTER SLOTS returned a non-array reply" (some r.text)

/-- The ranges in a reply from the host `answering`. -/
def ofReply (answering : String) : Reply → Except Fault (List SlotRange)
  | .array items => ofEntries answering items
  | r => .error (notAnArray r)

end SlotRange

/-! ## Topologies -/

structure Topology where
  table : SlotTable
  nodes : NodeTable

namespace Topology

def empty : Topology := ⟨.empty, .empty⟩

/-- A node that was a master once stays one. -/
def addNode (nodes : NodeTable) (node : Node) : NodeTable :=
  if (nodes.get? node.name).any (·.role == .master) then nodes else nodes.insert node.name node

def assign (owners : SlotOwners) : SlotTable → List UInt16 → Except Fault SlotTable
  | t, [] => .ok t
  | t, slot :: rest =>
    match t.get? slot with
    | some known =>
      if known.primary.name ≠ owners.primary.name then
        .error (.ownersDisagree slot known.primary.name owners.primary.name)
      else assign owners t rest
    | none => assign owners (t.set slot owners) rest

def addRange (t : Topology) (s : SlotRange) : Except Fault Topology := do
  let nodes := s.replicas.foldl addNode (addNode t.nodes s.primary)
  return ⟨← assign ⟨s.primary, s.replicas⟩ t.table s.slots, nodes⟩

def merge (t : Topology) : List SlotRange → Except Fault Topology
  | [] => .ok t
  | s :: rest => do merge (← t.addRange s) rest

/-- One node serves every slot. -/
def single (node : Node) : Topology :=
  let owner := (Node.new node.host node.port .master).withId node.id
  ⟨⟨Vector.replicate 16384 (some ⟨owner, []⟩), 16384⟩, addNode .empty owner⟩

def masters (t : Topology) : List Node :=
  Node.sortByName (t.nodes.values.filter fun n => n.role == .master)

end Topology

end SlotCluster
