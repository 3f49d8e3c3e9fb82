import SlotCluster.Fault

/-!
# Nodes and addresses

A node is known by its name, which is host and port with a colon between them. An address is
what a configuration or a redirect says; it may carry a scheme, a slash at the end, and brackets
around the host.
-/

namespace SlotCluster

/-! ## Nodes -/

/-- The role of a node for the slots that it serves. -/
inductive Role
  | master
  | replica
  deriving DecidableEq, Repr

def nameOf (host : String) (port : UInt16) : String := host ++ ":" ++ toString port.toNat

structure Node where
  /-- What the cluster calls the node. Empty if only an address is known. -/
  id : String
  host : String
  port : UInt16
  role : Role
  name : String
  name_eq : name = nameOf host port
  deriving DecidableEq

namespace Node

def new (host : String) (port : UInt16) (role : Role) : Node :=
  ⟨"", host, port, role, nameOf host port, rfl⟩

def withId (n : Node) (id : String) : Node := { n with id }

def withRole (n : Node) (role : Role) : Node := { n with role }

/-- The nodes in the order of their names. -/
def sortByName (nodes : List Node) : List Node := nodes.mergeSort fun a b => !(b.name < a.name)

/-- Each name once, at its first place. -/
def distinctFrom (seen : List Node) : List Node → List Node
  | [] => seen.reverse
  | n :: rest =>
    if seen.any fun s => s.name == n.name then distinctFrom seen rest
    else distinctFrom (n :: seen) rest

def distinct (nodes : List Node) : List Node := distinctFrom [] nodes

end Node

/-! ## Addresses -/

namespace Address

def scheme : List Char := ['r', 'e', 'd', 'i', 's', ':', '/', '/']

def stripScheme (s : List Char) : List Char :=
  if scheme.isPrefixOf s then s.drop scheme.length else s

def stripSlash (s : List Char) : List Char := if s.getLast? = some '/' then s.dropLast else s

/-- What stands before and after the last colon. -/
def cutLastColon : List Char → Option (List Char × List Char)
  | [] => none
  | c :: rest =>
    match cutLastColon rest with
    | some (front, back) => some (c :: front, back)
    | none => if c = ':' then some ([], rest) else none

def stripBrackets : List Char → List Char
  | '[' :: inner => if inner.getLast? = some ']' then inner.dropLast else '[' :: inner
  | host => host

def split? (address : List Char) : Option (String × UInt16) := do
  let (host, port) ← cutLastColon (stripSlash (stripScheme address))
  let port ← Decimal.readUInt16? (Bytes.ofText (String.ofList port))
  let host := stripBrackets host
  if host.isEmpty then none else some (String.ofList host, port)

/-- Host and port of an address. -/
def split (address : String) : Except Fault (String × UInt16) :=
  match split? address.toList with
  | some parts => .ok parts
  | none => .error (.invalidAddress address)

end Address

/-- The node at an address. It counts as a master until the cluster says otherwise. -/
def Node.ofAddress (address : String) : Except Fault Node :=
  (Address.split address).map fun (host, port) => Node.new host port .master

end SlotCluster
