import SlotCluster.Routing
import SlotCluster.Node

/-!
# The registry

What a client knows of its cluster: who serves each slot, the nodes, and the seeds to start
from. Discovery replaces the tables as a whole, and a moved slot changes one entry.

A lookup gives the nodes that may serve, and the client takes one of them at random.
-/

namespace SlotCluster

/-! ## Node table -/

/-- Nodes, and the names under which they are found. -/
structure NodeTable where
  entries : List (String × Node)
  /-- A name leads to one node. -/
  unique : (entries.map Prod.fst).Nodup

namespace NodeTable

def empty : NodeTable := ⟨[], List.nodup_nil⟩

def get? (t : NodeTable) (name : String) : Option Node := t.entries.lookup name

/-- The nodes in the order in which their names came in. -/
def values (t : NodeTable) : List Node := t.entries.map Prod.snd

/-- A name that is new comes last. -/
def put (name : String) (node : Node) : List (String × Node) → List (String × Node)
  | [] => [(name, node)]
  | (known, n) :: rest =>
    if known = name then (known, node) :: rest else (known, n) :: put name node rest

theorem mem_names_put {name other : String} {node : Node} {entries : List (String × Node)} :
    other ∈ (put name node entries).map Prod.fst ↔
      other ∈ entries.map Prod.fst ∨ other = name := by
  induction entries with
  | nil => simp [put]
  | cons entry rest ih =>
    rw [put]
    split
    · next heq => simp [← heq, or_comm]
    · simp [ih, or_assoc]

theorem nodup_put (name : String) (node : Node) {entries : List (String × Node)}
    (h : (entries.map Prod.fst).Nodup) : ((put name node entries).map Prod.fst).Nodup := by
  induction entries with
  | nil => simp [put]
  | cons entry rest ih =>
    obtain ⟨hnew, hrest⟩ := List.nodup_cons.mp h
    rw [put]
    split
    · exact h
    · next hne =>
      refine List.nodup_cons.mpr ⟨fun hmem => ?_, ih hrest⟩
      exact (mem_names_put.mp hmem).elim hnew hne

/-- Puts a node under a name, in place of the one that was there. -/
def insert (t : NodeTable) (name : String) (node : Node) : NodeTable :=
  ⟨put name node t.entries, nodup_put name node t.unique⟩

end NodeTable

/-! ## Slot table -/

/-- The nodes that serve a slot. -/
structure SlotOwners where
  primary : Node
  replicas : List Node
  deriving DecidableEq

structure SlotTable where
  entries : Vector (Option SlotOwners) 16384
  /-- How many slots have an owner. Counted as they get one. -/
  covered : Nat

namespace SlotTable

def empty : SlotTable := ⟨Vector.replicate 16384 none, 0⟩

def get? (t : SlotTable) (slot : UInt16) : Option SlotOwners := t.entries[slot.toNat]?.join

/-- A slot outside the table is ignored. -/
def set (t : SlotTable) (slot : UInt16) (owners : SlotOwners) : SlotTable :=
  if h : slot.toNat < 16384 then
    let covered := if t.entries[slot.toNat].isNone then t.covered + 1 else t.covered
    ⟨t.entries.set slot.toNat (some owners) h, covered⟩
  else t

def isFull (t : SlotTable) : Bool := t.covered == 16384

/-- The masters in the order of their first slots. -/
def primaries (t : SlotTable) : List Node :=
  Node.distinct ((t.entries.toList.filterMap id).map SlotOwners.primary)

end SlotTable

/-! ## Registry -/

structure Registry where
  slots : SlotTable
  /-- The known nodes by their names. -/
  nodes : NodeTable
  /-- Where discovery starts. -/
  seeds : List Node
  /-- Moved slots since the last discovery. -/
  moves : UInt64
  /-- So many moves make a refresh due. -/
  steps : UInt64
  refreshPending : Bool
  /-- A slot without an owner is a fault. -/
  coverageRequired : Bool
  readFromReplicas : Bool

namespace Registry

def new (seeds : List Node) (steps : UInt64) (readFromReplicas : Bool) : Registry :=
  { slots := .empty
    nodes := .empty
    seeds := Node.distinct seeds
    moves := 0
    steps
    refreshPending := false
    coverageRequired := true
    readFromReplicas }

/-- Some slot has an owner. -/
def isInitialized (r : Registry) : Bool := 0 < r.slots.covered

/-! ### Lookups -/

def node? (r : Registry) (name : String) : Option Node := r.nodes.get? name

def allNodes (r : Registry) : List Node := Node.sortByName r.nodes.values

/-- The masters of the slot table. Before the first discovery, the known masters. -/
def allMasters (r : Registry) : List Node :=
  let masters := r.slots.primaries
  if masters.isEmpty then Node.sortByName (r.nodes.values.filter fun n => n.role == .master)
  else masters

/-- The known nodes, or the seeds as long as none is known. -/
def anyNode (r : Registry) : Except Fault (List Node) :=
  if !r.nodes.values.isEmpty then .ok r.nodes.values
  else if !r.seeds.isEmpty then .ok r.seeds
  else .error .noKnownNodes

/-- Any node can redirect a request for a slot without an owner, unless every slot has to have
one. -/
def unowned (r : Registry) (slot : UInt16) : Except Fault (List Node) :=
  if r.coverageRequired then .error (.unownedSlot slot) else r.anyNode

def masterOf (r : Registry) (slot : UInt16) : Except Fault (List Node) :=
  match r.slots.get? slot with
  | some owners => .ok [owners.primary]
  | none => r.unowned slot

/-- The replicas of a slot, or its master if it has none. -/
def replicasOf (r : Registry) (slot : UInt16) : Except Fault (List Node) :=
  match r.slots.get? slot with
  | some owners => .ok (if owners.replicas.isEmpty then [owners.primary] else owners.replicas)
  | none => r.unowned slot

def nodesFor (r : Registry) (route : Route) : Except Fault (List Node) :=
  if route.role = .replicaOptional ∧ r.readFromReplicas then r.replicasOf route.slot
  else r.masterOf route.slot

/-- The nodes among which a target leaves the choice. -/
def resolve (r : Registry) : SingleTarget → Except Fault (List Node)
  | .random => r.anyNode
  | .randomMaster =>
    let masters := r.allMasters
    if masters.isEmpty then .error .noKnownMasters else .ok masters
  | .route route => r.nodesFor route
  | .address host port => .ok [Node.new host port .master]

/-- The nodes that a broadcast goes to. -/
def targets (r : Registry) : MultiTarget → List Node
  | .allNodes => r.allNodes
  | .allMasters => r.allMasters

/-! ### Changes -/

/-- Adds a node. A known node keeps its id and takes the role. -/
def setNode (r : Registry) (host : String) (port : UInt16) (role : Role) : Node × Registry :=
  let new := Node.new host port role
  let node :=
    match r.node? new.name with
    | some known => known.withRole role
    | none => new
  (node, { r with nodes := r.nodes.insert new.name node })

/-- Makes a node the master of a slot. The slot keeps its replicas, but for the new master. -/
def setOwner (r : Registry) (slot : UInt16) (node : Node) : Registry :=
  let replicas :=
    match r.slots.get? slot with
    | some owners => owners.replicas.filter fun n => n.name != node.name
    | none => []
  { r with slots := r.slots.set slot ⟨node, replicas⟩ }

/-- Counts moves, and says whether their number passed a multiple of the steps. The count wraps
at 64 bits. -/
def countMoves (r : Registry) (n : UInt64) : Bool × Registry :=
  if r.steps = 0 ∨ n = 0 then (false, r)
  else
    let moves := r.moves + n
    (r.moves / r.steps != moves / r.steps, { r with moves })

/-- Asks for a discovery before the next command. -/
def flagRefresh (r : Registry) : Registry := { r with refreshPending := true }

/-- Takes the request for a discovery. Whoever gets `true` has to run it. -/
def takeRefresh (r : Registry) : Bool × Registry :=
  (r.refreshPending, { r with refreshPending := false })

/-- Appends the known nodes to the seeds, so that a later discovery survives the loss of the
first ones. -/
def addSeeds (r : Registry) : Registry :=
  let new := r.allNodes.filter fun n => !r.seeds.any fun s => s.name == n.name
  { r with seeds := r.seeds ++ new }

/-- A discovery has succeeded. -/
def install (r : Registry) (slots : SlotTable) (nodes : NodeTable) (coverageRequired : Bool) :
    Registry :=
  addSeeds { r with slots, nodes, coverageRequired, moves := 0, refreshPending := false }

/-- Forgets slots and nodes, keeps the seeds, and asks for a discovery. -/
def forget (r : Registry) : Registry := { r with slots := .empty, nodes := .empty }.flagRefresh

/-! ### Text -/

def text (r : Registry) : String :=
  "NodeRegistry \x7b nodes: " ++ toString r.nodes.entries.length ++ ", covered_slots: " ++
    toString r.slots.covered ++ ", refresh_pending: " ++ toString r.refreshPending ++ " \x7d"

end Registry

end SlotCluster
