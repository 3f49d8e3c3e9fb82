import SlotCluster.Transport

/-!
# The connection pool

Links to a node are kept for the next caller. Every link in use takes a permit of its node and
one of the whole pool, and a caller that finds none is refused at once. A link goes back only by
`release`; dropped in any other way, it is closed, so that nobody gets a link with a reply still
to come.

Closing all links starts a new epoch. A link that was lent before does not come back after it.

A pool stays in the process that made it. What a forked child does with it is left out.
-/

namespace SlotCluster

/-- The links kept for one node. -/
structure NodePool where
  node : String
  /-- The last one released first. -/
  idle : List Link
  /-- Permits left. -/
  free : Nat
  deriving DecidableEq, Repr

/-- The right to use one link to a node. -/
structure Lease where
  /-- No two leases have the same number. -/
  number : Nat
  node : String
  epoch : Nat
  deriving DecidableEq, Repr

/-- A lease that was given out: who holds it, and the link as soon as there is one. -/
structure Holding where
  lease : Lease
  holder : Nat
  link : Option Link
  deriving DecidableEq, Repr

structure Pool where
  nodes : List NodePool
  /-- Permits of the whole pool left. -/
  free : Nat
  epoch : Nat
  holdings : List Holding
  /-- The number of the next lease. -/
  next : Nat
  /-- Permits of the whole pool, given out or not. -/
  total : Nat
  /-- Permits of each node. -/
  perNode : Nat
  deriving Repr

namespace Pool

def new (total perNode : Nat) : Pool := ⟨[], total, 0, [], 0, total, perNode⟩

/-- More permits than these cannot be counted. -/
def maxPermits : Nat := 2305843009213693951

/-- The permits can be counted. Those of the nodes are, as soon as there is a node. -/
def isCountable (p : Pool) : Bool :=
  p.total ≤ maxPermits && (p.nodes.isEmpty || p.perNode ≤ maxPermits)

def nodePool? (p : Pool) (node : String) : Option NodePool := p.nodes.find? fun n => n.node == node

def idleCount (p : Pool) (node : String) : Nat :=
  match p.nodePool? node with
  | some n => n.idle.length
  | none => 0

/-- A node is entered when it is first asked for. -/
def ensure (p : Pool) (node : String) : Pool :=
  match p.nodePool? node with
  | some _ => p
  | none => { p with nodes := p.nodes ++ [⟨node, [], p.perNode⟩] }

def modifyNode (p : Pool) (node : String) (f : NodePool → NodePool) : Pool :=
  { p with nodes := p.nodes.map fun n => if n.node == node then f n else n }

/-! ## Giving out -/

/-- Takes a permit of the node and one of the pool, the node's first. -/
def take (p : Pool) (node : String) (holder : Nat) : Except Fault Lease × Pool :=
  let p := p.ensure node
  match p.nodePool? node with
  | none => (.error (.nodeFull node), p)
  | some n =>
    if n.free = 0 then (.error (.nodeFull node), p)
    else if p.free = 0 then (.error (.poolFull node), p)
    else
      let lease : Lease := ⟨p.next, node, p.epoch⟩
      let p := p.modifyNode node fun n => { n with free := n.free - 1 }
      (.ok lease,
        { p with
          free := p.free - 1
          next := p.next + 1
          holdings := ⟨lease, holder, none⟩ :: p.holdings })

/-- The first idle link that is still open, the dead ones before it, and the pool without them. -/
def takeIdle (p : Pool) (node : String) (isOpen : Link → Bool) :
    Option Link × List Link × Pool :=
  match p.nodePool? node with
  | none => (none, [], p)
  | some n =>
    let dead := n.idle.takeWhile fun l => !isOpen l
    match n.idle.dropWhile fun l => !isOpen l with
    | [] => (none, dead, p.modifyNode node fun n => { n with idle := [] })
    | link :: rest => (some link, dead, p.modifyNode node fun n => { n with idle := rest })

/-- Notes the link of a lease. -/
def attach (p : Pool) (lease : Lease) (link : Link) : Pool :=
  { p with
    holdings := p.holdings.map fun h =>
      if h.lease.number == lease.number then { h with link := some link } else h }

/-! ## Taking back -/

/-- Gives the permits of a lease back. -/
def giveBack (p : Pool) (lease : Lease) : Pool :=
  let p := p.modifyNode lease.node fun n => { n with free := n.free + 1 }
  { p with
    free := p.free + 1
    holdings := p.holdings.filter fun h => h.lease.number != lease.number }

/-- The link of a lease. -/
def link? (p : Pool) (lease : Lease) : Option Link :=
  (p.holdings.find? fun h => h.lease.number == lease.number).bind Holding.link

def putIdle (p : Pool) (node : String) (link : Link) : Pool :=
  p.modifyNode node fun n => { n with idle := link :: n.idle }

/-- Every idle link, and the pool without them in a new epoch. -/
def drain (p : Pool) : List Link × Pool :=
  (p.nodes.flatMap NodePool.idle,
    { p with epoch := p.epoch + 1, nodes := p.nodes.map fun n => { n with idle := [] } })

end Pool

end SlotCluster
