import SlotCluster.Node

/-!
# Settings

What a caller chooses before a client is built. A client needs a seed, an attempt and a
connection, and every seed has to be an address.
-/

namespace SlotCluster

/-- When a moved slot makes the client learn the whole topology again. -/
inductive RefreshPolicy
  /-- Before the next command, and at every so many moves at once. -/
  | lazily
  /-- Before the moved command is sent again. -/
  | inline
  deriving DecidableEq, Repr

structure Settings where
  maxConnections : Nat := 64
  maxConnectionsPerNode : Nat := 16
  /-- So many moves make a refresh due at once. Zero means never. -/
  refreshSteps : UInt64 := 25
  /-- Take a topology that leaves slots without an owner, and do not ask whether it may. -/
  skipCoverageCheck : Bool := false
  /-- Learn the topology from the known nodes, not from the seeds. -/
  followCluster : Bool := false
  attempts : Nat := 16
  readFromReplicas : Bool := false
  refreshPolicy : RefreshPolicy := .lazily
  /-- Pauses late in a command's attempts, in milliseconds. -/
  connectionErrorPause : Nat := 100
  tryAgainPause : Nat := 50
  deriving Repr

namespace Settings

def seeds : List String → Except Fault (List Node)
  | [] => .ok []
  | address :: rest => do
    let node ← Node.ofAddress address
    return node :: (← seeds rest)

def check (s : Settings) (addresses : List String) : Except Fault (List Node) :=
  if addresses.isEmpty then .error .noSeeds
  else if s.attempts = 0 then .error .noAttempts
  else if s.maxConnections = 0 ∨ s.maxConnectionsPerNode = 0 then .error .noConnections
  else seeds addresses

end Settings

end SlotCluster
