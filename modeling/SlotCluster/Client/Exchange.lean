import SlotCluster.Client.Program

/-!
# Exchanges

Commands are written to a link in one go, and a reply is read for each. The first failure ends
an exchange, and what the link still has to say is never read.
-/

namespace SlotCluster

namespace Action

def connect (node : String) : Action Link := ExceptT.mk (Program.ask (.connect node))

def write (link : Link) (commands : List Command) : Action Unit :=
  ExceptT.mk (Program.ask (.write link commands))

def read (link : Link) : Action Reply := ExceptT.mk (Program.ask (.read link))

def readMany (link : Link) : Nat → Action (List Reply)
  | 0 => return []
  | n + 1 => do
    let reply ← read link
    return reply :: (← readMany link n)

/-- Writes the commands in one go and reads a reply for each. -/
def exchange (link : Link) (commands : List Command) : Action (List Reply) := do
  write link commands
  readMany link commands.length

def exchangeOne (link : Link) (command : Command) : Action Reply := do
  write link [command]
  read link

/-- The outcome as a value. -/
def outcome {α : Type} (a : Action α) : Action (Except Fault α) := ExceptT.lift a.run

end Action

end SlotCluster
