import SlotCluster.Reply
import SlotCluster.Command

/-!
# Transports

A transport is a network with its own state. A client opens links to nodes by name, writes
commands to a link, and reads replies from it one at a time. Any operation may fail, and a
failure may close the link.
-/

namespace SlotCluster

/-- An open or closed link. Numbers are never used twice. -/
abbrev Link := Nat

class Transport (σ : Type) where
  connect : String → σ → Except Fault Link × σ
  /-- Writes the commands in one go. -/
  write : Link → List Command → σ → Except Fault Unit × σ
  /-- The next reply. -/
  read : Link → σ → Except Fault Reply × σ
  /-- Closing twice is closing once. -/
  close : Link → σ → σ
  isOpen : Link → σ → Bool

end SlotCluster
