import SlotCluster.Client.State

/-!
# Canned replies

A network that takes every link and every write, and whose reads give the replies that it was
told, in their order. When none is left, the link is gone. It serves to show runs that exist.
-/

namespace SlotCluster

def faultOf? {α : Type} : Except Fault α → Option Fault
  | .error f => some f
  | .ok _ => none

theorem eq_error_of_faultOf? {α : Type} {r : Except Fault α} {f : Fault} (h : faultOf? r = some f) :
    r = .error f := by
  cases r with
  | error g =>
    cases h
    rfl
  | ok value => cases h

structure Canned where
  /-- The number of the next link. -/
  next : Link
  replies : List Reply

namespace Canned

instance : Transport Canned where
  connect _ n := (.ok n.next, { n with next := n.next + 1 })
  write _ _ n := (.ok (), n)
  read _ n :=
    match n.replies with
    | [] => (.error (.io .unexpectedEof none), n)
    | reply :: rest => (.ok reply, { n with replies := rest })
  close _ n := n
  isOpen _ _ := true

def client (settings : Settings) (replies : List Reply) : Client Canned :=
  .new settings [Node.new "a" 1 .master] ⟨0, replies⟩ fun _ => 0

end Canned

end SlotCluster
