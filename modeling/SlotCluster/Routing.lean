import SlotCluster.Command.Table
import SlotCluster.Reply
import SlotCluster.Slot

/-!
# Routing

Where a command goes: to the node of a slot, to some node, or to many nodes. The keys of a
command decide, and all of them have to be in one slot. A command that no cluster can serve, or
that lacks what its family asks for, is refused here, before anything is sent.

A command is routed by its words. Both a command and a reply that holds one have words, and a
word of a reply that is no bulk string is missing.
-/

namespace SlotCluster

/-! ## Routes -/

/-- Which node of a slot may serve. -/
inductive SlotRole
  | master
  /-- A replica will do, if the client reads from replicas. -/
  | replicaOptional
  deriving DecidableEq, Repr

structure Route where
  slot : UInt16
  role : SlotRole
  deriving DecidableEq, Repr

inductive SingleTarget
  | random
  | randomMaster
  | route (r : Route)
  | address (host : String) (port : UInt16)
  deriving DecidableEq, Repr

inductive MultiTarget
  | allNodes
  | allMasters
  deriving DecidableEq, Repr

inductive Routing
  | single (target : SingleTarget)
  | multi (target : MultiTarget) (policy : Option MergePolicy)
  deriving DecidableEq, Repr

/-! ## Words -/

abbrev Words := List (Option Bytes)

class Routable (ρ : Type) where
  words : ρ → Words

instance : Routable Words := ⟨id⟩

instance : Routable Command := ⟨fun c => c.map some⟩

instance : Routable Command.Builder := ⟨fun b => (List.range b.ends.length).map b.argument?⟩

instance : Routable Reply where
  words
    | .array items => items.map fun
      | .bulk bytes => some bytes
      | _ => none
    | _ => []

namespace Words

def word? (w : Words) (i : Nat) : Option Bytes := w[i]?.join

/-- The words from index `i` up to the first missing one. -/
def wordsFrom (w : Words) (i : Nat) : List Bytes :=
  ((w.drop i).takeWhile Option.isSome).filterMap id

/-- The place of a word, in any letter case. -/
def position? (w : Words) (candidate : Bytes) : Option Nat :=
  w.findIdx? fun
    | some word => word.sameWord candidate
    | none => false

/-- The first word in upper case, and for a container command the second after a blank. -/
def name? (w : Words) : Option Bytes := do
  let first := (← w.word? 0).upper
  if CommandTable.containers.contains first then
    match w.word? 1 with
    | some second => some (first ++ 32 :: second.upper)
    | none => some first
  else some first

/-- The name of a command that a cluster can serve. -/
def checkedName (w : Words) : Except Fault Bytes :=
  match w.word? 0, w.name? with
  | some first, some name =>
    if CommandTable.isBlocked first.upper then .error (.blockedCommand first.upper)
    else if CommandTable.isBlocked name then .error (.blockedCommand name)
    else .ok name
  | _, _ => .error .emptyCommand

/-! ## Keys -/

/-- The first of every two. -/
def everySecond : List Bytes → List Bytes
  | [] => []
  | [k] => [k]
  | k :: _ :: rest => k :: everySecond rest

def keyCount (w : Words) (i : Nat) (name : Bytes) : Except Fault Nat :=
  match (w.word? i).bind Decimal.readCount? with
  | some n => .ok n
  | none => .error (.invalidKeyCount name)

/-- How many words a count of `n` covers from index `i` on. The index behind the last one is a
machine word and starts anew at `UInt64.size`, so that counts close to that number cover none. -/
def reach (i n : Nat) : Nat := (i + n) % UInt64.size - i

theorem reach_le (i n : Nat) : reach i n ≤ n := by
  have hend := Nat.mod_le (i + n) UInt64.size
  unfold reach
  omega

theorem reach_of_lt {i n : Nat} (h : i + n < UInt64.size) : reach i n = n := by
  rw [reach, Nat.mod_eq_of_lt h, Nat.add_sub_cancel_left]

/-- The words from index `i` on that a count of `n` covers, as far as there are any. -/
def counted (w : Words) (i n : Nat) : List Bytes := (w.wordsFrom i).take (reach i n)

/-- The keys that the family's layout designates. `none` for a command that counts its keys and
says that it has none. -/
def designated (w : Words) (name : Bytes) : Family → Except Fault (Option (List Bytes))
  | .firstKey => .ok (some (w.word? 1).toList)
  | .allArgs => .ok (some (w.wordsFrom 1))
  | .allFromSecond => .ok (some (w.wordsFrom 2))
  | .allButLast => .ok (some (w.wordsFrom 1).dropLast)
  | .firstTwo => .ok (some ((w.wordsFrom 1).take 2))
  | .keyValuePairs => .ok (some (everySecond (w.wordsFrom 1)))
  | .second => .ok (some (w.word? 2).toList)
  | .countedFirst =>
    (w.keyCount 1 name).map fun n => if n = 0 then none else some (w.counted 2 n)
  | .countedSecond =>
    (w.keyCount 2 name).map fun n => if n = 0 then none else some (w.counted 3 n)
  | .destinationCounted =>
    (w.keyCount 2 name).map fun n => some ((w.word? 1).toList ++ w.counted 3 n)
  | .streams =>
    match w.position? (Bytes.ofText "STREAMS") with
    | some i =>
      let rest := w.wordsFrom (i + 1)
      .ok (some (rest.take (rest.length / 2)))
    | none => .ok (some [])
  | .allNodes | .allMasters | .anyNode | .slotArgument => .ok none

/-- The one slot of all the keys. -/
def commonSlot (name : Bytes) : List Bytes → Except Fault UInt16
  | [] => .error (.noKey name)
  | key :: rest =>
    let first := Slot.ofKey key
    match (rest.map Slot.ofKey).find? (· ≠ first) with
    | some other => .error (.keysInSlots name first other)
    | none => .ok first

def routeByKeys (w : Words) (name : Bytes) (family : Family) : Except Fault Routing := do
  match ← w.designated name family with
  | none => return .single .random
  | some keys =>
    let slot ← commonSlot name keys
    let role := if CommandTable.isReadOnly name then SlotRole.replicaOptional else .master
    return .single (.route ⟨slot, role⟩)

/-- The slot that the command itself names. -/
def routeBySlot (w : Words) (name : Bytes) : Except Fault Routing :=
  match (w.word? 2).bind Decimal.readUInt16? with
  | some slot =>
    if slot < Slot.count then .ok (.single (.route ⟨slot, .master⟩))
    else .error (.invalidSlotArgument name)
  | none => .error (.invalidSlotArgument name)

def routing (w : Words) : Except Fault Routing := do
  let name ← w.checkedName
  match CommandTable.familyOf name with
  | .allNodes => return .multi .allNodes (CommandTable.policyOf? name)
  | .allMasters => return .multi .allMasters (CommandTable.policyOf? name)
  | .anyNode => return .single .random
  | .slotArgument => w.routeBySlot name
  | family => w.routeByKeys name family

end Words

/-- Where a command goes. -/
def Routing.of {ρ : Type} [Routable ρ] (r : ρ) : Except Fault Routing :=
  Words.routing (Routable.words r)

end SlotCluster
