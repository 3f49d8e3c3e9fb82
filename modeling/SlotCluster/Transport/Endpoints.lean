import SlotCluster.Transport

/-!
# Links in memory

A network in memory keeps the far end of every link: who is there, whether it is open, and what
reads are going to give. A link is the index of its far end.
-/

namespace SlotCluster

structure Endpoint (κ : Type) where
  owner : κ
  isOpen : Bool
  queue : List (Except Fault Reply)

/-- Nothing more is read from a shut link. -/
def Endpoint.shut {κ : Type} (e : Endpoint κ) : Endpoint κ :=
  { e with isOpen := false, queue := [] }

abbrev Endpoints (κ : Type) := List (Endpoint κ)

namespace Endpoints

variable {κ : Type}

/-- The owner at the far end of an open link. -/
def owner? (es : Endpoints κ) (link : Link) : Option κ :=
  match es[link]? with
  | some e => if e.isOpen then some e.owner else none
  | none => none

def isOpen (es : Endpoints κ) (link : Link) : Bool := (es.owner? link).isSome

/-- A new link. -/
def add (es : Endpoints κ) (owner : κ) : Link × Endpoints κ :=
  (es.length, es ++ [⟨owner, true, []⟩])

/-- Adds to what reads are going to give. -/
def push (es : Endpoints κ) (link : Link) (outcomes : List (Except Fault Reply)) : Endpoints κ :=
  es.modify link fun e => { e with queue := e.queue ++ outcomes }

/-- What the next read gives, if there is anything. -/
def pop (es : Endpoints κ) (link : Link) : Option (Except Fault Reply) × Endpoints κ :=
  match es[link]? with
  | some ⟨_, _, outcome :: rest⟩ =>
    (some outcome, es.modify link fun e => { e with queue := rest })
  | _ => (none, es)

def shut (es : Endpoints κ) (link : Link) : Endpoints κ := es.modify link Endpoint.shut

/-- Shuts every link to an owner. -/
def shutAll [BEq κ] (es : Endpoints κ) (owner : κ) : Endpoints κ :=
  es.map fun e => if e.owner == owner then Endpoint.shut e else e

end Endpoints

end SlotCluster
