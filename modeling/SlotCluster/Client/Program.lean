import SlotCluster.Pool
import SlotCluster.Topology

/-!
# Programs

What a client does is written as a program: a tree of requests, with one branch for each answer
that a request may get. A program holds no state of its own. The client's state answers the
requests, one after the other, so that several programs can share it.

A task is a program that may also start several programs at once and wait for all of them.
-/

namespace SlotCluster

/-! ## Requests -/

inductive Request
  | registry
  /-- One of the nodes. The client chooses. -/
  | choose (nodes : List Node)
  | flagRefresh
  /-- Takes the request for a discovery, if there is one. -/
  | takeRefresh
  /-- A slot has moved. Says whether a discovery is due at once. -/
  | recordMove (slot : UInt16) (host : String) (port : UInt16)
  /-- A discovery has succeeded. -/
  | install (topology : Topology) (coverageRequired : Bool)
  | forget
  /-- A lease for a node, and an idle link if there is one. -/
  | checkout (node : String)
  /-- The lease has got a link. -/
  | attach (lease : Lease) (link : Link)
  | release (lease : Lease)
  /-- Ends a lease and closes its link. -/
  | discard (lease : Lease)
  /-- Closes the idle links, and all others when their leases end. -/
  | closeAll
  | connect (node : String)
  | write (link : Link) (commands : List Command)
  | read (link : Link)
  | close (link : Link)
  | lock
  | unlock
  | sleep (duration : Nat)

@[reducible] def Request.Answer : Request → Type
  | .registry => Registry
  | .choose _ => Option Node
  | .takeRefresh => Bool
  | .recordMove _ _ _ => Bool
  | .checkout _ => Except Fault (Lease × Option Link)
  | .connect _ => Except Fault Link
  | .write _ _ => Except Fault Unit
  | .read _ => Except Fault Reply
  | .flagRefresh | .install _ _ | .forget | .attach _ _ | .release _ | .discard _ | .closeAll
  | .close _ | .lock | .unlock | .sleep _ => Unit

/-- A write lets others go first, after it is done. -/
def Request.suspends : Request → Bool
  | .write _ _ => true
  | _ => false

/-! ## Programs -/

inductive Program (α : Type)
  | done (value : α)
  | call (r : Request) (next : r.Answer → Program α)

namespace Program

def bind {α β : Type} : Program α → (α → Program β) → Program β
  | done value, f => f value
  | call r next, f => call r fun answer => (next answer).bind f

instance : Monad Program where
  pure := done
  bind := bind

theorem bind_done {α : Type} (p : Program α) : p.bind done = p := by
  induction p with
  | done value => rfl
  | call r next ih => simp only [bind, ih]

theorem bind_assoc {α β γ : Type} (p : Program α) (f : α → Program β) (g : β → Program γ) :
    (p.bind f).bind g = p.bind fun value => (f value).bind g := by
  induction p with
  | done value => rfl
  | call r next ih => simp only [bind, ih]

instance : LawfulMonad Program := LawfulMonad.mk' Program bind_done (fun _ _ => rfl) bind_assoc

def ask (r : Request) : Program r.Answer := call r done

end Program

abbrev Action := ExceptT Fault Program

namespace Action

def ask (r : Request) : Action r.Answer := ExceptT.lift (Program.ask r)

def choose (nodes : List Node) : Action Node := do
  match ← ask (.choose nodes) with
  | some node => return node
  | none => throw .noKnownNodes

end Action

/-! ## Tasks -/

/-- What came of one write to one node. -/
abbrev BatchResult := Except Fault (List Reply)

inductive Task (α : Type)
  | done (value : α)
  | call (r : Request) (next : r.Answer → Task α)
  /-- Starts the programs at once, and goes on when all are done. -/
  | gather (programs : List (Program BatchResult)) (next : List BatchResult → Task α)

namespace Task

def bind {α β : Type} : Task α → (α → Task β) → Task β
  | done value, f => f value
  | call r next, f => call r fun answer => (next answer).bind f
  | gather programs next, f => gather programs fun results => (next results).bind f

instance : Monad Task where
  pure := done
  bind := bind

theorem bind_done {α : Type} (t : Task α) : t.bind done = t := by
  induction t with
  | done value => rfl
  | call r next ih => simp only [bind, ih]
  | gather programs next ih => simp only [bind, ih]

theorem bind_assoc {α β γ : Type} (t : Task α) (f : α → Task β) (g : β → Task γ) :
    (t.bind f).bind g = t.bind fun value => (f value).bind g := by
  induction t with
  | done value => rfl
  | call r next ih => simp only [bind, ih]
  | gather programs next ih => simp only [bind, ih]

instance : LawfulMonad Task := LawfulMonad.mk' Task bind_done (fun _ _ => rfl) bind_assoc

def ofProgram {α : Type} : Program α → Task α
  | .done value => done value
  | .call r next => call r fun answer => ofProgram (next answer)

def gatherAll (programs : List (Program BatchResult)) : Task (List BatchResult) :=
  gather programs done

end Task

abbrev Job := ExceptT Fault Task

namespace Job

def ofAction {α : Type} (a : Action α) : Job α := ExceptT.mk (Task.ofProgram a.run)

instance : MonadLift Action Job := ⟨ofAction⟩

end Job

end SlotCluster
