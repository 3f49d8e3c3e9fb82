import SlotCluster.Client.Interleaving
import SlotCluster.Client.Pipeline

/-!
# Operations

What a caller can ask of a client: alone, side by side with others, or only for a while.
-/

namespace SlotCluster

inductive Operation
  | execute (c : Command)
  | route (c : Command) (routing : Routing)
  /-- Runs a pipeline. With `raise` the first error is an error of the whole. -/
  | pipeline (p : Pipeline) (raise : Bool)
  | query (p : Pipeline)
  | refresh
  | reset

inductive Answer
  | reply (r : Except Fault Reply)
  | results (rs : Except Fault (List (Except Fault Reply)))
  | replies (rs : Except Fault (List Reply))
  | done (r : Except Fault Unit)

namespace Operation

def task (s : Settings) : Operation → Task Answer
  | execute c => Answer.reply <$> (Dispatch.execute s c).run
  | route c routing => Answer.reply <$> (Dispatch.routeCommand s c routing).run
  | pipeline p raise =>
    if raise then (fun rs => Answer.results (rs.map (·.map .ok))) <$> (p.query s).run
    else Answer.results <$> (p.run s).run
  | query p => Answer.replies <$> (p.query s).run
  | refresh => Answer.done <$> (Job.ofAction (Discovery.run s)).run
  | reset => Answer.done <$> (Job.ofAction Dispatch.reset).run

end Operation

/-- Why a client cannot do what it was asked for. -/
inductive Breakdown
  /-- It cannot be built, or not be started. -/
  | refused (f : Fault)
  /-- Its pool cannot count that many permits. -/
  | tooManyPermits

namespace Client

variable {σ : Type} [Transport σ]

/-- Refuses a pool with more permits than can be counted. -/
def checkPool (c : Client σ) : Except Breakdown Unit :=
  if c.pool.isCountable then .ok () else .error .tooManyPermits

/-- A client for the seeds that has learned the topology, or the fault that kept it from it. -/
def start (settings : Settings) (seeds : List Node) (network : σ) (choices : Nat → Nat) :
    Except Fault Unit × Client σ :=
  (Client.new settings seeds network choices).run (Task.ofProgram (Discovery.run settings).run)

def perform (c : Client σ) (op : Operation) : Answer × Client σ := c.run (op.task c.settings)

def performAll (c : Client σ) (ops : List Operation) : List (Option Answer) × Client σ :=
  runTogether (ops.map fun op => op.task c.settings) c

/-- Performs an operation for some turns and then abandons it, unless it has an answer by then.
Without a turn there is no answer. -/
def performFor (turns : Nat) (c : Client σ) (op : Operation) : Option Answer × Client σ :=
  if turns = 0 then (none, c)
  else
    let (tasks, c) := rounds turns [op.task c.settings] c
    match tasks.head?.bind Task.result? with
    | some a => (some a, c)
    | none => (none, c.abandon 0)

end Client

end SlotCluster
