import SlotCluster.Client.Program
import SlotCluster.Settings

/-!
# The state of a client

The registry, the pool, the refresh lock, the clock and the network, shared by every task of the
client. `answer` says what each request does to them. A request that has to wait leaves a note
first, by `enqueue`.
-/

namespace SlotCluster

/-! ## The refresh lock -/

/-- One task at a time may refresh. Those that wait are served in the order in which they came,
and the lock goes from hand to hand. -/
structure RefreshLock where
  holder : Option Nat
  waiting : List Nat
  deriving DecidableEq, Repr

namespace RefreshLock

def new : RefreshLock := ⟨none, []⟩

def request (l : RefreshLock) (task : Nat) : RefreshLock :=
  match l.holder with
  | none => { l with holder := some task }
  | some holder =>
    if holder = task ∨ task ∈ l.waiting then l else { l with waiting := l.waiting ++ [task] }

def release (l : RefreshLock) : RefreshLock :=
  match l.waiting with
  | [] => ⟨none, []⟩
  | next :: rest => ⟨some next, rest⟩

/-- A task is gone: it waits no more, and gives up the lock if it has it. -/
def abandon (l : RefreshLock) (task : Nat) : RefreshLock :=
  let l := { l with waiting := l.waiting.filter (· ≠ task) }
  if l.holder = some task then l.release else l

end RefreshLock

/-! ## The clock -/

/-- Time passes only while tasks pause. -/
structure Clock where
  now : Nat
  /-- The tasks that pause, and when each goes on. -/
  alarms : List (Nat × Nat)
  deriving DecidableEq, Repr

namespace Clock

def new : Clock := ⟨0, []⟩

/-- Thirty years, in milliseconds. No pause is longer. -/
def longestPause : Nat := 946080000000

/-- The end of a pause that begins now. -/
def after (k : Clock) (duration : Nat) : Nat := k.now + min duration longestPause

def alarm? (k : Clock) (task : Nat) : Option Nat := k.alarms.lookup task

/-- A task begins to pause, unless it does so already. -/
def setAlarm (k : Clock) (task duration : Nat) : Clock :=
  match k.alarm? task with
  | some _ => k
  | none => { k with alarms := (task, k.after duration) :: k.alarms }

def isPausing (k : Clock) (task : Nat) : Bool :=
  match k.alarm? task with
  | some time => k.now < time
  | none => false

def clearAlarm (k : Clock) (task : Nat) : Clock :=
  { k with alarms := k.alarms.filter fun a => a.1 != task }

/-- A task has paused. Time passes up to its alarm, or for the whole duration if it set none. -/
def endPause (k : Clock) (task duration : Nat) : Clock :=
  let time := (k.alarm? task).getD (k.after duration)
  { k.clearAlarm task with now := max k.now time }

/-- Time passes up to the first alarm. -/
def advance (k : Clock) : Clock :=
  match (k.alarms.map Prod.snd).min? with
  | some time => { k with now := max k.now time }
  | none => k

end Clock

/-! ## The state -/

structure Client (σ : Type) where
  settings : Settings
  registry : Registry
  pool : Pool
  lock : RefreshLock
  clock : Clock
  network : σ
  /-- The outcomes of all choices to come. -/
  choices : Nat → Nat
  choicesMade : Nat

namespace Client

variable {σ : Type} [Transport σ]

/-- A client that knows nothing but its seeds. -/
def new (settings : Settings) (seeds : List Node) (network : σ) (choices : Nat → Nat) :
    Client σ :=
  { settings
    registry := .new seeds settings.refreshSteps settings.readFromReplicas
    pool := .new settings.maxConnections settings.maxConnectionsPerNode
    lock := .new
    clock := .new
    network
    choices
    choicesMade := 0 }

def setRegistry (c : Client σ) (registry : Registry) : Client σ := { c with registry }

def setPool (c : Client σ) (pool : Pool) : Client σ := { c with pool }

def setLock (c : Client σ) (lock : RefreshLock) : Client σ := { c with lock }

def setClock (c : Client σ) (clock : Clock) : Client σ := { c with clock }

def closeLink (c : Client σ) (link : Link) : Client σ :=
  { c with network := Transport.close link c.network }

def isOpen (c : Client σ) (link : Link) : Bool := Transport.isOpen link c.network

/-! ### Choosing -/

def choose (c : Client σ) (nodes : List Node) : Option Node × Client σ :=
  (nodes[c.choices c.choicesMade % nodes.length]?, { c with choicesMade := c.choicesMade + 1 })

/-! ### Leases -/

/-- Closes some links, in order. -/
def closeLinks (c : Client σ) (links : List Link) : Client σ := links.foldl closeLink c

/-- Lends a link to a node, or the right to open one. Idle links that have died are closed. -/
def checkout (c : Client σ) (task : Nat) (node : String) :
    Except Fault (Lease × Option Link) × Client σ :=
  match c.pool.take node task with
  | (.error f, pool) => (.error f, c.setPool pool)
  | (.ok lease, pool) =>
    match pool.takeIdle node c.isOpen with
    | (some link, dead, pool) =>
      (.ok (lease, some link), (c.setPool (pool.attach lease link)).closeLinks dead)
    | (none, dead, pool) => (.ok (lease, none), (c.setPool pool).closeLinks dead)

def discard (c : Client σ) (lease : Lease) : Client σ :=
  let c' := c.setPool (c.pool.giveBack lease)
  match c.pool.link? lease with
  | some link => c'.closeLink link
  | none => c'

/-- Ends a lease and keeps its link, if it is open and of this epoch. -/
def release (c : Client σ) (lease : Lease) : Client σ :=
  match c.pool.link? lease with
  | some link =>
    if c.isOpen link ∧ lease.epoch = c.pool.epoch then
      c.setPool ((c.pool.giveBack lease).putIdle lease.node link)
    else c.discard lease
  | none => c.discard lease

def closeAll (c : Client σ) : Client σ :=
  let (links, pool) := c.pool.drain
  (c.setPool pool).closeLinks links

/-! ### Moves -/

/-- Enters the node as master, makes it the owner of the slot, and counts the move. -/
def recordMove (c : Client σ) (slot : UInt16) (host : String) (port : UInt16) :
    Bool × Client σ :=
  let (node, registry) := c.registry.setNode host port .master
  let (due, registry) := (registry.setOwner slot node).countMoves 1
  (due, c.setRegistry registry)

/-! ### Network -/

def onNetwork {α : Type} (c : Client σ) (f : σ → α × σ) : α × Client σ :=
  let (a, network) := f c.network
  (a, { c with network })

/-! ### Requests -/

/-- A task that may have to wait for the answer takes a place in the line for the lock, or sets
its alarm. -/
def enqueue (task : Nat) (c : Client σ) : Request → Client σ
  | .lock => c.setLock (c.lock.request task)
  | .sleep duration => c.setClock (c.clock.setAlarm task duration)
  | _ => c

/-- The answer has to wait: another task has the lock, or it is too early. -/
def blocks (task : Nat) (c : Client σ) : Request → Bool
  | .lock => c.lock.holder != some task
  | .sleep _ => c.clock.isPausing task
  | _ => false

def answer (task : Nat) (c : Client σ) : (r : Request) → r.Answer × Client σ
  | .registry => (c.registry, c)
  | .choose nodes => c.choose nodes
  | .flagRefresh => ((), c.setRegistry c.registry.flagRefresh)
  | .takeRefresh =>
    let (taken, registry) := c.registry.takeRefresh
    (taken, c.setRegistry registry)
  | .recordMove slot host port => c.recordMove slot host port
  | .install topology coverageRequired =>
    ((), c.setRegistry (c.registry.install topology.table topology.nodes coverageRequired))
  | .forget => ((), c.setRegistry c.registry.forget)
  | .checkout node => c.checkout task node
  | .attach lease link => ((), c.setPool (c.pool.attach lease link))
  | .release lease => ((), c.release lease)
  | .discard lease => ((), c.discard lease)
  | .closeAll => ((), c.closeAll)
  | .connect node => c.onNetwork (Transport.connect node)
  | .write link commands => c.onNetwork (Transport.write link commands)
  | .read link => c.onNetwork (Transport.read link)
  | .close link => ((), c.closeLink link)
  | .lock => ((), c.setLock (c.lock.request task))
  | .unlock => ((), c.setLock c.lock.release)
  | .sleep duration => ((), c.setClock (c.clock.endPause task duration))

/-! ## A task on its own -/

def runProgram {α : Type} : Program α → Client σ → α × Client σ
  | .done value, c => (value, c)
  | .call r next, c =>
    let (a, c) := c.answer 0 r
    runProgram (next a) c

def runAll {α : Type} : List (Program α) → Client σ → List α × Client σ
  | [], c => ([], c)
  | p :: rest, c =>
    let (value, c) := runProgram p c
    let (values, c) := runAll rest c
    (value :: values, c)

/-- Runs a task to its end, with nothing beside it. -/
def run {α : Type} : Task α → Client σ → α × Client σ
  | .done value, c => (value, c)
  | .call r next, c =>
    let (a, c) := c.answer 0 r
    run (next a) c
  | .gather programs next, c =>
    let (results, c) := runAll programs c
    run (next results) c

theorem runProgram_bind {α β : Type} (p : Program α) (f : α → Program β) (c : Client σ) :
    runProgram (p.bind f) c = runProgram (f (runProgram p c).1) (runProgram p c).2 := by
  induction p generalizing c with
  | done value => rfl
  | call r next ih => simp only [Program.bind, runProgram, ih]

theorem run_bind {α β : Type} (t : Task α) (f : α → Task β) (c : Client σ) :
    run (t.bind f) c = run (f (run t c).1) (run t c).2 := by
  induction t generalizing c with
  | done value => rfl
  | call r next ih => simp only [Task.bind, run, ih]
  | gather programs next ih => simp only [Task.bind, run, ih]

theorem run_ofProgram {α : Type} (p : Program α) (c : Client σ) :
    run (Task.ofProgram p) c = runProgram p c := by
  induction p generalizing c with
  | done value => rfl
  | call r next ih => simp only [Task.ofProgram, run, runProgram, ih]

/-- Takes back all that a task holds: its links are closed, it gives up the lock, and its alarm
is off. -/
def abandon (c : Client σ) (task : Nat) : Client σ :=
  let leases := (c.pool.holdings.filter fun h => h.holder == task).map Holding.lease
  let c := leases.foldl discard c
  (c.setLock (c.lock.abandon task)).setClock (c.clock.clearAlarm task)

end Client

end SlotCluster
