import SlotCluster.Fault

/-!
# Commands

A command is the list of its arguments, its name first. On the wire it is an array of bulk
strings: every length is written in front of what it measures, so any bytes can be an argument.
While a command is built, its arguments stand in one block of memory.
-/

namespace SlotCluster

abbrev Command := List Bytes

namespace Command

def ofWords (words : List String) : Command := words.map Bytes.ofText

/-! ## Packing -/

def crlf : Bytes := [13, 10]

/-- One argument: `$`, its length, and its bytes, each line ended by CRLF. -/
def packArgument (arg : Bytes) : Bytes :=
  36 :: Decimal.digits arg.length ++ crlf ++ arg ++ crlf

/-- `*`, the number of arguments, and the arguments. -/
def pack (c : Command) : Bytes :=
  42 :: Decimal.digits c.length ++ crlf ++ c.flatMap packArgument

def packAll (cs : List Command) : Bytes := cs.flatMap pack

/-! ## Building -/

/-- A value that stands for one argument or for several. -/
inductive Argument
  | bytes (value : Bytes)
  | number (value : Int)
  /-- One argument for each. -/
  | each (values : List Bytes)
  deriving Repr

def Argument.toArgs : Argument → List Bytes
  | .bytes value => [value]
  | .number value => [Decimal.ofInt value]
  | .each values => values

/-- A command while it is built: the bytes of all its arguments in one block, and the places where
the arguments end. -/
structure Builder where
  data : Bytes
  ends : List Nat
  sorted : ends.Pairwise (· ≤ ·)
  /-- The last argument ends where the block ends. -/
  full : ends.getLastD 0 = data.length

namespace Builder

def empty : Builder := ⟨[], [], .nil, rfl⟩

theorem le_getLastD {ends : List Nat} (h : ends.Pairwise (· ≤ ·)) :
    ∀ stop ∈ ends, stop ≤ ends.getLastD 0 := by
  intro stop hstop
  have hne : ends ≠ [] := List.ne_nil_of_mem hstop
  obtain ⟨front, last, rfl⟩ : ∃ front last, ends = front ++ [last] :=
    ⟨_, _, (List.dropLast_concat_getLast hne).symm⟩
  rcases List.mem_append.1 hstop with hfront | hlast
  · simpa using (List.pairwise_append.1 h).2.2 stop hfront last
  · simp [List.mem_singleton.1 hlast]

theorem ends_le (b : Builder) : ∀ stop ∈ b.ends, stop ≤ b.data.length :=
  b.full ▸ le_getLastD b.sorted

/-- Puts one argument behind the others. -/
def write (b : Builder) (arg : Bytes) : Builder where
  data := b.data ++ arg
  ends := b.ends ++ [(b.data ++ arg).length]
  sorted := by
    refine List.pairwise_append.2 ⟨b.sorted, List.pairwise_singleton _ _, ?_⟩
    intro stop hstop last hlast
    have := b.ends_le stop hstop
    rw [List.mem_singleton.1 hlast, List.length_append]
    omega
  full := by simp

def append (b : Builder) (arg : Argument) : Builder := arg.toArgs.foldl write b

def build (args : List Argument) : Builder := args.foldl append empty

/-- The bytes from one place of the block up to another. -/
def slice (b : Builder) (start stop : Nat) : Bytes := (b.data.take stop).drop start

/-- The arguments that end at these places. The first of them begins at `start`. -/
def argumentsFrom (b : Builder) : Nat → List Nat → List Bytes
  | _, [] => []
  | start, stop :: rest => b.slice start stop :: b.argumentsFrom stop rest

/-- All arguments, one after the other. -/
def arguments (b : Builder) : Command := b.argumentsFrom 0 b.ends

/-- One argument, found by its number. -/
def argument? (b : Builder) (i : Nat) : Option Bytes :=
  b.ends[i]?.map fun stop => b.slice (if i = 0 then 0 else b.ends.getD (i - 1) 0) stop

end Builder

def build (args : List Argument) : Command := (Builder.build args).arguments

/-! ## Text -/

/-- The arguments as a list of quoted texts. -/
def text (c : Command) : String :=
  "[" ++ String.intercalate ", " (c.map fun arg => Quoted.quote arg.lossy) ++ "]"

/-! ## Commands that the client sends by itself -/

def clusterSlots : Command := ofWords ["CLUSTER", "SLOTS"]

def configGetFullCoverage : Command :=
  ofWords ["CONFIG", "GET", "cluster-require-full-coverage"]

def asking : Command := ofWords ["ASKING"]

def readOnly : Command := ofWords ["READONLY"]

def multi : Command := ofWords ["MULTI"]

def exec : Command := ofWords ["EXEC"]

end Command

end SlotCluster
