import SlotCluster.Text.Blank
import SlotCluster.Text.Decimal
import SlotCluster.Text.Quoted

/-!
# Error replies

A node answers with an error line: a code, and after a blank a detail. Some codes ask the
client to act, and a moved or asking reply names the node to turn to.
-/

namespace SlotCluster

/-! ## What a caller may do about a failure -/

inductive Advice
  /-- Open a new link, the present one is of no use. -/
  | reconnect
  /-- It would fail again. -/
  | giveUp
  | retryAtOnce
  /-- The node needs a moment. -/
  | waitAndRetry
  /-- Another node serves this one request. -/
  | followAsk
  /-- Another node serves the slot from now on. -/
  | followMoved
  /-- Drop every link and learn the topology again from the seeds. -/
  | startOver
  deriving DecidableEq, Repr

/-! ## Kinds -/

inductive ServerErrorKind
  | response
  | execAbort
  | busyLoading
  | noScript
  | moved
  | ask
  | tryAgain
  | clusterDown
  | crossSlot
  | masterDown
  | readOnly
  | notBusy
  | noPerm
  deriving DecidableEq, Repr

namespace ServerErrorKind

def all : List ServerErrorKind :=
  [response, execAbort, busyLoading, noScript, moved, ask, tryAgain, clusterDown, crossSlot,
   masterDown, readOnly, notBusy, noPerm]

/-- The first word of the error line. -/
def code : ServerErrorKind → String
  | response => "ERR"
  | execAbort => "EXECABORT"
  | busyLoading => "LOADING"
  | noScript => "NOSCRIPT"
  | moved => "MOVED"
  | ask => "ASK"
  | tryAgain => "TRYAGAIN"
  | clusterDown => "CLUSTERDOWN"
  | crossSlot => "CROSSSLOT"
  | masterDown => "MASTERDOWN"
  | readOnly => "READONLY"
  | notBusy => "NOTBUSY"
  | noPerm => "NOPERM"

/-- The name that messages use. -/
def name : ServerErrorKind → String
  | response => "ResponseError"
  | execAbort => "ExecAbort"
  | busyLoading => "BusyLoading"
  | noScript => "NoScript"
  | moved => "Moved"
  | ask => "Ask"
  | tryAgain => "TryAgain"
  | clusterDown => "ClusterDown"
  | crossSlot => "CrossSlot"
  | masterDown => "MasterDown"
  | readOnly => "ReadOnly"
  | notBusy => "NotBusy"
  | noPerm => "NoPerm"

def ofCode? (code : String) : Option ServerErrorKind := all.find? fun k => k.code == code

def advice : ServerErrorKind → Advice
  | moved => .followMoved
  | ask => .followAsk
  | tryAgain => .waitAndRetry
  | clusterDown => .startOver
  | _ => .giveUp

end ServerErrorKind

/-! ## Error lines -/

inductive ServerError
  | known (kind : ServerErrorKind) (detail : Option String)
  /-- A code that this library has no kind for. -/
  | extension (code : String) (detail : Option String)
  deriving DecidableEq, Repr

/-- Where a moved or asking reply points. -/
structure Redirect where
  slot : UInt16
  address : String
  deriving DecidableEq, Repr

namespace ServerError

/-- The code is what stands before the first blank, the detail all that follows it. -/
def ofLine (line : String) : ServerError :=
  let code := String.ofList (line.toList.takeWhile (· ≠ ' '))
  let detail :=
    match line.toList.dropWhile (· ≠ ' ') with
    | [] => none
    | _ :: rest => some (String.ofList rest)
  match ServerErrorKind.ofCode? code with
  | some kind => known kind detail
  | none => extension code detail

def kind? : ServerError → Option ServerErrorKind
  | known kind _ => some kind
  | extension _ _ => none

def code : ServerError → String
  | known kind _ => kind.code
  | extension code _ => code

def detail? : ServerError → Option String
  | known _ detail => detail
  | extension _ detail => detail

/-- The line that the error was read from. -/
def line (e : ServerError) : String :=
  match e.detail? with
  | none => e.code
  | some detail => e.code ++ " " ++ detail

/-- The kind or the quoted code, and the detail after a colon. -/
def message (e : ServerError) : String :=
  let head :=
    match e with
    | known kind _ => kind.name
    | extension code _ => Quoted.quote code
  match e.detail? with
  | none => head
  | some detail => head ++ ": " ++ detail

def advice : ServerError → Advice
  | known kind _ => kind.advice
  | extension _ _ => .giveUp

/-- The client has to do something about it: turn to another node, wait, or start over. -/
def needsAction (e : ServerError) : Bool := e.advice != .giveUp

/-- The slot and the address, the first two words of the detail. -/
def redirect? (e : ServerError) : Option Redirect :=
  if e.kind? = some .moved ∨ e.kind? = some .ask then
    match (e.detail?.map Blank.asciiWords).getD [] with
    | slot :: address :: _ =>
      (Decimal.readUInt16? (Bytes.ofText slot)).map fun slot => ⟨slot, address⟩
    | _ => none
  else none

end ServerError

end SlotCluster
