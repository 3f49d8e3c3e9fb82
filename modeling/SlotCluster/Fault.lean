import SlotCluster.ServerError
import SlotCluster.Text.Utf8

/-!
# Faults

Everything that can go wrong for a caller: an error reply, a failure of the network, or a cause
found by the client itself. A cause has a kind, a summary and perhaps a detail.
-/

namespace SlotCluster

/-! ## Failures of the network -/

inductive IoKind
  | notFound
  | permissionDenied
  | connectionRefused
  | connectionReset
  | connectionAborted
  | notConnected
  | addrInUse
  | addrNotAvailable
  | brokenPipe
  | alreadyExists
  | wouldBlock
  | invalidInput
  | invalidData
  | timedOut
  | writeZero
  | interrupted
  | unsupported
  | unexpectedEof
  | outOfMemory
  | other
  deriving DecidableEq, Repr

namespace IoKind

def text : IoKind → String
  | notFound => "entity not found"
  | permissionDenied => "permission denied"
  | connectionRefused => "connection refused"
  | connectionReset => "connection reset"
  | connectionAborted => "connection aborted"
  | notConnected => "not connected"
  | addrInUse => "address in use"
  | addrNotAvailable => "address not available"
  | brokenPipe => "broken pipe"
  | alreadyExists => "entity already exists"
  | wouldBlock => "operation would block"
  | invalidInput => "invalid input parameter"
  | invalidData => "invalid data"
  | timedOut => "timed out"
  | writeZero => "write zero"
  | interrupted => "operation interrupted"
  | unsupported => "unsupported"
  | unexpectedEof => "unexpected end of file"
  | outOfMemory => "out of memory"
  | other => "other error"

/-- The link is gone or was never there: reconnect. A refusal for good: give up. -/
def advice : IoKind → Advice
  | connectionRefused | notFound | connectionReset | connectionAborted | notConnected
  | brokenPipe | unexpectedEof => .reconnect
  | permissionDenied | unsupported => .giveUp
  | _ => .retryAtOnce

end IoKind

/-! ## Kinds -/

inductive FaultKind
  | parse
  | unexpectedReply
  | invalidConfig
  | io
  | client
  | extension
  | server (kind : ServerErrorKind)
  /-- The keys of a command, or of a transaction, are not in one slot. -/
  | crossSlot
  | commandNotAllowed
  | clusterUnreachable
  /-- The topology leaves slots without an owner. -/
  | incompleteCoverage
  /-- Two nodes name different owners of a slot. -/
  | slotCollision
  /-- Every attempt was used up. -/
  | attemptsExhausted
  | noNodeForSlot
  | poolExhausted
  deriving DecidableEq, Repr

namespace FaultKind

/-- The name that messages use. -/
def name : FaultKind → String
  | parse => "ParseError"
  | unexpectedReply => "UnexpectedReturnType"
  | invalidConfig => "InvalidClientConfig"
  | io => "IoError"
  | client => "ClientError"
  | extension => "ExtensionError"
  | server kind => "ServerError(" ++ kind.name ++ ")"
  | crossSlot => "CrossSlot"
  | commandNotAllowed => "CommandNotAllowed"
  | clusterUnreachable => "ClusterUnreachable"
  | incompleteCoverage => "IncompleteCoverage"
  | slotCollision => "SlotCollision"
  | attemptsExhausted => "TTLExhausted"
  | noNodeForSlot => "NoNodeForSlot"
  | poolExhausted => "PoolExhausted"

/-- A few words for a reader. -/
def category : FaultKind → String
  | server .response => "response error"
  | unexpectedReply => "type error"
  | server .execAbort => "transaction aborted"
  | server .busyLoading => "busy loading"
  | server .noScript => "no script"
  | invalidConfig => "invalid client config"
  | server .moved => "key moved"
  | server .ask => "key moved (ask)"
  | server .tryAgain => "try again"
  | server .clusterDown => "cluster down"
  | server .crossSlot => "cross-slot"
  | server .masterDown => "master down"
  | server .readOnly => "read-only"
  | server .notBusy => "not busy"
  | server .noPerm => "no permission"
  | io => "I/O error"
  | extension => "extension error"
  | client => "client error"
  | parse => "parse error"
  | crossSlot => "keys in request don't hash to the same slot"
  | commandNotAllowed => "command not allowed in cluster mode"
  | clusterUnreachable => "cluster unreachable"
  | incompleteCoverage => "incomplete slot coverage"
  | slotCollision => "slot collision"
  | attemptsExhausted => "request ttl exhausted"
  | noNodeForSlot => "no node for slot"
  | poolExhausted => "connection pool exhausted"

/-- What the client's own causes call for. A reply that cannot be read leaves the link unusable. -/
def advice : FaultKind → Advice
  | parse => .reconnect
  | clusterUnreachable => .startOver
  | _ => .giveUp

end FaultKind

/-! ## Faults -/

inductive Fault
  | cause (kind : FaultKind) (summary : String) (detail : Option String)
  /-- A failure of the network. The text of the kind is used where none is given. -/
  | io (kind : IoKind) (text : Option String)
  | server (error : ServerError)
  deriving DecidableEq, Repr

namespace Fault

def kind : Fault → FaultKind
  | cause kind _ _ => kind
  | io _ _ => .io
  | server (.known kind _) => .server kind
  | server (.extension _ _) => .extension

def message : Fault → String
  | cause kind summary none => summary ++ "- " ++ kind.name
  | cause kind summary (some detail) => summary ++ " - " ++ kind.name ++ ": " ++ detail
  | io kind text => text.getD kind.text
  | server error => error.message

def detail? : Fault → Option String
  | cause _ _ detail => detail
  | io _ _ => none
  | server error => error.detail?

/-- The code of an error reply. -/
def code? : Fault → Option String
  | server error => some error.code
  | _ => none

def isIo (f : Fault) : Bool := f.kind == .io

/-- The network dropped an open link. -/
def isDropped : Fault → Bool
  | io kind _ => kind == .brokenPipe || kind == .connectionReset || kind == .unexpectedEof
  | _ => false

def redirect? : Fault → Option Redirect
  | server error => error.redirect?
  | _ => none

/-- The message of what lies behind the fault, if it is not the client's own. -/
def source? : Fault → Option String
  | cause _ _ _ => none
  | f => some f.message

def advice : Fault → Advice
  | cause kind _ _ => kind.advice
  | io kind _ => kind.advice
  | server error => error.advice

/-- Causes are alike if their kinds agree and both or neither have a detail. Error replies are
alike if they are equal. Failures of the network are never alike. -/
def alike : Fault → Fault → Bool
  | cause kind _ detail, cause kind' _ detail' => kind == kind' && detail.isSome == detail'.isSome
  | server error, server error' => error == error'
  | _, _ => false

/-! ## Causes

Each is named for what went wrong. `command` is the upper case name of the command. -/

def malformedReply : Fault := .cause .parse "parse error" none

def emptyCommand : Fault := .cause .client "Empty command" none

def blockedCommand (command : Bytes) : Fault :=
  .cause .commandNotAllowed "Command is not supported in cluster mode" (some command.lossy)

def invalidKeyCount (command : Bytes) : Fault :=
  .cause .client "Invalid number of keys" (some command.lossy)

def noKey (command : Bytes) : Fault :=
  .cause .client "Command has no key argument" (some command.lossy)

def invalidSlotArgument (command : Bytes) : Fault :=
  .cause .client "Command requires a valid slot argument" (some command.lossy)

def keysInSlots (command : Bytes) (first other : UInt16) : Fault :=
  .cause .crossSlot "Keys in request don't hash to the same slot"
    (some (command.lossy ++ ": slots " ++ toString first.toNat ++ " and " ++ toString other.toNat))

def notInPipeline (command : String) : Fault :=
  .cause .commandNotAllowed "This command cannot be safely routed in cluster mode"
    (some ("Command '" ++ command ++ "' can't be executed in a cluster pipeline."))

def transactionOverNodes (first other : String) : Fault :=
  .cause .crossSlot "Transaction commands must be served by a single node"
    (some (first ++ " and " ++ other))

def noSeeds : Fault := .cause .invalidConfig "Initial nodes can't be empty." none

def noAttempts : Fault := .cause .invalidConfig "Request TTL must be at least 1" none

def noConnections : Fault := .cause .invalidConfig "Connection limits must be at least 1" none

def invalidAddress (address : String) : Fault :=
  .cause .invalidConfig "Invalid node string" (some address)

def noKnownNodes : Fault := .cause .clusterUnreachable "No known cluster nodes" none

def noKnownMasters : Fault := .cause .clusterUnreachable "No known master nodes" none

def noTargets : Fault :=
  .cause .clusterUnreachable "No nodes found for multi-node operation" none

def noCandidateAnswered (failures : List String) : Fault :=
  .cause .clusterUnreachable "Failed to reach any cluster node"
    (some (String.intercalate "; " failures))

def unownedSlot (slot : UInt16) : Fault :=
  .cause .noNodeForSlot "No node serves slot" (some (toString slot.toNat))

def invalidSlotRange (first last : UInt16) : Fault :=
  .cause .parse "Invalid slot range" (some (toString first.toNat ++ "-" ++ toString last.toNat))

def ownersDisagree (slot : UInt16) (owner other : String) : Fault :=
  .cause .slotCollision "Nodes disagree on the owner of a slot"
    (some ("slot " ++ toString slot.toNat ++ ": " ++ owner ++ " vs " ++ other))

def slotsMissing (covered : Nat) : Fault :=
  .cause .incompleteCoverage "Not all slots are covered"
    (some (toString covered ++ " of 16384 covered"))

def nodeFull (node : String) : Fault :=
  .cause .poolExhausted "Too many connections to node" (some node)

def poolFull (node : String) : Fault :=
  .cause .poolExhausted "Too many connections" (some node)

/-- The last attempt failed with `last`. -/
def outOfAttempts (last : Fault) : Fault :=
  .cause .attemptsExhausted "Too many cluster redirections" (some ("last error: " ++ last.message))

/-- There was no attempt at all. -/
def noAttemptMade : Fault := .cause .attemptsExhausted "Too many cluster redirections" none

def missingReply : Fault := .cause .client "Missing reply in pipeline" none

end Fault

end SlotCluster
