import SlotCluster.Command.Table
import SlotCluster.Reply

/-!
# Merging the answers of several nodes

A broadcast gives one outcome per node, in the order of the nodes. A policy turns them into one
reply. Without a policy the caller gets a map with one entry per node, and only a failure of the
network is a failure of the whole.
-/

namespace SlotCluster.Merge

/-- The name of a node, and what came of asking it. -/
abbrev Outcome := String × Except Fault Reply

/-! ## Numbers -/

def sumOverflow : Fault :=
  .cause .unexpectedReply "integer overflow while summing responses" none

/-- The sum, unless it leaves the 64-bit range. -/
def addChecked (a b : Int64) : Except Fault Int64 :=
  let sum := a.toInt + b.toInt
  if Int64.minValue.toInt ≤ sum ∧ sum ≤ Int64.maxValue.toInt then .ok (a + b)
  else .error sumOverflow

def numberStart : NumberRule → Int64
  | .min => Int64.maxValue
  | .sum => 0
  | .max => Int64.minValue

def numberStep (rule : NumberRule) (acc n : Int64) : Except Fault Int64 :=
  match rule with
  | .min => .ok (if n < acc then n else acc)
  | .sum => addChecked acc n
  | .max => .ok (if acc < n then n else acc)

/-- Folds integer replies from the left, and stops at the first that fails. -/
def numberFold (rule : NumberRule) : Int64 → List Reply → Except Fault Int64
  | acc, [] => .ok acc
  | acc, r :: rest => do
    let n ← r.integer
    numberFold rule (← numberStep rule acc n) rest

def numbers (rule : NumberRule) (replies : List Reply) : Except Fault Reply :=
  (numberFold rule (numberStart rule) replies).map .int

/-! ## Truth values -/

def notIntegers : Fault :=
  .cause .unexpectedReply "expected array of integers as response" none

def lengthsDiffer : Fault :=
  .cause .unexpectedReply "nodes returned arrays of different lengths" none

def logicStart : LogicRule → Bool
  | .and => true
  | .or => false

def logicStep : LogicRule → Bool → Bool → Bool
  | .and => and
  | .or => or

/-- One array onto the truth values so far. An integer above zero is true. -/
def logicRow (rule : LogicRule) : List Bool → List Reply → Except Fault (List Bool)
  | a :: acc, r :: row => do
    let n ← r.integer
    return logicStep rule a (decide (0 < n)) :: (← logicRow rule acc row)
  | _, _ => .ok []

/-- As long as there are no truth values, the next array says how many there are. -/
def logicFold (rule : LogicRule) : List Bool → List Reply → Except Fault (List Bool)
  | acc, [] => .ok acc
  | acc, .array row :: rest => do
    let acc := if acc.isEmpty then List.replicate row.length (logicStart rule) else acc
    if acc.length ≠ row.length then .error lengthsDiffer
    logicFold rule (← logicRow rule acc row) rest
  | _, _ :: _ => .error notIntegers

def logical (rule : LogicRule) (replies : List Reply) : Except Fault Reply :=
  (logicFold rule [] replies).map fun bs => .array (bs.map fun b => .int (if b then 1 else 0))

/-! ## Arrays -/

def notArrays : Fault :=
  .cause .unexpectedReply "expected array of values as response" none

/-- The elements of all arrays. Nil has none. -/
def concatenation : List Reply → Except Fault (List Reply)
  | [] => .ok []
  | .array items :: rest => (concatenation rest).map (items ++ ·)
  | .nil :: rest => concatenation rest
  | _ :: _ => .error notArrays

/-! ## Agreement -/

def answersDiffer (a b : Reply) : Fault :=
  .cause .unexpectedReply "Nodes returned different results" (some (a.text ++ " vs " ++ b.text))

def agreed : List Reply → Except Fault Reply
  | [] => .ok .nil
  | first :: rest =>
    match rest.find? fun r => !(r == first) with
    | some other => .error (answersDiffer first other)
    | none => .ok first

/-! ## Policies -/

/-- An error reply counts as a failure. -/
def success (o : Outcome) : Except Fault Reply := o.2.bind Reply.checked

/-- Every answer, or the first failure in the order of the nodes. -/
def allSuccesses : List Outcome → Except Fault (List Reply)
  | [] => .ok []
  | o :: rest => do
    let r ← success o
    return r :: (← allSuccesses rest)

/-- The first answer that is wanted. Otherwise the last failure, or `otherwise` without one. -/
def firstSuccess (wanted : Reply → Bool) (otherwise : Except Fault Reply) :
    List Outcome → Except Fault Reply
  | [] => otherwise
  | o :: rest =>
    match success o with
    | .ok r => if wanted r then .ok r else firstSuccess wanted otherwise rest
    | .error f => firstSuccess wanted (.error f) rest

def entries : List Outcome → Except Fault (List (Reply × Reply))
  | [] => .ok []
  | (node, outcome) :: rest => do
    let r ← outcome
    return (.bulk (Bytes.ofText node), r) :: (← entries rest)

def isNil : Reply → Bool
  | .nil => true
  | _ => false

def noAnswer : Fault := .cause .clusterUnreachable "Couldn't find any connection" none

def byPolicy (outcomes : List Outcome) : MergePolicy → Except Fault Reply
  | .allSucceeded => (allSuccesses outcomes).map fun rs => rs.headD .nil
  | .oneSucceeded => firstSuccess (fun _ => true) (.error noAnswer) outcomes
  | .firstNonEmpty => firstSuccess (fun r => !isNil r) (.ok .nil) outcomes
  | .allEqual => (allSuccesses outcomes).bind agreed
  | .number rule => (allSuccesses outcomes).bind (numbers rule)
  | .logical rule => (allSuccesses outcomes).bind (logical rule)
  | .combineArrays => (allSuccesses outcomes).bind fun rs => (concatenation rs).map .array

def merge (policy : Option MergePolicy) (outcomes : List Outcome) : Except Fault Reply :=
  if outcomes.isEmpty then .error .noTargets
  else
    match policy with
    | some policy => byPolicy outcomes policy
    | none => (entries outcomes).map .map

end SlotCluster.Merge
