import SlotCluster.Reply
import SlotCluster.Settings

/-!
# Attempts

A request is tried several times. What came of one attempt says whether there is another, where
it goes, and what has to be done before it. A request keeps a few notes for its next attempt, and
the attempt uses them up when it looks for its node.
-/

namespace SlotCluster

/-! ## Notes for the next attempt -/

inductive Detour
  | moved (address : String)
  | ask (address : String)
  deriving DecidableEq, Repr

/-- What a request keeps from one attempt to the next. -/
structure RetryState where
  redirect : Option Detour
  asking : Bool
  tryRandom : Bool
  deriving DecidableEq, Repr

inductive Direction
  | route
  | random
  | address (address : String)
  deriving DecidableEq, Repr

namespace RetryState

def start : RetryState := ⟨none, false, false⟩

/-- Where the next attempt goes, and the notes without those that it follows. A redirect comes
before all else. -/
def aim (st : RetryState) : Direction × RetryState :=
  match st.redirect with
  | some (.moved address) => (.address address, { st with redirect := none, asking := false })
  | some (.ask address) => (.address address, { st with redirect := none, asking := true })
  | none =>
    if st.tryRandom then (.random, { st with asking := false, tryRandom := false })
    else (.route, { st with asking := false })

end RetryState

/-! ## Verdicts -/

inductive Effect
  | none
  | move (r : Redirect)
  | startOver
  deriving DecidableEq, Repr

inductive Next
  | done (result : Except Fault (List Reply))
  /-- Another attempt, perhaps after a pause in milliseconds. -/
  | again (pause : Option Nat)

structure Verdict where
  effect : Effect
  next : Next
  state : RetryState

namespace Attempt

/-- The error reply that decides on an attempt. Any error does if one command was sent. Of
several commands it is the first that the client has to act on. -/
def decisive : List Reply → Option ServerError
  | [r] => r.error?
  | replies => (replies.filterMap Reply.error?).find? ServerError.needsAction

def fault? : Except Fault (List Reply) → Option Fault
  | .error f => some f
  | .ok replies => (decisive replies).map .server

/-- A failure of the network always calls for another link. -/
def advice (f : Fault) : Advice := if f.isIo then .reconnect else f.advice

/-- Only the second half of the attempts pauses. -/
def pause (s : Settings) (left duration : Nat) : Option Nat :=
  if left < s.attempts / 2 then some duration else none

def again (left : Nat) (f : Fault) (pause : Option Nat) : Next :=
  if left = 0 then .done (.error (.outOfAttempts f)) else .again pause

def judgeFault (s : Settings) (left : Nat) (st : RetryState) (f : Fault) : Verdict :=
  match advice f with
  | .startOver => ⟨.startOver, .done (.error f), st⟩
  | .reconnect =>
    ⟨.none, again left f (pause s left s.connectionErrorPause), { st with tryRandom := true }⟩
  | .waitAndRetry => ⟨.none, again left f (pause s left s.tryAgainPause), st⟩
  | .followMoved =>
    match f.redirect? with
    | some r => ⟨.move r, again left f none, { st with redirect := some (.moved r.address) }⟩
    | none => ⟨.none, .done (.error f), st⟩
  | .followAsk =>
    match f.redirect? with
    | some r => ⟨.none, again left f none, { st with redirect := some (.ask r.address) }⟩
    | none => ⟨.none, .done (.error f), st⟩
  | .giveUp | .retryAtOnce => ⟨.none, .done (.error f), st⟩

/-- The verdict on an attempt after which `left` are left. -/
def judge (s : Settings) (left : Nat) (st : RetryState) (outcome : Except Fault (List Reply)) :
    Verdict :=
  match fault? outcome with
  | none => ⟨.none, .done outcome, st⟩
  | some f => judgeFault s left st f

end Attempt

end SlotCluster
