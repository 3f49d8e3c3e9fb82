import SlotCluster.Fault

/-!
# Replies

What a node answers. An error reply is a reply like any other; `checked` turns it into a fault,
also one that sits inside an array. A map is made by the client, to hold one answer per node.
-/

namespace SlotCluster

inductive Reply
  | nil
  | int (value : Int64)
  | bulk (bytes : Bytes)
  | array (items : List Reply)
  | simple (text : String)
  /-- The simple string `OK`. -/
  | okay
  | map (entries : List (Reply × Reply))
  | error (error : ServerError)

namespace Reply

/-! ## Equality -/

mutual

def same : Reply → Reply → Bool
  | nil, nil => true
  | int a, int b => a == b
  | bulk a, bulk b => a == b
  | array a, array b => sameItems a b
  | simple a, simple b => a == b
  | okay, okay => true
  | map a, map b => sameEntries a b
  | error a, error b => a == b
  | _, _ => false

def sameItems : List Reply → List Reply → Bool
  | [], [] => true
  | a :: as, b :: bs => same a b && sameItems as bs
  | _, _ => false

def sameEntries : List (Reply × Reply) → List (Reply × Reply) → Bool
  | [], [] => true
  | (k, v) :: as, (k', v') :: bs => same k k' && same v v' && sameEntries as bs
  | _, _ => false

end

instance : BEq Reply := ⟨same⟩

/-! ## Views -/

/-- The bytes of a string reply. -/
def bytes? : Reply → Option Bytes
  | bulk bytes => some bytes
  | simple text => some (Bytes.ofText text)
  | okay => some (Bytes.ofText "OK")
  | _ => none

/-- The error of an error reply at the top level. -/
def error? : Reply → Option ServerError
  | error e => some e
  | _ => none

mutual

/-- The first error reply at the top level or inside arrays. Maps are not searched. -/
def firstError : Reply → Option ServerError
  | error e => some e
  | array items => firstErrorOf items
  | _ => none

def firstErrorOf : List Reply → Option ServerError
  | [] => none
  | r :: rest =>
    match firstError r with
    | some e => some e
    | none => firstErrorOf rest

end

/-- The reply, unless it carries an error. -/
def checked (r : Reply) : Except Fault Reply :=
  match r.firstError with
  | some e => .error (.server e)
  | none => .ok r

/-! ## Text -/

/-- Bytes as numbers, for what is no text. -/
def byteList (b : Bytes) : String :=
  "[" ++ String.intercalate ", " (b.map fun x => toString x.toNat) ++ "]"

mutual

/-- A reply as messages show it. -/
def text : Reply → String
  | nil => "nil"
  | int value => "int(" ++ toString value.toInt ++ ")"
  | bulk bytes =>
    match bytes.text? with
    | some s => "bulk-string('" ++ Quoted.quote s ++ "')"
    | none => "binary-data(" ++ byteList bytes ++ ")"
  | array items => "array([" ++ String.intercalate ", " (textsOf items) ++ "])"
  | simple s => "simple-string(" ++ Quoted.quote s ++ ")"
  | okay => "ok"
  | map entries => "map([" ++ String.intercalate ", " (entryTexts entries) ++ "])"
  | error e => "server-error(" ++ e.message ++ ")"

def textsOf : List Reply → List String
  | [] => []
  | r :: rest => text r :: textsOf rest

def entryTexts : List (Reply × Reply) → List String
  | [] => []
  | (k, v) :: rest => ("(" ++ text k ++ ", " ++ text v ++ ")") :: entryTexts rest

end

/-- An integer reply, or a bulk string that spells one. -/
def integer (r : Reply) : Except Fault Int64 :=
  let value :=
    match r with
    | int value => some value
    | bulk bytes => Decimal.readInt64? bytes
    | _ => none
  match value with
  | some value => .ok value
  | none => .error (.cause .unexpectedReply "Expected an integer" (some r.text))

end Reply

end SlotCluster
