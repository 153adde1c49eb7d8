import UniqueJobs.Store.Basic

/-!
A server that keeps records, as it is seen over a connection. A command is a list of words, and every
command gets one answer. `Link m` is any way of reaching a server whose steps run in the monad `m`.
-/

namespace UniqueJobs

/-- A command, word by word. -/
abbrev Command := List String

inductive Answer
  | nil
  | status (text : String)
  /-- A text, or bytes that are none. -/
  | bulk (text : Option String)
  | integer (n : Int64)
  | array (items : List Answer)
  /-- The command was not carried out. -/
  | refusal (reason : String)

namespace Answer

instance : Inhabited Answer := ⟨nil⟩

mutual

/-- The first refusal in an answer or its items. -/
def refusal? : Answer → Option String
  | .refusal reason => some reason
  | .array items => firstRefusal? items
  | .nil | .status _ | .bulk _ | .integer _ => none

def firstRefusal? : List Answer → Option String
  | [] => none
  | a :: rest => (refusal? a).or (firstRefusal? rest)

end

/-- An answer that holds a refusal says nothing else. -/
def accept (a : Answer) : Except StoreError Answer :=
  match a.refusal? with
  | some reason => .error (.unexpectedReply (.other reason))
  | none => .ok a

def toValue : Answer → Except StoreError (Option String)
  | .nil => .ok none
  | .bulk (some s) | .status s => .ok (some s)
  | _ => .error (.unexpectedReply (.other "not a text"))

def toCount : Answer → Except StoreError Nat
  | .integer n => .ok n.toUInt64.toNat
  | _ => .error (.unexpectedReply (.other "not a number"))

/-- Was a text written? Only the two answers that the command has are taken. -/
def toWritten : Answer → Except StoreError Bool
  | .status "OK" => .ok true
  | .nil => .ok false
  | _ => .error (.unexpectedReply (.other "neither written nor refused"))

end Answer

structure Link (m : Type → Type) where
  connect : m (Except Outage Unit)
  /-- Send commands over the open connection; the answer is the one to the last. -/
  send : List Command → m (Except Outage Answer)

/-- A way on which no server is ever reached. -/
def Link.unreachable {m : Type → Type} [Monad m] (reason : String) : Link m where
  connect := pure (.error (.other reason))
  send _ := pure (.error (.other reason))

end UniqueJobs
