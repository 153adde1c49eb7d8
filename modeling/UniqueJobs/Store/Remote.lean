import UniqueJobs.Digest.Sha1
import UniqueJobs.Store.Server

/-!
A store of records kept by a server. Every call opens a connection of its own. Requests of one batch
are sent as a transaction, so that they are carried out as one step, and procedures are sent by the
digest of their text; a server that does not know the digest is sent the text.
-/

namespace UniqueJobs

/-- The longest time to live that is ever sent, in milliseconds. -/
def maxExpiry : Nat := 1 <<< 46

/-- A time to live in milliseconds, as sent. A server takes neither zero nor what exceeds its
clock. -/
def expiry (ttl : Duration) : Nat := max 1 (min ttl.millis maxExpiry)

theorem one_le_expiry (ttl : Duration) : 1 ≤ expiry ttl := Nat.le_max_left _ _

theorem expiry_le (ttl : Duration) : expiry ttl ≤ maxExpiry :=
  Nat.max_le.mpr ⟨by decide, Nat.min_le_right _ _⟩

namespace Request

/-- The commands that carry out a request, of which the first answers it. A set gets the time to
live if it has none, and then only a longer one. -/
def commands : Request → List Command
  | .setIfAbsent key value ttl => [["SET", key, value, "NX", "PX", toString (expiry ttl)]]
  | .get key => [["GET", key]]
  | .item key index => [["LINDEX", key, toString index]]
  | .delete keys => ["DEL" :: keys]
  | .addNames key names ttl =>
    ["SADD" :: key :: names, ["PEXPIRE", key, toString (expiry ttl), "NX"],
      ["PEXPIRE", key, toString (expiry ttl), "GT"]]

/-- The reply to a request, from the answer to its first command. -/
def toReply (r : Request) (a : Answer) : Except StoreError Reply :=
  match r with
  | .setIfAbsent .. => a.toWritten.map .set
  | .get _ | .item .. => a.toValue.map .value
  | .delete _ => a.toCount.map .deleted
  | .addNames .. => a.toCount.map .added

/-- The reply to each request, from the answers to all their commands. -/
def readReplies : List Request → List Answer → Except StoreError (List Reply)
  | [], [] => .ok []
  | r :: rest, answers =>
    match answers with
    | [] => .error (.unexpectedReply .truncated)
    | a :: _ =>
      match r.toReply a with
      | .error e => .error e
      | .ok reply => (readReplies rest (answers.drop r.commands.length)).map (reply :: ·)
  | [], _ :: _ => .error (.unexpectedReply (.other "more answers than commands"))

end Request

def transaction (requests : List Request) : List Command :=
  [["MULTI"]] ++ requests.flatMap Request.commands ++ [["EXEC"]]

def readTransaction (requests : List Request) (a : Answer) : Except StoreError (List Reply) :=
  match a with
  | .array answers =>
    if answers.length = (requests.flatMap Request.commands).length then
      Request.readReplies requests answers
    else .error (.unexpectedReply .truncated)
  | _ => .error (.unexpectedReply (.other "no answers to a transaction"))

structure Remote (m : Type → Type) where
  link : Link m
  opening : List Command
  timeout : Duration

namespace Remote

variable {m : Type → Type} [Monad m] {α : Type}

/-- Send commands and get an answer that is no refusal. -/
def ask (r : Remote m) (commands : List Command) : m (Except StoreError Answer) := do
  match ← r.link.send commands with
  | .error why => pure (.error (.unavailable why))
  | .ok a => pure a.accept

/-- Give the commands of the opening, each of which has to be done. -/
def begin (r : Remote m) : List Command → m (Except StoreError Unit)
  | [] => pure (.ok ())
  | command :: rest => do
    match ← r.ask [command] with
    | .error e => pure (.error e)
    | .ok (.status "OK") => r.begin rest
    | .ok _ => pure (.error (.unexpectedReply (.other "the server refused to begin")))

def connect (r : Remote m) : m (Except StoreError Unit) := do
  if r.timeout.isZero then pure (.error (.unavailable (.other "no time to connect")))
  else
    match ← r.link.connect with
    | .error why => pure (.error (.unavailable why))
    | .ok () => r.begin r.opening

/-- One exchange over a connection of its own. -/
def call (r : Remote m) (commands : List Command) (read : Answer → Except StoreError α) :
    m (Except StoreError α) := do
  match ← r.connect with
  | .error e => pure (.error e)
  | .ok () =>
    match ← r.ask commands with
    | .error e => pure (.error e)
    | .ok a => pure (read a)

/-- Any answer but that there is nothing counts as written. -/
def isWritten : Answer → Bool
  | .nil => false
  | _ => true

/-- What a refusal says of a procedure whose digest is not known. -/
def isUnknownDigest (reason : String) : Bool :=
  reason.toList.takeWhile (· ≠ ' ') = "NOSCRIPT".toList

/-- A refusal to run a procedure is a fault of the procedure. -/
def asFault : StoreError → StoreError
  | .unexpectedReply why => .script (.other why.message)
  | e => e

/-- The command that runs a procedure by the digest of its text. -/
def invocation (p : Procedure) (keys args : List String) : Command :=
  ["EVALSHA", Digest.sha1 (Digest.utf8 p.source), toString keys.length] ++ keys ++ args

def order (r : Remote m) (command : Command) : m (Except StoreError Unit) := do
  match ← r.ask [command] with
  | .error e => pure (.error (asFault e))
  | .ok _ => pure (.ok ())

/-- Run a procedure over the open connection, sending its text first if need be. -/
def invoke (r : Remote m) (p : Procedure) (keys args : List String) :
    m (Except StoreError Unit) := do
  match ← r.ask [invocation p keys args] with
  | .ok _ => pure (.ok ())
  | .error (.unexpectedReply (.other reason)) =>
    if isUnknownDigest reason then
      match ← r.order ["SCRIPT", "LOAD", p.source] with
      | .error e => pure (.error e)
      | .ok () => r.order (invocation p keys args)
    else pure (.error (.script (.other reason)))
  | .error e => pure (.error e)

/-- The store as its callers see it. What asks for nothing is not sent. -/
def toRecordStore (r : Remote m) : RecordStore m where
  get key := r.call [["GET", key]] Answer.toValue
  setIfAbsent key value ttl :=
    r.call (Request.setIfAbsent key value ttl).commands fun a ↦ .ok (isWritten a)
  delete keys :=
    if keys.isEmpty then pure (.ok 0) else r.call ["DEL" :: keys] Answer.toCount
  batch requests :=
    if requests.isEmpty then pure (.ok [])
    else r.call (transaction requests) (readTransaction requests)
  run procedure keys args := do
    match ← r.connect with
    | .error e => pure (.error e)
    | .ok () => r.invoke procedure keys args

end Remote

end UniqueJobs
