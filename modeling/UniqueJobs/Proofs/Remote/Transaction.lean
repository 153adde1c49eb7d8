import Mathlib.Data.List.Forall2
import UniqueJobs.Proofs.Remote.Exchange

/-!
A batch of a remote store is one transaction. Requests take different numbers of commands; each is
answered by the answer to its own command, wherever that stands.
-/

namespace UniqueJobs

/-- An answer that a command can have when it is carried out. How long a record lives is of no
interest to a batch, so that any answer to a command on that will do. -/
def Answer.Suits : Command → Answer → Prop
  | "SET" :: _, a => a = .status "OK" ∨ a = .nil
  | "GET" :: _, a | "LINDEX" :: _, a => a = .nil ∨ ∃ s, a = .bulk (some s)
  | "DEL" :: _, a | "SADD" :: _, a => ∃ n : Int64, 0 ≤ n ∧ a = .integer n
  | "PEXPIRE" :: _, a => a.refusal? = none
  | _, _ => False

namespace Request

/-- The command that answers a request. -/
def command : Request → Command
  | .setIfAbsent key value ttl => ["SET", key, value, "NX", "PX", toString (expiry ttl)]
  | .get key => ["GET", key]
  | .item key index => ["LINDEX", key, toString index]
  | .delete keys => "DEL" :: keys
  | .addNames key names _ => "SADD" :: key :: names

/-- The commands that follow it. -/
def extensions : Request → List Command
  | .addNames key _ ttl =>
    [["PEXPIRE", key, toString (expiry ttl), "NX"], ["PEXPIRE", key, toString (expiry ttl), "GT"]]
  | _ => []

/-- The commands of a batch in the order of its requests. -/
def queued (requests : List Request) : List Command :=
  requests.flatMap fun r ↦ r.command :: r.extensions

def addsNames : Request → Bool
  | .addNames .. => true
  | _ => false

/-- Where the own command of a request stands among all commands of the batch. -/
def place (requests : List Request) (i : Nat) : Nat :=
  i + 2 * (requests.take i).countP addsNames

/-- The reply that an answer to the own command of a request amounts to. -/
inductive Decodes : Request → Answer → Reply → Prop
  | written (key value : String) (ttl : Duration) :
    Decodes (.setIfAbsent key value ttl) (.status "OK") (.set true)
  | present (key value : String) (ttl : Duration) :
    Decodes (.setIfAbsent key value ttl) .nil (.set false)
  | found (key s : String) : Decodes (.get key) (.bulk (some s)) (.value (some s))
  | absent (key : String) : Decodes (.get key) .nil (.value none)
  | foundItem (key : String) (index : Int) (s : String) :
    Decodes (.item key index) (.bulk (some s)) (.value (some s))
  | absentItem (key : String) (index : Int) : Decodes (.item key index) .nil (.value none)
  | deleted (keys : List String) {n : Int64} (h : 0 ≤ n) :
    Decodes (.delete keys) (.integer n) (.deleted n.toInt.toNat)
  | added (key : String) (names : List String) (ttl : Duration) {n : Int64} (h : 0 ≤ n) :
    Decodes (.addNames key names ttl) (.integer n) (.added n.toInt.toNat)

/-- Every request has one reply, from the answer to its own command. -/
structure Aligned (requests : List Request) (answers : List Answer) (replies : List Reply) :
    Prop where
  length_eq : replies.length = requests.length
  decodes (i : Nat) (r : Request) (h : requests[i]? = some r) :
    ∃ a reply, answers[place requests i]? = some a ∧ replies[i]? = some reply ∧ r.Decodes a reply

variable {r : Request} {requests rest : List Request} {a : Answer} {answers : List Answer}

theorem commands_eq (r : Request) : r.commands = r.command :: r.extensions := by cases r <;> rfl

theorem flatMap_commands (requests : List Request) : requests.flatMap commands = queued requests :=
  congrArg requests.flatMap (funext commands_eq)

theorem queued_cons (r : Request) (rest : List Request) :
    queued (r :: rest) = r.command :: r.extensions ++ queued rest := List.flatMap_cons

theorem length_commands (r : Request) : r.commands.length = 1 + 2 * [r].countP addsNames := by
  cases r <;> rfl

theorem countP_addsNames_cons (r : Request) (rest : List Request) :
    (r :: rest).countP addsNames = [r].countP addsNames + rest.countP addsNames := by
  rw [← List.singleton_append, List.countP_append]

theorem place_succ (r : Request) (rest : List Request) (i : Nat) :
    place (r :: rest) (i + 1) = r.commands.length + place rest i := by
  rw [length_commands, place, place, List.take_succ_cons, countP_addsNames_cons]
  omega

theorem length_queued (requests : List Request) :
    (queued requests).length = requests.length + 2 * requests.countP addsNames := by
  induction requests with
  | nil => rfl
  | cons r rest ih =>
    rw [queued_cons, ← commands_eq, List.length_append, ih, length_commands,
      countP_addsNames_cons r rest, List.length_cons]
    omega

theorem getElem?_queued (requests : List Request) (i : Nat) (r : Request)
    (hr : requests[i]? = some r) : (queued requests)[place requests i]? = some r.command := by
  induction requests generalizing i with
  | nil => cases hr
  | cons first rest ih =>
    cases i with
    | zero =>
      obtain rfl : first = r := Option.some.inj hr
      rfl
    | succ i =>
      rw [place_succ, queued_cons, ← commands_eq,
        List.getElem?_append_right (Nat.le_add_right _ _), Nat.add_sub_cancel_left]
      exact ih i hr

end Request

namespace Answer

theorem toCount_integer {n : Int64} (h : 0 ≤ n) : (integer n).toCount = .ok n.toInt.toNat :=
  congrArg Except.ok (Int64.toNat_toUInt64_of_le h)

/-- An answer that suits its command is no refusal. -/
theorem Suits.refusal?_eq_none {command : Command} {a : Answer} (h : Suits command a) :
    a.refusal? = none := by
  unfold Suits at h
  split at h
  · rcases h with h | h <;> subst h <;> rfl
  · rcases h with h | ⟨s, h⟩ <;> subst h <;> rfl
  · rcases h with h | ⟨s, h⟩ <;> subst h <;> rfl
  · obtain ⟨n, -, h⟩ := h
    subst h
    rfl
  · obtain ⟨n, -, h⟩ := h
    subst h
    rfl
  · exact h
  · exact h.elim

theorem firstRefusal?_of_suits {commands : List Command} {answers : List Answer}
    (h : List.Forall₂ Suits commands answers) : firstRefusal? answers = none := by
  induction h with
  | nil => rfl
  | cons ha _ ih => rw [firstRefusal?, ha.refusal?_eq_none, ih, Option.or_none]

end Answer

namespace Request

open Answer (Suits)

variable {r : Request} {requests rest : List Request} {a : Answer} {answers : List Answer}
  {replies : List Reply}

/-- The own command's answer is read as the reply that it amounts to. -/
theorem toReply_of_suits (h : Suits r.command a) :
    ∃ reply, r.toReply a = .ok reply ∧ r.Decodes a reply := by
  cases r with
  | setIfAbsent key value ttl =>
    rcases h with h | h <;> subst h
    · exact ⟨_, rfl, .written key value ttl⟩
    · exact ⟨_, rfl, .present key value ttl⟩
  | get key =>
    rcases h with h | ⟨s, h⟩ <;> subst h
    · exact ⟨_, rfl, .absent key⟩
    · exact ⟨_, rfl, .found key s⟩
  | item key index =>
    rcases h with h | ⟨s, h⟩ <;> subst h
    · exact ⟨_, rfl, .absentItem key index⟩
    · exact ⟨_, rfl, .foundItem key index s⟩
  | delete keys =>
    obtain ⟨n, hn, h⟩ := h
    subst h
    exact ⟨_, by rw [toReply, Answer.toCount_integer hn]; rfl, .deleted keys hn⟩
  | addNames key names ttl =>
    obtain ⟨n, hn, h⟩ := h
    subst h
    exact ⟨_, by rw [toReply, Answer.toCount_integer hn]; rfl, .added key names ttl hn⟩

theorem Aligned.cons {reply : Reply} (ha : answers[0]? = some a) (hd : r.Decodes a reply)
    (h : Aligned rest (answers.drop r.commands.length) replies) :
    Aligned (r :: rest) answers (reply :: replies) where
  length_eq := congrArg (· + 1) h.length_eq
  decodes i := by
    cases i with
    | zero =>
      intro first hf
      obtain rfl : r = first := Option.some.inj hf
      exact ⟨a, reply, ha, rfl, hd⟩
    | succ i =>
      intro later hl
      obtain ⟨b, answer, hb, hr, hd⟩ := h.decodes i later hl
      refine ⟨b, answer, ?_, hr, hd⟩
      rw [place_succ, ← List.getElem?_drop]
      exact hb

/-- Reading passes over as many answers as each request has commands. -/
theorem readReplies_of_suits (requests : List Request) (answers : List Answer)
    (h : List.Forall₂ Suits (queued requests) answers) :
    ∃ replies, readReplies requests answers = .ok replies ∧ Aligned requests answers replies := by
  induction requests generalizing answers with
  | nil =>
    cases h
    exact ⟨[], rfl, rfl, nofun⟩
  | cons r rest ih =>
    have hdrop : List.Forall₂ Suits (queued rest) (answers.drop r.commands.length) := by
      have hall := List.forall₂_drop r.commands.length h
      rwa [queued_cons, ← commands_eq, List.drop_left] at hall
    obtain ⟨replies, hread, haligned⟩ := ih _ hdrop
    rw [queued_cons, List.cons_append] at h
    cases h with
    | cons ha _ =>
      obtain ⟨reply, hreply, hd⟩ := toReply_of_suits ha
      refine ⟨reply :: replies, ?_, .cons rfl hd haligned⟩
      rw [readReplies, hreply]
      exact congrArg (Except.map (reply :: ·)) hread

end Request

namespace Remote

open Answer (Suits)
open Rehearsed (Sends willing)
open Request (Aligned place queued)

variable {requests : List Request}

theorem transaction_eq (requests : List Request) :
    transaction requests = [["MULTI"]] ++ queued requests ++ [["EXEC"]] := by
  rw [transaction, Request.flatMap_commands]

theorem batch_eq_call (opening : List Command) (timeout : Duration) (h : requests ≠ []) :
    (byHeart opening timeout).toRecordStore.batch requests =
      (byHeart opening timeout).call (transaction requests) (readTransaction requests) :=
  if_neg (by simpa using h)

/-- The answers to a transaction, one for each command of its requests, are read as replies to
the requests. -/
theorem accept_readTransaction {answers : List Answer}
    (h : List.Forall₂ Suits (queued requests) answers) :
    ∃ replies, (Answer.array answers).accept.bind (readTransaction requests) = .ok replies ∧
      Aligned requests answers replies := by
  obtain ⟨replies, hread, haligned⟩ := Request.readReplies_of_suits requests answers h
  refine ⟨replies, ?_, haligned⟩
  have ha : (Answer.array answers).accept = .ok (.array answers) := by
    rw [Answer.accept, Answer.refusal?, Answer.firstRefusal?_of_suits h]
  have hlength : answers.length = (requests.flatMap Request.commands).length := by
    rw [Request.flatMap_commands, h.length_eq]
  rw [ha]
  exact (if_pos hlength).trans hread

end Remote

end UniqueJobs
