import UniqueJobs.Store.Server

/-!
A server that answers by heart: it takes its answers from a list, whatever it is asked, and keeps the
commands that it was sent.
-/

namespace UniqueJobs

/-- What the server does when an answer is due. -/
inductive Turn
  | answer (a : Answer)
  | close
  /-- It does nothing, and the caller's time runs out. -/
  | hang

structure Rehearsed where
  reachable : Bool
  turns : List Turn
  /-- The commands that it was sent, the last one first. -/
  sent : List Command

namespace Rehearsed

def connect (s : Rehearsed) : Except Outage Unit × Rehearsed :=
  if s.reachable then (.ok (), s) else (.error (.other "connection refused"), s)

/-- Commands sent together are due one answer. -/
def send (commands : List Command) (s : Rehearsed) : Except Outage Answer × Rehearsed :=
  let sent := commands.reverse ++ s.sent
  match s.turns with
  | [] => (.error (.other "connection closed"), { s with sent })
  | .answer a :: turns => (.ok a, { s with turns, sent })
  | .close :: turns => (.error (.other "connection closed"), { s with turns, sent })
  | .hang :: turns => (.error (.other "timed out"), { s with turns, sent })

def link : Link (StateM Rehearsed) where
  connect := modifyGet connect
  send commands := modifyGet (send commands)

end Rehearsed

end UniqueJobs
