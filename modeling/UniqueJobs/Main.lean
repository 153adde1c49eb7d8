import UniqueJobs.CommandLine.Report
import UniqueJobs.CommandLine.Usage
import UniqueJobs.Store.Remote

/-!
The program that shows an operator the records of a job. It is built without a way to any server, so
of its two commands `inspect` reports that its store cannot be reached.
-/

namespace UniqueJobs.CommandLine

/-- The store at an address, to which there is no way. -/
def dial (address : Address) (timeout : Duration) : RecordStore IO :=
  Remote.toRecordStore ⟨.unreachable "no way to any server", address.opening, timeout⟩

def environment : IO (Dictionary String) := do
  let mut found : Dictionary String := .empty
  for var in Settings.Var.all do
    if let some value ← IO.getEnv var.name then
      found := found.insert var.name value
  return found

/-- Exit codes: zero for a report, one if there is none, two if the arguments make no sense. -/
def run (args : List String) : IO UInt32 := do
  match parse args with
  | .error .version =>
    IO.print versionLine
    return 0
  | .error (.help scope) =>
    IO.print (usage scope)
    return 0
  | .error .refused =>
    IO.eprint (usage .program)
    return 2
  | .ok invocation =>
    match ← report (← environment).get? dial invocation with
    | .ok text =>
      IO.print text
      return 0
    | .error e =>
      IO.eprintln ("error: " ++ e.message)
      return 1

end UniqueJobs.CommandLine

def main (args : List String) : IO UInt32 := UniqueJobs.CommandLine.run args
