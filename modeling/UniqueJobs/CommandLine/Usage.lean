import UniqueJobs.CommandLine.Arguments

/-!
What the program says about itself.
-/

namespace UniqueJobs.CommandLine

def programName : String := "jobguard"

def versionLine : String := programName ++ " 0.1.0\n"

def padded (width : Nat) (s : String) : String := s.pushn ' ' (width - s.length)

/-- The line of an option: its letter, its name, its value, what it is for. -/
def Opt.line (o : Opt) : String :=
  let letter := match o.short? with
    | some c => "-" ++ c.toString ++ ", "
    | none => "    "
  let value := if o.takesValue then " <" ++ o.long.toUpper ++ ">" else ""
  "  " ++ padded 32 (letter ++ "--" ++ o.long ++ value) ++ o.about ++ "\n"

def Scope.about : Scope → String
  | .program => "Inspect job deduplication records"
  | .key => "Print the record keys for a job"
  | .inspect => "Read the live records for a job from Redis"

def Scope.form : Scope → String
  | .program => " [OPTIONS] <COMMAND>"
  | .key => " key [OPTIONS] --worker <WORKER>"
  | .inspect => " inspect [OPTIONS] --worker <WORKER>"

def usage (scope : Scope) : String :=
  let command (name : String) (s : Scope) := "  " ++ padded 9 name ++ s.about ++ "\n"
  let commands :=
    if scope = .program then
      "Commands:\n" ++ command "key" .key ++ command "inspect" .inspect ++ "\n"
    else ""
  let options := (Opt.all.filter (·.standsIn scope)).map Opt.line
  scope.about ++ "\n\nUsage: " ++ programName ++ scope.form ++ "\n\n" ++ commands ++
    "Options:\n" ++ String.join options

end UniqueJobs.CommandLine
