import UniqueJobs.Job.Basic

/-!
The arguments of the command line. An invocation is a command with its options; some options may
stand before the command as well as after it, and there the later value counts. An option that is not
made for repetition is refused the second time.
-/

namespace UniqueJobs.CommandLine

/-- Where an option stands: before the command, or after one of the commands. -/
inductive Scope
  | program
  | key
  | inspect
  deriving DecidableEq, Repr

inductive Opt
  | keyspace
  | json
  | worker
  | queue
  | args
  | config
  | storeUrl
  | help
  | version
  deriving DecidableEq, Repr

namespace Opt

def all : List Opt := [worker, queue, args, config, storeUrl, keyspace, json, help, version]

def long : Opt → String
  | keyspace => "namespace"
  | json => "json"
  | worker => "worker"
  | queue => "queue"
  | args => "args"
  | config => "wal-config"
  | storeUrl => "redis-url"
  | help => "help"
  | version => "version"

def short? : Opt → Option Char
  | worker => some 'w'
  | queue => some 'q'
  | help => some 'h'
  | version => some 'V'
  | _ => none

def takesValue : Opt → Bool
  | json | help | version => false
  | _ => true

def isRepeatable : Opt → Bool
  | config => true
  | _ => false

def standsIn : Opt → Scope → Bool
  | keyspace, _ | json, _ | help, _ => true
  | version, scope => scope = .program
  | storeUrl, scope => scope = .inspect
  | _, scope => scope ≠ .program

def about : Opt → String
  | keyspace => "Key namespace (defaults to JOBGUARD_NAMESPACE or \"jobguard\")"
  | json => "Output in JSON format instead of plain text"
  | worker => "Worker type"
  | queue => "Queue the job is routed to"
  | args => "Job arguments as a JSON array"
  | config => "Database config with WAL tracking (repeatable)"
  | storeUrl => "Redis URL (defaults to JOBGUARD_REDIS_URL / REDIS_URL)"
  | help => "Print help"
  | version => "Print version"

end Opt

inductive Stop
  | refused
  | help (scope : Scope)
  | version
  deriving DecidableEq, Repr

/-- Options and their values, the last one first. -/
abbrev Given := List (Opt × String)

namespace Given

def add (g : Given) (o : Opt) (value : String) : Except Stop Given :=
  if !o.isRepeatable && g.any (·.1 = o) then .error .refused else .ok ((o, value) :: g)

def values (g : Given) (o : Opt) : List String :=
  ((g.filter (·.1 = o)).map (·.2)).reverse

def value? (g : Given) (o : Opt) : Option String := (g.values o).head?

def has (g : Given) (o : Opt) : Bool := g.any (·.1 = o)

end Given

/-- Does an argument ask for an option? A single dash does not. -/
def isOption (arg : String) : Bool :=
  match arg.toList with
  | '-' :: _ :: _ => true
  | _ => false

/-- The option that an argument asks for, with the value attached to it. The value of a long name
follows an equals sign; that of a letter follows at once or an equals sign. -/
def named? (scope : Scope) (arg : String) : Option (Opt × Option String) :=
  let here := Opt.all.filter (·.standsIn scope)
  match arg.toList with
  | '-' :: '-' :: s =>
    let name := String.ofList (s.takeWhile (· ≠ '='))
    let value := match s.dropWhile (· ≠ '=') with
      | [] => none
      | _ :: value => some (String.ofList value)
    (here.find? (·.long = name)).map fun o ↦ (o, value)
  | '-' :: c :: s =>
    (here.find? (·.short? = some c)).map fun o ↦
      match s with
      | '=' :: value => (o, if o.takesValue then some (String.ofList value) else none)
      | [] => (o, none)
      | value => (o, if o.takesValue then some (String.ofList value) else none)
  | _ => none

/-- Read options up to the first argument that asks for none. Two dashes alone end the options, and
nothing may follow them. -/
def readOptions (scope : Scope) (g : Given) : List String → Except Stop (Given × List String)
  | [] => .ok (g, [])
  | arg :: rest =>
    if !isOption arg then .ok (g, arg :: rest)
    else if arg = "--" then if rest.isEmpty then .ok (g, []) else .error .refused
    else
      match named? scope arg with
      | none => .error .refused
      | some (o, some value) =>
        if o.takesValue then
          match g.add o value with
          | .error stop => .error stop
          | .ok g => readOptions scope g rest
        else .error .refused
      | some (.help, none) => .error (.help scope)
      | some (.version, none) => .error .version
      | some (o, none) =>
        if o.takesValue then
          match rest with
          | [] => .error .refused
          | value :: rest =>
            if isOption value then .error .refused
            else
              match g.add o value with
              | .error stop => .error stop
              | .ok g => readOptions scope g rest
        else
          match g.add o "" with
          | .error stop => .error stop
          | .ok g => readOptions scope g rest

structure JobQuery where
  worker : String
  queue : String
  args : String
  configs : List String
  deriving DecidableEq

inductive Action
  | key
  | inspect (storeUrl : Option String)
  deriving DecidableEq

structure Invocation where
  keyspace : Option String
  json : Bool
  query : JobQuery
  action : Action
  deriving DecidableEq

def command? : String → Option Scope
  | "key" => some .key
  | "inspect" => some .inspect
  | _ => none

/-- Read a command after its name, `before` being the options that stood before it. -/
def readCommand (scope : Scope) (before : Given) (args : List String) : Except Stop Invocation :=
  match readOptions scope [] args with
  | .error stop => .error stop
  | .ok (_, _ :: _) => .error .refused
  | .ok (g, []) =>
    match g.value? .worker with
    | none => .error .refused
    | some worker =>
      .ok {
        keyspace := (g.value? .keyspace).or (before.value? .keyspace)
        json := g.has .json || before.has .json
        query := ⟨worker, (g.value? .queue).getD defaultQueue, (g.value? .args).getD "[]",
          g.values .config⟩
        action := if scope = .inspect then .inspect (g.value? .storeUrl) else .key }

def parse (args : List String) : Except Stop Invocation :=
  match readOptions .program [] args with
  | .error stop => .error stop
  | .ok (_, []) => .error .refused
  | .ok (before, name :: rest) =>
    match command? name, name, rest with
    | some scope, _, rest => readCommand scope before rest
    | none, "help", [] => .error (.help .program)
    | none, "help", [name] => .error ((command? name).elim .refused .help)
    | none, _, _ => .error .refused

end UniqueJobs.CommandLine
