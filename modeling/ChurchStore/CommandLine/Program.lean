import ChurchStore.Arena
import ChurchStore.CommandLine.Arguments
import ChurchStore.CommandLine.Directives
import ChurchStore.CommandLine.Help
import ChurchStore.Demo
import ChurchStore.Pool
import ChurchStore.SharedHeap

/-!
# The program

From the arguments and the environment to what the program prints and its exit code. A plan says
what is to be done; carrying it out runs one demo on one store.
-/

namespace ChurchStore.CommandLine

/-- The value of an environment variable, if it is set. -/
abbrev Environment := String → Option String

/-- A demo to be run. -/
structure Job where
  config : Config
  options : DemoOptions
  palette : Report.Palette
  filter : Log.Filter
  deriving Repr, Inhabited

/-- What the program is to do. -/
inductive Plan where
  /-- Print a text. -/
  | print (text : String)
  /-- Complain about the arguments. -/
  | misused (e : UsageError)
  /-- Refuse to run, with this message. -/
  | refuse (message : String)
  | run (job : Job)
  deriving Repr, Inhabited

/-- How styles are shown, unless they are switched off. -/
def paletteOf (noColor : Bool) (env : Environment) : Report.Palette :=
  if noColor then .plain
  else if (env colorVariable).getD "" = "" then .colored
  else .monochrome

/-- The job that the arguments ask for: a valid configuration and a known workload (`config`,
`workload` and the checks of `main`). -/
def jobOf (a : Arguments) (env : Environment) : Except String Job := do
  let config : Config := {
    backend := a.backend.getD standard.backend
    blockCapacity := a.blockCapacity.getD standard.blockCapacity
    numeralCount := a.count.getD standard.numeralCount
    repeatCount := a.repeatCount.getD standard.repeatCount }
  config.validate.mapError ConfigError.message
  let workload ←
    match a.workload with
    | none => pure .fold
    | some name =>
      match Workload.ofString? name with
      | some workload => pure workload
      | none => throw (Workload.unknownMessage name)
  return {
    config
    options := {
      workload
      numeralCount := config.numeralCount
      repeatCount := config.repeatCount
      stats := a.stats }
    palette := paletteOf a.noColor env
    filter := Log.Filter.parse ((env logVariable).getD "") }

/-- What the program does for these arguments. -/
def planOf (arguments : List String) (env : Environment) : Plan :=
  match Arguments.read arguments (env backendVariable) with
  | .error (.usage e) => .misused e
  | .error (.help atLength) =>
    .print (Text.visible ((if atLength then longHelp else shortHelp) (env backendVariable)))
  | .error .version => .print versionText
  | .ok a =>
    match jobOf a env with
    | .ok job => .run job
    | .error message => .refuse message

/-- What the program prints, and its exit code. -/
structure Outcome where
  code : Nat
  out : String := ""
  err : String := ""
  deriving DecidableEq, Repr, Inhabited

/-- The complaint about misused arguments; how the program is called is left out of it if only a
value is wrong. -/
def misuseText (e : UsageError) : String :=
  Text.visible <|
    Text.emphasized "error:" ++ " " ++ e.message ++ "\n\n" ++
    (if e.isAboutValue then "" else usageLine ++ "\n\n") ++
    "For more information, try '" ++ Text.emphasized "--help" ++ "'.\n"

/-- The complaints about what says which events are logged. -/
def logComplaints (env : Environment) : String :=
  String.join ((Log.Filter.unreadable ((env logVariable).getD "")).map fun part =>
    "warning: invalid logging spec '" ++ part ++ "', ignoring it\n")

/-- The last line of a run that failed. -/
def failureText (message : String) : String := "Error: " ++ message ++ "\n"

/-- The limits of a job's evaluator. -/
def Job.limits (job : Job) : Limits := { blockCapacity := job.config.blockCapacity }

/-- The machine on which a job starts. -/
def Job.machine {W H : Type} [Host W H] (job : Job) : Machine W where
  store := Host.initial
  journal :=
    Journal.record { filter := job.filter } (.running job.options.workload job.config.backend)

/-- The lines of a log, with the time that they show. -/
def logText (time : String) (events : List Log.Event) : String :=
  String.join (events.map fun e => e.line time ++ "\n")

/-- The exit code after a demo, and the text that says why it stopped. -/
def verdict : Option Halt → Nat × String
  | none => (0, "")
  | some (.write e) => (1, failureText e.message)
  | some (.fault f) => (101, f.message ++ "\n")

/-- Opens the job's evaluator and plays a scene with it (`run_with`). -/
def Job.perform {W H : Type} [Host W H] (job : Job) (scene : Evaluator H → Scene W Unit) :
    Option Halt × Stage W :=
  let openAndPlay : Scene W Unit := do
    scene (← Scene.act (Host.openWith job.limits))
  match openAndPlay { machine := job.machine, reporter := { palette := job.palette } } with
  | .ok () stage => (none, stage)
  | .error halt stage => (some halt, stage)

/-- Runs a job on a store of type `W`. -/
def Job.runOn (W : Type) {H : Type} [Host W H] (job : Job) (clock : Nat → Nat) (time : String) :
    Outcome :=
  let (halt, stage) := (job.perform fun e => Demo.run e job.options clock : Option Halt × Stage W)
  let (code, complaint) := verdict halt
  { code
    out := stage.reporter.sink.text
    err := logText time stage.machine.journal.events.toList ++ complaint }

/-- Runs a job on the store that it asks for. -/
def Job.run (job : Job) (clock : Nat → Nat) (time : String) : Outcome :=
  match job.config.backend with
  | .arena => job.runOn Arenas clock time
  | .refcounted => job.runOn SharedHeap clock time
  | .pooled => job.runOn Pools clock time

/-- Runs the program, in which each timed attempt takes as long as the clock has for it and every
log line shows the same time. -/
def runProgram (arguments : List String) (env : Environment) (clock : Nat → Nat) (time : String) :
    Outcome :=
  let outcome : Outcome :=
    match planOf arguments env with
    | .print text => { code := 0, out := text }
    | .misused e => { code := 2, err := misuseText e }
    | .refuse message => { code := 1, err := failureText message }
    | .run job => job.run clock time
  { outcome with err := logComplaints env ++ outcome.err }

end ChurchStore.CommandLine
