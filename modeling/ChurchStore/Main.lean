import ChurchStore.CommandLine.Program
import Std.Time

/-!
# Entry point

Runs the program on the real command line, environment and clock. Output is written as soon as a
part of the demo has produced it.
-/

namespace ChurchStore.CommandLine

/-- The present time as log lines show it. -/
def timestamp : IO String := do
  let now ← Std.Time.Timestamp.now
  return (Std.Time.DateTime.ofTimestamp now .UTC).format "uuuu-MM-dd'T'HH:mm:ss'Z'"

/-- Prints what a stage has written and logged, and empties both. -/
def deliver {W : Type} : Stage W → IO (Stage W)
  | ⟨⟨store, journal⟩, reporter⟩ => do
    let err ← IO.getStderr
    if journal.events.size > 0 then
      err.putStr (logText (← timestamp) journal.events.toList)
    let out ← IO.getStdout
    out.write reporter.sink.written
    out.flush
    let reporter := { reporter with sink.written := .empty }
    return ⟨⟨store, { journal with events := #[] }⟩, reporter⟩

/-- Plays a scene and prints what it produced. -/
def playOut {W α : Type} (scene : Scene W α) (stage : Stage W) :
    IO (EStateM.Result Halt (Stage W) α) := do
  match scene stage with
  | .ok a stage => return .ok a (← deliver stage)
  | .error halt stage => return .error halt (← deliver stage)

/-- Plays the attempts of a self power, each with the time that it took. -/
def playAttempts {W H : Type} [Backend W H] (e : Evaluator H) (k repeatCount : Nat) (n : H) :
    Stage W → IO (Option Halt × Stage W) := fun first => do
  let mut stage := first
  for attempt in [0:repeatCount] do
    let before ← IO.monoNanosNow
    match (Scene.act (e.pow n n) : Scene W Int64) stage with
    | .error halt stopped => return (some halt, ← deliver stopped)
    | .ok value powered =>
      let elapsed := (← IO.monoNanosNow) - before
      match ← playOut (Demo.reportAttempt e k repeatCount attempt value elapsed) powered with
      | .error halt stopped => return (some halt, stopped)
      | .ok () reported => stage := reported
  return (none, stage)

/-- Runs a job on a store of type `W` and returns why it stopped early, if it did. -/
def playJob (W : Type) {H : Type} [Host W H] (job : Job) : IO (Option Halt) := do
  let begun : Scene W (Evaluator H) := do
    let e ← Scene.act (Host.openWith job.limits)
    Demo.opening
    return e
  match ← playOut begun { machine := job.machine, reporter := { palette := job.palette } } with
  | .error halt _ => return some halt
  | .ok e stage =>
    let (halt, stage) ←
      match job.options.workload with
      | .fold =>
        match ← playOut (Demo.folds e job.options.numeralCount) stage with
        | .ok () stage => pure (none, stage)
        | .error halt stage => pure (some halt, stage)
      | .selfPower k =>
        match ← playOut (Scene.act (e.numeral k)) stage with
        | .ok n stage => playAttempts e k job.options.repeatCount n stage
        | .error halt stage => pure (some halt, stage)
    match halt with
    | some halt => return some halt
    | none =>
      match ← playOut (Demo.closing e job.options) stage with
      | .ok () _ => return none
      | .error halt _ => return some halt

/-- Carries a plan out and returns the exit code. -/
def carryOut : Plan → IO UInt32
  | .print text => do
    IO.print text
    return 0
  | .misused e => do
    IO.eprint (misuseText e)
    return 2
  | .refuse message => do
    IO.eprint (failureText message)
    return 1
  | .run job => do
    let halt ←
      match job.config.backend with
      | .arena => playJob Arenas job
      | .refcounted => playJob SharedHeap job
      | .pooled => playJob Pools job
    let (code, complaint) := verdict halt
    IO.eprint complaint
    return code.toUInt32

end ChurchStore.CommandLine

/-- Runs the program. -/
def main (arguments : List String) : IO UInt32 := do
  let backend? ← IO.getEnv ChurchStore.CommandLine.backendVariable
  let log? ← IO.getEnv ChurchStore.CommandLine.logVariable
  let color? ← IO.getEnv ChurchStore.CommandLine.colorVariable
  let env (name : String) : Option String :=
    if name = ChurchStore.CommandLine.backendVariable then backend?
    else if name = ChurchStore.CommandLine.logVariable then log?
    else if name = ChurchStore.CommandLine.colorVariable then color?
    else none
  IO.eprint (ChurchStore.CommandLine.logComplaints env)
  ChurchStore.CommandLine.carryOut (ChurchStore.CommandLine.planOf arguments env)
