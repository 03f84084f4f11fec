import ChurchStore.Text.Duration
import ChurchStore.Violation

/-!
# Log events

Everything that a run can write into its log. An event determines its level, the part of the
program that it comes from and its message; single applications are not logged.
-/

namespace ChurchStore.Log

/-- How severe an event is, the most severe first. -/
inductive Level where
  | error
  | warn
  | info
  | debug
  | trace
  deriving DecidableEq, Repr, Inhabited

namespace Level

def all : List Level := [.error, .warn, .info, .debug, .trace]

def name : Level → String
  | error => "ERROR"
  | warn => "WARN"
  | info => "INFO"
  | debug => "DEBUG"
  | trace => "TRACE"

/-- The position in `Level.all`: more verbose levels have larger numbers. -/
def verbosity : Level → Nat
  | error => 0
  | warn => 1
  | info => 2
  | debug => 3
  | trace => 4

/-- Reads a level's name in any case. -/
def ofString? (s : String) : Option Level :=
  let word := String.ofList (s.toList.map Char.toUpper)
  all.find? (·.name == word)

end Level

/-- The parts of the program that write into the log (`targets`). -/
inductive Target where
  | arena
  | pool
  | refcount
  | evaluator
  | demo
  | program
  deriving DecidableEq, Repr, Inhabited

def Target.name : Target → String
  | .arena => "arena"
  | .pool => "pool"
  | .refcount => "refcount"
  | .evaluator => "evaluator"
  | .demo => "demo"
  | .program => "lambdacalc"

/-- What a run can write into its log. -/
inductive Event where
  /-- An arena got its block of this number while this many bytes were in use. -/
  | blockAllocated (number bytes : Nat)
  /-- An arena was reset, which ended this epoch and gave this many bytes back. -/
  | arenaReset (epoch : UInt32) (bytes : Nat)
  /-- A free slot took a new closure of this kind. -/
  | slotReused (slot : Nat) (kind : Kind)
  /-- The builtin functions of a reference-counting evaluator exist. -/
  | singletonsAllocated
  /-- An operation stopped with this violation. -/
  | violation (v : Violation)
  /-- The demo has its table of this many numerals. -/
  | tableBuilt (count : Nat)
  /-- A timed attempt took this many nanoseconds and left this many closures alive. -/
  | attemptFinished (attempt elapsed live : Nat)
  /-- The program starts on a workload. -/
  | running (workload : Workload) (backend : BackendKind)
  deriving DecidableEq, Repr

namespace Event

def level : Event → Level
  | blockAllocated .. => .debug
  | arenaReset .. => .info
  | slotReused .. => .trace
  | singletonsAllocated => .trace
  | violation _ => .error
  | tableBuilt _ => .debug
  | attemptFinished .. => .info
  | running .. => .info

def target : Event → Target
  | blockAllocated .. => .arena
  | arenaReset .. => .arena
  | slotReused .. => .pool
  | singletonsAllocated => .refcount
  | violation _ => .evaluator
  | tableBuilt _ => .demo
  | attemptFinished .. => .demo
  | running .. => .program

def message : Event → String
  | blockAllocated number bytes => s!"Block #{number} allocated ({bytes} bytes in use)"
  | arenaReset epoch bytes =>
    "Reset after epoch " ++ toString epoch.toNat ++ s!", reclaiming {bytes} bytes"
  | slotReused slot kind => s!"Reusing slot {slot} for " ++ kind.name
  | singletonsAllocated => "Singletons allocated"
  | violation v => v.message
  | tableBuilt count => s!"Built {count} numerals"
  | attemptFinished attempt elapsed live =>
    s!"Attempt #{attempt} finished in " ++ Text.shortDuration elapsed ++
      s!" with {live} live closures"
  | running workload backend => "Running " ++ workload.render ++ " on the " ++ backend.name ++
    " backend"

/-- The line for an event, with the time at which it was written. -/
def line (time : String) (e : Event) : String :=
  "[" ++ time ++ " " ++ Text.blankPadded 5 e.level.name ++ " " ++ e.target.name ++ "] " ++
    e.message

end Event

end ChurchStore.Log
