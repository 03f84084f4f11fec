import ChurchStore.Closure
import ChurchStore.Text.Blank
import ChurchStore.Text.Word

/-!
# Run configuration

What a run is configured with: which store backs it, how large its blocks are, how long the table
of numerals is and how often a timed workload repeats. Configuration errors are the only ones that
a caller can recover from; they are found before anything is allocated.
-/

namespace ChurchStore

/-- The three ways to store closures (`BackendKind`). -/
inductive BackendKind where
  | arena
  | refcounted
  | pooled
  deriving DecidableEq, Repr, Inhabited

namespace BackendKind

def all : List BackendKind := [.arena, .refcounted, .pooled]

def name : BackendKind → String
  | .arena => "arena"
  | .refcounted => "refcounted"
  | .pooled => "pooled"

/-- The lower-case words by which a backend can be asked for. -/
def spellings : BackendKind → List String
  | .arena => ["arena"]
  | .refcounted => ["refcounted", "rc"]
  | .pooled => ["pooled", "pool"]

/-- Reads a backend's name; white space around it and the case of ASCII letters do not matter. -/
def ofString? (s : String) : Option BackendKind :=
  let word := String.ofList ((Text.trimBlank s.toList).map Char.toLower)
  all.find? fun kind => kind.spellings.contains word

end BackendKind

/-- What can be wrong with a configuration (`ConfigError`). -/
inductive ConfigError where
  | unknownBackend (name : String)
  | blockTooSmall (capacity required : Nat)
  | zeroRepeat
  deriving DecidableEq, Repr

/-- What is said about an error (`fmt` of `ConfigError`). -/
def ConfigError.message : ConfigError → String
  | .unknownBackend name =>
    "Unknown backend '" ++ name ++ "' (expected one of: " ++
      ", ".intercalate (BackendKind.all.map BackendKind.name) ++ ")"
  | .blockTooSmall capacity required =>
    s!"Block capacity of {capacity} bytes is below the {required} bytes the largest closure needs"
  | .zeroRepeat => "Repeat count must be at least 1"

/-- Reads a backend's name, or reports the name as it was given (`from_str` of `BackendKind`). -/
def BackendKind.parse (s : String) : Except ConfigError BackendKind :=
  match ofString? s with
  | some kind => .ok kind
  | none => .error (.unknownBackend s)

/-- The configuration of a run, with its standard values (`Config`). -/
structure Config where
  backend : BackendKind := .arena
  /-- Bytes in each block of an arena. -/
  blockCapacity : Nat := 2048 * 1000
  /-- Numerals in the table that the folding demo prints. -/
  numeralCount : Nat := 10
  /-- Timed repetitions of a workload. -/
  repeatCount : Nat := 1
  deriving DecidableEq, Repr, Inhabited

/-- Checks that every closure fits in a block and that something is to be run (`validate`). -/
def Config.validate (c : Config) : Except ConfigError Unit :=
  if c.blockCapacity < Closure.maxFootprint then
    .error (.blockTooSmall c.blockCapacity Closure.maxFootprint)
  else if c.repeatCount = 0 then
    .error .zeroRepeat
  else
    .ok ()

/-- What a run computes: the folding demo, or one numeral raised to itself and timed
(`Workload`). -/
inductive Workload where
  | fold
  | selfPower (k : Nat)
  deriving DecidableEq, Repr, Inhabited

namespace Workload

/-- Reads a workload's name: `n` and the numeral to raise to itself (`workload` of the command
line). -/
def ofString? (name : String) : Option Workload :=
  match name.toList with
  | 'n' :: k => (Text.readWord k).toOption.map selfPower
  | _ => none

/-- The message for a name that is no workload. -/
def unknownMessage (name : String) : String :=
  "Unknown workload '" ++ name ++ "' (expected e.g. 'n9')"

def render : Workload → String
  | fold => "Fold"
  | selfPower k => "SelfPower(" ++ toString k ++ ")"

end Workload

end ChurchStore
