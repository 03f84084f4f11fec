import ChurchStore.CommandLine.Visible
import ChurchStore.Config

/-!
# Command line arguments

Reading the arguments of the program from left to right. The first mistake, or a request for help
or the version, ends the reading. A value that stands in an argument of its own is checked when the
next option or the workload begins, or at the end; one that is attached to its option is checked at
once. This belongs to the outer layer of the program, which leaves it to a library for command
lines: the rules are what can be observed of that library, and nothing that is proved rests on them.
-/

namespace ChurchStore.CommandLine

/-- The options that take a value. -/
inductive Setting where
  | backend
  | count
  | blockCapacity
  | repeatCount
  deriving DecidableEq, Repr, Inhabited

namespace Setting

def all : List Setting := [backend, count, blockCapacity, repeatCount]

def long : Setting → String
  | backend => "backend"
  | count => "count"
  | blockCapacity => "block-capacity"
  | repeatCount => "repeat"

def short? : Setting → Option Char
  | backend => some 'b'
  | count => some 'c'
  | blockCapacity => none
  | repeatCount => some 'r'

/-- The name of an option's value. -/
def valueName : Setting → String
  | backend => "BACKEND"
  | count => "COUNT"
  | blockCapacity => "BYTES"
  | repeatCount => "REPEAT"

/-- An option with its value as messages show it. -/
def usage (s : Setting) : String :=
  Text.emphasized ("--" ++ s.long ++ " <" ++ s.valueName ++ ">")

end Setting

/-- The options without a value. -/
inductive Switch where
  | stats
  | noColor
  | help
  | version
  deriving DecidableEq, Repr, Inhabited

namespace Switch

def all : List Switch := [stats, noColor, help, version]

def long : Switch → String
  | stats => "stats"
  | noColor => "no-color"
  | help => "help"
  | version => "version"

def short? : Switch → Option Char
  | stats => some 's'
  | noColor => none
  | help => some 'h'
  | version => some 'V'

/-- An option as messages show it. -/
def usage (s : Switch) : String := Text.emphasized ("--" ++ s.long)

end Switch

/-- A mistake in the arguments. -/
inductive UsageError where
  | unexpected (argument : String)
  | missingValue (s : Setting)
  | invalidValue (s : Setting) (value reason : String)
  | repeatedSetting (s : Setting)
  | repeatedSwitch (s : Switch)
  | unneededValue (s : Switch) (value : String)
  deriving DecidableEq, Repr

namespace UsageError

/-- What a mistake is. The arguments and options in the message are emphasized, which also ends a
control sequence that an argument leaves open; the reason for which a value is invalid is not. -/
def message : UsageError → String
  | unexpected argument => "unexpected argument '" ++ Text.emphasized argument ++ "' found"
  | missingValue s => "a value is required for '" ++ s.usage ++ "' but none was supplied"
  | invalidValue s value reason =>
    "invalid value '" ++ Text.emphasized value ++ "' for '" ++ s.usage ++ "': " ++ reason
  | repeatedSetting s => "the argument '" ++ s.usage ++ "' cannot be used multiple times"
  | repeatedSwitch s => "the argument '" ++ s.usage ++ "' cannot be used multiple times"
  | unneededValue s value =>
    "unexpected value '" ++ Text.emphasized value ++ "' for '" ++ s.usage ++
      "' found; no more were expected"

/-- Whether a mistake is only about a value, and not about which arguments there are. -/
def isAboutValue : UsageError → Bool
  | missingValue _ | invalidValue .. => true
  | unexpected _ | repeatedSetting _ | repeatedSwitch _ | unneededValue .. => false

end UsageError

/-- What ends the reading of arguments early. -/
inductive Stop where
  | usage (e : UsageError)
  /-- Help is asked for, at length or not. -/
  | help (atLength : Bool)
  | version
  deriving DecidableEq, Repr

/-- What the arguments ask for; options that were not given are `none`. -/
structure Arguments where
  backend : Option BackendKind := none
  count : Option Nat := none
  blockCapacity : Option Nat := none
  repeatCount : Option Nat := none
  stats : Bool := false
  noColor : Bool := false
  workload : Option String := none
  deriving DecidableEq, Repr, Inhabited

namespace Arguments

def has (a : Arguments) : Setting → Bool
  | .backend => a.backend.isSome
  | .count => a.count.isSome
  | .blockCapacity => a.blockCapacity.isSome
  | .repeatCount => a.repeatCount.isSome

/-- Sets an option to a value. -/
def set (a : Arguments) (s : Setting) (value : String) : Except Stop Arguments :=
  let invalid (reason : String) := Stop.usage (.invalidValue s value reason)
  let word := (Text.readWord value.toList).mapError fun e => invalid e.message
  match s with
  | .backend => do
    let kind ← (BackendKind.parse value).mapError fun e => invalid e.message
    return { a with backend := some kind }
  | .count => return { a with count := some (← word) }
  | .blockCapacity => return { a with blockCapacity := some (← word) }
  | .repeatCount => return { a with repeatCount := some (← word) }

/-- Sets an option to a value, unless it was set before. -/
def setOnce (a : Arguments) (s : Setting) (value : String) : Except Stop Arguments :=
  if a.has s then .error (.usage (.repeatedSetting s)) else a.set s value

/-- Turns a switch on. -/
def switch (a : Arguments) (s : Switch) (isLong : Bool) : Except Stop Arguments :=
  match s with
  | .stats => if a.stats then .error (.usage (.repeatedSwitch s)) else .ok { a with stats := true }
  | .noColor =>
    if a.noColor then .error (.usage (.repeatedSwitch s)) else .ok { a with noColor := true }
  | .help => .error (.help isLong)
  | .version => .error .version

end Arguments

/-- How far the reading of arguments has come. -/
structure Reading where
  arguments : Arguments := {}
  /-- An option that was begun, with its value if that has been read. -/
  begun : Option (Setting × Option String) := none
  /-- Whether every further argument is a workload. -/
  onlyWorkload : Bool := false
  deriving DecidableEq, Repr, Inhabited

namespace Reading

/-- Checks the option that was begun. -/
def settle (r : Reading) : Except Stop Reading :=
  match r.begun with
  | none => .ok r
  | some (s, none) => .error (.usage (.missingValue s))
  | some (s, some value) => do
    return { r with arguments := ← r.arguments.setOnce s value, begun := none }

/-- Begins an option whose value is the next argument. -/
def expect (r : Reading) (s : Setting) : Except Stop Reading := do
  return { ← r.settle with begun := some (s, none) }

/-- Reads an option with its value. -/
def attach (r : Reading) (s : Setting) (value : String) : Except Stop Reading := do
  let r ← r.settle
  return { r with arguments := ← r.arguments.setOnce s value }

def switch (r : Reading) (s : Switch) (isLong : Bool) : Except Stop Reading := do
  let r ← r.settle
  return { r with arguments := ← r.arguments.switch s isLong }

/-- Reads the workload. -/
def workload (r : Reading) (name : String) : Except Stop Reading :=
  if r.arguments.workload.isSome then
    .error (.usage (.unexpected name))
  else do
    let r ← r.settle
    return { r with arguments.workload := some name }

/-- Reads a long option, without its two dashes. -/
def long (r : Reading) (text : List Char) : Except Stop Reading :=
  let name := String.ofList (text.takeWhile (· != '='))
  let value? := match text.dropWhile (· != '=') with
    | [] => none
    | _ :: value => some (String.ofList value)
  match Setting.all.find? (·.long == name), Switch.all.find? (·.long == name), value? with
  | some s, _, some value => r.attach s value
  | some s, _, none => r.expect s
  | none, some s, some value => .error (.usage (.unneededValue s value))
  | none, some s, none => r.switch s true
  | none, none, _ => .error (.usage (.unexpected ("--" ++ name)))

/-- Reads short options, without their dash; the rest after one with a value is its value. -/
def short (r : Reading) : List Char → Except Stop Reading
  | [] => .ok r
  | c :: rest =>
    match Setting.all.find? (·.short? == some c), Switch.all.find? (·.short? == some c) with
    | some s, _ =>
      match rest with
      | [] => r.expect s
      | '=' :: value => r.attach s (String.ofList value)
      | value => r.attach s (String.ofList value)
    | none, some s => do
      (← r.switch s false).short rest
    | none, none => .error (.usage (.unexpected (String.ofList ['-', c])))

/-- Reads an argument. -/
def next (r : Reading) (argument : String) : Except Stop Reading :=
  if r.onlyWorkload then
    r.workload argument
  else
    match argument.toList with
    | ['-', '-'] => .ok { r with onlyWorkload := true }
    | '-' :: '-' :: text => r.long text
    | '-' :: c :: text => r.short (c :: text)
    | _ =>
      match r.begun with
      | some (s, none) => .ok { r with begun := some (s, some argument) }
      | _ => r.workload argument

end Reading

/-- Reads all arguments. The backend comes from the environment if no option sets it. -/
def Arguments.read (arguments : List String) (backend? : Option String) :
    Except Stop Arguments := do
  let r ← arguments.foldlM Reading.next {}
  let a := (← r.settle).arguments
  match backend? with
  | some value => if a.has .backend then return a else a.set .backend value
  | none => return a

end ChurchStore.CommandLine
