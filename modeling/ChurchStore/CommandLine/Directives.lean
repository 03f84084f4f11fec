import ChurchStore.Log.Filter

/-!
# Log directives

How the environment says what is logged. This belongs to the outer layer of the program, which
leaves it to a logging library: the rules are what can be observed of that library, and nothing
that is proved rests on them.
-/

namespace ChurchStore.Log

namespace Directive

/-- Reads a level or the word for none at all. -/
def readLevel? (s : String) : Option (Option Level) :=
  if String.ofList (s.toList.map Char.toUpper) == "OFF" then some none
  else (Level.ofString? s).map some

/-- Reads a directive: a level, a target, or a target, an equals sign and a level. The error is the
part that cannot be read. -/
def read (s : String) : Except String Directive :=
  match s.splitOn "=" with
  | [word] =>
    match readLevel? word with
    | some level => .ok ⟨none, level⟩
    | none => .ok ⟨some word, some .trace⟩
  | [target, ""] => .ok ⟨some target, some .trace⟩
  | [target, level] =>
    let word := String.ofList (Text.trimBlank level.toList)
    match readLevel? word with
    | some level => .ok ⟨some target, level⟩
    | none => .error word
  | _ => .error s

end Directive

namespace Filter

/-- Lists a directive in the place of an earlier one for the same targets, or else at the end. -/
def insert (f : Filter) (d : Directive) : Filter :=
  if f.directives.any (·.target == d.target) then
    ⟨f.directives.map fun e => if e.target == d.target then d else e⟩
  else
    ⟨f.directives ++ [d]⟩

/-- Reads what stands between commas; a slash and what follows it are ignored. -/
def readAll (s : String) : List (Except String Directive) :=
  let listed := String.ofList (s.toList.takeWhile (· != '/'))
  let words := (listed.splitOn ",").map fun w => String.ofList (Text.trimBlank w.toList)
  (words.filter (· != "")).map Directive.read

/-- The filter of the directives between commas that can be read. If there are none, errors alone
are kept. -/
def parse (s : String) : Filter :=
  let filter := ((readAll s).filterMap (·.toOption)).foldl insert off
  if filter.directives.isEmpty then upTo .error else filter

/-- What stands between commas and cannot be read as a directive. -/
def unreadable (s : String) : List String :=
  (readAll s).filterMap fun
    | .ok _ => none
    | .error part => some part

end Filter

end ChurchStore.Log
