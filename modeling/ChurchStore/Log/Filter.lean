import ChurchStore.Log.Event

/-!
# Log filters

Which events are kept in a log. A filter is a list of directives, each of which sets the most
verbose level for the targets whose names begin with a given text. The directive with the longest
such text decides, and the last one listed if two of them tie; an event that no directive covers is
dropped.
-/

namespace ChurchStore.Log

/-- Sets the most verbose level, if any, of the targets that begin with a text. -/
structure Directive where
  /-- The beginning of the targets' names; `none` covers every target. -/
  target : Option String
  /-- The most verbose level that is kept; `none` keeps nothing. -/
  level : Option Level
  deriving DecidableEq, Repr

namespace Directive

def covers (d : Directive) (name : String) : Bool :=
  match d.target with
  | some start => start.toList.isPrefixOf name.toList
  | none => true

/-- The length of the text by which a directive selects targets. -/
def specificity (d : Directive) : Nat := (d.target.map (·.utf8ByteSize)).getD 0

def keeps (d : Directive) (level : Level) : Bool :=
  match d.level with
  | some most => level.verbosity ≤ most.verbosity
  | none => false

end Directive

/-- The directives of a log, at most one for each beginning of a target's name. The directive for
all targets and one for the targets that begin with the empty text are different ones. -/
structure Filter where
  directives : List Directive
  deriving DecidableEq, Repr, Inhabited

namespace Filter

/-- Keeps no event. -/
def off : Filter := ⟨[]⟩

/-- Keeps the events of every target up to a level. -/
def upTo (level : Level) : Filter := ⟨[⟨none, some level⟩]⟩

/-- Keeps every event. -/
def all : Filter := upTo .trace

/-- The more specific of two directives that cover a target, the one listed later if they tie. -/
private def moreSpecific (best : Option Directive) (d : Directive) : Option Directive :=
  match best with
  | some b => if b.specificity ≤ d.specificity then some d else some b
  | none => some d

/-- Whether an event of this target and level is kept. -/
def admits (f : Filter) (target : String) (level : Level) : Bool :=
  match (f.directives.filter (·.covers target)).foldl moreSpecific none with
  | some d => d.keeps level
  | none => false

@[simp]
theorem admits_all (target : String) (level : Level) : all.admits target level = true := by
  cases level <;> rfl

end Filter

end ChurchStore.Log
