import ChurchStore.Report.Line

/-!
# Reporters

Writing report lines to a sink that may run full. A sink takes bytes up to its limit and refuses
the rest, so it always holds a beginning of what was to be written. A report with several lines
stops at the first line that does not fit.
-/

namespace ChurchStore.Report

/-- Takes written bytes, up to a limit if it has one. -/
structure Sink where
  limit : Option Nat := none
  written : ByteArray := .empty
  deriving Inhabited

namespace Sink

/-- The bytes that still fit, at most `size`. -/
def room (s : Sink) (size : Nat) : Nat :=
  match s.limit with
  | some limit => min size (limit - s.written.size)
  | none => size

/-- Writes as much of the bytes as fits; the answer is whether all of them did. -/
def write (s : Sink) (bytes : ByteArray) : Bool × Sink :=
  let taken := s.room bytes.size
  (taken == bytes.size, { s with written := s.written ++ bytes.extract 0 taken })

/-- The written text. A character of which only a part was written shows as one replacement
character. -/
def text (s : Sink) : String :=
  match String.fromUTF8? s.written with
  | some whole => whole
  | none =>
    let cut := [1, 2, 3].findSome? fun n =>
      String.fromUTF8? (s.written.extract 0 (s.written.size - n))
    cut.getD "" ++ "\ufffd"

end Sink

/-- Why a report could not be written. -/
inductive WriteError where
  | full
  deriving DecidableEq, Repr

def WriteError.message : WriteError → String
  | .full => "writer full"

/-- Where reports go and how styles are shown there (`Reporter`). -/
structure Reporter where
  palette : Palette := .plain
  sink : Sink := {}
  deriving Inhabited

/-- Writing to a reporter. What was written before an error stays written. -/
abbrev Print := EStateM WriteError Reporter

namespace Print

def line (l : Line) : Print Unit := fun r =>
  match r.sink.write (l.render r.palette).toUTF8 with
  | (true, sink) => .ok () { r with sink }
  | (false, sink) => .error .full { r with sink }

/-- Writes lines up to the first one that does not fit. -/
def lines (ls : List Line) : Print Unit := ls.forM line

/-- Writes a heading (`heading`). -/
def heading (text : String) : Print Unit := line (.heading text)

/-- Writes a label with its value (`result`). -/
def result (label value : String) : Print Unit := line (.result label value)

/-- Writes how long something took (`timing`). -/
def timing (ns : Nat) : Print Unit := line (.timing ns)

/-- Writes the table of allocation counters (`stats` of `Reporter`). -/
def stats (s : AllocStats) : Print Unit := lines (Line.stats s)

/-- Waits until everything is written, which a sink never refuses (`flush`). -/
def flush : Print Unit := return ()

end Print

end ChurchStore.Report
