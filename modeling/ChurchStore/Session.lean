import ChurchStore.Demo
import ChurchStore.Host
import Std.Data.TreeMap

/-!
# Sessions

A scripted run over several evaluators of one store. Handles are kept in named variables, one
handle each. Every command names the evaluator it is for; handles may be passed to any of them.
A command that is refused changes nothing. One that stops with a fault leaves its variables alone,
and what it had changed in the store stays changed.
-/

namespace ChurchStore

namespace Session

/-- The name of a variable. -/
abbrev Name := String

/-- One command of a session. A variable that receives a new handle is called `dest`. -/
inductive Command where
  /-- Opens an evaluator. -/
  | new (limits : Limits)
  | builtin (b : Builtin) (dest : Name)
  | int (value : Int64) (dest : Name)
  | apply (f x dest : Name)
  | successor (n dest : Name)
  | numeral (k : Nat) (dest : Name)
  | plus (a b dest : Name)
  | mul (a b dest : Name)
  /-- Stores a closure that captures the handles of variables. -/
  | alloc (c : Closure Name) (dest : Name)
  | clone (a dest : Name)
  /-- Stores the entries of a table of numerals, each in the variable with its number. -/
  | numerals (count : Nat) (dest : Name)
  /-- Obtains a closure with its captures, which are kept in variables where these are given. -/
  | resolve (a : Name) (toN toS : Option Name)
  | toInt (a : Name)
  | kind (a : Name)
  | fold (n : Name)
  | same (a b : Name)
  | pow (base exponent : Name)
  | describe (a : Name)
  /-- Removes a variable. -/
  | drop (a : Name)
  | stats
  | extent
  | ledger
  | reset
  /-- Ends the evaluator; variables survive it. -/
  | close
  | demo (options : DemoOptions) (palette : Report.Palette) (limit : Option Nat)
  deriving Repr, Inhabited

/-- What a command answers. -/
inductive Answer where
  | nothing
  | count (n : Nat)
  | place (p : Placement)
  /-- A closure with the places of its captures. -/
  | closure (c : Closure Placement)
  | integer (value : Int64)
  | kind (k : Kind)
  | truth (b : Bool)
  | stats (s : AllocStats)
  | extent (x : Extent)
  /-- The text that a demo wrote, and the error that stopped it if there was one. -/
  | printed (error : Option Report.WriteError) (text : String)

/-- Why a command has no answer. -/
inductive Refusal where
  /-- It names something that does not exist, or the store cannot do it. -/
  | unknown
  | fault (f : Fault)
  deriving DecidableEq, Repr

/-- An evaluator of a session, which may have been ended. -/
structure Seat (H : Type) where
  evaluator : Evaluator H
  isOpen : Bool := true

end Session

/-- The state of a session. -/
structure Session (W H : Type) where
  machine : Machine W
  seats : Array (Session.Seat H) := #[]
  bindings : Std.TreeMap Session.Name H := {}

namespace Session

/-- A part of a session's command. -/
abbrev Play (W H : Type) := EStateM Refusal (Session W H)

variable {W H α : Type} [Host W H]

/-- A session without evaluators, which logs what the filter keeps. -/
def start (filter : Log.Filter) : Session W H where
  machine := { store := Host.initial, journal := { filter } }

/-- Runs an operation on the machine. -/
def act (op : Act W α) : Play W H α := fun ⟨machine, seats, bindings⟩ =>
  match op machine with
  | .ok a machine => .ok a ⟨machine, seats, bindings⟩
  | .error f machine => .error (.fault f) ⟨machine, seats, bindings⟩

/-- The evaluator with the given number, unless it was ended. -/
def evaluator (number : Nat) : Play W H (Evaluator H) := do
  match (← get).seats[number]? with
  | some ⟨e, true⟩ => return e
  | _ => throw .unknown

/-- The handle in a variable. -/
def handle (name : Name) : Play W H H := do
  match (← get).bindings[name]? with
  | some h => return h
  | none => throw .unknown

/-- The session after a handle was given back. -/
def giveBack (h : H) : Session W H → Session W H
  | ⟨⟨w, journal⟩, seats, bindings⟩ => ⟨⟨Backend.release h w, journal⟩, seats, bindings⟩

/-- Gives a handle back after a part of a command, whether that answered or stopped. -/
def holding (h : H) (op : Play W H α) : Play W H α := fun s =>
  match op s with
  | .ok a s => .ok a (giveBack h s)
  | .error e s => .error e (giveBack h s)

/-- Gives a handle back after a part of a command that stopped. -/
def onRefusal (h : H) (op : Play W H α) : Play W H α := fun s =>
  match op s with
  | .ok a s => .ok a s
  | .error e s => .error e (giveBack h s)

/-- Puts a handle into a variable and then gives back the one that it held. -/
def assign (dest : Name) (h : H) : Play W H Unit := do
  let old := (← get).bindings[dest]?
  modify fun ⟨machine, seats, bindings⟩ => ⟨machine, seats, bindings.insert dest h⟩
  match old with
  | some old => modify (giveBack old)
  | none => return ()

/-- Puts a new handle into a variable and describes it. -/
def store (dest : Name) (h : H) : Play W H Answer := do
  assign dest h
  return .place (← act (Host.describe h))

/-- Keeps a second handle of a capture in a variable, if one is given, and describes the capture,
which is then given back. -/
def keep (dest : Option Name) (h : H) : Play W H Placement :=
  holding h do
    match dest with
    | some dest => assign dest (← act (Backend.clone h))
    | none => pure ()
    act (Host.describe h)

/-- Keeps and describes the captures of a closure, in their order. -/
def keepCaptures (toN toS : Option Name) : Closure H → Play W H (Closure Placement)
  | .zero => return .zero
  | .zeroInner => return .zeroInner
  | .succ => return .succ
  | .succPartial n => return .succPartial (← keep toN n)
  | .succInner n s => do
    let n ← onRefusal s (keep toN n)
    let s ← keep toS s
    return .succInner n s
  | .intLiteral value => return .intLiteral value
  | .inc => return .inc

/-- A closure over the handles of variables, each of which keeps its own handle. -/
def capture : Closure Name → Play W H (Closure H)
  | .zero => return .zero
  | .zeroInner => return .zeroInner
  | .succ => return .succ
  | .succPartial n => do
    let n ← handle n
    return .succPartial (← act (Backend.clone n))
  | .succInner n s => do
    let n ← handle n
    let s ← handle s
    let n ← act (Backend.clone n)
    return .succInner n (← act (Backend.clone s))
  | .intLiteral value => return .intLiteral value
  | .inc => return .inc

/-- Puts the entries of a table into numbered variables. -/
def assignAll (dest : Name) (table : List H) : Play W H Unit :=
  table.zipIdx.forM fun (h, i) => assign (dest ++ toString i) h

/-- Runs a demo, in which no time passes, and answers what it wrote. -/
def playDemo (e : Evaluator H) (options : DemoOptions) (palette : Report.Palette)
    (limit : Option Nat) : Play W H Answer := fun ⟨machine, seats, bindings⟩ =>
  match Demo.run e options (fun _ => 0) ⟨machine, { palette, sink := { limit } }⟩ with
  | .ok () ⟨machine, reporter⟩ =>
    .ok (.printed none reporter.sink.text) ⟨machine, seats, bindings⟩
  | .error (.write error) ⟨machine, reporter⟩ =>
    .ok (.printed (some error) reporter.sink.text) ⟨machine, seats, bindings⟩
  | .error (.fault f) ⟨machine, _⟩ => .error (.fault f) ⟨machine, seats, bindings⟩

/-- Replaces the evaluator with the given number. -/
def seat (number : Nat) (s : Seat H) : Play W H Unit :=
  modify fun ⟨machine, seats, bindings⟩ => ⟨machine, seats.setIfInBounds number s, bindings⟩

/-- Carries out a command for the evaluator with the given number. -/
def perform (number : Nat) : Command → Play W H Answer
  | .new limits => do
    let e ← act (Host.openWith limits)
    let count := (← get).seats.size
    modify fun ⟨machine, seats, bindings⟩ => ⟨machine, seats.push ⟨e, true⟩, bindings⟩
    return .count count
  | .builtin b dest => do
    let e ← evaluator number
    store dest (← act (e.builtin b))
  | .int value dest => do
    let e ← evaluator number
    store dest (← act (e.int value))
  | .apply f x dest => do
    let e ← evaluator number
    let f ← handle f
    let x ← handle x
    store dest (← act (e.apply f x))
  | .successor n dest => do
    let e ← evaluator number
    let n ← handle n
    store dest (← act (e.successor n))
  | .numeral k dest => do
    let e ← evaluator number
    store dest (← act (e.numeral k))
  | .plus a b dest => do
    let e ← evaluator number
    let a ← handle a
    let b ← handle b
    store dest (← act (e.plus a b))
  | .mul a b dest => do
    let e ← evaluator number
    let a ← handle a
    let b ← handle b
    store dest (← act (e.mul a b))
  | .alloc c dest => do
    let e ← evaluator number
    let c ← capture c
    store dest (← act (Backend.alloc e.site c))
  | .clone a dest => do
    let a ← handle a
    store dest (← act (Backend.clone a))
  | .numerals count dest => do
    let e ← evaluator number
    let table ← act (e.numerals count)
    assignAll dest table.toList
    return .count table.size
  | .resolve a toN toS => do
    let e ← evaluator number
    let a ← handle a
    let c ← act (Backend.resolve e.site a)
    return .closure (← keepCaptures toN toS c)
  | .toInt a => do
    let e ← evaluator number
    let a ← handle a
    return .integer (← act (e.toInt a))
  | .kind a => do
    let e ← evaluator number
    let a ← handle a
    return .kind (← act (e.kind a))
  | .fold n => do
    let e ← evaluator number
    let n ← handle n
    return .integer (← act (e.fold n))
  | .same a b => do
    let _ ← evaluator number
    let a ← handle a
    let b ← handle b
    return .truth (Backend.same W a b)
  | .pow base exponent => do
    let e ← evaluator number
    let base ← handle base
    let exponent ← handle exponent
    return .integer (← act (e.pow base exponent))
  | .describe a => do
    let a ← handle a
    return .place (← act (Host.describe a))
  | .drop a => do
    let h ← handle a
    modify fun ⟨machine, seats, bindings⟩ => ⟨machine, seats, bindings.erase a⟩
    modify (giveBack h)
    return .nothing
  | .stats => do
    let e ← evaluator number
    return .stats (← act (.read (Backend.stats e.site)))
  | .extent => do
    let e ← evaluator number
    return .extent (← act (.read (Host.extent e.site)))
  | .ledger => do
    match (← get).seats[number]? with
    | none => throw .unknown
    | some s =>
      match ← act (.read (Host.ledger? s.evaluator.site)) with
      | some l => return .stats l.snapshot
      | none => throw .unknown
  | .reset => do
    let e ← evaluator number
    match (Host.reset? : Option (Evaluator H → Act W (Evaluator H))) with
    | none => throw .unknown
    | some reset =>
      let e ← act (reset e)
      seat number ⟨e, true⟩
      return .extent (← act (.read (Host.extent e.site)))
  | .close => do
    let e ← evaluator number
    act e.close
    seat number ⟨e, false⟩
    return .nothing
  | .demo options palette limit => do
    let e ← evaluator number
    playDemo e options palette limit

/-- What a command did: its answer, the counters of its evaluator afterwards unless that was ended,
and the events that it logged. -/
structure Outcome where
  answer : Except Refusal Answer
  stats : Option AllocStats
  events : List Log.Event

/-- The counters of the evaluator with the given number, unless it was ended. -/
def statsOf (s : Session W H) (number : Nat) : Option AllocStats :=
  match s.seats[number]? with
  | some ⟨e, true⟩ => some (Backend.stats e.site s.machine.store)
  | _ => none

/-- Carries out a command, or none if it cannot be understood. -/
def step (s : Session W H) (number : Nat) (command : Option Command) : Outcome × Session W H :=
  let result := (command.elim (throw .unknown) (perform number)) s
  let (answer, s) := match result with
    | .ok a s => (Except.ok a, s)
    | .error e s => (Except.error e, s)
  let outcome := { answer, stats := s.statsOf number, events := s.machine.journal.events.toList }
  (outcome, { s with machine.journal.events := #[] })

/-- Ends all evaluators in order and then gives back all variables by their names, and returns the
counters that outlive each evaluator. -/
def finish (s : Session W H) : List (Option Ledger) :=
  let seats := s.seats.toList
  let handles := (seats.filter (·.isOpen)).flatMap fun seat =>
    Builtin.all.map seat.evaluator.singletons.get
  let w := Backend.releaseAll (handles ++ s.bindings.values) s.machine.store
  seats.map fun seat => Host.ledger? seat.evaluator.site w

end Session

end ChurchStore
