import ChurchStore.Numeral
import ChurchStore.Report.Reporter

/-!
# Demo

The workloads that are run for show. The folding demo counts up the table of numerals and then
evaluates a few powers, sums and products. The self power raises one numeral to itself, as often
as asked, and reports the time of each attempt. Each result is written as soon as it is known; if
it cannot be written the demo stops, and gives all its handles back.
-/

namespace ChurchStore

/-- What a demo runs and reports (`DemoOptions`). -/
structure DemoOptions where
  workload : Workload := .fold
  numeralCount : Nat := 10
  repeatCount : Nat := 1
  /-- Whether the allocation counters are reported at the end. -/
  stats : Bool := false
  deriving DecidableEq, Repr, Inhabited

/-- Why a demo stops early. -/
inductive Halt where
  | fault (f : Fault)
  | write (e : Report.WriteError)
  deriving DecidableEq, Repr

/-- The machine on which a demo runs, and where it reports. -/
structure Stage (W : Type) where
  machine : Machine W
  reporter : Report.Reporter := {}

/-- A part of a demo. -/
abbrev Scene (W : Type) := EStateM Halt (Stage W)

namespace Scene

variable {W H α : Type}

/-- Runs an operation on the machine. -/
@[inline]
def act (op : Act W α) : Scene W α := fun ⟨machine, reporter⟩ =>
  match op machine with
  | .ok a machine => .ok a ⟨machine, reporter⟩
  | .error f machine => .error (.fault f) ⟨machine, reporter⟩

/-- Writes to the reporter. -/
@[inline]
def print (op : Report.Print α) : Scene W α := fun ⟨machine, reporter⟩ =>
  match op reporter with
  | .ok a reporter => .ok a ⟨machine, reporter⟩
  | .error e reporter => .error (.write e) ⟨machine, reporter⟩

/-- Changes the store after the scene, whether it finished or stopped. -/
@[inline]
def ensuring (finish : W → W) (scene : Scene W α) : Scene W α := fun stage =>
  match scene stage with
  | .ok a ⟨⟨store, journal⟩, reporter⟩ => .ok a ⟨⟨finish store, journal⟩, reporter⟩
  | .error e ⟨⟨store, journal⟩, reporter⟩ => .error e ⟨⟨finish store, journal⟩, reporter⟩

/-- Plays a scene and then gives a handle back, whether the scene finished or stopped. -/
@[inline]
def holding [Backend W H] (h : H) (scene : Scene W α) : Scene W α :=
  scene.ensuring (Backend.release h)

end Scene

namespace Demo

open Scene

variable {W H : Type} [Backend W H]

/-- An operand: the table's entry, or a numeral of its own if the table is too short. -/
def operand (e : Evaluator H) (table : Array H) (k : Nat) : Scene W H :=
  act <|
    match table[k]? with
    | some h => Backend.clone h
    | none => e.numeral k

/-- Evaluates an operation on two operands and writes its result. -/
def binary (e : Evaluator H) (table : Array H) (label : String) (a b : Nat)
    (op : H → H → Act W Int64) : Scene W Unit := do
  let x ← operand e table a
  holding x do
    let y ← operand e table b
    holding y do
      let value ← act (op x y)
      print (.result label (toString value.toInt))

/-- The powers, sums and products. A sum's or product's handle is given back after its result is
written. -/
def arithmetic (e : Evaluator H) (table : Array H) : Scene W Unit := do
  binary e table "N2^N3" 2 3 e.pow
  binary e table "N3^N2" 3 2 e.pow
  binary e table "N5^N2" 5 2 e.pow
  binary e table "N2^N5" 2 5 e.pow
  combined "N9+N5" e.plus
  combined "N9*N5" e.mul
where
  combined (label : String) (op : H → H → Act W H) : Scene W Unit := do
    let x ← operand e table 9
    holding x do
      let y ← operand e table 5
      holding y do
        let combination ← act (op x y)
        holding combination do
          let value ← act (e.fold combination)
          print (.result label (toString value.toInt))

/-- The folding demo (`fold_demo`). -/
def folds (e : Evaluator H) (count : Nat) : Scene W Unit := do
  let table ← act (e.numerals count)
  ensuring (fun w => Backend.releaseAll table.toList w) do
    act (.emit (.tableBuilt table.size))
    table.toList.zipIdx.forM fun (n, i) => do
      let value ← act (e.fold n)
      print (.result s!"(num#{i} inc 0)" (toString value.toInt))
    arithmetic e table

/-- The label of an attempt, with its number if there are several. -/
def attemptLabel (k repeatCount attempt : Nat) : String :=
  let label := s!"N{k}^N{k}"
  if repeatCount > 1 then s!"Attempt #{attempt} " ++ label else label

/-- Reports an attempt that took the given number of nanoseconds. -/
def reportAttempt (e : Evaluator H) (k repeatCount attempt : Nat) (value : Int64) (elapsed : Nat) :
    Scene W Unit := do
  let live ← act (.read fun w => (Backend.stats e.site w).live)
  act (.emit (.attemptFinished attempt elapsed live))
  print (.result (attemptLabel k repeatCount attempt) (toString value.toInt))
  print (.timing elapsed)

/-- Runs `remaining` attempts, the first of which has the given number. -/
def attempts (e : Evaluator H) (clock : Nat → Nat) (k repeatCount : Nat) (n : H) :
    (remaining attempt : Nat) → Scene W Unit
  | 0, _ => return ()
  | remaining + 1, attempt => do
    let value ← act (e.pow n n)
    reportAttempt e k repeatCount attempt value (clock attempt)
    attempts e clock k repeatCount n remaining (attempt + 1)

/-- The timed self power of a numeral (`self_power_demo`). -/
def selfPower (e : Evaluator H) (clock : Nat → Nat) (k repeatCount : Nat) : Scene W Unit := do
  let n ← act (e.numeral k)
  holding n (attempts e clock k repeatCount n repeatCount 0)

/-- Writes the heading. -/
def opening : Scene W Unit :=
  print (.heading ("Lambda Calc Demo (backend: " ++ (Backend.kind W).name ++ ")"))

/-- Writes the allocation counters if they are asked for. -/
def closing (e : Evaluator H) (options : DemoOptions) : Scene W Unit := do
  if options.stats then
    let stats ← act (.read (Backend.stats e.site))
    print (.stats stats)
  print .flush

/-- Runs a demo, in which each attempt takes as many nanoseconds as the clock has for it (`run`). -/
def run (e : Evaluator H) (options : DemoOptions) (clock : Nat → Nat) : Scene W Unit := do
  opening
  match options.workload with
  | .fold => folds e options.numeralCount
  | .selfPower k => selfPower e clock k options.repeatCount
  closing e options

end Demo

end ChurchStore
