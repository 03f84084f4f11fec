import ChurchStore.Text.Word

/-!
# Durations

Two written forms of a number of nanoseconds: a line of seconds, microseconds and nanoseconds from
which the number can be read back, and a short form in the largest fitting unit.
-/

namespace ChurchStore.Text

def nanosPerSecond : Nat := 1000000000

/-- Whole seconds, then six digits of microseconds and three of nanoseconds
(`format_nano_time`). -/
def nanoTime (ns : Nat) : String :=
  let rest := ns % nanosPerSecond
  "nano_time = " ++ toString (ns / nanosPerSecond) ++ " sec " ++ zeroPadded 6 (rest / 1000) ++
    " " ++ zeroPadded 3 (rest % 1000) ++ " msec"

/-- The digits after a decimal point for `part` out of `10 ^ width`, without zeros at the end. -/
def fraction (width part : Nat) : String :=
  let digits := ((Nat.toDigits 10 part).leftpad width '0').reverse.dropWhile (· == '0')
  if digits.isEmpty then "" else "." ++ String.ofList digits.reverse

/-- A duration in the largest of the units s, ms, µs and ns of which it has at least one. -/
def shortDuration (ns : Nat) : String :=
  if ns ≥ nanosPerSecond then
    toString (ns / nanosPerSecond) ++ fraction 9 (ns % nanosPerSecond) ++ "s"
  else if ns ≥ 1000000 then
    toString (ns / 1000000) ++ fraction 6 (ns % 1000000) ++ "ms"
  else if ns ≥ 1000 then
    toString (ns / 1000) ++ fraction 3 (ns % 1000) ++ "µs"
  else
    toString ns ++ "ns"

end ChurchStore.Text
