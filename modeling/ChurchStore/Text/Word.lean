/-!
# Machine words in decimal

Reading unsigned 64-bit words and writing numbers in columns of fixed width.
-/

namespace ChurchStore.Text

/-- The number of machine words, two to the power 64; words are the numbers below it. -/
def wordBound : Nat := 0x10000000000000000

/-- Why a text is not a machine word. -/
inductive WordError where
  | empty
  | invalidDigit
  | tooLarge
  deriving DecidableEq, Repr

def WordError.message : WordError → String
  | .empty => "cannot parse integer from empty string"
  | .invalidDigit => "invalid digit found in string"
  | .tooLarge => "number too large to fit in target type"

/-- Reads decimal digits after a number `acc`; each digit is checked before the size. -/
def readDigits (acc : Nat) : List Char → Except WordError Nat
  | [] => .ok acc
  | c :: cs =>
    if c.isDigit then
      let next := acc * 10 + (c.toNat - '0'.toNat)
      if next < wordBound then readDigits next cs else .error .tooLarge
    else
      .error .invalidDigit

/-- Reads a machine word: decimal digits, after at most one plus sign. -/
def readWord : List Char → Except WordError Nat
  | [] => .error .empty
  | '+' :: c :: cs => readDigits 0 (c :: cs)
  | cs => readDigits 0 cs

/-- A number in decimal, with zeros before it up to the given width. -/
def zeroPadded (width n : Nat) : String := String.ofList ((Nat.toDigits 10 n).leftpad width '0')

/-- A text with blanks after it up to the given width. -/
def blankPadded (width : Nat) (s : String) : String :=
  String.ofList (s.toList.rightpad width ' ')

end ChurchStore.Text
