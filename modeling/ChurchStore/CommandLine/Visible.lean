/-!
# Visible text

What a text shows once its control sequences and its control characters are left out. Of the
control characters white space alone remains. This belongs to the outer layer of the program: what
it prints about its arguments passes through a library that leaves control sequences out, the rules
are what can be observed of that library, and nothing that is proved rests on them.
-/

namespace ChurchStore.Text

/-- How far into a control sequence a text has come. -/
inductive Sequence where
  /-- Not in a sequence. -/
  | outside
  /-- Behind the escape character. -/
  | escape
  /-- Behind the escape character and intermediate characters. -/
  | intermediate
  /-- In a control sequence proper, behind its opening bracket. -/
  | control
  /-- At the start of a device control string. -/
  | device
  /-- In the parameters of a device control string. -/
  | deviceParameter
  /-- In the intermediate characters of a device control string. -/
  | deviceIntermediate
  /-- In a string that a terminator ends. -/
  | string
  /-- In a command to the operating system, which a bell ends. -/
  | command
  deriving DecidableEq, Repr, Inhabited

/-- The control characters that are white space. -/
def isBlankControl (c : Char) : Bool := c = '\t' || c = '\n' || c = '\x0c' || c = '\r'

/-- The control characters in ASCII. -/
def isControl (c : Char) : Bool := c.toNat < 0x20 || c.toNat = 0x7f

/-- Whether the byte that terminates strings stands in the encoding of a character. -/
def hasTerminator (c : Char) : Bool := (String.utf8EncodeChar c).contains 0x9c

namespace Sequence

/-- Reads a character of ASCII that is no control character. -/
def advance (s : Sequence) (c : Char) : Sequence :=
  match s with
  | outside => outside
  | escape =>
    if c < '0' then intermediate
    else
      match c with
      | '[' => control
      | ']' => command
      | 'P' => device
      | 'X' | '^' | '_' => string
      | _ => outside
  | intermediate => if c < '0' then intermediate else outside
  | control => if c < '@' then control else outside
  | device =>
    if c < '0' then deviceIntermediate else if c < '@' then deviceParameter else string
  | deviceParameter =>
    if c < '0' then deviceIntermediate else if c < '<' then deviceParameter else string
  | deviceIntermediate => if c < '0' then deviceIntermediate else string
  | string => string
  | command => command

/-- Reads a character. Two control characters cancel every sequence, and the escape character
begins a new one. -/
def next (s : Sequence) (c : Char) : Sequence :=
  if c = '\x1b' then escape
  else if c = '\x18' || c = '\x1a' then outside
  else if isControl c then if s = command && c = '\x07' then outside else s
  else if c.toNat < 0x80 then s.advance c
  else if s = string && hasTerminator c then outside
  else s

/-- Whether a character is shown. -/
def shows (s : Sequence) (c : Char) : Bool :=
  match s with
  | outside => isBlankControl c || !isControl c
  | escape | intermediate | control => isBlankControl c
  | _ => false

end Sequence

open Sequence in
/-- What a text shows that begins in a sequence. White space that is shown inside a sequence
interrupts it: the text behind it is shown up to the next hidden character, where the sequence goes
on. A character outside of ASCII ends an interrupted sequence. -/
def visibleFrom (s : Sequence) (shown : Bool) : List Char → List Char
  | [] => []
  | c :: cs =>
    if shown && outside.shows c then
      c :: visibleFrom (if c.toNat < 0x80 then s else outside) true cs
    else if s.shows c then
      c :: visibleFrom (s.next c) true cs
    else
      visibleFrom (s.next c) false cs

/-- What a text shows. -/
def visible (s : String) : String := String.ofList (visibleFrom .outside false s.toList)

/-- A text that a terminal sets off from the text around it. -/
def emphasized (s : String) : String := "\x1b[1m" ++ s ++ "\x1b[0m"

end ChurchStore.Text
