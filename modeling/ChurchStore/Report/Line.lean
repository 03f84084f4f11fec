import ChurchStore.Ledger
import ChurchStore.Text.Duration

/-!
# Report lines

The lines that a report is made of, as pieces of text with a style for some of them. A palette
says how a style is shown on a terminal; the plain palette shows none. What a line says does not
depend on the palette.
-/

namespace ChurchStore.Report

/-- What a styled piece of text is. -/
inductive Style where
  | heading
  | label
  | value
  | timing
  deriving DecidableEq, Repr, Inhabited

/-- How styles are shown. -/
inductive Palette where
  /-- Not at all. -/
  | plain
  | colored
  /-- Every colour is the terminal's own; bold text stays bold. -/
  | monochrome
  deriving DecidableEq, Repr, Inhabited

namespace Palette

/-- The control sequence with the given parameters. -/
def sequence (parameters : String) : String := "\x1b[" ++ parameters ++ "m"

/-- Selects a colour for the text that follows. -/
def color (p : Palette) (number : Nat) : String :=
  match p with
  | plain => ""
  | colored => sequence ("38;5;" ++ toString number)
  | monochrome => sequence ""

/-- Ends a colour. -/
def endColor (p : Palette) : String :=
  match p with
  | plain => ""
  | colored => sequence "39"
  | monochrome => sequence ""

/-- Selects bold text. -/
def bold (p : Palette) : String :=
  match p with
  | plain => ""
  | colored | monochrome => sequence "1"

/-- Ends all styles. -/
def endAll (p : Palette) : String :=
  match p with
  | plain => ""
  | colored | monochrome => sequence "0"

/-- A text between the sequences of a style. -/
def styled (p : Palette) (style : Style) (text : String) : String :=
  match style with
  | .heading => p.bold ++ text ++ p.endAll
  | .label => p.color 14 ++ text ++ p.endColor
  | .value => p.color 10 ++ p.bold ++ text ++ p.endAll
  | .timing => p.color 8 ++ text ++ p.endColor

end Palette

/-- A piece of a line. -/
structure Piece where
  text : String
  style : Option Style := none
  deriving DecidableEq, Repr, Inhabited

def Piece.render (palette : Palette) (piece : Piece) : String :=
  match piece.style with
  | some style => palette.styled style piece.text
  | none => piece.text

/-- A line, without the line feed at its end. -/
abbrev Line := List Piece

namespace Line

/-- A line as it is written, with the line feed. -/
def render (palette : Palette) (line : Line) : String :=
  String.join (line.map (Piece.render palette)) ++ "\n"

def heading (text : String) : Line := [⟨text, some .heading⟩]

def result (label value : String) : Line :=
  [⟨label, some .label⟩, ⟨" = ", none⟩, ⟨value, some .value⟩]

def timing (ns : Nat) : Line := [⟨Text.nanoTime ns, some .timing⟩]

/-- A line without styles. -/
def plain (text : String) : Line := [⟨text, none⟩]

/-- The table of allocation counters: a row for each kind, the total, and what is in use of an
arena's blocks or a pool's slots. -/
def stats (s : AllocStats) : List Line :=
  let row (k : Kind) :=
    plain (Text.blankPadded 8 k.name ++ s!" alloc={(s.kind k).alloc}, free={(s.kind k).free}")
  let total := plain s!"total    alloc={s.allocated}, free={s.freed}, live={s.live}"
  let arena := plain s!"arena    blocks={s.blocks}, bytes={s.bytes}"
  let pool := plain s!"pool     slots={s.slots}, reused={s.reused}"
  heading "MEMORY USAGE:" :: Kind.all.map row ++ [total] ++
    (if s.blocks > 0 then [arena] else []) ++ (if s.slots > 0 then [pool] else [])

end Line

end ChurchStore.Report
