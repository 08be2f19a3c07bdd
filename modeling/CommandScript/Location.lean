/-!
# Locations in a source text

A location names one offset of a text by line and column and keeps the line it
stands in, so that a message can show the line with a caret under the place.
Only a line feed ends a line.  Offsets and columns count characters.
-/

namespace CommandScript

/-- A place in a source text.  Lines and columns count from one. -/
structure Location where
  position : Int
  line : Int
  column : Int
  lineText : String := ""
  deriving DecidableEq, Repr

namespace Location

def trimReturns (line : List Char) : List Char :=
  (line.reverse.dropWhile (· == '\r')).reverse

def lastLine (text : List Char) : List Char :=
  (text.reverse.takeWhile (· != '\n')).reverse

/-- The offset itself where it lies in the text, the nearer end otherwise. -/
def clamp (text : List Char) (position : Int) : Nat :=
  min position.toNat text.length

/-- The location of an offset of `text`; an offset outside is moved to the
nearer end. -/
def ofOffset (text : List Char) (position : Int) : Location :=
  let offset := clamp text position
  let before := text.take offset
  let after := text.drop offset
  let start := lastLine before
  { position := offset
    line := before.count '\n' + 1
    column := start.length + 1
    lineText :=
      String.ofList (trimReturns (start ++ after.takeWhile (· != '\n'))) }

/-- The line and column, then, unless it is empty, the source line with a caret
under the column. -/
def render (location : Location) : String :=
  let place :=
    "  at line " ++ toString location.line ++ ", column " ++
      toString location.column
  if location.lineText = "" then place
  else
    let indent := String.ofList (List.replicate (location.column - 1).toNat ' ')
    place ++ "\n  source: " ++ location.lineText ++ "\n          " ++ indent ++
      "^"

end Location

end CommandScript
