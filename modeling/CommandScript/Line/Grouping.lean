import CommandScript.Error
import CommandScript.Line.Basic

/-!
# Grouping tokens into lines

Tokens are taken one at a time.  Separators end the line under construction, an
open brace starts a level of its own inside the current one, and the matching
close brace turns that level into a block of the line that was left.  Lines
without items are dropped at every level.

The number of levels left open is bounded by a limit, which may be any integer.
-/

namespace CommandScript

/-- The finished lines of one level and the line under construction. -/
structure Level where
  lines : List Line := []
  current : Line := []
  deriving Repr

namespace Level

def add (level : Level) (item : Item) : Level :=
  { level with current := level.current ++ [item] }

/-- Ends the line under construction; an empty one leaves no trace. -/
def endLine (level : Level) : Level :=
  if level.current.isEmpty then level
  else { lines := level.lines ++ [level.current] }

/-- All lines of a level that has come to its end. -/
def finish (level : Level) : List Line :=
  level.endLine.lines

end Level

/-- The level that receives the next token, and the levels around it, innermost
first, each with the position of the brace at which it was left. -/
structure Grouping where
  level : Level := {}
  outer : List (Level × Int) := []
  deriving Repr

namespace Grouping

/-- Takes one token in. -/
def step (limit : Int) (state : Grouping) (token : Token) :
    Except Error Grouping :=
  match token.symbol with
  | .lineBreak | .andAnd => .ok { state with level := state.level.endLine }
  | .backslash => .error (.structural .loneBackslash (some token.position))
  | .and => .error (.structural .loneAnd (some token.position))
  | .openBrace =>
      if limit < state.outer.length + 1 then
        .error (.nesting limit (some token.position))
      else .ok { outer := (state.level, token.position) :: state.outer }
  | .closeBrace =>
      match state.outer with
      | [] => .error (.structural .unmatchedClose (some token.position))
      | (enclosing, position) :: outer =>
          .ok {
            level := enclosing.add (.block state.level.finish position), outer }
  | .quoted _ | .unquoted _ =>
      .ok { state with level := state.level.add (.token token) }

/-- The lines of the outermost level, when no brace is left open. -/
def finish (state : Grouping) : Except Error (List Line) :=
  match state.outer with
  | [] => .ok state.level.finish
  | (_, position) :: _ => .error (.structural .unclosedOpen (some position))

end Grouping

/-- The lines that a sequence of tokens forms, with blocks nested at most
`limit` deep. -/
def Line.ofTokens (limit : Int) (tokens : List Token) :
    Except Error (List Line) := do
  let state ← tokens.foldlM (Grouping.step limit) {}
  state.finish

end CommandScript
