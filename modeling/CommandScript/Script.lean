import CommandScript.Command.OfLine
import CommandScript.Line.Grouping
import CommandScript.Token.Lexer

/-!
# Reading scripts

A script is read in three steps: the text is divided into tokens, the tokens
are grouped into lines, and each line gives a command.  The first failure ends
the reading, and nothing partial is returned.
-/

namespace CommandScript

namespace Script

/-- Blocks nest at most this deep when nothing else is asked for. -/
def defaultDepth : Int := 64

/-- The commands of a text with blocks nested at most `limit` deep. -/
def parse (limit : Int) (text : String) : Except Error (List Command) := do
  let tokens ← Token.ofText text
  let lines ← Line.ofTokens limit tokens
  Command.ofLines lines

/-- The command of a text that holds exactly one. -/
def parseSingle (limit : Int) (text : String) : Except Error Command := do
  match ← parse limit text with
  | [command] => return command
  | commands => throw (.arity 1 commands.length "command")

/-- The decoded text of the single quoted string or term that a text holds. -/
def readValue (text : String) : Except Error String := do
  match ← Token.ofText text with
  | [token] =>
      match token.symbol.value? with
      | some value => return value
      | none =>
          throw
            (.structural (.notAValue token.symbol.kind) (some token.position))
  | tokens => throw (.arity 1 tokens.length "value")

def tokenCount (text : String) : Nat :=
  match Token.ofText text with
  | .ok tokens => tokens.length
  | .error _ => 0

/-- What is noted about the reading of a text. -/
def parseNote (limit : Int) (text : String) : String :=
  match parse limit text with
  | .ok commands =>
      "Parsed " ++ toString (tokenCount text) ++ " tokens into " ++
        toString commands.length ++ " commands"
  | .error error => "Failed to parse command notation: " ++ error.message

end Script

end CommandScript
