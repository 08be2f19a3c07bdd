import CommandScript.Line.Basic

/-!
# Operands of a command

The words after a command's name are its arguments and options.  An unquoted
word that starts with a dash is an option, and takes the next word as its value
unless that one is unquoted and starts with a dash too.  The unquoted word `--`
makes all words after it arguments.  Quoted words are never options.
-/

namespace CommandScript

/-- A term of a line, with its decoded text. -/
inductive Word where
  | quoted (value : String)
  | unquoted (value : String)
  deriving DecidableEq, Repr

def startsWithDash (text : String) : Bool :=
  text.toList.head? == some '-'

/-- The unquoted word after which every word is an argument. -/
def positionalMark : String := "--"

namespace Word

def value : Word → String
  | quoted value | unquoted value => value

def ofSymbol? : Symbol → Option Word
  | .quoted value => some (.quoted value)
  | .unquoted value => some (.unquoted value)
  | _ => none

/-- Whether a word can become the value of the option right before it. -/
def isAbsorbable : Word → Bool
  | quoted _ => true
  | unquoted value => !startsWithDash value

/-- The words of a line up to its first block.  A line holds blocks and tokens
that carry a text and nothing else: grouping leaves control tokens out of every
line that is read.  A control token would give no word. -/
def ofLine : Line → List Word
  | [] => []
  | .block _ _ :: _ => []
  | .token token :: rest => (ofSymbol? token.symbol).toList ++ ofLine rest

end Word

/-- The arguments and options of a command, each in order. -/
structure Operands where
  args : List String := []
  options : List (String × Option String) := []
  deriving DecidableEq, Repr

namespace Operands

def addArg (arg : String) (operands : Operands) : Operands :=
  { operands with args := arg :: operands.args }

def addOption (key : String) (value : Option String) (operands : Operands) :
    Operands :=
  { operands with options := (key, value) :: operands.options }

/-- The arguments and options that a sequence of words gives. -/
def ofWords : List Word → Operands
  | [] => {}
  | .quoted value :: rest => (ofWords rest).addArg value
  | .unquoted value :: rest =>
      if value = positionalMark then { args := rest.map Word.value }
      else if startsWithDash value then
        match rest with
        | [] => { options := [(value, none)] }
        | next :: others =>
            if next.isAbsorbable then
              (ofWords others).addOption value (some next.value)
            else (ofWords (next :: others)).addOption value none
      else (ofWords rest).addArg value

end Operands

end CommandScript
