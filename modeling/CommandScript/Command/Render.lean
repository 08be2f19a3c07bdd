import CommandScript.Command.Basic
import CommandScript.Spelling.Term

/-!
# Writing commands

A command is written as its name, its arguments and its options, followed by a
block when it has commands below it.  A block is either kept on the line, its
commands joined by `&&`, or spread over lines that are indented by one tab for
each level.  Indentation is applied to the finished text of a command, so it
also reaches line ends inside quotes.
-/

namespace CommandScript

/-- How commands are written. -/
structure Style where
  /-- Write line ends inside quotes as escapes. -/
  escapeBreaks : Bool := true
  /-- Spread blocks over several lines. -/
  multiline : Bool := true
  deriving DecidableEq, Repr

namespace Command

/-- The terms that an option is written with. -/
def optionTerms (style : Style) (option : String × Option String) :
    Except Error (List String) := do
  let key ← Spelling.ofKey style.escapeBreaks option.1
  return key :: (option.2.map (Spelling.ofValue style.escapeBreaks)).toList

/-- The terms of a command without its block. -/
def ownTerms (style : Style) (name : String) (args : List String)
    (options : List (String × Option String)) : Except Error (List String) := do
  let name ← Spelling.ofName style.escapeBreaks name
  let options ← options.mapM (optionTerms style)
  return name :: args.map (Spelling.ofValue style.escapeBreaks) ++
    options.flatten

/-- A text with each line after the first indented by one more tab. -/
def indent (text : List Char) : List Char :=
  text.flatMap fun char => if char = '\n' then ['\n', '\t'] else [char]

/-- The block that holds the written commands `subs`. -/
def block (style : Style) (subs : List (List Char)) : List Char :=
  if style.multiline then
    [' ', '{', '\n', '\t'] ++ ['\n', '\t'].intercalate (subs.map indent) ++
      ['\n', '}']
  else
    [' ', '{', ' '] ++ [' ', '&', '&', ' '].intercalate subs ++ [' ', '}']

mutual

/-- A command with `depth` commands above it, as it is written. -/
def renderAt (style : Style) (depth : Nat) : Command → Except Error (List Char)
  | ⟨name, args, options, subs, _⟩ => do
      let terms ← ownTerms style name args options
      let own := [' '].intercalate (terms.map String.toList)
      if subs.isEmpty then return own
      else if maxNesting < depth + 1 then .error (.nesting maxNesting none)
      else
        let subs ← renderEachAt style (depth + 1) subs
        return own ++ block style subs

def renderEachAt (style : Style) (depth : Nat) :
    List Command → Except Error (List (List Char))
  | [] => .ok []
  | command :: rest => do
      let text ← renderAt style depth command
      let texts ← renderEachAt style depth rest
      return text :: texts

end

def render (style : Style) (command : Command) : Except Error String := do
  let text ← command.renderAt style 0
  return String.ofList text

/-- The text of several commands, one after another on lines of their own. -/
def renderAll (style : Style) (commands : List Command) :
    Except Error String := do
  let texts ← renderEachAt style 0 commands
  return String.ofList (['\n'].intercalate texts)

end Command

end CommandScript
