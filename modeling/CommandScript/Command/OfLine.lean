import CommandScript.Command.Basic
import CommandScript.Command.Operands

/-!
# Commands from lines

A line gives one command: an unquoted name, the words that follow, and
optionally one block at the end, whose lines give the commands below.  Of two
faults in a line the one found first from the left is reported, those inside a
block before one after it.
-/

namespace CommandScript

namespace Command

mutual

/-- The command of a line; an empty line has none. -/
def ofLine : List Item → Except Error (Option Command)
  | [] => .ok none
  | .block _ position :: _ =>
      .error (.structural .blockWithoutCommand (some position))
  | .token head :: rest =>
      match head.symbol with
      | .unquoted name => do
          let subs ← subsOfItems rest
          let operands := Operands.ofWords (Word.ofLine rest)
          let command ← make name operands.args operands.options subs
          return some command
      | _ => .error (.structural .nameNotUnquoted (some head.position))

/-- The commands in the first block among the items after a name, which must be
the last item. -/
def subsOfItems : List Item → Except Error (List Command)
  | [] => .ok []
  | .token _ :: rest => subsOfItems rest
  | .block lines _ :: rest => do
      let subs ← ofLines lines
      match rest with
      | [] => return subs
      | next :: _ => .error (.structural .itemAfterBlock (some next.position))

def ofLines : List (List Item) → Except Error (List Command)
  | [] => .ok []
  | line :: rest => do
      let command ← ofLine line
      let commands ← ofLines rest
      return command.toList ++ commands

end

end Command

end CommandScript
