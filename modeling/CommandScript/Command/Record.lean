import CommandScript.Command.Basic

/-!
# Plain records of commands

A record holds the parts of a command as they come from outside, before it is
known that the name is not empty and that every option is a pair.  Commands are
made from records from the bottom up, and turned back into records down to the
deepest level that can be written.
-/

namespace CommandScript

/-- An option as it is given: a key with a value or none, or another number of
fields than two. -/
inductive OptionFields where
  | pair (key : String) (value : Option String)
  | malformed (count : Nat)
  deriving DecidableEq, Repr

def OptionFields.toOption : OptionFields → Except Error (String × Option String)
  | pair key value => .ok (key, value)
  | malformed count => .error (.optionFields count)

/-- The parts of a command and of the commands below it. -/
structure Record where
  name : String
  args : List String := []
  options : List OptionFields := []
  subs : List Record := []

/-- A command from its parts as they are given.  Options are looked at from the
left, and before the name. -/
def Command.assemble (name : String) (args : List String)
    (options : List OptionFields) (subs : List Command) :
    Except Error Command := do
  let options ← options.mapM OptionFields.toOption
  make name args options subs

namespace Record

mutual

/-- The command of a record; the records below it come first. -/
def toCommand : Record → Except Error Command
  | ⟨name, args, options, subs⟩ => do
      let subs ← toCommands subs
      Command.assemble name args options subs

def toCommands : List Record → Except Error (List Command)
  | [] => .ok []
  | record :: rest => do
      let command ← toCommand record
      let commands ← toCommands rest
      return command :: commands

end

end Record

namespace Command

mutual

/-- The record of a command that has `depth` commands above it. -/
def toRecordAt (depth : Nat) : Command → Except Error Record
  | ⟨name, args, options, subs, _⟩ =>
      if maxNesting < depth + 1 ∧ subs ≠ [] then
        .error (.nesting maxNesting none)
      else do
        let subs ← toRecordsAt (depth + 1) subs
        return ⟨name, args, options.map fun option => .pair option.1 option.2,
          subs⟩

def toRecordsAt (depth : Nat) : List Command → Except Error (List Record)
  | [] => .ok []
  | command :: rest => do
      let record ← toRecordAt depth command
      let records ← toRecordsAt depth rest
      return record :: records

end

/-- The record of a command, unless commands nest too deep below it. -/
def toRecord (command : Command) : Except Error Record :=
  command.toRecordAt 0

end Command

end CommandScript
