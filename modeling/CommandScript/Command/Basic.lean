import CommandScript.Error

/-!
# Commands

A command has a name, positional arguments, options and commands of its own.
Options keep their order and may repeat a key; an option without a value is a
flag.  A command without a name does not exist.
-/

namespace CommandScript

/-- One command with everything below it. -/
structure Command where
  name : String
  args : List String := []
  options : List (String × Option String) := []
  subs : List Command := []
  name_ne_empty : name ≠ "" := by decide

namespace Command

/-- Commands below commands are written at most this deep. -/
def maxNesting : Nat := 256

/-- A command from its parts, unless the name is empty. -/
def make (name : String) (args : List String)
    (options : List (String × Option String)) (subs : List Command) :
    Except Error Command :=
  if named : name = "" then .error .emptyName
  else .ok { name, args, options, subs, name_ne_empty := named }

mutual

/-- Equality of commands is decided field by field. -/
def decEq : (left right : Command) → Decidable (left = right)
  | ⟨leftName, leftArgs, leftOptions, leftSubs, _⟩,
      ⟨rightName, rightArgs, rightOptions, rightSubs, _⟩ =>
      if own : leftName = rightName ∧ leftArgs = rightArgs ∧
          leftOptions = rightOptions then
        match decEqList leftSubs rightSubs with
        | isTrue subs => isTrue (by simp [own, subs])
        | isFalse subs => isFalse (by simp [subs])
      else isFalse (by
        simp only [mk.injEq]
        exact fun same => own ⟨same.1, same.2.1, same.2.2.1⟩)

def decEqList : (left right : List Command) → Decidable (left = right)
  | [], [] => isTrue rfl
  | [], _ :: _ => isFalse (by simp)
  | _ :: _, [] => isFalse (by simp)
  | left :: lefts, right :: rights =>
      match decEq left right with
      | isTrue first =>
          match decEqList lefts rights with
          | isTrue others => isTrue (by rw [first, others])
          | isFalse others => isFalse (by simp [others])
      | isFalse first => isFalse (by simp [first])

end

instance : DecidableEq Command := decEq

def hasKey (command : Command) (key : String) : Bool :=
  command.options.any fun option => option.1 == key

/-- The values of all options with the key, in order; a flag has none. -/
def valuesOf (command : Command) (key : String) : List (Option String) :=
  (command.options.filter fun option => option.1 == key).map Prod.snd

/-- The value of the first option with the key; absent and flag look alike. -/
def valueOf (command : Command) (key : String) : Option String :=
  (command.valuesOf key).head?.join

/-- Puts a command below a new one called `name`, and that below another, as
many times as `levels` says. -/
def nest (name : String) : (levels : Nat) → Command → Except Error Command
  | 0, command => .ok command
  | levels + 1, command => do
      let outer ← make name [] [] [command]
      nest name levels outer

/-- Follows the first command below each command: how many steps that takes, and
the name of the last command met. -/
def firstPath : Command → Nat × String
  | ⟨name, _, _, [], _⟩ => (0, name)
  | ⟨_, _, _, sub :: _, _⟩ =>
      let below := firstPath sub
      (below.1 + 1, below.2)

end Command

end CommandScript
