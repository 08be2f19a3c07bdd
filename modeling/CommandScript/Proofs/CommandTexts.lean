import CommandScript.Proofs.CommandTree

/-!
# The texts of a command

A command holds texts: its name, its arguments, its option keys and its option
values.  A change of texts can be carried out everywhere in a tree, where it may
depend on how deep a command stands.  It leaves a tree as it is exactly when it
leaves every text as it is.
-/

namespace CommandScript

/-- A way to change the texts of a command that stands at some level.  It makes
no text empty, so that every command keeps a name. -/
@[ext]
structure TextChange where
  apply : (level : Nat) → String → String
  apply_ne_empty :
    ∀ {level : Nat} {text : String}, text ≠ "" → apply level text ≠ ""

namespace Command

/-- Every text of a command, those of the commands below it apart. -/
def texts (command : Command) : List String :=
  command.name :: command.args ++
    command.options.flatMap fun option => option.1 :: option.2.toList

mutual

/-- The tree with all texts changed, where the command itself stands at
`level`. -/
def change (changes : TextChange) (level : Nat) : Command → Command
  | ⟨name, args, options, subs, named⟩ =>
      { name := changes.apply level name
        args := args.map (changes.apply level)
        options := options.map fun option =>
          (changes.apply level option.1, option.2.map (changes.apply level))
        subs := changeEach changes (level + 1) subs
        name_ne_empty := changes.apply_ne_empty named }

def changeEach (changes : TextChange) (level : Nat) :
    List Command → List Command
  | [] => []
  | command :: commands =>
      change changes level command :: changeEach changes level commands

end

variable {changes : TextChange} {level : Nat}

theorem changeEach_eq_map (commands : List Command) :
    changeEach changes level commands =
      commands.map (change changes level) := by
  induction commands with
  | nil => rfl
  | cons command commands induction => rw [changeEach, induction, List.map_cons]

theorem change_eq (command : Command) :
    command.change changes level =
      { name := changes.apply level command.name
        args := command.args.map (changes.apply level)
        options := command.options.map fun option =>
          (changes.apply level option.1, option.2.map (changes.apply level))
        subs := command.subs.map (change changes (level + 1))
        name_ne_empty := changes.apply_ne_empty command.name_ne_empty } := by
  cases command
  simp only [change, changeEach_eq_map]

theorem map_eq_self_iff {α : Type} {items : List α} {function : α → α} :
    items.map function = items ↔ ∀ item ∈ items, function item = item := by
  have same : items.map function = items.map id ↔
      ∀ item ∈ items, function item = item := List.map_inj_left
  rwa [List.map_id] at same

theorem changeOption_eq_self_iff {function : String → String}
    {option : String × Option String} :
    (function option.1, option.2.map function) = option ↔
      ∀ text ∈ option.1 :: option.2.toList, function text = text := by
  obtain ⟨key, value⟩ := option
  cases value <;> simp

theorem change_eq_self_iff {command : Command} :
    command.change changes level = command ↔
      (∀ text ∈ command.texts, changes.apply level text = text) ∧
        ∀ sub ∈ command.subs, sub.change changes (level + 1) = sub := by
  rw [change_eq]
  cases command with
  | mk name args options subs named =>
      simp only [mk.injEq, map_eq_self_iff, changeOption_eq_self_iff, texts,
        List.cons_append, List.forall_mem_cons, List.forall_mem_append,
        List.forall_mem_flatMap, and_assoc]

end Command

end CommandScript
