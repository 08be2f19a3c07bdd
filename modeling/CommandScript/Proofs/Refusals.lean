import CommandScript.Proofs.Writability

/-!
# Which failure keeps a command from being written

The commands of a tree are met one by one, each before those below it and each
of these with everything below it before the next.  A command can be refused for
its name, for each of its option keys, and for standing too deep to have
commands below it.  A tree that cannot be written fails with the first refusal
that is met, and no refusal has to do with the arguments, the option values or
the style.
-/

namespace CommandScript

namespace Spelling

/-- Why a name cannot be written, if it cannot. -/
def nameRefusal? (name : String) : Option Error :=
  if name = "&" ∨ name = "&&" then some (.separatorName name)
  else if name.toList.head?.any isBare then none
  else some (.unwritableName name)

def keyRefusal? (key : String) : Option Error :=
  if key = positionalMark then some .separatorKey else none

theorem ofName_meets {escapeBreaks : Bool} {name : String} (named : name ≠ "") :
    Outcome.Meets (ofName escapeBreaks name) (nameRefusal? name).toList := by
  have nonempty : name.toList ≠ [] := by simpa using named
  obtain ⟨first, rest, whole⟩ := List.exists_cons_of_ne_nil nonempty
  unfold ofName nameRefusal?
  by_cases separator : name = "&" ∨ name = "&&"
  · rw [if_pos separator, if_pos separator]
    exact .error
  · rw [if_neg separator, if_neg separator]
    cases bare : isBare first with
    | true =>
        split
        · simpa [whole, bare] using .ok
        · simpa [whole, bare] using .ok
    | false =>
        have notBare : isBareText name = false := by
          simp [isBareText, whole, bare]
        simpa [notBare, whole, bare] using .error

theorem ofKey_meets {escapeBreaks : Bool} {key : String} :
    Outcome.Meets (ofKey escapeBreaks key) (keyRefusal? key).toList := by
  unfold ofKey keyRefusal?
  by_cases mark : key = positionalMark
  · rw [if_pos mark, if_pos mark]
    exact .error
  · rw [if_neg mark, if_neg mark]
    split <;> exact .ok

end Spelling

namespace Command

open Spelling

mutual

/-- A command at `level` and everything below it, each command before the ones
below it, together with the levels they stand at. -/
def preorder (level : Nat) : Command → List (Nat × Command)
  | ⟨name, args, options, subs, named⟩ =>
      (level, ⟨name, args, options, subs, named⟩) ::
        preorderEach (level + 1) subs

def preorderEach (level : Nat) : List Command → List (Nat × Command)
  | [] => []
  | command :: commands => preorder level command ++ preorderEach level commands

end

/-- Why a command at `level` cannot be written, whatever stands below it: for
its name, for its option keys in order, and for the block it would need. -/
def refusals (level : Nat) (command : Command) : List Error :=
  (nameRefusal? command.name).toList ++
    command.options.flatMap (fun option => (keyRefusal? option.1).toList) ++
    if command.subs ≠ [] ∧ maxNesting < level + 1 then
      [.nesting maxNesting none] else []

/-- Every refusal in the tree of a command, in the order in which they are
met. -/
def allRefusals (level : Nat) (command : Command) : List Error :=
  (command.preorder level).flatMap fun entry => entry.2.refusals entry.1

variable {style : Style} {level : Nat} {command : Command}

theorem preorderEach_eq_flatMap (commands : List Command) :
    preorderEach level commands = commands.flatMap (preorder level) := by
  induction commands with
  | nil => rfl
  | cons command commands induction =>
      rw [preorderEach, induction, List.flatMap_cons]

theorem preorder_eq (command : Command) :
    command.preorder level =
      (level, command) :: command.subs.flatMap (preorder (level + 1)) := by
  cases command
  rw [preorder, preorderEach_eq_flatMap]

theorem everywhere_iff_preorder (level : Nat) {holds : Command → Prop} :
    command.Everywhere holds ↔
      ∀ entry ∈ command.preorder level, holds entry.2 := by
  induction command using tree_induction generalizing level with
  | node command induction =>
      rw [everywhere_iff, preorder_eq, List.forall_mem_cons,
        List.forall_mem_flatMap]
      apply and_congr_right
      intro _
      exact forall₂_congr fun sub member => induction sub member (level + 1)

theorem level_add_depth_le_of_mem_preorder {entry : Nat × Command}
    (member : entry ∈ command.preorder level) :
    entry.1 + entry.2.depth ≤ level + command.depth := by
  induction command using tree_induction generalizing level with
  | node command induction =>
      rw [preorder_eq, List.mem_cons, List.mem_flatMap] at member
      obtain rfl | ⟨sub, below, member⟩ := member
      · exact Nat.le_refl _
      · have reach := induction sub below member
        have deeper := depth_lt_of_mem_subs below
        omega

theorem level_le_of_mem_preorder {entry : Nat × Command}
    (member : entry ∈ command.preorder level) :
    entry.1 ≤ level + command.depth :=
  Nat.le_of_add_right_le (level_add_depth_le_of_mem_preorder member)

theorem allRefusals_eq (command : Command) :
    command.allRefusals level =
      command.refusals level ++
        command.subs.flatMap (allRefusals (level + 1)) := by
  rw [allRefusals, preorder_eq, List.flatMap_cons, List.flatMap_assoc]
  rfl

theorem optionTerms_meets {option : String × Option String} :
    Outcome.Meets (optionTerms style option) (keyRefusal? option.1).toList :=
  ofKey_meets.bind_pure

theorem ownTerms_meets {name : String} {args : List String}
    {options : List (String × Option String)} (named : name ≠ "") :
    Outcome.Meets (ownTerms style name args options)
      ((nameRefusal? name).toList ++
        options.flatMap fun option => (keyRefusal? option.1).toList) := by
  have each : Outcome.Meets (options.mapM (optionTerms style))
      (options.flatMap fun option => (keyRefusal? option.1).toList) :=
    .mapM fun option _ => optionTerms_meets
  apply (ofName_meets named).bind
  intro written _
  exact each.bind_pure

/-- Writing a command fails with the first refusal in its tree. -/
theorem renderAt_meets :
    Outcome.Meets (renderAt style level command)
      (command.allRefusals level) := by
  induction command using tree_induction generalizing level with
  | node command induction =>
      have below : Outcome.Meets (renderEachAt style (level + 1) command.subs)
          (command.subs.flatMap (allRefusals (level + 1))) := by
        rw [renderEachAt_eq_mapM]
        exact .mapM fun sub member => induction sub member
      rw [allRefusals_eq, refusals, List.append_assoc]
      cases command with
      | mk name args options subs named =>
          rw [renderAt]
          apply (ownTerms_meets named).bind
          intro terms _
          cases subs with
          | nil => exact .ok
          | cons sub subs =>
              by_cases deep : maxNesting < level + 1
              · simpa [deep] using .error
              · simp only [List.isEmpty_cons, Bool.false_eq_true, if_false,
                  deep, and_false, List.nil_append]
                exact below.bind_pure

theorem render_meets :
    Outcome.Meets (render style command) (command.allRefusals 0) :=
  renderAt_meets.bind_pure

theorem not_writable_iff :
    ¬ command.Writable ↔
      command.name = "&" ∨ command.name = "&&" ∨
        (∃ first ∈ command.name.toList.head?, isBare first = false) ∨
          ∃ option ∈ command.options, option.1 = positionalMark := by
  have nonempty : command.name.toList ≠ [] := by
    simpa using command.name_ne_empty
  obtain ⟨first, rest, whole⟩ := List.exists_cons_of_ne_nil nonempty
  have bareFirst : (∃ first ∈ command.name.toList.head?, isBare first = true) ↔
      ¬ ∃ first ∈ command.name.toList.head?, isBare first = false := by
    simp [whole]
  have shape : command.Writable ↔ command.name ≠ "&" ∧ command.name ≠ "&&" ∧
      (¬ ∃ first ∈ command.name.toList.head?, isBare first = false) ∧
        ∀ option ∈ command.options, option.1 ≠ positionalMark := by
    rw [← bareFirst]
    constructor
    · intro writable
      obtain ⟨⟨notSingle, notDouble, bare⟩, keys⟩ := writable
      exact ⟨notSingle, notDouble, bare, keys⟩
    · intro possible
      obtain ⟨notSingle, notDouble, bare, keys⟩ := possible
      exact ⟨⟨notSingle, notDouble, bare⟩, keys⟩
  rw [shape]
  simp only [not_and_or, not_not, not_forall, exists_prop]

/-- A command cannot be written exactly when some command in it, none too deep
to be reached, has a name or a key without a spelling, or when commands nest too
deep.  The failure is the first refusal in the tree, in whatever style it is
written. -/
theorem render_eq_error_iff (style : Style) (command : Command) :
    (∀ error, render style command = .error error ↔
      (command.allRefusals 0).head? = some error) ∧
    (∀ other error, render other command = .error error ↔
      render style command = .error error) ∧
    ((∃ error, render style command = .error error) ↔
      (∃ entry ∈ command.preorder 0, entry.1 ≤ maxNesting ∧
        (entry.2.name = "&" ∨ entry.2.name = "&&" ∨
          (∃ first ∈ entry.2.name.toList.head?, isBare first = false) ∨
            ∃ option ∈ entry.2.options, option.1 = positionalMark)) ∨
        maxNesting < command.depth) := by
  refine ⟨fun _ => render_meets.eq_error_iff, ?_, ?_⟩
  · intro other error
    rw [render_meets.eq_error_iff, render_meets.eq_error_iff]
  · rw [Outcome.exists_error_iff, exists_render_iff, everywhere_iff_preorder 0]
    simp only [← not_writable_iff]
    constructor
    · intro refused
      by_cases deep : maxNesting < command.depth
      · exact .inr deep
      · have shallow : command.depth ≤ maxNesting := Nat.le_of_not_lt deep
        have unwritable : ¬ ∀ entry ∈ command.preorder 0, entry.2.Writable :=
          fun everywhere => refused ⟨everywhere, shallow⟩
        simp only [not_forall, exists_prop] at unwritable
        obtain ⟨entry, member, unwritable⟩ := unwritable
        have reach := level_le_of_mem_preorder member
        exact .inl ⟨entry, member, by omega, unwritable⟩
    · intro refused possible
      obtain ⟨everywhere, shallow⟩ := possible
      obtain ⟨entry, member, -, unwritable⟩ | deep := refused
      · exact unwritable (everywhere entry member)
      · exact Nat.not_lt_of_le shallow deep

/-- The keys of a command come before the names below it. -/
example :
    render {}
      { name := "a", options := [("--", none)], subs := [{ name := "&" }] } =
      .error .separatorKey :=
  rfl

end Command

end CommandScript
