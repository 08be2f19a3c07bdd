import CommandScript.Command.Basic

/-!
# Commands as trees

A property of a command and of everything below it, the number of levels below
it, and weights added up over all of it.  Statements about whole trees are
proved with `Command.tree_induction`, which has one case and assumes the
statement of every command directly below.
-/

namespace CommandScript

namespace Command

mutual

/-- The property holds of a command and of everything below it. -/
def Everywhere (holds : Command → Prop) : Command → Prop
  | ⟨name, args, options, subs, named⟩ =>
      holds ⟨name, args, options, subs, named⟩ ∧ EverywhereAmong holds subs

def EverywhereAmong (holds : Command → Prop) : List Command → Prop
  | [] => True
  | command :: commands =>
      Everywhere holds command ∧ EverywhereAmong holds commands

end

mutual

/-- The number of levels below a command. -/
def depth : Command → Nat
  | ⟨_, _, _, subs, _⟩ => levels subs

def levels : List Command → Nat
  | [] => 0
  | command :: commands => max (depth command + 1) (levels commands)

end

mutual

/-- The weights of a command and of everything below it, taken together. -/
def total (weigh : Command → Nat) : Command → Nat
  | ⟨name, args, options, subs, named⟩ =>
      weigh ⟨name, args, options, subs, named⟩ + totalAmong weigh subs

def totalAmong (weigh : Command → Nat) : List Command → Nat
  | [] => 0
  | command :: commands => total weigh command + totalAmong weigh commands

end

mutual

theorem tree_induction {motive : Command → Prop}
    (node : ∀ command, (∀ sub ∈ command.subs, motive sub) → motive command) :
    ∀ command, motive command
  | ⟨name, args, options, subs, named⟩ =>
      node ⟨name, args, options, subs, named⟩ (forest_induction node subs)

/-- List counterpart of `Command.tree_induction`. -/
theorem forest_induction {motive : Command → Prop}
    (node : ∀ command, (∀ sub ∈ command.subs, motive sub) → motive command) :
    ∀ commands : List Command, ∀ command ∈ commands, motive command
  | [] => fun _ member => absurd member List.not_mem_nil
  | first :: others => by
      intro command member
      cases member with
      | head => exact tree_induction node first
      | tail _ later => exact forest_induction node others command later

end

theorem everywhereAmong_iff {holds : Command → Prop} {commands : List Command} :
    EverywhereAmong holds commands ↔
      ∀ command ∈ commands, command.Everywhere holds := by
  induction commands with
  | nil => simp [EverywhereAmong]
  | cons command commands induction => simp [EverywhereAmong, induction]

theorem everywhere_iff {holds : Command → Prop} {command : Command} :
    command.Everywhere holds ↔
      holds command ∧ ∀ sub ∈ command.subs, sub.Everywhere holds := by
  cases command
  rw [Everywhere, everywhereAmong_iff]

theorem Everywhere.mono {weaker stronger : Command → Prop}
    (implies : ∀ command, stronger command → weaker command) {command : Command}
    (everywhere : command.Everywhere stronger) : command.Everywhere weaker := by
  induction command using tree_induction with
  | node command induction =>
      obtain ⟨here, below⟩ := everywhere_iff.mp everywhere
      apply everywhere_iff.mpr
      constructor
      · exact implies command here
      · intro sub member
        exact induction sub member (below sub member)

theorem Everywhere.and {left right : Command → Prop} {command : Command}
    (first : command.Everywhere left) (second : command.Everywhere right) :
    command.Everywhere fun command => left command ∧ right command := by
  induction command using tree_induction with
  | node command induction =>
      obtain ⟨leftHere, leftBelow⟩ := everywhere_iff.mp first
      obtain ⟨rightHere, rightBelow⟩ := everywhere_iff.mp second
      apply everywhere_iff.mpr
      constructor
      · exact ⟨leftHere, rightHere⟩
      · intro sub member
        exact induction sub member (leftBelow sub member)
          (rightBelow sub member)

theorem total_eq {weigh : Command → Nat} {command : Command} :
    command.total weigh = weigh command + totalAmong weigh command.subs := by
  cases command
  rw [total]

theorem totalAmong_eq_zero_iff {weigh : Command → Nat}
    {commands : List Command} :
    totalAmong weigh commands = 0 ↔
      ∀ command ∈ commands, command.total weigh = 0 := by
  induction commands with
  | nil => simp [totalAmong]
  | cons command commands induction =>
      rw [totalAmong, Nat.add_eq_zero_iff, induction, List.forall_mem_cons]

theorem total_eq_zero_iff {weigh : Command → Nat} {command : Command} :
    command.total weigh = 0 ↔
      command.Everywhere fun node => weigh node = 0 := by
  induction command using tree_induction with
  | node command induction =>
      rw [total_eq, everywhere_iff, Nat.add_eq_zero_iff, totalAmong_eq_zero_iff]
      apply and_congr_right
      intro _
      exact forall₂_congr induction

theorem depth_eq_levels (command : Command) :
    command.depth = levels command.subs := by
  cases command
  rw [depth]

theorem levels_le_iff {commands : List Command} {bound : Nat} :
    levels commands ≤ bound ↔
      ∀ command ∈ commands, command.depth + 1 ≤ bound := by
  induction commands with
  | nil => simp [levels]
  | cons command commands induction =>
      rw [levels, Nat.max_le, induction, List.forall_mem_cons]

/-- A command reaches down `bound` levels at most when it has none below it, or
its commands reach down one level less. -/
theorem depth_le_iff {command : Command} {bound : Nat} :
    command.depth ≤ bound ↔ ∀ sub ∈ command.subs, sub.depth + 1 ≤ bound := by
  rw [depth_eq_levels, levels_le_iff]

theorem depth_lt_of_mem_subs {command sub : Command}
    (member : sub ∈ command.subs) : sub.depth < command.depth :=
  depth_le_iff.mp (Nat.le_refl command.depth) sub member

theorem depth_of_subs_eq_nil {command : Command}
    (childless : command.subs = []) :
    command.depth = 0 := by
  rw [depth_eq_levels, childless, levels]

theorem one_le_depth {command : Command} (nonempty : command.subs ≠ []) :
    1 ≤ command.depth := by
  obtain ⟨sub, subs, whole⟩ := List.exists_cons_of_ne_nil nonempty
  have deeper : sub.depth < command.depth :=
    depth_lt_of_mem_subs (by simp [whole])
  omega

end Command

end CommandScript
