import CommandScript.Proofs.ScriptRoundTrip

/-!
# Line ends inside indented blocks

Where blocks are spread over several lines and line ends stay as they are inside
quotes, the indentation of a block reaches into the quoted texts of its
commands.  What is read back is the same tree with tabs behind every line end,
one for each level at which the text stands.  Nothing else changes, so the tree
survives exactly when no text below the top level holds a line end.
-/

namespace CommandScript

/-- A text with `level` tabs behind every line end. -/
def tabBreaks (level : Nat) (text : List Char) : List Char :=
  text.flatMap fun char =>
    if char = '\n' then '\n' :: List.replicate level '\t' else [char]

section

variable {level : Nat} {text : List Char}

theorem tabBreaks_cons (level : Nat) (char : Char) (text : List Char) :
    tabBreaks level (char :: text) =
      (if char = '\n' then '\n' :: List.replicate level '\t' else [char]) ++
        tabBreaks level text :=
  List.flatMap_cons

theorem length_tabBreaks (level : Nat) (text : List Char) :
    (tabBreaks level text).length = text.length + level * text.count '\n' := by
  induction text with
  | nil => rfl
  | cons char text induction =>
      rw [tabBreaks_cons, List.length_append, induction]
      by_cases feed : char = '\n'
      · subst char
        simp only [if_pos, List.length_cons, List.length_replicate,
          List.count_cons_self, Nat.mul_add]
        omega
      · rw [if_neg feed, List.count_cons_of_ne feed]
        simp only [List.length_cons, List.length_nil]
        omega

theorem tabBreaks_of_not_mem (flat : '\n' ∉ text) :
    tabBreaks level text = text := by
  induction text with
  | nil => rfl
  | cons char text induction =>
      obtain ⟨notFeed, others⟩ : '\n' ≠ char ∧ '\n' ∉ text := by
        simpa using flat
      rw [tabBreaks_cons, if_neg (Ne.symm notFeed), induction others]
      rfl

theorem tabBreaks_zero (text : List Char) : tabBreaks 0 text = text := by
  induction text with
  | nil => rfl
  | cons char text induction =>
      rw [tabBreaks_cons, induction]
      split <;> simp_all

theorem tabBreaks_succ_eq_self_iff :
    tabBreaks (level + 1) text = text ↔ '\n' ∉ text := by
  constructor
  · intro same member
    have lengths := length_tabBreaks (level + 1) text
    have some : 0 < text.count '\n' := List.count_pos_iff.mpr member
    have longer : 0 < (level + 1) * text.count '\n' :=
      Nat.mul_pos (Nat.succ_pos level) some
    rw [same] at lengths
    omega
  · exact tabBreaks_of_not_mem

end

namespace TextChange

/-- Every line end is followed by as many tabs as its command has commands above
it. -/
def tabs : TextChange where
  apply level text := String.ofList (tabBreaks level text.toList)
  apply_ne_empty := by
    intro level text nonempty empty
    have lost : tabBreaks level text.toList = [] := by simpa using empty
    have lengths := length_tabBreaks level text.toList
    rw [lost, List.length_nil] at lengths
    have none : text.toList = [] := List.length_eq_zero_iff.mp (by omega)
    exact nonempty (String.toList_eq_nil_iff.mp none)

end TextChange

namespace Style

/-- Blocks are spread over several lines, and line ends stay as they are inside
quotes. -/
def rawBreaks : Style := { escapeBreaks := false, multiline := true }

/-- Indenting once for each level puts all the tabs of the level in place. -/
theorem shift_rawBreaks (level : Nat) (text : List Char) :
    rawBreaks.shift level text = tabBreaks level text := by
  induction text with
  | nil => exact shift_of_not_mem List.not_mem_nil
  | cons char text induction =>
      rw [tabBreaks_cons, ← induction]
      split
      · rename_i feed
        subst char
        exact shift_lineBreak rfl text
      · rename_i notFeed
        exact shift_cons notFeed text

theorem displacement_rawBreaks : rawBreaks.displacement = TextChange.tabs := by
  have same : rawBreaks.displaced = TextChange.tabs.apply := by
    funext level text
    exact congrArg String.ofList (shift_rawBreaks level text.toList)
  exact TextChange.ext same

end Style

namespace Command

/-- No text of the command holds a line end. -/
def Flat (command : Command) : Prop :=
  ∀ text ∈ command.texts, '\n' ∉ text.toList

theorem tabs_apply_succ_eq_self_iff {level : Nat} {text : String} :
    TextChange.tabs.apply (level + 1) text = text ↔ '\n' ∉ text.toList := by
  have same : TextChange.tabs.apply (level + 1) text = text ↔
      tabBreaks (level + 1) text.toList = text.toList := by
    rw [← String.toList_inj, TextChange.tabs, String.toList_ofList]
  exact same.trans tabBreaks_succ_eq_self_iff

theorem change_tabs_succ_eq_self_iff {command : Command} :
    ∀ {level : Nat}, command.change .tabs (level + 1) = command ↔
      command.Everywhere Flat := by
  induction command using tree_induction with
  | node command induction =>
      intro level
      rw [change_eq_self_iff, everywhere_iff]
      apply and_congr
      · simp only [tabs_apply_succ_eq_self_iff]
        rfl
      · apply forall₂_congr
        intro sub member
        exact induction sub member

theorem change_tabs_eq_self_iff {command : Command} :
    command.change .tabs 0 = command ↔
      ∀ sub ∈ command.subs, sub.Everywhere Flat := by
  rw [change_eq_self_iff]
  have top : ∀ text ∈ command.texts, TextChange.tabs.apply 0 text = text := by
    intro text _
    simp [TextChange.tabs, tabBreaks_zero]
  simp only [change_tabs_succ_eq_self_iff, and_iff_right top]

end Command

namespace Script

open Command

/-- A command that is written with indented blocks and raw line ends is read
back with tabs behind the line ends of every command below it, as many as that
command stands deep.  So it is read back unchanged exactly when no command below
it holds a line end. -/
theorem parseSingle_render_rawBreaks (limit : DepthLimit) (command : Command)
    (text : String) (success : render .rawBreaks command = .ok text)
    (dashLed : command.Everywhere DashLed)
    (reach : (command.depth : Int) ≤ limit.value) :
    parseSingle limit.value text = .ok (command.change .tabs 0) ∧
      (parseSingle limit.value text = .ok command ↔
        ∀ sub ∈ command.subs, sub.Everywhere Flat) := by
  have written := renderAll_singleton success
  have writable :=
    exists_renderAll_iff.mp ⟨text, written⟩ command List.mem_cons_self
  have read : parse limit.value text = .ok [command.readBack .rawBreaks 0] :=
    parse_renderAll written
      (by simpa using dashLed.mono fun _ => DashLed.keysApart)
      (by simpa using reach)
  have single :
      parseSingle limit.value text = .ok (command.change .tabs 0) := by
    rw [readBack_eq_change _ _ _ dashLed writable.1,
      Style.displacement_rawBreaks] at read
    rw [parseSingle, read]
    rfl
  refine ⟨single, ?_⟩
  rw [single, Except.ok.injEq]
  exact change_tabs_eq_self_iff

/-- The line end of the lower command gets a tab, that of the upper one none. -/
theorem parseSingle_render_rawBreaks_log :
    parseSingle 64 "run `a\nb` \x7b\n\tlog `c\n\td`\n\x7d" =
      .ok { name := "run", args := ["a\nb"],
            subs := [{ name := "log", args := ["c\n\td"] }] } := by
  let command : Command :=
    { name := "run", args := ["a\nb"],
      subs := [{ name := "log", args := ["c\nd"] }] }
  have dashLed : command.Everywhere DashLed := by
    simp [command, Everywhere, EverywhereAmong, DashLed]
  exact (parseSingle_render_rawBreaks DepthLimit.default command _ rfl dashLed
    (by decide)).1

end Script

end CommandScript
