import CommandScript.Command.Render
import CommandScript.Proofs.CommandTree
import CommandScript.Proofs.Outcome

/-!
# Which commands can be written

Only a name that could not be read back, the option key `--` and nesting that is
too deep keep a command from being written.  None of these depends on the style,
so a command that can be written in one style can be written in all of them.
-/

namespace CommandScript

namespace Spelling

/-- A name that reads back as one unquoted term. -/
structure WritableName (name : String) : Prop where
  notSingle : name ≠ "&"
  notDouble : name ≠ "&&"
  bareFirst : ∃ first ∈ name.toList.head?, isBare first = true

theorem exists_ofName_iff {escapeBreaks : Bool} {name : String}
    (named : name ≠ "") :
    (∃ written, ofName escapeBreaks name = .ok written) ↔
      WritableName name := by
  have nonempty : name.toList ≠ [] := by simpa using named
  obtain ⟨first, rest, whole⟩ := List.exists_cons_of_ne_nil nonempty
  unfold ofName
  constructor
  · intro writable
    obtain ⟨written, success⟩ := writable
    split at success
    · cases success
    · rename_i notSeparator
      refine ⟨fun single => notSeparator (.inl single),
        fun double => notSeparator (.inr double), first, by simp [whole], ?_⟩
      split at success
      · rename_i bare
        exact List.all_eq_true.mp bare first (by simp [whole])
      · cases firstBare : isBare first with
        | true => rfl
        | false => simp [whole, firstBare] at success
  · intro writable
    obtain ⟨notSingle, notDouble, head, member, bare⟩ := writable
    rw [if_neg (not_or.mpr ⟨notSingle, notDouble⟩)]
    split
    · exact ⟨_, rfl⟩
    · obtain rfl : first = head := by simpa [whole] using member
      simp [whole, bare]

theorem exists_ofKey_iff {escapeBreaks : Bool} {key : String} :
    (∃ written, ofKey escapeBreaks key = .ok written) ↔
      key ≠ positionalMark := by
  unfold ofKey
  constructor
  · intro writable
    obtain ⟨written, success⟩ := writable
    split at success
    · cases success
    · assumption
  · intro notMark
    rw [if_neg notMark]
    split <;> exact ⟨_, rfl⟩

end Spelling

namespace Command

open Spelling

variable {style : Style} {level : Nat} {command : Command}

/-- Nothing about the name and the option keys keeps the command from being
written. -/
structure Writable (command : Command) : Prop where
  name : WritableName command.name
  keys : ∀ option ∈ command.options, option.1 ≠ positionalMark

/-- The terms of a command on one line. -/
def ownText (terms : List String) : List Char :=
  [' '].intercalate (terms.map String.toList)

theorem optionTerms_eq_ok_iff {option : String × Option String}
    {terms : List String} :
    optionTerms style option = .ok terms ↔
      ∃ key, ofKey style.escapeBreaks option.1 = .ok key ∧
        key :: (option.2.map (ofValue style.escapeBreaks)).toList = terms := by
  rw [optionTerms, Outcome.bind_eq_ok_iff]
  simp only [Outcome.pure_eq_ok_iff]

theorem ownTerms_eq_ok_iff {name : String} {args : List String}
    {options : List (String × Option String)} {terms : List String} :
    ownTerms style name args options = .ok terms ↔
      ∃ written, ofName style.escapeBreaks name = .ok written ∧
        ∃ optionLists, List.Forall₂ (fun option terms =>
            optionTerms style option = .ok terms) options optionLists ∧
          written :: args.map (ofValue style.escapeBreaks) ++
            optionLists.flatten = terms := by
  rw [ownTerms, Outcome.bind_eq_ok_iff]
  simp only [Outcome.bind_eq_ok_iff, Outcome.pure_eq_ok_iff,
    Outcome.mapM_eq_ok_iff]

theorem exists_optionTerms_iff {option : String × Option String} :
    (∃ terms, optionTerms style option = .ok terms) ↔
      option.1 ≠ positionalMark := by
  rw [← exists_ofKey_iff]
  simp only [optionTerms_eq_ok_iff]
  constructor
  · intro written
    obtain ⟨_, key, success, -⟩ := written
    exact ⟨key, success⟩
  · intro written
    obtain ⟨key, success⟩ := written
    exact ⟨_, key, success, rfl⟩

theorem exists_ownTerms_iff :
    (∃ terms,
      ownTerms style command.name command.args command.options = .ok terms) ↔
      command.Writable := by
  simp only [ownTerms_eq_ok_iff]
  constructor
  · intro written
    obtain ⟨_, name, nameWritten, optionLists, options, -⟩ := written
    constructor
    · exact (exists_ofName_iff command.name_ne_empty).mp ⟨name, nameWritten⟩
    · intro option member
      apply exists_optionTerms_iff.mp
      exact Outcome.exists_forall₂_iff.mp ⟨optionLists, options⟩ option member
  · intro writable
    obtain ⟨name, nameWritten⟩ :=
      (exists_ofName_iff command.name_ne_empty).mpr writable.name
    have keys : ∀ option ∈ command.options,
        ∃ terms, optionTerms style option = .ok terms := by
      intro option member
      exact exists_optionTerms_iff.mpr (writable.keys option member)
    obtain ⟨optionLists, options⟩ := Outcome.exists_forall₂_iff.mpr keys
    exact ⟨_, name, nameWritten, optionLists, options, rfl⟩

/-- A command is written as its terms, and a block when commands are below it
and the limit allows one. -/
theorem renderAt_eq_ok_iff {text : List Char} :
    renderAt style level command = .ok text ↔
      ∃ terms,
        ownTerms style command.name command.args command.options = .ok terms ∧
        (command.subs = [] ∧ ownText terms = text ∨
          command.subs ≠ [] ∧ level + 1 ≤ maxNesting ∧
            ∃ texts, renderEachAt style (level + 1) command.subs = .ok texts ∧
              ownText terms ++ block style texts = text) := by
  cases command with
  | mk name args options subs named =>
      rw [renderAt, Outcome.bind_eq_ok_iff]
      apply exists_congr
      intro terms
      apply and_congr_right
      intro _
      cases subs with
      | nil => simp [Outcome.pure_eq_ok_iff, ownText]
      | cons sub subs =>
          by_cases deep : maxNesting < level + 1
          · have tooDeep : ¬ level + 1 ≤ maxNesting := by omega
            simp [deep, tooDeep]
          · have shallow : level + 1 ≤ maxNesting := by omega
            simp only [List.isEmpty_cons, Bool.false_eq_true, if_false, deep,
              Outcome.bind_eq_ok_iff, Outcome.pure_eq_ok_iff]
            simp [shallow, ownText]

theorem renderEachAt_eq_mapM (commands : List Command) :
    renderEachAt style level commands =
      commands.mapM (renderAt style level) := by
  induction commands with
  | nil => rfl
  | cons command commands induction =>
      rw [renderEachAt, List.mapM_cons, induction]

theorem renderEachAt_eq_ok_iff {commands : List Command}
    {texts : List (List Char)} :
    renderEachAt style level commands = .ok texts ↔
      List.Forall₂ (fun command text => renderAt style level command = .ok text)
        commands texts := by
  rw [renderEachAt_eq_mapM, Outcome.mapM_eq_ok_iff]

theorem exists_renderEachAt_iff {commands : List Command} :
    (∃ texts, renderEachAt style level commands = .ok texts) ↔
      ∀ command ∈ commands,
        ∃ text, renderAt style level command = .ok text := by
  simp only [renderEachAt_eq_ok_iff, Outcome.exists_forall₂_iff]

/-- A command can be written exactly when everything in it can and it does not
reach too deep. -/
theorem exists_renderAt_iff (style : Style) (command : Command) :
    ∀ {level : Nat}, level ≤ maxNesting →
      ((∃ text, renderAt style level command = .ok text) ↔
        command.Everywhere Writable ∧ level + command.depth ≤ maxNesting) := by
  induction command using tree_induction with
  | node command induction =>
      intro level shallow
      simp only [renderAt_eq_ok_iff]
      constructor
      · intro written
        obtain ⟨_, terms, own,
          childless | ⟨nonempty, deeper, texts, subs, -⟩⟩ := written
        · have writable := exists_ownTerms_iff.mp ⟨terms, own⟩
          rw [everywhere_iff, childless.1, depth_of_subs_eq_nil childless.1]
          exact ⟨⟨writable, by simp⟩, shallow⟩
        · have writable := exists_ownTerms_iff.mp ⟨terms, own⟩
          have below : ∀ sub ∈ command.subs,
              sub.Everywhere Writable ∧ level + 1 + sub.depth ≤ maxNesting := by
            intro sub member
            apply (induction sub member deeper).mp
            exact exists_renderEachAt_iff.mp ⟨texts, subs⟩ sub member
          constructor
          · exact everywhere_iff.mpr
              ⟨writable, fun sub member => (below sub member).1⟩
          · have bounded : command.depth ≤ maxNesting - level := by
              apply depth_le_iff.mpr
              intro sub member
              have reach := (below sub member).2
              omega
            omega
      · intro possible
        obtain ⟨everywhere, reach⟩ := possible
        obtain ⟨writable, below⟩ := everywhere_iff.mp everywhere
        have owned : ∃ terms,
            ownTerms style command.name command.args command.options =
              .ok terms :=
          exists_ownTerms_iff.mpr writable
        obtain ⟨terms, own⟩ := owned
        by_cases childless : command.subs = []
        · exact ⟨_, terms, own, .inl ⟨childless, rfl⟩⟩
        · have deeper : level + 1 ≤ maxNesting := by
            have one := one_le_depth childless
            omega
          have written : ∃ texts,
              renderEachAt style (level + 1) command.subs = .ok texts := by
            apply exists_renderEachAt_iff.mpr
            intro sub member
            apply (induction sub member deeper).mpr
            have reachBelow := depth_lt_of_mem_subs member
            exact ⟨below sub member, by omega⟩
          obtain ⟨texts, subs⟩ := written
          exact ⟨_, terms, own, .inr ⟨childless, deeper, texts, subs, rfl⟩⟩

theorem exists_render_iff :
    (∃ text, render style command = .ok text) ↔
      command.Everywhere Writable ∧ command.depth ≤ maxNesting := by
  rw [← Nat.zero_add command.depth,
    ← exists_renderAt_iff style command (Nat.zero_le maxNesting)]
  simp only [render, Outcome.bind_eq_ok_iff, Outcome.pure_eq_ok_iff]
  constructor
  · intro written
    obtain ⟨_, text, success, -⟩ := written
    exact ⟨text, success⟩
  · intro written
    obtain ⟨text, success⟩ := written
    exact ⟨_, text, success, rfl⟩

theorem exists_renderAll_iff {commands : List Command} :
    (∃ text, renderAll style commands = .ok text) ↔
      ∀ command ∈ commands,
        command.Everywhere Writable ∧ command.depth ≤ maxNesting := by
  have each : ∀ command, (∃ text, renderAt style 0 command = .ok text) ↔
      command.Everywhere Writable ∧ command.depth ≤ maxNesting := by
    intro command
    have shape := exists_renderAt_iff style command (Nat.zero_le maxNesting)
    rwa [Nat.zero_add] at shape
  simp only [← each, ← exists_renderEachAt_iff, renderAll,
    Outcome.bind_eq_ok_iff, Outcome.pure_eq_ok_iff]
  constructor
  · intro written
    obtain ⟨_, texts, success, -⟩ := written
    exact ⟨texts, success⟩
  · intro written
    obtain ⟨texts, success⟩ := written
    exact ⟨_, texts, success, rfl⟩

end Command

end CommandScript
