import CommandScript.Command.Record
import CommandScript.Proofs.ParsedCommands
import CommandScript.Proofs.Refusals
import CommandScript.Settings

/-!
# One limit for all that goes down a tree

Blocks are counted as they are opened when a script is read.  Writing a command
and turning it into a record count the commands above instead.  All of them
measure the depth of the tree: a command has a record exactly when its depth is
within the limit that also keeps it from being written, and nothing that was
read is too deep.  A record holds everything that a command is made of, so that
the command can be made from it again.
-/

namespace CommandScript

namespace Command

mutual

/-- The parts of a command and of everything below it, however deep that
reaches. -/
def plain : Command → Record
  | ⟨name, args, options, subs, _⟩ =>
      ⟨name, args, options.map fun option => .pair option.1 option.2,
        plainEach subs⟩

def plainEach : List Command → List Record
  | [] => []
  | command :: commands => plain command :: plainEach commands

end

end Command

namespace Record

theorem toCommands_eq_mapM (records : List Record) :
    toCommands records = records.mapM toCommand := by
  induction records with
  | nil => rfl
  | cons record records induction => rw [toCommands, List.mapM_cons, induction]

theorem mapM_toOption_pair (options : List (String × Option String)) :
    (options.map fun option => OptionFields.pair option.1 option.2).mapM
      OptionFields.toOption = .ok options := by
  rw [Outcome.mapM_eq_ok_iff, List.forall₂_map_left_iff, List.forall₂_same]
  intro option _
  rfl

end Record

namespace Command

open Spelling

variable {style : Style} {level : Nat} {command : Command}

theorem plainEach_eq_map (commands : List Command) :
    plainEach commands = commands.map plain := by
  induction commands with
  | nil => rfl
  | cons command commands induction => rw [plainEach, induction, List.map_cons]

theorem toRecordsAt_eq_mapM (commands : List Command) :
    toRecordsAt level commands = commands.mapM (toRecordAt level) := by
  induction commands with
  | nil => rfl
  | cons command commands induction =>
      rw [toRecordsAt, List.mapM_cons, induction]

theorem toCommand_plain (command : Command) :
    command.plain.toCommand = .ok command := by
  induction command using tree_induction with
  | node command induction =>
      cases command with
      | mk name args options subs named =>
          have below : (plainEach subs).mapM Record.toCommand = .ok subs := by
            rw [plainEach_eq_map, Outcome.mapM_eq_ok_iff,
              List.forall₂_map_left_iff, List.forall₂_same]
            exact induction
          have made : make name args options subs =
              .ok ⟨name, args, options, subs, named⟩ := by
            simp [make, named]
          simp only [plain, Record.toCommand, Record.toCommands_eq_mapM, below,
            assemble, Record.mapM_toOption_pair]
          exact made

/-- A command within the limit has its parts as its record. -/
theorem toRecordAt_of_le (command : Command) :
    ∀ {level : Nat}, level + command.depth ≤ maxNesting →
      toRecordAt level command = .ok command.plain := by
  induction command using tree_induction with
  | node command induction =>
      intro level reach
      have below :
          ∀ sub ∈ command.subs, toRecordAt (level + 1) sub = .ok sub.plain := by
        intro sub member
        apply induction sub member
        have deeper := depth_lt_of_mem_subs member
        omega
      have shallow : ¬ (maxNesting < level + 1 ∧ command.subs ≠ []) := by
        rintro ⟨deep, nonempty⟩
        have inside := one_le_depth nonempty
        omega
      cases command with
      | mk name args options subs named =>
          have records :
              subs.mapM (toRecordAt (level + 1)) = .ok (subs.map plain) := by
            rw [Outcome.mapM_eq_ok_iff, List.forall₂_map_right_iff,
              List.forall₂_same]
            exact below
          rw [toRecordAt, if_neg shallow, toRecordsAt_eq_mapM, records, plain,
            plainEach_eq_map]
          rfl

/-- A command beyond the limit has no record, whatever it is made of. -/
theorem toRecordAt_of_lt (command : Command) :
    ∀ {level : Nat}, level ≤ maxNesting → maxNesting < level + command.depth →
      toRecordAt level command = .error (.nesting maxNesting none) := by
  induction command using tree_induction with
  | node command induction =>
      intro level start reach
      have nonempty : command.subs ≠ [] := by
        intro childless
        rw [depth_of_subs_eq_nil childless] at reach
        omega
      have tooDeep :
          ∃ sub ∈ command.subs, maxNesting < level + 1 + sub.depth := by
        by_contra none
        simp only [not_exists, not_and, Nat.not_lt] at none
        have bounded : command.depth ≤ maxNesting - level := by
          apply depth_le_iff.mpr
          intro sub member
          have inside := none sub member
          omega
        omega
      cases command with
      | mk name args options subs named =>
          rw [toRecordAt, toRecordsAt_eq_mapM]
          by_cases deep : maxNesting < level + 1
          · rw [if_pos ⟨deep, nonempty⟩]
          · have further : level + 1 ≤ maxNesting := Nat.not_lt.mp deep
            have failed : subs.mapM (toRecordAt (level + 1)) =
                .error (.nesting maxNesting none) := by
              apply Outcome.mapM_eq_error
              · intro sub member
                by_cases within : level + 1 + sub.depth ≤ maxNesting
                · exact .inl ⟨sub.plain, toRecordAt_of_le sub within⟩
                · exact .inr
                    (induction sub member further (Nat.not_le.mp within))
              · obtain ⟨sub, member, beyond⟩ := tooDeep
                exact ⟨sub, member, induction sub member further beyond⟩
            rw [if_neg (fun both => deep both.1), failed]
            rfl

theorem toRecord_eq_ok_iff {record : Record} :
    command.toRecord = .ok record ↔
      command.depth ≤ maxNesting ∧ command.plain = record := by
  rw [toRecord]
  by_cases within : command.depth ≤ maxNesting
  · rw [toRecordAt_of_le command (by omega)]
    simp [within]
  · rw [toRecordAt_of_lt command (Nat.zero_le _) (by omega)]
    simp [within]

theorem toRecord_eq_error_iff {error : Error} :
    command.toRecord = .error error ↔
      error = .nesting maxNesting none ∧ maxNesting < command.depth := by
  rw [toRecord]
  by_cases within : command.depth ≤ maxNesting
  · rw [toRecordAt_of_le command (by omega)]
    simp [within]
  · have deep : maxNesting < command.depth := Nat.not_le.mp within
    rw [toRecordAt_of_lt command (Nat.zero_le _) (by omega)]
    simp [deep, eq_comm]

theorem nesting_not_mem_ownRefusals {limit : Int} {position : Option Int} :
    .nesting limit position ∉ (nameRefusal? command.name).toList ++
      command.options.flatMap fun option => (keyRefusal? option.1).toList := by
  simp only [List.mem_append, List.mem_flatMap, Option.mem_toList]
  rintro (named | ⟨option, -, keyed⟩)
  · unfold nameRefusal? at named
    split at named
    · cases named
    · split at named <;> cases named
  · unfold keyRefusal? at keyed
    split at keyed <;> cases keyed

theorem toRecord_of_mem_allRefusals {limit : Int} {position : Option Int}
    (member : .nesting limit position ∈ command.allRefusals 0) :
    command.toRecord = .error (.nesting limit position) := by
  obtain ⟨entry, met, refused⟩ := List.mem_flatMap.mp member
  have reach := level_add_depth_le_of_mem_preorder met
  rw [refusals, List.mem_append] at refused
  have blocked := refused.resolve_left nesting_not_mem_ownRefusals
  split at blocked
  · rename_i deep
    have inside := one_le_depth deep.1
    exact toRecord_eq_error_iff.mpr ⟨List.mem_singleton.mp blocked, by omega⟩
  · cases blocked

theorem everywhere_writable_of_spelled
    (spelled : command.Everywhere fun node =>
      (∃ written, ofName style.escapeBreaks node.name = .ok written) ∧
        ∀ option ∈ node.options,
          ∃ written, ofKey style.escapeBreaks option.1 = .ok written) :
    command.Everywhere Writable := by
  apply spelled.mono
  intro node here
  obtain ⟨name, keys⟩ := here
  constructor
  · exact (exists_ofName_iff node.name_ne_empty).mp name
  · intro option member
    exact exists_ofKey_iff.mp (keys option member)

/-- A command has a record exactly when it reaches down no further than the
limit, and the command can be made again from its record.  Writing a command
fails for its depth only if it has no record, and if its names and option keys
can be spelled it fails exactly then.  A command that was read has a record and
can be written. -/
theorem toRecord_nesting_limit (command : Command) :
    ((∃ record, command.toRecord = .ok record) ↔ command.depth ≤ maxNesting) ∧
    (∀ error, command.toRecord = .error error ↔
      error = .nesting maxNesting none ∧ maxNesting < command.depth) ∧
    (∀ record, command.toRecord = .ok record → record.toCommand = .ok command) ∧
    (∀ style limit position,
      command.render style = .error (.nesting limit position) →
      command.toRecord = .error (.nesting limit position)) ∧
    (∀ style : Style, (command.Everywhere fun node =>
        (∃ written, ofName style.escapeBreaks node.name = .ok written) ∧
          ∀ option ∈ node.options,
            ∃ written, ofKey style.escapeBreaks option.1 = .ok written) →
      ((∃ error, command.render style = .error error) ↔
        ∃ error, command.toRecord = .error error)) ∧
    ∀ (limit : DepthLimit) text commands,
      Script.parse limit.value text = .ok commands →
      command ∈ commands → (command.depth : Int) ≤ limit.value ∧
        (∃ record, command.toRecord = .ok record) ∧
          ∀ style, ∃ written, command.render style = .ok written := by
  have recorded : (∃ record, command.toRecord = .ok record) ↔
      command.depth ≤ maxNesting := by
    simp [toRecord_eq_ok_iff]
  refine ⟨recorded, fun _ => toRecord_eq_error_iff, ?_, ?_, ?_, ?_⟩
  · intro record success
    obtain ⟨-, rfl⟩ := toRecord_eq_ok_iff.mp success
    exact toCommand_plain command
  · intro style limit position failed
    have first := render_meets.eq_error_iff.mp failed
    exact toRecord_of_mem_allRefusals (List.mem_of_mem_head? first)
  · intro style spelled
    have writable := everywhere_writable_of_spelled spelled
    rw [Outcome.exists_error_iff, Outcome.exists_error_iff, exists_render_iff,
      recorded]
    simp [writable]
  · intro limit text commands success member
    have positive := limit.one_le
    have most := limit.le_maxNesting
    have reach : (command.depth : Int) ≤ limit.value :=
      Script.depth_le_of_parse (by omega) success command member
    have within : command.depth ≤ maxNesting := by omega
    have writable := Script.writable_of_parse success command member
    exact ⟨reach, recorded.mpr within, fun style =>
      exists_render_iff.mpr ⟨writable, within⟩⟩

/-- A chain of commands that just has a record, and the next longer one. -/
example : (nest "a" 256 { name := "b" } >>= toRecord).isOk = true ∧
    (nest "a" 257 { name := "b" } >>= toRecord).isOk = false := by
  decide +kernel

end Command

end CommandScript
