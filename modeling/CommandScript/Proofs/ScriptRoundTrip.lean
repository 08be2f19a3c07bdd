import CommandScript.Proofs.CommandTexts
import CommandScript.Proofs.ParsedCommands
import CommandScript.Settings

/-!
# Written scripts read back

Where line ends are escaped or blocks stay on one line, a script that was
written is read back unchanged if every option key starts with a dash and the
reader accepts as many levels as there are.  What is read always is of this
form, so no other commands can be read back.
-/

namespace CommandScript

namespace Style

/-- What happens to the texts of commands that are written and read back. -/
def displacement (style : Style) : TextChange where
  apply := style.displaced
  apply_ne_empty := displaced_ne_empty

end Style

theorem IsOptionKey.displaced {key : String} (isKey : IsOptionKey key)
    (style : Style) (levels : Nat) :
    IsOptionKey (style.displaced levels key) := by
  constructor
  · rw [Spelling.startsWithDash_displaced, isKey.dash]
  · cases bare : Spelling.isBareText key with
    | true =>
        rw [Style.displaced_of_isBareText bare]
        exact isKey.notMark
    | false => exact Spelling.displaced_ne_of_not_bare bare (by decide)

namespace Command

variable {style : Style}

theorem DashLed.keysApart {command : Command} (dashLed : command.DashLed) :
    command.KeysApart := by
  intro option member
  have dash := dashLed option member
  exact ⟨Spelling.ne_of_startsWithDash dash rfl,
    Spelling.ne_of_startsWithDash dash rfl⟩

theorem DashLed.isOptionKey {command : Command} (dashLed : command.DashLed)
    (writable : command.Writable) :
    ∀ option ∈ command.options, IsOptionKey option.1 := by
  intro option member
  exact ⟨dashLed option member, writable.keys option member⟩

theorem ofWords_operandWords {name : String} (named : name ≠ "")
    (args : List String) {options : List (String × Option String)}
    (subs : List Command) (keys : ∀ option ∈ options, IsOptionKey option.1) :
    ofWords name named (Spelling.operandWords args options) subs =
      ⟨name, args, options, subs, named⟩ := by
  unfold ofWords
  simp only [Operands.ofWords_operandWords args keys]

/-- A command that the reader could have made is read back as itself, apart from
what happens to its texts. -/
theorem readBack_eq_change (style : Style) (command : Command) :
    ∀ level : Nat, command.Everywhere DashLed → command.Everywhere Writable →
      command.readBack style level =
        command.change style.displacement level := by
  induction command using tree_induction with
  | node command induction =>
      intro level dashLed writable
      obtain ⟨dashHere, dashBelow⟩ := everywhere_iff.mp dashLed
      obtain ⟨writableHere, writableBelow⟩ := everywhere_iff.mp writable
      have below : command.subs.map (readBack style (level + 1)) =
          command.subs.map (change style.displacement (level + 1)) := by
        apply List.map_congr_left
        intro sub member
        exact induction sub member (level + 1) (dashBelow sub member)
          (writableBelow sub member)
      have keys : ∀ option ∈ command.options.map (style.displacedOption level),
          IsOptionKey option.1 := by
        intro option member
        obtain ⟨source, inside, rfl⟩ := List.mem_map.mp member
        have isKey := dashHere.isOptionKey writableHere source inside
        exact isKey.displaced style level
      rw [readBack_eq, below, words, ofWords_operandWords _ _ _ keys, change_eq]
      rfl

theorem change_of_settled (settled : style.Settled) (command : Command) :
    ∀ level : Nat, command.change style.displacement level = command := by
  induction command using tree_induction with
  | node command induction =>
      intro level
      apply change_eq_self_iff.mpr
      constructor
      · intro text _
        exact Style.displaced_of_settled settled text
      · intro sub member
        exact induction sub member (level + 1)

theorem readBack_eq_self (settled : style.Settled) (command : Command)
    (level : Nat) (dashLed : command.Everywhere DashLed)
    (writable : command.Everywhere Writable) :
    command.readBack style level = command := by
  rw [readBack_eq_change style command level dashLed writable,
    change_of_settled settled]

end Command

namespace Script

open Command Grammar

variable {style : Style} {limit : Int} {commands : List Command} {text : String}

theorem reads_renderAll (success : renderAll style commands = .ok text) :
    Reads text.toList
      ([.lineBreak].intercalate (commands.map (symbols style 0))) := by
  obtain ⟨texts, written, same⟩ := Outcome.bind_eq_ok_iff.mp success
  obtain rfl := Outcome.pure_eq_ok_iff.mp same
  have each := reads_each (fun command _ _ => reads_renderAt command) written
  have unmoved : texts.map (style.shift 0) = texts :=
    List.map_id'' style.shift_zero texts
  rw [unmoved] at each
  rw [String.toList_ofList]
  exact reads_intercalate (separatorText_lineBreak (List.forall_mem_nil _)) each

/-- A written script is read back as what its commands are read back as. -/
theorem parse_renderAll (success : renderAll style commands = .ok text)
    (keys : ∀ command ∈ commands, command.Everywhere KeysApart)
    (reach : ∀ command ∈ commands, (command.depth : Int) ≤ limit) :
    parse limit text = .ok (commands.map (readBack style 0)) := by
  apply parse_of_reads (reads_renderAll success)
  apply isScript_intercalate (.inl rfl)
  rw [List.forall₂_map_left_iff, List.forall₂_map_right_iff, List.forall₂_same]
  intro command member
  apply isLine_symbols style command (keys command member)
  simpa using reach command member

theorem parse_renderAll_of_dashLed (settled : style.Settled)
    (success : renderAll style commands = .ok text)
    (dashLed : ∀ command ∈ commands, command.Everywhere DashLed)
    (reach : ∀ command ∈ commands, (command.depth : Int) ≤ limit) :
    parse limit text = .ok commands := by
  have writable := exists_renderAll_iff.mp ⟨text, success⟩
  have same : commands.map (readBack style 0) = commands := by
    apply (List.map_congr_left _).trans (List.map_id commands)
    intro command member
    exact readBack_eq_self settled command 0 (dashLed command member)
      (writable command member).1
  have keys : ∀ command ∈ commands, command.Everywhere KeysApart := by
    intro command member
    exact (dashLed command member).mono fun _ => DashLed.keysApart
  have read := parse_renderAll success keys reach
  rwa [same] at read

theorem renderAll_singleton {command : Command}
    (success : render style command = .ok text) :
    renderAll style [command] = .ok text := by
  obtain ⟨chars, written, same⟩ := Outcome.bind_eq_ok_iff.mp success
  obtain rfl := Outcome.pure_eq_ok_iff.mp same
  have each : renderEachAt style 0 [command] = .ok [chars] :=
    renderEachAt_eq_ok_iff.mpr (.cons written .nil)
  apply Outcome.bind_eq_ok_iff.mpr
  refine ⟨[chars], each, ?_⟩
  apply Outcome.pure_eq_ok_iff.mpr
  simp

/-- Commands that are written in a settled style are read back unchanged exactly
when every option key starts with a dash and no command nests deeper than the
reader allows. -/
theorem parse_renderAll_eq_ok_iff (style : Style) (settled : style.Settled)
    (limit : DepthLimit) :
    (∀ commands text, renderAll style commands = .ok text →
      (parse limit.value text = .ok commands ↔
        ∀ command ∈ commands,
          command.Everywhere DashLed ∧ (command.depth : Int) ≤ limit.value)) ∧
    ∀ command text, render style command = .ok text →
      command.Everywhere DashLed →
      (command.depth : Int) ≤ limit.value →
      parseSingle limit.value text = .ok command := by
  constructor
  · intro commands text success
    constructor
    · intro read command member
      have positive := limit.one_le
      exact ⟨dashLed_of_parse read command member,
        depth_le_of_parse (by omega) read command member⟩
    · intro shape
      exact parse_renderAll_of_dashLed settled success
        (fun command member => (shape command member).1)
        (fun command member => (shape command member).2)
  · intro command text success dashLed reach
    have read : parse limit.value text = .ok [command] :=
      parse_renderAll_of_dashLed settled (renderAll_singleton success)
        (by simpa using dashLed) (by simpa using reach)
    rw [parseSingle, read]
    rfl

theorem parse_renderAll_run :
    parse 64 "run `a b` -k `&&` \x7b\n\tlog\n\x7d" = .ok [
      { name := "run", args := ["a b"], options := [("-k", some "&&")],
        subs := [{ name := "log" }] }] := by
  apply ((parse_renderAll_eq_ok_iff {} (.inl rfl) DepthLimit.default).1
    _ _ rfl).mpr
  intro command member
  cases List.mem_singleton.mp member
  constructor
  · simp [Everywhere, EverywhereAmong, DashLed, startsWithDash]
  · decide

/-- Commands that were read can be written in every style.  In a settled style
they are read back from what was written, and writing them again changes
nothing. -/
theorem renderAll_of_parse (limit : DepthLimit) (text : String)
    (commands : List Command)
    (success : parse limit.value text = .ok commands) :
    (∀ style, ∃ normal, renderAll style commands = .ok normal) ∧
    ∀ style normal, style.Settled → renderAll style commands = .ok normal →
      parse limit.value normal = .ok commands ∧
      (parse limit.value normal >>= renderAll style) = .ok normal := by
  have dashLed := dashLed_of_parse success
  have writable := writable_of_parse success
  have reach : ∀ command ∈ commands, (command.depth : Int) ≤ limit.value := by
    have positive := limit.one_le
    exact depth_le_of_parse (by omega) success
  constructor
  · intro style
    apply exists_renderAll_iff.mpr
    intro command member
    have shallow := reach command member
    have most := limit.le_maxNesting
    exact ⟨writable command member, by omega⟩
  · intro style normal settled written
    have read : parse limit.value normal = .ok commands :=
      parse_renderAll_of_dashLed settled written dashLed reach
    constructor
    · exact read
    · apply Outcome.bind_eq_ok_iff.mpr
      exact ⟨commands, read, written⟩

theorem renderAll_of_parse_fused :
    (parse 64 "a'b' \\\n -x 1 && c \x7b \x7d" >>= renderAll {}) =
      .ok "ab -x 1\nc" ∧
      (parse 64 "ab -x 1\nc" >>= renderAll {}) = .ok "ab -x 1\nc" := by
  have read : parse 64 "a'b' \\\n -x 1 && c \x7b \x7d" =
      .ok [{ name := "ab", options := [("-x", some "1")] },
        { name := "c" }] := by
    decide +kernel
  constructor
  · rw [read]
    rfl
  · exact ((renderAll_of_parse DepthLimit.default _ _ read).2
      {} _ (.inl rfl) rfl).2

end Script

end CommandScript
