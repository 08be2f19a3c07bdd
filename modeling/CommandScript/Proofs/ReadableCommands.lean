import CommandScript.Proofs.ScriptRoundTrip

/-!
# Which commands can be read

Some commands are read from no text: their name could not come from a term, or
an option key could not come from a word, or they nest too deep.  All others are
read from the text that the writer makes of them.  Arguments and option values
may be any texts.
-/

namespace CommandScript

namespace Command

/-- The name could come from an unquoted term, and every option key from a word
that opens an option. -/
structure Readable (command : Command) : Prop where
  name : Spelling.WritableName command.name
  keys : ∀ option ∈ command.options, IsOptionKey option.1

theorem readable_iff {command : Command} :
    command.Readable ↔ command.DashLed ∧ command.Writable := by
  constructor
  · intro readable
    constructor
    · intro option member
      exact (readable.keys option member).dash
    · exact ⟨readable.name, fun option member =>
        (readable.keys option member).notMark⟩
  · intro parts
    obtain ⟨dashLed, writable⟩ := parts
    exact ⟨writable.name, dashLed.isOptionKey writable⟩

theorem everywhere_readable_iff {command : Command} :
    command.Everywhere Readable ↔
      command.Everywhere DashLed ∧ command.Everywhere Writable := by
  constructor
  · intro readable
    exact ⟨readable.mono fun _ here => (readable_iff.mp here).1,
      readable.mono fun _ here => (readable_iff.mp here).2⟩
  · intro parts
    obtain ⟨dashLed, writable⟩ := parts
    exact (dashLed.and writable).mono fun _ here => readable_iff.mpr here

end Command

namespace Script

open Command

/-- Commands are read from some text exactly when the name and the option keys
of each of them, at every level, could come from a text, and none nests deeper
than the reader allows. -/
theorem exists_parse_eq_ok_iff (limit : DepthLimit) (commands : List Command) :
    (∃ text, parse limit.value text = .ok commands) ↔
      ∀ command ∈ commands,
        command.Everywhere Readable ∧ (command.depth : Int) ≤ limit.value := by
  constructor
  · intro read command member
    obtain ⟨text, success⟩ := read
    have positive := limit.one_le
    have dashLed := dashLed_of_parse success command member
    have writable := writable_of_parse success command member
    have reach : (command.depth : Int) ≤ limit.value :=
      depth_le_of_parse (by omega) success command member
    exact ⟨everywhere_readable_iff.mpr ⟨dashLed, writable⟩, reach⟩
  · intro shape
    have most := limit.le_maxNesting
    have written : ∃ text, renderAll {} commands = .ok text := by
      apply exists_renderAll_iff.mpr
      intro command member
      obtain ⟨readable, reach⟩ := shape command member
      exact ⟨(everywhere_readable_iff.mp readable).2, by omega⟩
    obtain ⟨text, success⟩ := written
    refine ⟨text, parse_renderAll_of_dashLed (.inl rfl) success ?_ ?_⟩
    · intro command member
      exact (everywhere_readable_iff.mp (shape command member).1).1
    · intro command member
      exact (shape command member).2

end Script

end CommandScript
