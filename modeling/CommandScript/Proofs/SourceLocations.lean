import CommandScript.Location
import CommandScript.Proofs.TextLines
import Mathlib.Data.List.DropRight

/-!
# Locations name one place

A location is found by looking for the line feeds around an offset.  What it
names can be told from the lines of the text instead: the offset is as far from
the start of its line as the column says, and the lines before that one fill the
text up to there.  There is only one such line and column for each offset.

The shown location keeps the caret under the character at the offset, unless
that one is not shown because it is at the end of its line.
-/

namespace CommandScript

namespace Location

variable {text line : List Char}

/-- The offset stands at a column of one line of the text, the line's number
being `number`.  Both count from one, and right behind the line there is one
more column. -/
def StandsIn (text : List Char) (offset : Int) (line : List Char)
    (number column : Int) : Prop :=
  ∃ earlier later, textLines text = earlier ++ line :: later ∧
    number = earlier.length + 1 ∧
    1 ≤ column ∧ column ≤ line.length + 1 ∧
      offset = extent earlier + (column - 1)

theorem extent_lt_of_length_lt {earlier later others rest : List (List Char)}
    {other : List Char}
    (same : earlier ++ line :: later = others ++ other :: rest)
    (before : earlier.length < others.length) :
    extent earlier + line.length + 1 ≤ extent others := by
  have front : earlier ++ [line] <+: others ++ other :: rest :=
    ⟨later, by rw [← same, List.append_assoc]; rfl⟩
  have shorter : (earlier ++ [line]).length ≤ others.length := by
    simpa using Nat.succ_le_of_lt before
  obtain ⟨between, whole⟩ :=
    List.prefix_of_prefix_length_le front (List.prefix_append _ _) shorter
  rw [← whole, extent_append, extent_append, extent_cons, extent_nil]
  omega

/-- An offset stands in one line only, at one column. -/
theorem StandsIn.unique {offset number column otherNumber otherColumn : Int}
    {other : List Char} (stands : StandsIn text offset line number column)
    (also : StandsIn text offset other otherNumber otherColumn) :
    line = other ∧ number = otherNumber ∧ column = otherColumn := by
  obtain ⟨earlier, later, whole, rfl, first, last, place⟩ := stands
  obtain ⟨others, rest, same, rfl, otherFirst, otherLast, otherPlace⟩ := also
  rw [whole] at same
  rcases Nat.lt_trichotomy earlier.length others.length with
    before | level | behind
  · have ends := extent_lt_of_length_lt same before
    omega
  · obtain ⟨rfl, tails⟩ := List.append_inj same level
    obtain ⟨rfl, -⟩ := List.cons.inj tails
    exact ⟨rfl, rfl, by omega⟩
  · have ends := extent_lt_of_length_lt same.symm behind
    omega

theorem lineBreak_not_mem_lastLine (text : List Char) :
    '\n' ∉ lastLine text := by
  intro member
  rw [lastLine, List.mem_reverse] at member
  simpa using List.mem_takeWhile_imp member

theorem eq_takeWhile_or (text : List Char) :
    text = text.takeWhile (· != '\n') ∨
      ∃ back, text = text.takeWhile (· != '\n') ++ '\n' :: back := by
  have whole := List.takeWhile_append_dropWhile (p := (· != '\n')) (l := text)
  cases rest : text.dropWhile (· != '\n') with
  | nil =>
      left
      rw [rest, List.append_nil] at whole
      exact whole.symm
  | cons feed back =>
      right
      have stopped := List.head?_dropWhile_not (· != '\n') text
      rw [rest] at stopped
      obtain rfl : feed = '\n' := by simpa using stopped
      rw [rest] at whole
      exact ⟨back, whole.symm⟩

/-- The last line is all of the text or stands behind the last line feed. -/
theorem eq_lastLine_or (text : List Char) :
    text = lastLine text ∨ ∃ front, text = front ++ '\n' :: lastLine text := by
  rcases eq_takeWhile_or text.reverse with whole | ⟨back, whole⟩
  · left
    exact List.reverse_eq_iff.mp whole
  · right
    refine ⟨back.reverse, ?_⟩
    have mirrored := List.reverse_eq_iff.mp whole
    rwa [List.reverse_append, List.reverse_cons, List.append_assoc] at mirrored

theorem exists_textLines_append {start : List Char} (flat : '\n' ∉ start)
    (text : List Char) :
    ∃ later, textLines (start ++ text) =
      (start ++ text.takeWhile (· != '\n')) :: later := by
  have flatRest : '\n' ∉ start ++ text.takeWhile (· != '\n') := by
    rw [List.mem_append, not_or]
    refine ⟨flat, fun member => ?_⟩
    simpa using List.mem_takeWhile_imp member
  rcases eq_takeWhile_or text with whole | ⟨back, whole⟩
  · refine ⟨[], ?_⟩
    rw [← whole] at flatRest ⊢
    exact textLines_of_not_mem flatRest
  · refine ⟨textLines back, ?_⟩
    rw [congrArg (start ++ ·) whole, ← List.append_assoc, textLines_append,
      textLines_of_not_mem flatRest]
    rfl

/-- Where a text is cut in two, the last line of the front goes on in the first
line of the rest. -/
theorem exists_textLines_cut (before after : List Char) :
    ∃ earlier later, textLines (before ++ after) =
        earlier ++ (lastLine before ++ after.takeWhile (· != '\n')) :: later ∧
      earlier.length = before.count '\n' ∧
      before.length = extent earlier + (lastLine before).length := by
  have flat := lineBreak_not_mem_lastLine before
  obtain ⟨later, following⟩ := exists_textLines_append flat after
  rcases eq_lastLine_or before with whole | ⟨front, whole⟩
  · refine ⟨[], later, ?_, ?_, ?_⟩
    · rw [← whole] at following ⊢
      exact following
    · rw [whole, List.count_eq_zero.mpr flat]
      rfl
    · rw [← whole, extent_nil, Nat.zero_add]
  · refine ⟨textLines front, later, ?_, ?_, ?_⟩
    · rw [← following, ← textLines_append]
      congr 1
      simpa using congrArg (· ++ after) whole
    · rw [length_textLines, whole, List.count_append, List.count_cons_self,
        List.count_eq_zero.mpr flat]
    · rw [extent_textLines, congrArg List.length whole, List.length_append,
        List.length_cons]
      omega

/-- The line around an offset, with the carriage returns at its end. -/
def lineAround (text : List Char) (offset : Nat) : List Char :=
  lastLine (text.take offset) ++ (text.drop offset).takeWhile (· != '\n')

theorem lineAround_mem_textLines (text : List Char) (offset : Nat) :
    lineAround text offset ∈ textLines text := by
  obtain ⟨earlier, later, whole, -⟩ :=
    exists_textLines_cut (text.take offset) (text.drop offset)
  rw [List.take_append_drop] at whole
  rw [whole]
  exact List.mem_append_right _ List.mem_cons_self

theorem clamp_eq (text : List Char) (position : Int) :
    (clamp text position : Int) = max 0 (min position text.length) := by
  unfold clamp
  omega

/-- What a location names is a line and a column at which its offset stands. -/
theorem standsIn_ofOffset (text : List Char) (position : Int) :
    StandsIn text (clamp text position) (lineAround text (clamp text position))
      (ofOffset text position).line (ofOffset text position).column := by
  have within : clamp text position ≤ text.length := Nat.min_le_right _ _
  obtain ⟨earlier, later, whole, count, place⟩ := exists_textLines_cut
    (text.take (clamp text position)) (text.drop (clamp text position))
  rw [List.take_append_drop] at whole
  rw [List.length_take, Nat.min_eq_left within] at place
  refine ⟨earlier, later, whole, ?_, ?_, ?_, ?_⟩
  · simp [ofOffset, count]
  · simp only [ofOffset]
    omega
  · simp only [ofOffset, lineAround, List.length_append]
    omega
  · simp only [ofOffset]
    omega

theorem getElem?_lineAround {offset : Nat}
    (within : (lastLine (text.take offset)).length <
      (lineAround text offset).length) :
    (lineAround text offset)[(lastLine (text.take offset)).length]? =
      text[offset]? := by
  rw [lineAround, List.length_append] at within
  rw [lineAround, List.getElem?_append_right (Nat.le_refl _), Nat.sub_self]
  cases rest : text.drop offset with
  | nil => simp [rest] at within
  | cons char rest' =>
      have found : text[offset]? = some char := by
        rw [← Nat.add_zero offset, ← List.getElem?_drop, rest]
        rfl
      rw [rest] at within
      by_cases feed : char = '\n'
      · simp [feed] at within
      · simp [found, feed]

theorem trimReturns_spec (line : List Char) :
    (∃ returns, line = trimReturns line ++ List.replicate returns '\r') ∧
      (trimReturns line).getLast? ≠ some '\r' := by
  have whole := List.rdropWhile_append_rtakeWhile (p := (· == '\r')) (l := line)
  constructor
  · refine ⟨(line.rtakeWhile (· == '\r')).length, ?_⟩
    have returns : line.rtakeWhile (· == '\r') =
        List.replicate (line.rtakeWhile (· == '\r')).length '\r' := by
      apply List.eq_replicate_iff.mpr
      exact ⟨rfl,
        fun char member => by simpa using List.mem_rtakeWhile_imp member⟩
    rw [← returns]
    exact whole.symm
  · intro last
    obtain ⟨front, ends⟩ := List.getLast?_eq_some_iff.mp last
    have nonempty : line.rdropWhile (· == '\r') ≠ [] := by
      rw [show line.rdropWhile (· == '\r') = trimReturns line from rfl, ends]
      simp
    have other := List.rdropWhile_last_not (· == '\r') line nonempty
    have same : (line.rdropWhile (· == '\r')).getLast nonempty = '\r' := by
      apply Option.some.inj
      rw [← List.getLast?_eq_some_getLast nonempty]
      exact last
    exact other (by rw [same]; rfl)

theorem lineBreak_not_mem_repr (number : Int) : '\n' ∉ number.repr.toList := by
  have digits : ∀ count : Nat, '\n' ∉ count.repr.toList := by
    intro count member
    rw [Nat.toList_repr] at member
    exact absurd (Nat.isDigit_of_mem_toDigits (by decide) (by decide) member)
      (by decide)
  rw [Int.repr_eq_if]
  split
  · exact digits _
  · rw [String.toList_append, List.mem_append, not_or]
    exact ⟨by decide, digits _⟩

/-- A location with a source line is shown on three lines, the last of which has
a caret as far behind the first ten characters as the column says. -/
theorem exists_textLines_render {location : Location}
    (shown : location.lineText ≠ "") (flat : '\n' ∉ location.lineText.toList) :
    ∃ place, textLines location.render.toList =
      [place, "  source: ".toList ++ location.lineText.toList,
        List.replicate (10 + (location.column - 1).toNat) ' ' ++ ['^']] := by
  let place := ("  at line " ++ toString location.line ++ ", column " ++
    toString location.column).toList
  have lines : location.render.toList = ['\n'].intercalate
      [place, "  source: ".toList ++ location.lineText.toList,
        List.replicate (10 + (location.column - 1).toNat) ' ' ++ ['^']] := by
    rw [render, if_neg shown, List.replicate_add]
    simp [place, List.intercalate_cons_cons]
  refine ⟨place, ?_⟩
  rw [lines]
  apply textLines_intercalate (List.cons_ne_nil _ _)
  have line := lineBreak_not_mem_repr location.line
  have column := lineBreak_not_mem_repr location.column
  simp [place, flat, line, column]

theorem getElem?_sourceLine (text : List Char) (index : Nat) :
    ("  source: ".toList ++ text)[10 + index]? = text[index]? := by
  have width : "  source: ".toList.length = 10 := by decide
  rw [List.getElem?_append_right (by omega), width, Nat.add_sub_cancel_left]

theorem column_ofOffset (text : List Char) (position : Int) :
    (ofOffset text position).column =
      (lastLine (text.take (clamp text position))).length + 1 := rfl

theorem toList_lineText_ofOffset (text : List Char) (position : Int) :
    (ofOffset text position).lineText.toList =
      trimReturns (lineAround text (clamp text position)) := by
  simp [ofOffset, lineAround]

/-- As long as the column is within the source line, the caret is under the
character at the offset. -/
theorem exists_caret {position : Int}
    (within : (ofOffset text position).column ≤
      (ofOffset text position).lineText.toList.length) :
    ∃ place char,
      textLines (ofOffset text position).render.toList =
        [place, "  source: ".toList ++ (ofOffset text position).lineText.toList,
          List.replicate (10 + ((ofOffset text position).column - 1).toNat)
            ' ' ++ ['^']] ∧
      ("  source: ".toList ++ (ofOffset text position).lineText.toList)[
        10 + ((ofOffset text position).column - 1).toNat]? = some char ∧
      text[clamp text position]? = some char := by
  obtain ⟨returns, whole⟩ :=
    (trimReturns_spec (lineAround text (clamp text position))).1
  rw [← toList_lineText_ofOffset] at whole
  rw [column_ofOffset] at within
  have inside : (lastLine (text.take (clamp text position))).length <
      (ofOffset text position).lineText.toList.length := by
    omega
  have shown : (ofOffset text position).lineText ≠ "" := by
    intro empty
    simp [empty] at inside
  have flat : '\n' ∉ (ofOffset text position).lineText.toList := by
    have unbroken := lineBreak_not_mem_of_mem_textLines text _
      (lineAround_mem_textLines text (clamp text position))
    intro member
    rw [whole] at unbroken
    exact unbroken (List.mem_append_left _ member)
  have reaches : (lastLine (text.take (clamp text position))).length <
      (lineAround text (clamp text position)).length := by
    rw [whole, List.length_append]
    omega
  have found := getElem?_lineAround reaches
  rw [whole, List.getElem?_append_left inside,
    List.getElem?_eq_getElem inside] at found
  obtain ⟨place, lines⟩ := exists_textLines_render shown flat
  refine ⟨place, _, lines, ?_, found.symm⟩
  rw [getElem?_sourceLine, column_ofOffset, Int.add_sub_cancel,
    Int.toNat_natCast, List.getElem?_eq_getElem inside]

/-- A location names its offset by the one line and column at which it stands in
the text.  The source line is that line without the carriage returns at its end,
and as long as the column is within it, the caret is shown under the character
at the offset. -/
theorem ofOffset_exact (text : List Char) (position : Int) :
    let location := ofOffset text position
    location.position = max 0 (min position text.length) ∧
    ∃ line,
      (∀ other number column,
        StandsIn text location.position other number column ↔
          other = line ∧ number = location.line ∧ column = location.column) ∧
      (∃ returns,
        line = location.lineText.toList ++ List.replicate returns '\r') ∧
      location.lineText.toList.getLast? ≠ some '\r' ∧
      (location.column ≤ location.lineText.toList.length →
        let caret := 10 + (location.column - 1).toNat
        ∃ place char,
          textLines location.render.toList =
            [place, "  source: ".toList ++ location.lineText.toList,
              List.replicate caret ' ' ++ ['^']] ∧
          ("  source: ".toList ++ location.lineText.toList)[caret]? =
            some char ∧
          text[location.position.toNat]? = some char) := by
  obtain ⟨returns, last⟩ :=
    trimReturns_spec (lineAround text (clamp text position))
  rw [← toList_lineText_ofOffset] at returns last
  refine ⟨clamp_eq text position, lineAround text (clamp text position), ?_,
    returns, last, exists_caret⟩
  intro other number column
  have stands := standsIn_ofOffset text position
  constructor
  · intro also
    exact also.unique stands
  · rintro ⟨rfl, rfl, rfl⟩
    exact stands

end Location

end CommandScript
