import Mathlib.Data.List.Basic

/-!
# The lines of a text

Only a line feed ends a line.  So a text has one line more than it has line
feeds, and its lines with a line feed behind each make up the text with one
behind it.
-/

namespace CommandScript

/-- What stands between the line feeds of a text. -/
def textLines (text : List Char) : List (List Char) :=
  text.splitOn '\n'

/-- Lines one after another, with a line feed behind each. -/
def terminated (lines : List (List Char)) : List Char :=
  lines.flatMap fun line => line ++ ['\n']

/-- The room that lines take up with a line feed behind each. -/
def extent (lines : List (List Char)) : Nat :=
  (terminated lines).length

variable {text line : List Char} {lines others : List (List Char)}

theorem terminated_cons :
    terminated (line :: lines) = line ++ '\n' :: terminated lines := by
  rw [terminated, List.flatMap_cons, List.append_assoc]
  rfl

theorem terminated_append :
    terminated (lines ++ others) = terminated lines ++ terminated others :=
  List.flatMap_append

theorem terminated_eq_intercalate (some : lines ≠ []) :
    terminated lines = ['\n'].intercalate lines ++ ['\n'] := by
  induction lines with
  | nil => exact absurd rfl some
  | cons line lines induction =>
      rw [terminated_cons]
      cases lines with
      | nil =>
          rw [List.intercalate_singleton]
          rfl
      | cons next lines =>
          rw [List.intercalate_cons_cons, List.append_assoc,
            ← induction (List.cons_ne_nil _ _), List.append_assoc]
          rfl

@[simp]
theorem extent_nil : extent [] = 0 := rfl

@[simp]
theorem extent_cons :
    extent (line :: lines) = line.length + 1 + extent lines := by
  simp only [extent, terminated_cons, List.length_append, List.length_cons]
  omega

@[simp]
theorem extent_append :
    extent (lines ++ others) = extent lines + extent others := by
  rw [extent, terminated_append, List.length_append]
  rfl

theorem textLines_ne_nil (text : List Char) : textLines text ≠ [] :=
  List.splitOn_ne_nil _ _

theorem textLines_append (text rest : List Char) :
    textLines (text ++ '\n' :: rest) = textLines text ++ textLines rest :=
  List.splitOn_append_cons_self text rest

/-- The lines of a text grow with it from the back: a line feed puts an empty
line in front, another character becomes the first one of the first line. -/
theorem textLines_induction {motive : List Char → List (List Char) → Prop}
    (nil : motive [] [[]])
    (lineBreak : ∀ {text lines}, motive text lines →
      motive ('\n' :: text) ([] :: lines))
    (visible : ∀ {char text first later}, char ≠ '\n' →
      motive text (first :: later) →
      motive (char :: text) ((char :: first) :: later))
    (text : List Char) : motive text (textLines text) := by
  induction text with
  | nil => exact nil
  | cons char text induction =>
      by_cases feed : char = '\n'
      · subst feed
        have grown : textLines ('\n' :: text) = [] :: textLines text :=
          textLines_append [] text
        rw [grown]
        exact lineBreak induction
      · obtain ⟨first, later, whole⟩ :=
          List.exists_cons_of_ne_nil (textLines_ne_nil text)
        have grown : textLines (char :: text) =
            (textLines text).modifyHead (char :: ·) := by
          rw [textLines, List.splitOn_cons_eq_if_modifyHead,
            if_neg (by simpa using feed)]
          rfl
        rw [whole] at induction
        rw [grown, whole]
        exact visible feed induction

theorem length_textLines (text : List Char) :
    (textLines text).length = text.count '\n' + 1 := by
  induction text using textLines_induction with
  | nil => rfl
  | lineBreak induction =>
      rw [List.length_cons, induction, List.count_cons_self]
  | visible feed induction =>
      rw [List.count_cons_of_ne feed]
      exact induction

theorem terminated_textLines (text : List Char) :
    terminated (textLines text) = text ++ ['\n'] := by
  rw [terminated_eq_intercalate (textLines_ne_nil text), textLines,
    List.intercalate_splitOn]

theorem extent_textLines (text : List Char) :
    extent (textLines text) = text.length + 1 := by
  rw [extent, terminated_textLines, List.length_append]
  rfl

theorem lineBreak_not_mem_of_mem_textLines (text : List Char) :
    ∀ line ∈ textLines text, '\n' ∉ line := by
  induction text using textLines_induction with
  | nil => simp
  | lineBreak induction => simpa using induction
  | visible feed induction =>
      obtain ⟨first, later⟩ := List.forall_mem_cons.mp induction
      rw [List.forall_mem_cons, List.mem_cons, not_or]
      exact ⟨⟨Ne.symm feed, first⟩, later⟩

theorem textLines_of_not_mem (flat : '\n' ∉ text) : textLines text = [text] :=
  List.splitOn_eq_singleton flat

theorem textLines_intercalate (some : lines ≠ [])
    (flat : ∀ line ∈ lines, '\n' ∉ line) :
    textLines (['\n'].intercalate lines) = lines :=
  List.splitOn_intercalate '\n' flat some

/-- Text behind a line feed and a margin is a line of its own behind the
margin. -/
theorem intercalate_margin (margin : List Char) {texts : List (List Char)}
    (some : texts ≠ []) :
    ('\n' :: margin) ++ ('\n' :: margin).intercalate texts ++ ['\n'] =
      '\n' :: texts.flatMap fun text => margin ++ text ++ ['\n'] := by
  induction texts with
  | nil => exact absurd rfl some
  | cons text texts induction =>
      rw [List.flatMap_cons]
      cases texts with
      | nil => simp
      | cons next texts =>
          have others := induction (List.cons_ne_nil _ _)
          rw [List.intercalate_cons_cons]
          simp only [List.append_assoc, List.cons_append] at others ⊢
          rw [List.nil_append, others]

end CommandScript
