/-!
# Character classes of the notation

A script is built from a few kinds of characters: blanks separate terms, quote
marks open and close quoted strings, and bare characters form terms that need
no quotes.  Braces, backslash and line ends have a meaning of their own and
belong to none of these classes.
-/

namespace CommandScript

/-- Blanks separate terms and are otherwise ignored. -/
def isBlank (char : Char) : Bool :=
  char == ' ' || char == '\t'

/-- The three marks that can open a quoted string. -/
def isQuoteMark (char : Char) : Bool :=
  char == '"' || char == '\'' || char == '\x60'

/-- The visible ASCII characters other than quote marks, braces and backslash.
Only these may stand in a term outside quotes. -/
def isBare (char : Char) : Bool :=
  '!' ≤ char && char ≤ '~' &&
    !isQuoteMark char && char != '{' && char != '}' && char != '\\'

/-- The quote marks in code point order. -/
def quoteMarks : List Char := ['"', '\'', '\x60']

/-- The bare characters in code point order. -/
def bareChars : List Char :=
  ((List.range 128).map Char.ofNat).filter isBare

theorem isQuoteMark_iff_mem (char : Char) :
    isQuoteMark char = true ↔ char ∈ quoteMarks := by
  simp [isQuoteMark, quoteMarks, or_assoc]

theorem isBlank_iff (char : Char) :
    isBlank char = true ↔ char = ' ' ∨ char = '\t' := by
  simp [isBlank]

theorem isQuoteMark_iff (char : Char) :
    isQuoteMark char = true ↔ char = '"' ∨ char = '\'' ∨ char = '\x60' := by
  simp [isQuoteMark, or_assoc]

theorem isBare_of_mem_bareChars {char : Char} (member : char ∈ bareChars) :
    isBare char = true :=
  (List.mem_filter.mp member).2

/-- No character is both bare and a quote mark, so a term ends where a quoted
string begins. -/
theorem isQuoteMark_eq_false_of_isBare {char : Char}
    (bare : isBare char = true) : isQuoteMark char = false := by
  simp only [isBare, Bool.and_eq_true, Bool.not_eq_true'] at bare
  exact bare.1.1.1.2

end CommandScript
