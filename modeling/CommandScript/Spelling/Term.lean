import CommandScript.Command.Operands
import CommandScript.Error
import CommandScript.Spelling.Quote

/-!
# Writing values, names and option keys

Each of the three is written bare where that reads back unchanged, and with
quotes otherwise.  A value is quoted as a whole.  A name and an option key must
read back as unquoted terms, so a name keeps its leading run of bare characters
outside the quotes and a key its leading dashes.  The names `&` and `&&`, names
that start with a character no term starts with, and the key `--` cannot be
written at all.
-/

namespace CommandScript

namespace Spelling

/-- A value longer than this is written in quotes. -/
def maxBareValue : Nat := 50

/-- An option key longer than this is written in quotes. -/
def maxBareKey : Nat := 100

/-- Whether all characters of a text may stand outside quotes. -/
def isBareText (text : String) : Bool :=
  text.toList.all isBare

/-- Whether a value has to be quoted to read back as that value. -/
def valueNeedsQuotes (value : String) : Bool :=
  value.toList.isEmpty || value.toList.length > maxBareValue ||
    startsWithDash value || value.toList.head? == some '&' || !isBareText value

/-- Whether an option key has to be quoted apart from its dashes. -/
def keyNeedsQuotes (key : String) : Bool :=
  key.toList.length > maxBareKey || !isBareText key

theorem valueNeedsQuotes_eq_false_iff {value : String} :
    valueNeedsQuotes value = false ↔
      value ≠ "" ∧ value.toList.length ≤ maxBareValue ∧
        startsWithDash value = false ∧ value.toList.head? ≠ some '&' ∧
        isBareText value = true := by
  simp [valueNeedsQuotes, and_assoc]

theorem keyNeedsQuotes_eq_false_iff {key : String} :
    keyNeedsQuotes key = false ↔
      key.toList.length ≤ maxBareKey ∧ isBareText key = true := by
  simp [keyNeedsQuotes]

/-- A value as it is written. -/
def ofValue (escapeBreaks : Bool) (value : String) : String :=
  if valueNeedsQuotes value then quote escapeBreaks value else value

def ofName (escapeBreaks : Bool) (name : String) : Except Error String :=
  if name = "&" ∨ name = "&&" then .error (.separatorName name)
  else if isBareText name then .ok name
  else
    let bare := name.toList.takeWhile isBare
    let rest := name.toList.dropWhile isBare
    if bare.isEmpty then .error (.unwritableName name)
    else .ok (String.ofList (bare ++ quoteChars escapeBreaks rest))

def ofKey (escapeBreaks : Bool) (key : String) : Except Error String :=
  if key = positionalMark then .error .separatorKey
  else if !keyNeedsQuotes key then .ok key
  else
    .ok <| String.ofList <|
      match key.toList with
      | '-' :: '-' :: rest => '-' :: '-' :: quoteChars escapeBreaks rest
      | '-' :: rest => '-' :: quoteChars escapeBreaks rest
      | chars => quoteChars escapeBreaks chars

end Spelling

end CommandScript
