import CommandScript.Text.Printable

/-!
# Displaying a text inside a message

A message shows a text between single quotes, or between double quotes when
the text has a single quote and no double one.  The delimiter and the backslash
are preceded by a backslash, the common line and tab characters have letters,
and any other unprintable character is shown by its code in hexadecimal.
-/

namespace CommandScript

/-- The hexadecimal digits of a number, at least `width` of them. -/
def hexDigits (width number : Nat) : List Char :=
  let digits := Nat.toDigits 16 number
  List.replicate (width - digits.length) '0' ++ digits

/-- The code of an unprintable character: two, four or eight digits, whichever
is the least that holds every code point of its size. -/
def displayCode (char : Char) : List Char :=
  let code := char.toNat
  if code < 0x100 then '\\' :: 'x' :: hexDigits 2 code
  else if code < 0x10000 then '\\' :: 'u' :: hexDigits 4 code
  else '\\' :: 'U' :: hexDigits 8 code

/-- One character as it is shown between two `delimiter`s. -/
def displayChar (delimiter char : Char) : List Char :=
  if char = delimiter ∨ char = '\\' then ['\\', char]
  else if char = '\n' then ['\\', 'n']
  else if char = '\r' then ['\\', 'r']
  else if char = '\t' then ['\\', 't']
  else if isPrintable char then [char]
  else displayCode char

/-- The delimiter that avoids an escape where one of the two does. -/
def displayDelimiter (text : List Char) : Char :=
  if text.contains '\'' && !text.contains '"' then '"' else '\''

/-- A text between delimiters, on one line and in printable characters only. -/
def display (text : String) : String :=
  let chars := text.toList
  let delimiter := displayDelimiter chars
  String.ofList (delimiter :: chars.flatMap (displayChar delimiter) ++
    [delimiter])

end CommandScript
