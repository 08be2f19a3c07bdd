import CommandScript.Text.Space

/-!
# Integer numerals

An integer given as a text may be dressed up: white space around it, a sign,
zeros in front, a fraction of zeros, and underscores between digits.
`Numeral.splitSign` takes the sign off and `Numeral.plain` the rest of the
dress, so that digits without a zero in front are left.  A text that is dressed
up in any other way keeps the character at fault, and so is no plain numeral.
-/

namespace CommandScript

namespace Numeral

/-- Why a text is not read as an integer. -/
inductive Fault where
  | malformed
  | oversized
  deriving DecidableEq, Repr

/-- The most characters that a plain numeral may have, a minus sign included. -/
def maxLength : Nat := 4300

/-- Whether a text starts with a minus sign, and what follows its sign. -/
def splitSign : List Char → Bool × List Char
  | [] => (false, [])
  | first :: rest =>
      if first = '-' then (true, rest)
      else if first = '+' then (false, rest)
      else (false, first :: rest)

/-- Zeros in front of a numeral, and underscores among them, add nothing. -/
def isFiller (char : Char) : Bool :=
  char == '0' || char == '_'

/-- Takes the zeros in front of an unsigned numeral away; where no other digit
follows, the last of them stays. -/
def dropZeros (text : List Char) : List Char :=
  let filler := text.takeWhile isFiller
  let rest := text.dropWhile isFiller
  if text.head? ≠ some '0' then text
  else if rest.head?.any Char.isDigit then rest
  else filler.drop (filler.length - 1) ++ rest

/-- Takes a fraction away that consists of zeros, at least one. -/
def dropFraction (text : List Char) : List Char :=
  let fraction := (text.dropWhile (· != '.')).drop 1
  if !fraction.isEmpty && fraction.all (· == '0') then text.takeWhile (· != '.')
  else text

/-- Takes the underscores away, unless one stands at either end or next to
another. -/
def dropUnderscores (text : List Char) : List Char :=
  let doubled :=
    (text.zip text.tail).any fun pair => pair.1 == '_' && pair.2 == '_'
  if doubled || text.head? == some '_' || text.getLast? == some '_' then text
  else text.filter (· != '_')

/-- An unsigned numeral without its dress. -/
def plain (text : List Char) : List Char :=
  dropUnderscores (dropFraction (dropZeros text))

/-- The number that a sequence of decimal digits stands for. -/
def ofDigits (digits : List Char) : Nat :=
  digits.foldl (fun number digit => 10 * number + (digit.toNat - '0'.toNat)) 0

/-- The integer of a plain numeral and its sign.  Too many digits are reported
even if more is wrong after them. -/
def readPlain (negative : Bool) (text : List Char) : Except Fault Int :=
  let digits := text.takeWhile Char.isDigit
  let rest := text.dropWhile Char.isDigit
  if digits.isEmpty || (digits.head? == some '0' && digits.length > 1) then
    .error .malformed
  else if negative.toNat + digits.length > maxLength then .error .oversized
  else if !rest.isEmpty then .error .malformed
  else .ok (if negative then -(ofDigits digits) else ofDigits digits)

/-- The integer that a text stands for. -/
def read (text : String) : Except Fault Int :=
  let signed := splitSign (trimSpace text.toList)
  readPlain signed.1 (plain signed.2)

end Numeral

end CommandScript
