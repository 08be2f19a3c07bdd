import CommandScript.Text.Charset

/-!
# Writing quoted strings

A text is put between quote marks so that it reads back unchanged.  A backslash
is always escaped, line ends on request.  The first mark that the text does not
hold delimits it; a text that holds all three is delimited by three marks of one
kind, and three such marks in a row inside are broken up by an escape before the
last.
-/

namespace CommandScript

namespace Spelling

/-- A character as it is written inside quotes. -/
def escapeChar (escapeBreaks : Bool) (char : Char) : List Char :=
  if char = '\\' then ['\\', '\\']
  else if escapeBreaks && char = '\r' then ['\\', 'r']
  else if escapeBreaks && char = '\n' then ['\\', 'n']
  else [char]

/-- A text with its backslashes, and its line ends if `escapeBreaks`,
escaped. -/
def escape (escapeBreaks : Bool) (text : List Char) : List Char :=
  text.flatMap (escapeChar escapeBreaks)

/-- The marks in the order in which they are preferred. -/
def preferredMarks : List Char := ['\x60', '"', '\'']

/-- The preferred mark that does not occur in a text. -/
def absentMark? (text : List Char) : Option Char :=
  preferredMarks.find? fun mark => !text.contains mark

/-- The mark to write three times around a text: one that neither starts nor
ends it, tried in the order double quote, single quote; else the backquote. -/
def tripleMark (text : List Char) : Char :=
  (['"', '\''].find? fun mark =>
    text.head? != some mark && text.getLast? != some mark).getD '\x60'

/-- Breaks up each three marks in a row, from the left. -/
def breakTriples (mark : Char) : List Char → List Char
  | first :: second :: third :: rest =>
      if first = mark ∧ second = mark ∧ third = mark then
        mark :: mark :: '\\' :: mark :: breakTriples mark rest
      else first :: breakTriples mark (second :: third :: rest)
  | [first, second] => [first, second]
  | [first] => [first]
  | [] => []

/-- A text between quote marks. -/
def quoteChars (escapeBreaks : Bool) (text : List Char) : List Char :=
  let escaped := escape escapeBreaks text
  match absentMark? escaped with
  | some mark => mark :: escaped ++ [mark]
  | none =>
      let mark := tripleMark escaped
      let delimiter := List.replicate 3 mark
      delimiter ++ breakTriples mark escaped ++ delimiter

def quote (escapeBreaks : Bool) (text : String) : String :=
  String.ofList (quoteChars escapeBreaks text.toList)

end Spelling

end CommandScript
