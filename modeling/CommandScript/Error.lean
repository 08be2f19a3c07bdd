import CommandScript.Location
import CommandScript.Token.Basic

/-!
# Failures

Every way in which reading, building or writing a script can fail, as a value
that names its cause, and the message that goes with it.  Failures of the
scanner carry a location in the text; failures of grouping carry the offset of
the token at fault where there is one.
-/

namespace CommandScript

/-- Why a text cannot be divided into tokens. -/
inductive LexicalReason where
  | endOfText
  | unknownEscape
  | loneReturn
  | strayChar
  | quotedAfterTerm
  | unquotedAfterTerm
  | other (text : String)
  deriving DecidableEq, Repr

def LexicalReason.text : LexicalReason → String
  | endOfText => "Unexpected EOF"
  | unknownEscape => "Unexpected escape sequence"
  | loneReturn => "Unexpected standalone \\r"
  | strayChar => "Unexpected char"
  | quotedAfterTerm => "Back-to-back quoted strings"
  | unquotedAfterTerm => "Back-to-back quoted string then unquoted term"
  | other text => text

/-- A scanning failure at an offset, before it is located in a text. -/
structure LexicalFault where
  reason : LexicalReason
  position : Nat
  deriving DecidableEq, Repr

/-- Why tokens cannot be grouped into commands. -/
inductive StructuralReason where
  | loneBackslash
  | loneAnd
  | unmatchedClose
  | unclosedOpen
  | blockWithoutCommand
  | nameNotUnquoted
  | itemAfterBlock
  | notAValue (kind : Kind)
  | other (text : String)
  deriving DecidableEq, Repr

def StructuralReason.text : StructuralReason → String
  | loneBackslash => "Unexpected standalone token Backslash"
  | loneAnd => "Unexpected standalone token And"
  | unmatchedClose => "Unmatched CloseBrace"
  | unclosedOpen => "Unclosed OpenBrace"
  | blockWithoutCommand => "Found subcommand block without outer command"
  | nameNotUnquoted => "Command name must be an unquoted term"
  | itemAfterBlock =>
      "Extra tokens after subcommand block without linebreak or AndAnd"
  | notAValue kind => "Expected a value, got " ++ kind.label
  | other text => text

/-- What is wrong with the value given for a setting. -/
inductive SettingCause where
  | notAnInteger
  | unreadableInteger
  | oversizedInteger
  | belowLeast (least : Int)
  | aboveMost (most : Int)
  | notABoolean
  | unreadableBoolean
  deriving DecidableEq, Repr

def SettingCause.text : SettingCause → String
  | notAnInteger => "int_type: Input should be a valid integer"
  | unreadableInteger =>
      "int_parsing: Input should be a valid integer, unable to parse string as an integer"
  | oversizedInteger =>
      "int_parsing_size: Unable to parse input string as an integer, exceeded maximum size"
  | belowLeast least =>
      "greater_than_equal: Input should be greater than or equal to " ++
        toString least
  | aboveMost most =>
      "less_than_equal: Input should be less than or equal to " ++ toString most
  | notABoolean => "bool_type: Input should be a valid boolean"
  | unreadableBoolean =>
      "bool_parsing: Input should be a valid boolean, unable to interpret input"

structure SettingFault where
  field : String
  cause : SettingCause
  deriving DecidableEq, Repr

def SettingFault.text (fault : SettingFault) : String :=
  fault.field ++ ": " ++ fault.cause.text

/-- A failure and its cause. -/
inductive Error where
  /-- The text cannot be divided into tokens. -/
  | lexical (reason : LexicalReason) (position : Int)
      (location : Option Location)
  /-- The tokens cannot be grouped into commands. -/
  | structural (reason : StructuralReason) (position : Option Int)
  /-- Blocks nest deeper than `limit`. -/
  | nesting (limit : Int) (position : Option Int)
  /-- Another number of things was found than was asked for. -/
  | arity (expected actual : Int) (counted : String)
  /-- A command was given no name. -/
  | emptyName
  /-- An option was given by a number of fields other than two. -/
  | optionFields (count : Nat)
  /-- Every spelling of the name reads back as a separator. -/
  | separatorName (name : String)
  /-- The name starts with a character that starts no term. -/
  | unwritableName (name : String)
  /-- Every spelling of the option key `--` ends the options. -/
  | separatorKey
  /-- The number of segments of a template does not fit its values. -/
  | segmentCount (values segments : Nat)
  /-- An offset lies outside the text. -/
  | offsetOutOfRange
  /-- Settings were refused. -/
  | settings (faults : List SettingFault)
  deriving DecidableEq, Repr

namespace Error

/-- The text of a nesting failure without its position. -/
def nestingReason (limit : Int) : String :=
  "Nesting depth exceeds maximum of " ++ toString limit

def placed (reason : String) (position : Int) : String :=
  reason ++ " at(" ++ toString position ++ ")"

/-- A reason followed by the offset it applies to, if there is one. -/
def placed? (reason : String) : Option Int → String
  | none => reason
  | some position => placed reason position

def message : Error → String
  | lexical reason position none => placed reason.text position
  | lexical reason position (some location) =>
      placed reason.text position ++ "\n" ++ location.render
  | structural reason position => placed? reason.text position
  | nesting limit position => placed? (nestingReason limit) position
  | arity expected actual counted =>
      "Expected " ++ toString expected ++ " " ++ counted ++ ", got " ++
        toString actual
  | emptyName => "Command name must be a non-empty string"
  | optionFields count =>
      if count < 2 then
        "not enough values to unpack (expected 2, got " ++ toString count ++ ")"
      else "too many values to unpack (expected 2)"
  | separatorName name =>
      "Command name " ++ display name ++
        " cannot be written, it reads back as a separator"
  | unwritableName name =>
      "Command name " ++ display name ++
        " cannot be written, it must start with a nonquoted character"
  | separatorKey =>
      "Option key '--' cannot be written, it reads back as the positional separator"
  | segmentCount values segments =>
      "Expected " ++ toString (values + 1) ++ " template segments for " ++
        toString values ++ " values, got " ++ toString segments
  | offsetOutOfRange => "string index out of range"
  | settings faults => "; ".intercalate (faults.map SettingFault.text)

/-- A scanning failure placed in the text that was scanned. -/
def ofLexicalFault (text : List Char) (fault : LexicalFault) : Error :=
  lexical fault.reason fault.position
    (some (Location.ofOffset text fault.position))

end Error

end CommandScript
