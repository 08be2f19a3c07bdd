import CommandScript.Text.Display

/-!
# Tokens

A script is read as a sequence of tokens.  Control tokens separate and group
commands; quoted and unquoted tokens carry the decoded text of a term.  Each
token remembers the offset where it was found, which takes part in messages
only: two tokens with the same symbol mean the same.
-/

namespace CommandScript

/-- What a token is, leaving out its value and its place. -/
inductive Kind where
  | lineBreak
  | andAnd
  | and
  | backslash
  | openBrace
  | closeBrace
  | quoted
  | unquoted
  deriving DecidableEq, Repr

namespace Kind

/-- Every kind once. -/
def all : List Kind :=
  [lineBreak, andAnd, and, backslash, openBrace, closeBrace, quoted, unquoted]

/-- The name of a kind as messages show it. -/
def label : Kind → String
  | lineBreak => "LINE_BREAK"
  | andAnd => "AND_AND"
  | and => "AND"
  | backslash => "BACKSLASH"
  | openBrace => "OPEN_BRACE"
  | closeBrace => "CLOSE_BRACE"
  | quoted => "QUOTED"
  | unquoted => "UNQUOTED"

def ofLabel? (text : String) : Option Kind :=
  all.find? fun kind => kind.label == text

/-- Kinds whose tokens carry a text. -/
def hasText : Kind → Bool
  | quoted | unquoted => true
  | _ => false

theorem mem_all (kind : Kind) : kind ∈ all := by
  cases kind <;> decide

end Kind

/-- What a token says: its kind, with the decoded text where the kind has
one. -/
inductive Symbol where
  | lineBreak
  | andAnd
  | and
  | backslash
  | openBrace
  | closeBrace
  | quoted (value : String)
  | unquoted (value : String)
  deriving DecidableEq, Repr

namespace Symbol

def kind : Symbol → Kind
  | lineBreak => .lineBreak
  | andAnd => .andAnd
  | and => .and
  | backslash => .backslash
  | openBrace => .openBrace
  | closeBrace => .closeBrace
  | quoted _ => .quoted
  | unquoted _ => .unquoted

/-- The decoded text of a content symbol. -/
def value? : Symbol → Option String
  | quoted value | unquoted value => some value
  | _ => none

/-- The symbol of a kind, with `value` where the kind carries a text. -/
def ofKind (kind : Kind) (value : String) : Symbol :=
  match kind with
  | .lineBreak => lineBreak
  | .andAnd => andAnd
  | .and => and
  | .backslash => backslash
  | .openBrace => openBrace
  | .closeBrace => closeBrace
  | .quoted => quoted value
  | .unquoted => unquoted value

/-- The label of a symbol, followed by its text where it has one. -/
def display (symbol : Symbol) : String :=
  match symbol.value? with
  | none => symbol.kind.label
  | some value => symbol.kind.label ++ "(" ++ CommandScript.display value ++ ")"

/-- The symbol of an unquoted term.  The separators `&&` and `&` are recognised
by the decoded value, however the term was spelled. -/
def ofTerm (value : String) : Symbol :=
  if value = "&&" then andAnd
  else if value = "&" then and
  else unquoted value

@[simp]
theorem kind_ofKind (kind : Kind) (value : String) :
    (ofKind kind value).kind = kind := by
  cases kind <;> rfl

theorem value?_isSome (symbol : Symbol) :
    symbol.value?.isSome = symbol.kind.hasText := by
  cases symbol <;> rfl

end Symbol

/-- A symbol and the offset where it starts; `-1` where there is none. -/
structure Token where
  symbol : Symbol
  position : Int := -1
  deriving DecidableEq, Repr

end CommandScript
