import CommandScript.Token.Basic

/-!
# Line continuations

A backslash at the end of a line, or an `&` at the start of one, joins the line
to its neighbour: the two tokens cancel each other.  Cancelling one pair can
bring another together, so the tokens are kept as a stack whose top is compared
with each token that arrives.
-/

namespace CommandScript

namespace Symbol

/-- Two neighbours that cancel each other. -/
def cancels : Symbol → Symbol → Bool
  | backslash, lineBreak => true
  | lineBreak, and => true
  | _, _ => false

end Symbol

namespace Continuation

/-- Puts a token on the stack, or takes the top off when the two cancel. -/
def push : List Token → Token → List Token
  | [], token => [token]
  | top :: below, token =>
      if top.symbol.cancels token.symbol then below else token :: top :: below

/-- The tokens that remain when all continuations have been cancelled from left
to right. -/
def cancel (tokens : List Token) : List Token :=
  (tokens.foldl push []).reverse

end Continuation

end CommandScript
