import CommandScript.Token.Basic

/-!
# Lines and blocks

A line is what stands between two separators: tokens and blocks.  A block holds
the lines between a pair of braces and remembers where it was opened.  Positions
are kept for messages only, so that lines are compared without them.
-/

namespace CommandScript

/-- A token, or the lines between a pair of braces opened at `position`. -/
inductive Item where
  | token (content : Token)
  | block (lines : List (List Item)) (position : Int)
  deriving Repr

/-- The items between two separators. -/
abbrev Line := List Item

namespace Item

def position : Item → Int
  | .token content => content.position
  | .block _ start => start

mutual

/-- Equality of items apart from positions, at every depth.  A token and a
block are never the same. -/
def same : Item → Item → Bool
  | .token left, .token right => left.symbol == right.symbol
  | .block left _, .block right _ => sameLines left right
  | _, _ => false

/-- Line counterpart of `Item.same`. -/
def sameLine : List Item → List Item → Bool
  | [], [] => true
  | left :: lefts, right :: rights => same left right && sameLine lefts rights
  | _, _ => false

/-- Counterpart of `Item.same` for the lines of a block. -/
def sameLines : List (List Item) → List (List Item) → Bool
  | [], [] => true
  | left :: lefts, right :: rights =>
      sameLine left right && sameLines lefts rights
  | _, _ => false

end

end Item

end CommandScript
