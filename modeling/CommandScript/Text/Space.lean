/-!
# White space around a text

The white space characters of the character database.  Only the notation's own
blanks separate terms; this wider class is what may surround a value that is
given from outside.
-/

namespace CommandScript

/-- Intervals of code points that are white space, in increasing order. -/
def spaceRanges : List (Nat × Nat) :=
  [(0x9, 0xd), (0x20, 0x20), (0x85, 0x85), (0xa0, 0xa0), (0x1680, 0x1680),
   (0x2000, 0x200a), (0x2028, 0x2029), (0x202f, 0x202f), (0x205f, 0x205f),
   (0x3000, 0x3000)]

/-- A character is white space when its code point lies in an interval of
`spaceRanges`. -/
def isSpace (char : Char) : Bool :=
  spaceRanges.any fun range => range.1 ≤ char.toNat && char.toNat ≤ range.2

/-- A text without the white space at its two ends. -/
def trimSpace (text : List Char) : List Char :=
  ((text.dropWhile isSpace).reverse.dropWhile isSpace).reverse

end CommandScript
