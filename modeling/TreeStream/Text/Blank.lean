/-!
# Classes of characters, and blanks

A class of characters is given by the code points that it holds, as closed ranges.  The smallest one
is that of white space in the sense of the Unicode property `White_Space`, which is removed from the
ends of texts.

* `inRanges` looks a code point up.
* `isBlank` decides whether a character is white space.
* `trimChars` and `trim` remove leading and trailing blanks.
* `isBlankLine` says that nothing would be left.
-/

namespace TreeStream.Text
set_option autoImplicit false

/-- The code point lies in one of the ranges. -/
def inRanges (ranges : List (Nat × Nat)) (n : Nat) : Bool :=
  ranges.any fun range => range.1 ≤ n && n ≤ range.2

/-- The character has the property `White_Space`. -/
def isBlank (c : Char) : Bool :=
  let n := c.toNat
  (0x9 ≤ n && n ≤ 0xd) || n == 0x20 || n == 0x85 || n == 0xa0 || n == 0x1680 ||
    (0x2000 ≤ n && n ≤ 0x200a) || n == 0x2028 || n == 0x2029 || n == 0x202f || n == 0x205f ||
    n == 0x3000

/-- The characters without the blanks that end them. -/
def trimEndChars (cs : List Char) : List Char :=
  (cs.reverse.dropWhile isBlank).reverse

/-- The characters without the blanks at either end. -/
def trimChars (cs : List Char) : List Char :=
  trimEndChars (cs.dropWhile isBlank)

/-- The text without the blanks at either end. -/
def trim (s : String) : String :=
  String.ofList (trimChars s.toList)

/-- Nothing but blanks. -/
def isBlankLine (s : String) : Bool :=
  s.toList.all isBlank

end TreeStream.Text
