import Nominal.Text.CodeSet

/-!
# White space

* `isWhiteSpace`: the characters with the Unicode property `White_Space`.
* `trim`: a text without the white space at its two ends.
-/

namespace Nominal.Text

/-- The characters with the property `White_Space`. -/
def whiteSpace : CodeSet :=
  ⟨[(0x9, 0xd), (0x20, 0x20), (0x85, 0x85), (0xa0, 0xa0), (0x1680, 0x1680), (0x2000, 0x200a),
    (0x2028, 0x2029), (0x202f, 0x202f), (0x205f, 0x205f), (0x3000, 0x3000)],
    by decide⟩

/-- Whether a character has the property `White_Space`. -/
def isWhiteSpace (c : Char) : Bool := whiteSpace.contains c

/-- The text between the white space at its two ends. -/
def trim (cs : List Char) : List Char :=
  ((cs.dropWhile isWhiteSpace).reverse.dropWhile isWhiteSpace).reverse

end Nominal.Text
