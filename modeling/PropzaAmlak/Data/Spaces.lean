import Mathlib.Data.List.Basic

/-! White space in texts, and texts without it. -/

namespace Text

/-- `c.isspace()`, which is also what `\s` matches. -/
def isSpace (c : Char) : Bool :=
  let n := c.toNat
  (9 ≤ n && n ≤ 13) || (28 ≤ n && n ≤ 32) || [0x85, 0xa0, 0x1680, 0x2028, 0x2029, 0x202f, 0x205f, 0x3000].contains n ||
    (0x2000 ≤ n && n ≤ 0x200a)

/-- `text.strip()` -/
def strip (text : List Char) : List Char := ((text.dropWhile isSpace).reverse.dropWhile isSpace).reverse

end Text
