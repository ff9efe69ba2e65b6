/-!
# Blank characters

The characters of the `White_Space` property.  Trimming, word splitting and the blank class of
search patterns all mean this one set.
-/

namespace DocComment

/-- A character of the `White_Space` property: the ASCII blanks, next line, no-break space, and the
spaces and separators of the general punctuation and ideographic blocks. -/
def isBlank (c : Char) : Bool :=
  let n := c.toNat
  (9 ≤ n && n ≤ 13) || n == 0x20 || n == 0x85 || n == 0xA0 || n == 0x1680 ||
    (0x2000 ≤ n && n ≤ 0x200A) || n == 0x2028 || n == 0x2029 || n == 0x202F ||
    n == 0x205F || n == 0x3000

end DocComment
