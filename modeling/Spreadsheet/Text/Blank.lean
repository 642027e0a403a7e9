/-!
# Blank characters

A number, a sheet name or an error code may be surrounded by blanks. Blank means the Unicode property
White_Space: the ASCII blanks, the next-line control, the no-break space and the typographic spaces.
-/

namespace Spreadsheet.Text

/-- The characters of the Unicode property White_Space. -/
def isBlank (c : Char) : Bool :=
  let n := c.toNat
  (9 ≤ n && n ≤ 13) || n == 0x20 || n == 0x85 || n == 0xA0 || n == 0x1680 ||
    (0x2000 ≤ n && n ≤ 0x200A) || n == 0x2028 || n == 0x2029 || n == 0x202F || n == 0x205F ||
    n == 0x3000

/-- Drops the blanks at both ends of a text. -/
def trimBlanks (s : String) : String :=
  String.ofList (((s.toList.dropWhile isBlank).reverse.dropWhile isBlank).reverse)

end Spreadsheet.Text
