/-
Blanks, and texts without the blanks around them, as `parse` reads lines.

* `Text.isBlank`, `Text.isBlankWord`: the tabs, line ends and spaces that count as blank, as
  characters of a string and as words of a text. Each of them is a single word.
* `Text.trim`: the text from its first to its last word that is not blank.
-/
import MatrixSymbol.Text.Words

namespace MatrixSymbol

namespace Text

/-- The blank characters beyond ASCII: the no-break space, the spaces and separators of general
punctuation, the ideographic space and the byte-order mark. -/
def wideBlanks : List Nat :=
  [0xA0, 0x1680, 0x2000, 0x2001, 0x2002, 0x2003, 0x2004, 0x2005, 0x2006, 0x2007, 0x2008, 0x2009,
    0x200A, 0x2028, 0x2029, 0x202F, 0x205F, 0x3000, 0xFEFF]

/-- Whether a code is that of a blank: a tab, a line end, a space of any width, or the byte-order
mark. -/
def isBlankCode (n : Nat) : Bool :=
  n = 0x20 || (0x09 ≤ n && n ≤ 0x0D) || wideBlanks.contains n

/-- A character that counts as blank. -/
def isBlank (c : Char) : Bool := isBlankCode c.toNat

/-- A word that counts as blank. -/
def isBlankWord (w : UInt16) : Bool := isBlankCode w.toNat

/-- The words from the first to the last that is not blank. -/
def trim (ws : Words) : Words :=
  ((ws.dropWhile isBlankWord).reverse.dropWhile isBlankWord).reverse

end Text

end MatrixSymbol
