import MiniLisp.Text.Range

/-!
# Blank characters

The characters that separate tokens and that surround a line without belonging to it.
-/

namespace MiniLisp.Text

def blankRanges : Ranges :=
  [(0x09, 0x0D), (0x1C, 0x20), (0x85, 0x85), (0xA0, 0xA0), (0x1680, 0x1680), (0x2000, 0x200A),
   (0x2028, 0x2029), (0x202F, 0x202F), (0x205F, 0x205F), (0x3000, 0x3000)]

def isBlank (c : Char) : Bool := blankRanges.contains c

def trim (p : Char → Bool) (cs : List Char) : List Char :=
  ((cs.dropWhile p).reverse.dropWhile p).reverse

def strip (text : String) : String := String.ofList (trim isBlank text.toList)

end MiniLisp.Text
