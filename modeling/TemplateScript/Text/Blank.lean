import TemplateScript.Text.CharRanges

/-!
# Blank characters

White space in the wide sense: the ASCII controls that move the cursor or separate records, and the
Unicode spaces and line separators. `trim` takes such characters off both ends of a text.
-/

namespace TemplateScript.Text

def blankRanges : CharRanges :=
  [(0x9, 0xd), (0x1c, 0x20), (0x85, 0x85), (0xa0, 0xa0), (0x1680, 0x1680), (0x2000, 0x200a),
   (0x2028, 0x2029), (0x202f, 0x202f), (0x205f, 0x205f), (0x3000, 0x3000)]

def isBlank (c : Char) : Bool := blankRanges.contains c

def trim (cs : List Char) : List Char :=
  ((cs.dropWhile isBlank).reverse.dropWhile isBlank).reverse

end TemplateScript.Text
