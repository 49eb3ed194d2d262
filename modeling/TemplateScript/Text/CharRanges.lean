/-!
# Sets of characters as ranges

A set of characters is a list of ranges of code points, both ends included.
-/

namespace TemplateScript.Text

abbrev CharRanges := List (Nat × Nat)

def CharRanges.contains (rs : CharRanges) (c : Char) : Bool :=
  rs.any fun r => r.1 ≤ c.toNat && c.toNat ≤ r.2

end TemplateScript.Text
