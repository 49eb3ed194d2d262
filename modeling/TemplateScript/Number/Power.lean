/-!
# Powers of two and ten

The exponent is a whole number; below zero it counts as zero.
-/

namespace TemplateScript

def twoTo (e : Int) : Nat := Nat.pow 2 e.toNat

def tenTo (e : Int) : Nat := Nat.pow 10 e.toNat

end TemplateScript
