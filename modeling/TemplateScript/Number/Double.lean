import TemplateScript.Number.Power

/-!
# Doubles as exact numbers

A finite double is a whole number times a power of two. `ofRatio?` is the double nearest to a
fraction, a tie going to the even one; it fails where that is beyond the largest double. Conversion
of whole numbers, their inexact quotients and the remainder of doubles are all made from it.
-/

namespace TemplateScript.Double

inductive Shape where
  | nan
  | infinite (negative : Bool)
  | finite (negative : Bool) (mantissa : Nat) (exponent : Int)
  deriving DecidableEq, Repr

def signBit : Nat := 0x8000000000000000

/-- The place of the exponent, and the bit that a mantissa has without its being written. -/
def hiddenBit : Nat := 0x10000000000000

def shape (x : Float) : Shape :=
  let bits := x.toBits.toNat
  let negative := decide (signBit ≤ bits)
  let biased : Nat := bits / hiddenBit % 2048
  let fraction : Nat := bits % hiddenBit
  if biased = 2047 then if fraction = 0 then .infinite negative else .nan
  else if biased = 0 then .finite negative fraction (-1074)
  else .finite negative (hiddenBit + fraction) ((biased : Int) - 1075)

/-- The quotient to the nearest whole number, a half to the even one. -/
def roundHalfEven (num den : Nat) : Nat :=
  let q := num / den
  let r := num % den
  if 2 * r < den ∨ 2 * r = den ∧ q % 2 = 0 then q else q + 1

/-- A fraction measured in units of `2 ^ e`. -/
def inUnits (num den : Nat) (e : Int) : Nat × Nat :=
  (num * twoTo (-e), den * twoTo e)

/-- The exponent of the last of 53 binary places of a positive fraction, or of the last place that a
double has at all. -/
def lastPlace (num den : Nat) : Int :=
  let e : Int := num.log2 - den.log2 - 53
  let (n, d) := inUnits num den e
  max (-1074) (if n < d * (2 * hiddenBit) then e else e + 1)

def ofBits (negative : Bool) (magnitude : Nat) : Float :=
  Float.ofBits ((if negative then signBit else 0) + magnitude).toUInt64

def infinityBits : Nat := 2047 * hiddenBit

def ofRatio? (negative : Bool) (num den : Nat) : Option Float :=
  if num = 0 then some (ofBits negative 0)
  else
    let e := lastPlace num den
    let (n, d) := inUnits num den e
    let magnitude := (e + 1074).toNat * hiddenBit + roundHalfEven n d
    if magnitude < infinityBits then some (ofBits negative magnitude) else none

def ofInt? (n : Int) : Option Float := ofRatio? (n < 0) n.natAbs 1

def ofQuotient? (a b : Int) : Option Float :=
  ofRatio? (decide (a < 0) != decide (b < 0)) a.natAbs b.natAbs

/-- The whole number that a double equals, if there is one. -/
def toInt? (x : Float) : Option Int :=
  match shape x with
  | .finite negative m q =>
    let d := twoTo (-q)
    if m % d = 0 then
      let n : Int := (m / d * twoTo q : Nat)
      some (if negative then -n else n)
    else none
  | _ => none

def isZero (x : Float) : Bool :=
  match shape x with
  | .finite _ 0 _ => true
  | _ => false

def notANumber : Float := Float.ofBits 0x7ff8000000000000

/-- The exact remainder of truncating division, with the sign of the dividend. An infinite or zero
operand in the wrong place has none, unless the other operand is not a number. -/
def remainder? (x y : Float) : Option Float :=
  match shape x, shape y with
  | .nan, _ | _, .nan => some notANumber
  | .infinite _, _ => none
  | .finite .., .infinite _ => some x
  | .finite negative m q, .finite _ n p =>
    if n = 0 then none
    else
      let e := min q p
      let r := m * twoTo (q - e) % (n * twoTo (p - e))
      ofRatio? negative (r * twoTo e) (twoTo (-e))

end TemplateScript.Double
