import TemplateScript.Number.Double

/-!
# The shortest decimal of a double

Among the decimals that round to a double, those with the fewest digits, and of these the nearest;
of two equally near ones the even one. Decimal grids are tried from coarse to fine, on each the two
neighbours of the value.
-/

namespace TemplateScript.Double

structure Decimal where
  digits : Nat
  exponent : Int
  deriving DecidableEq, Repr

/-- The decimal on the grid of step `10 ^ j` that rounds to `m * 2 ^ q`, if there is one. All is
measured in quarters of the binary unit; the gap below a power of two is half as wide. -/
def onGrid? (m : Nat) (q j : Int) : Option Decimal :=
  let a := twoTo (q - 2) * tenTo (-j)
  let d := twoTo (2 - q) * tenTo j
  let c := 4 * m * a / d
  let below := 4 * m * a % d
  let above := d - below
  let gapBelow := if m = hiddenBit ∧ -1074 < q then a else 2 * a
  let gapAbove := 2 * a
  let reaches (distance gap : Nat) := distance < gap ∨ distance = gap ∧ m % 2 = 0
  if reaches below gapBelow then
    if reaches above gapAbove ∧ (above < below ∨ above = below ∧ c % 2 = 1) then some ⟨c + 1, j⟩
    else some ⟨c, j⟩
  else if reaches above gapAbove then some ⟨c + 1, j⟩
  else none

/-- An exponent of ten that no decimal near `m * 2 ^ q` needs to exceed. -/
def coarsest (m : Nat) (q : Int) : Int := ((m.log2 + 1 + q) * 30103).fdiv 100000 + 2

def shortest (m : Nat) (q : Int) : Decimal :=
  ((List.range 24).findSome? fun (i : Nat) => onGrid? m q (coarsest m q - i)).getD ⟨0, 0⟩

def zeros (n : Int) : List Char := List.replicate n.toNat '0'

/-- The digits with a point, positional while the first digit stands between the fourth place behind
the point and the sixteenth ahead of it, otherwise with an exponent of at least two digits. -/
def Decimal.render (x : Decimal) : List Char :=
  let ds := Nat.toDigits 10 x.digits
  let point : Int := ds.length + x.exponent
  if point ≤ -4 ∨ 16 < point then
    let e := point - 1
    let es := Nat.toDigits 10 e.natAbs
    ds.take 1 ++ (if ds.length = 1 then [] else '.' :: ds.drop 1)
      ++ 'e' :: (if e < 0 then '-' else '+') :: (zeros (2 - es.length) ++ es)
  else if point ≤ 0 then '0' :: '.' :: zeros (-point) ++ ds
  else if x.exponent < 0 then ds.take point.toNat ++ '.' :: ds.drop point.toNat
  else ds ++ zeros x.exponent ++ ['.', '0']

def render (x : Float) : String :=
  match shape x with
  | .nan => "nan"
  | .infinite negative => if negative then "-inf" else "inf"
  | .finite negative m q =>
    let text := if m = 0 then ['0', '.', '0'] else (shortest m q).render
    String.ofList (if negative then '-' :: text else text)

end TemplateScript.Double
