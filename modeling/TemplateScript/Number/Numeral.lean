import TemplateScript.Number.Power
import TemplateScript.Text.Blank
import TemplateScript.Text.DecimalDigit

/-!
# Decimal numerals of whole numbers

Numerals are written with ASCII digits and read with the digits of any script. Neither way may a
numeral have more than `digitLimit` digits.
-/

namespace TemplateScript.Numeral

def digitLimit : Nat := 4300

/-- Blanks around a numeral: all but the ASCII record separators. -/
def isPadding (c : Char) : Bool := Text.isBlank c && !(0x1c ≤ c.toNat && c.toNat ≤ 0x1f)

/-- The digits of a numeral without its sign; between two digits an underscore may stand. -/
def digits? : List Char → Option (List Nat)
  | [] => none
  | [c] => (Text.digitValue? c).map ([·])
  | c :: '_' :: r => (Text.digitValue? c).bind fun d => (digits? r).map (d :: ·)
  | c :: r => (Text.digitValue? c).bind fun d => (digits? r).map (d :: ·)

def value (ds : List Nat) : Nat := ds.foldl (fun n d => 10 * n + d) 0

def magnitude? (cs : List Char) : Option Nat :=
  (digits? cs).bind fun ds => if ds.length ≤ digitLimit then some (value ds) else none

def trim (cs : List Char) : List Char :=
  ((cs.dropWhile isPadding).reverse.dropWhile isPadding).reverse

def read? (s : String) : Option Int :=
  match trim s.toList with
  | '-' :: r => (magnitude? r).map fun n => -(n : Int)
  | '+' :: r => (magnitude? r).map Int.ofNat
  | r => (magnitude? r).map Int.ofNat

def write? (n : Int) : Option String :=
  if n.natAbs < tenTo digitLimit then some (toString n) else none

end TemplateScript.Numeral
