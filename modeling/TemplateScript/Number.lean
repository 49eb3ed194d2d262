import TemplateScript.Number.Numeral
import TemplateScript.Number.Shortest

/-!
# Numbers of the script language

A number is a whole number of any size or a double. Whole numbers stay whole under `+`, `-`, `*`,
`%` and under `/` where the quotient is exact; otherwise the operands meet as doubles.
-/

namespace TemplateScript

inductive Number where
  | int (n : Int)
  | real (x : Float)
  deriving Inhabited

namespace Number

def isZero : Number → Bool
  | int n => n = 0
  | real x => Double.isZero x

def toFloat? : Number → Option Float
  | int n => Double.ofInt? n
  | real x => some x

/-- Why an operation has no result. -/
inductive Failure where
  | zeroDivisor
  | overflow
  | unknownOperator
  | domain
  deriving DecidableEq, Repr

def orOverflow {α : Type} : Option α → Except Failure α
  | some a => .ok a
  | none => .error .overflow

def asFloats (a b : Number) : Except Failure (Float × Float) := do
  let x ← orOverflow a.toFloat?
  let y ← orOverflow b.toFloat?
  pure (x, y)

def add : Number → Number → Except Failure Number
  | int a, int b => .ok (int (a + b))
  | a, b => (asFloats a b).map fun p => real (p.1 + p.2)

def sub : Number → Number → Except Failure Number
  | int a, int b => .ok (int (a - b))
  | a, b => (asFloats a b).map fun p => real (p.1 - p.2)

def mul : Number → Number → Except Failure Number
  | int a, int b => .ok (int (a * b))
  | a, b => (asFloats a b).map fun p => real (p.1 * p.2)

def div (a b : Number) : Except Failure Number :=
  if b.isZero then .error .zeroDivisor
  else match a, b with
    | int a, int b =>
      if a.tmod b = 0 then .ok (int (a.tdiv b)) else (orOverflow (Double.ofQuotient? a b)).map real
    | a, b => (asFloats a b).map fun p => real (p.1 / p.2)

/-- The remainder has the sign of the dividend. -/
def mod (a b : Number) : Except Failure Number :=
  if b.isZero then .error .zeroDivisor
  else match a, b with
    | int a, int b => .ok (int (a.tmod b))
    | a, b => do
      let p ← asFloats a b
      match Double.remainder? p.1 p.2 with
      | some r => .ok (real r)
      | none => .error .domain

def apply (operator : String) (a b : Number) : Except Failure Number :=
  match operator with
  | "+" => a.add b
  | "-" => a.sub b
  | "*" => a.mul b
  | "/" => a.div b
  | "%" => a.mod b
  | _ => .error .unknownOperator

/-- The exact text; a whole number of too many digits has none. -/
def text? : Number → Option String
  | int n => Numeral.write? n
  | real x => some (Double.render x)

/-- The spelling in scripts: a double without fraction is written as a whole number. -/
def spelling? : Number → Option String
  | int n => Numeral.write? n
  | real x =>
    match Double.toInt? x with
    | some n => Numeral.write? n
    | none => some (Double.render x)

end Number

end TemplateScript
