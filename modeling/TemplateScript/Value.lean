import TemplateScript.Json
import TemplateScript.Table
import TemplateScript.Text.Truth

/-!
# Values

What expressions evaluate to. The properties of an object keep their order. A value has a spelling
in scripts, a description with its type, and a JSON document.
-/

namespace TemplateScript

inductive Value where
  | null
  | bool (b : Bool)
  | number (n : Number)
  | object (properties : List (String × Value))
  deriving Inhabited

namespace Value

def int (n : Int) : Value := number (.int n)

def typeName : Value → String
  | null => "null"
  | bool _ => "boolean"
  | number _ => "number"
  | object _ => "object"

def isNull : Value → Bool
  | null => true
  | _ => false

def isNumber : Value → Bool
  | number _ => true
  | _ => false

def braced (rows : List String) : String :=
  if rows.isEmpty then "\x7b\x7d" else "\x7b " ++ ", ".intercalate rows ++ " \x7d"

mutual
/-- The value as scripts spell it. -/
def spell : Value → Except Breakdown String
  | null => .ok "null"
  | bool b => .ok (if b then "true" else "false")
  | number n => orDigitLimit n.spelling?
  | object ps => (spellAll ps).map braced
def spellAll : List (String × Value) → Except Breakdown (List String)
  | [] => .ok []
  | (key, v) :: vs => do
    let first ← spell v
    let rest ← spellAll vs
    .ok ((key ++ ": " ++ first) :: rest)
end

def typed (v : Value) (data : String) : String := "Value(" ++ data ++ ", " ++ v.typeName ++ ")"

mutual
/-- The value with its type. -/
def describe : Value → Except Breakdown String
  | null => .ok (typed null "None")
  | bool b => .ok (typed (bool b) (Text.truth b))
  | number n => (orDigitLimit n.text?).map (typed (number n))
  | object ps =>
    (describeAll ps).map fun rows => typed (object ps) ("\x7b" ++ ", ".intercalate rows ++ "\x7d")
def describeAll : List (String × Value) → Except Breakdown (List String)
  | [] => .ok []
  | (key, v) :: vs => do
    let first ← describe v
    let rest ← describeAll vs
    .ok ((Text.quote key ++ ": " ++ first) :: rest)
end

mutual
def toJson : Value → JsonValue
  | null => .null
  | bool b => .bool b
  | number n => .number n
  | object ps => .object (toJsonFields ps)
def toJsonFields : List (String × Value) → List (String × JsonValue)
  | [] => []
  | (key, v) :: vs => (key, toJson v) :: toJsonFields vs
end

end Value

end TemplateScript
