import TemplateScript.Node
import TemplateScript.Text.Pad
import TemplateScript.Text.Quoted
import TemplateScript.Text.Truth

/-!
# Trees as indented text

A node is written as its kind, then one row for each field, then the rows of a part two levels
deeper under the row that names it. The parts of a list stand between brackets.
-/

namespace TemplateScript

def Filler.text? : Filler → Option String
  | absent => some "None"
  | text s => some (Text.quote s)
  | whole n => Numeral.write? n
  | truth b => some (Text.truth b)

namespace Node

abbrev Rows := Except Breakdown (List String)

/-- A row at a depth; depths below zero count as zero. -/
def row (depth : Int) (text : String) : String :=
  Text.blanks (2 * depth.toNat) ++ text

def fieldRow (depth : Int) (name value : String) : String :=
  row depth ("  " ++ name ++ ": " ++ value)

/-- A part under the name of its field, given the rows of the part. -/
def partRows (depth : Int) (name : String) (part : Node) (rows : Rows) : Rows :=
  match part with
  | filler f => (orDigitLimit f.text?).map fun t => [fieldRow depth name t]
  | _ => rows.map (row depth ("  " ++ name ++ ":") :: ·)

/-- A part of a list, given the rows of the part. -/
def itemRows (depth : Int) (part : Node) (rows : Rows) : Rows :=
  match part with
  | filler f => (orDigitLimit f.text?).map fun t => [row depth ("    " ++ t)]
  | _ => rows

def listRows (depth : Int) (name : String) (rows : Rows) : Rows :=
  rows.map fun rs => row depth ("  " ++ name ++ ": [") :: rs ++ [row depth "  ]"]

mutual
def rows (depth : Int) : Node → Rows
  | program _ body => do
    let body ← listRows depth "body" (rowsOfList depth body)
    pure (row depth "Program" :: body)
  | declaration _ constant name value => do
    let value ← partRows depth "value" value (rows (depth + 2) value)
    pure (row depth "VarDeclaration" :: fieldRow depth "constant" (Text.truth constant)
      :: fieldRow depth "identifier" (Text.quote name) :: value)
  | assignment _ target value => do
    let target ← partRows depth "assignee" target (rows (depth + 2) target)
    let value ← partRows depth "value" value (rows (depth + 2) value)
    pure (row depth "AssignmentExpr" :: target ++ value)
  | binary _ left operator right => do
    let left ← partRows depth "left" left (rows (depth + 2) left)
    let right ← partRows depth "right" right (rows (depth + 2) right)
    pure (row depth "BinaryExpr" :: left ++ fieldRow depth "operator" (Text.quote operator)
      :: right)
  | member _ o p computed => do
    let o ← partRows depth "object" o (rows (depth + 2) o)
    let p ← partRows depth "property" p (rows (depth + 2) p)
    pure (row depth "MemberExpr" :: o ++ p ++ [fieldRow depth "computed" (Text.truth computed)])
  | call _ callee args => do
    let callee ← partRows depth "caller" callee (rows (depth + 2) callee)
    let args ← listRows depth "arguments" (rowsOfList depth args)
    pure (row depth "CallExpr" :: callee ++ args)
  | identifier _ name => pure [row depth "Identifier", fieldRow depth "symbol" (Text.quote name)]
  | literal _ value => do
    let text ← orDigitLimit value.text?
    pure [row depth "NumericLiteral", fieldRow depth "value" text]
  | property _ key value => do
    let value ← partRows depth "value" value (rows (depth + 2) value)
    pure (row depth "Property" :: fieldRow depth "key" (Text.quote key) :: value)
  | object _ ps => do
    let ps ← listRows depth "properties" (rowsOfList depth ps)
    pure (row depth "ObjectLiteral" :: ps)
  | bare _ k => .error (.missing k.kindName "kind")
  | filler f => .error (.missing f.kindName "accept")
def rowsOfList (depth : Int) : List Node → Rows
  | [] => pure []
  | n :: ns => do
    let first ← itemRows depth n (rows (depth + 2) n)
    let rest ← rowsOfList depth ns
    pure (first ++ rest)
end

def dump (n : Node) : Except Breakdown String := (n.rows 0).map "\n".intercalate

end Node

end TemplateScript
