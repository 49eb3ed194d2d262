import TemplateScript.Breakdown
import TemplateScript.Number
import TemplateScript.Span

/-!
# Syntax trees

A node is a statement, an expression or an entry of an object literal, with its span. Trees made by
hand may lack spans, and may have a filler where a node belongs: `absent` also stands for a value
that was left out.
-/

namespace TemplateScript

/-- What may stand in the place of a node. -/
inductive Filler where
  | absent
  | text (s : String)
  | whole (n : Int)
  | truth (b : Bool)
  deriving DecidableEq, Repr

/-- A node of no kind in particular. -/
inductive Bare where
  | statement
  | expression
  deriving DecidableEq, Repr

inductive Node where
  | program (span : Option Span) (body : List Node)
  | declaration (span : Option Span) (constant : Bool) (name : String) (value : Node)
  | assignment (span : Option Span) (target value : Node)
  | binary (span : Option Span) (left : Node) (operator : String) (right : Node)
  | member (span : Option Span) (object property : Node) (computed : Bool)
  | call (span : Option Span) (callee : Node) (arguments : List Node)
  | identifier (span : Option Span) (name : String)
  | literal (span : Option Span) (value : Number)
  | property (span : Option Span) (key : String) (value : Node)
  | object (span : Option Span) (properties : List Node)
  | bare (span : Option Span) (kind : Bare)
  | filler (f : Filler)
  deriving Inhabited

def Filler.kindName : Filler → String
  | absent => "NoneType"
  | text _ => "str"
  | whole _ => "int"
  | truth _ => "bool"

def Bare.kindName : Bare → String
  | statement => "Statement"
  | expression => "Expression"

namespace Node

def absent : Node := filler .absent

def isAbsent : Node → Bool
  | filler .absent => true
  | _ => false

def kindName : Node → String
  | program .. => "Program"
  | declaration .. => "VarDeclaration"
  | assignment .. => "AssignmentExpr"
  | binary .. => "BinaryExpr"
  | member .. => "MemberExpr"
  | call .. => "CallExpr"
  | identifier .. => "Identifier"
  | literal .. => "NumericLiteral"
  | property .. => "Property"
  | object .. => "ObjectLiteral"
  | bare _ k => k.kindName
  | filler f => f.kindName

def span : Node → Option Span
  | program s _ | declaration s _ _ _ | assignment s _ _ | binary s _ _ _ | member s _ _ _
  | call s _ _ | identifier s _ | literal s _ | property s _ _ | object s _ | bare s _ => s
  | filler _ => none

def children : Node → List Node
  | program _ body => body
  | declaration _ _ _ value => [value]
  | assignment _ target value => [target, value]
  | binary _ left _ right => [left, right]
  | member _ o p _ => [o, p]
  | call _ callee args => callee :: args
  | property _ _ value => [value]
  | object _ ps => ps
  | identifier .. | literal .. | bare .. | filler _ => []

/-- Visits a node with the cases that a visitor has; a filler cannot be visited. -/
def accept {α : Type} (visitor : Node → Option α) : Node → Except Breakdown α
  | filler f => .error (.missing f.kindName "accept")
  | n =>
    match visitor n with
    | some a => .ok a
    | none => .error (.noCase n.kindName)

mutual
/-- A node and all below it, each ahead of its parts; fillers are left out. -/
def preorder : Node → List Node
  | program s body => program s body :: preorders body
  | declaration s c name value => declaration s c name value :: preorder value
  | assignment s target value => assignment s target value :: (preorder target ++ preorder value)
  | binary s left op right => binary s left op right :: (preorder left ++ preorder right)
  | member s o p computed => member s o p computed :: (preorder o ++ preorder p)
  | call s callee args => call s callee args :: (preorder callee ++ preorders args)
  | identifier s name => [identifier s name]
  | literal s value => [literal s value]
  | property s key value => property s key value :: preorder value
  | object s ps => object s ps :: preorders ps
  | bare s k => [bare s k]
  | filler _ => []
def preorders : List Node → List Node
  | [] => []
  | n :: ns => preorder n ++ preorders ns
end

end Node

end TemplateScript
