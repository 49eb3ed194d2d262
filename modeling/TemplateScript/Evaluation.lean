import TemplateScript.Journal
import TemplateScript.Node
import TemplateScript.Scope

/-!
# Evaluation

Evaluating a node in a scope gives a value, a diagnostic or a breakdown, and in each case leaves a
forest of scopes and a journal: what was done before a failure stays done. In permissive mode a
statement that fails with a diagnostic is reported and counts as null.
-/

namespace TemplateScript

inductive Mode where
  | strict
  | permissive
  deriving DecidableEq, Repr

inductive EvalFailure where
  | fault (d : Diagnostic)
  | breakdown (b : Breakdown)
  deriving DecidableEq, Repr

structure EvalState where
  forest : Forest
  journal : Journal

def Eval (α : Type) := EvalState → Except EvalFailure α × EvalState

namespace Eval

variable {α : Type}

instance : Monad Eval where
  pure a := fun st => (.ok a, st)
  bind e f := fun st =>
    match e st with
    | (.ok a, st) => f a st
    | (.error x, st) => (.error x, st)

theorem pure_apply (a : α) (st : EvalState) : (pure a : Eval α) st = (.ok a, st) := rfl

theorem bind_ok {β : Type} {e : Eval α} {st st' : EvalState} {a : α} (h : e st = (.ok a, st'))
    (f : α → Eval β) : (e >>= f) st = f a st' := by
  simp only [bind, h]

theorem bind_error {β : Type} {e : Eval α} {st st' : EvalState} {x : EvalFailure}
    (h : e st = (.error x, st')) (f : α → Eval β) : (e >>= f) st = (.error x, st') := by
  simp only [bind, h]

def fail (f : Fault) (s : Option Span) : Eval α := fun st => (.error (.fault (f.diagnoseAt s)), st)

def breakDown (b : Breakdown) : Eval α := fun st => (.error (.breakdown b), st)

def report (d : Diagnostic) : Eval Unit := fun st =>
  (.ok (), { st with journal := st.journal.report d ⟨.error, .evaluator, d.render false⟩ })

def query (s : Option Span) (q : Forest → Except Fault α) : Eval α := fun st =>
  match q st.forest with
  | .ok a => (.ok a, st)
  | .error f => fail f s st

def change (s : Option Span) (q : Forest → Except Fault Forest) : Eval Unit := fun st =>
  match q st.forest with
  | .ok f => (.ok (), { st with forest := f })
  | .error f => fail f s st

def lookup (scope : Nat) (x : String) (s : Option Span) : Eval Value := query s (·.lookup scope x)

def declare (scope : Nat) (x : String) (v : Value) (constant : Bool) (s : Option Span) :
    Eval Value := do
  change s (·.declare scope x v constant)
  return v

def assign (scope : Nat) (x : String) (v : Value) (s : Option Span) : Eval Value := do
  change s (·.assign scope x v)
  return v

/-- A kind of node that has no meaning in scripts counts as null. -/
def unhandled (kind : String) (s : Option Span) : Eval Value := do
  report ((Fault.unhandled kind).diagnoseAt s)
  return .null

def operate (operator : String) (a b : Value) (s : Option Span) : Eval Value :=
  match a, b with
  | .number m, .number n =>
    match Number.apply operator m n with
    | .ok r => return .number r
    | .error .zeroDivisor => fail (.zeroDivisor operator) s
    | .error .overflow => fail (.overflow operator) s
    | .error .unknownOperator => fail (.unknownOperator operator) s
    | .error .domain => breakDown .domain
  | _, _ => fail (.unsupportedOperands operator a.typeName b.typeName) s

/-- A statement: in permissive mode a fault is reported and its value is null. -/
def attempt (mode : Mode) (e : Eval Value) : Eval Value := fun st =>
  match mode, e st with
  | .permissive, (.error (.fault d), st) => (report d >>= fun _ => pure Value.null) st
  | _, r => r

end Eval

def Number.kindName : Number → String
  | int _ => "int"
  | real _ => "float"

namespace Node

open Eval

mutual
def eval (mode : Mode) (scope : Nat) : Node → Eval Value
  | literal _ n => return .number n
  | identifier s x => lookup scope x s
  | object _ ps => do
    let table ← evalProperties mode scope [] ps
    return .object table
  | assignment s target value =>
    match target with
    | identifier _ x => do
      let v ← eval mode scope value
      assign scope x v s
    | _ => fail (.invalidTarget target.kindName) s
  | binary s left operator right => do
    let a ← eval mode scope left
    let b ← eval mode scope right
    operate operator a b s
  | program _ body => evalBody mode scope .null body
  | declaration s constant x value =>
    if value.isAbsent then
      if constant then fail (.uninitializedConstant x) s else declare scope x .null false s
    else do
      let v ← eval mode scope value
      declare scope x v constant s
  | member s _ _ _ => unhandled "MemberExpr" s
  | call s _ _ => unhandled "CallExpr" s
  | property s _ _ => unhandled "Property" s
  | bare s k => unhandled k.kindName s
  | filler f => unhandled f.kindName none
/-- Statements in order; the last one gives the value. -/
def evalBody (mode : Mode) (scope : Nat) (last : Value) : List Node → Eval Value
  | [] => return last
  | n :: ns => do
    let v ← attempt mode (eval mode scope n)
    evalBody mode scope v ns
/-- The entries of an object literal in order. What is no entry at all is evaluated as far as it has
a value, and then lacks a key. -/
def evalProperties (mode : Mode) (scope : Nat) (table : Table Value) :
    List Node → Eval (Table Value)
  | [] => return table
  | property s key value :: ns => do
    let v ← if value.isAbsent then lookup scope key s else eval mode scope value
    evalProperties mode scope (table.put key v) ns
  | literal _ n :: _ => do
    let _ ← unhandled n.kindName none
    breakDown (.missing "NumericLiteral" "key")
  | declaration _ _ _ value :: _ => do
    let _ ← if value.isAbsent then pure Value.null else eval mode scope value
    breakDown (.missing "VarDeclaration" "key")
  | assignment _ _ value :: _ => do
    let _ ← if value.isAbsent then pure Value.null else eval mode scope value
    breakDown (.missing "AssignmentExpr" "key")
  | n :: _ => breakDown (.missing n.kindName "value")
end

def evaluate (mode : Mode) (scope : Nat) (n : Node) : Eval Value := attempt mode (eval mode scope n)

end Node

end TemplateScript
