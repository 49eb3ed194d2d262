import TemplateScript.Run

/-!
# Sessions

A session works on a growing forest of scopes, one operation after the other. An operation that fails
leaves what it had done before it failed.
-/

namespace TemplateScript

inductive Operation where
  | new (name : String)
  | global
  | child (parent : Nat) (name : String)
  | declare (scope : Nat) (x : String) (v : Value) (constant : Bool)
  | assign (scope : Nat) (x : String) (v : Value)
  /-- Evaluation of a tree behind what was reported before. -/
  | evaluate (mode : Mode) (scope : Nat) (n : Node) (reported : Journal)
  | execute (mode : Mode) (scope : Nat) (n : Node)
  | run (mode : Mode) (file : Option String) (source : String) (scope : Nat)

namespace Operation

/-- The forest that an operation leaves, whether it succeeds or fails. -/
def perform (f : Forest) : Operation → Forest
  | new name => f.addRoot name
  | global => f.addGlobal
  | child parent name => f.addChild parent name
  | declare scope x v constant => (f.declare scope x v constant).toOption.getD f
  | assign scope x v => (f.assign scope x v).toOption.getD f
  | evaluate mode scope n reported => (n.evaluate mode scope ⟨f, reported⟩).2.forest
  | execute mode scope n => (TemplateScript.execute mode scope n f).forest
  | run mode file source scope => (TemplateScript.run mode file source scope f).forest

def performAll (f : Forest) (ops : List Operation) : Forest := ops.foldl perform f

end Operation

end TemplateScript
