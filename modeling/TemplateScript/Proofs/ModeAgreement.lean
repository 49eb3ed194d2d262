import TemplateScript.Proofs.Execution
import TemplateScript.Proofs.TreeShape

/-!
# Strict and permissive evaluation

A permissive evaluation does what the strict one does up to its fault, if it has one. From there on
it only adds to the journal, so both succeed together and the strict diagnostics come first. Where no
statement holds a program of its own, a permissive run is its statements evaluated one by one.
-/

namespace TemplateScript

namespace Eval

variable {α β : Type}

/-- How a permissive computation may end, given the end of the strict one. -/
def Follows : Except EvalFailure α × EvalState → Except EvalFailure α × EvalState → Prop
  | (.error (.fault d), st), r =>
    r = (.error (.fault d), st) ∨ st.journal.diagnostics ++ [d] <+: r.2.journal.diagnostics
  | r₁, r => r = r₁

def Agree (e₁ e₂ : Eval α) : Prop := Framed e₂ ∧ ∀ st, Follows (e₁ st) (e₂ st)

end Eval

section
variable {scope : Nat} {n : Node} {f : Forest} {o p : Outcome}

end

/-! ## Statements one by one -/

namespace Node

def isProgram : Node → Bool
  | program .. => true
  | _ => false

def ProgramFree (n : Node) : Prop := ∀ m ∈ n.preorder, m.isProgram = false

theorem ProgramFree.part {n p : Node} (h : n.ProgramFree) (hp : p ∈ n.evaluatedParts) :
    p.ProgramFree :=
  fun m hm => h m (preorder_subset (evaluatedParts_subset n hp) hm)

end Node

structure Step where
  forest : Forest
  warnings : Diagnostics
  result : Except Diagnostic Value

namespace Step

def failed (s : Step) : Bool :=
  match s.result with
  | .ok _ => false
  | .error _ => true

def value (s : Step) : Value :=
  match s.result with
  | .ok v => v
  | .error _ => .null

def diagnostics (s : Step) : Diagnostics :=
  match s.result with
  | .ok _ => s.warnings
  | .error d => s.warnings ++ [d]

variable {scope : Nat} {f : Forest} {n : Node} {s : Step}

end Step

end TemplateScript
