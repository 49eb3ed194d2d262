import TemplateScript.Diagnostic

/-!
# Collected diagnostics

Diagnostics in the order in which they come in, with a counter of the errors among them. They render
as paragraphs followed by a count.
-/

namespace TemplateScript

structure Collector where
  diagnostics : Diagnostics := []
  errors : Nat := 0
  deriving DecidableEq, Repr

namespace Collector

def empty : Collector := {}

def counting (d : Diagnostic) (errors : Nat) : Nat := if d.isError then errors + 1 else errors

def add (c : Collector) (d : Diagnostic) : Collector :=
  ⟨c.diagnostics ++ [d], counting d c.errors⟩

/-- Puts a diagnostic ahead of the others. -/
def addFirst (c : Collector) (d : Diagnostic) : Collector :=
  ⟨d :: c.diagnostics, counting d c.errors⟩

/-- Adds the diagnostics of another collector one by one. -/
def extend (c other : Collector) : Collector := other.diagnostics.foldl add c

def attach (line? : Int → Option String) (c : Collector) : Collector :=
  { c with diagnostics := c.diagnostics.map (·.attach line?) }

def hasErrors (c : Collector) : Bool := 0 < c.errors

def warnings (c : Collector) : Nat := c.diagnostics.countP fun d => !d.isError

def codes (c : Collector) : List String := c.diagnostics.map (·.code)

/-- The closing count, if there is anything to count. -/
def summary (c : Collector) : List String :=
  let warnings := toString c.warnings ++ " warning(s)"
  if c.errors > 0 then ["\n" ++ toString c.errors ++ " error(s), " ++ warnings]
  else if c.warnings > 0 then ["\n" ++ warnings]
  else []

def render (c : Collector) (showSource : Bool) : String :=
  "\n\n".intercalate (c.diagnostics.map (·.render showSource) ++ c.summary)

end Collector

end TemplateScript
