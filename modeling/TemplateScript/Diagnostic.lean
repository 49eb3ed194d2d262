import TemplateScript.Span
import TemplateScript.Text.Pad

/-!
# Diagnostics

What is reported to the writer of a script. A diagnostic renders as one headline, the source line
with a row of carets under its span if both are known, and its hints.
-/

namespace TemplateScript

inductive Severity where
  | error
  | warning
  deriving DecidableEq, Repr, Inhabited

def Severity.label : Severity → String
  | .error => "error"
  | .warning => "warning"

structure Diagnostic where
  code : String
  message : String
  severity : Severity
  span : Option Span := none
  sourceLine : Option String := none
  hints : List String := []
  deriving DecidableEq, Repr, Inhabited

namespace Diagnostic

def isError (d : Diagnostic) : Bool := d.severity = .error

def headline (d : Diagnostic) : String :=
  (match d.span with
    | some s => s.start.render
    | none => "<unknown>")
  ++ ": " ++ d.severity.label ++ "[" ++ d.code ++ "]: " ++ d.message

/-- The row under a source line: blanks up to the start of the span, then at least one caret. A span
over several lines is underlined to the end of its first line. -/
def caretRow (s : Span) (line : String) : String :=
  let stop := if s.start.line = s.stop.line then s.stop.column else line.length + 1
  "    | " ++ Text.blanks (s.start.column - 1).toNat
    ++ String.ofList (List.replicate (max 1 (stop - s.start.column)).toNat '^')

def excerpt (s : Span) (line : String) : List String :=
  ["  |", Text.padLeft 3 (toString s.start.line) ++ " | " ++ line, caretRow s line]

def rows (d : Diagnostic) (showSource : Bool) : List String :=
  d.headline
    :: (match showSource, d.span, d.sourceLine with
        | true, some s, some line => excerpt s line
        | _, _, _ => [])
    ++ d.hints.map ("    = hint: " ++ ·)

def render (d : Diagnostic) (showSource : Bool) : String :=
  "\n".intercalate (d.rows showSource)

/-- Adds the source line of the span's start, unless the diagnostic has one or there is no such
line. -/
def attach (line? : Int → Option String) (d : Diagnostic) : Diagnostic :=
  match d.sourceLine, d.span with
  | none, some s => { d with sourceLine := line? s.start.line }
  | _, _ => d

end Diagnostic

abbrev Diagnostics := List Diagnostic

end TemplateScript
