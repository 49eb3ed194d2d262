import TemplateScript.Diagnostic
import TemplateScript.Text.Quoted

/-!
# Faults

Everything that can be wrong with a script, as a cause. Each has a code, a severity, a message and
hints; `Fault.diagnoseAt` puts it at a place. Codes E0 and W0 come from scanning, E1 from reading the
tokens, E4 and W4 from evaluation.
-/

namespace TemplateScript

inductive Fault where
  | unrecognizedCharacter (c : Char)
  | slashAfterOpening
  | unterminatedComment
  | unexpectedToken (expected found : String)
  | unexpectedEnd (expected : String)
  | missingCloseTag
  | incompleteTokens
  | constantWithoutValue (name : String)
  | literalTooLarge (digits : Int)
  | undeclared (name : String)
  | alreadyDeclared (name : String)
  | constantReassigned (name : String)
  | invalidTarget (kind : String)
  | unsupportedOperands (operator left right : String)
  | zeroDivisor (operator : String)
  | uninitializedConstant (name : String)
  | unknownOperator (operator : String)
  | overflow (operator : String)
  | unhandled (kind : String)
  deriving DecidableEq, Repr

namespace Fault

def code : Fault → String
  | unrecognizedCharacter _ => "E001"
  | slashAfterOpening => "W001"
  | unterminatedComment => "W002"
  | unexpectedToken .. => "E101"
  | unexpectedEnd _ => "E102"
  | missingCloseTag => "E104"
  | incompleteTokens => "E105"
  | constantWithoutValue _ => "E106"
  | literalTooLarge _ => "E107"
  | undeclared _ => "E401"
  | alreadyDeclared _ => "E402"
  | constantReassigned _ => "E403"
  | invalidTarget _ => "E404"
  | unsupportedOperands .. => "E405"
  | zeroDivisor _ => "E406"
  | uninitializedConstant _ => "E407"
  | unknownOperator _ => "E408"
  | overflow _ => "E409"
  | unhandled _ => "W401"

def severity : Fault → Severity
  | slashAfterOpening | unterminatedComment | unhandled _ => .warning
  | _ => .error

def message : Fault → String
  | unrecognizedCharacter c =>
    "unrecognized character " ++ Text.quote (String.singleton c) ++ " (code " ++ toString c.toNat
      ++ ") inside script region"
  | slashAfterOpening =>
    "block comment content begins with '/'; some consumers reject '/*/' as an unknown token '*/'"
  | unterminatedComment =>
    "unterminated block comment (expected closing */); rest of input skipped"
  | unexpectedToken expected found => "expected " ++ expected ++ ", found " ++ found
  | unexpectedEnd expected => "unexpected end of file, expected " ++ expected
  | missingCloseTag => "missing closing tag </trans>"
  | incompleteTokens =>
    "token stream is incomplete: the scanner aborted on an unrecognized character"
  | constantWithoutValue name => "must assign a value to constant '" ++ name ++ "'"
  | literalTooLarge digits => "numeric literal too large (" ++ toString digits ++ " digits)"
  | undeclared name => "cannot resolve '" ++ name ++ "': variable not declared"
  | alreadyDeclared name => "cannot declare '" ++ name ++ "': already declared in this scope"
  | constantReassigned name => "cannot reassign constant '" ++ name ++ "'"
  | invalidTarget kind => "invalid assignment target: " ++ kind
  | unsupportedOperands operator left right =>
    "unsupported operand type(s) for '" ++ operator ++ "': '" ++ left ++ "' and '" ++ right ++ "'"
  | zeroDivisor operator => (if operator = "%" then "modulo" else "division") ++ " by zero"
  | uninitializedConstant name => "constant '" ++ name ++ "' must be initialized"
  | unknownOperator operator => "unknown binary operator '" ++ operator ++ "'"
  | overflow operator =>
    "numeric overflow in '" ++ operator ++ "': result too large for a float"
  | unhandled kind => "unhandled syntax kind '" ++ kind ++ "'; evaluated as null"

def hints : Fault → List String
  | unrecognizedCharacter _ =>
    ["the scan was aborted; the token stream ends with UnexpectedEndOfFile"]
  | invalidTarget _ => ["only identifiers can be assigned to"]
  | _ => []

/-- The fault at a span; what stands there in the source is not known. -/
def diagnoseAt (f : Fault) (span : Option Span) : Diagnostic :=
  { code := f.code, message := f.message, severity := f.severity, span, hints := f.hints }

/-- The faults that may be reported with their source line at once. The line of all others is filled
in later, if at all. -/
def takesLine : Fault → Bool
  | unrecognizedCharacter _ | slashAfterOpening | unterminatedComment | unexpectedToken ..
  | constantWithoutValue _ | literalTooLarge _ => true
  | _ => false

/-- The fault at a span, with its source line. -/
def diagnose (f : Fault) (span : Option Span) (sourceLine : Option String)
    (_ : f.takesLine = true := by rfl) : Diagnostic :=
  { f.diagnoseAt span with sourceLine }

end Fault

end TemplateScript
