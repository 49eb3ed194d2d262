import TemplateScript.Span
import TemplateScript.Text.Quoted

/-!
# Tokens

A token is a kind, the text it was made of and its span. A token list ends in an end mark; a scan
that was given up leaves the abort mark there.
-/

namespace TemplateScript

inductive Token.Kind where
  | openTag
  | closeTag
  | number
  | identifier
  | letWord
  | constWord
  | operator
  | assign
  | comma
  | dot
  | colon
  | semicolon
  | openParen
  | closeParen
  | openBrace
  | closeBrace
  | openBracket
  | closeBracket
  | endMark
  | unknown
  deriving DecidableEq, Repr, Inhabited

namespace Token.Kind

def label : Token.Kind → String
  | openTag => "OPEN_TRANS_TAG"
  | closeTag => "CLOSE_TRANS_TAG"
  | number => "NUMBER"
  | identifier => "IDENTIFIER"
  | letWord => "LET"
  | constWord => "CONST"
  | operator => "BINARY_OPERATOR"
  | assign => "ASSIGNMENT"
  | comma => "COMMA"
  | dot => "DOT"
  | colon => "COLON"
  | semicolon => "SEMICOLON"
  | openParen => "OPEN_PAREN"
  | closeParen => "CLOSE_PAREN"
  | openBrace => "OPEN_BRACE"
  | closeBrace => "CLOSE_BRACE"
  | openBracket => "OPEN_BRACKET"
  | closeBracket => "CLOSE_BRACKET"
  | endMark => "EOF"
  | unknown => "UNKNOWN"

def all : List Token.Kind :=
  [openTag, closeTag, number, identifier, letWord, constWord, operator, assign, comma, dot, colon,
   semicolon, openParen, closeParen, openBrace, closeBrace, openBracket, closeBracket, endMark,
   unknown]

def ofLabel? (s : String) : Option Token.Kind := all.find? (·.label = s)

/-- Kinds whose tokens differ in their text. -/
def showsText : Token.Kind → Bool
  | number | identifier | operator | unknown => true
  | _ => false

end Token.Kind

structure Token where
  kind : Token.Kind
  text : String
  span : Span
  deriving DecidableEq, Repr, Inhabited

namespace Token

def endText : String := "EndOfFile"

def abortText : String := "UnexpectedEndOfFile"

def endAt (l : Location) : Token := ⟨.endMark, endText, .point l⟩

def abortAt (l : Location) : Token := ⟨.endMark, abortText, .point l⟩

def isAbortMark (t : Token) : Bool := t.kind = .endMark && t.text = abortText

def render (t : Token) : String :=
  if t.kind.showsText then t.kind.label ++ "(" ++ Text.quote t.text ++ ")" else t.kind.label

/-- Kind and text, as named where another token was expected. -/
def describe (t : Token) : String := t.kind.label ++ " " ++ Text.quote t.text

/-- Whether the scan that made these tokens was given up. -/
def scanAborted (ts : List Token) : Bool := ts.getLast?.any isAbortMark

end Token

end TemplateScript
