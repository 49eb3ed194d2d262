import TemplateScript.Node
import TemplateScript.Node.Reader

/-!
# The grammar of scripts

Expressions by rising precedence: assignment (to the right), object literal, `+ -`, `* / %`, call,
member access, primary. Each level is a reader over the reader of whole expressions inside it, and
`expressionWithin` ties the knot: an inner expression starts behind at least one token, so the
nesting is never deeper than the number of tokens. The grammar is the same for every reader of tokens.
-/

namespace TemplateScript.Grammar

open TokenReader

variable {m : Type → Type} [Monad m] [TokenReader m] (inner : m Node)

def spanTo (n : Node) (s : Option Span) : Option Span :=
  match n.span, s with
  | some a, some b => some (a.through b)
  | _, _ => none

def number (t : Token) : m Node :=
  match Numeral.read? t.text with
  | some n => return .literal t.span (.int n)
  | none => fail (.literalTooLarge t.text.length) t.span

def grouped : m Node := do
  let n ← inner
  let _ ← expect .closeParen "')' to close grouped expression"
  return n

def primary : m Node := do
  if let some t ← accept .identifier then return .identifier t.span t.text
  else if let some t ← accept .number then number t
  else if let some _ ← accept .openParen then grouped inner
  else unexpected "expression"

/-- One step from an object to a part of it, up to the end of a span. -/
structure Access where
  property : Node
  computed : Bool
  upTo : Option Span

def Access.apply (object : Node) (a : Access) : Node :=
  .member (spanTo object a.upTo) object a.property a.computed

def fieldAccess : m (Option Access) := do
  let n ← primary inner
  match n with
  | .identifier s _ => return some ⟨n, false, s⟩
  | _ => fail (.unexpectedToken "identifier after '.'" n.kindName) n.span

def indexAccess : m (Option Access) := do
  let n ← inner
  let close ← expectSpan .closeBracket "']' after computed member"
  return some ⟨n, true, close⟩

def access : m (Option Access) := do
  if let some _ ← accept .dot then fieldAccess inner
  else if let some _ ← accept .openBracket then indexAccess inner
  else return none

def member : m Node := do
  let object ← primary inner
  let accesses ← many (access inner)
  return accesses.foldl Access.apply object

def argument : m (Option Node) := do
  if let some _ ← accept .comma then return some (← inner) else return none

def arguments : m (List Node) := do
  if (← peek) = some .closeParen then return []
  else
    let first ← inner
    let rest ← many (argument inner)
    return first :: rest

structure Call where
  arguments : List Node
  upTo : Span

def Call.apply (callee : Node) (c : Call) : Node :=
  .call (spanTo callee c.upTo) callee c.arguments

def callArguments : m (Option Call) := do
  if let some _ ← accept .openParen then
    let as ← arguments inner
    let close ← expectSpan .closeParen "')' after arguments"
    return some ⟨as, close⟩
  else return none

def call : m Node := do
  let callee ← member inner
  let calls ← many (callArguments inner)
  return calls.foldl Call.apply callee

def isOperator (ops : List String) (t : Token) : Bool := t.kind = .operator && t.text ∈ ops

def operation (ops : List String) (operand : m Node) : m (Option (String × Node)) := do
  if let some t ← takeIf (isOperator ops) then return some (t.text, ← operand) else return none

def applyOperation (left : Node) (o : String × Node) : Node :=
  .binary (spanTo left o.2.span) left o.1 o.2

/-- Operands joined by operators of one precedence, from the left. -/
def chain (ops : List String) (operand : m Node) : m Node := do
  let first ← operand
  let rest ← many (operation ops operand)
  return rest.foldl applyOperation first

def multiplicative : m Node := chain ["*", "/", "%"] (call inner)

def additive : m Node := chain ["+", "-"] (multiplicative inner)

/-- The comma behind an entry, unless the literal ends. -/
def separator : m Unit := do
  if (← peek) = some .closeBrace then return ()
  else
    let _ ← expect .comma "',' or '\x7d' after property"
    return ()

/-- The value of an entry whose key is read. -/
def keyValue (key : Token) : m (Option Node) := do
  let _ ← expect .colon "':' after object literal key"
  let value ← inner
  separator
  return some (.property (value.span.map key.span.through) key.text value)

/-- An entry of an object literal; a key alone stands for the variable of that name. -/
def property : m (Option Node) := do
  if (← peek).all (· = .closeBrace) then return none
  else
    let key ← expect .identifier "object literal key"
    let alone := some (.property key.span key.text .absent)
    if let some _ ← accept .comma then return alone
    else if (← peek) = some .closeBrace then return alone
    else keyValue inner key

def object : m Node := do
  if let some brace ← accept .openBrace then
    let properties ← many (property inner)
    let close ← expectSpan .closeBrace "'\x7d' to close object literal"
    return .object (brace.span.through close) properties
  else additive inner

def assignment : m Node := do
  let target ← object inner
  if let some _ ← accept .assign then
    let value ← inner
    return .assignment (spanTo target value.span) target value
  else return target

/-- Expressions nested less deep than the bound. -/
def expressionWithin : Nat → m Node
  | 0 => exhausted
  | bound + 1 => assignment (expressionWithin bound)

def expression : m Node := do expressionWithin ((← left) + 1)

def declaration (start : Token) : m Node := do
  let constant : Bool := start.kind = .constWord
  let name ← expect .identifier "identifier name after let/const"
  if let some semi ← acceptSpan .semicolon then
    let span := start.span.through semi
    if constant then fail (.constantWithoutValue name.text) span
    else return .declaration span false name.text .absent
  else
    let _ ← expect .assign "'=' after identifier in declaration"
    let value ← expression
    let semi ← expectSpan .semicolon "';' after variable declaration"
    return .declaration (start.span.through semi) constant name.text value

/-- An expression as a statement; the semicolon may be left out. -/
def expressionStatement : m Node := do
  let n ← expression
  let _ ← accept .semicolon
  return n

def statement : m Node := do
  if let some t ← takeIf fun t => t.kind = .letWord || t.kind = .constWord then declaration t
  else expressionStatement

def nextStatement : m (Option Node) := do
  if (← peek).isNone then return none else return some (← statement)

/-- The span of a program: all its statements, or the empty span where they would begin. -/
def programSpan (start : Token) (body : List Node) : Option Span :=
  match body.head?, body.getLast? with
  | some first, some last => spanTo first last.span
  | _, _ => some (.point start.span.start)

def program : m Node := do
  let start ← current
  let body ← many nextStatement
  return .program (programSpan start body) body

end TemplateScript.Grammar
