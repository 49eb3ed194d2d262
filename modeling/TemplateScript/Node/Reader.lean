import TemplateScript.Fault
import TemplateScript.Token

/-!
# Readers of tokens

What a grammar needs of the tokens that it reads, wherever they are kept, and what is made of that
alone. Readers count the items of a list and the levels of a nesting against a bound; to come to the
bound is a failure of its own.
-/

namespace TemplateScript

/-- Tokens that are taken from the front, ahead of one that ends the program. -/
class TokenReader (m : Type → Type) [Monad m] where
  /-- The kind of the next token, if there is one. -/
  peek : m (Option Token.Kind)
  /-- The next token, or the one that ends the program. -/
  current : m Token
  takeIf (p : Token → Bool) : m (Option Token)
  /-- Looks the token up that was taken last; the reader that took it knows it already. -/
  lookBack (taken : Token) : m Token
  /-- How many tokens are left. -/
  left : m Nat
  fail {α : Type} (f : Fault) (s : Option Span) : m α
  /-- A bound was come to. -/
  exhausted {α : Type} : m α

namespace TokenReader

variable {m : Type → Type} [Monad m] [TokenReader m] {α : Type}

def accept (k : Token.Kind) : m (Option Token) := takeIf (·.kind = k)

/-- Reports the next token, or the end, where something else was expected. -/
def unexpected (expected : String) : m α := do
  let t ← current
  if (← peek).isNone then fail (.unexpectedEnd expected) t.span
  else fail (.unexpectedToken expected t.describe) t.span

def expect (k : Token.Kind) (expected : String) : m Token := do
  if let some t ← accept k then return t else unexpected expected

/-- Takes a token of a kind, if it is next, and looks up where it stands. -/
def acceptSpan (k : Token.Kind) : m (Option Span) := do
  if let some t ← accept k then return some (← lookBack t).span else return none

def expectSpan (k : Token.Kind) (expected : String) : m Span := do
  if let some s ← acceptSpan k then return s else unexpected expected

/-- Reads items until one is not there, fewer than the bound. -/
def manyWithin (item : m (Option α)) : Nat → m (List α)
  | 0 => exhausted
  | bound + 1 => do
    if let some a ← item then
      let rest ← manyWithin item bound
      return a :: rest
    else return []

/-- Reads items until one is not there. An item takes at least one token, so there are no more items
than tokens. -/
def many (item : m (Option α)) : m (List α) := do manyWithin item ((← left) + 1)

end TokenReader

end TemplateScript
