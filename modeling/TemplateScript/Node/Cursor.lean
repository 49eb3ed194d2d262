import TemplateScript.Node.Grammar

/-!
# Programs of token lists

A cursor stands in a token list, ahead of the token that ends the program. Reading a program moves
it, also when the reading fails; a further reading goes on from there. Where the list has an open
tag, each reading starts over behind it and ends at the close tag. Tokens are looked up by their
place in the list, and a place that the list does not have is a failure.
-/

namespace TemplateScript

inductive ParseFailure where
  | fault (d : Diagnostic)
  | outOfRange
  | exhausted
  deriving DecidableEq, Repr

structure Cursor where
  tokens : List Token
  pos : Nat
  stop : Nat
  deriving Repr

/-- What is read by moving a cursor. -/
def Parser (α : Type) := Cursor → Except ParseFailure α × Cursor

namespace Parser

variable {α : Type}

instance : Monad Parser where
  pure a := fun c => (.ok a, c)
  bind p f := fun c =>
    match p c with
    | (.ok a, c) => f a c
    | (.error e, c) => (.error e, c)

def tokenAt (i : Nat) : Parser Token := fun c =>
  match c.tokens[i]? with
  | some t => (.ok t, c)
  | none => (.error .outOfRange, c)

def atEnd : Parser Bool := fun c => (.ok (c.stop ≤ c.pos), c)

def current : Parser Token := fun c => tokenAt (if c.stop ≤ c.pos then c.stop else c.pos) c

def advance : Parser Unit := fun c => (.ok (), { c with pos := c.pos + 1 })

/-- The token behind the cursor. -/
def previous : Parser Token := fun c =>
  match c.pos with
  | 0 => (.error .outOfRange, c)
  | i + 1 => tokenAt i c

instance : TokenReader Parser where
  peek := do
    let t ← current
    return if ← atEnd then none else some t.kind
  current := current
  takeIf p := do
    let t ← current
    if (← atEnd) || !p t then return none
    else
      advance
      return some t
  lookBack _ := previous
  left := fun c => (.ok (c.stop - c.pos), c)
  fail f s := fun c => (.error (.fault (f.diagnoseAt s)), c)
  exhausted := fun c => (.error .exhausted, c)

end Parser

namespace Cursor

def ofTokens (ts : List Token) : Cursor := ⟨ts, 0, ts.length - 1⟩

/-- The first open tag and the first close tag behind it, as the range of the program's tokens. -/
def region? (ts : List Token) : Option (Nat × Option Nat) :=
  (ts.findIdx? (·.kind = .openTag)).map fun i =>
    (i + 1, ((ts.drop (i + 1)).findIdx? (·.kind = .closeTag)).map (i + 1 + ·))

def enter (c : Cursor) : Except ParseFailure Cursor :=
  match c.tokens.getLast? with
  | none => .error .outOfRange
  | some last =>
    if last.isAbortMark then .error (.fault (Fault.incompleteTokens.diagnoseAt last.span))
    else match region? c.tokens with
      | none => .ok c
      | some (_, none) => .error (.fault (Fault.missingCloseTag.diagnoseAt last.span))
      | some (pos, some stop) => .ok ⟨c.tokens, pos, stop⟩

def read (c : Cursor) : Except ParseFailure Node × Cursor :=
  match c.enter with
  | .error f => (.error f, c)
  | .ok c => (Grammar.program : Parser Node) c

end Cursor

def Node.ofTokens (ts : List Token) : Except ParseFailure Node := (Cursor.ofTokens ts).read.1

end TemplateScript
