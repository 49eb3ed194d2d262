import TemplateScript.Breakdown
import TemplateScript.Number
import TemplateScript.Text.Quoted

/-!
# JSON documents

A document is written on one line, or with two blanks of indentation for each level. Only ASCII is
written; other characters are escaped as one or two UTF-16 units. The doubles that are no numbers of
JSON are written by name.
-/

namespace TemplateScript

inductive JsonValue where
  | null
  | bool (b : Bool)
  | number (n : Number)
  | string (s : String)
  | array (items : List JsonValue)
  | object (fields : List (String × JsonValue))
  deriving Inhabited

namespace JsonValue

def ofInt (n : Int) : JsonValue := number (.int n)

def ofOption : Option String → JsonValue
  | none => null
  | some s => string s

def unit (n : Nat) : List Char := '\\' :: 'u' :: Text.hexDigits 4 n

def escapeChar (c : Char) : List Char :=
  match c with
  | '"' => ['\\', '"']
  | '\\' => ['\\', '\\']
  | '\n' => ['\\', 'n']
  | '\r' => ['\\', 'r']
  | '\t' => ['\\', 't']
  | '\x08' => ['\\', 'b']
  | '\x0c' => ['\\', 'f']
  | _ =>
    if ' ' ≤ c ∧ c ≤ '~' then [c]
    else if c.toNat < 0x10000 then unit c.toNat
    else
      let n := c.toNat - 0x10000
      unit (0xd800 + n / 0x400) ++ unit (0xdc00 + n % 0x400)

def quoted (s : String) : String := "\"" ++ String.ofList (s.toList.flatMap escapeChar) ++ "\""

def numberText (n : Number) : Except Breakdown String :=
  match n with
  | .int n => orDigitLimit (Numeral.write? n)
  | .real x => .ok <|
    match Double.shape x with
    | .nan => "NaN"
    | .infinite negative => if negative then "-Infinity" else "Infinity"
    | .finite .. => Double.render x

mutual
def compact : JsonValue → Except Breakdown String
  | null => .ok "null"
  | bool b => .ok (if b then "true" else "false")
  | number n => numberText n
  | string s => .ok (quoted s)
  | array items => (compactItems items).map fun rows => "[" ++ ", ".intercalate rows ++ "]"
  | object fields =>
    (compactFields fields).map fun rows => "\x7b" ++ ", ".intercalate rows ++ "\x7d"
def compactItems : List JsonValue → Except Breakdown (List String)
  | [] => .ok []
  | v :: vs => do
    let first ← compact v
    let rest ← compactItems vs
    .ok (first :: rest)
def compactFields : List (String × JsonValue) → Except Breakdown (List String)
  | [] => .ok []
  | (key, v) :: vs => do
    let first ← compact v
    let rest ← compactFields vs
    .ok ((quoted key ++ ": " ++ first) :: rest)
end

def newline (depth : Nat) : String := String.ofList ('\n' :: List.replicate (2 * depth) ' ')

/-- Rows between brackets, each on a line of its own one level deeper. -/
def block (depth : Nat) (opening closing : String) (rows : List String) : String :=
  if rows.isEmpty then opening ++ closing
  else opening ++ newline (depth + 1) ++ ("," ++ newline (depth + 1)).intercalate rows
    ++ newline depth ++ closing

mutual
def indented (depth : Nat) : JsonValue → Except Breakdown String
  | null => .ok "null"
  | bool b => .ok (if b then "true" else "false")
  | number n => numberText n
  | string s => .ok (quoted s)
  | array items => (indentedItems (depth + 1) items).map (block depth "[" "]")
  | object fields => (indentedFields (depth + 1) fields).map (block depth "\x7b" "\x7d")
def indentedItems (depth : Nat) : List JsonValue → Except Breakdown (List String)
  | [] => .ok []
  | v :: vs => do
    let first ← indented depth v
    let rest ← indentedItems depth vs
    .ok (first :: rest)
def indentedFields (depth : Nat) : List (String × JsonValue) → Except Breakdown (List String)
  | [] => .ok []
  | (key, v) :: vs => do
    let first ← indented depth v
    let rest ← indentedFields depth vs
    .ok ((quoted key ++ ": " ++ first) :: rest)
end

end JsonValue

end TemplateScript
