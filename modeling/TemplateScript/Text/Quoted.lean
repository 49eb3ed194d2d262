import TemplateScript.Text.Printable

/-!
# Quoted text

A text in quotes, on one line. Single quotes are used unless the text holds a single quote and no
double one. The backslash, the delimiter and every character without a visible form are escaped.
-/

namespace TemplateScript.Text

def hexDigits (width n : Nat) : List Char :=
  let ds := Nat.toDigits 16 n
  List.replicate (width - ds.length) '0' ++ ds

def quoteChar (delimiter c : Char) : List Char :=
  if c = delimiter ∨ c = '\\' then ['\\', c]
  else if c = '\n' then ['\\', 'n']
  else if c = '\r' then ['\\', 'r']
  else if c = '\t' then ['\\', 't']
  else if isPrintable c then [c]
  else if c.toNat < 0x100 then '\\' :: 'x' :: hexDigits 2 c.toNat
  else if c.toNat < 0x10000 then '\\' :: 'u' :: hexDigits 4 c.toNat
  else '\\' :: 'U' :: hexDigits 8 c.toNat

def delimiter (cs : List Char) : Char :=
  if '\'' ∈ cs ∧ '"' ∉ cs then '"' else '\''

def quoteChars (cs : List Char) : List Char :=
  let d := delimiter cs
  d :: cs.flatMap (quoteChar d) ++ [d]

def quote (s : String) : String := String.ofList (quoteChars s.toList)

end TemplateScript.Text
