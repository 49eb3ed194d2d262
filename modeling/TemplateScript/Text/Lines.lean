/-!
# Lines of a text

A line ends at a line feed, a carriage return or both in that order, and at the other line and
record separators. A break at the very end opens no further line.
-/

namespace TemplateScript.Text

def isLineBreak (c : Char) : Bool :=
  c ∈ ['\n', '\r', '\x0b', '\x0c', '\x1c', '\x1d', '\x1e', '\u0085', '\u2028', '\u2029']

/-- The lines of a text, without their breaks. -/
def lines : List Char → List (List Char)
  | [] => []
  | '\r' :: '\n' :: r => [] :: lines r
  | c :: r =>
    if isLineBreak c then [] :: lines r
    else match lines r with
      | [] => [[c]]
      | l :: ls => (c :: l) :: ls

/-- The line with the given number, counted from one. -/
def line? (ls : List String) (n : Int) : Option String :=
  if 1 ≤ n then ls[(n - 1).toNat]? else none

end TemplateScript.Text
