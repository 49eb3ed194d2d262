/-!
# Padding

A text is filled up with blanks to a width, on its left or on its right; a longer text stays as it
is.
-/

namespace TemplateScript.Text

def blanks (n : Nat) : String := String.ofList (List.replicate n ' ')

def padLeft (width : Nat) (s : String) : String := blanks (width - s.length) ++ s

def padRight (width : Nat) (s : String) : String := s ++ blanks (width - s.length)

end TemplateScript.Text
