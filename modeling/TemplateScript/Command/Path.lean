/-!
# File names

A file name is shown without doubled or trailing slashes and without steps to the same place. An
empty name means the place itself.
-/

namespace TemplateScript.Command

/-- The steps of a name between its slashes. -/
def pathSteps (path : String) : List (List Char) :=
  (path.toList.splitOn '/').filter fun step => step ≠ [] ∧ step ≠ ['.']

/-- The slashes that a name begins with: two are kept, more mean the same as one. -/
def pathRoot : List Char → List Char
  | '/' :: '/' :: '/' :: _ => ['/']
  | '/' :: '/' :: _ => ['/', '/']
  | '/' :: _ => ['/']
  | _ => []

def cleanPath (path : String) : String :=
  let root := pathRoot path.toList
  match root, pathSteps path with
  | [], [] => "."
  | _, steps => String.ofList (root ++ ['/'].intercalate steps)

end TemplateScript.Command
