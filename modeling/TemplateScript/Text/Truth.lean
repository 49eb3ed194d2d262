/-!
# Truth values

A truth value goes by its name.
-/

namespace TemplateScript.Text

def truth (b : Bool) : String := if b then "True" else "False"

end TemplateScript.Text
