import TemplateScript.Command

/-!
# Folders

A command reads its file from a place among the files of a system. Every step of a name leads on
from a folder: the step `..` to the folder above, and from the top to the top again, any other step
to what the folder holds under it. The first step that fails decides why the file cannot be read.
-/

namespace TemplateScript.Command

/-- The files of a system by their steps from the top, and the steps to the folder that names start
from. There is a folder wherever a file is below, and that one. -/
structure Folder where
  place : List String
  files : List (List String × ByteArray)

namespace Folder

def hasFolder (f : Folder) (steps : List String) : Bool :=
  steps.isPrefixOf f.place || f.files.any fun p => steps.isPrefixOf p.1

/-- Follows steps from a folder; the name as a whole is for the failure. -/
def follow (f : Folder) (path : String) (here : List String) :
    List String → Except ReadFailure ByteArray
  | [] => .error (.directory path)
  | ".." :: steps => f.follow path here.dropLast steps
  | step :: steps =>
    let next := here ++ [step]
    if step.utf8ByteSize > 255 then .error (.longName path)
    else match f.files.lookup next with
      | some b => if steps.isEmpty then .ok b else .error (.notDirectory path)
      | none => if f.hasFolder next then f.follow path next steps else .error (.absent path)

/-- What is read under a file name. A name as a whole has fewer than 4096 bytes. -/
def read (f : Folder) (file : String) : Content :=
  let path := cleanPath file
  let here := if path.startsWith "/" then [] else f.place
  if path.utf8ByteSize ≥ 4096 then .unreadable (.longName path)
  else match f.follow path here ((pathSteps path).map String.ofList) with
    | .ok b => .bytes b
    | .error e => .unreadable e

end Folder

end TemplateScript.Command
