import TemplateScript.Command

/-!
# The program

Reads the arguments, the environment and the file, and carries the command out.
-/

namespace TemplateScript

def usageText : String :=
  "usage: [-h] [--log-level LEVEL] (tokens | ast | run [--permissive] [--json]) FILE\n"

partial def readAll (stream : IO.FS.Stream) (read : ByteArray) : IO ByteArray := do
  let chunk ← stream.read 65536
  if chunk.isEmpty then return read else readAll stream (read ++ chunk)

def readFailure (path : String) : IO.Error → Command.ReadFailure
  | .noFileOrDirectory .. | .noSuchThing .. => .absent path
  | .permissionDenied .. => ⟨13, "Permission denied", path⟩
  | .inappropriateType _ code _ =>
    if code = 20 ∨ code = -20 then .notDirectory path else .directory path
  | .invalidArgument _ code _ =>
    if code = 36 ∨ code = -36 then .longName path else ⟨22, "Invalid argument", path⟩
  | e => ⟨5, toString e, path⟩

/-- The content of a file, or of the standard input for a lone minus sign. -/
def readContent (file : String) : IO Command.Content := do
  if file = "-" then return .bytes (← readAll (← IO.getStdin) ByteArray.empty)
  let path := Command.cleanPath file
  try return .bytes (← IO.FS.readBinFile path)
  catch e => return .unreadable (readFailure path e)

def environment : IO Settings := do
  let permissive ← IO.getEnv Settings.permissiveVariable
  let level ← IO.getEnv Settings.logLevelVariable
  return .ofEnvironment fun name => if name = Settings.permissiveVariable then permissive else level

def present (e : Command.Effect) : IO UInt32 := do
  (← IO.getStdout).putStr e.output
  let stderr ← IO.getStderr
  stderr.putStr e.errors
  match e.ending with
  | .exit code => return code.toUInt32
  | .breakdown b =>
    stderr.putStrLn b.message
    return 1
  | .undecodable =>
    stderr.putStrLn "the file is not UTF-8"
    return 1

end TemplateScript

def main (args : List String) : IO UInt32 := do
  match TemplateScript.Command.readArguments args with
  | .error .help =>
    IO.print TemplateScript.usageText
    return 0
  | .error .wrong =>
    IO.eprint TemplateScript.usageText
    return 2
  | .ok inv =>
    let content ← TemplateScript.readContent inv.file
    TemplateScript.present (TemplateScript.Command.perform inv (← TemplateScript.environment) content)
