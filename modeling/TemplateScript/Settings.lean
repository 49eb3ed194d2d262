import TemplateScript.Journal
import TemplateScript.Text.Blank
import TemplateScript.Text.UpperCase

/-!
# Settings

Two environment variables set the defaults of the command line: whether evaluation is permissive,
and the level below which log entries are not shown.
-/

namespace TemplateScript

structure Settings where
  permissive : Bool
  logLevel : String
  deriving DecidableEq, Repr

namespace Settings

def permissiveVariable : String := "TRANSCRIPT_PERMISSIVE"

def logLevelVariable : String := "TRANSCRIPT_LOG_LEVEL"

/-- Words for yes in any case. No letter but the ASCII ones has a lower-case form among theirs. -/
def isYes (s : String) : Bool :=
  String.ofList ((Text.trim s.toList).map Char.toLower) ∈ ["1", "true", "yes", "on"]

def ofEnvironment (setting? : String → Option String) : Settings :=
  let level := Text.upper (Text.trim ((setting? logLevelVariable).getD "WARNING").toList)
  { permissive := isYes ((setting? permissiveVariable).getD "")
    logLevel := if level.isEmpty then "WARNING" else String.ofList level }

/-- The level of a name in any case. -/
def level? (name : String) : Option LogLevel :=
  LogLevel.ofName? (String.ofList (Text.upper name.toList))

def unknownLevel (name : String) : String := "Unknown log level: " ++ name

end Settings

end TemplateScript
