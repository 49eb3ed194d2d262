import TemplateScript.Command.Arguments
import TemplateScript.Command.Path
import TemplateScript.Node.Dump
import TemplateScript.Report
import TemplateScript.Settings
import TemplateScript.Text.Decoded

/-!
# The command line

Three actions on a file: to show its tokens, to show its tree, and to run its script. A command
writes results to one channel and everything else, the log included, to the other.
-/

namespace TemplateScript.Command

/-- Why a file cannot be read. -/
structure ReadFailure where
  number : Nat
  reason : String
  path : String
  deriving DecidableEq, Repr

def ReadFailure.message (f : ReadFailure) : String :=
  "[Errno " ++ toString f.number ++ "] " ++ f.reason ++ ": " ++ Text.quote f.path

namespace ReadFailure

def absent (path : String) : ReadFailure := ⟨2, "No such file or directory", path⟩

def notDirectory (path : String) : ReadFailure := ⟨20, "Not a directory", path⟩

def directory (path : String) : ReadFailure := ⟨21, "Is a directory", path⟩

def longName (path : String) : ReadFailure := ⟨36, "File name too long", path⟩

end ReadFailure

inductive Content where
  | bytes (b : ByteArray)
  | unreadable (f : ReadFailure)

inductive Ending where
  | exit (code : Nat)
  | breakdown (b : Breakdown)
  | undecodable
  deriving DecidableEq, Repr

structure Effect where
  output : String
  errors : String
  ending : Ending
  deriving DecidableEq, Repr

namespace Effect

def printed (output errors : String) (code : Nat) : Effect := ⟨output, errors, .exit code⟩

def ofText (text : Except Breakdown String) (errors : String) (code : Nat) : Effect :=
  match text with
  | .ok s => printed (s ++ "\n") errors code
  | .error b => ⟨"", errors, .breakdown b⟩

end Effect

def errorLine (message : String) : String := "Error: " ++ message ++ "\n"

def shownLog (level : LogLevel) (log : List LogEntry) : String :=
  String.join ((log.filter fun e => level.number ≤ e.level.number).map (·.render ++ "\n"))

/-- Settings from the environment, as changed by the command line. An empty level counts as not
given. -/
def settings (inv : Invocation) (s : Settings) : Settings :=
  { permissive := s.permissive || inv.permissive
    logLevel := match inv.logLevel with
      | none | some "" => s.logLevel
      | some name => name }

def tokenRow (t : Token) : String :=
  Text.padLeft 4 (toString t.span.start.line) ++ ":"
    ++ Text.padRight 4 (toString t.span.start.column) ++ " " ++ Text.padRight 16 t.kind.label ++ " "
    ++ Text.quote t.text ++ "\n"

def showTokens (level : LogLevel) (file source : String) : Effect :=
  let s := scan source file
  let rows := String.join (s.tokens.map tokenRow)
  let log := shownLog level s.journal.log
  if s.aborted then .printed rows (log ++ s.journal.collector.render true ++ "\n") 1
  else .printed rows log 0

def showTree (level : LogLevel) (file source : String) : Effect :=
  let s := scan source file
  let log := shownLog level s.journal.log
  match Node.ofTokens s.tokens with
  | .ok n => .ofText n.dump log 0
  | .error (.fault d) => .printed "" (log ++ errorLine (d.render true)) 1
  | .error _ => .printed "" log 1

/-- The outcome of a run for readers: the diagnostics, and the value unless a strict run failed. -/
def showOutcome (mode : Mode) (log : String) (o : Outcome) : Effect :=
  let errors := log ++ if o.diagnostics.isEmpty then "" else o.collector.render true ++ "\n"
  let code := if o.success then 0 else 1
  if o.success ∨ mode = .permissive then .ofText o.value.spell errors code
  else .printed "" errors code

def runScript (level : LogLevel) (mode : Mode) (json : Bool) (file source : String) : Effect :=
  let r := run mode file source 0 .start
  let log := shownLog level r.log
  match r.outcome with
  | .error b => ⟨"", log, .breakdown b⟩
  | .ok o =>
    if json then .ofText (o.toJson.indented 0) log (if o.success then 0 else 1)
    else showOutcome mode log o

def act (inv : Invocation) (s : Settings) (level : LogLevel) (source : String) : Effect :=
  match inv.action with
  | .tokens => showTokens level inv.file source
  | .tree => showTree level inv.file source
  | .run => runScript level (if s.permissive then .permissive else .strict) inv.json inv.file source

/-- The source that is read: the standard input as it stands, for a lone minus sign, or a file. -/
def sourceOf (file : String) (b : ByteArray) : Option String :=
  if file = "-" then String.fromUTF8? b else Text.decode? b

def perform (inv : Invocation) (environment : Settings) (content : Content) : Effect :=
  let s := settings inv environment
  match Settings.level? s.logLevel with
  | none => .printed "" (errorLine (Settings.unknownLevel s.logLevel)) 2
  | some level =>
    if '\x00' ∈ inv.file.toList then ⟨"", "", .breakdown .nullInName⟩
    else match content with
      | .unreadable f => .printed "" (errorLine f.message) 1
      | .bytes b =>
        match sourceOf inv.file b with
        | none => ⟨"", "", .undecodable⟩
        | some source => act inv s level source

end TemplateScript.Command
