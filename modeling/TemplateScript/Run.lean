import TemplateScript.Evaluation
import TemplateScript.Node.Cursor
import TemplateScript.Token.Scan

/-!
# Running a script

A run scans a source, reads the tokens of its region and evaluates the program. Every failure that
has a diagnostic becomes part of the outcome, with the source line it stands on.
-/

namespace TemplateScript

structure Outcome where
  success : Bool
  value : Value
  collector : Collector
  message : Option String

abbrev Outcome.diagnostics (o : Outcome) : Diagnostics := o.collector.diagnostics

/-- What a run gives, the scopes it leaves and what it logged. -/
structure Run where
  outcome : Except Breakdown Outcome
  forest : Forest
  log : List LogEntry

def Outcome.failed (c : Collector) (message : String) : Outcome := ⟨false, .null, c, some message⟩

/-- Evaluates a tree; a fault that nothing caught is reported last. -/
def execute (mode : Mode) (scope : Nat) (n : Node) (f : Forest) : Run :=
  match n.evaluate mode scope ⟨f, .empty⟩ with
  | (.ok v, st) =>
    let c := st.journal.collector
    ⟨.ok ⟨!c.hasErrors, v, c, none⟩, st.forest, st.journal.log⟩
  | (.error (.fault d), st) =>
    let st := (Eval.report d st).2
    ⟨.ok (.failed st.journal.collector d.message), st.forest, st.journal.log⟩
  | (.error (.breakdown b), st) => ⟨.error b, st.forest, st.journal.log⟩

/-- What a scan reported, for more to be added to it. -/
def Scan.collected (s : Scan) : Collector := Collector.empty.extend s.journal.collector

namespace Run

/-- Puts what a scan reported ahead of a run and gives every diagnostic its source line. -/
def behind (s : Scan) (line? : Int → Option String) (r : Run) : Run :=
  { r with
    outcome := r.outcome.map fun o =>
      { o with collector := (s.collected.extend o.collector).attach line? }
    log := s.journal.log ++ r.log }

/-- What a reading that reports a fault makes of a run. -/
def stopped (f : Forest) (d : Diagnostic) : Run :=
  ⟨.ok (.failed (Collector.empty.add d) d.message), f, []⟩

end Run

def Scan.abortMessage (s : Scan) : String :=
  ((s.journal.diagnostics.find? (·.code = "E001")).map (·.message)).getD ""

/-- Runs a source in a scope. A scan leaves at least an end mark, so a reading of its tokens fails with
a fault if it fails. -/
def run (mode : Mode) (file : Option String) (source : String) (scope : Nat) (f : Forest) : Run :=
  let s := scan source file
  let line? := Text.line? (sourceLines source)
  if s.aborted then ⟨.ok (.failed s.collected s.abortMessage), f, s.journal.log⟩
  else match Node.ofTokens s.tokens with
    | .ok n => (execute mode scope n f).behind s line?
    | .error (.fault d) => (Run.stopped f d).behind s line?
    | .error _ => ⟨.ok (.failed s.collected ""), f, s.journal.log⟩

end TemplateScript
