import TemplateScript.Collector
import TemplateScript.Fault

/-!
# Journals

A journal keeps what a scan or an evaluation reports: the diagnostics, and the log, one entry for
each report as it was made.
-/

namespace TemplateScript

inductive LogLevel where
  | notset
  | debug
  | info
  | warning
  | error
  | critical
  deriving DecidableEq, Repr

namespace LogLevel

def number : LogLevel → Nat
  | notset => 0
  | debug => 10
  | info => 20
  | warning => 30
  | error => 40
  | critical => 50

def label : LogLevel → String
  | notset => "NOTSET"
  | debug => "DEBUG"
  | info => "INFO"
  | warning => "WARNING"
  | error => "ERROR"
  | critical => "CRITICAL"

/-- Two levels have a second name. -/
def ofName? : String → Option LogLevel
  | "NOTSET" => some notset
  | "DEBUG" => some debug
  | "INFO" => some info
  | "WARN" | "WARNING" => some warning
  | "ERROR" => some error
  | "FATAL" | "CRITICAL" => some critical
  | _ => none

end LogLevel

inductive Logger where
  | scanner
  | evaluator
  deriving DecidableEq, Repr

def Logger.label : Logger → String
  | .scanner => "transcript.lexer"
  | .evaluator => "transcript.runtime.interpreter"

structure LogEntry where
  level : LogLevel
  logger : Logger
  message : String
  deriving DecidableEq, Repr

def LogEntry.render (e : LogEntry) : String :=
  e.level.label ++ " " ++ e.logger.label ++ ": " ++ e.message

structure Journal where
  collector : Collector := {}
  log : List LogEntry := []
  deriving Repr

namespace Journal

def empty : Journal := {}

abbrev diagnostics (j : Journal) : Diagnostics := j.collector.diagnostics

/-- Adds a report at the end. -/
def report (j : Journal) (d : Diagnostic) (e : LogEntry) : Journal :=
  ⟨j.collector.add d, j.log ++ [e]⟩

/-- Puts a report in front, ahead of what follows it. -/
def reportFirst (j : Journal) (d : Diagnostic) (e : LogEntry) : Journal :=
  ⟨j.collector.addFirst d, e :: j.log⟩

end Journal

end TemplateScript
