import TemplateScript.Run

/-!
# Reports

Diagnostics and outcomes as JSON documents.
-/

namespace TemplateScript

def Location.toJson (l : Location) : JsonValue :=
  .object [("line", .ofInt l.line), ("column", .ofInt l.column), ("offset", .ofInt l.offset)]

def Span.toJson (s : Span) : JsonValue :=
  .object [("start", s.start.toJson), ("end", s.stop.toJson)]

def Diagnostic.toJson (d : Diagnostic) : JsonValue :=
  .object
    [("code", .string d.code), ("message", .string d.message),
     ("severity", .string d.severity.label),
     ("range", match d.span with
      | none => .null
      | some s => s.toJson),
     ("hints", .array (d.hints.map .string))]

/-- The diagnostics and how many there are of each severity. -/
def Collector.fields (c : Collector) : List (String × JsonValue) :=
  [("diagnostics", .array (c.diagnostics.map Diagnostic.toJson)), ("error_count", .ofInt c.errors),
   ("warning_count", .ofInt c.warnings)]

def Outcome.toJson (o : Outcome) : JsonValue :=
  .object
    ([("success", .bool o.success), ("value", o.value.toJson), ("error", .ofOption o.message)]
      ++ o.collector.fields)

end TemplateScript
