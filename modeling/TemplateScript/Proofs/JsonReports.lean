import TemplateScript.Proofs.DistinctNames
import TemplateScript.Proofs.JsonDecoding
import TemplateScript.Proofs.JsonText
import TemplateScript.Proofs.OutcomeReports
import TemplateScript.Proofs.RunCommand

/-!
# Reports are JSON unless a double is not finite

A run that is asked for JSON prints its outcome as a document. The document is JSON if all doubles in
the value are finite, and then it tells the whole outcome; with another double in the value what is
printed is no JSON at all.
-/

namespace TemplateScript

/-! ## What a document tells -/

namespace JsonValue

mutual

/-- The value that a document stands for, if it has neither texts nor lists. Of two fields of one name
the later one counts. -/
def toValue? : JsonValue → Option Value
  | null => some .null
  | bool b => some (.bool b)
  | number n => some (.number n)
  | object fields => (toValues? [] fields).map .object
  | string _ | array _ => none

def toValues? (table : Table Value) : List (String × JsonValue) → Option (Table Value)
  | [] => some table
  | (key, j) :: fields => j.toValue?.bind fun v => toValues? (table.put key v) fields

end

def Tells (j : JsonValue) (o : Outcome) : Prop :=
  ∃ value, value.toValue? = some o.value ∧ j = .object
    [("success", .bool o.success), ("value", value), ("error", .ofOption o.message),
     ("diagnostics", .array (o.diagnostics.map Diagnostic.toJson)),
     ("error_count", .ofInt o.diagnostics.errorCount),
     ("warning_count", .ofInt o.diagnostics.warningCount)]

theorem toValues?_toJsonFields {ps : List (String × Value)}
    (h : ∀ p ∈ ps, p.2.toJson.toValue? = some p.2) (table : Table Value)
    (hkeys : ((table ++ ps).map Prod.fst).Nodup) :
    toValues? table (Value.toJsonFields ps) = some (table ++ ps) := by
  induction ps generalizing table with
  | nil => rw [Value.toJsonFields, toValues?, List.append_nil]
  | cons p ps ih =>
    obtain ⟨key, v⟩ := p
    have hput : table ++ (key, v) :: ps = table.put key v ++ ps := Table.append_cons_eq_put hkeys
    rw [hput] at hkeys ⊢
    rw [Value.toJsonFields, toValues?, h (key, v) List.mem_cons_self, Option.bind_some]
    exact ih (fun q hq => h q (List.mem_cons_of_mem _ hq)) _ hkeys

end JsonValue

open JsonValue

theorem Value.Distinct.toValue?_toJson {v : Value} (h : v.Distinct) : v.toJson.toValue? = some v := by
  induction h with
  | null => rfl
  | bool b => rfl
  | number n => rfl
  | object hkeys _ ih =>
    simp only [Value.toJson, toValue?]
    rw [toValues?_toJsonFields ih [] hkeys]
    rfl

theorem Outcome.tells_toJson {o : Outcome} (hvalue : o.value.Distinct)
    (hcounted : o.collector.Counted) : o.toJson.Tells o := by
  refine ⟨o.value.toJson, hvalue.toValue?_toJson, ?_⟩
  have herrors : o.collector.errors = o.diagnostics.errorCount := hcounted
  rw [Outcome.toJson, Collector.fields, herrors]
  rfl

/-! ## Numbers of a report -/

mutual

theorem Value.numbers_toJson : ∀ v : Value, v.toJson.numbers = v.numbers
  | null | bool _ | number _ => rfl
  | object ps => Value.numbers_toJsonFields ps

theorem Value.numbers_toJsonFields :
    ∀ ps : List (String × Value), numbersFields (toJsonFields ps) = numbersAll ps
  | [] => rfl
  | (_, v) :: ps => by
    rw [toJsonFields, numbersFields, v.numbers_toJson, Value.numbers_toJsonFields ps, numbersAll]

end

theorem JsonValue.numbersItems_strings (hints : List String) :
    numbersItems (hints.map JsonValue.string) = [] := by
  induction hints with
  | nil => rfl
  | cons s hints ih => simpa [numbersItems, numbers] using ih

theorem Diagnostic.finite_toJson (d : Diagnostic) : ∀ n ∈ d.toJson.numbers, n.IsFinite := by
  have hint : ∀ k : Int, (Number.int k).IsFinite := fun _ => trivial
  cases hspan : d.span <;>
    simp [Diagnostic.toJson, hspan, numbers, numbersFields, numbersItems_strings, Span.toJson,
      Location.toJson, ofInt, hint]

theorem Diagnostics.finite_toJson (ds : Diagnostics) :
    ∀ n ∈ numbersItems (ds.map Diagnostic.toJson), n.IsFinite := by
  induction ds with
  | nil => simp [numbersItems]
  | cons d ds ih =>
    rw [List.map_cons, numbersItems]
    exact List.forall_mem_append.2 ⟨d.finite_toJson, ih⟩

theorem Outcome.finite_toJson (o : Outcome) :
    (∀ n ∈ o.toJson.numbers, n.IsFinite) ↔ ∀ n ∈ o.value.numbers, n.IsFinite := by
  have hint : ∀ k : Int, (Number.int k).IsFinite := fun _ => trivial
  have herror : numbers (.ofOption o.message) = [] := by
    cases o.message <;> rfl
  have hdiagnostics := o.diagnostics.finite_toJson
  simp only [Outcome.toJson, Collector.fields, List.cons_append, List.nil_append, numbers,
    numbersFields, herror, ofInt, Value.numbers_toJson, List.append_nil, List.forall_mem_append]
  refine ⟨And.left, fun hvalue => ⟨hvalue, hdiagnostics, ?_⟩⟩
  exact List.forall_mem_cons.2 ⟨hint _, List.forall_mem_singleton.2 (hint _)⟩

namespace Command

/-- If a run that is asked for JSON prints its report then it has an outcome. The report is a JSON text
if and only if the doubles in the value are finite, and then the one document that it stands for tells
the outcome. -/
theorem report_isJson_iff_finite {inv : Invocation} {environment : Settings} {b : ByteArray}
    {level : LogLevel} {source : String} (h : RunsFile inv environment b level source)
    (hjson : inv.json = true) {code : Nat}
    (hprinted : (perform inv environment (.bytes b)).ending = .exit code) :
    ∃ o, (run (runMode inv environment) inv.file source 0 .start).outcome = .ok o ∧
      code = (if o.success then 0 else 1) ∧
      let text := (perform inv environment (.bytes b)).output.toList
      (Json.IsJson text ↔ ∀ n ∈ o.value.numbers, n.IsFinite) ∧
      (Json.IsJson text → ∃ j, (∀ k, Json.Denotes text k ↔ k = j) ∧ j.Tells o) := by
  rw [h.perform_eq] at hprinted ⊢
  cases ho : (run (runMode inv environment) inv.file source 0 .start).outcome with
  | error e =>
    simp only [runScript, ho] at hprinted
    cases hprinted
  | ok o =>
    have hcases := runScript_cases level inv.json ho
    generalize runScript level (runMode inv environment) inv.json inv.file source = e at *
    rcases hcases with ⟨-, hreports⟩ | ⟨-, hending⟩
    · obtain ⟨text, htext, houtput⟩ := hreports.document hjson
      have hblank : Json.Blank ['\n'] := by simp [Json.Blank]
      have hcode : code = if o.success then 0 else 1 := by
        rw [hreports.status] at hprinted
        exact (Ending.exit.inj hprinted).symm
      have hlist : e.output.toList = text.toList ++ ['\n'] := by
        rw [houtput, String.toList_append]
        rfl
      refine ⟨o, rfl, hcode, ?_⟩
      simp only [hlist]
      by_cases hfin : ∀ n ∈ o.toJson.numbers, n.IsFinite
      · have hdenotes := denotes_indented hfin htext hblank
        refine ⟨iff_of_true ⟨_, hdenotes.isJson⟩ (o.finite_toJson.1 hfin), fun _ => ?_⟩
        have htells := Outcome.tells_toJson (run_distinct Forest.distinct_start ho) (run_counted ho)
        exact ⟨o.toJson, fun k => ⟨fun hk => hk.unique hdenotes, fun hk => hk ▸ hdenotes⟩, htells⟩
      · have hnot := not_isJson_indented (by simpa using hfin) htext ['\n']
        refine ⟨iff_of_false hnot fun hvalue => hfin (o.finite_toJson.2 hvalue), ?_⟩
        exact fun hjson => absurd hjson hnot
    · cases hprinted.symm.trans hending

def jsonRun : Invocation := { plainRun with json := true }

def halves : String := "let x=7;let o={half:x/2};o"

theorem halves_isJson :
    RunsFile jsonRun plainSettings halves.toUTF8 .warning halves ∧ jsonRun.json = true ∧
    (perform jsonRun plainSettings (.bytes halves.toUTF8)).ending = .exit 0 ∧
    ∃ o, (run (runMode jsonRun plainSettings) "squares" halves 0 .start).outcome = .ok o ∧
      0 = (if o.success then 0 else 1) ∧
      let text := (perform jsonRun plainSettings (.bytes halves.toUTF8)).output.toList
      (Json.IsJson text ↔ ∀ n ∈ o.value.numbers, n.IsFinite) ∧
      (Json.IsJson text → ∃ j, (∀ k, Json.Denotes text k ↔ k = j) ∧ j.Tells o) := by
  have hfile : RunsFile jsonRun plainSettings halves.toUTF8 .warning halves :=
    ⟨rfl, by decide +kernel, by decide, by decide +kernel⟩
  have hprinted : (perform jsonRun plainSettings (.bytes halves.toUTF8)).ending = .exit 0 := by
    decide +kernel
  exact ⟨hfile, rfl, hprinted, report_isJson_iff_finite hfile rfl hprinted⟩

def infiniteSquares : String := "let x=100000000000000000000/3;x=x*x;x=x*x;x=x*x;x=x*x;x"

/-- The run is a success and its report is printed, but the report is no JSON text. -/
theorem infiniteSquares_not_isJson :
    RunsFile jsonRun plainSettings infiniteSquares.toUTF8 .warning infiniteSquares ∧
    (perform jsonRun plainSettings (.bytes infiniteSquares.toUTF8)).ending = .exit 0 ∧
    ¬ Json.IsJson (perform jsonRun plainSettings (.bytes infiniteSquares.toUTF8)).output.toList := by
  refine ⟨⟨rfl, by decide +kernel, by decide, by decide +kernel⟩, by decide +kernel, ?_⟩
  rintro ⟨j, hj⟩
  have hnone : Json.Place.outside.along?
      (perform jsonRun plainSettings (.bytes infiniteSquares.toUTF8)).output.toList = none := by
    decide +kernel
  cases hj.along?.symm.trans hnone

end Command

end TemplateScript
