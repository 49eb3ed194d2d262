import TemplateScript.Proofs.DigitLimit

/-!
# Runs at the command line

A run of a readable file ends with the status of its outcome and prints what the options ask for. A
whole number that has too many digits to be printed is the one thing that can keep it from that.
-/

namespace TemplateScript.Command

def runMode (inv : Invocation) (environment : Settings) : Mode :=
  if (settings inv environment).permissive then .permissive else .strict

section
variable {file : String}

def IsFileName (file : String) : Prop := file = "-" ∨ file.toList.head? ≠ some '-'

theorem IsFileName.role (h : IsFileName file) (flags : Flags) : role flags file = .plain := by
  rcases h with rfl | h
  · rfl
  · unfold Command.role
    split <;> simp_all

def runArguments (permissive json : Bool) (file : String) : List String :=
  ["run"] ++ (if permissive then ["--permissive"] else []) ++ (if json then ["--json"] else [])
    ++ [file]

/-- Such arguments are read as a run of the file in the given mode, reported as asked. -/
theorem readArguments_run (h : IsFileName file) (permissive json : Bool) :
    readArguments (runArguments permissive json file)
      = .ok ⟨.run, file, none, permissive, json⟩ := by
  have hfile : ∀ flags, role flags file = .plain := h.role
  have haction : role leadingFlags "run" = .plain := rfl
  -- The flags of an action are not known ahead of it.
  have hpermissive : role leadingFlags "--permissive" = .unknown := by decide
  have hjson : role leadingFlags "--json" = .unknown := by decide
  have hpermissive' : role Action.run.flags "--permissive" = .flag .permissive none := by decide
  have hjson' : role Action.run.flags "--json" = .flag .json none := by decide
  cases permissive <;> cases json <;>
    simp [runArguments, readArguments, roles, readLeading, readAction, Action.ofName?, readRequest,
      bind, Except.bind, hfile, haction, hpermissive, hjson, hpermissive', hjson']

end

/-- The command is to run a file with a given text, and no option is at fault. -/
structure RunsFile (inv : Invocation) (environment : Settings) (b : ByteArray) (level : LogLevel)
    (source : String) : Prop where
  action : inv.action = .run
  level : Settings.level? (settings inv environment).logLevel = some level
  file : '\x00' ∉ inv.file.toList
  text : sourceOf inv.file b = some source

/-- The arguments of a run, of a file that can be read as text, make the command run it. -/
theorem runsFile_of_arguments {permissive json : Bool} {file : String} {inv : Invocation}
    {environment : Settings} {b : ByteArray} {level : LogLevel} {source : String}
    (hname : IsFileName file) (hargs : readArguments (runArguments permissive json file) = .ok inv)
    (hlevel : Settings.level? environment.logLevel = some level) (hnull : '\x00' ∉ file.toList)
    (htext : sourceOf file b = some source) :
    RunsFile inv environment b level source ∧ inv.file = file ∧ inv.json = json ∧
      runMode inv environment
        = if environment.permissive ∨ permissive then .permissive else .strict := by
  rw [readArguments_run hname] at hargs
  cases hargs
  exact ⟨⟨rfl, hlevel, hnull, htext⟩, rfl, rfl, by simp [runMode, settings]⟩

/-- The command has exited with the status of an outcome. It has printed the document of the outcome,
or its value if the outcome is a success or the mode permissive. -/
structure Effect.Reports (e : Effect) (json : Bool) (mode : Mode) (o : Outcome) : Prop where
  status : e.ending = .exit (if o.success then 0 else 1)
  document : json = true → ∃ text, o.toJson.indented 0 = .ok text ∧ e.output = text ++ "\n"
  value : json = false → o.success = true ∨ mode = .permissive →
    ∃ text, o.value.spell = .ok text ∧ e.output = text ++ "\n"
  silent : json = false → ¬ (o.success = true ∨ mode = .permissive) → e.output = ""

def printedNumbers (json : Bool) (mode : Mode) (o : Outcome) : List Number :=
  if json then o.toJson.numbers
  else if o.success ∨ mode = .permissive then o.value.numbers
  else []

section
variable {inv : Invocation} {environment : Settings} {b : ByteArray} {level : LogLevel}
  {source : String}

theorem RunsFile.perform_eq (h : RunsFile inv environment b level source) :
    perform inv environment (.bytes b)
      = runScript level (runMode inv environment) inv.json inv.file source := by
  simp only [perform, h.level, if_neg h.file, h.text, act, h.action, runMode]

/-- Text that only a long number can keep from being there is printed, or the command breaks down. -/
theorem Effect.ofText_cases {ns : List Number} {r : Except Breakdown String} (h : Limited ns r)
    (errors : String) (code : Nat) :
    ((∀ n ∈ ns, ¬ n.IsLong) ∧ ∃ text, r = .ok text ∧
        Effect.ofText r errors code = .printed (text ++ "\n") errors code) ∨
      (∃ n ∈ ns, n.IsLong) ∧ Effect.ofText r errors code = ⟨"", errors, .breakdown .digitLimit⟩ := by
  by_cases hns : ∃ n ∈ ns, n.IsLong
  · refine Or.inr ⟨hns, ?_⟩
    rw [h.broken hns]
    rfl
  · have hns : ∀ n ∈ ns, ¬ n.IsLong := by simpa using hns
    obtain ⟨text, rfl⟩ := h.given hns
    exact Or.inl ⟨hns, text, rfl, rfl⟩

theorem runScript_cases (level : LogLevel) {mode : Mode} (json : Bool) {file : String} {o : Outcome}
    (h : (run mode file source 0 .start).outcome = .ok o) :
    (∀ n ∈ printedNumbers json mode o, ¬ n.IsLong) ∧
        (runScript level mode json file source).Reports json mode o ∨
      (∃ n ∈ printedNumbers json mode o, n.IsLong) ∧
        (runScript level mode json file source).ending = .breakdown .digitLimit := by
  unfold runScript printedNumbers
  simp only [h]
  cases json with
  | true =>
    have hcases := Effect.ofText_cases (JsonValue.limited_indented 0 o.toJson)
      (shownLog level (run mode file source 0 .start).log) (if o.success then 0 else 1)
    rcases hcases with ⟨hns, text, htext, heffect⟩ | ⟨hns, heffect⟩
    · refine Or.inl ⟨by simpa using hns, ?_⟩
      simp only [if_true, heffect]
      exact ⟨rfl, fun _ => ⟨text, htext, rfl⟩, by simp, by simp⟩
    · refine Or.inr ⟨by simpa using hns, ?_⟩
      simp only [if_true, heffect]
  | false =>
    simp only [showOutcome, Bool.false_eq_true, if_false]
    by_cases hshown : o.success = true ∨ mode = .permissive
    · simp only [if_pos hshown]
      have hcases := Effect.ofText_cases o.value.limited_spell
        (shownLog level (run mode file source 0 .start).log
          ++ if o.diagnostics.isEmpty then "" else o.collector.render true ++ "\n")
        (if o.success then 0 else 1)
      rcases hcases with ⟨hns, text, htext, heffect⟩ | ⟨hns, heffect⟩
      · rw [heffect]
        refine Or.inl ⟨hns, rfl, by simp, fun _ _ => ⟨text, htext, rfl⟩, ?_⟩
        exact fun _ hnot => absurd hshown hnot
      · rw [heffect]
        exact Or.inr ⟨hns, rfl⟩
    · simp only [if_neg hshown]
      exact Or.inl ⟨by simp, rfl, by simp, fun _ h => absurd h hshown, fun _ _ => rfl⟩

/-- If a run of a file has an outcome the command reports it, unless what it has to print holds a whole
number of more digits than may be written: then, and only then, it breaks down. -/
theorem run_reported_unless_long (h : RunsFile inv environment b level source) {o : Outcome}
    (ho : (run (runMode inv environment) inv.file source 0 .start).outcome = .ok o) :
    ((perform inv environment (.bytes b)).Reports inv.json (runMode inv environment) o ↔
        ∀ n ∈ printedNumbers inv.json (runMode inv environment) o, ¬ n.IsLong) ∧
      ((perform inv environment (.bytes b)).ending = .breakdown .digitLimit ↔
        ∃ n ∈ printedNumbers inv.json (runMode inv environment) o, n.IsLong) := by
  have hcases := runScript_cases level inv.json ho
  rw [h.perform_eq]
  rcases hcases with ⟨hns, hreports⟩ | ⟨hns, hending⟩
  · refine ⟨iff_of_true hreports hns, iff_of_false ?_ (by simpa using hns)⟩
    rw [hreports.status]
    simp
  · refine ⟨iff_of_false ?_ (by simpa using hns), iff_of_true hending hns⟩
    intro hreports
    rw [hreports.status] at hending
    cases hending

end

def plainRun : Invocation := ⟨.run, "squares", none, false, false⟩

def plainSettings : Settings := ⟨false, "WARNING"⟩

def shortSquares : String := "let x=10;x=x*x;x=x*x;x"

theorem shortSquares_reported : ∃ o,
    RunsFile plainRun plainSettings shortSquares.toUTF8 .warning shortSquares ∧
    (run (runMode plainRun plainSettings) "squares" shortSquares 0 .start).outcome = .ok o ∧
    ((perform plainRun plainSettings (.bytes shortSquares.toUTF8)).Reports false
        (runMode plainRun plainSettings) o ↔
      ∀ n ∈ printedNumbers false (runMode plainRun plainSettings) o, ¬ n.IsLong) ∧
    ((perform plainRun plainSettings (.bytes shortSquares.toUTF8)).ending = .breakdown .digitLimit ↔
      ∃ n ∈ printedNumbers false (runMode plainRun plainSettings) o, n.IsLong) := by
  have hfile : RunsFile plainRun plainSettings shortSquares.toUTF8 .warning shortSquares :=
    ⟨rfl, by decide +kernel, by decide, by decide +kernel⟩
  have hrun : (run (runMode plainRun plainSettings) "squares" shortSquares 0
      .start).outcome.toOption.map (·.success) = some true := by decide +kernel
  obtain ⟨o, ho, -⟩ := Option.map_eq_some_iff.1 hrun
  have hok := eq_ok_of_toOption ho
  exact ⟨o, hfile, hok, run_reported_unless_long hfile hok⟩

def longSquares : String :=
  "let x=10;x=x*x;x=x*x;x=x*x;x=x*x;x=x*x;x=x*x;x=x*x;x=x*x;x=x*x;x=x*x;x=x*x;x=x*x;x=x*x;x"

/-- The run is a success, but its value has 8193 digits. -/
theorem longSquares_break_down : ∃ o,
    RunsFile plainRun plainSettings longSquares.toUTF8 .warning longSquares ∧
    (run (runMode plainRun plainSettings) "squares" longSquares 0 .start).outcome = .ok o ∧
    o.success = true ∧
    (perform plainRun plainSettings (.bytes longSquares.toUTF8)).ending = .breakdown .digitLimit := by
  have hfile : RunsFile plainRun plainSettings longSquares.toUTF8 .warning longSquares :=
    ⟨rfl, by decide +kernel, by decide, by decide +kernel⟩
  have hrun : (run (runMode plainRun plainSettings) "squares" longSquares 0
      .start).outcome.toOption.map (·.success) = some true := by decide +kernel
  obtain ⟨o, ho, hsuccess⟩ := Option.map_eq_some_iff.1 hrun
  exact ⟨o, hfile, eq_ok_of_toOption ho, hsuccess, by decide +kernel⟩

end TemplateScript.Command
