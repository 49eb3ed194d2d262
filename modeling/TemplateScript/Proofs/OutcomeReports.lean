import TemplateScript.Proofs.ReadingFaults
import TemplateScript.Proofs.RunOutcome

/-!
# What an outcome reports

The diagnostics of a run come from its scan, its reading and its evaluation, in this order. Errors
are counted as they come in; success, the counts, the message and the value of an outcome all agree
with the diagnostics that it has in the end.
-/

namespace TemplateScript

theorem Diagnostic.code_of_isScanWarning {d : Diagnostic} (h : d.isScanWarning = true) :
    d.code = "W001" ∨ d.code = "W002" := by
  simpa [isScanWarning] using h

/-! ## Ways to an outcome -/

theorem abortMessage_eq {source : String} {file : Option String} {ws : Diagnostics} {d : Diagnostic}
    (hds : (scan source file).journal.diagnostics = ws ++ [d])
    (hws : ∀ w ∈ ws, w.isScanWarning = true ∧ w.isError = false) (hd : d.code = "E001") :
    (scan source file).abortMessage = d.message := by
  have hnone : ws.find? (fun d : Diagnostic => d.code = "E001") = none := by
    refine List.find?_eq_none.2 fun w hw => ?_
    rcases Diagnostic.code_of_isScanWarning (hws w hw).1 with hc | hc <;> simp [hc]
  rw [Scan.abortMessage, hds, List.find?_append, hnone]
  simp [hd]

theorem Eval.attempt_permissive {e : Eval Value} {st st' : EvalState} {d : Diagnostic} :
    attempt .permissive e st ≠ (.error (.fault d), st') := by
  intro h
  unfold attempt at h
  split at h
  · cases h
  · rename_i hne
    exact hne _ _ rfl h

theorem execute_permissive_message {scope : Nat} {n : Node} {f : Forest} {o : Outcome}
    (h : (execute .permissive scope n f).outcome = .ok o) : o.message = none := by
  rcases Eval.result_cases (n.evaluate .permissive scope) ⟨f, .empty⟩ with
    ⟨v, st, he⟩ | ⟨d, st, he⟩ | ⟨b, st, he⟩
  · rw [execute_ok he] at h
    cases h
    rfl
  · exact absurd he Eval.attempt_permissive
  · rw [execute_breakdown he] at h
    cases h

/-- An outcome with no error but, if there is one, the last of its diagnostics. -/
inductive Outcome.Halts (o : Outcome) : Prop
  | success : (∀ d ∈ o.diagnostics, d.isError = false) → o.message = none → Halts o
  | failure {ws : Diagnostics} {d : Diagnostic} : o.diagnostics = ws ++ [d] →
      (∀ w ∈ ws, w.isError = false) → d.isError = true → o.message = some d.message →
      o.value = .null → Halts o

theorem execute_strict_halts {scope : Nat} {n : Node} {f : Forest} {o : Outcome}
    (h : (execute .strict scope n f).outcome = .ok o) : o.Halts := by
  obtain ⟨ws, hws, hw⟩ := n.warns_evaluate scope ⟨f, .empty⟩
  simp only [Journal.empty_diagnostics, List.nil_append] at hws
  rcases Eval.result_cases (n.evaluate .strict scope) ⟨f, .empty⟩ with
    ⟨v, st, he⟩ | ⟨d, st, he⟩ | ⟨b, st, he⟩
  · rw [execute_ok he] at h
    cases h
    rw [he] at hws
    subst hws
    exact .success (fun w hm => (hw w hm).2) rfl
  · have hd : d.isError = true := n.errs_evaluate .strict scope ⟨f, .empty⟩ (.fault d) (by rw [he])
    rw [execute_fault he] at h
    cases h
    rw [he] at hws
    subst hws
    exact .failure rfl (fun w hm => (hw w hm).2) hd rfl rfl
  · rw [execute_breakdown he] at h
    cases h

section
variable {s : Scan} (hs : ∀ w ∈ s.journal.diagnostics, w.isError = false)
  (line? : Int → Option String)
include hs

theorem noErrors_behind {ds : Diagnostics} :
    (∀ d ∈ (s.journal.diagnostics ++ ds).map (·.attach line?), d.isError = false) ↔
      ∀ d ∈ ds, d.isError = false := by
  simp only [List.forall_mem_map, Diagnostic.isError_attach, List.forall_mem_append]
  exact and_iff_right hs

theorem Outcome.Halts.behind {o : Outcome} (h : o.Halts) : (o.behind s line?).Halts := by
  cases h with
  | success hds hm =>
    refine .success ?_ hm
    rw [Outcome.behind_diagnostics]
    exact (noErrors_behind hs line?).2 hds
  | @failure ws d hds hws hd hm hv =>
    have hlast : (o.behind s line?).diagnostics
        = (s.journal.diagnostics ++ ws).map (·.attach line?) ++ [d.attach line?] := by
      rw [Outcome.behind_diagnostics, hds]
      simp
    refine .failure hlast ((noErrors_behind hs line?).2 hws) ?_ ?_ hv
    · rw [Diagnostic.isError_attach, hd]
    · rw [Diagnostic.message_attach]
      exact hm

end

section
variable {mode : Mode} {file : Option String} {source : String} {scope : Nat} {f : Forest}
  {o : Outcome}

/-- The ways in which a run gives an outcome: its scan is given up, its tokens are not read, or its
tree is evaluated. -/
inductive RunsTo (mode : Mode) (file : Option String) (source : String) (scope : Nat) (f : Forest) :
    Outcome → Prop
  | aborted : (scan source file).aborted = true →
      RunsTo mode file source scope f
        (.failed (scan source file).collected (scan source file).abortMessage)
  | unread {d : Diagnostic} : (scan source file).aborted = false →
      Node.ofTokens (scan source file).tokens = .error (.fault d) →
      RunsTo mode file source scope f
        ((Outcome.failed (Collector.empty.add d) d.message).behind (scan source file)
          (Text.line? (sourceLines source)))
  | evaluated {n : Node} {o : Outcome} : Evaluates source file n →
      (execute mode scope n f).outcome = .ok o →
      RunsTo mode file source scope f
        (o.behind (scan source file) (Text.line? (sourceLines source)))

theorem run_runsTo (h : (run mode file source scope f).outcome = .ok o) :
    RunsTo mode file source scope f o := by
  rcases run_cases source file with ha | ⟨ha, d, hd⟩ | ⟨n, hn⟩
  · rw [run_aborted ha] at h
    cases h
    exact .aborted ha
  · rw [run_unread ha hd] at h
    cases h
    exact .unread ha hd
  · rw [run_evaluates hn, Run.outcome_behind] at h
    cases ho : (execute mode scope n f).outcome with
    | error b =>
      rw [ho] at h
      cases h
    | ok o₁ =>
      rw [ho] at h
      cases h
      exact .evaluated hn ho

/-- What holds of all that the scan, the reading and the evaluation report, also with its source line
attached to it, holds of all that a run reports. -/
theorem RunsTo.forall_diagnostics {Q : Diagnostic → Prop} (h : RunsTo mode file source scope f o)
    (hattach : ∀ d, Q d → Q (d.attach (Text.line? (sourceLines source))))
    (hscan : ∀ d ∈ (scan source file).journal.diagnostics, Q d)
    (hread : ∀ d, (scan source file).aborted = false →
      Node.ofTokens (scan source file).tokens = .error (.fault d) → Q d)
    (heval : ∀ n o₁, Evaluates source file n → (execute mode scope n f).outcome = .ok o₁ →
      ∀ d ∈ o₁.diagnostics, Q d) : ∀ d ∈ o.diagnostics, Q d := by
  have hbehind : ∀ {o₁ : Outcome}, (∀ d ∈ o₁.diagnostics, Q d) → ∀ d ∈
      (o₁.behind (scan source file) (Text.line? (sourceLines source))).diagnostics, Q d := by
    intro o₁ hds
    simp only [Outcome.behind_diagnostics, List.forall_mem_map, List.forall_mem_append]
    exact ⟨fun d hd => hattach d (hscan d hd), fun d hd => hattach d (hds d hd)⟩
  cases h with
  | aborted =>
    rw [Outcome.failed_diagnostics, Scan.collected_diagnostics]
    exact hscan
  | @unread d ha hd =>
    have hone : ∀ e ∈ (Outcome.failed (Collector.empty.add d) d.message).diagnostics, Q e :=
      List.forall_mem_singleton.2 (hread d ha hd)
    exact hbehind hone
  | evaluated hn ho => exact hbehind (heval _ _ hn ho)

def FailsEarly (source : String) (file : Option String) : Prop :=
  (scan source file).aborted = true ∨ ∃ e, Node.ofTokens (scan source file).tokens = .error e

theorem Evaluates.not_failsEarly {n : Node} (h : Evaluates source file n) :
    ¬ FailsEarly source file := by
  rintro (ha | ⟨e, he⟩)
  · cases h.1.symm.trans ha
  · cases h.2.symm.trans he

theorem run_forest_of_failsEarly (h : FailsEarly source file) :
    (run mode file source scope f).forest = f := by
  rcases run_cases source file with ha | ⟨ha, d, hd⟩ | ⟨n, hn⟩
  · rw [run_aborted ha]
  · rw [run_unread ha hd]
    rfl
  · exact absurd h hn.not_failsEarly

theorem RunsTo.counted (h : RunsTo mode file source scope f o) : o.collector.Counted := by
  cases h with
  | aborted => exact Scan.collected_counted _
  | unread | evaluated => exact Outcome.counted_behind _ _ _

theorem run_counted (h : (run mode file source scope f).outcome = .ok o) : o.collector.Counted :=
  (run_runsTo h).counted

/-! ## Consistency -/

theorem RunsTo.success_iff (h : RunsTo mode file source scope f o) :
    o.success = true ↔ ∀ d ∈ o.diagnostics, d.isError = false := by
  cases h with
  | aborted ha =>
    obtain ⟨ws, d, hds, -, -, herror⟩ := scan_abort ha
    refine ⟨(fun hs => absurd hs Bool.false_ne_true), fun hno => ?_⟩
    have hd := hno d (by simp [hds])
    cases herror.symm.trans hd
  | @unread d ha hd =>
    refine ⟨(fun hs => absurd hs Bool.false_ne_true), fun hno => ?_⟩
    rw [Outcome.behind_diagnostics, noErrors_behind fun w hw => (scan_warnings ha w hw).2] at hno
    have hd' := hno d (List.mem_singleton.2 rfl)
    cases (Node.isError_of_ofTokens hd).symm.trans hd'
  | @evaluated n o₁ hn ho =>
    have hsuccess : (o₁.behind (scan source file) (Text.line? (sourceLines source))).success
        = !o₁.diagnostics.hasErrors := execute_success ho
    -- Success was settled before the reports of the scan came in front, and none of them is an error.
    rw [hsuccess, Bool.not_eq_true', Diagnostics.hasErrors_eq_false, Outcome.behind_diagnostics]
    exact (noErrors_behind (fun w hw => (scan_warnings hn.1 w hw).2) _).symm

theorem RunsTo.halts (h : RunsTo .strict file source scope f o) : o.Halts := by
  cases h with
  | aborted ha =>
    obtain ⟨ws, d, hds, hws, hcode, herror⟩ := scan_abort ha
    refine .failure ((Scan.collected_diagnostics _).trans hds) (fun w hw => (hws w hw).2) herror ?_ rfl
    exact congrArg some (abortMessage_eq hds hws hcode)
  | unread ha hd =>
    have hone : (Outcome.failed (Collector.empty.add _) _).Halts :=
      .failure (List.nil_append _).symm (by simp) (Node.isError_of_ofTokens hd) rfl rfl
    exact hone.behind (fun w hw => (scan_warnings ha w hw).2) _
  | evaluated hn ho =>
    exact (execute_strict_halts ho).behind (fun w hw => (scan_warnings hn.1 w hw).2) _

theorem RunsTo.message_iff (h : RunsTo .permissive file source scope f o) :
    o.message.isSome = true ↔ FailsEarly source file := by
  cases h with
  | aborted ha => exact ⟨fun _ => Or.inl ha, fun _ => rfl⟩
  | unread ha hd => exact ⟨fun _ => Or.inr ⟨_, hd⟩, fun _ => rfl⟩
  | @evaluated n o₁ hn ho =>
    have hnone : o₁.message = none := execute_permissive_message ho
    simp only [Outcome.behind, hnone]
    simpa using hn.not_failsEarly

theorem RunsTo.value_of_failsEarly (h : RunsTo mode file source scope f o)
    (hearly : FailsEarly source file) : o.value = .null := by
  cases h with
  | aborted => rfl
  | unread => rfl
  | evaluated hn _ => exact absurd hearly hn.not_failsEarly

end

structure Outcome.Consistent (o : Outcome) (mode : Mode) (file : Option String) (source : String)
    (scope : Nat) (f : Forest) : Prop where
  success : o.success = true ↔ ∀ d ∈ o.diagnostics, d.isError = false
  counted : o.collector.errors = (o.diagnostics.filter (·.isError)).length ∧
    o.collector.errors + o.collector.warnings = o.diagnostics.length
  strict : mode = .strict → o.Halts
  permissive : mode = .permissive → (o.message.isSome = true ↔ FailsEarly source file)
  early : FailsEarly source file →
    (run mode file source scope f).forest = f ∧ o.value = .null

/-- Every outcome of a run is consistent. -/
theorem run_consistent {mode : Mode} {file : Option String} {source : String} {scope : Nat}
    {f : Forest} {o : Outcome} (h : (run mode file source scope f).outcome = .ok o) :
    o.Consistent mode file source scope f where
  success := (run_runsTo h).success_iff
  counted := by
    have hcounted : o.collector.errors = o.diagnostics.errorCount := run_counted h
    constructor
    · rw [hcounted, Diagnostics.errorCount, List.countP_eq_length_filter]
    · rw [hcounted]
      exact o.diagnostics.errorCount_add_warningCount
  strict hm := by
    subst hm
    exact (run_runsTo h).halts
  permissive hm := by
    subst hm
    exact (run_runsTo h).message_iff
  early he := ⟨run_forest_of_failsEarly he, (run_runsTo h).value_of_failsEarly he⟩

/-- A name that nothing declares is reported behind a warning of the scan. -/
theorem undeclared_name_consistent :
    ∃ o, (run .strict none "/*/ */1+x" 0 .start).outcome = .ok o ∧ o.success = false ∧
      o.Consistent .strict none "/*/ */1+x" 0 .start := by
  have hrun : (run .strict none "/*/ */1+x" 0 .start).outcome.toOption.map (·.success)
      = some false := by decide +kernel
  obtain ⟨o, ho, hsuccess⟩ := Option.map_eq_some_iff.1 hrun
  have hok := eq_ok_of_toOption ho
  exact ⟨o, hok, hsuccess, run_consistent hok⟩

end TemplateScript
