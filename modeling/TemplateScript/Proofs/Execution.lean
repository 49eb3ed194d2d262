import TemplateScript.Proofs.Failures
import TemplateScript.Proofs.JournalFrame
import TemplateScript.Run

/-!
# The outcome of an execution

The three ends of an evaluation as ends of an execution. An execution that gives an outcome succeeds
if and only if it reports no error. Behind a scan, what the scan reported comes first.
-/

namespace TemplateScript

@[simp] theorem Outcome.failed_diagnostics (c : Collector) (message : String) :
    (Outcome.failed c message).diagnostics = c.diagnostics := rfl

section
variable {mode : Mode} {scope : Nat} {n : Node} {f : Forest} {st : EvalState}

theorem execute_ok {v : Value} (h : n.evaluate mode scope ⟨f, .empty⟩ = (.ok v, st)) :
    execute mode scope n f =
      ⟨.ok ⟨!st.journal.diagnostics.hasErrors, v, st.journal.collector, none⟩, st.forest,
        st.journal.log⟩ := by
  have hcounted : (n.evaluate mode scope ⟨f, .empty⟩).2.journal.collector.Counted :=
    n.keepsJournal_evaluate mode scope (P := fun j => j.collector.Counted)
      (fun d _ hst => hst.add d) ⟨f, .empty⟩ Collector.counted_empty
  rw [h] at hcounted
  simp only [execute, h, hcounted.hasErrors_eq]

theorem execute_fault {d : Diagnostic}
    (h : n.evaluate mode scope ⟨f, .empty⟩ = (.error (.fault d), st)) :
    execute mode scope n f =
      ⟨.ok (.failed (st.journal.collector.add d) d.message), st.forest,
        st.journal.log ++ [⟨.error, .evaluator, d.render false⟩]⟩ := by
  simp only [execute, h, Eval.report, Journal.report]

theorem execute_breakdown {b : Breakdown}
    (h : n.evaluate mode scope ⟨f, .empty⟩ = (.error (.breakdown b), st)) :
    execute mode scope n f = ⟨.error b, st.forest, st.journal.log⟩ := by
  simp only [execute, h]

theorem execute_eq_error {b : Breakdown} : (execute mode scope n f).outcome = .error b ↔
    (n.evaluate mode scope ⟨f, .empty⟩).1 = .error (.breakdown b) := by
  rcases Eval.result_cases (n.evaluate mode scope) ⟨f, .empty⟩ with
    ⟨v, st, he⟩ | ⟨d, st, he⟩ | ⟨b', st, he⟩
  · simp [execute_ok he, he]
  · simp [execute_fault he, he]
  · simp [execute_breakdown he, he]

/-- The outcome of an execution reports all that the evaluation does. -/
theorem execute_extends {o : Outcome} (h : (execute mode scope n f).outcome = .ok o) :
    (n.evaluate mode scope ⟨f, .empty⟩).2.journal.diagnostics <+: o.diagnostics := by
  rcases Eval.result_cases (n.evaluate mode scope) ⟨f, .empty⟩ with
    ⟨v, st, he⟩ | ⟨d, st, he⟩ | ⟨b, st, he⟩
  · rw [execute_ok he] at h
    cases h
    have hst : (n.evaluate mode scope ⟨f, .empty⟩).2 = st := congrArg Prod.snd he
    exact hst ▸ List.prefix_rfl
  · rw [execute_fault he] at h
    cases h
    rw [he]
    exact List.prefix_append _ _
  · rw [execute_breakdown he] at h
    cases h

theorem execute_success {o : Outcome} (h : (execute mode scope n f).outcome = .ok o) :
    o.success = !o.diagnostics.hasErrors := by
  rcases Eval.result_cases (n.evaluate mode scope) ⟨f, .empty⟩ with
    ⟨v, st, he⟩ | ⟨d, st, he⟩ | ⟨b, st, he⟩
  · rw [execute_ok he] at h
    cases h
    rfl
  · have hd : d.isError = true := n.errs_evaluate mode scope ⟨f, .empty⟩ (.fault d) (by rw [he])
    have hm : d ∈ st.journal.diagnostics ++ [d] :=
      List.mem_append_right _ (List.mem_singleton.2 rfl)
    rw [execute_fault he] at h
    cases h
    rw [Outcome.failed_diagnostics, Collector.add_diagnostics,
      Diagnostics.hasErrors_of_mem hm hd]
    rfl
  · rw [execute_breakdown he] at h
    cases h

end

/-! ## Behind a scan -/

@[simp] theorem Scan.collected_diagnostics (s : Scan) :
    s.collected.diagnostics = s.journal.diagnostics := by
  simp [collected]

theorem Scan.collected_counted (s : Scan) : s.collected.Counted :=
  Collector.counted_empty.extend _

def Outcome.behind (s : Scan) (line? : Int → Option String) (o : Outcome) : Outcome :=
  { o with collector := (s.collected.extend o.collector).attach line? }

theorem Run.outcome_behind (r : Run) (s : Scan) (line? : Int → Option String) :
    (r.behind s line?).outcome = r.outcome.map (·.behind s line?) := rfl

/-- What a scan reported comes ahead of what its run reports, all with source lines. -/
@[simp] theorem Outcome.behind_diagnostics (s : Scan) (line? : Int → Option String) (o : Outcome) :
    (o.behind s line?).diagnostics
      = (s.journal.diagnostics ++ o.diagnostics).map (·.attach line?) := by
  simp [Outcome.diagnostics, Outcome.behind]

theorem Outcome.counted_behind (s : Scan) (line? : Int → Option String) (o : Outcome) :
    (o.behind s line?).collector.Counted :=
  (s.collected_counted.extend o.collector).attach line?

end TemplateScript
