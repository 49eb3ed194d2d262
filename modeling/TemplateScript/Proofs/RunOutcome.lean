import TemplateScript.Proofs.BreakdownOrigin
import TemplateScript.Proofs.CursorReadings
import TemplateScript.Proofs.Execution
import TemplateScript.Proofs.ScanSteps

/-!
# What a run gives

A run of any source ends with an outcome or, where the script takes the remainder of an infinite
double, with a breakdown. The outcome reports every failure of scanning, reading and evaluation.
-/

namespace TemplateScript

/-! ## Scanning -/

theorem scan_tokens_ne_nil (source : String) (file : Option String) :
    (scan source file).tokens ≠ [] := by
  obtain ⟨ts, e, hs, -⟩ := Scan.ofText_weaves (Text.line? (sourceLines source)) .ahead (.first file)
    source.toList 0 rfl
  rw [scan, hs]
  simp

/-! ## Reading -/

/-- What is read is a script. -/
theorem Node.ofTokens_isScript {ts : List Token} {n : Node} (h : ofTokens ts = .ok n) :
    n.IsScript fun _ => True := by
  obtain ⟨c, stop, -, -, hprogram⟩ := ofTokens_ok h
  obtain ⟨-, body, rfl, hbody⟩ := Grammar.program_sound hprogram
  exact ⟨_, body, rfl, hbody.isStatement fun _ _ _ _ _ => trivial⟩

/-! ## Evaluating -/

theorem execute_reports {mode : Mode} {scope : Nat} {n m : Node} {f : Forest} {st : EvalState}
    {d : Diagnostic} {o : Outcome} (ho : (execute mode scope n f).outcome = .ok o)
    (hv : n.Visits mode scope ⟨f, .empty⟩ m st)
    (hd : (m.eval mode scope st).1 = .error (.fault d)) :
    o.success = false ∧ d ∈ o.diagnostics := by
  have herror : d.isError = true := (Eval.errs_lockstep mode scope).eval m trivial st (.fault d) hd
  have hmem : d ∈ o.diagnostics := by
    rcases (Node.carried_fault mode d).attempt (hv.fault hd) with hr | hj
    · have he : n.evaluate mode scope ⟨f, .empty⟩ = (.error (.fault d), _) := Prod.ext hr rfl
      rw [execute_fault he] at ho
      cases ho
      exact List.mem_append_right _ (List.mem_singleton.2 rfl)
    · exact (execute_extends ho).subset hj
  rw [execute_success ho, Diagnostics.hasErrors_of_mem hmem herror]
  exact ⟨rfl, hmem⟩

/-! ## Running -/

def Evaluates (source : String) (file : Option String) (n : Node) : Prop :=
  (scan source file).aborted = false ∧ Node.ofTokens (scan source file).tokens = .ok n

/-- The outcome of a run is no success and reports the failure, if scanning, reading or the evaluation
of any node failed. -/
structure Outcome.ReportsFailures (o : Outcome) (mode : Mode) (file : Option String)
    (source : String) (scope : Nat) (f : Forest) : Prop where
  scanning : (scan source file).aborted = true →
    o.success = false ∧ ∃ d ∈ o.diagnostics, d.code = "E001" ∧ d.isError = true
  reading : (scan source file).aborted = false →
    ∀ e, Node.ofTokens (scan source file).tokens = .error e →
      o.success = false ∧
        ∃ d, e = .fault d ∧ d.attach (Text.line? (sourceLines source)) ∈ o.diagnostics
  evaluation : ∀ n m st d, Evaluates source file n → n.Visits mode scope ⟨f, .empty⟩ m st →
    (m.eval mode scope st).1 = .error (.fault d) →
      o.success = false ∧ d.attach (Text.line? (sourceLines source)) ∈ o.diagnostics

section
variable {mode : Mode} {file : Option String} {source : String} {scope : Nat} {f : Forest}

theorem run_aborted (h : (scan source file).aborted = true) :
    run mode file source scope f =
      ⟨.ok (.failed (scan source file).collected (scan source file).abortMessage), f,
        (scan source file).journal.log⟩ := by
  unfold run
  rw [if_pos h]

theorem run_unread {d : Diagnostic} (h : (scan source file).aborted = false)
    (hd : Node.ofTokens (scan source file).tokens = .error (.fault d)) :
    run mode file source scope f =
      (Run.stopped f d).behind (scan source file) (Text.line? (sourceLines source)) := by
  unfold run
  rw [if_neg (by simp [h])]
  simp only [hd]

theorem run_evaluates {n : Node} (h : Evaluates source file n) :
    run mode file source scope f =
      (execute mode scope n f).behind (scan source file) (Text.line? (sourceLines source)) := by
  obtain ⟨ha, hn⟩ := h
  unfold run
  rw [if_neg (by simp [ha])]
  simp only [hn]

theorem Evaluates.isScript {n : Node} (h : Evaluates source file n) : n.IsScript fun _ => True :=
  Node.ofTokens_isScript h.2

theorem run_cases (source : String) (file : Option String) :
    (scan source file).aborted = true ∨
      (scan source file).aborted = false ∧
        (∃ d, Node.ofTokens (scan source file).tokens = .error (.fault d)) ∨
      ∃ n, Evaluates source file n := by
  cases ha : (scan source file).aborted with
  | true => exact Or.inl rfl
  | false =>
    cases hn : Node.ofTokens (scan source file).tokens with
    | ok n => exact Or.inr (Or.inr ⟨n, ha, hn⟩)
    | error e =>
      obtain ⟨d, rfl⟩ := Node.ofTokens_error (scan_tokens_ne_nil source file) hn
      exact Or.inr (Or.inl ⟨rfl, d, rfl⟩)

theorem behind_eq_error {r : Run} {s : Scan} {line? : Int → Option String} {b : Breakdown} :
    (r.behind s line?).outcome = .error b ↔ r.outcome = .error b := by
  unfold Run.behind
  cases r.outcome <;> simp [Except.map]

theorem behind_eq_ok {r : Run} {s : Scan} {line? : Int → Option String} {o : Outcome}
    (h : (r.behind s line?).outcome = .ok o) : ∃ o₁, r.outcome = .ok o₁ ∧ o.success = o₁.success ∧
      ∀ d ∈ o₁.diagnostics, d.attach line? ∈ o.diagnostics := by
  rw [Run.outcome_behind] at h
  cases hr : r.outcome with
  | error b =>
    rw [hr] at h
    cases h
  | ok o₁ =>
    rw [hr] at h
    cases h
    refine ⟨o₁, rfl, rfl, fun d hd => ?_⟩
    rw [Outcome.behind_diagnostics]
    exact List.mem_map_of_mem (List.mem_append_right _ hd)

theorem run_evaluates_eq_error {n : Node} {b : Breakdown} (h : Evaluates source file n) :
    (run mode file source scope f).outcome = .error b ↔
      b = .domain ∧ n.TakesInfiniteRemainder mode scope ⟨f, .empty⟩ := by
  rw [run_evaluates h, behind_eq_error, execute_eq_error]
  exact h.isScript.breakdown_iff

theorem run_eq_error {b : Breakdown} : (run mode file source scope f).outcome = .error b ↔
    b = .domain ∧ ∃ n, Evaluates source file n ∧ n.TakesInfiniteRemainder mode scope ⟨f, .empty⟩ := by
  constructor
  · intro h
    rcases run_cases source file with ha | ⟨ha, d, hd⟩ | ⟨n, hn⟩
    · rw [run_aborted ha] at h
      cases h
    · rw [run_unread ha hd, behind_eq_error] at h
      cases h
    · obtain ⟨hb, ht⟩ := (run_evaluates_eq_error hn).1 h
      exact ⟨hb, n, hn, ht⟩
  · rintro ⟨hb, n, hn, ht⟩
    exact (run_evaluates_eq_error hn).2 ⟨hb, ht⟩

theorem run_reports {o : Outcome} (h : (run mode file source scope f).outcome = .ok o) :
    o.ReportsFailures mode file source scope f where
  scanning ha := by
    rw [run_aborted ha] at h
    cases h
    obtain ⟨ws, d, hds, -, hcode, herror⟩ := scan_abort ha
    rw [Outcome.failed_diagnostics, Scan.collected_diagnostics, hds]
    exact ⟨rfl, d, List.mem_append_right _ (List.mem_singleton.2 rfl), hcode, herror⟩
  reading ha e he := by
    obtain ⟨d, rfl⟩ := Node.ofTokens_error (scan_tokens_ne_nil source file) he
    rw [run_unread ha he] at h
    obtain ⟨o₁, ho₁, hsuccess, hmem⟩ := behind_eq_ok h
    cases ho₁
    exact ⟨hsuccess, d, rfl, hmem d (List.mem_singleton.2 rfl)⟩
  evaluation n m st d hn hv hd := by
    rw [run_evaluates hn] at h
    obtain ⟨o₁, ho₁, hsuccess, hmem⟩ := behind_eq_ok h
    obtain ⟨hfailed, hd₁⟩ := execute_reports ho₁ hv hd
    exact ⟨hsuccess.trans hfailed, hmem d hd₁⟩

/-- A run of any source gives an outcome that reports every failure, unless the script takes the
remainder of an infinite double; then, and only then, it breaks down. -/
theorem run_reports_or_breaks_down (mode : Mode) (file : Option String) (source : String)
    (scope : Nat) (f : Forest) :
    ((∃ o, (run mode file source scope f).outcome = .ok o ∧
        o.ReportsFailures mode file source scope f) ↔
      ¬ ∃ n, Evaluates source file n ∧ n.TakesInfiniteRemainder mode scope ⟨f, .empty⟩) ∧
    ((run mode file source scope f).outcome = .error .domain ↔
      ∃ n, Evaluates source file n ∧ n.TakesInfiniteRemainder mode scope ⟨f, .empty⟩) := by
  refine ⟨⟨?_, fun h => ?_⟩, ?_⟩
  · rintro ⟨o, ho, -⟩ h
    have hb := run_eq_error.2 ⟨rfl, h⟩
    rw [ho] at hb
    cases hb
  · cases ho : (run mode file source scope f).outcome with
    | ok o => exact ⟨o, rfl, run_reports ho⟩
    | error b => exact absurd (run_eq_error.1 ho).2 h
  · rw [run_eq_error]
    exact and_iff_right rfl

end

/-- The square of a large double is infinite. -/
theorem infinite_square_breaks_down :
    (run .strict none "let x=100000000000000000000/3;x=x*x;x=x*x;x=x*x;x=x*x;x%1" 0
      .start).outcome = .error .domain :=
  eq_error_of_match (by decide +kernel)

end TemplateScript
