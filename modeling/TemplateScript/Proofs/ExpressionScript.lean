import TemplateScript.Proofs.EvaluationPlaces
import TemplateScript.Proofs.OutcomeReports
import TemplateScript.Proofs.ProgramRegion
import TemplateScript.Proofs.ReadBack
import TemplateScript.Proofs.RegionOnly
import TemplateScript.Proofs.SpacedScan

/-!
# Scripts of one expression

A text that is scanned as the tokens of one expression makes a script between tags; so do the tokens
themselves, set apart by single spaces. A run of it is an execution of the expression, whatever file
and places it has.
-/

namespace TemplateScript

def spacedScript (fs : List Face) : String :=
  "<trans>" ++ " ".intercalate (fs.map Prod.snd) ++ "</trans>"

namespace Grammar

open Reader TokenReader

theorem statement_of_expression {ts : List Token} {n : Node} (h : Derives .assignment ts n)
    (stop : Token) : (statement : Reader _) stop ts = (.ok n, []) := by
  have hends : Level.assignment.Ends [] := by
    simp [Level.Ends]
  have hread : (expression : Reader _) stop (ts ++ []) = (.ok n, []) := expression_complete h hends
  have hstatement := statement_of_derives h stop []
  rw [List.append_nil] at hread hstatement
  rw [hstatement]
  unfold expressionStatement
  rw [bind_ok hread, bind_ok (accept_of_head (by simp))]
  rfl

theorem program_of_expression {ts : List Token} {n : Node} (h : Derives .assignment ts n)
    (stop : Token) : ∃ s, (program : Reader _) stop ts = (.ok (.program s [n]), []) := by
  have hnext : (nextStatement : Reader _) stop ts = (.ok (some n), []) := by
    obtain ⟨t, us, rfl⟩ := List.exists_cons_of_ne_nil h.ne_nil
    unfold nextStatement
    rw [bind_ok peek_cons, if_neg (by simp), bind_ok (statement_of_expression h stop)]
    rfl
  have hmany : (many nextStatement : Reader _) stop ts = (.ok [n], []) :=
    many_of_some nextStatement_progress hnext rfl
  have hcurrent : (current : Reader _) stop ts = (.ok (ts.headD stop), ts) := rfl
  refine ⟨programSpan (ts.headD stop) [n], ?_⟩
  unfold program
  rw [bind_ok hcurrent, bind_ok hmany]
  rfl

end Grammar

/-! ## Scanning -/

/-- A text between tags is scanned as its tokens between tags, with nothing to report. -/
theorem scan_script {text : String} {fs : List Face} (h : Lexed text.toList fs)
    (file : Option String) :
    ∃ o ts c e, (scan ("<trans>" ++ text ++ "</trans>") file).tokens = o :: (ts ++ [c, e]) ∧
      o.kind = .openTag ∧ ts.map Token.face = fs ∧ c.kind = .closeTag ∧ e.isAbortMark = false ∧
      (scan ("<trans>" ++ text ++ "</trans>") file).aborted = false ∧
      (scan ("<trans>" ++ text ++ "</trans>") file).journal = .empty := by
  have hlist : ("<trans>" ++ text ++ "</trans>").toList
      = Piece.openTag ++ (text.toList ++ Piece.closeTag) := by
    rw [String.toList_append, toList_script, List.append_assoc]
    rfl
  have hparts : Piece.Parts Piece.closeTag := .cons (by decide) _
  obtain ⟨ts, hts, hscan⟩ := h.scan hparts _
  have hclose := fun line? l => Scan.ofText_closeTag line? l []
  simp only [List.append_nil, Scan.ofText_nil] at hclose
  rw [scan, hlist, Scan.ofText_openTag, hscan, hclose]
  exact ⟨_, ts, _, _, rfl, rfl, hts, rfl, rfl, rfl, rfl⟩

/-! ## Running -/

theorem run_script {text : String} {fs : List Face} {n : Node} (h : Lexed text.toList fs)
    (hn : Grammar.Renders .assignment fs n) (mode : Mode) (file : Option String) (scope : Nat)
    (f : Forest) :
    (run mode file ("<trans>" ++ text ++ "</trans>") scope f).seen Diagnostics.unplaced
      = (execute mode scope (.program none [n]) f).seen Diagnostics.unplaced := by
  obtain ⟨o, ts, c, e, htokens, ho, hts, hc, he, ha, hj⟩ := scan_script h file
  obtain ⟨m, hm, hmn⟩ := hn ts hts
  obtain ⟨s, hprogram⟩ := Grammar.program_of_expression hm c
  have hclosed : ∀ t ∈ ts, t.kind ≠ .closeTag := by
    intro t ht
    have hface : t.face ∈ fs := by
      rw [← hts]
      exact List.mem_map_of_mem ht
    exact h.unclosed t.face hface
  have hnone : ∀ t ∈ ([] : List Token), t.kind ≠ .openTag := by simp
  have hlast : (o :: (ts ++ c :: [e])).getLast? = some e := by
    rw [List.getLast?_cons, List.getLast?_append]
    rfl
  have hread : Node.ofTokens (scan ("<trans>" ++ text ++ "</trans>") file).tokens
      = .ok (.program s [m]) := by
    have hprog := Node.ofTokens_closed hnone ho hclosed hc hlast he
    rw [Node.ofProgram, hprogram] at hprog
    rw [htokens]
    exact hprog
  have hsame : (Node.program s [m]).unspanned = (Node.program none [n]).unspanned := by
    simp only [Node.unspanned, Node.unspannedEach_eq, List.map_cons, List.map_nil, hmn]
  rw [run_evaluates ⟨ha, hread⟩, Run.seen_behind_unplaced, hj,
    ← execute_unplaced mode scope f hsame]
  obtain ⟨outcome, forest, log⟩ := execute mode scope (.program s [m]) f
  cases outcome with
  | error b => rfl
  | ok o => rfl

theorem run_spacedScript {fs : List Face} {n : Node} (h : ∀ f ∈ fs, Lexeme f)
    (hn : Grammar.Renders .assignment fs n) (mode : Mode) (file : Option String) (scope : Nat)
    (f : Forest) :
    (run mode file (spacedScript fs) scope f).seen Diagnostics.unplaced
      = (execute mode scope (.program none [n]) f).seen Diagnostics.unplaced := by
  have hspaced : (" ".intercalate (fs.map Prod.snd)).toList = spaced fs := by
    rw [String.toList_intercalate, List.map_map]
    rfl
  refine run_script ?_ hn mode file scope f
  rw [hspaced]
  exact .spaced h

/-! ## Executing -/

section
variable {mode : Mode} {scope : Nat} {f : Forest} {n : Node}

theorem evaluate_sole (s : Option Span) (n : Node) (st : EvalState) :
    (Node.program s [n]).evaluate mode scope st
      = Eval.attempt mode (Eval.attempt mode (n.eval mode scope) >>= pure) st := by
  simp only [Node.evaluate, Node.eval, Node.evalBody]

theorem execute_sole_ok {v : Value}
    (h : n.eval mode scope ⟨f, .empty⟩ = (.ok v, ⟨f, .empty⟩)) :
    execute mode scope (.program none [n]) f = ⟨.ok ⟨true, v, .empty, none⟩, f, []⟩ := by
  have heval : (Node.program none [n]).evaluate mode scope ⟨f, .empty⟩ = (.ok v, ⟨f, .empty⟩) := by
    rw [evaluate_sole]
    cases mode <;> simp only [Eval.attempt, bind, h] <;> rfl
  rw [execute_ok heval]
  rfl

/-- The message of an outcome that one fault made: in permissive mode there is none. -/
def Mode.message (mode : Mode) (d : Diagnostic) : Option String :=
  match mode with
  | .strict => some d.message
  | .permissive => none

theorem execute_sole_fault {d : Diagnostic} (hd : d.isError = true)
    (h : n.eval mode scope ⟨f, .empty⟩ = (.error (.fault d), ⟨f, .empty⟩)) :
    ∃ log, execute mode scope (.program none [n]) f
      = ⟨.ok ⟨false, .null, Collector.empty.add d, mode.message d⟩, f, log⟩ := by
  cases mode with
  | strict =>
    have heval : (Node.program none [n]).evaluate .strict scope ⟨f, .empty⟩
        = (.error (.fault d), ⟨f, .empty⟩) := by
      rw [evaluate_sole]
      simp only [Eval.attempt, bind, h]
    exact ⟨_, execute_fault heval⟩
  | permissive =>
    have heval : (Node.program none [n]).evaluate .permissive scope ⟨f, .empty⟩
        = (.ok .null, (Eval.report d ⟨f, .empty⟩).2) := by
      rw [evaluate_sole]
      simp only [Eval.attempt, bind, h]
      rfl
    have herrors : Diagnostics.hasErrors (Eval.report d ⟨f, .empty⟩).2.journal.diagnostics = true :=
      Diagnostics.hasErrors_of_mem (List.mem_singleton.2 rfl) hd
    rw [execute_ok heval, herrors]
    exact ⟨_, rfl⟩

end

/-- The outcome of a run that is seen without places, but for the places. -/
theorem run_of_seen {mode : Mode} {file : Option String} {source : String} {scope : Nat}
    {f f' : Forest} {o : Outcome}
    (h : (run mode file source scope f).seen Diagnostics.unplaced = (.ok o, f')) :
    ∃ ds, (run mode file source scope f).outcome = .ok { o with collector := .of ds } ∧
      Diagnostics.unplaced ds = o.diagnostics := by
  cases ho : (run mode file source scope f).outcome with
  | error b =>
    simp only [Run.seen, ho, Except.map] at h
    cases h
  | ok o' =>
    simp only [Run.seen, ho, Except.map] at h
    cases h
    refine ⟨o'.diagnostics, ?_, rfl⟩
    rw [← (run_counted ho).eq_of]

end TemplateScript
