import Mathlib.Data.List.Forall2
import TemplateScript.Proofs.ScanCourse
import TemplateScript.Proofs.ScriptReports

/-!
# The log of a run

The scanner and the evaluator log what they report, and a fault that ends a reading is reported but
not logged. So the log of a run tells the diagnostics of its outcome, those of reading left out, one
by one and in their order.
-/

namespace TemplateScript

/-! ## Entries for diagnostics -/

namespace Diagnostic

def codeBegins (start : String) (d : Diagnostic) : Bool :=
  start.toList.isPrefixOf d.code.toList

/-- The entry that the log has for a diagnostic: who reported it, at which level, in which words.
`closed` tells whether the close tag was met ahead of the character that ended the scan. -/
inductive LoggedAs (closed : Bool) (d : Diagnostic) : LogEntry → Prop
  | comment : d.code = "W001" ∨ d.code = "W002" →
      d.LoggedAs closed ⟨.warning, .scanner, d.render false⟩
  | abort : d.code = "E001" →
      d.LoggedAs closed ⟨.error, .scanner,
        d.render false ++ (" (script region opened: True, closed: " ++ Text.truth closed ++ ")")⟩
  | evaluation : d.code = "W401" ∨ d.codeBegins "E4" = true →
      d.LoggedAs closed ⟨.error, .evaluator, d.render false⟩

variable {closed : Bool} {d : Diagnostic} {e : LogEntry}

theorem codeBegins_iff {start : String} :
    d.codeBegins start = true ↔ start.toList <+: d.code.toList := List.isPrefixOf_iff_prefix

@[simp] theorem codeBegins_attach (line? : Int → Option String) (start : String) :
    (d.attach line?).codeBegins start = d.codeBegins start := by
  rw [codeBegins, code_attach, codeBegins]

/-- A source line is not part of what the log says. -/
theorem render_attach (line? : Int → Option String) :
    (d.attach line?).render false = d.render false :=
  unseen_attach line? d (·.render false) fun _ _ => rfl

theorem LoggedAs.attach (line? : Int → Option String) (h : d.LoggedAs closed e) :
    (d.attach line?).LoggedAs closed e := by
  cases h with
  | comment hcode =>
    rw [← render_attach line?]
    exact .comment (by rwa [code_attach])
  | abort hcode =>
    rw [← render_attach line?]
    exact .abort (by rwa [code_attach])
  | evaluation hcode =>
    rw [← render_attach line?]
    exact .evaluation (by rwa [code_attach, codeBegins_attach])

theorem LoggedAs.not_reading (h : d.LoggedAs closed e) : d.codeBegins "E1" = false := by
  have hcode : ∀ c, d.code = c → d.codeBegins "E1" = "E1".toList.isPrefixOf c.toList := by
    rintro c rfl
    rfl
  cases h with
  | comment h => rcases h with h | h <;> exact (hcode _ h).trans (by decide)
  | abort h => exact (hcode _ h).trans (by decide)
  | evaluation h =>
    rcases h with h | h
    · exact (hcode _ h).trans (by decide)
    · obtain ⟨r, hr⟩ := codeBegins_iff.1 h
      rw [codeBegins, ← hr]
      rfl

end Diagnostic

namespace Diagnostics

open Diagnostic (LoggedAs)

def outsideReading (ds : Diagnostics) : Diagnostics := ds.filter fun d => !d.codeBegins "E1"

variable {closed : Bool} {ds : Diagnostics} {es : List LogEntry}

theorem outsideReading_append (ds ds' : Diagnostics) :
    outsideReading (ds ++ ds') = ds.outsideReading ++ ds'.outsideReading :=
  List.filter_append ds ds'

theorem outsideReading_attach (line? : Int → Option String) (ds : Diagnostics) :
    outsideReading (ds.map (·.attach line?)) = ds.outsideReading.map (·.attach line?) := by
  simp only [outsideReading, List.filter_map, Function.comp_def, Diagnostic.codeBegins_attach]

theorem outsideReading_of_logged (h : List.Forall₂ (LoggedAs closed) ds es) :
    ds.outsideReading = ds := by
  induction h with
  | nil => rfl
  | cons hd _ ih =>
    rw [outsideReading] at ih ⊢
    rw [List.filter_cons_of_pos (by rw [hd.not_reading]; rfl), ih]

theorem logged_attach (line? : Int → Option String) (h : List.Forall₂ (LoggedAs closed) ds es) :
    List.Forall₂ (LoggedAs closed) (ds.map (·.attach line?)) es :=
  List.forall₂_map_left_iff.2 (h.imp fun _ _ hd => hd.attach line?)

end Diagnostics

/-! ## What a scan logs -/

namespace Scan

def closedAhead (s : Scan) : Bool :=
  (s.tokens.takeWhile (·.kind ≠ .unknown)).any (·.kind = .closeTag)

open Diagnostic (LoggedAs)

def Logged (closed : Bool) (s : Scan) : Prop :=
  List.Forall₂ (LoggedAs closed) s.journal.diagnostics s.journal.log

variable {closed : Bool} {s : Scan}

theorem Logged.withWarnings (h : s.Logged closed) {ds : List Diagnostic}
    (hds : ∀ d ∈ ds, d.isScanWarning = true) : (s.withWarnings ds).Logged closed := by
  induction ds with
  | nil => exact h
  | cons d ds ih =>
    obtain ⟨hd, hds⟩ := List.forall_mem_cons.1 hds
    exact .cons (.comment (Diagnostic.code_of_isScanWarning hd)) (ih hds)

theorem Logged.withPiece (h : s.Logged closed) (line? : Int → Option String) (l : Location)
    (p : Piece) (text : List Char) : (s.withPiece line? l p text).Logged closed := by
  cases p with
  | blockComment slashFirst ends =>
    exact h.withWarnings fun d hd =>
      (commentWarnings_isScanWarning line? l (l.after text) slashFirst ends d hd).1
  | _ => exact h

theorem regionNote_of_opened {region : Region} (h : region.opened = true) :
    regionNote region
      = " (script region opened: True, closed: " ++ Text.truth region.closed ++ ")" := by
  cases region with
  | ahead => cases h
  | inside => rfl
  | past => rfl

/-- A scan logs what it reports; the note on the last entry tells the region that it ends in. -/
theorem ofText_logged (line? : Int → Option String) (region : Region) (l : Location)
    (cs : List Char) :
    (ofText line? region l cs).Logged (ofText line? region l cs).region.closed := by
  induction region, cs using piece_induction generalizing l with
  | nil region =>
    rw [ofText_nil]
    exact .nil
  | unrecognized region c r h =>
    have hopened : region.opened = true :=
      Piece.opened_of_unrecognized (Piece.next_unrecognized h).2
    rw [ofText_unrecognized h, abort, regionNote_of_opened hopened]
    exact .cons (.abort rfl) .nil
  | cons region c r h ih =>
    rw [ofText_cons h, withPiece_region]
    exact (ih _).withPiece line? l _ _

theorem Courses.any_closeTag (h : Courses .ahead s) :
    s.tokens.any (·.kind = .closeTag) = s.region.closed := by
  rw [Bool.eq_iff_iff, List.any_eq_true, ← List.countP_pos_iff, h.closed]
  cases s.region.closed <;> simp

/-- No close tag comes behind the character that ends a scan. -/
theorem Courses.closedAhead (h : Courses .ahead s) : s.closedAhead = s.region.closed := by
  rw [← h.any_closeTag, Scan.closedAhead]
  obtain ⟨ts, hts, hend⟩ := h.tokens
  have hknown : ∀ t ∈ ts, decide (t.kind ≠ .unknown) = true := by
    intro t ht
    exact decide_eq_true (hts t ht).1
  rcases hend with ⟨-, e, htokens, he⟩ | ⟨-, ⟨u, e, htokens, hu, he⟩, -⟩
  · -- Without such a character all tokens are looked at.
    have hmark : e.kind = .endMark := congrArg Prod.fst he
    rw [htokens, List.takeWhile_append_of_pos hknown, List.takeWhile_cons_of_pos (by simp [hmark]),
      List.takeWhile_nil]
  · have hmark : e.kind = .endMark := congrArg Prod.fst he
    rw [htokens, List.takeWhile_append_of_pos hknown, List.takeWhile_cons_of_neg (by simp [hu])]
    simp [hu, hmark]

end Scan

theorem scan_logged (source : String) (file : Option String) :
    (scan source file).Logged (scan source file).closedAhead := by
  rw [(scan_courses source file).closedAhead]
  exact Scan.ofText_logged _ _ _ _

/-! ## What an evaluation logs -/

def Diagnostic.evaluationEntry (d : Diagnostic) : LogEntry := ⟨.error, .evaluator, d.render false⟩

def Journal.Paired (j : Journal) : Prop := j.log = j.diagnostics.map Diagnostic.evaluationEntry

theorem Eval.keepsPaired_report (d : Diagnostic) : KeepsJournal Journal.Paired (report d) := by
  intro st hst
  show st.journal.log ++ [d.evaluationEntry]
    = (st.journal.diagnostics ++ [d]).map Diagnostic.evaluationEntry
  rw [List.map_append, ← hst]
  rfl

/-- The execution of any tree logs the diagnostics of its outcome. -/
theorem execute_log {mode : Mode} {scope : Nat} {n : Node} {f : Forest} {o : Outcome}
    (h : (execute mode scope n f).outcome = .ok o) :
    (execute mode scope n f).log = o.diagnostics.map Diagnostic.evaluationEntry := by
  have hpaired := n.keepsJournal_evaluate mode scope Eval.keepsPaired_report ⟨f, .empty⟩ rfl
  rcases Eval.result_cases (n.evaluate mode scope) ⟨f, .empty⟩ with
    ⟨v, st, he⟩ | ⟨d, st, he⟩ | ⟨b, st, he⟩
  · rw [he] at hpaired
    rw [execute_ok he] at h ⊢
    cases h
    exact hpaired
  · rw [he] at hpaired
    rw [execute_fault he] at h ⊢
    cases h
    -- The fault that nothing caught is reported and logged last.
    exact Eval.keepsPaired_report d st hpaired
  · rw [execute_breakdown he] at h
    cases h

theorem Diagnostic.IsScripted.loggedAs {T : Option Span → Prop} {d : Diagnostic}
    (h : d.IsScripted T) (closed : Bool) : d.LoggedAs closed d.evaluationEntry := by
  obtain ⟨fault, s, rfl, hf, -⟩ := h
  refine .evaluation ?_
  rcases Fault.code_of_isScripted hf with hcode | rfl | rfl
  · have hbegins : ∀ c ∈ ["E401", "E402", "E403", "E404", "E405", "E406", "E409"],
        "E4".toList.isPrefixOf c.toList = true := by decide
    exact Or.inr (hbegins _ hcode)
  · exact Or.inl rfl
  · exact Or.inl rfl

/-! ## What a run logs -/

namespace Run

variable {closed : Bool} {r : Run}

/-- If there is an outcome, the log has one entry for each of its diagnostics from outside of
reading, and the entries come in the same order. -/
def Logged (closed : Bool) (r : Run) : Prop := ∀ o : Outcome, r.outcome = .ok o →
  List.Forall₂ (Diagnostic.LoggedAs closed) o.diagnostics.outsideReading r.log

theorem Logged.behind (h : r.Logged closed) {s : Scan} (hs : s.Logged closed)
    (line? : Int → Option String) : (r.behind s line?).Logged closed := by
  intro o ho
  rw [outcome_behind] at ho
  cases ho₁ : r.outcome with
  | error b =>
    rw [ho₁] at ho
    cases ho
  | ok o₁ =>
    rw [ho₁] at ho
    cases ho
    have hboth := List.rel_append hs (h o₁ ho₁)
    rw [Outcome.behind_diagnostics, Diagnostics.outsideReading_attach, Diagnostics.outsideReading_append,
      Diagnostics.outsideReading_of_logged hs]
    exact Diagnostics.logged_attach line? hboth

/-- What ends a reading is reported and not logged. -/
theorem logged_stopped (f : Forest) {d : Diagnostic} (h : d.codeBegins "E1" = true) :
    (stopped f d).Logged closed := by
  intro o ho
  cases ho
  have hnone : Diagnostics.outsideReading [d] = [] := by simp [Diagnostics.outsideReading, h]
  rw [Outcome.failed_diagnostics, Collector.add_diagnostics, Collector.empty_diagnostics,
    List.nil_append, hnone]
  exact .nil

end Run

theorem execute_logged {mode : Mode} {scope : Nat} {n : Node} {f : Forest} {closed : Bool}
    {P : Int → Prop} (hn : n.IsScript P) : (execute mode scope n f).Logged closed := by
  intro o ho
  have hany : n.SpansAre fun _ => True := fun _ _ => trivial
  have hall : List.Forall₂ (Diagnostic.LoggedAs closed) o.diagnostics
      (execute mode scope n f).log := by
    rw [execute_log ho, List.forall₂_map_right_iff, List.forall₂_same]
    exact fun d hd => (execute_scripted hn hany ho d hd).loggedAs closed
  rw [Diagnostics.outsideReading_of_logged hall]
  exact hall

theorem Node.ofTokens_codeBegins {ts : List Token} {d : Diagnostic}
    (h : ofTokens ts = .error (.fault d)) : d.codeBegins "E1" = true := by
  have hbegins : ∀ c ∈ ["E101", "E102", "E104", "E105", "E106", "E107"],
      "E1".toList.isPrefixOf c.toList = true := by decide
  have hsubset : ["E101", "E102", "E106", "E107"]
      ⊆ ["E101", "E102", "E104", "E105", "E106", "E107"] := by decide
  obtain ⟨fault, s, rfl, -, hf | rfl | ⟨rfl, -⟩⟩ := ofTokens_fault h
  · exact hbegins _ (hsubset (Fault.code_of_isReading hf).1)
  · exact hbegins "E104" (by decide)
  · exact hbegins "E105" (by decide)

/-- The log of a run has one entry for each diagnostic of its outcome, those of reading left out, and
the entries come in the order of the diagnostics. -/
theorem run_logged {mode : Mode} {file : Option String} {source : String} {scope : Nat} {f : Forest}
    {o : Outcome} (h : (run mode file source scope f).outcome = .ok o) :
    List.Forall₂ (Diagnostic.LoggedAs (scan source file).closedAhead)
      o.diagnostics.outsideReading (run mode file source scope f).log := by
  have hscan := scan_logged source file
  rcases run_cases source file with ha | ⟨ha, d, hd⟩ | ⟨n, hn⟩
  · rw [run_aborted ha] at h ⊢
    cases h
    rw [Outcome.failed_diagnostics, Scan.collected_diagnostics,
      Diagnostics.outsideReading_of_logged hscan]
    exact hscan
  · have hbegins := Node.ofTokens_codeBegins hd
    rw [run_unread ha hd] at h ⊢
    exact (Run.logged_stopped f hbegins).behind hscan _ o h
  · rw [run_evaluates hn] at h ⊢
    exact (execute_logged hn.isScript).behind hscan _ o h

/-- A comment, two faults that are caught and a kind of node without a meaning, in their order. -/
theorem mixed_reports_logged :
    ∃ o, (run .permissive none "/*/ */<trans>x;a.b;1/0</trans>" 0 .start).outcome = .ok o ∧
      o.collector.codes = ["W001", "E401", "W401", "E406"] ∧
        List.Forall₂ (Diagnostic.LoggedAs (scan "/*/ */<trans>x;a.b;1/0</trans>" none).closedAhead)
          o.diagnostics.outsideReading
          (run .permissive none "/*/ */<trans>x;a.b;1/0</trans>" 0 .start).log := by
  have hrun : (run .permissive none "/*/ */<trans>x;a.b;1/0</trans>" 0
      .start).outcome.toOption.map (·.collector.codes)
        = some ["W001", "E401", "W401", "E406"] := by decide +kernel
  obtain ⟨o, ho, hcodes⟩ := Option.map_eq_some_iff.1 hrun
  have hok := eq_ok_of_toOption ho
  exact ⟨o, hok, hcodes, run_logged hok⟩

example : (run .strict none "<trans></trans>@" 0 .start).log.map LogEntry.render
    = ["ERROR transcript.lexer: 1:16: error[E001]: unrecognized character '@' (code 64) "
      ++ "inside script region\n    = hint: the scan was aborted; the token stream ends with "
      ++ "UnexpectedEndOfFile (script region opened: True, closed: True)"] := by
  decide +kernel

end TemplateScript
