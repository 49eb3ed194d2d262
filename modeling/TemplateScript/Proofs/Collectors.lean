import TemplateScript.Journal

/-!
# Collectors and journals

The counter of a collector counts the errors among its diagnostics as long as these come in one by
one, whatever they are and however collectors are put together. A source line that is attached later
changes neither the count nor anything else but itself. Two journals make one, with the reports of the
first ahead.
-/

namespace TemplateScript

/-! ## Counting in a list -/

namespace Diagnostics

variable {ds : Diagnostics} {d : Diagnostic}

def errorCount (ds : Diagnostics) : Nat := ds.countP Diagnostic.isError

def warningCount (ds : Diagnostics) : Nat := ds.countP fun d => !d.isError

def hasErrors (ds : Diagnostics) : Bool := ds.any Diagnostic.isError

theorem errorCount_add_warningCount (ds : Diagnostics) :
    ds.errorCount + ds.warningCount = ds.length := by
  rw [List.length_eq_countP_add_countP Diagnostic.isError]
  simp [errorCount, warningCount]

theorem hasErrors_eq_false : ds.hasErrors = false ↔ ∀ d ∈ ds, d.isError = false := by
  simp [hasErrors]

theorem hasErrors_of_mem (h : d ∈ ds) (hd : d.isError = true) : ds.hasErrors = true :=
  List.any_eq_true.2 ⟨d, h, hd⟩

end Diagnostics

/-! ## Source lines -/

namespace Diagnostic

variable (line? : Int → Option String) (d : Diagnostic)

/-- What does not depend on the source line is the same with one attached. -/
theorem unseen_attach {α : Type} (f : Diagnostic → α)
    (hf : ∀ d line, f { d with sourceLine := line } = f d) : f (d.attach line?) = f d := by
  unfold attach
  split
  · exact hf d _
  · rfl

@[simp] theorem code_attach : (d.attach line?).code = d.code :=
  unseen_attach line? d (·.code) fun _ _ => rfl

@[simp] theorem span_attach : (d.attach line?).span = d.span :=
  unseen_attach line? d (·.span) fun _ _ => rfl

@[simp] theorem message_attach : (d.attach line?).message = d.message :=
  unseen_attach line? d (·.message) fun _ _ => rfl

@[simp] theorem isError_attach : (d.attach line?).isError = d.isError :=
  unseen_attach line? d isError fun _ _ => rfl

end Diagnostic

/-! ## The counter -/

namespace Collector

variable {c c' : Collector}

@[simp] theorem empty_diagnostics : empty.diagnostics = [] := rfl

@[simp] theorem add_diagnostics (c : Collector) (d : Diagnostic) :
    (c.add d).diagnostics = c.diagnostics ++ [d] := rfl

@[simp] theorem addFirst_diagnostics (c : Collector) (d : Diagnostic) :
    (c.addFirst d).diagnostics = d :: c.diagnostics := rfl

@[simp] theorem attach_diagnostics (c : Collector) (line? : Int → Option String) :
    (c.attach line?).diagnostics = c.diagnostics.map (·.attach line?) := rfl

@[simp] theorem extend_diagnostics (c c' : Collector) :
    (c.extend c').diagnostics = c.diagnostics ++ c'.diagnostics := by
  unfold extend
  generalize c'.diagnostics = ds
  induction ds generalizing c with
  | nil => simp
  | cons d ds ih => rw [List.foldl_cons, ih, add_diagnostics, List.append_assoc]; rfl

def Counted (c : Collector) : Prop := c.errors = c.diagnostics.errorCount

theorem counted_empty : empty.Counted := rfl

theorem Counted.add (h : c.Counted) (d : Diagnostic) : (c.add d).Counted := by
  simp only [Counted, Collector.add, counting, Diagnostics.errorCount, List.countP_append,
    List.countP_singleton] at h ⊢
  split <;> simp [h]

theorem Counted.addFirst (h : c.Counted) (d : Diagnostic) : (c.addFirst d).Counted := by
  simp only [Counted, Collector.addFirst, counting, Diagnostics.errorCount, List.countP_cons] at h ⊢
  split <;> simp [h]

theorem Counted.extend (h : c.Counted) (c' : Collector) : (c.extend c').Counted := by
  unfold Collector.extend
  generalize c'.diagnostics = ds
  induction ds generalizing c with
  | nil => exact h
  | cons d ds ih => exact ih (h.add d)

theorem Counted.attach (h : c.Counted) (line? : Int → Option String) :
    (c.attach line?).Counted := by
  have hcomp : Diagnostic.isError ∘ Diagnostic.attach line? = Diagnostic.isError :=
    funext (Diagnostic.isError_attach line?)
  rw [Counted, Collector.attach, Diagnostics.errorCount, List.countP_map, hcomp]
  exact h

theorem Counted.hasErrors_eq (h : c.Counted) : c.hasErrors = c.diagnostics.hasErrors := by
  rw [Collector.hasErrors, h, Diagnostics.errorCount, Diagnostics.hasErrors, Bool.eq_iff_iff,
    decide_eq_true_eq, List.countP_pos_iff, List.any_eq_true]

def of (ds : Diagnostics) : Collector := ⟨ds, ds.errorCount⟩

theorem Counted.eq_of (h : c.Counted) : c = of c.diagnostics :=
  congrArg (Collector.mk c.diagnostics) h

theorem add_empty (d : Diagnostic) : empty.add d = of [d] := (counted_empty.add d).eq_of

end Collector

/-! ## Journals -/

namespace Journal

variable (j k : Journal) (d : Diagnostic) (e : LogEntry)

@[simp] theorem empty_diagnostics : empty.diagnostics = [] := rfl

@[simp] theorem empty_log : empty.log = [] := rfl

@[simp] theorem report_diagnostics : (j.report d e).diagnostics = j.diagnostics ++ [d] := rfl

@[simp] theorem reportFirst_diagnostics : (j.reportFirst d e).diagnostics = d :: j.diagnostics := rfl

def append (j k : Journal) : Journal :=
  ⟨⟨j.diagnostics ++ k.diagnostics, j.collector.errors + k.collector.errors⟩, j.log ++ k.log⟩

@[simp] theorem append_diagnostics :
    (j.append k).diagnostics = j.diagnostics ++ k.diagnostics := rfl

@[simp] theorem append_empty : j.append .empty = j := by
  simp [append, empty, diagnostics]

@[simp] theorem empty_append : append .empty j = j := by
  simp [append, empty, diagnostics]

theorem append_report : (j.append k).report d e = j.append (k.report d e) := by
  simp only [append, report, diagnostics, Collector.add, Collector.counting, List.append_assoc]
  split <;> rfl

theorem reportFirst_append : (j.reportFirst d e).append k = (j.append k).reportFirst d e := by
  simp only [append, reportFirst, diagnostics, Collector.addFirst, Collector.counting,
    List.cons_append]
  split <;> simp only [Nat.add_right_comm]

end Journal

end TemplateScript
