import TemplateScript.Proofs.Execution
import TemplateScript.Proofs.ReaderFaces

/-!
# Evaluation does not look at spans

A tree and the tree without its spans are evaluated alike: they do the same to the scopes, give the
same value or fail with the same fault, and report the same; only where a report points to may
differ.
-/

namespace TemplateScript

structure EvalState.Alike (st st' : EvalState) : Prop where
  forest : st.forest = st'.forest
  reports : st.journal.diagnostics.map Diagnostic.unplaced
    = st'.journal.diagnostics.map Diagnostic.unplaced

namespace EvalState.Alike

variable {st st' st'' : EvalState}

theorem refl (st : EvalState) : st.Alike st := ⟨rfl, rfl⟩

theorem symm (h : st.Alike st') : st'.Alike st := ⟨h.forest.symm, h.reports.symm⟩

theorem trans (h : st.Alike st') (h' : st'.Alike st'') : st.Alike st'' :=
  ⟨h.forest.trans h'.forest, h.reports.trans h'.reports⟩

end EvalState.Alike

namespace Eval

variable {α β : Type}

inductive Alike : Except EvalFailure α × EvalState → Except EvalFailure α × EvalState → Prop
  | ok (a : α) {st st' : EvalState} : st.Alike st' → Alike (.ok a, st) (.ok a, st')
  | fault {d d' : Diagnostic} {st st' : EvalState} : d.unplaced = d'.unplaced → st.Alike st' →
      Alike (.error (.fault d), st) (.error (.fault d'), st')
  | breakdown (b : Breakdown) {st st' : EvalState} : st.Alike st' →
      Alike (.error (.breakdown b), st) (.error (.breakdown b), st')

theorem Alike.symm {x y : Except EvalFailure α × EvalState} (h : Alike x y) : Alike y x := by
  cases h with
  | ok a h => exact .ok a h.symm
  | fault hd h => exact .fault hd.symm h.symm
  | breakdown b h => exact .breakdown b h.symm

theorem Alike.trans {x y z : Except EvalFailure α × EvalState} (h : Alike x y) (h' : Alike y z) :
    Alike x z := by
  cases h with
  | ok a h =>
    cases h' with
    | ok _ h' => exact .ok a (h.trans h')
  | fault hd h =>
    cases h' with
    | fault hd' h' => exact .fault (hd.trans hd') (h.trans h')
  | breakdown b h =>
    cases h' with
    | breakdown _ h' => exact .breakdown b (h.trans h')

structure Unplaced (e e' : Eval α) : Prop where
  alike : ∀ {st st' : EvalState}, st.Alike st' → Alike (e st) (e' st')

theorem Unplaced.symm {e e' : Eval α} (h : Unplaced e e') : Unplaced e' e :=
  ⟨fun hst => (h.alike hst.symm).symm⟩

theorem Unplaced.trans {e e' e'' : Eval α} (h : Unplaced e e') (h' : Unplaced e' e'') :
    Unplaced e e'' :=
  ⟨fun hst => (h.alike (.refl _)).trans (h'.alike hst)⟩

theorem unplaced_pure (a : α) : Unplaced (pure a : Eval α) (pure a) := ⟨fun hst => .ok a hst⟩

theorem unplaced_bind {e e' : Eval α} {k k' : α → Eval β} (he : Unplaced e e')
    (hk : ∀ a, Unplaced (k a) (k' a)) : Unplaced (e >>= k) (e' >>= k') := by
  refine ⟨fun {st st'} hst => ?_⟩
  have h := he.alike hst
  generalize hx : e st = x at h
  generalize hy : e' st' = y at h
  cases h with
  | ok a h =>
    rw [bind_ok hx, bind_ok hy]
    exact (hk a).alike h
  | fault hd h =>
    rw [bind_error hx, bind_error hy]
    exact .fault hd h
  | breakdown b h =>
    rw [bind_error hx, bind_error hy]
    exact .breakdown b h

theorem unplaced_fail (f : Fault) (s s' : Option Span) :
    Unplaced (fail f s : Eval α) (fail f s') := ⟨fun hst => .fault rfl hst⟩

theorem unplaced_breakDown (b : Breakdown) : Unplaced (breakDown b : Eval α) (breakDown b) :=
  ⟨fun hst => .breakdown b hst⟩

theorem alike_report {st st' : EvalState} {d d' : Diagnostic} (hst : st.Alike st')
    (hd : d.unplaced = d'.unplaced) : (report d st).2.Alike (report d' st').2 where
  forest := hst.forest
  reports := by
    simp only [report, Journal.report_diagnostics, List.map_append, hst.reports, List.map_cons, hd,
      List.map_nil]

theorem unplaced_query (s s' : Option Span) (q : Forest → Except Fault α) :
    Unplaced (query s q) (query s' q) := by
  refine ⟨fun {st st'} hst => ?_⟩
  simp only [query, hst.forest]
  split
  · exact .ok _ hst
  · exact (unplaced_fail _ s s').alike hst

theorem unplaced_change (s s' : Option Span) (q : Forest → Except Fault Forest) :
    Unplaced (change s q) (change s' q) := by
  refine ⟨fun {st st'} hst => ?_⟩
  simp only [change, hst.forest]
  split
  · exact .ok () ⟨rfl, hst.reports⟩
  · exact (unplaced_fail _ s s').alike hst

section
variable (s s' : Option Span)

theorem unplaced_declare (scope : Nat) (x : String) (v : Value) (constant : Bool) :
    Unplaced (declare scope x v constant s) (declare scope x v constant s') :=
  unplaced_bind (unplaced_change s s' _) fun _ => unplaced_pure v

theorem unplaced_assign (scope : Nat) (x : String) (v : Value) :
    Unplaced (assign scope x v s) (assign scope x v s') :=
  unplaced_bind (unplaced_change s s' _) fun _ => unplaced_pure v

theorem unplaced_unhandled (kind : String) : Unplaced (unhandled kind s) (unhandled kind s') :=
  unplaced_bind ⟨fun hst => .ok () (alike_report hst rfl)⟩ fun _ => unplaced_pure _

theorem unplaced_operate (operator : String) (a b : Value) :
    Unplaced (operate operator a b s) (operate operator a b s') := by
  unfold operate
  split
  · split
    · exact unplaced_pure _
    · exact unplaced_fail _ s s'
    · exact unplaced_fail _ s s'
    · exact unplaced_fail _ s s'
    · exact unplaced_breakDown _
  · exact unplaced_fail _ s s'

end

theorem unplaced_attempt (mode : Mode) {e e' : Eval Value} (he : Unplaced e e') :
    Unplaced (attempt mode e) (attempt mode e') := by
  refine ⟨fun {st st'} hst => ?_⟩
  have h := he.alike hst
  unfold attempt
  generalize e st = x at h
  generalize e' st' = y at h
  cases h with
  | ok a h => cases mode <;> exact .ok a h
  | breakdown b h => cases mode <;> exact .breakdown b h
  | fault hd h =>
    cases mode with
    | strict => exact .fault hd h
    | permissive => exact .ok Value.null (alike_report h hd)

end Eval

namespace Node

open Eval

mutual

theorem unplaced_eval (mode : Mode) (scope : Nat) :
    ∀ n : Node, Unplaced (n.eval mode scope) (n.unspanned.eval mode scope)
  | .literal _ n => by
    simp only [unspanned, eval]
    exact unplaced_pure _
  | .identifier s x => by
    simp only [unspanned, eval]
    exact unplaced_query s none _
  | .object _ ps => by
    simp only [unspanned, eval]
    exact unplaced_bind (unplaced_evalProperties mode scope [] ps) fun table => unplaced_pure _
  | .assignment s target value => by
    cases target
    case identifier s' x =>
      simp only [unspanned, eval]
      exact unplaced_bind (unplaced_eval mode scope value) (unplaced_assign s none scope x)
    all_goals
      simp only [unspanned, eval]
      exact unplaced_fail _ s none
  | .binary s left operator right => by
    simp only [unspanned, eval]
    refine unplaced_bind (unplaced_eval mode scope left) fun a => ?_
    exact unplaced_bind (unplaced_eval mode scope right)
      fun b => unplaced_operate s none operator a b
  | .program _ body => by
    simp only [unspanned, eval]
    exact unplaced_evalBody mode scope .null body
  | .declaration s constant x value => by
    simp only [unspanned, eval, isAbsent_unspanned]
    split
    · split
      · exact unplaced_fail _ s none
      · exact unplaced_declare s none scope x .null false
    · refine unplaced_bind (unplaced_eval mode scope value) fun v => ?_
      exact unplaced_declare s none scope x v constant
  | .member s _ _ _ | .call s _ _ | .property s _ _ | .bare s _ => by
    simp only [unspanned, eval]
    exact unplaced_unhandled s none _
  | .filler f => by
    simp only [unspanned, eval]
    exact unplaced_unhandled none none _

theorem unplaced_evalBody (mode : Mode) (scope : Nat) (last : Value) :
    ∀ ns : List Node, Unplaced (evalBody mode scope last ns)
      (evalBody mode scope last (unspannedEach ns))
  | [] => by
    simp only [unspannedEach, evalBody]
    exact unplaced_pure last
  | n :: ns => by
    simp only [unspannedEach, evalBody]
    refine unplaced_bind (unplaced_attempt mode (unplaced_eval mode scope n)) fun v => ?_
    exact unplaced_evalBody mode scope v ns

theorem unplaced_evalProperties (mode : Mode) (scope : Nat) (table : Table Value) :
    ∀ ns : List Node, Unplaced (evalProperties mode scope table ns)
      (evalProperties mode scope table (unspannedEach ns))
  | [] => by
    simp only [unspannedEach, evalProperties]
    exact unplaced_pure table
  | .property s key value :: ns => by
    simp only [unspannedEach, unspanned, evalProperties, isAbsent_unspanned]
    have hns := fun v => unplaced_evalProperties mode scope (table.put key v) ns
    split
    · exact unplaced_bind (unplaced_query s none _) hns
    · exact unplaced_bind (unplaced_eval mode scope value) hns
  | .literal _ n :: _ => by
    simp only [unspannedEach, unspanned, evalProperties]
    exact unplaced_bind (unplaced_unhandled none none _) fun _ => unplaced_breakDown _
  | .declaration s c x value :: _ => by
    simp only [unspannedEach, unspanned, evalProperties, isAbsent_unspanned]
    split
    · exact unplaced_bind (unplaced_pure _) fun _ => unplaced_breakDown _
    · exact unplaced_bind (unplaced_eval mode scope value) fun _ => unplaced_breakDown _
  | .assignment s target value :: _ => by
    simp only [unspannedEach, unspanned, evalProperties, isAbsent_unspanned]
    split
    · exact unplaced_bind (unplaced_pure _) fun _ => unplaced_breakDown _
    · exact unplaced_bind (unplaced_eval mode scope value) fun _ => unplaced_breakDown _
  | .program .. :: _ | .binary .. :: _ | .member .. :: _ | .call .. :: _ | .identifier .. :: _
  | .object .. :: _ | .bare .. :: _ | .filler _ :: _ => by
    simp only [unspannedEach, unspanned, evalProperties]
    exact unplaced_breakDown _

end

/-- Trees that differ in their spans alone are evaluated alike. -/
theorem unplaced_evaluate (mode : Mode) (scope : Nat) {n m : Node}
    (h : n.unspanned = m.unspanned) : Unplaced (n.evaluate mode scope) (m.evaluate mode scope) := by
  have hn := unplaced_eval mode scope n
  rw [h] at hn
  exact unplaced_attempt mode (hn.trans (unplaced_eval mode scope m).symm)

end Node

/-! ## Executions -/

def Diagnostics.unplaced (ds : Diagnostics) : Diagnostics := ds.map Diagnostic.unplaced

/-- A run as far as it is looked at: its outcome, with the diagnostics through a view, and the
scopes it leaves. -/
def Run.seen (view : Diagnostics → Diagnostics) (r : Run) : Except Breakdown Outcome × Forest :=
  (r.outcome.map fun o => { o with collector := .of (view o.diagnostics) }, r.forest)

theorem Diagnostics.hasErrors_unplaced (ds : Diagnostics) :
    ds.unplaced.hasErrors = ds.hasErrors := by
  simp only [unplaced, hasErrors, List.any_map]
  rfl

theorem message_unplaced {d e : Diagnostic} (h : d.unplaced = e.unplaced) :
    d.message = e.message := by
  have hm : d.unplaced.message = e.unplaced.message := by rw [h]
  exact hm

theorem execute_unplaced (mode : Mode) (scope : Nat) (f : Forest) {n m : Node}
    (h : n.unspanned = m.unspanned) :
    (execute mode scope n f).seen Diagnostics.unplaced
      = (execute mode scope m f).seen Diagnostics.unplaced := by
  have hend := (Node.unplaced_evaluate mode scope h).alike (.refl ⟨f, .empty⟩)
  generalize hx : n.evaluate mode scope ⟨f, .empty⟩ = x at hend
  generalize hy : m.evaluate mode scope ⟨f, .empty⟩ = y at hend
  cases hend with
  | @ok v st st' hst =>
    have hds : st.journal.diagnostics.unplaced = st'.journal.diagnostics.unplaced := hst.reports
    have herrors : st.journal.diagnostics.hasErrors = st'.journal.diagnostics.hasErrors := by
      rw [← Diagnostics.hasErrors_unplaced, hds, Diagnostics.hasErrors_unplaced]
    rw [execute_ok hx, execute_ok hy]
    simp only [Run.seen, Except.map, hds, herrors, hst.forest]
  | @fault d d' st st' hd hst =>
    have hds : (st.journal.diagnostics ++ [d]).map Diagnostic.unplaced
        = (st'.journal.diagnostics ++ [d']).map Diagnostic.unplaced := by
      rw [List.map_append, List.map_append, hst.reports, List.map_cons, hd]
      rfl
    rw [execute_fault hx, execute_fault hy]
    simp only [Run.seen, Except.map, Outcome.failed, Outcome.diagnostics, Collector.add_diagnostics,
      Diagnostics.unplaced, hds, message_unplaced hd, hst.forest]
  | breakdown b hst =>
    rw [execute_breakdown hx, execute_breakdown hy]
    simp only [Run.seen, Except.map, hst.forest]

end TemplateScript
