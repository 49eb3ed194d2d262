import TemplateScript.Proofs.Collectors
import TemplateScript.Proofs.Lockstep

/-!
# What an evaluation does to the journal

An evaluation adds to the journal it is given and never looks at it, so what it does can be told from
an evaluation with an empty journal. What every report keeps of the journal is kept by all of it, and
a strict evaluation adds warnings only.
-/

namespace TemplateScript

def EvalState.behind (st : EvalState) (j : Journal) : EvalState := ⟨st.forest, j.append st.journal⟩

@[simp] theorem EvalState.behind_forest (st : EvalState) (j : Journal) :
    (st.behind j).forest = st.forest := rfl

namespace Eval

variable {α β : Type}

def Framed (e : Eval α) : Prop :=
  ∀ (j : Journal) (st : EvalState), e (st.behind j) = ((e st).1, (e st).2.behind j)

theorem framed_of_journal_eq {e : Eval α}
    (h : ∀ (f : Forest) (j : Journal), e ⟨f, j⟩ = ((e ⟨f, .empty⟩).1, ⟨(e ⟨f, .empty⟩).2.forest, j⟩)) :
    Framed e := by
  intro j st
  rw [EvalState.behind, h, h st.forest st.journal]
  rfl

theorem framed_bind {e : Eval α} {k : α → Eval β} (he : Framed e) (hk : ∀ a, Framed (k a)) :
    Framed (e >>= k) := by
  intro j st
  have hj := he j st
  cases h : e st with
  | mk r st' =>
    rw [h] at hj
    cases r with
    | ok a => rw [bind_ok h, bind_ok hj]; exact hk a j st'
    | error x => rw [bind_error h, bind_error hj]

theorem framed_query (s : Option Span) (q : Forest → Except Fault α) : Framed (query s q) := by
  refine framed_of_journal_eq fun f j => ?_
  cases h : q f <;> simp [query, h, fail]

theorem framed_change (s : Option Span) (q : Forest → Except Fault Forest) : Framed (change s q) := by
  refine framed_of_journal_eq fun f j => ?_
  cases h : q f <;> simp [change, h, fail]

theorem framed_pure (a : α) : Framed (pure a : Eval α) := fun _ _ => rfl

theorem framed_report (d : Diagnostic) : Framed (report d) := by
  intro j st
  simp only [report, EvalState.behind, Journal.append_report]

theorem framed_fail (f : Fault) (s : Option Span) : Framed (fail f s : Eval α) := fun _ _ => rfl

theorem framed_breakDown (b : Breakdown) : Framed (breakDown b : Eval α) := fun _ _ => rfl

theorem framed_unhandled (kind : String) (s : Option Span) : Framed (unhandled kind s) :=
  framed_bind (framed_report _) fun _ => framed_pure _

theorem framed_declare (scope : Nat) (x : String) (v : Value) (c : Bool) (s : Option Span) :
    Framed (declare scope x v c s) := framed_bind (framed_change s _) fun _ => framed_pure v

theorem framed_assign (scope : Nat) (x : String) (v : Value) (s : Option Span) :
    Framed (assign scope x v s) := framed_bind (framed_change s _) fun _ => framed_pure v

theorem framed_attempt (mode : Mode) {e : Eval Value} (he : Framed e) : Framed (attempt mode e) := by
  intro j st
  have hj := he j st
  cases h : e st with
  | mk r st' =>
    rw [h] at hj
    cases mode with
    | strict => simp only [attempt, h, hj]
    | permissive =>
      cases r with
      | ok v => simp only [attempt, h, hj]
      | error x =>
        cases x with
        | breakdown b => simp only [attempt, h, hj]
        | fault d =>
          simp only [attempt, h, hj]
          exact framed_bind (framed_report d) (fun _ => framed_pure _) j st'

theorem framed_lockstep (mode : Mode) (scope : Nat) :
    Lockstep (fun _ => True) (fun _ e _ => Framed e) mode mode scope scope where
  part _ _ := trivial
  pure := framed_pure
  bind := framed_bind
  fail f s _ := framed_fail f s
  breakDown := framed_breakDown
  unhandled := framed_unhandled
  identifier _ := framed_query _ _
  shorthand _ _ := framed_query _ _
  declare _ v := framed_declare scope _ v _ _
  assign _ v := framed_assign scope _ v _
  attempt _ := framed_attempt mode

theorem Framed.of_empty {e : Eval α} (he : Framed e) (f : Forest) (j : Journal) :
    e ⟨f, j⟩ = ((e ⟨f, .empty⟩).1, (e ⟨f, .empty⟩).2.behind j) := by
  rw [← he, EvalState.behind, Journal.append_empty]

theorem Framed.journal_extends {e : Eval α} (he : Framed e) (st : EvalState) :
    st.journal.diagnostics <+: (e st).2.journal.diagnostics := by
  rw [he.of_empty st.forest st.journal]
  exact List.prefix_append _ _

/-! ## What holds of the journal -/

section
variable {P : Journal → Prop}

def KeepsJournal (P : Journal → Prop) (e : Eval α) : Prop :=
  ∀ st : EvalState, P st.journal → P (e st).2.journal

theorem keepsJournal_of_eq {e : Eval α} (h : ∀ st, (e st).2.journal = st.journal) :
    KeepsJournal P e := by
  intro st hst
  rw [h]
  exact hst

theorem keepsJournal_bind {e : Eval α} {k : α → Eval β} (he : KeepsJournal P e)
    (hk : ∀ a, KeepsJournal P (k a)) : KeepsJournal P (e >>= k) := by
  intro st hst
  have hmid := he st hst
  cases h : e st with
  | mk r st' =>
    rw [h] at hmid
    cases r with
    | ok a =>
      rw [bind_ok h]
      exact hk a st' hmid
    | error x =>
      rw [bind_error h]
      exact hmid

theorem keepsJournal_pure (a : α) : KeepsJournal P (pure a : Eval α) :=
  keepsJournal_of_eq fun _ => rfl

theorem keepsJournal_query (s : Option Span) (q : Forest → Except Fault α) :
    KeepsJournal P (query s q) := by
  refine keepsJournal_of_eq fun st => ?_
  unfold query
  split <;> rfl

theorem keepsJournal_change (s : Option Span) (q : Forest → Except Fault Forest) :
    KeepsJournal P (change s q) := by
  refine keepsJournal_of_eq fun st => ?_
  unfold change
  split <;> rfl

variable (hreport : ∀ d, KeepsJournal P (report d))
include hreport

/-- A fault that is caught is reported there and then; one that is not leaves no trace yet. -/
theorem keepsJournal_attempt (mode : Mode) {e : Eval Value} (he : KeepsJournal P e) :
    KeepsJournal P (attempt mode e) := by
  intro st hst
  have hmid := he st hst
  unfold attempt
  split
  · rename_i d st' h
    rw [h] at hmid
    exact keepsJournal_bind (hreport d) (fun _ => keepsJournal_pure _) st' hmid
  · exact hmid

theorem keepsJournal_lockstep (mode : Mode) (scope : Nat) :
    Lockstep (fun _ => True) (fun _ e _ => KeepsJournal P e) mode mode scope scope where
  part _ _ := trivial
  pure := keepsJournal_pure
  bind := keepsJournal_bind
  fail _ _ _ := keepsJournal_of_eq fun _ => rfl
  breakDown _ := keepsJournal_of_eq fun _ => rfl
  unhandled _ _ := keepsJournal_bind (hreport _) fun _ => keepsJournal_pure _
  identifier _ := keepsJournal_query _ _
  shorthand _ _ := keepsJournal_query _ _
  declare _ v := keepsJournal_bind (keepsJournal_change _ _) fun _ => keepsJournal_pure v
  assign _ v := keepsJournal_bind (keepsJournal_change _ _) fun _ => keepsJournal_pure v
  attempt _ := keepsJournal_attempt hreport mode

end

/-! ## A strict evaluation reports warnings only -/

def Warns (e : Eval α) : Prop := ∀ st : EvalState, ∃ ws : Diagnostics,
  (e st).2.journal.diagnostics = st.journal.diagnostics ++ ws ∧
    ∀ w ∈ ws, w.code = "W401" ∧ w.isError = false

theorem warns_of_journal_eq {e : Eval α} (h : ∀ st, (e st).2.journal = st.journal) : Warns e :=
  fun st => ⟨[], by simp [h]⟩

theorem warns_bind {e : Eval α} {k : α → Eval β} (he : Warns e) (hk : ∀ a, Warns (k a)) :
    Warns (e >>= k) := by
  intro st
  obtain ⟨ws, hws, hw⟩ := he st
  cases h : e st with
  | mk r st' =>
    rw [h] at hws
    cases r with
    | error x => rw [bind_error h]; exact ⟨ws, hws, hw⟩
    | ok a =>
      rw [bind_ok h]
      obtain ⟨us, hus, hu⟩ := hk a st'
      refine ⟨ws ++ us, ?_, ?_⟩
      · rw [hus, hws, List.append_assoc]
      · intro w hm
        exact (List.mem_append.1 hm).elim (hw w) (hu w)

theorem warns_query (s : Option Span) (q : Forest → Except Fault α) : Warns (query s q) := by
  refine warns_of_journal_eq fun st => ?_
  unfold query
  split <;> rfl

theorem warns_change (s : Option Span) (q : Forest → Except Fault Forest) : Warns (change s q) := by
  refine warns_of_journal_eq fun st => ?_
  unfold change
  split <;> rfl

theorem warns_pure (a : α) : Warns (pure a : Eval α) := warns_of_journal_eq fun _ => rfl

theorem warns_unhandled (kind : String) (s : Option Span) : Warns (unhandled kind s) := by
  refine warns_bind (fun st => ⟨[(Fault.unhandled kind).diagnoseAt s], rfl, ?_⟩) fun _ => warns_pure _
  simp only [List.mem_singleton, forall_eq]
  exact ⟨rfl, rfl⟩

theorem warns_lockstep (scope : Nat) :
    Lockstep (fun _ => True) (fun _ e _ => Warns e) .strict .strict scope scope where
  part _ _ := trivial
  pure := warns_pure
  bind := warns_bind
  fail _ _ _ := warns_of_journal_eq fun _ => rfl
  breakDown _ := warns_of_journal_eq fun _ => rfl
  unhandled := warns_unhandled
  identifier _ := warns_query _ _
  shorthand _ _ := warns_query _ _
  declare _ v := warns_bind (warns_change _ _) fun _ => warns_pure v
  assign _ v := warns_bind (warns_change _ _) fun _ => warns_pure v
  attempt _ _ _ he := he

end Eval

namespace Node

variable (mode : Mode) (scope : Nat) (n : Node)

theorem framed_eval : Eval.Framed (n.eval mode scope) :=
  (Eval.framed_lockstep mode scope).eval n trivial

/-- What every report keeps of the journal an evaluation keeps. -/
theorem keepsJournal_evaluate {P : Journal → Prop}
    (hreport : ∀ d, Eval.KeepsJournal P (Eval.report d)) :
    Eval.KeepsJournal P (n.evaluate mode scope) :=
  Eval.keepsJournal_attempt hreport mode
    ((Eval.keepsJournal_lockstep hreport mode scope).eval n trivial)

theorem warns_evaluate : Eval.Warns (n.evaluate .strict scope) :=
  (Eval.warns_lockstep scope).eval n trivial

end Node

end TemplateScript
