import TemplateScript.Proofs.Lockstep

/-!
# How an evaluation may fail

What holds of each failure of the parts of a computation holds of its own. Faults are errors, never
warnings, and nothing but an operation on values breaks down.
-/

namespace TemplateScript

def EvalFailure.IsError : EvalFailure → Prop
  | .fault d => d.isError = true
  | .breakdown _ => True

def EvalFailure.IsFault : EvalFailure → Prop
  | .fault _ => True
  | .breakdown _ => False

namespace Eval

variable {α β : Type} {P : EvalFailure → Prop}

/-- The three ways in which a computation ends. -/
theorem result_cases (e : Eval α) (st : EvalState) :
    (∃ a st', e st = (.ok a, st')) ∨ (∃ d st', e st = (.error (.fault d), st')) ∨
      ∃ b st', e st = (.error (.breakdown b), st') := by
  cases h : e st with
  | mk r st' =>
    cases r with
    | ok a => exact Or.inl ⟨a, st', rfl⟩
    | error x =>
      cases x with
      | fault d => exact Or.inr (Or.inl ⟨d, st', rfl⟩)
      | breakdown b => exact Or.inr (Or.inr ⟨b, st', rfl⟩)

def FailsWith (P : EvalFailure → Prop) (e : Eval α) : Prop :=
  ∀ (st : EvalState) (x : EvalFailure), (e st).1 = .error x → P x

theorem failsWith_pure (a : α) : FailsWith P (pure a : Eval α) := fun _ _ h => by cases h

theorem failsWith_bind {e : Eval α} {k : α → Eval β} (he : FailsWith P e)
    (hk : ∀ a, FailsWith P (k a)) : FailsWith P (e >>= k) := by
  intro st x hx
  have hst := he st
  cases h : e st with
  | mk r st' =>
    rw [h] at hst
    cases r with
    | ok a =>
      rw [bind_ok h] at hx
      exact hk a st' x hx
    | error y =>
      rw [bind_error h] at hx
      cases hx
      exact hst x rfl

theorem failsWith_report (d : Diagnostic) : FailsWith P (report d) := fun _ _ h => by cases h

theorem failsWith_fail {f : Fault} {s : Option Span} (hf : P (.fault (f.diagnoseAt s))) :
    FailsWith P (fail f s : Eval α) := by
  intro st x hx
  cases hx
  exact hf

theorem failsWith_query {s : Option Span} {q : Forest → Except Fault α}
    (hq : ∀ f y, q f = .error y → P (.fault (y.diagnoseAt s))) : FailsWith P (query s q) := by
  intro st
  cases h : q st.forest with
  | ok a => simp [query, h]
  | error y =>
    simp only [query, h]
    exact failsWith_fail (hq _ _ h) st

theorem failsWith_change {s : Option Span} {q : Forest → Except Fault Forest}
    (hq : ∀ f y, q f = .error y → P (.fault (y.diagnoseAt s))) : FailsWith P (change s q) := by
  intro st
  cases h : q st.forest with
  | ok f => simp [change, h]
  | error y =>
    simp only [change, h]
    exact failsWith_fail (hq _ _ h) st

theorem failsWith_attempt (mode : Mode) {e : Eval Value} (he : FailsWith P e) :
    FailsWith P (attempt mode e) := by
  intro st x hx
  cases mode with
  | strict => exact he st x hx
  | permissive =>
    unfold attempt at hx
    split at hx
    · cases hx
    · exact he st x hx

theorem failsWith_unhandled (kind : String) (s : Option Span) : FailsWith P (unhandled kind s) :=
  failsWith_bind (failsWith_report _) fun _ => failsWith_pure _

/-! ## Faults are errors -/

theorem isError_of_severity {f : Fault} (s : Option Span) (hf : f.severity = .error) :
    EvalFailure.IsError (.fault (f.diagnoseAt s)) := by
  simp [EvalFailure.IsError, Diagnostic.isError, Fault.diagnoseAt, hf]

theorem lookup_eq_error {f : Forest} {scope : Nat} {x : String} {e : Fault}
    (h : f.lookup scope x = .error e) : e = .undeclared x := by
  unfold Forest.lookup at h
  split at h
  · cases h
  · cases h; rfl

theorem declare_eq_error {f : Forest} {scope : Nat} {x : String} {v : Value} {c : Bool} {e : Fault}
    (h : f.declare scope x v c = .error e) : e = .alreadyDeclared x := by
  unfold Forest.declare at h
  split at h
  · cases h; rfl
  · cases h

theorem assign_eq_error {f : Forest} {scope : Nat} {x : String} {v : Value} {e : Fault}
    (h : f.assign scope x v = .error e) : e = .undeclared x ∨ e = .constantReassigned x := by
  unfold Forest.assign at h
  split at h
  · cases h; exact Or.inl rfl
  · split at h
    · cases h; exact Or.inr rfl
    · cases h

theorem errs_lookup (scope : Nat) (x : String) (s : Option Span) :
    FailsWith EvalFailure.IsError (lookup scope x s) :=
  failsWith_query fun _ _ h => isError_of_severity s (lookup_eq_error h ▸ rfl)

theorem errs_lockstep (mode : Mode) (scope : Nat) :
    Lockstep (fun _ => True) (fun _ e _ => FailsWith EvalFailure.IsError e) mode mode scope scope where
  part _ _ := trivial
  pure := failsWith_pure
  bind := failsWith_bind
  fail _ s hf := failsWith_fail (isError_of_severity s hf)
  breakDown _ := fun _ _ h => by cases h; trivial
  unhandled := failsWith_unhandled
  identifier _ := errs_lookup scope _ _
  shorthand _ _ := errs_lookup scope _ _
  declare _ v := failsWith_bind
    (failsWith_change fun _ _ h => isError_of_severity _ (declare_eq_error h ▸ rfl)) fun _ =>
      failsWith_pure v
  assign _ v := failsWith_bind
    (failsWith_change fun _ _ h => isError_of_severity _ (by
      rcases assign_eq_error h with rfl | rfl <;> rfl)) fun _ => failsWith_pure v
  attempt _ := failsWith_attempt mode

/-! ## What never breaks down -/

theorem FailsWith.not_breakdown {e : Eval α} (he : FailsWith EvalFailure.IsFault e)
    {st st' : EvalState} {b : Breakdown} : e st ≠ (.error (.breakdown b), st') :=
  fun h => he st (.breakdown b) (congrArg Prod.fst h)

theorem faults_lookup (scope : Nat) (x : String) (s : Option Span) :
    FailsWith EvalFailure.IsFault (lookup scope x s) :=
  failsWith_query fun _ _ _ => trivial

theorem faults_declare (scope : Nat) (x : String) (v : Value) (c : Bool) (s : Option Span) :
    FailsWith EvalFailure.IsFault (declare scope x v c s) :=
  failsWith_bind (failsWith_change fun _ _ _ => trivial) fun _ => failsWith_pure v

theorem faults_assign (scope : Nat) (x : String) (v : Value) (s : Option Span) :
    FailsWith EvalFailure.IsFault (assign scope x v s) :=
  failsWith_bind (failsWith_change fun _ _ _ => trivial) fun _ => failsWith_pure v

end Eval

theorem Node.errs_evaluate (mode : Mode) (scope : Nat) (n : Node) :
    Eval.FailsWith EvalFailure.IsError (n.evaluate mode scope) :=
  Eval.failsWith_attempt mode ((Eval.errs_lockstep mode scope).eval n trivial)

end TemplateScript
