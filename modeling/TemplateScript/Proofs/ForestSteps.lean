import TemplateScript.Proofs.Lockstep

/-!
# What evaluation makes of the scopes

An evaluation changes the scopes by declarations and assignments only, one after the other and up to
some failure. A relation between forests that these two steps keep therefore holds between the
forest that any evaluation finds and the one that it leaves.
-/

namespace TemplateScript.Eval

def Moves {α : Type} (R : Forest → Forest → Prop) (e : Eval α) : Prop :=
  ∀ st : EvalState, R st.forest (e st).2.forest

section
variable {α β : Type} {R : Forest → Forest → Prop}

section
variable (hrefl : ∀ f, R f f)
include hrefl

theorem moves_of_forest_eq {e : Eval α} (h : ∀ st, (e st).2.forest = st.forest) : Moves R e := by
  intro st
  rw [h]
  exact hrefl _

theorem moves_pure (a : α) : Moves R (pure a : Eval α) := moves_of_forest_eq hrefl fun _ => rfl

theorem moves_query (s : Option Span) (q : Forest → Except Fault α) : Moves R (query s q) := by
  refine moves_of_forest_eq hrefl fun st => ?_
  unfold query
  split <;> rfl

theorem moves_change {s : Option Span} {q : Forest → Except Fault Forest}
    (hq : ∀ f g, q f = .ok g → R f g) : Moves R (change s q) := by
  intro st
  unfold change
  split
  · rename_i h
    exact hq _ _ h
  · exact hrefl _

end

theorem moves_bind (htrans : ∀ ⦃f g k⦄, R f g → R g k → R f k) {e : Eval α} {k : α → Eval β}
    (he : Moves R e) (hk : ∀ a, Moves R (k a)) : Moves R (e >>= k) := by
  intro st
  have hst := he st
  cases h : e st with
  | mk r st' =>
    rw [h] at hst
    cases r with
    | ok a =>
      rw [bind_ok h]
      exact htrans hst (hk a st')
    | error x =>
      rw [bind_error h]
      exact hst

theorem moves_attempt (mode : Mode) {e : Eval Value} (he : Moves R e) :
    Moves R (attempt mode e) := by
  intro st
  have hst := he st
  unfold attempt
  split
  · rename_i h
    rw [h] at hst
    exact hst
  · exact hst

/-- A relation goes along with the evaluation of the nodes in `S` if it goes along with their
declarations and assignments. -/
theorem moves_lockstep {S : Node → Prop} {scope : Nat} (mode : Mode) (hrefl : ∀ f, R f f)
    (htrans : ∀ ⦃f g k⦄, R f g → R g k → R f k)
    (hpart : ∀ {n p : Node}, S n → p ∈ n.evaluatedParts → S p)
    (hdeclare : ∀ {s : Option Span} {c : Bool} {x : String} {n : Node},
      S (.declaration s c x n) → ∀ {f g v}, f.declare scope x v c = .ok g → R f g)
    (hassign : ∀ {s s' : Option Span} {x : String} {n : Node},
      S (.assignment s (.identifier s' x) n) → ∀ {f g v}, f.assign scope x v = .ok g → R f g) :
    Lockstep S (fun _ e _ => Moves R e) mode mode scope scope where
  part := hpart
  pure := moves_pure hrefl
  bind := moves_bind htrans
  fail _ _ _ := moves_of_forest_eq hrefl fun _ => rfl
  breakDown _ := moves_of_forest_eq hrefl fun _ => rfl
  unhandled _ _ :=
    moves_bind htrans (moves_of_forest_eq hrefl fun _ => rfl) fun _ => moves_pure hrefl _
  identifier _ := moves_query hrefl _ _
  shorthand _ _ := moves_query hrefl _ _
  declare h v :=
    moves_bind htrans (moves_change hrefl fun _ _ hg => hdeclare h hg) fun _ => moves_pure hrefl v
  assign h v :=
    moves_bind htrans (moves_change hrefl fun _ _ hg => hassign h hg) fun _ => moves_pure hrefl v
  attempt _ := moves_attempt mode

end

end TemplateScript.Eval
