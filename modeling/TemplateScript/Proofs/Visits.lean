import TemplateScript.Proofs.JournalFrame

/-!
# What an evaluation comes to

While a node is evaluated its parts are evaluated in order, each in the state that those before it
left. A breakdown at any of them ends the evaluation of the whole, in either mode, and a fault at any
of them is its result or is reported.
-/

namespace TemplateScript

namespace Eval

variable {α β : Type} {e : Eval α} {k : α → Eval β} {st st' : EvalState}

theorem bind_eq_ok {b : β} (h : (e >>= k) st = (.ok b, st')) :
    ∃ a st₁, e st = (.ok a, st₁) ∧ k a st₁ = (.ok b, st') := by
  cases he : e st with
  | mk r st₁ =>
    cases r with
    | ok a =>
      rw [bind_ok he] at h
      exact ⟨a, st₁, rfl, h⟩
    | error x =>
      rw [bind_error he] at h
      cases h

theorem bind_eq_error {x : EvalFailure} (h : (e >>= k) st = (.error x, st')) :
    e st = (.error x, st') ∨ ∃ a st₁, e st = (.ok a, st₁) ∧ k a st₁ = (.error x, st') := by
  cases he : e st with
  | mk r st₁ =>
    cases r with
    | ok a =>
      rw [bind_ok he] at h
      exact Or.inr ⟨a, st₁, rfl, h⟩
    | error y =>
      rw [bind_error he] at h
      cases h
      exact Or.inl rfl

end Eval

namespace Node

open Eval

inductive Visits (mode : Mode) (scope : Nat) : Node → EvalState → Node → EvalState → Prop
  | refl (n : Node) (st : EvalState) : Visits mode scope n st n st
  | assigned {s s' : Option Span} {x : String} {value m : Node} {st st' : EvalState} :
      Visits mode scope value st m st' →
      Visits mode scope (.assignment s (.identifier s' x) value) st m st'
  | declared {s : Option Span} {c : Bool} {x : String} {value m : Node} {st st' : EvalState} :
      value.isAbsent = false → Visits mode scope value st m st' →
      Visits mode scope (.declaration s c x value) st m st'
  | left {s : Option Span} {a b m : Node} {op : String} {st st' : EvalState} :
      Visits mode scope a st m st' → Visits mode scope (.binary s a op b) st m st'
  | right {s : Option Span} {a b m : Node} {op : String} {v : Value} {st st₁ st' : EvalState} :
      a.eval mode scope st = (.ok v, st₁) → Visits mode scope b st₁ m st' →
      Visits mode scope (.binary s a op b) st m st'
  | entry {s s' : Option Span} {before after : List Node} {key : String} {value m : Node}
      {table : Table Value} {st st₁ st' : EvalState} :
      evalProperties mode scope [] before st = (.ok table, st₁) → value.isAbsent = false →
      Visits mode scope value st₁ m st' →
      Visits mode scope (.object s (before ++ .property s' key value :: after)) st m st'
  | statement {s : Option Span} {before after : List Node} {n m : Node} {v : Value}
      {st st₁ st' : EvalState} : evalBody mode scope .null before st = (.ok v, st₁) →
      Visits mode scope n st₁ m st' →
      Visits mode scope (.program s (before ++ n :: after)) st m st'

section
variable {mode : Mode} {scope : Nat}

theorem evalBody_append : ∀ {before : List Node} (rest : List Node) {last v : Value}
    {st st₁ : EvalState}, evalBody mode scope last before st = (.ok v, st₁) →
    evalBody mode scope last (before ++ rest) st = evalBody mode scope v rest st₁
  | [], rest, last, v, st, st₁, h => by
    rw [evalBody, pure_apply] at h
    cases h
    rfl
  | n :: before, rest, last, v, st, st₁, h => by
    rw [evalBody] at h
    obtain ⟨w, st₂, hn, hr⟩ := bind_eq_ok h
    rw [List.cons_append, evalBody, bind_ok hn]
    exact evalBody_append rest hr

def entryValue (mode : Mode) (scope : Nat) (s : Option Span) (key : String) (value : Node) :
    Eval Value :=
  if value.isAbsent then lookup scope key s else eval mode scope value

theorem evalProperties_property (table : Table Value) (s : Option Span) (key : String)
    (value : Node) (ns : List Node) :
    evalProperties mode scope table (.property s key value :: ns) =
      entryValue mode scope s key value >>= fun v =>
        evalProperties mode scope (table.put key v) ns := by
  rw [evalProperties]
  unfold entryValue
  split <;> rfl

theorem exists_property_of_ok {table table' : Table Value} {n : Node} {ns : List Node}
    {st st' : EvalState} (h : evalProperties mode scope table (n :: ns) st = (.ok table', st')) :
    ∃ s key value, n = .property s key value := by
  cases n
  case property s key value => exact ⟨s, key, value, rfl⟩
  case literal =>
    simp only [evalProperties] at h
    obtain ⟨v, st₁, -, hk⟩ := bind_eq_ok h
    cases hk
  case declaration | assignment =>
    simp only [evalProperties] at h
    split at h
    · cases h
    · obtain ⟨v, st₁, -, hk⟩ := bind_eq_ok h
      cases hk
  all_goals
    simp only [evalProperties] at h
    cases h

theorem evalProperties_append : ∀ {before : List Node} (rest : List Node)
    {table table' : Table Value} {st st₁ : EvalState},
    evalProperties mode scope table before st = (.ok table', st₁) →
    evalProperties mode scope table (before ++ rest) st = evalProperties mode scope table' rest st₁
  | [], rest, table, table', st, st₁, h => by
    rw [evalProperties, pure_apply] at h
    cases h
    rfl
  | n :: before, rest, table, table', st, st₁, h => by
    obtain ⟨s, key, value, rfl⟩ := exists_property_of_ok h
    rw [evalProperties_property] at h
    obtain ⟨v, st₂, hv, hr⟩ := bind_eq_ok h
    rw [List.cons_append, evalProperties_property, bind_ok hv]
    exact evalProperties_append rest hr

/-! ## What the whole sees of its parts -/

/-- A result of a part that the results of all that goes on from it keep. -/
structure Carried (mode : Mode)
    (P : ∀ α : Type, Except EvalFailure α × EvalState → Prop) : Prop where
  bind : ∀ {α β : Type} {e : Eval α} {k : α → Eval β} {st : EvalState}, P α (e st) →
    (∀ a, Framed (k a)) → P β ((e >>= k) st)
  attempt : ∀ {e : Eval Value} {st : EvalState}, P Value (e st) → P Value (Eval.attempt mode e st)

theorem framed_evalBody (last : Value) (ns : List Node) :
    Framed (evalBody mode scope last ns) :=
  (framed_lockstep mode scope).evalBody (framed_attempt mode) last ns fun _ _ => trivial

theorem framed_evalProperties (table : Table Value) (ns : List Node) :
    Framed (evalProperties mode scope table ns) :=
  (framed_lockstep mode scope).evalProperties table ns fun _ _ => trivial

theorem framed_operate (op : String) (a b : Value) (s : Option Span) :
    Framed (operate op a b s) :=
  (framed_lockstep .strict 0).operate op a b s

theorem Visits.carries {P : ∀ α : Type, Except EvalFailure α × EvalState → Prop}
    (hP : Carried mode P) {n m : Node} {st st' : EvalState} (h : Visits mode scope n st m st')
    (hm : P Value (m.eval mode scope st')) : P Value (n.eval mode scope st) := by
  induction h with
  | refl n st => exact hm
  | assigned _ ih =>
    rw [eval]
    exact hP.bind (ih hm) fun v => framed_assign scope _ v _
  | declared ha _ ih =>
    rw [eval, ha]
    exact hP.bind (ih hm) fun v => framed_declare scope _ v _ _
  | @left s a b m op _ _ _ ih =>
    rw [eval]
    exact hP.bind (ih hm) fun v => framed_bind (b.framed_eval mode scope) fun w =>
      framed_operate op v w s
  | @right s a b m op v st st₁ _ ha _ ih =>
    rw [eval, bind_ok ha]
    exact hP.bind (ih hm) fun w => framed_operate op v w s
  | @entry s s' before after key value m table st st₁ _ hb ha _ ih =>
    have hentry : P Value (entryValue mode scope s' key value st₁) := by
      rw [entryValue, ha]
      exact ih hm
    have htable : P (Table Value) (evalProperties mode scope []
        (before ++ .property s' key value :: after) st) := by
      rw [evalProperties_append _ hb, evalProperties_property]
      exact hP.bind hentry fun v => framed_evalProperties _ after
    rw [eval]
    exact hP.bind htable fun table => framed_pure _
  | @statement s before after n m v st st₁ _ hb _ ih =>
    rw [eval, evalBody_append _ hb, evalBody]
    exact hP.bind (hP.attempt (ih hm)) fun w => framed_evalBody w after

theorem carried_breakdown (mode : Mode) (b : Breakdown) :
    Carried mode fun _ r => r.1 = .error (.breakdown b) where
  bind {α β e k st} he hk := by
    cases h : e st with
    | mk r st₁ =>
      rw [h] at he
      dsimp only at he
      subst he
      rw [bind_error h]
  attempt {e st} he := by
    cases h : e st with
    | mk r st₁ =>
      rw [h] at he
      dsimp only at he
      subst he
      cases mode <;> simp only [Eval.attempt, h]

theorem carried_fault (mode : Mode) (d : Diagnostic) :
    Carried mode fun _ r => r.1 = .error (.fault d) ∨ d ∈ r.2.journal.diagnostics where
  bind {α β e k st} he hk := by
    cases h : e st with
    | mk r st₁ =>
      rw [h] at he
      cases r with
      | error x =>
        rw [bind_error h]
        rcases he with hr | hd
        · cases hr
          exact Or.inl rfl
        · exact Or.inr hd
      | ok a =>
        rw [bind_ok h]
        rcases he with hr | hd
        · cases hr
        · exact Or.inr (((hk a).journal_extends st₁).subset hd)
  attempt {e st} he := by
    cases mode with
    | strict => exact he
    | permissive =>
      cases h : e st with
      | mk r st₁ =>
        rw [h] at he
        cases r with
        | ok v => simpa only [Eval.attempt, h] using he
        | error x =>
          cases x with
          | breakdown b => simpa only [Eval.attempt, h] using he
          | fault d' =>
            simp only [Eval.attempt, h]
            refine Or.inr (List.mem_append.2 ?_)
            rcases he with hr | hd
            · cases hr
              exact Or.inr (List.mem_singleton.2 rfl)
            · exact Or.inl hd

theorem Visits.breakdown {n m : Node} {st st' : EvalState} {b : Breakdown}
    (h : Visits mode scope n st m st')
    (hm : (m.eval mode scope st').1 = .error (.breakdown b)) :
    (n.eval mode scope st).1 = .error (.breakdown b) :=
  h.carries (carried_breakdown mode b) hm

/-- A fault of a part is one of the whole, or the whole reports it. -/
theorem Visits.fault {n m : Node} {st st' : EvalState} {d : Diagnostic}
    (h : Visits mode scope n st m st') (hm : (m.eval mode scope st').1 = .error (.fault d)) :
    (n.eval mode scope st).1 = .error (.fault d) ∨
      d ∈ (n.eval mode scope st).2.journal.diagnostics :=
  h.carries (carried_fault mode d) (Or.inl hm)

end

end Node

end TemplateScript
