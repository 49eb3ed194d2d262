import TemplateScript.Proofs.OutcomeReports
import TemplateScript.Proofs.Permanence
import TemplateScript.Proofs.ScopeHistory

/-!
# Objects name each property once

An object literal puts its entries into a table one by one, so the object that a script makes of them
has no name twice. Every value that is bound or given by an evaluation is made of such objects.
-/

namespace TemplateScript

inductive Value.Distinct : Value → Prop
  | null : Distinct null
  | bool (b : Bool) : Distinct (bool b)
  | number (n : Number) : Distinct (number n)
  | object {ps : List (String × Value)} : (ps.map Prod.fst).Nodup → (∀ p ∈ ps, Distinct p.2) →
      Distinct (object ps)

theorem Table.mem_put {α : Type} {t : Table α} {x : String} {a : α} {p : String × α}
    (h : p ∈ t.put x a) : p = (x, a) ∨ p ∈ t := by
  induction t with
  | nil => exact Or.inl (List.mem_singleton.1 h)
  | cons q t ih =>
    obtain ⟨k, b⟩ := q
    by_cases hk : k = x
    · rw [put, if_pos hk, hk] at h
      rcases List.mem_cons.1 h with h | h
      · exact Or.inl h
      · exact Or.inr (List.mem_cons_of_mem _ h)
    · rw [put, if_neg hk] at h
      rcases List.mem_cons.1 h with h | h
      · exact Or.inr (List.mem_cons.2 (Or.inl h))
      · exact (ih h).imp_right (List.mem_cons_of_mem _)

theorem Value.Distinct.put {t : Table Value} (ht : (Value.object t).Distinct) {v : Value}
    (hv : v.Distinct) (x : String) : (Value.object (t.put x v)).Distinct := by
  cases ht with
  | object hkeys hvalues =>
    refine .object (Table.nodup_keys_put hkeys x v) fun p hp => ?_
    rcases Table.mem_put hp with rfl | hp
    · exact hv
    · exact hvalues p hp

namespace Forest

def Distinct (f : Forest) : Prop := ∀ i x b, f.binding? i x = some b → b.value.Distinct

variable {f g : Forest} {i : Nat} {x : String} {v : Value} {c : Bool}

theorem value_of_binding?_put {b d : Binding} (h : (f.put i x b).binding? i x = some d) :
    d.value = b.value := by
  obtain ⟨t, ht, hd⟩ := Option.bind_eq_some_iff.1 h
  rw [put, List.getElem?_modify] at ht
  obtain ⟨s, -, rfl⟩ := Option.map_eq_some_iff.1 ht
  have hvalue := (Scope.binding?_eq_some.1 hd).1
  simp only [if_true, Scope.put, Table.get?_put] at hvalue
  exact (Option.some.inj hvalue).symm

theorem Distinct.put (hf : f.Distinct) (hv : v.Distinct) : (f.put i x ⟨v, c⟩).Distinct := by
  intro j y d hd
  by_cases h : i = j ∧ x = y
  · obtain ⟨rfl, rfl⟩ := h
    rw [value_of_binding?_put hd]
    exact hv
  · rw [binding?_put_of_ne h] at hd
    exact hf _ _ _ hd

theorem Distinct.declare (hf : f.Distinct) (hv : v.Distinct) (h : f.declare i x v c = .ok g) :
    g.Distinct := by
  unfold Forest.declare at h
  split at h
  · cases h
  · cases h
    exact hf.put hv

theorem Distinct.assign (hf : f.Distinct) (hv : v.Distinct) (h : f.assign i x v = .ok g) :
    g.Distinct := by
  unfold Forest.assign at h
  split at h
  · cases h
  · split at h
    · cases h
    · cases h
      exact hf.put hv

theorem Distinct.lookup (hf : f.Distinct) (h : f.lookup i x = .ok v) : v.Distinct := by
  unfold Forest.lookup nearest? at h
  split at h
  · rename_i hb
    cases h
    obtain ⟨j, -, hb⟩ := Option.bind_eq_some_iff.1 hb
    exact hf _ _ _ hb
  · cases h

theorem distinct_start : start.Distinct := by
  intro i x b hb
  obtain ⟨s, hs, hb⟩ := Option.bind_eq_some_iff.1 hb
  obtain rfl : s = Scope.global := List.mem_singleton.1 (List.mem_of_getElem? hs)
  have hvalue := (Scope.binding?_eq_some.1 hb).1
  rw [Table.get?_eq_some (by decide)] at hvalue
  have hmem : (x, b.value) ∈
      [("null", Value.null), ("true", .bool true), ("false", .bool false)] := hvalue
  simp only [List.mem_cons, Prod.mk.injEq, List.not_mem_nil, or_false] at hmem
  rcases hmem with ⟨-, hv⟩ | ⟨-, hv⟩ | ⟨-, hv⟩ <;> rw [hv]
  · exact .null
  · exact .bool true
  · exact .bool false

end Forest

/-! ## Evaluation -/

namespace Eval

variable {α β : Type} {P : α → Prop} {Q : β → Prop}

/-- Where all values that are bound name each property once the computation leaves such values, and
what it gives has the property `P`. -/
def Gives (P : α → Prop) (e : Eval α) : Prop :=
  ∀ st : EvalState, st.forest.Distinct →
    (e st).2.forest.Distinct ∧ ∀ a, (e st).1 = .ok a → P a

theorem gives_pure {a : α} (ha : P a) : Gives P (pure a : Eval α) := by
  intro st hst
  refine ⟨hst, fun b hb => ?_⟩
  cases hb
  exact ha

theorem gives_bind {e : Eval α} {k : α → Eval β} (he : Gives P e) (hk : ∀ a, P a → Gives Q (k a)) :
    Gives Q (e >>= k) := by
  intro st hst
  obtain ⟨hforest, hvalue⟩ := he st hst
  cases h : e st with
  | mk r st' =>
    rw [h] at hforest hvalue
    cases r with
    | ok a =>
      rw [bind_ok h]
      exact hk a (hvalue a rfl) st' hforest
    | error x =>
      rw [bind_error h]
      exact ⟨hforest, fun _ hb => by cases hb⟩

theorem gives_fail (f : Fault) (s : Option Span) : Gives P (fail f s : Eval α) :=
  fun _ hst => ⟨hst, fun _ h => by cases h⟩

theorem gives_breakDown (b : Breakdown) : Gives P (breakDown b : Eval α) :=
  fun _ hst => ⟨hst, fun _ h => by cases h⟩

theorem gives_unhandled (kind : String) (s : Option Span) : Gives Value.Distinct (unhandled kind s) := by
  refine gives_bind (P := fun _ => True) (fun st hst => ⟨hst, fun _ _ => trivial⟩) ?_
  exact fun _ _ => gives_pure .null

theorem gives_lookup (scope : Nat) (x : String) (s : Option Span) :
    Gives Value.Distinct (lookup scope x s) := by
  intro st hst
  unfold lookup query
  split
  · rename_i h
    refine ⟨hst, fun b hb => ?_⟩
    cases hb
    exact hst.lookup h
  · exact gives_fail _ _ st hst

theorem gives_change {s : Option Span} {q : Forest → Except Fault Forest} {v : Value}
    (hv : v.Distinct) (hq : ∀ f g, f.Distinct → q f = .ok g → g.Distinct) :
    Gives Value.Distinct (do change s q; return v) := by
  refine gives_bind (P := fun _ => True) (fun st hst => ?_) fun _ _ => gives_pure hv
  unfold change
  split
  · rename_i h
    exact ⟨hq _ _ hst h, fun _ _ => trivial⟩
  · exact gives_fail _ _ st hst

theorem gives_declare {v : Value} (hv : v.Distinct) (scope : Nat) (x : String) (c : Bool)
    (s : Option Span) : Gives Value.Distinct (declare scope x v c s) :=
  gives_change hv fun _ _ hf h => hf.declare hv h

theorem gives_assign {v : Value} (hv : v.Distinct) (scope : Nat) (x : String) (s : Option Span) :
    Gives Value.Distinct (assign scope x v s) :=
  gives_change hv fun _ _ hf h => hf.assign hv h

theorem gives_operate (operator : String) (a b : Value) (s : Option Span) :
    Gives Value.Distinct (operate operator a b s) := by
  unfold operate
  split
  · split
    · exact gives_pure (.number _)
    · exact gives_fail _ _
    · exact gives_fail _ _
    · exact gives_fail _ _
    · exact gives_breakDown _
  · exact gives_fail _ _

theorem gives_attempt (mode : Mode) {e : Eval Value} (he : Gives Value.Distinct e) :
    Gives Value.Distinct (attempt mode e) := by
  intro st hst
  have hgives := he st hst
  unfold attempt
  split
  · rename_i h
    rw [h] at hgives
    exact ⟨hgives.1, fun _ hv => by cases hv; exact .null⟩
  · exact hgives

end Eval

namespace Node

open Eval

variable (mode : Mode) (scope : Nat)

mutual

theorem gives_eval : ∀ n : Node, Gives Value.Distinct (n.eval mode scope)
  | literal _ n => by
    simp only [eval]
    exact gives_pure (.number n)
  | identifier s x => by
    simp only [eval]
    exact gives_lookup scope x s
  | object _ ps => by
    simp only [eval]
    exact gives_bind (gives_evalProperties [] (.object (by simp) (by simp)) ps) fun _ ht =>
      gives_pure ht
  | assignment s target value => by
    cases target
    case identifier s' x =>
      simp only [eval]
      exact gives_bind (gives_eval value) fun _ hv => gives_assign hv scope x s
    all_goals
      simp only [eval]
      exact gives_fail _ _
  | binary s left operator right => by
    simp only [eval]
    exact gives_bind (gives_eval left) fun a _ => gives_bind (gives_eval right) fun b _ =>
      gives_operate operator a b s
  | program _ body => by
    simp only [eval]
    exact gives_evalBody .null body
  | declaration s constant x value => by
    simp only [eval]
    split
    · split
      · exact gives_fail _ _
      · exact gives_declare .null scope x false s
    · exact gives_bind (gives_eval value) fun _ hv => gives_declare hv scope x constant s
  | member s _ _ _ | call s _ _ | property s _ _ | bare s _ => by
    simp only [eval]
    exact gives_unhandled _ s
  | filler f => by
    simp only [eval]
    exact gives_unhandled _ none

theorem gives_evalBody {last : Value} (hlast : last.Distinct) :
    ∀ ns : List Node, Gives Value.Distinct (evalBody mode scope last ns)
  | [] => by
    simp only [evalBody]
    exact gives_pure hlast
  | n :: ns => by
    simp only [evalBody]
    exact gives_bind (gives_attempt mode (gives_eval n)) fun _ hv => gives_evalBody hv ns

theorem gives_evalProperties (table : Table Value) (ht : (Value.object table).Distinct) :
    ∀ ns : List Node, Gives (fun t => (Value.object t).Distinct) (evalProperties mode scope table ns)
  | [] => by
    simp only [evalProperties]
    exact gives_pure ht
  | property s key value :: ns => by
    have hrest := fun v (hv : v.Distinct) => gives_evalProperties (table.put key v) (ht.put hv key) ns
    simp only [evalProperties]
    split
    · exact gives_bind (gives_lookup scope key s) hrest
    · exact gives_bind (gives_eval value) hrest
  | literal _ n :: _ => by
    simp only [evalProperties]
    exact gives_bind (gives_unhandled _ none) fun _ _ => gives_breakDown _
  | declaration _ _ _ value :: _ | assignment _ _ value :: _ => by
    simp only [evalProperties]
    split
    · exact gives_bind (gives_pure Value.Distinct.null) fun _ _ => gives_breakDown _
    · exact gives_bind (gives_eval value) fun _ _ => gives_breakDown _
  | program .. :: _ | binary .. :: _ | member .. :: _ | call .. :: _ | identifier .. :: _
  | object .. :: _ | bare .. :: _ | filler _ :: _ => by
    simp only [evalProperties]
    exact gives_breakDown _

end

end Node

/-! ## Runs -/

variable {mode : Mode} {scope : Nat} {f : Forest} {o : Outcome}

theorem execute_distinct {n : Node} (hf : f.Distinct)
    (h : (execute mode scope n f).outcome = .ok o) : o.value.Distinct := by
  have hgives := Eval.gives_attempt mode (n.gives_eval mode scope) ⟨f, .empty⟩ hf
  rcases Eval.result_cases (n.evaluate mode scope) ⟨f, .empty⟩ with
    ⟨v, st, he⟩ | ⟨d, st, he⟩ | ⟨b, st, he⟩
  · rw [execute_ok he] at h
    cases h
    exact hgives.2 v (congrArg Prod.fst he)
  · rw [execute_fault he] at h
    cases h
    exact .null
  · rw [execute_breakdown he] at h
    cases h

/-- The value of a run is made of objects that name each property once. -/
theorem run_distinct {file : Option String} {source : String} (hf : f.Distinct)
    (h : (run mode file source scope f).outcome = .ok o) : o.value.Distinct := by
  cases run_runsTo h with
  | aborted => exact .null
  | unread => exact .null
  | @evaluated n o' hn ho =>
    have hdistinct : o'.value.Distinct := execute_distinct hf ho
    exact hdistinct

end TemplateScript
