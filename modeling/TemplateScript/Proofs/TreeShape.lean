import TemplateScript.Node

/-!
# The shape of script trees

Trees of scripts have no fillers where nodes belong, entries only in object literals, and
declarations only as statements. What whole numbers may stand as literals is a parameter.
-/

namespace TemplateScript.Node

variable (P : Int → Prop)

def operators : List String := ["+", "-", "*", "/", "%"]

mutual

inductive IsExpression : Node → Prop
  | identifier (s : Option Span) (x : String) : IsExpression (.identifier s x)
  | literal (s : Option Span) {n : Int} : P n → IsExpression (.literal s (.int n))
  | binary (s : Option Span) {left right : Node} {operator : String} : IsExpression left →
      operator ∈ operators → IsExpression right → IsExpression (.binary s left operator right)
  | assignment (s : Option Span) {target value : Node} : IsExpression target →
      IsExpression value → IsExpression (.assignment s target value)
  | field (s s' : Option Span) {o : Node} (x : String) : IsExpression o →
      IsExpression (.member s o (.identifier s' x) false)
  | index (s : Option Span) {o p : Node} : IsExpression o → IsExpression p →
      IsExpression (.member s o p true)
  | call (s : Option Span) {callee : Node} {args : List Node} : IsExpression callee →
      (∀ a ∈ args, IsExpression a) → IsExpression (.call s callee args)
  | object (s : Option Span) {ps : List Node} : (∀ p ∈ ps, IsEntry p) → IsExpression (.object s ps)

inductive IsEntry : Node → Prop
  | shorthand (s : Option Span) (key : String) : IsEntry (.property s key .absent)
  | keyed (s : Option Span) (key : String) {value : Node} : IsExpression value →
      IsEntry (.property s key value)

end

inductive IsStatement : Node → Prop
  | expression {n : Node} : IsExpression P n → IsStatement n
  | declaration (s : Option Span) (x : String) : IsStatement (.declaration s false x .absent)
  | initialised (s : Option Span) (constant : Bool) (x : String) {value : Node} :
      IsExpression P value → IsStatement (.declaration s constant x value)

def IsScript (n : Node) : Prop := ∃ s body, n = .program s body ∧ ∀ m ∈ body, IsStatement P m

theorem isAbsent_absent : absent.isAbsent = true := rfl

variable {P}

theorem IsExpression.isAbsent {n : Node} (h : IsExpression P n) : n.isAbsent = false := by
  cases h <;> rfl

/-! ## Nodes of a tree -/

theorem preorders_eq (ns : List Node) : preorders ns = ns.flatMap preorder := by
  induction ns with
  | nil => rfl
  | cons n ns ih => simp [preorders, ih]

theorem mem_preorder {n m : Node} (h : m ∈ n.preorder) :
    m = n ∨ ∃ c ∈ n.children, m ∈ c.preorder := by
  cases n <;> simp_all [preorder, preorders_eq, children]

theorem forall_preorder {Q : Node → Prop} {n : Node} (hn : Q n)
    (hc : ∀ c ∈ n.children, ∀ m ∈ c.preorder, Q m) : ∀ m ∈ n.preorder, Q m := by
  intro m hm
  rcases mem_preorder hm with rfl | ⟨c, hmem, hm⟩
  · exact hn
  · exact hc c hmem m hm

theorem preorder_subset {n c : Node} (hc : c ∈ n.children) : c.preorder ⊆ n.preorder := by
  intro m hm
  cases n with
  | program | object =>
    simp only [preorder, preorders_eq, List.mem_cons, List.mem_flatMap]
    exact Or.inr ⟨c, hc, hm⟩
  | call s callee args =>
    simp only [preorder, preorders_eq, List.mem_cons, List.mem_append, List.mem_flatMap]
    rcases List.mem_cons.1 hc with rfl | hc
    · exact Or.inr (Or.inl hm)
    · exact Or.inr (Or.inr ⟨c, hc, hm⟩)
  | declaration | property =>
    obtain rfl := List.mem_singleton.1 hc
    simp [preorder, hm]
  | assignment | binary | member =>
    simp only [children, List.mem_cons, List.not_mem_nil, or_false] at hc
    rcases hc with rfl | rfl <;> simp [preorder, hm]
  | identifier | literal | bare | filler => cases hc

end TemplateScript.Node
