import TemplateScript.Evaluation

/-!
# Evaluations in lockstep

Two evaluations of one node go through the same operations, whatever their modes and scopes are. A
relation between computations that every operation keeps therefore holds between them. `Lockstep` is
the list of these operations, and `Lockstep.eval` the one induction over trees; a law about two
evaluations, or about one, is an instance.
-/

namespace TemplateScript

def Node.evaluatedParts : Node → List Node
  | program _ body => body
  | declaration _ _ _ value | assignment _ _ value | property _ _ value => [value]
  | binary _ left _ right => [left, right]
  | object _ ps => ps
  | member .. | call .. | identifier .. | literal .. | bare .. | filler _ => []

theorem Node.evaluatedParts_subset (n : Node) : n.evaluatedParts ⊆ n.children := by
  cases n <;> simp [evaluatedParts, children]

/-- A relation that is kept by every operation which the evaluations of a node in `S` go through. -/
structure Lockstep (S : Node → Prop) (R : ∀ α : Type, Eval α → Eval α → Prop) (m₁ m₂ : Mode)
    (scope₁ scope₂ : Nat) : Prop where
  part : ∀ {n p : Node}, S n → p ∈ n.evaluatedParts → S p
  pure : ∀ {α : Type} (a : α), R α (Pure.pure a) (Pure.pure a)
  bind : ∀ {α β : Type} {e₁ e₂ : Eval α} {k₁ k₂ : α → Eval β},
    R α e₁ e₂ → (∀ a, R β (k₁ a) (k₂ a)) → R β (e₁ >>= k₁) (e₂ >>= k₂)
  fail : ∀ {α : Type} (f : Fault) (s : Option Span), f.severity = .error →
    R α (Eval.fail f s) (Eval.fail f s)
  breakDown : ∀ {α : Type} (b : Breakdown), R α (Eval.breakDown b) (Eval.breakDown b)
  unhandled : ∀ (kind : String) (s : Option Span),
    R Value (Eval.unhandled kind s) (Eval.unhandled kind s)
  identifier : ∀ {s : Option Span} {x : String}, S (.identifier s x) →
    R Value (Eval.lookup scope₁ x s) (Eval.lookup scope₂ x s)
  shorthand : ∀ {s : Option Span} {x : String} {n : Node}, S (.property s x n) → n.isAbsent = true →
    R Value (Eval.lookup scope₁ x s) (Eval.lookup scope₂ x s)
  declare : ∀ {s : Option Span} {c : Bool} {x : String} {n : Node}, S (.declaration s c x n) →
    ∀ v, R Value (Eval.declare scope₁ x v c s) (Eval.declare scope₂ x v c s)
  assign : ∀ {s s' : Option Span} {x : String} {n : Node}, S (.assignment s (.identifier s' x) n) →
    ∀ v, R Value (Eval.assign scope₁ x v s) (Eval.assign scope₂ x v s)
  attempt : ∀ {s : Option Span} {body : List Node}, S (.program s body) →
    ∀ {e₁ e₂ : Eval Value}, R Value e₁ e₂ → R Value (Eval.attempt m₁ e₁) (Eval.attempt m₂ e₂)

namespace Lockstep

variable {S : Node → Prop} {R : ∀ α : Type, Eval α → Eval α → Prop} {m₁ m₂ : Mode}
variable {scope₁ scope₂ : Nat}

theorem operate (h : Lockstep S R m₁ m₂ scope₁ scope₂) (operator : String) (a b : Value)
    (s : Option Span) : R Value (Eval.operate operator a b s) (Eval.operate operator a b s) := by
  unfold Eval.operate
  split
  · split
    · exact h.pure _
    · exact h.fail _ _ rfl
    · exact h.fail _ _ rfl
    · exact h.fail _ _ rfl
    · exact h.breakDown _
  · exact h.fail _ _ rfl

mutual

theorem eval (h : Lockstep S R m₁ m₂ scope₁ scope₂) :
    ∀ n : Node, S n → R Value (n.eval m₁ scope₁) (n.eval m₂ scope₂)
  | .literal _ n, _ => by
    simp only [Node.eval]
    exact h.pure _
  | .identifier s x, hS => by
    simp only [Node.eval]
    exact h.identifier hS
  | .object _ ps, hS => by
    simp only [Node.eval]
    exact h.bind (h.evalProperties [] ps fun p hp => h.part hS hp) fun table => h.pure _
  | .assignment s target value, hS => by
    cases target
    case identifier s' x =>
      simp only [Node.eval]
      exact h.bind (h.eval value (h.part hS (by simp [Node.evaluatedParts]))) (h.assign hS)
    all_goals
      simp only [Node.eval]
      exact h.fail _ _ rfl
  | .binary s left operator right, hS => by
    simp only [Node.eval]
    have hl := h.eval left (h.part hS (by simp [Node.evaluatedParts]))
    have hr := h.eval right (h.part hS (by simp [Node.evaluatedParts]))
    exact h.bind hl fun a => h.bind hr fun b => h.operate operator a b s
  | .program _ body, hS => by
    simp only [Node.eval]
    exact h.evalBody (h.attempt hS) .null body fun p hp => h.part hS hp
  | .declaration s constant x value, hS => by
    simp only [Node.eval]
    split
    · split
      · exact h.fail _ _ rfl
      · rename_i hc
        rw [Bool.not_eq_true] at hc
        subst hc
        exact h.declare hS .null
    · exact h.bind (h.eval value (h.part hS (by simp [Node.evaluatedParts]))) (h.declare hS)
  | .member s _ _ _, _ | .call s _ _, _ | .property s _ _, _ | .bare s _, _ => by
    simp only [Node.eval]
    exact h.unhandled _ s
  | .filler f, _ => by
    simp only [Node.eval]
    exact h.unhandled _ none

theorem evalBody (h : Lockstep S R m₁ m₂ scope₁ scope₂)
    (ha : ∀ {e₁ e₂ : Eval Value}, R Value e₁ e₂ → R Value (Eval.attempt m₁ e₁) (Eval.attempt m₂ e₂))
    (last : Value) : ∀ ns : List Node, (∀ n ∈ ns, S n) →
      R Value (Node.evalBody m₁ scope₁ last ns) (Node.evalBody m₂ scope₂ last ns)
  | [], _ => by
    simp only [Node.evalBody]
    exact h.pure last
  | n :: ns, hS => by
    simp only [Node.evalBody]
    have hn := ha (h.eval n (hS n (by simp)))
    exact h.bind hn fun v => h.evalBody ha v ns fun m hm => hS m (List.mem_cons_of_mem _ hm)

theorem evalProperties (h : Lockstep S R m₁ m₂ scope₁ scope₂) (table : Table Value) :
    ∀ ns : List Node, (∀ n ∈ ns, S n) →
      R (Table Value) (Node.evalProperties m₁ scope₁ table ns) (Node.evalProperties m₂ scope₂ table ns)
  | [], _ => by
    simp only [Node.evalProperties]
    exact h.pure table
  | .property s key value :: ns, hS => by
    have hp := hS (.property s key value) (by simp)
    have hns := fun t => h.evalProperties t ns fun m hm => hS m (List.mem_cons_of_mem _ hm)
    simp only [Node.evalProperties]
    split
    · rename_i ha
      exact h.bind (h.shorthand hp ha) fun v => hns (table.put key v)
    · have hv := h.eval value (h.part hp (by simp [Node.evaluatedParts]))
      exact h.bind hv fun v => hns (table.put key v)
  | .literal _ n :: _, _ => by
    simp only [Node.evalProperties]
    exact h.bind (h.unhandled _ none) fun _ => h.breakDown _
  | .declaration s c x value :: _, hS => by
    have hp := hS (.declaration s c x value) (by simp)
    simp only [Node.evalProperties]
    split
    · exact h.bind (h.pure _) fun _ => h.breakDown _
    · exact h.bind (h.eval value (h.part hp (by simp [Node.evaluatedParts]))) fun _ => h.breakDown _
  | .assignment s target value :: _, hS => by
    have hp := hS (.assignment s target value) (by simp)
    simp only [Node.evalProperties]
    split
    · exact h.bind (h.pure _) fun _ => h.breakDown _
    · exact h.bind (h.eval value (h.part hp (by simp [Node.evaluatedParts]))) fun _ => h.breakDown _
  | .program .. :: _, _ | .binary .. :: _, _ | .member .. :: _, _ | .call .. :: _, _
  | .identifier .. :: _, _ | .object .. :: _, _ | .bare .. :: _, _ | .filler _ :: _, _ => by
    simp only [Node.evalProperties]
    exact h.breakDown _

end

end Lockstep

end TemplateScript
