import TemplateScript.Proofs.Conformance
import TemplateScript.Proofs.ModeAgreement
import TemplateScript.Proofs.RunOutcome
import TemplateScript.Proofs.ScannedTokens

/-!
# Trees of sources

What is read from a source is a script with no negative literals. In the tree of a script each node
stands where its kind may stand, and nothing that an operation needs is missing.
-/

namespace TemplateScript

namespace Node

variable {P : Int → Prop} {n m c : Node}

def Proper (P : Int → Prop) : Node → Prop
  | binary _ _ op _ => op ∈ operators
  | literal _ v => ∃ k, v = .int k ∧ P k
  | member _ _ p false => ∃ s x, p = .identifier s x
  | declaration _ true _ v => v.isAbsent = false
  | _ => True

/-- A node may be a child of another: declarations are statements, properties are entries, and only
the value of a variable or of an entry may be left out. -/
def MayHold (n : Node) : Node → Prop
  | program .. | bare .. => False
  | declaration .. => ∃ s body, n = .program s body
  | property .. => ∃ s ps, n = .object s ps
  | filler f => f = .absent ∧
      ((∃ s x v, n = .declaration s false x v) ∨ ∃ s key v, n = .property s key v)
  | _ => True

structure InPlace (P : Int → Prop) (n : Node) : Prop where
  proper : n.Proper P
  children : ∀ c ∈ n.children, n.MayHold c

theorem IsExpression.mayHold (h : IsExpression P c) : n.MayHold c := by
  cases h <;> trivial

theorem identifier_inPlace (s : Option Span) (x : String) :
    ∀ m ∈ (identifier s x).preorder, m.InPlace P :=
  forall_preorder ⟨trivial, by simp [children]⟩ (by simp [children])

mutual

theorem IsExpression.inPlace {n : Node} : IsExpression P n → ∀ m ∈ n.preorder, m.InPlace P
  | .identifier s x => identifier_inPlace s x
  | .literal s h => forall_preorder ⟨⟨_, rfl, h⟩, by simp [children]⟩ (by simp [children])
  | .binary s ha hop hb => by
    refine forall_preorder ⟨hop, ?_⟩ ?_
    · simp [children, ha.mayHold, hb.mayHold]
    · simpa [children] using ⟨ha.inPlace, hb.inPlace⟩
  | .assignment s ht hv => by
    refine forall_preorder ⟨trivial, ?_⟩ ?_
    · simp [children, ht.mayHold, hv.mayHold]
    · simpa [children] using ⟨ht.inPlace, hv.inPlace⟩
  | .field s s' x ho => by
    refine forall_preorder ⟨⟨s', x, rfl⟩, ?_⟩ ?_
    · have hx : IsExpression P (.identifier s' x) := .identifier s' x
      simp [children, ho.mayHold, hx.mayHold]
    · simpa [children] using ⟨ho.inPlace, identifier_inPlace s' x⟩
  | .index s ho hp => by
    refine forall_preorder ⟨trivial, ?_⟩ ?_
    · simp [children, ho.mayHold, hp.mayHold]
    · simpa [children] using ⟨ho.inPlace, hp.inPlace⟩
  | .call s hc has => by
    refine forall_preorder ⟨trivial, ?_⟩ ?_
    · simpa [children, hc.mayHold] using fun a ha => (has a ha).mayHold
    · simpa [children] using ⟨hc.inPlace, fun a ha => (has a ha).inPlace⟩
  | .object s hps => by
    refine forall_preorder ⟨trivial, fun p hp => ?_⟩ fun p hp => (hps p hp).inPlace
    cases hps p hp <;> exact ⟨s, _, rfl⟩

theorem IsEntry.inPlace {n : Node} : IsEntry P n → ∀ m ∈ n.preorder, m.InPlace P
  | .shorthand s key => by
    refine forall_preorder ⟨trivial, ?_⟩ (by simp [children, absent, preorder])
    simp [children, absent, MayHold]
  | .keyed s key hv => by
    refine forall_preorder ⟨trivial, ?_⟩ ?_
    · simp [children, hv.mayHold]
    · simpa [children] using hv.inPlace

end

theorem IsStatement.inPlace (h : IsStatement P n) : ∀ m ∈ n.preorder, m.InPlace P := by
  cases h with
  | expression h => exact h.inPlace
  | declaration s x =>
    refine forall_preorder ⟨trivial, ?_⟩ (by simp [children, absent, preorder])
    simp [children, absent, MayHold]
  | initialised s constant x hv =>
    refine forall_preorder ⟨?_, ?_⟩ ?_
    · cases constant with
      | true => exact hv.isAbsent
      | false => trivial
    · simp [children, hv.mayHold]
    · simpa [children] using hv.inPlace

theorem IsScript.inPlace (h : IsScript P n) : ∀ m ∈ n.preorder, m.InPlace P := by
  obtain ⟨s, body, rfl, hbody⟩ := h
  refine forall_preorder ⟨trivial, fun c hc => ?_⟩ fun c hc => (hbody c hc).inPlace
  cases hbody c hc with
  | expression h => exact h.mayHold
  | declaration | initialised => exact ⟨s, body, rfl⟩

end Node

/-! ## Sources -/

section
variable {source : String} {file : Option String}

theorem scan_literals : Grammar.Literals (0 ≤ ·) (programTokens (scan source file).tokens) := by
  intro t ht hk n hn
  have hmem := programTokens_subset _ ht
  exact Numeral.nonneg_of_isDigit (scan_digits source file t hmem hk) hn

/-- A source that is read at all is read as a script whose literals are not negative. -/
theorem Evaluates.isScript_nonneg {n : Node} (h : Evaluates source file n) :
    n.IsScript (0 ≤ ·) := by
  obtain ⟨s, body, rfl, hbody⟩ := Node.ofTokens_derives h.2
  exact ⟨s, body, rfl, hbody.isStatement scan_literals⟩

end

end TemplateScript
