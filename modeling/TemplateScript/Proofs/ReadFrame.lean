import TemplateScript.Proofs.TreeShape
import TemplateScript.Proofs.WriteFrame

/-!
# What evaluation may read

All that an evaluation can learn of its scope is what the names in the tree mean there and whether
the scope itself binds them. Two scopes that agree on this, in whatever forests and at whatever
depths, cannot be told apart by the tree, and they agree again behind it.
-/

namespace TemplateScript

/-! ## Names in a tree -/

namespace Node

/-- The name that a node itself reads or declares. A name that is assigned is read as the target. -/
def ownName? : Node → Option String
  | identifier _ x | declaration _ _ x _ => some x
  | property _ key value => if value.isAbsent then some key else none
  | _ => none

def Mentions (n : Node) (x : String) : Prop := ∃ m ∈ n.preorder, m.ownName? = some x

theorem Mentions.of_part {n p : Node} {x : String} (hp : p ∈ n.evaluatedParts)
    (h : p.Mentions x) : n.Mentions x := by
  obtain ⟨m, hm, hx⟩ := h
  exact ⟨m, preorder_subset (n.evaluatedParts_subset hp) hm, hx⟩

end Node

/-! ## The nearest binding -/

namespace Forest

section
variable {f : Forest} {i j : Nat} {x y : String} {b : Binding} {v w : Value}

/-- A name is bound in the scope that owns it. -/
theorem isSome_of_owner? (h : f.owner? i x = some j) : (f.binding? j x).isSome = true := by
  have hfound := List.find?_some h
  exact hfound

theorem nearest?_eq_none : f.nearest? i x = none ↔ f.owner? i x = none := by
  unfold nearest?
  cases h : f.owner? i x with
  | none => simp
  | some j =>
    obtain ⟨b, hb⟩ := Option.isSome_iff_exists.1 (isSome_of_owner? h)
    simp [hb]

theorem assign_of_unbound (h : f.nearest? i x = none) :
    f.assign i x v = .error (.undeclared x) := by
  rw [assign, nearest?_eq_none.1 h]

theorem assign_of_constant (h : f.nearest? i x = some ⟨w, true⟩) :
    f.assign i x v = .error (.constantReassigned x) := by
  obtain ⟨j, hj, hb⟩ := Option.bind_eq_some_iff.1 h
  rw [assign, hj]
  simp only [hb]

theorem assign_of_variable (h : f.nearest? i x = some ⟨w, false⟩) :
    ∃ j, f.owner? i x = some j ∧ f.binding? j x = some ⟨w, false⟩ ∧
      f.assign i x v = .ok (f.put j x ⟨v, false⟩) := by
  obtain ⟨j, hj, hb⟩ := Option.bind_eq_some_iff.1 h
  refine ⟨j, hj, hb, ?_⟩
  rw [assign, hj]
  simp only [hb]

theorem declare_of_bound {c : Bool} (h : f.binding? i x = some b) :
    f.declare i x v c = .error (.alreadyDeclared x) := by
  simp only [declare, h]

theorem declare_of_free {c : Bool} (h : f.binding? i x = none) :
    f.declare i x v c = .ok (f.put i x ⟨v, c⟩) := by
  simp only [declare, h]

theorem nearest?_put_of_ne (hy : y ≠ x) : (f.put j x b).nearest? i y = f.nearest? i y := by
  have hsame : ∀ k, (f.put j x b).binding? k y = f.binding? k y := fun k =>
    binding?_put_of_ne (fun h => hy h.2.symm) b
  simp only [nearest?, owner?, path_put, hsame]

theorem nearest?_declared (hi : i < f.scopes.length) (hx : f.Unmarked i x) :
    (f.put i x b).nearest? i x = some b := by
  have hself : (f.put i x b).binding? i x = some b := by
    rw [binding?_put b hi hx, if_pos ⟨rfl, rfl⟩]
  have howner : (f.put i x b).owner? i x = some i := by
    rw [owner?, path_put, path_of_some (List.getElem?_eq_getElem hi), List.find?_cons_of_pos]
    rw [hself]
    rfl
  rw [nearest?, howner, Option.bind_some, hself]

/-- A variable that gets a new value belongs to the same scopes. -/
theorem isSome_binding?_put (hx : f.binding? j x = some ⟨w, false⟩) (k : Nat) (y : String) :
    ((f.put j x b).binding? k y).isSome = (f.binding? k y).isSome := by
  rw [binding?_put b (lt_of_binding? hx) (unmarked_of_variable hx)]
  split
  · rename_i h
    obtain ⟨rfl, rfl⟩ := h
    rw [hx]
    rfl
  · rfl

theorem nearest?_assigned (hj : f.owner? i x = some j) (hx : f.binding? j x = some ⟨w, false⟩) :
    (f.put j x b).nearest? i x = some b := by
  have howner : (f.put j x b).owner? i x = some j := by
    simp only [owner?, path_put, isSome_binding?_put hx]
    exact hj
  rw [nearest?, howner, Option.bind_some,
    binding?_put b (lt_of_binding? hx) (unmarked_of_variable hx), if_pos ⟨rfl, rfl⟩]

end

/-! ## Scopes that agree -/

/-- Two scopes agree on names: each has the same nearest binding seen from both, or none, and is
bound in both themselves or in neither. -/
structure Agree (names : String → Prop) (i : Nat) (f : Forest) (j : Nat) (g : Forest) : Prop where
  nearest : ∀ x, names x → f.nearest? i x = g.nearest? j x
  own : ∀ x, names x → (f.binding? i x).isSome = (g.binding? j x).isSome

section
variable {names : String → Prop} {i j : Nat} {f g : Forest} {x : String} {v w : Value}

theorem Agree.declare (h : Agree names i f j g) (hi : i < f.scopes.length)
    (hj : j < g.scopes.length) (hf : f.Unmarked i x) (hg : g.Unmarked j x) (b : Binding) :
    Agree names i (f.put i x b) j (g.put j x b) where
  nearest y hy := by
    by_cases hx : y = x
    · subst hx
      rw [nearest?_declared hi hf, nearest?_declared hj hg]
    · rw [nearest?_put_of_ne hx, nearest?_put_of_ne hx, h.nearest y hy]
  own y hy := by
    rw [binding?_put b hi hf, binding?_put b hj hg]
    by_cases hx : x = y
    · rw [if_pos ⟨rfl, hx⟩, if_pos ⟨rfl, hx⟩]
    · rw [if_neg fun hsame => hx hsame.2, if_neg fun hsame => hx hsame.2, h.own y hy]

/-- The owners need not stand at the same depth. -/
theorem Agree.assign (h : Agree names i f j g) {k l : Nat} (hk : f.owner? i x = some k)
    (hf : f.binding? k x = some ⟨v, false⟩) (hl : g.owner? j x = some l)
    (hg : g.binding? l x = some ⟨w, false⟩) (b : Binding) :
    Agree names i (f.put k x b) j (g.put l x b) where
  nearest y hy := by
    by_cases hx : y = x
    · subst hx
      rw [nearest?_assigned hk hf, nearest?_assigned hl hg]
    · rw [nearest?_put_of_ne hx, nearest?_put_of_ne hx, h.nearest y hy]
  own y hy := by rw [isSome_binding?_put hf, isSome_binding?_put hg, h.own y hy]

end

end Forest

/-! ## Evaluations -/

structure EvalState.Matches (names : String → Prop) (i j : Nat) (s t : EvalState) : Prop where
  left : i < s.forest.scopes.length
  right : j < t.forest.scopes.length
  leftBound : s.forest.Bound
  rightBound : t.forest.Bound
  agree : Forest.Agree names i s.forest j t.forest
  journal : s.journal = t.journal

theorem EvalState.Matches.behind {names : String → Prop} {i j : Nat} {s t : EvalState}
    (h : s.Matches names i j t) {k l : Nat} {x : String} {b c : Binding}
    (ha : Forest.Agree names i (s.forest.put k x b) j (t.forest.put l x c)) :
    EvalState.Matches names i j ⟨s.forest.put k x b, s.journal⟩ ⟨t.forest.put l x c, t.journal⟩ where
  left := by simpa [Forest.put] using h.left
  right := by simpa [Forest.put] using h.right
  leftBound := h.leftBound.put k x b
  rightBound := h.rightBound.put l x c
  agree := ha
  journal := h.journal

namespace Eval

section
variable {α β : Type} {names : String → Prop} {i j : Nat}

def Matched (names : String → Prop) (i j : Nat) (e₁ e₂ : Eval α) : Prop :=
  ∀ s t : EvalState, s.Matches names i j t →
    (e₁ s).1 = (e₂ t).1 ∧ (e₁ s).2.Matches names i j (e₂ t).2

theorem matched_pure (a : α) : Matched names i j (pure a : Eval α) (pure a) :=
  fun _ _ h => ⟨rfl, h⟩

theorem Matched.same {e₁ e₂ : Eval α} (he : Matched names i j e₁ e₂) {s t : EvalState}
    (h : s.Matches names i j t) :
    ∃ r s' t', e₁ s = (r, s') ∧ e₂ t = (r, t') ∧ s'.Matches names i j t' := by
  obtain ⟨hresult, hstate⟩ := he s t h
  exact ⟨(e₁ s).1, (e₁ s).2, (e₂ t).2, rfl, by rw [hresult], hstate⟩

theorem matched_bind {e₁ e₂ : Eval α} {k₁ k₂ : α → Eval β} (he : Matched names i j e₁ e₂)
    (hk : ∀ a, Matched names i j (k₁ a) (k₂ a)) : Matched names i j (e₁ >>= k₁) (e₂ >>= k₂) := by
  intro s t h
  obtain ⟨r, s', t', h₁, h₂, hstate⟩ := he.same h
  cases r with
  | ok a =>
    rw [bind_ok h₁, bind_ok h₂]
    exact hk a s' t' hstate
  | error x =>
    rw [bind_error h₁, bind_error h₂]
    exact ⟨rfl, hstate⟩

theorem matched_fail (f : Fault) (s : Option Span) :
    Matched names i j (fail f s : Eval α) (fail f s) := fun _ _ h => ⟨rfl, h⟩

theorem matched_breakDown (b : Breakdown) :
    Matched names i j (breakDown b : Eval α) (breakDown b) := fun _ _ h => ⟨rfl, h⟩

theorem matched_report (d : Diagnostic) : Matched names i j (report d) (report d) :=
  fun _ _ h => ⟨rfl, h.left, h.right, h.leftBound, h.rightBound, h.agree, by simp only [report, h.journal]⟩

theorem matched_unhandled (kind : String) (s : Option Span) :
    Matched names i j (unhandled kind s) (unhandled kind s) :=
  matched_bind (matched_report _) fun _ => matched_pure _

theorem matched_lookup {x : String} (hx : names x) (s : Option Span) :
    Matched names i j (lookup i x s) (lookup j x s) := by
  intro st st' h
  simp only [lookup, query, Forest.lookup, h.agree.nearest x hx]
  split <;> exact ⟨rfl, h⟩

theorem change_of_ok {q : Forest → Except Fault Forest} {st : EvalState} {f : Forest}
    (h : q st.forest = .ok f) (s : Option Span) :
    change s q st = (.ok (), ⟨f, st.journal⟩) := by
  simp only [change, h]

theorem change_of_error {q : Forest → Except Fault Forest} {st : EvalState} {f : Fault}
    (h : q st.forest = .error f) (s : Option Span) :
    change s q st = (.error (.fault (f.diagnoseAt s)), st) := by
  simp only [change, h, fail]

theorem matched_declare {x : String} (hx : names x) (v : Value) (constant : Bool)
    (s : Option Span) :
    Matched names i j (declare i x v constant s) (declare j x v constant s) := by
  refine matched_bind (fun st st' h => ?_) fun _ => matched_pure v
  have hown := h.agree.own x hx
  cases hf : st.forest.binding? i x with
  | some b =>
    obtain ⟨c, hg⟩ : ∃ c, st'.forest.binding? j x = some c := by
      rw [← Option.isSome_iff_exists, ← hown, hf]
      rfl
    rw [change_of_error (Forest.declare_of_bound hf), change_of_error (Forest.declare_of_bound hg)]
    exact ⟨rfl, h⟩
  | none =>
    have hg : st'.forest.binding? j x = none := by
      rw [← Option.not_isSome_iff_eq_none, ← hown, hf]
      simp
    rw [change_of_ok (Forest.declare_of_free hf), change_of_ok (Forest.declare_of_free hg)]
    exact ⟨rfl, h.behind (h.agree.declare h.left h.right (h.leftBound.unmarked hf)
      (h.rightBound.unmarked hg) _)⟩

theorem matched_assign {x : String} (hx : names x) (v : Value) (s : Option Span) :
    Matched names i j (assign i x v s) (assign j x v s) := by
  refine matched_bind (fun st st' h => ?_) fun _ => matched_pure v
  have hnearest := h.agree.nearest x hx
  cases hf : st.forest.nearest? i x with
  | none =>
    rw [hf] at hnearest
    rw [change_of_error (Forest.assign_of_unbound hf),
      change_of_error (Forest.assign_of_unbound hnearest.symm)]
    exact ⟨rfl, h⟩
  | some b =>
    obtain ⟨w, constant⟩ := b
    rw [hf] at hnearest
    cases constant with
    | true =>
      rw [change_of_error (Forest.assign_of_constant hf),
        change_of_error (Forest.assign_of_constant hnearest.symm)]
      exact ⟨rfl, h⟩
    | false =>
      obtain ⟨k, hk, hleft, hput⟩ := Forest.assign_of_variable (v := v) hf
      obtain ⟨l, hl, hright, hput'⟩ := Forest.assign_of_variable (v := v) hnearest.symm
      rw [change_of_ok hput, change_of_ok hput']
      exact ⟨rfl, h.behind (h.agree.assign hk hleft hl hright _)⟩

theorem matched_attempt (mode : Mode) {e₁ e₂ : Eval Value} (he : Matched names i j e₁ e₂) :
    Matched names i j (attempt mode e₁) (attempt mode e₂) := by
  intro s t h
  obtain ⟨r, s', t', h₁, h₂, hstate⟩ := he.same h
  unfold attempt
  rw [h₁, h₂]
  cases mode with
  | strict => exact ⟨rfl, hstate⟩
  | permissive =>
    cases r with
    | ok a => exact ⟨rfl, hstate⟩
    | error x =>
      cases x with
      | breakdown b => exact ⟨rfl, hstate⟩
      | fault d =>
        exact matched_bind (matched_report d) (fun _ => matched_pure Value.null) s' t' hstate

theorem matched_lockstep (mode : Mode) (names : String → Prop) (i j : Nat) :
    Lockstep (fun n => ∀ x, n.Mentions x → names x) (fun _ e₁ e₂ => Matched names i j e₁ e₂)
      mode mode i j where
  part h hp x hx := h x (hx.of_part hp)
  pure := matched_pure
  bind := matched_bind
  fail f s _ := matched_fail f s
  breakDown := matched_breakDown
  unhandled := matched_unhandled
  identifier h := matched_lookup (h _ ⟨_, List.mem_cons_self, rfl⟩) _
  shorthand h ha := matched_lookup (h _ ⟨_, List.mem_cons_self, if_pos ha⟩) _
  declare h v := matched_declare (h _ ⟨_, List.mem_cons_self, rfl⟩) v _ _
  assign {s s' x n} h v := by
    have htarget : Node.identifier s' x ∈ (Node.assignment s (.identifier s' x) n).preorder := by
      simp [Node.preorder]
    exact matched_assign (h x ⟨_, htarget, rfl⟩) v s
  attempt _ := matched_attempt mode

end

end Eval

/-- What an evaluation gives and reports depends on what the names in the tree mean where it runs and
on which of them the scope itself binds, and on nothing else of the scopes: from two scopes that agree
on the names, each wherever it stands, come the same result and the same reports, and the scopes agree
on the names again. The forests are such as sessions make, where no constant is without a value. -/
theorem evaluation_reads (mode : Mode) (n : Node) {i j : Nat} {f g : Forest}
    (hi : i < f.scopes.length) (hj : j < g.scopes.length) (hf : f.Bound) (hg : g.Bound)
    (h : Forest.Agree n.Mentions i f j g) (reported : Journal) :
    let a := n.evaluate mode i ⟨f, reported⟩
    let b := n.evaluate mode j ⟨g, reported⟩
    a.1 = b.1 ∧ a.2.journal = b.2.journal ∧ Forest.Agree n.Mentions i a.2.forest j b.2.forest := by
  intro a b
  have heval : Eval.Matched n.Mentions i j (n.eval mode i) (n.eval mode j) :=
    (Eval.matched_lockstep mode n.Mentions i j).eval n fun _ hx => hx
  have hevaluate : Eval.Matched n.Mentions i j (n.evaluate mode i) (n.evaluate mode j) :=
    Eval.matched_attempt mode heval
  obtain ⟨hresult, hstate⟩ := hevaluate ⟨f, reported⟩ ⟨g, reported⟩ ⟨hi, hj, hf, hg, h, rfl⟩
  exact ⟨hresult, hstate.journal, hstate.agree⟩

/-- The tree of `const step = count = count + 1; {step}`. -/
def countingBody : Node :=
  .program none
    [.declaration none true "step" (.assignment none (.identifier none "count")
      (.binary none (.identifier none "count") "+" (.literal none (.int 1)))),
      .object none [.property none "step" .absent]]

def nearCount : Forest :=
  Operation.performAll .empty [.new "outer", .declare 0 "count" (.int 1) false, .child 0 "inner"]

def farCount : Forest :=
  Operation.performAll .empty
    [.new "outer", .declare 0 "rest" .null false, .declare 0 "count" (.int 7) true,
      .child 0 "middle", .declare 1 "count" (.int 1) false, .child 1 "inner", .child 2 "inmost"]

theorem countingBody_mentions {x : String} (h : countingBody.Mentions x) :
    x = "step" ∨ x = "count" := by
  obtain ⟨m, hm, hx⟩ := h
  simp only [countingBody, Node.preorder, Node.preorders, Node.absent, List.append_nil,
    List.cons_append, List.nil_append, List.mem_cons, List.not_mem_nil, or_false] at hm
  rcases hm with rfl | rfl | rfl | rfl | rfl | rfl | rfl | rfl | rfl <;>
    simp_all [Node.ownName?, Node.isAbsent]

theorem count_reads_far_and_near :
    1 < nearCount.scopes.length ∧ 3 < farCount.scopes.length ∧ nearCount.Bound ∧ farCount.Bound ∧
      Forest.Agree countingBody.Mentions 1 nearCount 3 farCount ∧
      (countingBody.evaluate .strict 1 ⟨nearCount, .empty⟩).1
        = (countingBody.evaluate .strict 3 ⟨farCount, .empty⟩).1 := by
  have hnearPath : nearCount.path 1 = [1, 0] := by decide +kernel
  have hfarPath : farCount.path 3 = [3, 2, 1, 0] := by decide +kernel
  have hagree : Forest.Agree countingBody.Mentions 1 nearCount 3 farCount := by
    refine ⟨fun x hx => ?_, fun x hx => ?_⟩
    · rw [Forest.nearest?, Forest.nearest?, Forest.owner?, Forest.owner?, hnearPath, hfarPath]
      rcases countingBody_mentions hx with rfl | rfl <;> rfl
    · rcases countingBody_mentions hx with rfl | rfl <;> rfl
  have hnear : 1 < nearCount.scopes.length := by decide
  have hfar : 3 < farCount.scopes.length := by decide
  have hnearBound : nearCount.Bound := Operation.performAll_bound _
  have hfarBound : farCount.Bound := Operation.performAll_bound _
  exact ⟨hnear, hfar, hnearBound, hfarBound, hagree,
    (evaluation_reads .strict countingBody hnear hfar hnearBound hfarBound hagree .empty).1⟩

end TemplateScript
