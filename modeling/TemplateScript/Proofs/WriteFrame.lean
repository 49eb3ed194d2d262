import TemplateScript.Proofs.Permanence
import TemplateScript.Proofs.ScopeHistory

/-!
# What evaluation may write

An evaluation writes to the scope it runs in and to those above it, and only to names that the tree
assigns or declares. The forest it leaves comes from the one it finds by writes of these two kinds,
and each kind keeps everything else as it is.
-/

namespace TemplateScript

/-! ## What stands in a tree -/

namespace Node

/-- A member access or a call is not looked into. -/
def isClosed : Node → Bool
  | member .. | call .. => true
  | _ => false

inductive Exposes : Node → Node → Prop
  | self (n : Node) : Exposes n n
  | within {n c m : Node} : n.isClosed = false → c ∈ n.children → Exposes c m → Exposes n m

def Assigns (n : Node) (x : String) : Prop :=
  ∃ s s' v, n.Exposes (.assignment s (.identifier s' x) v)

def Declares (n : Node) (x : String) : Prop := ∃ s constant v, n.Exposes (.declaration s constant x v)

theorem Exposes.part {n m p : Node} (h : n.Exposes m) (hp : p ∈ m.evaluatedParts) :
    n.Exposes p := by
  induction h with
  | within hc hmem _ ih => exact .within hc hmem (ih hp)
  | self m =>
    have hself := Exposes.self p
    cases m with
    | program | declaration | binary | object | property => exact .within rfl hp hself
    | assignment s target v =>
      obtain rfl := List.mem_singleton.1 hp
      exact .within rfl (List.mem_cons_of_mem _ List.mem_cons_self) hself
    | member | call | identifier | literal | bare | filler => cases hp

end Node

/-! ## Writes -/

namespace Forest

section
variable {i : Nat} {assigned declared : String → Prop} {f g k : Forest}

/-- A forest that comes from another by writes seen from a scope: names that may be declared are
bound in the scope itself, values that may be assigned get new values in it or above it. -/
inductive Written (i : Nat) (assigned declared : String → Prop) (f : Forest) : Forest → Prop
  | refl : Written i assigned declared f f
  | declare {g : Forest} {x : String} {b : Binding} : Written i assigned declared f g →
      declared x → g.binding? i x = none → Written i assigned declared f (g.put i x b)
  | assign {g : Forest} {j : Nat} {x : String} {v w : Value} : Written i assigned declared f g →
      assigned x → j ∈ g.path i → g.binding? j x = some ⟨w, false⟩ →
      Written i assigned declared f (g.put j x ⟨v, false⟩)

theorem Written.trans (h : Written i assigned declared f g) (h' : Written i assigned declared g k) :
    Written i assigned declared f k := by
  induction h' with
  | refl => exact h
  | declare _ hx hnone ih => exact .declare ih hx hnone
  | assign _ hx hj hb ih => exact .assign ih hx hj hb

theorem written_declare {x : String} {v : Value} {constant : Bool} (hx : declared x)
    (h : f.declare i x v constant = .ok g) : Written i assigned declared f g := by
  unfold Forest.declare at h
  split at h
  · cases h
  · rename_i hnone
    cases h
    exact .declare .refl hx hnone

theorem written_assign {x : String} {v : Value} (hx : assigned x)
    (h : f.assign i x v = .ok g) : Written i assigned declared f g := by
  unfold Forest.assign at h
  split at h
  · cases h
  · rename_i j howner
    have hj : j ∈ f.path i := List.mem_of_find?_eq_some howner
    have hsome := List.find?_some howner
    obtain ⟨⟨w, constant⟩, hb⟩ := Option.isSome_iff_exists.1 hsome
    cases constant with
    | true =>
      rw [hb] at h
      cases h
    | false =>
      rw [hb] at h
      cases h
      exact .assign .refl hx hj hb

/-! ## What stays as it is -/

theorem scopes_put_of_ne {j l : Nat} (hl : l ≠ j) (x : String) (b : Binding) :
    (f.put j x b).scopes[l]? = f.scopes[l]? := by
  rw [put, List.getElem?_modify]
  simp only [Ne.symm hl, if_false]
  exact Option.map_id' ..

def frames (f : Forest) : List (String × Option Nat) := f.scopes.map fun s => (s.name, s.parent)

def names? (f : Forest) (j : Nat) : Option (List String × List String) :=
  f.scopes[j]?.map fun s => (s.values.keys, s.constants)

theorem self_mem_path {j : Nat} (hj : j < f.scopes.length) : j ∈ f.path j := by
  rw [path_of_some (List.getElem?_eq_getElem hj)]
  exact List.mem_cons_self

theorem frames_put (j : Nat) (x : String) (b : Binding) : (f.put j x b).frames = f.frames := by
  apply List.ext_getElem?
  intro l
  simp only [frames, put, List.getElem?_map, List.getElem?_modify]
  cases f.scopes[l]? with
  | none => rfl
  | some s => by_cases hl : j = l <;> simp [hl, Scope.put]

theorem names?_put {j : Nat} {x : String} {v w : Value} (h : f.binding? j x = some ⟨w, false⟩)
    (l : Nat) : (f.put j x ⟨v, false⟩).names? l = f.names? l := by
  by_cases hl : l = j
  · subst hl
    obtain ⟨s, hs, hb⟩ := Option.bind_eq_some_iff.1 h
    have hx : x ∈ s.values.keys := Table.mem_keys.2 ⟨w, (Scope.binding?_eq_some.1 hb).1⟩
    have hkeys : (s.put x ⟨v, false⟩).values.keys = s.values.keys := by
      rw [Scope.put, Table.keys_put, if_pos hx]
    have hconstants : (s.put x ⟨v, false⟩).constants = s.constants := rfl
    simp [names?, put, hs, hkeys, hconstants]
  · rw [names?, scopes_put_of_ne hl, names?]

variable (h : Written i assigned declared f g)
include h

theorem Written.path (j : Nat) : g.path j = f.path j := by
  induction h with
  | refl => rfl
  | declare _ _ _ ih | assign _ _ _ _ ih => exact (path_put _).trans ih

theorem Written.frames : g.frames = f.frames := by
  induction h with
  | refl => rfl
  | declare _ _ _ ih | assign _ _ _ _ ih => exact (frames_put _ _ _).trans ih

theorem Written.outside {j : Nat} (hj : j ∉ f.path i) : g.scopes[j]? = f.scopes[j]? := by
  induction h with
  | refl => rfl
  | @declare g x b hw hx hnone ih =>
    by_cases hi : j = i
    · -- A scope that is not on its own path is not there, and nothing is written to it.
      subst hi
      rw [← hw.path] at hj
      rw [put_of_le b (Nat.not_lt.1 fun hlt => hj (self_mem_path hlt)), ih]
    · exact (scopes_put_of_ne hi x b).trans ih
  | @assign g l x v w hw hx hl hb ih =>
    have hne : j ≠ l := by
      rintro rfl
      rw [hw.path] at hl
      exact hj hl
    exact (scopes_put_of_ne hne x _).trans ih

theorem Written.names {j : Nat} (hj : j ≠ i) : g.names? j = f.names? j := by
  induction h with
  | refl => rfl
  | @declare g x b _ _ _ ih =>
    rw [names?, scopes_put_of_ne hj]
    exact ih
  | assign _ _ _ hb ih => exact (names?_put hb j).trans ih

theorem Written.kept {j : Nat} {x : String} {b : Binding} (hb : f.binding? j x = some b) :
    ∃ c, g.binding? j x = some c ∧
      (c = b ∨ assigned x ∧ b.constant = false ∧ c.constant = false) := by
  induction h with
  | refl => exact ⟨b, hb, Or.inl rfl⟩
  | @declare g y d _ _ hnone ih =>
    obtain ⟨c, hc, hcb⟩ := ih
    refine ⟨c, ?_, hcb⟩
    rw [binding?_put_of_ne, hc]
    rintro ⟨rfl, rfl⟩
    rw [hnone] at hc
    cases hc
  | @assign g l y v w _ hy _ hw ih =>
    obtain ⟨c, hc, hcb⟩ := ih
    by_cases hsame : l = j ∧ y = x
    · obtain ⟨rfl, rfl⟩ := hsame
      obtain rfl : c = ⟨w, false⟩ := Option.some.inj (hc.symm.trans hw)
      have hvar : b.constant = false := by
        rcases hcb with rfl | ⟨-, hvar, -⟩
        · rfl
        · exact hvar
      refine ⟨⟨v, false⟩, ?_, Or.inr ⟨hy, hvar, rfl⟩⟩
      rw [binding?_put _ (lt_of_binding? hw) (unmarked_of_variable hw), if_pos ⟨rfl, rfl⟩]
    · exact ⟨c, by rw [binding?_put_of_ne hsame, hc], hcb⟩

theorem Written.gained {x : String} {c : Binding} (hf : f.binding? i x = none)
    (hg : g.binding? i x = some c) : declared x := by
  induction h generalizing c with
  | refl =>
    rw [hf] at hg
    cases hg
  | @declare g y d _ hy _ ih =>
    by_cases hx : y = x
    · exact hx ▸ hy
    · rw [binding?_put_of_ne fun hsame => hx hsame.2] at hg
      exact ih hg
  | @assign g l y v w _ _ _ hw ih =>
    by_cases hsame : l = i ∧ y = x
    · obtain ⟨rfl, rfl⟩ := hsame
      exact ih hw
    · rw [binding?_put_of_ne hsame] at hg
      exact ih hg

theorem Written.eq_of_none (hnone : ∀ x, ¬ assigned x ∧ ¬ declared x) : g = f := by
  induction h with
  | refl => rfl
  | declare _ hx _ _ => exact absurd hx (hnone _).2
  | assign _ hx _ _ _ => exact absurd hx (hnone _).1

end

end Forest

/-! ## Evaluations -/

section
variable (mode : Mode) (i : Nat)

theorem Node.written_eval (n m : Node) (h : n.Exposes m) :
    Eval.Moves (Forest.Written i n.Assigns n.Declares) (m.eval mode i) := by
  have hlockstep : Lockstep n.Exposes
      (fun _ e _ => Eval.Moves (Forest.Written i n.Assigns n.Declares) e) mode mode i i :=
    Eval.moves_lockstep mode (fun _ => .refl) (fun _ _ _ => Forest.Written.trans)
      Node.Exposes.part (fun hd => Forest.written_declare ⟨_, _, _, hd⟩)
      (fun ha => Forest.written_assign ⟨_, _, _, ha⟩)
  exact hlockstep.eval m h

theorem Node.written_evaluate (n : Node) :
    Eval.Moves (Forest.Written i n.Assigns n.Declares) (n.evaluate mode i) :=
  Eval.moves_attempt mode (n.written_eval mode i n (.self n))

end

/-- Whether it succeeds or fails, an evaluation in a scope makes no scope and changes none but that
scope and those above it. Scopes above it keep their names and their constants; a binding changes
only if it is a variable that the tree assigns, and a name is bound only in the scope itself and only
if the tree declares it. A tree that assigns and declares nothing leaves everything as it is. -/
theorem evaluation_writes (mode : Mode) (i : Nat) (n : Node) (st : EvalState) :
    let f := st.forest
    let g := (n.evaluate mode i st).2.forest
    g.frames = f.frames ∧
    (∀ j, j ∉ f.path i → g.scopes[j]? = f.scopes[j]?) ∧
    (∀ j, j ≠ i → g.names? j = f.names? j) ∧
    (∀ j x b, f.binding? j x = some b → ∃ c, g.binding? j x = some c ∧
      (c = b ∨ n.Assigns x ∧ b.constant = false ∧ c.constant = false)) ∧
    (∀ x c, f.binding? i x = none → g.binding? i x = some c → n.Declares x) ∧
    ((∀ x, ¬ n.Assigns x ∧ ¬ n.Declares x) → g = f) := by
  intro f g
  have h : Forest.Written i n.Assigns n.Declares f g := n.written_evaluate mode i st
  exact ⟨h.frames, fun j hj => h.outside hj, fun j hj => h.names hj, fun j x b hb => h.kept hb,
    fun x c hf hg => h.gained hf hg, h.eq_of_none⟩

end TemplateScript
