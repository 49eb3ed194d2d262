import TemplateScript.Fault
import TemplateScript.Table
import TemplateScript.Value

/-!
# Scopes

Scopes form a forest: each has its own values and may have a parent, which was there before it. A
name is resolved in the nearest scope on the way up that has a value for it. Which names of a scope
are constant is kept beside the values, as a set of names.
-/

namespace TemplateScript

/-- What a scope says of a name: its value, and whether it is constant. -/
structure Binding where
  value : Value
  constant : Bool

structure Scope where
  name : String
  parent : Option Nat
  values : Table Value
  constants : List String

namespace Scope

def fresh (name : String) (parent : Option Nat) : Scope := ⟨name, parent, [], []⟩

def binding? (s : Scope) (x : String) : Option Binding :=
  (s.values.get? x).map fun v => ⟨v, decide (x ∈ s.constants)⟩

/-- Gives a name a value, and adds it to the constants if it is to be one. -/
def put (s : Scope) (x : String) (b : Binding) : Scope :=
  { s with
    values := s.values.put x b.value
    constants := if b.constant then s.constants.insert x else s.constants }

section
variable {s : Scope} {x y : String} {b : Binding}

theorem binding?_eq_some : s.binding? x = some b ↔
    s.values.get? x = some b.value ∧ (x ∈ s.constants ↔ b.constant = true) := by
  obtain ⟨v, constant⟩ := b
  cases hv : s.values.get? x <;> cases constant <;> simp [binding?, hv]

theorem mem_constants_put :
    y ∈ (s.put x b).constants ↔ y = x ∧ b.constant = true ∨ y ∈ s.constants := by
  cases hb : b.constant <;> simp [put, hb]

theorem binding?_put_of_ne (h : y ≠ x) (b : Binding) : (s.put x b).binding? y = s.binding? y := by
  have hmem : y ∈ (s.put x b).constants ↔ y ∈ s.constants := by simp [mem_constants_put, h]
  simp only [binding?, hmem]
  simp [put, Table.get?_put, h]

/-- A constant is not made a variable by a value put in its place, so the name must be none. -/
theorem binding?_put_self (h : x ∉ s.constants) (b : Binding) : (s.put x b).binding? x = some b := by
  rw [binding?_eq_some, mem_constants_put]
  simp [h, put, Table.get?_put]

end

def describe (s : Scope) : String :=
  "Environment(" ++ Text.quote s.name ++ ", ["
    ++ ", ".intercalate ((sortNames s.values.keys).map Text.quote) ++ "])"

def global : Scope :=
  (((fresh "global" none).put "null" ⟨.null, true⟩).put "true" ⟨.bool true, true⟩).put "false"
    ⟨.bool false, true⟩

end Scope

structure Forest where
  scopes : List Scope
  parent_lt : ∀ (i : Nat) (s : Scope) (p : Nat), scopes[i]? = some s → s.parent = some p → p < i

namespace Forest

def empty : Forest := ⟨[], by simp⟩

theorem parent_lt_snoc (f : Forest) (s : Scope) (h : ∀ p, s.parent = some p → p < f.scopes.length)
    (i : Nat) (t : Scope) (p : Nat) (hi : (f.scopes ++ [s])[i]? = some t)
    (hp : t.parent = some p) : p < i := by
  rcases Nat.lt_trichotomy i f.scopes.length with hl | rfl | hl
  · rw [List.getElem?_append_left hl] at hi
    exact f.parent_lt i t p hi hp
  · simp only [List.getElem?_concat_length, Option.some.injEq] at hi
    subst hi
    exact h p hp
  · rw [List.getElem?_eq_none (by simp; omega)] at hi
    cases hi

def add (f : Forest) (s : Scope) (h : ∀ p, s.parent = some p → p < f.scopes.length) : Forest :=
  ⟨f.scopes ++ [s], f.parent_lt_snoc s h⟩

def addRoot (f : Forest) (name : String) : Forest := f.add (.fresh name none) (by simp [Scope.fresh])

def addGlobal (f : Forest) : Forest :=
  f.add .global (by simp [Scope.global, Scope.put, Scope.fresh])

def start : Forest := empty.addGlobal

def addChild (f : Forest) (parent : Nat) (name : String) : Forest :=
  if h : parent < f.scopes.length then
    f.add (.fresh name (some parent)) (by simpa [Scope.fresh] using h)
  else f

/-- A scope and its ancestors, nearest first. -/
def path (f : Forest) (i : Nat) : List Nat :=
  match h : f.scopes[i]? with
  | none => []
  | some s =>
    i :: match hp : s.parent with
      | none => []
      | some p =>
        have : p < i := f.parent_lt i s p h hp
        f.path p
  termination_by i

def binding? (f : Forest) (i : Nat) (x : String) : Option Binding :=
  f.scopes[i]?.bind fun s => s.binding? x

/-- The scope that owns a name, seen from a scope. -/
def owner? (f : Forest) (i : Nat) (x : String) : Option Nat :=
  (f.path i).find? fun j => (f.binding? j x).isSome

/-- The nearest binding of a name. -/
def nearest? (f : Forest) (i : Nat) (x : String) : Option Binding :=
  (f.owner? i x).bind fun j => f.binding? j x

theorem parent_lt_modify (f : Forest) (i : Nat) (g : Scope → Scope)
    (hg : ∀ s, (g s).parent = s.parent) (j : Nat) (t : Scope) (p : Nat)
    (hj : (f.scopes.modify i g)[j]? = some t) (hp : t.parent = some p) : p < j := by
  rw [List.getElem?_modify] at hj
  obtain ⟨s, hs, rfl⟩ := Option.map_eq_some_iff.1 hj
  refine f.parent_lt j s p hs ?_
  split at hp
  · rwa [hg] at hp
  · exact hp

def put (f : Forest) (i : Nat) (x : String) (b : Binding) : Forest :=
  ⟨f.scopes.modify i (·.put x b), f.parent_lt_modify i _ fun _ => rfl⟩

def has (f : Forest) (i : Nat) (x : String) : Bool := (f.owner? i x).isSome

def resolve (f : Forest) (i : Nat) (x : String) : Except Fault Nat :=
  match f.owner? i x with
  | some j => .ok j
  | none => .error (.undeclared x)

def lookup (f : Forest) (i : Nat) (x : String) : Except Fault Value :=
  match f.nearest? i x with
  | some b => .ok b.value
  | none => .error (.undeclared x)

def isConstant (f : Forest) (i : Nat) (x : String) : Except Fault Bool :=
  match f.nearest? i x with
  | some b => .ok b.constant
  | none => .error (.undeclared x)

/-- Binds a new name in a scope; a parent may bind it already. -/
def declare (f : Forest) (i : Nat) (x : String) (v : Value) (constant : Bool) :
    Except Fault Forest :=
  match f.binding? i x with
  | some _ => .error (.alreadyDeclared x)
  | none => .ok (f.put i x ⟨v, constant⟩)

/-- Gives a name a new value in the scope that owns it. -/
def assign (f : Forest) (i : Nat) (x : String) (v : Value) : Except Fault Forest :=
  match f.owner? i x with
  | none => .error (.undeclared x)
  | some j =>
    match f.binding? j x with
    | some ⟨_, true⟩ => .error (.constantReassigned x)
    | _ => .ok (f.put j x ⟨v, false⟩)

end Forest

end TemplateScript
