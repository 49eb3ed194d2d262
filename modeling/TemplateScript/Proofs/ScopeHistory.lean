import TemplateScript.Proofs.Permanence

/-!
# Scopes as their history tells them

What was done to scopes tells what names mean in them, without any bindings: a name belongs to the
nearest scope on the way up where it was declared, and has the value that was written to it there
last.
-/

namespace TemplateScript

/-! ## Paths and bindings of a changed forest -/

namespace Forest

variable {f g : Forest} {i j : Nat} {x y : String}

theorem path_of_none (h : f.scopes[i]? = none) : f.path i = [] := by
  rw [path]
  split
  · rfl
  · rename_i hs
    cases h.symm.trans hs

theorem path_of_some {s : Scope} (h : f.scopes[i]? = some s) :
    f.path i = i :: (s.parent.map f.path).getD [] := by
  rw [path]
  split
  · rename_i hs
    cases h.symm.trans hs
  · rename_i t ht
    obtain rfl : s = t := Option.some.inj (h.symm.trans ht)
    congr 1
    split <;> simp_all

theorem path_congr (h : ∀ j ≤ i, f.scopes[j]?.map (·.parent) = g.scopes[j]?.map (·.parent)) :
    f.path i = g.path i := by
  -- A parent stands before its children, so all scopes on the way up are among those before `i`.
  induction i using Nat.strongRecOn with
  | ind i ih =>
    have hi := h i (Nat.le_refl i)
    cases hf : f.scopes[i]? with
    | none =>
      rw [hf] at hi
      have hg : g.scopes[i]? = none := by simpa using hi.symm
      rw [path_of_none hf, path_of_none hg]
    | some s =>
      rw [hf] at hi
      obtain ⟨t, hg, ht⟩ := Option.map_eq_some_iff.1 hi.symm
      have ht : t.parent = s.parent := ht
      rw [path_of_some hf, path_of_some hg, ht]
      cases hp : s.parent with
      | none => rfl
      | some p =>
        have hlt := f.parent_lt i s p hf hp
        have hpath := ih p hlt fun j hj => h j (by omega)
        simp [hpath]

theorem path_put (b : Binding) : (f.put i x b).path j = f.path j := by
  refine path_congr fun k _ => ?_
  rw [put, List.getElem?_modify]
  cases f.scopes[k]? with
  | none => rfl
  | some s => by_cases hk : i = k <;> simp [hk, Scope.put]

def Unmarked (f : Forest) (i : Nat) (x : String) : Prop :=
  ∀ s, f.scopes[i]? = some s → x ∉ s.constants

theorem unmarked_of_variable {v : Value} (h : f.binding? i x = some ⟨v, false⟩) :
    f.Unmarked i x := by
  intro s hs hmem
  rw [binding?, hs, Option.bind_some] at h
  simpa using (Scope.binding?_eq_some.1 h).2.1 hmem

theorem Bound.unmarked (h : f.Bound) (hx : f.binding? i x = none) : f.Unmarked i x := by
  intro s hs
  rw [binding?, hs, Option.bind_some] at hx
  exact (h s (List.mem_of_getElem? hs)).not_mem hx

theorem binding?_put_of_ne (h : ¬ (i = j ∧ x = y)) (b : Binding) :
    (f.put i x b).binding? j y = f.binding? j y := by
  rw [binding?, binding?, put, List.getElem?_modify]
  by_cases hj : i = j
  · cases f.scopes[j]? with
    | none => rfl
    | some s => simp [hj, Scope.binding?_put_of_ne fun hy => h ⟨hj, hy.symm⟩]
  · simp [hj]

theorem binding?_put (b : Binding) (hi : i < f.scopes.length) (hx : f.Unmarked i x) :
    (f.put i x b).binding? j y = if i = j ∧ x = y then some b else f.binding? j y := by
  split
  · rename_i h
    obtain ⟨rfl, rfl⟩ := h
    have hs := List.getElem?_eq_getElem hi
    simp [binding?, put, hs, Scope.binding?_put_self (hx _ hs)]
  · rename_i h
    exact binding?_put_of_ne h b

theorem lt_of_binding? {b : Binding} (hb : f.binding? i x = some b) : i < f.scopes.length := by
  obtain ⟨s, hs, -⟩ := Option.bind_eq_some_iff.1 hb
  exact (List.getElem?_eq_some_iff.1 hs).1

theorem put_of_le (b : Binding) (hi : f.scopes.length ≤ i) : f.put i x b = f := by
  obtain ⟨scopes, h⟩ := f
  simp only [put, Forest.mk.injEq]
  exact List.modify_eq_self hi

section
variable {t : Scope} (hg : g.scopes = f.scopes ++ [t])
include hg

theorem path_snoc (hi : i < f.scopes.length) : g.path i = f.path i := by
  refine path_congr fun j hj => ?_
  rw [hg, List.getElem?_append_left (by omega)]

theorem path_snoc_self :
    g.path f.scopes.length = f.scopes.length :: (t.parent.map f.path).getD [] := by
  have ht : g.scopes[f.scopes.length]? = some t := by rw [hg, List.getElem?_concat_length]
  rw [path_of_some ht]
  cases hp : t.parent with
  | none => rfl
  | some p =>
    have hlt := g.parent_lt _ t p ht hp
    simp [path_snoc hg hlt]

theorem binding?_snoc (ht : t.values = []) : g.binding? i x = f.binding? i x := by
  rw [binding?, binding?, hg]
  rcases Nat.lt_trichotomy i f.scopes.length with hi | rfl | hi
  · rw [List.getElem?_append_left hi]
  · simp [ht, Scope.binding?, Table.get?]
  · rw [List.getElem?_eq_none (by simp; omega), List.getElem?_eq_none (by omega)]

end

end Forest

/-! ## Histories -/

inductive Act where
  | new (name : String)
  | child (parent : Nat) (name : String)
  | declare (scope : Nat) (x : String) (v : Value) (constant : Bool)
  | assign (scope : Nat) (x : String) (v : Value)

namespace Act

def operation : Act → Operation
  | new name => .new name
  | child parent name => .child parent name
  | declare scope x v constant => .declare scope x v constant
  | assign scope x v => .assign scope x v

def outcome (f : Forest) : Act → Except Fault Forest
  | new name => .ok (f.addRoot name)
  | child parent name => .ok (f.addChild parent name)
  | declare scope x v constant => f.declare scope x v constant
  | assign scope x v => f.assign scope x v

theorem perform_operation (f : Forest) (act : Act) :
    act.operation.perform f = (act.outcome f).toOption.getD f := by
  cases act <;> rfl

end Act

/-- A value written to a name in the scope that owns it; a declaration says whether it is constant. -/
structure Write where
  scope : Nat
  name : String
  value : Value
  declares : Option Bool

/-- The scopes that were made, each with those on its way up, nearest first; and what was written to
them, latest first. -/
structure History where
  lines : List (List Nat) := []
  writes : List Write := []

namespace History

variable {h : History} {f : Forest} {s o : Nat} {x : String}

def line (h : History) (s : Nat) : List Nat := h.lines[s]?.getD []

def declared? (h : History) (o : Nat) (x : String) : Option Bool :=
  h.writes.findSome? fun w => if w.scope = o ∧ w.name = x then w.declares else none

def latest? (h : History) (o : Nat) (x : String) : Option Value :=
  (h.writes.find? fun w => w.scope = o ∧ w.name = x).map (·.value)

def nearest? (h : History) (s : Nat) (x : String) : Option Nat :=
  (h.line s).find? fun o => (h.declared? o x).isSome

def grow (h : History) (parent : Option Nat) : History :=
  { h with lines := h.lines ++ [h.lines.length :: (parent.map h.line).getD []] }

def write (h : History) (w : Write) : History := { h with writes := w :: h.writes }

/-- An act is recorded if it may be done; acts on scopes that are not there do nothing. -/
def record (h : History) : Act → History
  | .new _ => h.grow none
  | .child parent _ => if parent < h.lines.length then h.grow (some parent) else h
  | .declare s x v constant =>
    if s < h.lines.length ∧ h.declared? s x = none then h.write ⟨s, x, v, some constant⟩ else h
  | .assign s x v =>
    match h.nearest? s x with
    | none => h
    | some o => if h.declared? o x = some true then h else h.write ⟨o, x, v, none⟩

def ofActs (acts : List Act) : History := acts.foldl record {}

theorem declared?_write (w : Write) : (h.write w).declared? o x =
    if w.scope = o ∧ w.name = x then w.declares.or (h.declared? o x) else h.declared? o x := by
  simp only [declared?, write, List.findSome?_cons]
  by_cases hw : w.scope = o ∧ w.name = x
  · simp only [hw, and_self, if_true]
    cases w.declares <;> rfl
  · simp only [hw, if_false]

theorem latest?_write (w : Write) : (h.write w).latest? o x =
    if w.scope = o ∧ w.name = x then some w.value else h.latest? o x := by
  by_cases hw : w.scope = o ∧ w.name = x
  · simp [latest?, write, hw]
  · simp [latest?, write, hw]

theorem line_grow (parent : Option Nat) : (h.grow parent).line s =
    if s = h.lines.length then s :: (parent.map h.line).getD [] else h.line s := by
  simp only [line, grow]
  rcases Nat.lt_trichotomy s h.lines.length with hs | rfl | hs
  · rw [List.getElem?_append_left hs, if_neg (by omega)]
  · simp
  · rw [List.getElem?_eq_none (by simp; omega), List.getElem?_eq_none (by omega),
      if_neg (by omega)]

structure Tells (h : History) (f : Forest) : Prop where
  scopes : h.lines.length = f.scopes.length
  path : ∀ s, f.path s = h.line s
  declared : ∀ o x, (f.binding? o x).map (·.constant) = h.declared? o x
  latest : ∀ o x, (f.binding? o x).map (·.value) = h.latest? o x
  bound : f.Bound

theorem tells_empty : Tells {} .empty where
  scopes := rfl
  path _ := Forest.path_of_none (by simp [Forest.empty])
  declared _ _ := rfl
  latest _ _ := rfl
  bound := by simp [Forest.Bound, Forest.empty]

theorem Tells.grow {g : Forest} {name : String} {parent : Option Nat} (hT : h.Tells f)
    (hg : g.scopes = f.scopes ++ [.fresh name parent]) : (h.grow parent).Tells g where
  scopes := by simp [History.grow, hg, hT.scopes]
  path s := by
    have hline : f.path = h.line := funext hT.path
    rw [line_grow, hT.scopes]
    rcases Nat.lt_trichotomy s f.scopes.length with hs | rfl | hs
    · rw [if_neg (by omega), Forest.path_snoc hg hs, hT.path]
    · rw [if_pos rfl, Forest.path_snoc_self hg, hline]
      rfl
    · rw [if_neg (by omega), ← hT.path, Forest.path_of_none, Forest.path_of_none]
      · exact List.getElem?_eq_none (by omega)
      · exact List.getElem?_eq_none (by simp [hg]; omega)
  declared o x := by
    rw [Forest.binding?_snoc hg rfl]
    exact hT.declared o x
  latest o x := by
    rw [Forest.binding?_snoc hg rfl]
    exact hT.latest o x
  bound := Forest.forall_snoc hg (Scope.bound_fresh _ _) hT.bound

theorem Tells.write (hT : h.Tells f) {w : Write} (hs : w.scope < f.scopes.length)
    (hx : f.Unmarked w.scope w.name) {c : Bool}
    (hc : w.declares.or (h.declared? w.scope w.name) = some c) :
    (h.write w).Tells (f.put w.scope w.name ⟨w.value, c⟩) where
  scopes := by simp [History.write, Forest.put, hT.scopes]
  path s := (Forest.path_put _).trans (hT.path s)
  declared o x := by
    rw [Forest.binding?_put _ hs hx, declared?_write, ← hT.declared o x]
    by_cases hw : w.scope = o ∧ w.name = x
    · obtain ⟨rfl, rfl⟩ := hw
      rw [hT.declared, hc]
      simp
    · simp only [hw, if_false]
  latest o x := by
    rw [Forest.binding?_put _ hs hx, latest?_write, ← hT.latest o x]
    by_cases hw : w.scope = o ∧ w.name = x
    · simp [hw]
    · simp only [hw, if_false]
  bound := hT.bound.put _ _ _

theorem Tells.owner? (hT : h.Tells f) (s : Nat) (x : String) : f.owner? s x = h.nearest? s x := by
  rw [Forest.owner?, hT.path, nearest?]
  congr 1
  funext o
  rw [← hT.declared, Option.isSome_map]

theorem Tells.binding_of_nearest? (hT : h.Tells f) (ho : h.nearest? s x = some o) :
    ∃ b, f.binding? o x = some b ∧ h.declared? o x = some b.constant ∧
      h.latest? o x = some b.value := by
  have hsome := List.find?_some ho
  rw [← hT.declared, Option.isSome_map] at hsome
  obtain ⟨b, hb⟩ := Option.isSome_iff_exists.1 hsome
  exact ⟨b, hb, by rw [← hT.declared, hb]; rfl, by rw [← hT.latest, hb]; rfl⟩

theorem Tells.declare_eq (hT : h.Tells f) (s : Nat) (x : String) (v : Value) (c : Bool) :
    f.declare s x v c = if h.declared? s x = none then .ok (f.put s x ⟨v, c⟩)
      else .error (.alreadyDeclared x) := by
  rw [Forest.declare, ← hT.declared]
  cases f.binding? s x <;> rfl

theorem Tells.assign_eq_of_none (hT : h.Tells f) (hn : h.nearest? s x = none) (v : Value) :
    f.assign s x v = .error (.undeclared x) := by
  rw [Forest.assign, hT.owner?, hn]

theorem Tells.assign_eq_of_some (hT : h.Tells f) (ho : h.nearest? s x = some o) (v : Value) :
    f.assign s x v = if h.declared? o x = some true then .error (.constantReassigned x)
      else .ok (f.put o x ⟨v, false⟩) := by
  obtain ⟨⟨w, constant⟩, hb, hc, -⟩ := hT.binding_of_nearest? ho
  rw [Forest.assign, hT.owner?, ho]
  simp only [hb, hc]
  cases constant <;> rfl

/-- What an act does to a forest is what it does to the history, and an act that fails does nothing. -/
theorem Tells.outcome (hT : h.Tells f) (act : Act) :
    (∃ e, act.outcome f = .error e ∧ h.record act = h) ∨
      ∃ g, act.outcome f = .ok g ∧ (h.record act).Tells g := by
  cases act with
  | new name => exact Or.inr ⟨_, rfl, hT.grow rfl⟩
  | child parent name =>
    refine Or.inr ⟨_, rfl, ?_⟩
    by_cases hp : parent < f.scopes.length
    · rw [record, if_pos (hT.scopes ▸ hp), Forest.addChild, dif_pos hp]
      exact hT.grow rfl
    · rw [record, if_neg (hT.scopes ▸ hp), Forest.addChild, dif_neg hp]
      exact hT
  | declare s x v c =>
    by_cases hd : h.declared? s x = none
    · refine Or.inr ⟨f.put s x ⟨v, c⟩, by rw [Act.outcome, hT.declare_eq, if_pos hd], ?_⟩
      -- Only a scope that is there takes the declaration, in the forest as in the history.
      by_cases hs : s < f.scopes.length
      · rw [record, if_pos ⟨hT.scopes ▸ hs, hd⟩]
        have hnone : f.binding? s x = none := Option.map_eq_none_iff.1 ((hT.declared s x).trans hd)
        exact hT.write hs (hT.bound.unmarked hnone) (w := ⟨s, x, v, some c⟩) rfl
      · rw [record, if_neg fun hr => hs (hT.scopes ▸ hr.1), Forest.put_of_le _ (Nat.not_lt.1 hs)]
        exact hT
    · refine Or.inl ⟨_, by rw [Act.outcome, hT.declare_eq, if_neg hd], ?_⟩
      rw [record, if_neg fun hr => hd hr.2]
  | assign s x v =>
    cases ho : h.nearest? s x with
    | none =>
      refine Or.inl ⟨_, by rw [Act.outcome, hT.assign_eq_of_none ho], ?_⟩
      simp only [record, ho]
    | some o =>
      obtain ⟨⟨w, constant⟩, hb, hc, -⟩ := hT.binding_of_nearest? ho
      cases constant with
      | true =>
        refine Or.inl ⟨_, by rw [Act.outcome, hT.assign_eq_of_some ho, if_pos hc], ?_⟩
        simp only [record, ho, hc, if_true]
      | false =>
        have hvar : h.declared? o x ≠ some true := by simp [hc]
        refine Or.inr ⟨_, by rw [Act.outcome, hT.assign_eq_of_some ho, if_neg hvar], ?_⟩
        simp only [record, ho, if_neg hvar]
        exact hT.write (Forest.lt_of_binding? hb) (Forest.unmarked_of_variable hb)
          (w := ⟨o, x, v, none⟩) hc

theorem Tells.record (hT : h.Tells f) (act : Act) :
    (h.record act).Tells (act.operation.perform f) := by
  rw [Act.perform_operation]
  rcases hT.outcome act with ⟨e, he, hr⟩ | ⟨g, hg, hr⟩
  · rw [he, hr]
    exact hT
  · rw [hg]
    exact hr

theorem Tells.foldl (hT : h.Tells f) (acts : List Act) :
    (acts.foldl History.record h).Tells (Operation.performAll f (acts.map Act.operation)) := by
  induction acts generalizing h f with
  | nil => exact hT
  | cons act acts ih => exact ih (hT.record act)

/-- What a history says about names is what the scopes do. -/
structure Explains (h : History) (f : Forest) : Prop where
  unbound : ∀ {s x}, h.nearest? s x = none → f.has s x = false ∧
    f.resolve s x = .error (.undeclared x) ∧ f.lookup s x = .error (.undeclared x) ∧
      f.isConstant s x = .error (.undeclared x) ∧ ∀ v, f.assign s x v = .error (.undeclared x)
  bound : ∀ {s x o}, h.nearest? s x = some o → f.has s x = true ∧ f.resolve s x = .ok o ∧
    ∃ c v, h.declared? o x = some c ∧ h.latest? o x = some v ∧ f.isConstant s x = .ok c ∧
      f.lookup s x = .ok v
  declare : ∀ {s x v c e}, f.declare s x v c = .error e ↔
    e = .alreadyDeclared x ∧ (h.declared? s x).isSome = true
  assign : ∀ {s x v e}, f.assign s x v = .error e ↔
    e = .undeclared x ∧ h.nearest? s x = none ∨
      e = .constantReassigned x ∧ ∃ o, h.nearest? s x = some o ∧ h.declared? o x = some true
  failure : ∀ {act e}, act.outcome f = .error e →
    act.operation.perform f = f ∧ h.record act = h
  declared : ∀ {s x v c g}, s < f.scopes.length → f.declare s x v c = .ok g →
    h.record (.declare s x v c) = h.write ⟨s, x, v, some c⟩
  assigned : ∀ {s x v g}, f.assign s x v = .ok g →
    ∃ o, f.resolve s x = .ok o ∧ h.record (.assign s x v) = h.write ⟨o, x, v, none⟩

theorem Tells.explains (hT : h.Tells f) : h.Explains f where
  unbound {s x} hn := by
    have howner : f.owner? s x = none := (hT.owner? s x).trans hn
    simp [Forest.has, Forest.resolve, Forest.lookup, Forest.isConstant, Forest.nearest?,
      Forest.assign, howner]
  bound {s x o} ho := by
    obtain ⟨b, hb, hc, hv⟩ := hT.binding_of_nearest? ho
    have howner : f.owner? s x = some o := (hT.owner? s x).trans ho
    have hnearest : f.nearest? s x = some b := by rw [Forest.nearest?, howner]; exact hb
    refine ⟨by simp [Forest.has, howner], by simp [Forest.resolve, howner], b.constant, b.value, hc,
      hv, ?_, ?_⟩
    · simp [Forest.isConstant, hnearest]
    · simp [Forest.lookup, hnearest]
  declare {s x v c e} := by
    rw [hT.declare_eq]
    cases h.declared? s x <;> simp [eq_comm]
  assign {s x v e} := by
    cases ho : h.nearest? s x with
    | none => simp [hT.assign_eq_of_none ho, eq_comm]
    | some o =>
      rw [hT.assign_eq_of_some ho]
      by_cases hc : h.declared? o x = some true
      · simp [hc, eq_comm]
      · simp [hc]
  failure {act e} he := by
    rcases hT.outcome act with ⟨e', he', hr⟩ | ⟨g, hg, -⟩
    · exact ⟨by rw [Act.perform_operation, he]; rfl, hr⟩
    · cases he.symm.trans hg
  declared {s x v c g} hs hg := by
    rw [hT.declare_eq] at hg
    split at hg
    · rename_i hd
      rw [History.record, if_pos ⟨hT.scopes ▸ hs, hd⟩]
    · cases hg
  assigned {s x v g} hg := by
    cases ho : h.nearest? s x with
    | none =>
      rw [hT.assign_eq_of_none ho] at hg
      cases hg
    | some o =>
      rw [hT.assign_eq_of_some ho] at hg
      split at hg
      · cases hg
      · rename_i hvar
        have howner : f.owner? s x = some o := (hT.owner? s x).trans ho
        refine ⟨o, by simp [Forest.resolve, howner], ?_⟩
        simp only [History.record, ho, if_neg hvar]

end History

/-- Whatever is done to scopes, in any order, what names then mean in them is what the history of the
acts says: a name belongs to the nearest scope on the way up where its declaration succeeded, is
constant if that declaration said so, and has the value that was written to it there last. -/
theorem scopes_nest (acts : List Act) :
    (History.ofActs acts).Explains (Operation.performAll .empty (acts.map Act.operation)) :=
  (History.tells_empty.foldl acts).explains

end TemplateScript
