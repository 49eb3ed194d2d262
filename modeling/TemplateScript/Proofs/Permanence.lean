import TemplateScript.Proofs.ForestSteps
import TemplateScript.Proofs.RunOutcome
import TemplateScript.Session

/-!
# Bindings are permanent

What a session does to a forest only adds to it: names keep their places, and of a binding that is
there nothing changes but the value, and that only if it is no constant. The constants of a scope are
a set beside its values, and no operation lets it name what has no value. Every operation declares
and assigns in some order and up to some failure, so these two steps carry the whole.
-/

namespace TemplateScript

namespace Table

variable {α : Type} {t : Table α} {x : String}

theorem get?_cons (k : String) (b : α) (t : Table α) (x : String) :
    get? ((k, b) :: t) x = if x = k then some b else t.get? x := by
  by_cases h : x = k
  · simp [get?, h]
  · simp [get?, List.lookup_cons, beq_eq_false_iff_ne.2 h, h]

theorem mem_keys : x ∈ t.keys ↔ ∃ a, t.get? x = some a := by
  induction t with
  | nil => simp [keys, get?]
  | cons p t ih =>
    obtain ⟨k, b⟩ := p
    rw [get?_cons]
    simp only [keys] at ih
    by_cases h : x = k <;> simp [keys, h, ih]

theorem get?_eq_some (h : t.keys.Nodup) {a : α} : t.get? x = some a ↔ (x, a) ∈ t := by
  induction t with
  | nil => simp [get?]
  | cons p t ih =>
    obtain ⟨k, b⟩ := p
    obtain ⟨hk, ht⟩ := List.nodup_cons.1 h
    rw [get?_cons]
    by_cases hx : x = k
    · subst hx
      have hno : (x, a) ∉ t := fun hm => hk (List.mem_map.2 ⟨_, hm, rfl⟩)
      simp [hno, eq_comm]
    · simp [hx, ih ht]

theorem keys_prefix_put (t : Table α) (x : String) (a : α) : t.keys <+: (t.put x a).keys := by
  rw [keys_put]
  split
  · exact List.prefix_rfl
  · exact List.prefix_append _ _

theorem nodup_keys_put (h : t.keys.Nodup) (x : String) (a : α) : (t.put x a).keys.Nodup := by
  rw [keys_put]
  split
  · exact h
  · rename_i hx
    rw [List.nodup_append]
    refine ⟨h, by simp, fun y hy z hz => ?_⟩
    obtain rfl := List.mem_singleton.1 hz
    rintro rfl
    exact hx hy

end Table

/-! ## One scope -/

namespace Scope

section
variable {s : Scope} {x y : String} {b : Binding}

def value? (s : Scope) (x : String) : Option Value := s.values.get? x

def Tidy (s : Scope) : Prop := s.values.keys.Nodup

def Bound (s : Scope) : Prop := s.constants ⊆ s.values.keys

theorem Bound.not_mem (h : s.Bound) (hx : s.binding? x = none) : x ∉ s.constants := by
  intro hmem
  obtain ⟨v, hv⟩ := Table.mem_keys.1 (h hmem)
  simp [binding?, hv] at hx

theorem Tidy.put (h : s.Tidy) (x : String) (b : Binding) : (s.put x b).Tidy :=
  Table.nodup_keys_put h _ _

theorem Bound.put (h : s.Bound) (x : String) (b : Binding) : (s.put x b).Bound := by
  intro y hy
  rcases mem_constants_put.1 hy with ⟨rfl, -⟩ | hy
  · exact Table.mem_keys.2 ⟨b.value, by simp [Scope.put, Table.get?_put]⟩
  · exact (Table.keys_prefix_put _ _ _).subset (h hy)

end

/-- A later state of a scope: its names stay where they are, a constant stays what it is, and a
variable stays a variable. -/
structure Keeps (s t : Scope) : Prop where
  parent : t.parent = s.parent
  keys : s.values.keys <+: t.values.keys
  tidy : s.Tidy → t.Tidy
  bound : s.Bound → t.Bound
  binding : ∀ {x b}, s.binding? x = some b →
    ∃ c, t.binding? x = some c ∧ c.constant = b.constant ∧ (b.constant = true → c = b)

theorem Keeps.refl (s : Scope) : s.Keeps s where
  parent := rfl
  keys := List.prefix_rfl
  tidy := id
  bound := id
  binding {_ b} h := ⟨b, h, rfl, fun _ => rfl⟩

theorem Keeps.trans {s t u : Scope} (h : s.Keeps t) (h' : t.Keeps u) : s.Keeps u where
  parent := h'.parent.trans h.parent
  keys := h.keys.trans h'.keys
  tidy hs := h'.tidy (h.tidy hs)
  bound hs := h'.bound (h.bound hs)
  binding {x b} hb := by
    obtain ⟨c, hc, hcb, hfixed⟩ := h.binding hb
    obtain ⟨d, hd, hdc, hfixed'⟩ := h'.binding hc
    refine ⟨d, hd, hdc.trans hcb, fun hconst => ?_⟩
    rw [hfixed' (hcb.trans hconst), hfixed hconst]

/-- A binding may be put where there is none, or a variable in the place of a variable. -/
theorem Keeps.put {s : Scope} {x : String} {b : Binding}
    (h : ∀ c, s.binding? x = some c → c.constant = false ∧ b.constant = false) :
    s.Keeps (s.put x b) where
  parent := rfl
  keys := Table.keys_prefix_put _ _ _
  tidy hs := hs.put x b
  bound hs := hs.put x b
  binding {y c} hc := by
    by_cases hy : y = x
    · subst hy
      obtain ⟨hvar, hput⟩ := h c hc
      have hmem : y ∉ s.constants := fun hmem => by simp [(binding?_eq_some.1 hc).2.1 hmem] at hvar
      refine ⟨b, binding?_put_self hmem b, hput.trans hvar.symm, fun hconst => ?_⟩
      rw [hvar] at hconst
      cases hconst
    · exact ⟨c, (binding?_put_of_ne hy b).trans hc, rfl, fun _ => rfl⟩

section
variable {s t : Scope} (h : s.Keeps t) {x : String}
include h

theorem Keeps.constant (hs : s.Bound) (hx : x ∈ s.constants) :
    x ∈ t.constants ∧ t.value? x = s.value? x := by
  obtain ⟨v, hv⟩ := Table.mem_keys.1 (hs hx)
  have hb : s.binding? x = some ⟨v, true⟩ := binding?_eq_some.2 ⟨hv, by simpa using hx⟩
  obtain ⟨c, hc, -, hfixed⟩ := h.binding hb
  obtain rfl := hfixed rfl
  obtain ⟨hvalue, hmem⟩ := binding?_eq_some.1 hc
  exact ⟨hmem.2 rfl, by rw [value?, value?, hv, hvalue]⟩

theorem Keeps.variable (hx : x ∈ s.values.keys) (hvar : x ∉ s.constants) : x ∉ t.constants := by
  obtain ⟨v, hv⟩ := Table.mem_keys.1 hx
  have hb : s.binding? x = some ⟨v, false⟩ := binding?_eq_some.2 ⟨hv, by simpa using hvar⟩
  obtain ⟨c, hc, hcb, -⟩ := h.binding hb
  intro hmem
  have hconst : c.constant = true := (binding?_eq_some.1 hc).2.1 hmem
  rw [hcb] at hconst
  cases hconst

end

theorem tidy_fresh (name : String) (parent : Option Nat) : (fresh name parent).Tidy := List.nodup_nil

theorem bound_fresh (name : String) (parent : Option Nat) : (fresh name parent).Bound :=
  List.nil_subset _

theorem tidy_global : global.Tidy := (((tidy_fresh _ _).put _ _).put _ _).put _ _

theorem bound_global : global.Bound := (((bound_fresh _ _).put _ _).put _ _).put _ _

end Scope

/-! ## The forest -/

namespace Forest

def Tidy (f : Forest) : Prop := ∀ s ∈ f.scopes, s.Tidy

def Bound (f : Forest) : Prop := ∀ s ∈ f.scopes, s.Bound

theorem forall_put {f : Forest} {i : Nat} {x : String} {b : Binding} {P : Scope → Prop}
    (hput : ∀ s, f.scopes[i]? = some s → P s → P (s.put x b)) (hf : ∀ s ∈ f.scopes, P s) :
    ∀ s ∈ (f.put i x b).scopes, P s := by
  intro s hs
  obtain ⟨j, hj⟩ := List.mem_iff_getElem?.1 hs
  simp only [Forest.put, List.getElem?_modify] at hj
  obtain ⟨t, ht, rfl⟩ := Option.map_eq_some_iff.1 hj
  have hPt := hf t (List.mem_of_getElem? ht)
  by_cases hij : i = j
  · simpa [hij] using hput t (hij ▸ ht) hPt
  · simpa [hij] using hPt

theorem forall_snoc {f g : Forest} {s : Scope} (h : g.scopes = f.scopes ++ [s]) {P : Scope → Prop}
    (hs : P s) (hf : ∀ t ∈ f.scopes, P t) : ∀ t ∈ g.scopes, P t := by
  intro t ht
  rw [h] at ht
  rcases List.mem_append.1 ht with ht | ht
  · exact hf t ht
  · obtain rfl := List.mem_singleton.1 ht
    exact hs

theorem Bound.put {f : Forest} (hf : f.Bound) (i : Nat) (x : String) (b : Binding) :
    (f.put i x b).Bound := forall_put (fun _ _ hs => hs.put x b) hf

/-- A later state of a forest. -/
structure Keeps (f g : Forest) : Prop where
  scope : ∀ {i : Nat} {s : Scope}, f.scopes[i]? = some s → ∃ t, g.scopes[i]? = some t ∧ s.Keeps t
  tidy : f.Tidy → g.Tidy
  bound : f.Bound → g.Bound

theorem Keeps.refl (f : Forest) : f.Keeps f := ⟨fun h => ⟨_, h, .refl _⟩, id, id⟩

theorem Keeps.trans {f g k : Forest} (h : f.Keeps g) (h' : g.Keeps k) : f.Keeps k where
  scope hs := by
    obtain ⟨t, ht, hst⟩ := h.scope hs
    obtain ⟨u, hu, htu⟩ := h'.scope ht
    exact ⟨u, hu, hst.trans htu⟩
  tidy hf := h'.tidy (h.tidy hf)
  bound hf := h'.bound (h.bound hf)

theorem Keeps.put {f : Forest} {i : Nat} {x : String} {b : Binding}
    (h : ∀ c, f.binding? i x = some c → c.constant = false ∧ b.constant = false) :
    f.Keeps (f.put i x b) := by
  have hput : ∀ s, f.scopes[i]? = some s → s.Keeps (s.put x b) := fun s hs =>
    .put fun c hc => h c (by rw [binding?, hs, Option.bind_some, hc])
  refine ⟨fun {j s} hs => ?_, forall_put fun s hs => (hput s hs).tidy,
    fun hf => hf.put i x b⟩
  by_cases hij : i = j
  · subst hij
    exact ⟨s.put x b, by simp [Forest.put, hs], hput s hs⟩
  · exact ⟨s, by simp [Forest.put, hij, hs], .refl s⟩

theorem Keeps.snoc {f g : Forest} {s : Scope} (h : g.scopes = f.scopes ++ [s]) (htidy : s.Tidy)
    (hbound : s.Bound) : f.Keeps g where
  scope {i t} ht := by
    refine ⟨t, ?_, .refl t⟩
    rw [h, List.getElem?_append_left (List.getElem?_eq_some_iff.1 ht).1, ht]
  tidy := forall_snoc h htidy
  bound := forall_snoc h hbound

theorem keeps_declare {f g : Forest} {i : Nat} {x : String} {v : Value} {constant : Bool}
    (h : f.declare i x v constant = .ok g) : f.Keeps g := by
  unfold declare at h
  split at h
  · cases h
  · rename_i hnone
    cases h
    refine .put fun c hc => ?_
    rw [hnone] at hc
    cases hc

theorem keeps_assign {f g : Forest} {i : Nat} {x : String} {v : Value}
    (h : f.assign i x v = .ok g) : f.Keeps g := by
  unfold assign at h
  split at h
  · cases h
  · split at h
    · cases h
    · rename_i hvar
      cases h
      refine .put fun c hc => ⟨?_, rfl⟩
      obtain ⟨w, constant⟩ := c
      cases constant
      · rfl
      · exact absurd hc (hvar w)

end Forest

/-! ## Evaluations and runs -/

section
variable (mode : Mode) (scope : Nat) (f : Forest)

theorem Node.keeps_evaluate (n : Node) : Eval.Moves Forest.Keeps (n.evaluate mode scope) := by
  have hkeeps : Lockstep (fun _ => True) (fun _ e _ => Eval.Moves Forest.Keeps e) mode mode scope
      scope :=
    Eval.moves_lockstep mode Forest.Keeps.refl (fun _ _ _ => Forest.Keeps.trans)
      (fun _ _ => trivial) (fun _ => Forest.keeps_declare) (fun _ => Forest.keeps_assign)
  exact Eval.moves_attempt mode (hkeeps.eval n trivial)

theorem execute_keeps (n : Node) : f.Keeps (execute mode scope n f).forest := by
  have h := n.keeps_evaluate mode scope ⟨f, .empty⟩
  unfold execute
  split <;> rename_i he <;> rw [he] at h <;> exact h

theorem run_keeps (file : Option String) (source : String) :
    f.Keeps (run mode file source scope f).forest := by
  rcases run_cases source file with ha | ⟨ha, d, hd⟩ | ⟨n, hn⟩
  · rw [run_aborted ha]
    exact .refl f
  · rw [run_unread ha hd]
    exact .refl f
  · rw [run_evaluates hn]
    exact execute_keeps mode scope f n

end

/-! ## Sessions -/

namespace Operation

theorem perform_keeps (f : Forest) (op : Operation) : f.Keeps (perform f op) := by
  cases op with
  | new name => exact .snoc rfl (Scope.tidy_fresh _ _) (Scope.bound_fresh _ _)
  | global => exact .snoc rfl Scope.tidy_global Scope.bound_global
  | child parent name =>
    simp only [perform, Forest.addChild]
    split
    · exact .snoc rfl (Scope.tidy_fresh _ _) (Scope.bound_fresh _ _)
    · exact .refl f
  | declare scope x v constant =>
    simp only [perform]
    cases h : f.declare scope x v constant with
    | ok g => exact Forest.keeps_declare h
    | error e => exact .refl f
  | assign scope x v =>
    simp only [perform]
    cases h : f.assign scope x v with
    | ok g => exact Forest.keeps_assign h
    | error e => exact .refl f
  | evaluate mode scope n reported => exact n.keeps_evaluate mode scope ⟨f, reported⟩
  | execute mode scope n => exact execute_keeps mode scope f n
  | run mode file source scope => exact run_keeps mode scope f file source

theorem performAll_keeps (f : Forest) (ops : List Operation) : f.Keeps (performAll f ops) := by
  induction ops generalizing f with
  | nil => exact .refl f
  | cons op ops ih => exact (perform_keeps f op).trans (ih _)

theorem performAll_tidy (ops : List Operation) : (performAll .empty ops).Tidy :=
  (performAll_keeps .empty ops).tidy (by simp [Forest.Tidy, Forest.empty])

/-- In every forest that a session comes to, the constants of a scope are among its names. -/
theorem performAll_bound (ops : List Operation) : (performAll .empty ops).Bound :=
  (performAll_keeps .empty ops).bound (by simp [Forest.Bound, Forest.empty])

end Operation

theorem Forest.Keeps.constant {f g : Forest} (h : f.Keeps g) {i : Nat} {x : String} {v : Value}
    (hb : f.binding? i x = some ⟨v, true⟩) : g.binding? i x = some ⟨v, true⟩ := by
  obtain ⟨s, hs, hx⟩ := Option.bind_eq_some_iff.1 hb
  obtain ⟨t, ht, hst⟩ := h.scope hs
  obtain ⟨c, hc, -, hfixed⟩ := hst.binding hx
  rw [binding?, ht, Option.bind_some, hc, hfixed rfl]

theorem Forest.addGlobal_binding? (f : Forest) (x : String) :
    f.addGlobal.binding? f.scopes.length x = Scope.global.binding? x := by
  simp [addGlobal, add, binding?]

/-- Whatever a session does, in every forest that it comes to the constants of a scope are names of
the scope, each bound once; and from then on every name keeps its place, a constant stays a constant
with its value, and a variable never becomes a constant. So the names of a global scope keep the
values they are made with. -/
theorem bindings_permanent (before after : List Operation) :
    let f := Operation.performAll .empty before
    (∀ s ∈ f.scopes, s.constants ⊆ s.values.keys ∧ s.values.keys.Nodup) ∧
    (∀ (i : Nat) (s : Scope), f.scopes[i]? = some s →
      ∃ t, (Operation.performAll f after).scopes[i]? = some t ∧ t.parent = s.parent ∧
        s.values.keys <+: t.values.keys ∧
        (∀ x ∈ s.constants, x ∈ t.constants ∧ t.value? x = s.value? x) ∧
        (∀ x ∈ s.values.keys, x ∉ s.constants → x ∉ t.constants)) ∧
    ∀ x v, (x, v) ∈ [("null", Value.null), ("true", .bool true), ("false", .bool false)] →
      (Operation.performAll f.addGlobal after).binding? f.scopes.length x = some ⟨v, true⟩ := by
  intro f
  have htidy : f.Tidy := Operation.performAll_tidy before
  have hbound : f.Bound := Operation.performAll_bound before
  refine ⟨fun s hs => ⟨hbound s hs, htidy s hs⟩, fun i s hs => ?_, fun x v hx => ?_⟩
  · obtain ⟨t, ht, hst⟩ := (Operation.performAll_keeps f after).scope hs
    exact ⟨t, ht, hst.parent, hst.keys,
      fun x hx => hst.constant (hbound s (List.mem_of_getElem? hs)) hx,
      fun x hx hvar => hst.variable hx hvar⟩
  · have hglobal : f.addGlobal.binding? f.scopes.length x = some ⟨v, true⟩ := by
      rw [f.addGlobal_binding?]
      simp only [List.mem_cons, Prod.mk.injEq, List.not_mem_nil, or_false] at hx
      rcases hx with ⟨rfl, rfl⟩ | ⟨rfl, rfl⟩ | ⟨rfl, rfl⟩ <;> rfl
    exact (Operation.performAll_keeps f.addGlobal after).constant hglobal

end TemplateScript
