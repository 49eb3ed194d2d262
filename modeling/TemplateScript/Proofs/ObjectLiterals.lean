import Mathlib.Data.List.Induction
import TemplateScript.Proofs.Permanence
import TemplateScript.Proofs.Visits

/-!
# Object literals

The entries of an object literal are evaluated one by one, each once and in the state that those
before it left, until one fails. If none does, the object has their keys in the order in which they
first came, and under each key the value that came last.
-/

namespace TemplateScript

/-! ## Tables of many entries -/

namespace Table

variable {α : Type} {t u : Table α} {x : String}

def putAll (t : Table α) (ps : List (String × α)) : Table α := ps.foldl (fun t p => t.put p.1 p.2) t

theorem ofList_snoc (ps : List (String × α)) (p : String × α) :
    ofList (ps ++ [p]) = (ofList ps).put p.1 p.2 := by
  simp [ofList]

theorem keys_ofList (ps : List (String × α)) : (ofList ps).keys = (ps.map Prod.fst).eraseDups := by
  induction ps using List.reverseRecOn with
  | nil => rfl
  | append_singleton ps p ih =>
    rw [ofList_snoc, keys_put, ih, List.map_append, List.eraseDups_append]
    by_cases hp : p.1 ∈ ps.map Prod.fst
    · have hnone : [p.1].removeAll (ps.map Prod.fst) = [] := by simpa [List.removeAll] using hp
      rw [if_pos (List.mem_eraseDups.2 hp), List.map_singleton, hnone, List.eraseDups_nil,
        List.append_nil]
    · have hnew : [p.1].removeAll (ps.map Prod.fst) = [p.1] := by simpa [List.removeAll] using hp
      rw [if_neg (mt List.mem_eraseDups.1 hp), List.map_singleton, hnew]
      rfl

theorem nodup_keys_ofList (ps : List (String × α)) : (ofList ps).keys.Nodup := by
  induction ps using List.reverseRecOn with
  | nil => exact List.nodup_nil
  | append_singleton ps p ih =>
    rw [ofList_snoc]
    exact nodup_keys_put ih p.1 p.2

theorem get?_ofList (ps : List (String × α)) (x : String) :
    (ofList ps).get? x = ps.reverse.lookup x := by
  induction ps using List.reverseRecOn with
  | nil => rfl
  | append_singleton ps p ih =>
    have hcons := get?_cons p.1 p.2 ps.reverse x
    rw [ofList_snoc, get?_put, ih, List.reverse_concat]
    exact hcons.symm

/-- A table without repeated keys is what its keys and their entries are. -/
theorem eq_of_get? (hkeys : t.keys = u.keys) (hnodup : t.keys.Nodup)
    (hget : ∀ x, t.get? x = u.get? x) : t = u := by
  induction t generalizing u with
  | nil => exact (List.map_eq_nil_iff.1 hkeys.symm).symm
  | cons p t ih =>
    obtain ⟨k, a⟩ := p
    obtain ⟨⟨k', a'⟩, u, rfl, hk, hu⟩ := List.map_eq_cons_iff.1 hkeys.symm
    obtain rfl : k' = k := hk
    obtain ⟨hnew, hnodup⟩ := List.nodup_cons.1 hnodup
    have hfirst := hget k'
    rw [get?_cons, get?_cons, if_pos rfl, if_pos rfl] at hfirst
    have hrest : t = u := by
      refine ih hu.symm hnodup fun x => ?_
      by_cases hx : x = k'
      · have hnone : ∀ w : Table α, k' ∉ w.keys → w.get? k' = none := fun w hw =>
          Option.eq_none_iff_forall_ne_some.2 fun b hb => hw (mem_keys.2 ⟨b, hb⟩)
        rw [hx, hnone t hnew, hnone u (fun hmem => hnew (hu ▸ hmem))]
      · have hat := hget x
        rwa [get?_cons, get?_cons, if_neg hx, if_neg hx] at hat
    rw [Option.some.inj hfirst, hrest]

end Table

namespace Node

open Eval

/-- An entry of an object literal; without a value it stands for the variable of its name. -/
structure Entry where
  span : Option Span
  key : String
  value : Node

namespace Entry

def node (e : Entry) : Node := .property e.span e.key e.value

def eval (mode : Mode) (scope : Nat) (e : Entry) : Eval Value :=
  entryValue mode scope e.span e.key e.value

/-- Entries evaluated in order, each once and in the state that those before it left: what they give,
and the state behind the last of them. -/
inductive Yield (mode : Mode) (scope : Nat) :
    List Entry → EvalState → List Value → EvalState → Prop
  | nil (st : EvalState) : Yield mode scope [] st [] st
  | cons {e : Entry} {es : List Entry} {v : Value} {vs : List Value} {st st₁ st' : EvalState} :
      e.eval mode scope st = (.ok v, st₁) → Yield mode scope es st₁ vs st' →
      Yield mode scope (e :: es) st (v :: vs) st'

def last? (es : List Entry) (vs : List Value) (key : String) : Option Value :=
  ((es.map Entry.key).zip vs).reverse.lookup key

/-- Each key once, in the order in which the keys first came, with the value that came last. -/
structure Collected (es : List Entry) (vs : List Value) (table : Table Value) : Prop where
  keys : table.keys = (es.map Entry.key).eraseDups
  nodup : table.keys.Nodup
  value : ∀ key, table.get? key = last? es vs key

variable {mode : Mode} {scope : Nat} {es : List Entry} {vs : List Value} {st st' : EvalState}
  {table table' : Table Value}

theorem Yield.length_eq (h : Yield mode scope es st vs st') : es.length = vs.length := by
  induction h with
  | nil => rfl
  | cons _ _ ih => simp [ih]

theorem Yield.collected_iff (h : Yield mode scope es st vs st') :
    Collected es vs table ↔ table = Table.ofList ((es.map Entry.key).zip vs) := by
  have hkeys : ((es.map Entry.key).zip vs).map Prod.fst = es.map Entry.key :=
    List.map_fst_zip (by simp [h.length_eq])
  have hcollected : Collected es vs (Table.ofList ((es.map Entry.key).zip vs)) :=
    ⟨by rw [Table.keys_ofList, hkeys], Table.nodup_keys_ofList _, Table.get?_ofList _⟩
  constructor
  · intro ht
    refine Table.eq_of_get? (ht.keys.trans hcollected.keys.symm) ht.nodup fun key => ?_
    rw [ht.value, hcollected.value]
  · rintro rfl
    exact hcollected

/-! ## What entries come to -/

theorem evalProperties_ok :
    evalProperties mode scope table (es.map node) st = (.ok table', st') ↔
      ∃ vs, Yield mode scope es st vs st' ∧ table' = table.putAll ((es.map Entry.key).zip vs) := by
  induction es generalizing table st with
  | nil =>
    rw [List.map_nil, evalProperties, pure_apply]
    constructor
    · intro h
      cases h
      exact ⟨[], .nil _, rfl⟩
    · rintro ⟨vs, hvs, rfl⟩
      cases hvs
      rfl
  | cons e es ih =>
    rw [List.map_cons, node, evalProperties_property]
    constructor
    · intro h
      obtain ⟨v, st₁, hv, hrest⟩ := bind_eq_ok h
      obtain ⟨vs, hvs, rfl⟩ := ih.1 hrest
      exact ⟨v :: vs, .cons hv hvs, rfl⟩
    · rintro ⟨vs, hvs, rfl⟩
      cases hvs with
      | cons hv hvs => exact (bind_ok hv _).trans (ih.2 ⟨_, hvs, rfl⟩)

theorem evalProperties_error {x : EvalFailure} :
    evalProperties mode scope table (es.map node) st = (.error x, st') ↔
      ∃ before e after vs st₁, es = before ++ e :: after ∧ Yield mode scope before st vs st₁ ∧
        e.eval mode scope st₁ = (.error x, st') := by
  induction es generalizing table st with
  | nil =>
    rw [List.map_nil, evalProperties, pure_apply]
    simp
  | cons e es ih =>
    rw [List.map_cons, node, evalProperties_property]
    constructor
    · intro h
      rcases bind_eq_error h with hx | ⟨v, st₁, hv, hrest⟩
      · exact ⟨[], e, es, [], st, rfl, .nil st, hx⟩
      · obtain ⟨before, e', after, vs, st₂, rfl, hvs, hx⟩ := ih.1 hrest
        exact ⟨e :: before, e', after, v :: vs, st₂, rfl, .cons hv hvs, hx⟩
    · rintro ⟨before, e', after, vs, st₁, hes, hvs, hx⟩
      cases hvs with
      | nil =>
        obtain ⟨rfl, rfl⟩ := List.cons.inj hes
        exact bind_error hx _
      | @cons d ds v ws _ st₂ _ hv hvs =>
        obtain ⟨rfl, rfl⟩ := List.cons.inj hes
        exact (bind_ok hv _).trans (ih.2 ⟨ds, e', after, ws, st₁, rfl, hvs, hx⟩)

end Entry

end Node

/-! ## How objects list their properties -/

/-- A value shows the properties of a table, all of them and in this order: in its document with the
documents of their values, and in its spelling with their spellings. It has a spelling if and only if
they all have one. -/
structure Value.Lists (v : Value) (table : Table Value) : Prop where
  document : v.toJson = .object (table.map fun p => (p.1, p.2.toJson))
  spelling : ∀ text, v.spell = .ok text ↔
    ∃ ts : List String, List.Forall₂ (fun p t => p.2.spell = .ok t) table ts ∧
      text = if table.isEmpty then "\x7b\x7d"
        else "\x7b " ++ ", ".intercalate (List.zipWith (fun p t => p.1 ++ ": " ++ t) table ts)
          ++ " \x7d"

namespace Value

theorem toJsonFields_eq (ps : List (String × Value)) :
    toJsonFields ps = ps.map fun p => (p.1, p.2.toJson) := by
  induction ps with
  | nil => rfl
  | cons p ps ih => simp [toJsonFields, ih]

theorem spellAll_cons_ok {key : String} {v : Value} {ps : List (String × Value)}
    {rows : List String} : spellAll ((key, v) :: ps) = .ok rows ↔
      ∃ t rest, v.spell = .ok t ∧ spellAll ps = .ok rest ∧ rows = (key ++ ": " ++ t) :: rest := by
  rw [spellAll]
  cases v.spell with
  | error b => simp [bind, Except.bind]
  | ok t =>
    cases spellAll ps with
    | error b => simp [bind, Except.bind]
    | ok rest => simp [bind, Except.bind, eq_comm]

theorem spellAll_ok {ps : List (String × Value)} {rows : List String} :
    spellAll ps = .ok rows ↔ ∃ ts : List String,
      List.Forall₂ (fun p t => p.2.spell = .ok t) ps ts ∧
        rows = List.zipWith (fun p t => p.1 ++ ": " ++ t) ps ts := by
  induction ps generalizing rows with
  | nil =>
    rw [spellAll]
    constructor
    · rintro ⟨⟩
      exact ⟨[], .nil, rfl⟩
    · rintro ⟨ts, hts, rfl⟩
      cases hts
      rfl
  | cons p ps ih =>
    obtain ⟨key, v⟩ := p
    rw [spellAll_cons_ok]
    constructor
    · rintro ⟨t, rest, hv, hps, rfl⟩
      obtain ⟨ts, hts, rfl⟩ := ih.1 hps
      exact ⟨t :: ts, .cons hv hts, rfl⟩
    · rintro ⟨ts, hts, rfl⟩
      cases hts with
      | @cons _ t _ ts hv hts => exact ⟨t, _, hv, ih.2 ⟨ts, hts, rfl⟩, rfl⟩

theorem braced_zipWith {table : Table Value} {ts : List String}
    (h : List.Forall₂ (fun p t => p.2.spell = .ok t) table ts) (row : String × Value → String → String) :
    braced (List.zipWith row table ts) = if table.isEmpty then "\x7b\x7d"
      else "\x7b " ++ ", ".intercalate (List.zipWith row table ts) ++ " \x7d" := by
  cases h with
  | nil => rfl
  | cons => rfl

theorem lists_object (table : Table Value) : (Value.object table).Lists table where
  document := by rw [toJson, toJsonFields_eq]
  spelling text := by
    rw [spell]
    constructor
    · intro h
      obtain ⟨rows, hrows, rfl⟩ := ok_of_map h
      obtain ⟨ts, hts, rfl⟩ := spellAll_ok.1 hrows
      exact ⟨ts, hts, braced_zipWith hts _⟩
    · rintro ⟨ts, hts, rfl⟩
      rw [spellAll_ok.2 ⟨ts, hts, rfl⟩, ← braced_zipWith hts]
      rfl

end Value

namespace Node

/-- An object literal evaluates its entries in order, each once, and gives the object that collects
what they give, which lists its properties in the order of its keys however it is shown. It fails
where the first of them fails, with that failure and the state that it leaves. -/
theorem object_literal_outcome (mode : Mode) (scope : Nat) (s : Option Span) (es : List Entry)
    (st : EvalState) :
    (∀ v st', eval mode scope (.object s (es.map Entry.node)) st = (.ok v, st') ↔
      ∃ (vs : List Value) (table : Table Value), Entry.Yield mode scope es st vs st' ∧
        v = .object table ∧ Entry.Collected es vs table ∧ v.Lists table) ∧
    ∀ x st', eval mode scope (.object s (es.map Entry.node)) st = (.error x, st') ↔
      ∃ before e after vs st₁, es = before ++ e :: after ∧
        Entry.Yield mode scope before st vs st₁ ∧ e.eval mode scope st₁ = (.error x, st') := by
  refine ⟨fun v st' => ?_, fun x st' => ?_⟩
  · rw [eval]
    constructor
    · intro h
      obtain ⟨table, st₁, htable, hv⟩ := Eval.bind_eq_ok h
      obtain ⟨vs, hvs, rfl⟩ := Entry.evalProperties_ok.1 htable
      cases hv
      exact ⟨vs, _, hvs, rfl, hvs.collected_iff.2 rfl, Value.lists_object _⟩
    · rintro ⟨vs, table, hvs, rfl, htable, -⟩
      obtain rfl := hvs.collected_iff.1 htable
      exact Eval.bind_ok (Entry.evalProperties_ok.2 ⟨vs, hvs, rfl⟩) _
  · have hfails : evalProperties mode scope [] (es.map Entry.node) st = (.error x, st') ↔ _ :=
      Entry.evalProperties_error
    rw [← hfails, eval]
    constructor
    · intro h
      rcases Eval.bind_eq_error h with hx | ⟨table, st₁, -, hv⟩
      · exact hx
      · cases hv
    · exact fun hx => Eval.bind_error hx _

end Node

end TemplateScript
