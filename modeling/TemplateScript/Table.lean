/-!
# Tables

A table pairs keys with entries and keeps the order in which the keys first came. An entry put under
a key that is there already takes the place of the old one.
-/

namespace TemplateScript

abbrev Table (α : Type) := List (String × α)

namespace Table

variable {α : Type}

def get? (t : Table α) (key : String) : Option α := t.lookup key

def has (t : Table α) (key : String) : Bool := (t.get? key).isSome

def put (key : String) (a : α) : Table α → Table α
  | [] => [(key, a)]
  | (k, b) :: t => if k = key then (k, a) :: t else (k, b) :: put key a t

def keys (t : Table α) : List String := t.map Prod.fst

def ofList (l : List (String × α)) : Table α := l.foldl (fun t p => t.put p.1 p.2) []

theorem get?_put (t : Table α) (x y : String) (a : α) :
    (t.put x a).get? y = if y = x then some a else t.get? y := by
  induction t with
  | nil => by_cases h : y = x <;> simp [put, get?, h]
  | cons p t ih =>
    obtain ⟨k, b⟩ := p
    simp only [get?] at ih
    by_cases hk : k = x
    · by_cases h : y = x
      · simp [put, get?, hk, h]
      · simp [put, get?, hk, List.lookup_cons, beq_eq_false_iff_ne.2 h, h]
    · by_cases hy : y = k
      · simp [put, get?, hk, hy]
      · simp [put, get?, hk, List.lookup_cons, ih, beq_eq_false_iff_ne.2 hy]

theorem keys_put (t : Table α) (x : String) (a : α) :
    (t.put x a).keys = if x ∈ t.keys then t.keys else t.keys ++ [x] := by
  induction t with
  | nil => simp [put, keys]
  | cons p t ih =>
    simp only [keys] at ih
    by_cases hk : p.1 = x
    · simp [put, keys, hk]
    · by_cases h : x ∈ t.map Prod.fst <;> simp [put, keys, hk, Ne.symm hk, ih, h]

theorem put_of_not_mem {t : Table α} {x : String} (h : x ∉ t.keys) (a : α) :
    t.put x a = t ++ [(x, a)] := by
  induction t with
  | nil => rfl
  | cons p t ih =>
    obtain ⟨k, b⟩ := p
    simp only [keys, List.map_cons, List.mem_cons, not_or] at h
    rw [put, if_neg (Ne.symm h.1), ih h.2, List.cons_append]

theorem append_cons_eq_put {t u : Table α} {x : String} {a : α}
    (h : (t ++ (x, a) :: u).keys.Nodup) : t ++ (x, a) :: u = t.put x a ++ u := by
  have hnew : x ∉ t.keys := by
    rw [keys, List.map_append, List.nodup_append] at h
    exact fun hmem => h.2.2 x hmem x (by simp) rfl
  rw [put_of_not_mem hnew, List.append_assoc]
  rfl

end Table

/-- Names in the order of their code points. -/
def sortNames (names : List String) : List String := names.mergeSort fun a b => decide (a ≤ b)

end TemplateScript
