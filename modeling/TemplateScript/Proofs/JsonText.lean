import TemplateScript.Proofs.JsonNumbers

/-!
# Documents are written as JSON

A document whose numbers are finite is written as a JSON text that stands for it. Where one of them is
not, the text runs into a name outside of its strings, so it is no JSON text at all.
-/

namespace TemplateScript.Json

open Place
open JsonValue (escapeChar quoted newline block)

/-! ## Strings -/

theorem hexDigit?_digitChar : ∀ d < 16, hexDigit? (Nat.digitChar d) = some d := by decide

theorem isHex_zeros (k : Nat) : IsHex (List.replicate k '0') 0 := by
  induction k with
  | zero => exact .nil
  | succ k ih =>
    have hsnoc := IsHex.snoc ih (hexDigit?_digitChar 0 (by decide))
    rw [List.replicate_succ']
    exact hsnoc

theorem IsHex.append_toDigits {hs : List Char} (h : IsHex hs 0) (n : Nat) :
    IsHex (hs ++ Nat.toDigits 16 n) n := by
  induction n using Nat.strongRecOn with
  | ind n ih =>
    by_cases hlt : n < 16
    · have hsnoc := IsHex.snoc h (hexDigit?_digitChar n hlt)
      rw [Nat.mul_zero, Nat.zero_add] at hsnoc
      rw [Nat.toDigits_of_lt_base hlt]
      exact hsnoc
    · have hsnoc := IsHex.snoc (ih (n / 16) (by omega))
        (hexDigit?_digitChar (n % 16) (Nat.mod_lt n (by decide)))
      rw [Nat.div_add_mod] at hsnoc
      rw [Nat.toDigits_of_base_le (by decide) (by omega), ← List.append_assoc]
      exact hsnoc

theorem length_hexDigits {width n : Nat} (hpos : 0 < width) (h : n < 16 ^ width) :
    (Text.hexDigits width n).length = width := by
  have hle : (Nat.toDigits 16 n).length ≤ width :=
    (Nat.length_toDigits_le_iff (by decide) hpos).2 h
  simp only [Text.hexDigits, List.length_append, List.length_replicate]
  omega

theorem toNat_le_last (c : Char) : c.toNat ≤ 0x10ffff := by
  have hc := c.valid
  simp only [UInt32.isValidChar, Nat.isValidChar] at hc
  simp only [Char.toNat]
  omega

variable {r : List Char} {us : List Nat}

theorem IsText.ofUnit {n : Nat} (hn : n < 0x10000) (h : IsText r us) :
    IsText (JsonValue.unit n ++ r) (n :: us) :=
  .unit ((isHex_zeros _).append_toDigits n) (length_hexDigits (by decide) hn) h

theorem IsText.escapeChar_append (c : Char) (h : IsText r us) :
    IsText (escapeChar c ++ r) (units c ++ us) := by
  have hshort : ∀ {e d : Char}, (e, d) ∈ escapes → d.toNat < 0x10000 →
      IsText ('\\' :: e :: r) (units d ++ us) := by
    intro e d hmem hlt
    rw [units, if_pos hlt]
    exact .escape hmem h
  unfold escapeChar
  split
  · exact hshort (e := '"') (by decide) (by decide)
  · exact hshort (e := '\\') (by decide) (by decide)
  · exact hshort (e := 'n') (by decide) (by decide)
  · exact hshort (e := 'r') (by decide) (by decide)
  · exact hshort (e := 't') (by decide) (by decide)
  · exact hshort (e := 'b') (by decide) (by decide)
  · exact hshort (e := 'f') (by decide) (by decide)
  · rename_i hquote hback _ _ _ _ _
    by_cases hplain : ' ' ≤ c ∧ c ≤ '~'
    · rw [if_pos hplain]
      exact .plain hplain.1 hquote hback h
    rw [if_neg hplain]
    by_cases hlow : c.toNat < 0x10000
    · rw [if_pos hlow, units, if_pos hlow]
      exact .ofUnit hlow h
    · have hlast := toNat_le_last c
      rw [if_neg hlow, units, if_neg hlow, List.append_assoc]
      exact .ofUnit (by omega) (.ofUnit (by omega) h)

theorem isText_escaped (cs : List Char) :
    IsText (cs.flatMap escapeChar) (cs.flatMap units) := by
  induction cs with
  | nil => exact .nil
  | cons c cs ih => exact .escapeChar_append c ih

theorem toList_quoted (s : String) :
    (quoted s).toList = '"' :: (s.toList.flatMap escapeChar ++ ['"']) := by
  simp [quoted]

/-! ## Rows -/

theorem Blank.nil : Blank [] := by simp [Blank]

theorem blank_newline (depth : Nat) : Blank (newline depth).toList := by
  intro c hc
  rw [newline, String.toList_ofList] at hc
  rcases List.mem_cons.1 hc with rfl | hc
  · simp
  · exact Or.inl (List.mem_replicate.1 hc).2

def joined (depth : Nat) (rows : List String) : List Char :=
  (newline (depth + 1)).toList ++ ((("," ++ newline (depth + 1)).intercalate rows).toList
    ++ (newline depth).toList)

theorem joined_singleton (depth : Nat) (row : String) : joined depth [row] =
    (newline (depth + 1)).toList ++ (row.toList ++ (newline depth).toList) := by
  rw [joined, String.intercalate_singleton]

theorem joined_cons (depth : Nat) (row : String) {rows : List String} (h : rows ≠ []) :
    joined depth (row :: rows) =
      ((newline (depth + 1)).toList ++ (row.toList ++ [])) ++ ',' :: joined depth rows := by
  obtain ⟨next, rest, rfl⟩ := List.exists_cons_of_ne_nil h
  simp [joined, String.intercalate_cons_cons]

theorem toList_block_nil (depth : Nat) (o c : String) :
    (block depth o c []).toList = o.toList ++ c.toList := by
  simp [block]

theorem toList_block (depth : Nat) (o c : String) {rows : List String} (h : rows ≠ []) :
    (block depth o c rows).toList = o.toList ++ (joined depth rows ++ c.toList) := by
  unfold block joined
  rw [if_neg (by simpa using h)]
  simp

section
variable {α : Type} {One : List Char → α → Prop} {Many : List Char → List α → Prop} {depth : Nat}
  {rows : List String}

def Padded (One : List Char → α → Prop) (row : String) (a : α) : Prop :=
  ∀ {u w : List Char}, Blank u → Blank w → One (u ++ (row.toList ++ w)) a

theorem joined_rows (hlast : ∀ {cs a}, One cs a → Many cs [a])
    (hmore : ∀ {cs ds a as}, One cs a → Many ds as → Many (cs ++ ',' :: ds) (a :: as)) {as : List α}
    (h : List.Forall₂ (Padded One) rows as) (hne : rows ≠ []) : Many (joined depth rows) as := by
  induction h with
  | nil => exact absurd rfl hne
  | @cons row a rows as hrow hrest ih =>
    by_cases hrows : rows = []
    · subst hrows
      cases hrest
      rw [joined_singleton]
      exact hlast (hrow (blank_newline _) (blank_newline _))
    · rw [joined_cons depth row hrows]
      exact hmore (hrow (blank_newline _) .nil) (ih hrows)

/-- One row runs into a name; the rows ahead of it do not. -/
inductive Broken : List String → Prop
  | here {row : String} {rows : List String} : outside.along? row.toList = none →
      Broken (row :: rows)
  | there {row : String} {rows : List String} : outside.along? row.toList = some outside →
      Broken rows → Broken (row :: rows)

theorem Broken.ne_nil (h : Broken rows) : rows ≠ [] := by
  cases h <;> simp

theorem Broken.along?_joined (h : Broken rows) : outside.along? (joined depth rows) = none := by
  have hblank := (blank_newline (depth + 1)).along?
  induction h with
  | @here row rows hrow =>
    by_cases hrows : rows = []
    · rw [hrows, joined_singleton, along?_append_of hblank, along?_append, hrow]
      rfl
    · rw [joined_cons depth row hrows, List.append_assoc, along?_append_of hblank, List.append_nil,
        along?_append, hrow]
      rfl
  | @there row rows hrow hrest ih =>
    rw [joined_cons depth row hrest.ne_nil, List.append_assoc, along?_append_of hblank,
      List.append_nil, along?_append_of hrow]
    exact ih

end

end TemplateScript.Json

/-! ## Documents -/

namespace TemplateScript.JsonValue

open Json Json.Place

theorem padded_item {v : JsonValue} {text : String} (h : IsValue .exact text.toList v) :
    Padded (IsElement .exact) text v :=
  fun hu hw => .padded hu h hw

theorem padded_field {v : JsonValue} {text : String} (h : IsValue .exact text.toList v)
    (key : String) : Padded (IsField .exact) (quoted key ++ ": " ++ text) (key, v) := by
  intro u w hu hw
  have hblank : Blank [' '] := by simp [Blank]
  have hfield := IsField.pair (R := .exact) hu (isText_escaped key.toList) rfl .nil
    (.padded hblank h hw)
  simpa [toList_quoted] using hfield

-- The induction is on the document, as the writer goes through it; the rows of a list or an object
-- are joined once all of them are there.
mutual

theorem isValue_of_indented {depth : Nat} : ∀ {j : JsonValue} {text : String},
    (∀ n ∈ j.numbers, n.IsFinite) → j.indented depth = .ok text → IsValue .exact text.toList j
  | null, _, _, h => by
    cases h
    exact .null
  | bool b, _, _, h => by
    cases h
    cases b with
    | false => exact .bool false
    | true => exact .bool true
  | number n, _, hfin, h => by
    obtain ⟨t, hnumber, hmeans⟩ := spelled_of_numberText (hfin n List.mem_cons_self) h
    exact .number hnumber hmeans
  | string s, _, _, h => by
    cases h
    rw [toList_quoted]
    exact .string (isText_escaped s.toList) rfl
  | array items, _, hfin, h => by
    obtain ⟨rows, hrows, rfl⟩ := ok_of_map h
    have hitems := padded_items hfin hrows
    by_cases hne : rows = []
    · subst hne
      cases hitems
      rw [toList_block_nil]
      exact .noItems .nil
    · rw [toList_block depth _ _ hne]
      exact .array (joined_rows .last .more hitems hne)
  | object fields, _, hfin, h => by
    obtain ⟨rows, hrows, rfl⟩ := ok_of_map h
    have hfields := padded_fields hfin hrows
    by_cases hne : rows = []
    · subst hne
      cases hfields
      rw [toList_block_nil]
      exact .noFields .nil
    · rw [toList_block depth _ _ hne]
      exact .object (joined_rows .last .more hfields hne)

theorem padded_items {depth : Nat} : ∀ {items : List JsonValue} {rows : List String},
    (∀ n ∈ numbersItems items, n.IsFinite) → indentedItems depth items = .ok rows →
      List.Forall₂ (Padded (IsElement .exact)) rows items
  | [], _, _, h => by
    cases h
    exact .nil
  | v :: vs, _, hfin, h => by
    obtain ⟨first, hfirst, h⟩ := ok_of_bind h
    obtain ⟨rest, hrest, h⟩ := ok_of_bind h
    obtain ⟨hv, hvs⟩ := List.forall_mem_append.1 hfin
    cases h
    exact .cons (padded_item (isValue_of_indented hv hfirst)) (padded_items hvs hrest)

theorem padded_fields {depth : Nat} : ∀ {fields : List (String × JsonValue)} {rows : List String},
    (∀ n ∈ numbersFields fields, n.IsFinite) → indentedFields depth fields = .ok rows →
      List.Forall₂ (Padded (IsField .exact)) rows fields
  | [], _, _, h => by
    cases h
    exact .nil
  | (key, v) :: vs, _, hfin, h => by
    obtain ⟨first, hfirst, h⟩ := ok_of_bind h
    obtain ⟨rest, hrest, h⟩ := ok_of_bind h
    obtain ⟨hv, hvs⟩ := List.forall_mem_append.1 hfin
    cases h
    exact .cons (padded_field (isValue_of_indented hv hfirst) key) (padded_fields hvs hrest)

end

theorem along?_block {o c : String} {depth : Nat} {rows : List String} (h : Broken rows)
    (ho : outside.along? o.toList = some outside) :
    outside.along? (block depth o c rows).toList = none := by
  rw [toList_block depth o c h.ne_nil, along?_append_of ho, along?_append, h.along?_joined]
  rfl

theorem along?_row (key text : String) :
    outside.along? (quoted key ++ ": " ++ text).toList = outside.along? text.toList := by
  have hmarks : ∀ cs, outside.along? (':' :: ' ' :: cs) = outside.along? cs := fun cs => rfl
  have hrow : (quoted key ++ ": " ++ text).toList
      = '"' :: (key.toList.flatMap escapeChar ++ '"' :: ':' :: ' ' :: text.toList) := by
    simp [toList_quoted]
  rw [hrow, (isText_escaped key.toList).quoted_along?, hmarks]

mutual

theorem along?_of_indented {depth : Nat} : ∀ {j : JsonValue} {text : String},
    (∃ n ∈ j.numbers, ¬ n.IsFinite) → j.indented depth = .ok text →
      outside.along? text.toList = none
  | null, _, hnot, _ => by simp [numbers] at hnot
  | bool _, _, hnot, _ => by simp [numbers] at hnot
  | number n, _, hnot, h => by
    obtain ⟨m, hm, hnot⟩ := hnot
    obtain rfl := List.mem_singleton.1 hm
    exact along?_numberText hnot h
  | string _, _, hnot, _ => by simp [numbers] at hnot
  | array items, _, hnot, h => by
    obtain ⟨rows, hrows, rfl⟩ := ok_of_map h
    exact along?_block (broken_items hnot hrows) (by decide)
  | object fields, _, hnot, h => by
    obtain ⟨rows, hrows, rfl⟩ := ok_of_map h
    exact along?_block (broken_fields hnot hrows) (by decide)

theorem broken_items {depth : Nat} : ∀ {items : List JsonValue} {rows : List String},
    (∃ n ∈ numbersItems items, ¬ n.IsFinite) → indentedItems depth items = .ok rows → Broken rows
  | [], _, hnot, _ => by simp [numbersItems] at hnot
  | v :: vs, _, hnot, h => by
    obtain ⟨first, hfirst, h⟩ := ok_of_bind h
    obtain ⟨rest, hrest, h⟩ := ok_of_bind h
    cases h
    by_cases hv : ∀ n ∈ v.numbers, n.IsFinite
    · obtain ⟨n, hmem, hn⟩ := hnot
      have hvs := (List.mem_append.1 hmem).resolve_left fun hmem => hn (hv n hmem)
      exact .there (isValue_of_indented hv hfirst).along? (broken_items ⟨n, hvs, hn⟩ hrest)
    · exact .here (along?_of_indented (by simpa using hv) hfirst)

theorem broken_fields {depth : Nat} : ∀ {fields : List (String × JsonValue)} {rows : List String},
    (∃ n ∈ numbersFields fields, ¬ n.IsFinite) → indentedFields depth fields = .ok rows →
      Broken rows
  | [], _, hnot, _ => by simp [numbersFields] at hnot
  | (key, v) :: vs, _, hnot, h => by
    obtain ⟨first, hfirst, h⟩ := ok_of_bind h
    obtain ⟨rest, hrest, h⟩ := ok_of_bind h
    cases h
    by_cases hv : ∀ n ∈ v.numbers, n.IsFinite
    · obtain ⟨n, hmem, hn⟩ := hnot
      have hvs := (List.mem_append.1 hmem).resolve_left fun hmem => hn (hv n hmem)
      refine .there ?_ (broken_fields ⟨n, hvs, hn⟩ hrest)
      rw [along?_row]
      exact (isValue_of_indented hv hfirst).along?
    · refine .here ?_
      rw [along?_row]
      exact along?_of_indented (by simpa using hv) hfirst

end

variable {depth : Nat} {j : JsonValue} {text : String}

/-- A document whose numbers are finite is written as a JSON text that stands for it. -/
theorem denotes_indented (hfin : ∀ n ∈ j.numbers, n.IsFinite) (h : j.indented depth = .ok text)
    {w : List Char} (hw : Blank w) : Denotes (text.toList ++ w) j :=
  .padded .nil (isValue_of_indented hfin h) hw

/-- A document with a number that is not finite is not written as a JSON text. -/
theorem not_isJson_indented (hnot : ∃ n ∈ j.numbers, ¬ n.IsFinite)
    (h : j.indented depth = .ok text) (w : List Char) : ¬ IsJson (text.toList ++ w) := by
  rintro ⟨v, hv⟩
  have hnone := along?_append outside text.toList w
  rw [along?_of_indented hnot h, hv.along?] at hnone
  cases hnone

end TemplateScript.JsonValue
