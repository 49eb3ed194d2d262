import TemplateScript.Node.Dump
import TemplateScript.Proofs.QuotedText
import TemplateScript.Proofs.Rendering

/-!
# Rows of trees tell the tree

The rows of a tree say its kind first, then its fields, each of which tells where it ends: a text at
the end of its row, a part where its own fields end, a list at its bracket, which no part can begin
with. So the rows of a tree, with any rows behind them, tell the tree but for its spans.
-/

namespace TemplateScript

/-! ## Texts of fillers -/

theorem Text.truth_inj {b c : Bool} (h : truth b = truth c) : b = c := by
  cases b <;> cases c <;> first
    | rfl
    | simp [truth] at h

namespace Numeral

theorem eq_toString_of_write? {n : Int} {t : String} (h : write? n = some t) : t = toString n := by
  rw [write?] at h
  split at h
  · exact (Option.some.inj h).symm
  · cases h

theorem toString_inj {n k : Int} (h : toString n = toString k) : n = k := by
  have hspelled := (Json.toString_isNumber n).unique (Json.toString_isNumber k)
    (congrArg String.toList h)
  have hnegative : n < 0 ↔ k < 0 := decide_eq_decide.1 (congrArg Json.Spelled.negative hspelled)
  have habs : n.natAbs = k.natAbs := congrArg Json.Spelled.digits hspelled
  omega

theorem write?_inj {n k : Int} {t : String} (hn : write? n = some t) (hk : write? k = some t) :
    n = k :=
  toString_inj ((eq_toString_of_write? hn).symm.trans (eq_toString_of_write? hk))

end Numeral

namespace Filler

def kindOfText (t : String) : String :=
  match t.toList with
  | 'N' :: _ => "NoneType"
  | '\'' :: _ | '"' :: _ => "str"
  | 'T' :: _ | 'F' :: _ => "bool"
  | cs => if cs.all fun c => decide (Json.InNumber c) then "int" else ""

variable {f g : Filler} {t : String}

theorem kindOfText_of_text? (h : f.text? = some t) : kindOfText t = f.kindName := by
  cases f with
  | absent =>
    cases h
    rfl
  | text s =>
    cases h
    rw [kindOfText, Text.toList_quote]
    rcases Text.delimiter_eq s.toList with hd | hd <;> rw [hd] <;> rfl
  | truth b =>
    cases h
    cases b <;> rfl
  | whole n =>
    obtain rfl := Numeral.eq_toString_of_write? h
    have hnumber := (Json.toString_isNumber n).inNumber
    unfold kindOfText
    split
    all_goals try
      rename_i hhead
      exact absurd (hnumber _ (hhead ▸ List.mem_cons_self)) (by decide)
    exact if_pos (List.all_eq_true.2 fun c hc => decide_eq_true (hnumber c hc))

theorem text?_inj (hf : f.text? = some t) (hg : g.text? = some t) : f = g := by
  have hkind : f.kindName = g.kindName := by
    rw [← kindOfText_of_text? hf, ← kindOfText_of_text? hg]
  have hsome := hf.trans hg.symm
  cases f <;> cases g <;> simp only [kindName, String.reduceEq] at hkind
  case absent.absent => rfl
  case text.text => exact congrArg text (Text.quote_inj (Option.some.inj hsome))
  case whole.whole => exact congrArg whole (Numeral.write?_inj hf hg)
  case truth.truth => exact congrArg truth (Text.truth_inj (Option.some.inj hsome))

end Filler

namespace Node

/-! ## Rows one after the other -/

namespace Rows

def one (row : String) : Rows := pure [row]

def cat (p q : Rows) : Rows := do
  let a ← p
  let b ← q
  pure (a ++ b)

/-- Two rows with any rows behind them are alike only if the proposition holds and the rows behind
them are alike. -/
structure Tell (p q : Rows) (A : Prop) : Prop where
  apart : ∀ {a b r s : List String}, p = .ok a → q = .ok b → a ++ r = b ++ s → A ∧ r = s

variable {p p' q q' : Rows} {A B : Prop} {x y : String}

theorem cat_assoc (p q r : Rows) : cat (cat p q) r = cat p (cat q r) := by
  simp only [cat, bind_assoc, pure_bind, List.append_assoc]

theorem cat_eq_ok {c : List String} (h : cat p q = .ok c) :
    ∃ a b, p = .ok a ∧ q = .ok b ∧ c = a ++ b := by
  obtain ⟨a, ha, h⟩ := ok_of_bind h
  obtain ⟨b, hb, h⟩ := ok_of_bind h
  cases h
  exact ⟨a, b, ha, hb, rfl⟩

theorem tell_one (h : x = y → A) : Tell (one x) (one y) A := by
  refine ⟨fun ha hb heq => ?_⟩
  cases ha
  cases hb
  obtain ⟨hxy, hrs⟩ := List.cons.inj heq
  exact ⟨h hxy, hrs⟩

theorem Tell.imp (h : Tell p q A) (hAB : A → B) : Tell p q B :=
  ⟨fun ha hb heq => (h.apart ha hb heq).imp_left hAB⟩

theorem Tell.symm (h : Tell p q A) : Tell q p A :=
  ⟨fun ha hb heq => (h.apart hb ha heq.symm).imp_right Eq.symm⟩

theorem Tell.cat (h : Tell p q A) (h' : A → Tell p' q' B) :
    Tell (Rows.cat p p') (Rows.cat q q') B := by
  refine ⟨fun has hbs heq => ?_⟩
  obtain ⟨a, a', ha, ha', rfl⟩ := cat_eq_ok has
  obtain ⟨b, b', hb, hb', rfl⟩ := cat_eq_ok hbs
  rw [List.append_assoc, List.append_assoc] at heq
  obtain ⟨hA, hrest⟩ := h.apart ha hb heq
  exact (h' hA).apart ha' hb' hrest

end Rows

open Rows

/-! ## The fields of a node -/

def partAt (depth : Int) (name : String) (n : Node) : Rows :=
  partRows depth name n (rows (depth + 2) n)

def listAt (depth : Int) (name : String) (ns : List Node) : Rows :=
  listRows depth name (rowsOfList depth ns)

def fieldRows (depth : Int) : Node → Rows
  | program _ body => listAt depth "body" body
  | declaration _ constant name value =>
    cat (one (fieldRow depth "constant" (Text.truth constant)))
      (cat (one (fieldRow depth "identifier" (Text.quote name))) (partAt depth "value" value))
  | assignment _ target value =>
    cat (partAt depth "assignee" target) (partAt depth "value" value)
  | binary _ left operator right =>
    cat (partAt depth "left" left)
      (cat (one (fieldRow depth "operator" (Text.quote operator))) (partAt depth "right" right))
  | member _ o p computed =>
    cat (partAt depth "object" o)
      (cat (partAt depth "property" p) (one (fieldRow depth "computed" (Text.truth computed))))
  | call _ callee args => cat (partAt depth "caller" callee) (listAt depth "arguments" args)
  | identifier _ name => one (fieldRow depth "symbol" (Text.quote name))
  | literal _ value => (orDigitLimit value.text?).map fun t => [fieldRow depth "value" t]
  | property _ key value =>
    cat (one (fieldRow depth "key" (Text.quote key))) (partAt depth "value" value)
  | object _ ps => listAt depth "properties" ps
  | bare _ k => .error (.missing k.kindName "kind")
  | filler f => .error (.missing f.kindName "accept")

theorem rows_eq (depth : Int) (n : Node) :
    rows depth n = cat (one (row depth n.kindName)) (n.fieldRows depth) := by
  cases n with
  | literal _ value =>
    rw [rows, fieldRows]
    cases orDigitLimit value.text? <;> rfl
  | _ => simp [rows, fieldRows, cat, one, partAt, listAt, kindName]

/-! ## Parts and lists -/

variable {n m : Node} {d : Int} {A : Prop} {x y : String}

theorem row_inj (h : row d x = row d y) : x = y := (String.append_right_inj _).1 h

theorem row_append_inj {t : String} (h : row d (t ++ x) = row d (t ++ y)) : x = y :=
  (String.append_right_inj t).1 (row_inj h)

theorem row_deeper (hd : 0 ≤ d) (x : String) : row (d + 2) x = row d ("    " ++ x) := by
  have hblanks : 2 * (d + 2).toNat = 2 * d.toNat + 4 := by omega
  rw [row, row, hblanks, ← String.toList_inj]
  simp [Text.blanks, ← List.replicate_append_replicate]

theorem fieldRow_inj {name : String} (h : fieldRow d name x = fieldRow d name y) : x = y :=
  row_append_inj h

def HasWhole : Node → Prop
  | literal _ v => ∃ k, v = .int k
  | _ => True

inductive SameKind : Node → Node → Prop
  | program (s s' : Option Span) (body body' : List Node) :
      SameKind (.program s body) (.program s' body')
  | declaration (s s' : Option Span) (c c' : Bool) (x x' : String) (v v' : Node) :
      SameKind (.declaration s c x v) (.declaration s' c' x' v')
  | assignment (s s' : Option Span) (t t' v v' : Node) :
      SameKind (.assignment s t v) (.assignment s' t' v')
  | binary (s s' : Option Span) (a a' : Node) (op op' : String) (b b' : Node) :
      SameKind (.binary s a op b) (.binary s' a' op' b')
  | member (s s' : Option Span) (o o' p p' : Node) (computed computed' : Bool) :
      SameKind (.member s o p computed) (.member s' o' p' computed')
  | call (s s' : Option Span) (callee callee' : Node) (args args' : List Node) :
      SameKind (.call s callee args) (.call s' callee' args')
  | identifier (s s' : Option Span) (x x' : String) :
      SameKind (.identifier s x) (.identifier s' x')
  | literal (s s' : Option Span) (v v' : Number) : SameKind (.literal s v) (.literal s' v')
  | property (s s' : Option Span) (key key' : String) (v v' : Node) :
      SameKind (.property s key v) (.property s' key' v')
  | object (s s' : Option Span) (ps ps' : List Node) : SameKind (.object s ps) (.object s' ps')
  | bare (s s' : Option Span) (k k' : Bare) : SameKind (.bare s k) (.bare s' k')
  | filler (f g : Filler) : SameKind (.filler f) (.filler g)

theorem sameKind (h : n.kindName = m.kindName) : SameKind n m := by
  cases n <;> cases m <;> try constructor
  all_goals try cases ‹Bare›
  all_goals try cases ‹Filler›
  all_goals simp [kindName, Bare.kindName, Filler.kindName] at h

/-- A node with the same kind, and with fields that tell, tells. -/
theorem tell_of_kind (h : SameKind n m → Tell (n.fieldRows d) (m.fieldRows d) A) :
    Tell (rows d n) (rows d m) A := by
  rw [rows_eq, rows_eq]
  exact (tell_one row_inj).cat fun hkind => h (sameKind hkind)

theorem partRows_eq (hn : ∀ f, n ≠ .filler f) (name : String) (r : Rows) :
    partRows d name n r = cat (one (row d ("  " ++ name ++ ":"))) r := by
  cases n with
  | filler f => exact absurd rfl (hn f)
  | _ => cases r <;> rfl

theorem itemRows_eq (hn : ∀ f, n ≠ .filler f) (r : Rows) : itemRows d n r = r := by
  cases n with
  | filler f => exact absurd rfl (hn f)
  | _ => rfl

theorem filler_or (n : Node) : (∃ f, n = .filler f) ∨ ∀ f, n ≠ .filler f := by
  simpa only [← not_exists] using em (∃ f, n = .filler f)

theorem textRows_eq_ok {t? : Option String} {f : String → List String} {a : List String}
    (h : (orDigitLimit t?).map f = .ok a) : ∃ t, t? = some t ∧ f t = a := by
  obtain ⟨t, ht, ha⟩ := ok_of_map h
  cases t? with
  | none => cases ht
  | some u => exact ⟨t, congrArg some (Except.ok.inj ht), ha⟩

theorem tell_text {t? u? : Option String} {f : String → String}
    (h : ∀ t, t? = some t → u? = some t → A) (hf : ∀ {x y}, f x = f y → x = y) :
    Tell ((orDigitLimit t?).map fun t => [f t]) ((orDigitLimit u?).map fun t => [f t]) A := by
  refine ⟨fun ha hb heq => ?_⟩
  obtain ⟨t, rfl, rfl⟩ := textRows_eq_ok ha
  obtain ⟨u, rfl, rfl⟩ := textRows_eq_ok hb
  obtain ⟨htu, hrs⟩ := List.cons.inj heq
  exact ⟨h t rfl (hf htu ▸ rfl), hrs⟩

theorem tell_apart {t? : Option String} {f : String → String} {q : Rows}
    (h : ∀ t, t? = some t → f t ≠ x) :
    Tell ((orDigitLimit t?).map fun t => [f t]) (cat (one x) q) A := by
  refine ⟨fun ha hbs heq => ?_⟩
  obtain ⟨t, rfl, rfl⟩ := textRows_eq_ok ha
  obtain ⟨b, b', hb, -, rfl⟩ := cat_eq_ok hbs
  cases hb
  exact absurd (List.cons.inj heq).1 (h t rfl)

/-- Where a filler is one row with its text, which begins the rows of no node, the rows of a place
tell what stands there if those of a node do. -/
theorem tell_place {place : Node → Rows} {row : String → String}
    (hrow : ∀ {x y}, row x = row y → x = y)
    (hfiller : ∀ f, place (.filler f) = (orDigitLimit f.text?).map fun t => [row t])
    (hapart : ∀ {f k} {A : Prop}, (∀ g, k ≠ .filler g) → Tell (place (.filler f)) (place k) A)
    (h : (∀ f, n ≠ .filler f) → (∀ f, m ≠ .filler f) →
      Tell (place n) (place m) (n.unspanned = m.unspanned)) :
    Tell (place n) (place m) (n.unspanned = m.unspanned) := by
  rcases filler_or n with ⟨f, rfl⟩ | hn
  · rcases filler_or m with ⟨g, rfl⟩ | hm
    · rw [hfiller, hfiller]
      exact tell_text (fun t hf hg => by rw [Filler.text?_inj hf hg]) hrow
    · exact hapart hm
  · rcases filler_or m with ⟨g, rfl⟩ | hm
    · exact (hapart hn).symm
    · exact h hn hm

theorem tell_part {name : String}
    (h : Tell (rows (d + 2) n) (rows (d + 2) m) (n.unspanned = m.unspanned)) :
    Tell (partAt d name n) (partAt d name m) (n.unspanned = m.unspanned) := by
  refine tell_place fieldRow_inj (fun f => rfl) (fun {f k A} hk => ?_) fun hn hm => ?_
  · rw [partAt, partAt, partRows_eq hk]
    refine tell_apart fun t _ hrow => ?_
    -- The row of a text is longer than the one that names a part, by a blank at least.
    have hlength := congrArg String.length (row_inj hrow)
    have hcolon : ": ".length = ":".length + 1 := rfl
    simp only [String.length_append] at hlength
    omega
  · rw [partAt, partAt, partRows_eq hn, partRows_eq hm]
    exact (tell_one fun _ => trivial).cat fun _ => h

def nodeKinds : List String :=
  ["Program", "VarDeclaration", "AssignmentExpr", "BinaryExpr", "MemberExpr", "CallExpr",
   "Identifier", "NumericLiteral", "Property", "ObjectLiteral", "Statement", "Expression"]

theorem kindName_mem (hm : ∀ g, m ≠ .filler g) : m.kindName ∈ nodeKinds := by
  cases m with
  | filler g => exact absurd rfl (hm g)
  | bare _ k => cases k <;> simp [kindName, Bare.kindName, nodeKinds]
  | _ => simp [kindName, nodeKinds]

/-- No filler is written as a kind of nodes. -/
theorem text?_ne_kindName {f : Filler} {t : String} (hm : ∀ g, m ≠ .filler g)
    (h : f.text? = some t) : t ≠ m.kindName := by
  rintro rfl
  have hkind := Filler.kindOfText_of_text? h
  have hkinds : ∀ s ∈ nodeKinds, s ∉ ["None", "True", "False"] ∧
      Filler.kindOfText s ∉ ["str", "int"] := by decide
  have hnames := hkinds _ (kindName_mem hm)
  cases f with
  | absent => exact hnames.1 (Option.some.inj h ▸ by decide)
  | truth b => exact hnames.1 (Option.some.inj h ▸ by cases b <;> decide)
  | text s => exact hnames.2 (by simp [hkind, Filler.kindName])
  | whole k => exact hnames.2 (by simp [hkind, Filler.kindName])

def itemAt (depth : Int) (n : Node) : Rows := itemRows depth n (rows (depth + 2) n)

theorem tell_item (hd : 0 ≤ d)
    (h : Tell (rows (d + 2) n) (rows (d + 2) m) (n.unspanned = m.unspanned)) :
    Tell (itemAt d n) (itemAt d m) (n.unspanned = m.unspanned) := by
  refine tell_place row_append_inj (fun f => rfl) (fun {f k A} hk => ?_) fun hn hm => ?_
  · rw [itemAt, itemAt, itemRows_eq hk, rows_eq (d + 2) k, row_deeper hd]
    exact tell_apart fun t ht hrow => text?_ne_kindName hk ht (row_append_inj hrow)
  · rwa [itemAt, itemAt, itemRows_eq hn, itemRows_eq hm]

theorem itemAt_head (hd : 0 ≤ d) {a : List String} (h : itemAt d n = .ok a) :
    ∃ t as, a = row d ("    " ++ t) :: as := by
  rcases filler_or n with ⟨f, rfl⟩ | hn
  · obtain ⟨t, -, rfl⟩ := textRows_eq_ok h
    exact ⟨t, [], rfl⟩
  · rw [itemAt, itemRows_eq hn, rows_eq, row_deeper hd] at h
    obtain ⟨a, b, ha, -, rfl⟩ := cat_eq_ok h
    cases ha
    exact ⟨n.kindName, b, rfl⟩

/-- The bracket behind a list begins no part of it. -/
theorem tell_bracket (hd : 0 ≤ d) (q : Rows) :
    Tell (one (row d "  ]")) (cat (itemAt d n) q) A := by
  refine ⟨fun ha hbs heq => ?_⟩
  cases ha
  obtain ⟨b, b', hb, -, rfl⟩ := cat_eq_ok hbs
  obtain ⟨t, as, rfl⟩ := itemAt_head hd hb
  have hrow := congrArg String.toList (row_inj (List.cons.inj heq).1)
  rw [String.toList_append] at hrow
  exact absurd hrow (by simp)

def bracketed (depth : Int) (ns : List Node) : Rows :=
  cat (rowsOfList depth ns) (one (row depth "  ]"))

theorem bracketed_nil (depth : Int) : bracketed depth [] = one (row depth "  ]") := by
  rw [bracketed, rowsOfList]
  rfl

theorem bracketed_cons (depth : Int) (n : Node) (ns : List Node) :
    bracketed depth (n :: ns) = cat (itemAt depth n) (bracketed depth ns) := by
  rw [bracketed, bracketed, ← cat_assoc, rowsOfList]
  rfl

theorem listAt_eq (depth : Int) (name : String) (ns : List Node) : listAt depth name ns
    = cat (one (row depth ("  " ++ name ++ ": ["))) (bracketed depth ns) := by
  rw [listAt, listRows, bracketed]
  cases rowsOfList depth ns <;> rfl

theorem tell_list {name : String} {ns ms : List Node}
    (h : Tell (bracketed d ns) (bracketed d ms) A) :
    Tell (listAt d name ns) (listAt d name ms) A := by
  rw [listAt_eq, listAt_eq]
  exact (tell_one fun _ => trivial).cat fun _ => h

mutual

/-- The first row tells the kind, and each field tells itself ahead of the next one. -/
theorem tell_rows : ∀ (n m : Node) {d : Int}, 0 ≤ d → (∀ k ∈ n.preorder, k.HasWhole) →
    (∀ k ∈ m.preorder, k.HasWhole) → Tell (rows d n) (rows d m) (n.unspanned = m.unspanned)
  | .program s body, m, d, hd, hn, hm => by
    refine tell_of_kind fun hkind => ?_
    cases hkind with
    | program _ s' _ body' =>
    simp only [preorder, List.forall_mem_cons] at hn hm
    refine (tell_list (tell_items body body' hd hn.2 hm.2)).imp fun hbody => ?_
    rw [unspanned, unspanned, hbody]
  | .declaration s c x v, m, d, hd, hn, hm => by
    refine tell_of_kind fun hkind => ?_
    cases hkind with
    | declaration _ s' _ c' _ x' _ v' =>
    simp only [preorder, List.forall_mem_cons] at hn hm
    refine (tell_one fieldRow_inj).cat fun hc => (tell_one fieldRow_inj).cat fun hx => ?_
    refine (tell_part (tell_rows v v' (by omega) hn.2 hm.2)).imp fun hv => ?_
    rw [unspanned, unspanned, Text.truth_inj hc, Text.quote_inj hx, hv]
  | .assignment s target value, m, d, hd, hn, hm => by
    refine tell_of_kind fun hkind => ?_
    cases hkind with
    | assignment _ s' _ target' _ value' =>
    simp only [preorder, List.forall_mem_cons, List.forall_mem_append] at hn hm
    refine (tell_part (tell_rows target target' (by omega) hn.2.1 hm.2.1)).cat fun ht => ?_
    refine (tell_part (tell_rows value value' (by omega) hn.2.2 hm.2.2)).imp fun hv => ?_
    rw [unspanned, unspanned, ht, hv]
  | .binary s left op right, m, d, hd, hn, hm => by
    refine tell_of_kind fun hkind => ?_
    cases hkind with
    | binary _ s' _ left' _ op' _ right' =>
    simp only [preorder, List.forall_mem_cons, List.forall_mem_append] at hn hm
    refine (tell_part (tell_rows left left' (by omega) hn.2.1 hm.2.1)).cat fun hl => ?_
    refine (tell_one fieldRow_inj).cat fun hop => ?_
    refine (tell_part (tell_rows right right' (by omega) hn.2.2 hm.2.2)).imp fun hr => ?_
    rw [unspanned, unspanned, hl, Text.quote_inj hop, hr]
  | .member s o p computed, m, d, hd, hn, hm => by
    refine tell_of_kind fun hkind => ?_
    cases hkind with
    | member _ s' _ o' _ p' _ computed' =>
    simp only [preorder, List.forall_mem_cons, List.forall_mem_append] at hn hm
    refine (tell_part (tell_rows o o' (by omega) hn.2.1 hm.2.1)).cat fun ho => ?_
    refine (tell_part (tell_rows p p' (by omega) hn.2.2 hm.2.2)).cat fun hp => ?_
    refine (tell_one fieldRow_inj).imp fun hcomputed => ?_
    rw [unspanned, unspanned, ho, hp, Text.truth_inj hcomputed]
  | .call s callee args, m, d, hd, hn, hm => by
    refine tell_of_kind fun hkind => ?_
    cases hkind with
    | call _ s' _ callee' _ args' =>
    simp only [preorder, List.forall_mem_cons, List.forall_mem_append] at hn hm
    refine (tell_part (tell_rows callee callee' (by omega) hn.2.1 hm.2.1)).cat fun hcallee => ?_
    refine (tell_list (tell_items args args' hd hn.2.2 hm.2.2)).imp fun hargs => ?_
    rw [unspanned, unspanned, hcallee, hargs]
  | .identifier s x, m, d, _, _, _ => by
    refine tell_of_kind fun hkind => ?_
    cases hkind with
    | identifier _ s' _ x' =>
    refine (tell_one fieldRow_inj).imp fun hx => ?_
    rw [unspanned, unspanned, Text.quote_inj hx]
  | .literal s v, m, d, _, hn, hm => by
    refine tell_of_kind fun hkind => ?_
    cases hkind with
    | literal _ s' _ v' =>
    obtain ⟨k, rfl⟩ := hn _ List.mem_cons_self
    obtain ⟨k', rfl⟩ := hm _ List.mem_cons_self
    rw [fieldRows, fieldRows, Number.text?, Number.text?]
    refine tell_text (fun t hk hk' => ?_) fieldRow_inj
    rw [unspanned, unspanned, Numeral.write?_inj hk hk']
  | .property s key v, m, d, hd, hn, hm => by
    refine tell_of_kind fun hkind => ?_
    cases hkind with
    | property _ s' _ key' _ v' =>
    simp only [preorder, List.forall_mem_cons] at hn hm
    refine (tell_one fieldRow_inj).cat fun hkey => ?_
    refine (tell_part (tell_rows v v' (by omega) hn.2 hm.2)).imp fun hv => ?_
    rw [unspanned, unspanned, Text.quote_inj hkey, hv]
  | .object s ps, m, d, hd, hn, hm => by
    refine tell_of_kind fun hkind => ?_
    cases hkind with
    | object _ s' _ ps' =>
    simp only [preorder, List.forall_mem_cons] at hn hm
    refine (tell_list (tell_items ps ps' hd hn.2 hm.2)).imp fun hps => ?_
    rw [unspanned, unspanned, hps]
  | .bare .., _, _, _, _, _ => ⟨fun ha => nomatch ha⟩
  | .filler _, _, _, _, _, _ => ⟨fun ha => nomatch ha⟩

theorem tell_items : ∀ (ns ms : List Node) {d : Int}, 0 ≤ d → (∀ k ∈ preorders ns, k.HasWhole) →
    (∀ k ∈ preorders ms, k.HasWhole) →
    Tell (bracketed d ns) (bracketed d ms) (unspannedEach ns = unspannedEach ms)
  | [], [], d, _, _, _ => by
    rw [bracketed_nil]
    exact tell_one fun _ => rfl
  | [], m :: ms, d, hd, _, _ => by
    rw [bracketed_nil, bracketed_cons]
    exact tell_bracket hd _
  | n :: ns, [], d, hd, _, _ => by
    rw [bracketed_nil, bracketed_cons]
    exact (tell_bracket hd _).symm
  | n :: ns, m :: ms, d, hd, hn, hm => by
    simp only [preorders, List.forall_mem_append] at hn hm
    rw [bracketed_cons, bracketed_cons]
    refine (tell_item hd (tell_rows n m (by omega) hn.1 hm.1)).cat fun hfirst => ?_
    refine (tell_items ns ms hd hn.2 hm.2).imp fun hrest => ?_
    rw [unspannedEach, unspannedEach, hfirst, hrest]

end

end Node

end TemplateScript
