import TemplateScript.Proofs.Conformance
import TemplateScript.Proofs.ScannedTokens

/-!
# Trees in source order

A tree that was read is written out again in the order of its source. Apart from parentheses, commas
and semicolons it gives each token of the program once and in its place, a number by its value.
-/

namespace TemplateScript

/-- Kinds of tokens that leave a part in the tree; the others group and separate. -/
def Token.Kind.inTree : Token.Kind → Bool
  | openParen | closeParen | comma | semicolon => false
  | _ => true

inductive Content where
  | text (s : String)
  | number (n : Number)

abbrev Item := Token.Kind × Content

namespace Token

def content (t : Token) : Content :=
  match t.kind, Numeral.read? t.text with
  | .number, some n => .number (.int n)
  | _, _ => .text t.text

def item (t : Token) : Item := (t.kind, t.content)

def spelled (t : Token) : Token := { t with text := t.kind.spelling?.getD t.text }

theorem content_of_ne_number {t : Token} (h : t.kind ≠ .number) : t.content = .text t.text := by
  unfold content
  split
  · contradiction
  · rfl

theorem spelled_eq_self {t : Token} (h : t.kind.spelling? = none) : t.spelled = t := by
  rw [spelled, h, Option.getD_none]

theorem ne_number_of_spelling {t : Token} {s : String} (h : t.kind.spelling? = some s) :
    t.kind ≠ .number := by
  intro hn
  rw [hn] at h
  cases h

theorem spelled_item {t : Token} {s : String} (h : t.kind.spelling? = some s) :
    t.spelled.item = (t.kind, .text s) := by
  have hn : t.spelled.kind ≠ .number := ne_number_of_spelling h
  rw [item, content_of_ne_number hn, spelled, h, Option.getD_some]

theorem spelled_item_eq {t : Token} : t.spelled.item = t.item ↔ t.Spelled := by
  cases h : t.kind.spelling? with
  | none =>
    rw [spelled_eq_self h]
    simp [Spelled, h]
  | some s =>
    rw [spelled_item h, item, content_of_ne_number (ne_number_of_spelling h), Spelled, h]
    simp [eq_comm]

end Token

def Token.Kind.mark (k : Token.Kind) : Item := (k, .text (k.spelling?.getD ""))

namespace Node

open Token.Kind (mark)

mutual

def yield : Node → List Item
  | program _ body => yieldEach body
  | declaration _ constant x v =>
    mark (if constant then .constWord else .letWord) :: (.identifier, .text x) ::
      if v.isAbsent then [] else mark .assign :: v.yield
  | assignment _ t v => t.yield ++ mark .assign :: v.yield
  | binary _ a op b => a.yield ++ (.operator, .text op) :: b.yield
  | member _ o p computed =>
    o.yield ++ if computed then mark .openBracket :: (p.yield ++ [mark .closeBracket])
      else mark .dot :: p.yield
  | call _ callee args => callee.yield ++ yieldEach args
  | identifier _ x => [(.identifier, .text x)]
  | literal _ n => [(.number, .number n)]
  | property _ key v =>
    (.identifier, .text key) :: if v.isAbsent then [] else mark .colon :: v.yield
  | object _ ps => mark .openBrace :: (yieldEach ps ++ [mark .closeBrace])
  | bare .. | filler _ => []

def yieldEach : List Node → List Item
  | [] => []
  | n :: ns => n.yield ++ yieldEach ns

end

end Node

def shown (ts : List Token) : List Token := ts.filter (·.kind.inTree)

def items (ts : List Token) : List Item := (shown ts).map (·.spelled.item)

section
variable {t : Token} {k : Token.Kind} {ts us : List Token}

@[simp] theorem items_nil : items [] = [] := rfl

@[simp] theorem items_append : items (ts ++ us) = items ts ++ items us := by
  simp [items, shown]

theorem items_hidden (hk : t.kind = k) (h : k.inTree = false) : items (t :: ts) = items ts := by
  simp [items, shown, hk, h]

theorem items_snoc_hidden (hk : t.kind = k) (h : k.inTree = false) :
    items (ts ++ [t]) = items ts := by
  rw [items_append, items_hidden hk h, items_nil, List.append_nil]

theorem items_shown (h : t.kind.inTree = true) : items (t :: ts) = t.spelled.item :: items ts := by
  simp [items, shown, h]

theorem items_mark (hk : t.kind = k) (hk' : k.inTree = true) (hs : k.spelling?.isSome = true) :
    items (t :: ts) = k.mark :: items ts := by
  obtain ⟨s, hs⟩ := Option.isSome_iff_exists.1 hs
  subst hk
  rw [items_shown hk', Token.spelled_item hs, Token.Kind.mark, hs, Option.getD_some]

theorem items_text (hk : t.kind = k) (hk' : k.inTree = true) (hs : k.spelling? = none)
    (hn : k ≠ .number) : items (t :: ts) = (k, .text t.text) :: items ts := by
  subst hk
  rw [items_shown hk', Token.spelled_eq_self hs, Token.item, Token.content_of_ne_number hn]

theorem items_number {n : Int} (hk : t.kind = .number) (hn : Numeral.read? t.text = some n) :
    items (t :: ts) = (.number, .number (.int n)) :: items ts := by
  have hs : t.kind.spelling? = none := by rw [hk]; rfl
  have hshown : t.kind.inTree = true := by rw [hk]; rfl
  rw [items_shown hshown, Token.spelled_eq_self hs, Token.item, Token.content, hk, hn]

end

namespace Grammar

open Node

theorem Derives.isAbsent {l : Level} {ts : List Token} {n : Node} (h : Derives l ts n) :
    n.isAbsent = false :=
  (h.isExpression (P := fun _ => True) fun _ _ _ _ _ => trivial).isAbsent

-- The recursion is that of the derivation: each rule adds the items of its own tokens, and those that
-- group and separate add none.
mutual

theorem Derives.yield_eq {l : Level} {ts : List Token} {n : Node} :
    Derives l ts n → n.yield = items ts
  | .identifier h => by
    rw [items_text h rfl rfl (by decide)]
    rfl
  | .number h hn => by
    rw [items_number h hn]
    rfl
  | .grouped ho h hc => by
    rw [items_hidden ho rfl, items_snoc_hidden hc rfl, h.yield_eq]
  | .lift h => h.yield_eq
  | .field ho hd hx => by
    have hx := hx.yield_eq
    rw [items_append, items_mark hd rfl rfl, ← ho.yield_eq, ← hx]
    rfl
  | .index ho hb hp hc => by
    rw [items_append, items_mark hb rfl rfl, items_append, items_mark hc rfl rfl,
      ← ho.yield_eq, ← hp.yield_eq]
    rfl
  | .call h hb ha hc => by
    rw [items_append, items_hidden hb rfl, items_snoc_hidden hc rfl, ← h.yield_eq, ← ha.yield_eq]
    rfl
  | .chain ha ht ho hb => by
    rw [items_append, items_text ht rfl rfl (by decide), ← ha.yield_eq, ← hb.yield_eq]
    rfl
  | .object hb h hc => by
    rw [items_mark hb rfl rfl, items_append, items_mark hc rfl rfl, ← h.yield_eq]
    rfl
  | .assignment ht he hv => by
    rw [items_append, items_mark he rfl rfl, ← ht.yield_eq, ← hv.yield_eq]
    rfl

theorem DerivesArguments.yield_eq {ts : List Token} {ns : List Node} :
    DerivesArguments ts ns → yieldEach ns = items ts
  | .none => rfl
  | .some h => h.yield_eq

theorem DerivesItems.yield_eq {ts : List Token} {ns : List Node} :
    DerivesItems ts ns → yieldEach ns = items ts
  | .last h => by simp [yieldEach, h.yield_eq]
  | .more h hc hs => by
    rw [items_append, items_hidden hc rfl, ← h.yield_eq, ← hs.yield_eq]
    rfl

theorem DerivesEntries.yield_eq {ts : List Token} {ps : List Node} :
    DerivesEntries ts ps → yieldEach ps = items ts
  | .none => rfl
  | .last h => by simp [yieldEach, h.yield_eq]
  | .more h hc hs => by
    rw [items_append, items_hidden hc rfl, ← h.yield_eq, ← hs.yield_eq]
    rfl

theorem DerivesEntry.yield_eq {ts : List Token} {p : Node} : DerivesEntry ts p → p.yield = items ts
  | .shorthand hk => by
    rw [items_text hk rfl rfl (by decide)]
    rfl
  | .keyed hk hc h => by
    rw [items_text hk rfl rfl (by decide), items_mark hc rfl rfl, ← h.yield_eq]
    simp [yield, h.isAbsent]

end

theorem DerivesStatement.yield_eq {ts : List Token} {n : Node} (h : DerivesStatement ts n) :
    n.yield = items ts := by
  cases h with
  | declaration hk hx hs =>
    rw [items_mark hk rfl rfl, items_text hx rfl rfl (by decide), items_hidden hs rfl]
    rfl
  | @initialised k x e s us v hk hx he hv hs =>
    have hword : items [k] =
        [Token.Kind.mark (if decide (k.kind = .constWord) then .constWord else .letWord)] := by
      rcases hk with hk | hk <;> rw [items_mark hk rfl rfl, hk] <;> rfl
    have hrest : items (x :: e :: (us ++ [s])) = (.identifier, .text x.text) ::
        Token.Kind.assign.mark :: v.yield := by
      rw [items_text hx rfl rfl (by decide), items_mark he rfl rfl, items_snoc_hidden hs rfl,
        hv.yield_eq]
    rw [← List.singleton_append, items_append, hword, hrest]
    simp [yield, hv.isAbsent]
  | expression h => exact h.yield_eq
  | ended h hs =>
    rw [items_snoc_hidden hs rfl, h.yield_eq]

theorem DerivesBody.yield_eq {ts : List Token} {ns : List Node} (h : DerivesBody ts ns) :
    yieldEach ns = items ts := by
  induction h with
  | nil => rfl
  | cons hn _ ih => rw [items_append, ← hn.yield_eq, ← ih]; rfl

end Grammar

namespace Token

theorem spelled_items_eq {ts : List Token} :
    ts.map (·.spelled.item) = ts.map item ↔ ∀ t ∈ ts, t.Spelled := by
  rw [List.map_inj_left]
  exact forall₂_congr fun _ _ => spelled_item_eq

end Token

/-- The tree of a program gives the tokens of the program in their order, apart from those that group
and separate; the texts are those of the kinds where the kind tells the text, and so the tokens have
the very items that the tree gives if and only if they have these texts, as all scanned ones. -/
theorem read_program_in_order {ts : List Token} {n : Node} (h : Node.ofTokens ts = .ok n) :
    n.yield = (shown (programTokens ts)).map (·.spelled.item) ∧
      (n.yield = (shown (programTokens ts)).map Token.item ↔
        ∀ t ∈ shown (programTokens ts), t.Spelled) ∧
      ∀ source file, ts = (scan source file).tokens →
        n.yield = (shown (programTokens ts)).map Token.item := by
  obtain ⟨s, body, rfl, hbody⟩ := Node.ofTokens_derives h
  have hitems : (Node.program s body).yield = items (programTokens ts) := hbody.yield_eq
  have hiff : items (programTokens ts) = (shown (programTokens ts)).map Token.item ↔
      ∀ t ∈ shown (programTokens ts), t.Spelled := Token.spelled_items_eq
  rw [hitems]
  refine ⟨rfl, hiff, fun source file hscan => hiff.2 fun t ht => ?_⟩
  subst hscan
  exact scan_spelled source file t (programTokens_subset _ (List.mem_filter.1 ht).1)

/-- The tokens of `const a=(1+b)*f(c,2);{k:a.b,m,};`. -/
def groupedTokens : List Token :=
  faceTokens [(.constWord, "const"), (.identifier, "a"), (.assign, "="), (.openParen, "("),
    (.number, "1"), (.operator, "+"), (.identifier, "b"), (.closeParen, ")"), (.operator, "*"),
    (.identifier, "f"), (.openParen, "("), (.identifier, "c"), (.comma, ","), (.number, "2"),
    (.closeParen, ")"), (.semicolon, ";"), (.openBrace, "\x7b"), (.identifier, "k"), (.colon, ":"),
    (.identifier, "a"), (.dot, "."), (.identifier, "b"), (.comma, ","), (.identifier, "m"),
    (.comma, ","), (.closeBrace, "\x7d"), (.semicolon, ";"), (.endMark, Token.endText)]

theorem grouped_in_order : ∃ n, Node.ofTokens groupedTokens = .ok n ∧
    n.yield = (shown (programTokens groupedTokens)).map Token.item := by
  have hsome : (Node.ofTokens groupedTokens).toOption.isSome = true := by decide +kernel
  obtain ⟨n, hn⟩ := Option.isSome_iff_exists.1 hsome
  have hread := eq_ok_of_toOption hn
  have hspelled : ∀ t ∈ shown (programTokens groupedTokens), t.Spelled := by
    simp [groupedTokens, faceTokens, programTokens, shown, Token.Spelled, Token.Kind.spelling?,
      Token.Kind.inTree]
  exact ⟨n, hread, (read_program_in_order hread).2.1.2 hspelled⟩

/-- The tokens of `a=1`, with another text on the assignment mark. -/
def respelledTokens : List Token :=
  faceTokens [(.identifier, "a"), (.assign, ":="), (.number, "1"), (.endMark, Token.endText)]

/-- A kind decides what is read, so a text that is not of the kind is not found in the tree. -/
theorem respelled_text_lost : ∃ n, Node.ofTokens respelledTokens = .ok n ∧
    n.yield ≠ (shown (programTokens respelledTokens)).map Token.item := by
  refine ⟨_, rfl, fun h => ?_⟩
  simp [respelledTokens, faceTokens, programTokens, shown, Token.item, Token.Kind.inTree,
    Token.content, Node.yield, Node.yieldEach, Token.Kind.mark, Token.Kind.spelling?] at h

end TemplateScript
