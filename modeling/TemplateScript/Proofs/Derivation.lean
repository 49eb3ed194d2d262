import TemplateScript.Node.Grammar
import TemplateScript.Proofs.TreeShape

/-!
# Derivations of scripts

The grammar of scripts as a relation between tokens and trees, apart from how they are read. An
expression of a level is one of the level below it or is joined by what is particular to the level;
behind a dot stands a name, which may be in parentheses.
-/

namespace TemplateScript.Grammar

/-- The levels of precedence, from the tightest. -/
inductive Level where
  | primary
  | member
  | call
  | multiplicative
  | additive
  | object
  | assignment
  deriving DecidableEq, Repr

namespace Level

def below : Level → Level
  | primary => primary
  | member => primary
  | call => member
  | multiplicative => call
  | additive => multiplicative
  | object => additive
  | assignment => object

def operators : Level → List String
  | multiplicative => ["*", "/", "%"]
  | additive => ["+", "-"]
  | _ => []

end Level

mutual

inductive Derives : Level → List Token → Node → Prop
  | identifier {t : Token} : t.kind = .identifier → Derives .primary [t] (.identifier t.span t.text)
  | number {t : Token} {n : Int} : t.kind = .number → Numeral.read? t.text = some n →
      Derives .primary [t] (.literal t.span (.int n))
  | grouped {o c : Token} {ts : List Token} {n : Node} : o.kind = .openParen →
      Derives .assignment ts n → c.kind = .closeParen → Derives .primary (o :: (ts ++ [c])) n
  | lift {l : Level} {ts : List Token} {n : Node} : Derives l.below ts n → Derives l ts n
  | field {d : Token} {ts us : List Token} {o : Node} {s : Option Span} {x : String} :
      Derives .member ts o → d.kind = .dot → Derives .primary us (.identifier s x) →
      Derives .member (ts ++ d :: us) (.member (spanTo o s) o (.identifier s x) false)
  | index {b c : Token} {ts us : List Token} {o p : Node} : Derives .member ts o →
      b.kind = .openBracket → Derives .assignment us p → c.kind = .closeBracket →
      Derives .member (ts ++ b :: (us ++ [c])) (.member (spanTo o c.span) o p true)
  | call {b c : Token} {ts us : List Token} {callee : Node} {args : List Node} :
      Derives .call ts callee → b.kind = .openParen → DerivesArguments us args →
      c.kind = .closeParen →
      Derives .call (ts ++ b :: (us ++ [c])) (.call (spanTo callee c.span) callee args)
  | chain {l : Level} {t : Token} {ts us : List Token} {a b : Node} : Derives l ts a →
      t.kind = .operator → t.text ∈ l.operators → Derives l.below us b →
      Derives l (ts ++ t :: us) (.binary (spanTo a b.span) a t.text b)
  | object {b c : Token} {ts : List Token} {ps : List Node} : b.kind = .openBrace →
      DerivesEntries ts ps → c.kind = .closeBrace →
      Derives .object (b :: (ts ++ [c])) (.object (b.span.through c.span) ps)
  | assignment {e : Token} {ts us : List Token} {t v : Node} : Derives .object ts t →
      e.kind = .assign → Derives .assignment us v →
      Derives .assignment (ts ++ e :: us) (.assignment (spanTo t v.span) t v)

inductive DerivesArguments : List Token → List Node → Prop
  | none : DerivesArguments [] []
  | some {ts : List Token} {ns : List Node} : DerivesItems ts ns → DerivesArguments ts ns

inductive DerivesItems : List Token → List Node → Prop
  | last {ts : List Token} {n : Node} : Derives .assignment ts n → DerivesItems ts [n]
  | more {c : Token} {ts us : List Token} {n : Node} {ns : List Node} : Derives .assignment ts n →
      c.kind = .comma → DerivesItems us ns → DerivesItems (ts ++ c :: us) (n :: ns)

inductive DerivesEntries : List Token → List Node → Prop
  | none : DerivesEntries [] []
  | last {ts : List Token} {p : Node} : DerivesEntry ts p → DerivesEntries ts [p]
  | more {c : Token} {ts us : List Token} {p : Node} {ps : List Node} : DerivesEntry ts p →
      c.kind = .comma → DerivesEntries us ps → DerivesEntries (ts ++ c :: us) (p :: ps)

inductive DerivesEntry : List Token → Node → Prop
  | shorthand {k : Token} : k.kind = .identifier →
      DerivesEntry [k] (.property k.span k.text .absent)
  | keyed {k c : Token} {ts : List Token} {v : Node} : k.kind = .identifier → c.kind = .colon →
      Derives .assignment ts v →
      DerivesEntry (k :: c :: ts) (.property (v.span.map k.span.through) k.text v)

end

inductive DerivesStatement : List Token → Node → Prop
  | declaration {k x s : Token} : k.kind = .letWord → x.kind = .identifier → s.kind = .semicolon →
      DerivesStatement [k, x, s] (.declaration (k.span.through s.span) false x.text .absent)
  | initialised {k x e s : Token} {ts : List Token} {v : Node} :
      k.kind = .letWord ∨ k.kind = .constWord → x.kind = .identifier → e.kind = .assign →
      Derives .assignment ts v → s.kind = .semicolon →
      DerivesStatement (k :: x :: e :: (ts ++ [s]))
        (.declaration (k.span.through s.span) (k.kind = .constWord) x.text v)
  | expression {ts : List Token} {n : Node} : Derives .assignment ts n → DerivesStatement ts n
  | ended {s : Token} {ts : List Token} {n : Node} : Derives .assignment ts n →
      s.kind = .semicolon → DerivesStatement (ts ++ [s]) n

inductive DerivesBody : List Token → List Node → Prop
  | nil : DerivesBody [] []
  | cons {ts us : List Token} {n : Node} {ns : List Node} : DerivesStatement ts n →
      DerivesBody us ns → DerivesBody (ts ++ us) (n :: ns)

/-! ## First tokens -/

def Level.Begins (l : Level) (t : Token) : Prop :=
  t.kind = .identifier ∨ t.kind = .number ∨ t.kind = .openParen ∨
    (l = .object ∨ l = .assignment) ∧ t.kind = .openBrace

theorem Level.Begins.of_below {l : Level} {t : Token} (h : l.below.Begins t) : l.Begins t := by
  rcases h with h | h | h | ⟨hl, h⟩
  · exact Or.inl h
  · exact Or.inr (Or.inl h)
  · exact Or.inr (Or.inr (Or.inl h))
  · refine Or.inr (Or.inr (Or.inr ⟨?_, h⟩))
    cases l <;> simp_all [Level.below]

theorem Derives.begins {l : Level} {ts : List Token} {n : Node} :
    Derives l ts n → ∃ t us, ts = t :: us ∧ l.Begins t
  | .identifier h => ⟨_, _, rfl, Or.inl h⟩
  | .number h _ => ⟨_, _, rfl, Or.inr (Or.inl h)⟩
  | .grouped h _ _ => ⟨_, _, rfl, Or.inr (Or.inr (Or.inl h))⟩
  | .object h _ _ => ⟨_, _, rfl, Or.inr (Or.inr (Or.inr ⟨Or.inl rfl, h⟩))⟩
  | .lift h => by
    obtain ⟨t, us, rfl, ht⟩ := h.begins
    exact ⟨t, us, rfl, ht.of_below⟩
  | .field h _ _ | .index h _ _ _ | .call h _ _ _ | .chain h _ _ _ => by
    obtain ⟨t, us, rfl, ht⟩ := h.begins
    exact ⟨t, _, rfl, ht⟩
  | .assignment h _ _ => by
    obtain ⟨t, us, rfl, ht⟩ := h.begins
    exact ⟨t, _, rfl, Level.Begins.of_below ht⟩

theorem Derives.ne_nil {l : Level} {ts : List Token} {n : Node} (h : Derives l ts n) : ts ≠ [] := by
  obtain ⟨t, us, rfl, -⟩ := h.begins
  simp

theorem DerivesItems.begins {ts : List Token} {ns : List Node} (h : DerivesItems ts ns) :
    ∃ t us, ts = t :: us ∧ Level.assignment.Begins t := by
  cases h with
  | last hn => exact hn.begins
  | more hn _ _ =>
    obtain ⟨t, us, rfl, ht⟩ := hn.begins
    exact ⟨t, _, rfl, ht⟩

theorem DerivesEntry.begins {ts : List Token} {p : Node} (h : DerivesEntry ts p) :
    ∃ t us, ts = t :: us ∧ t.kind = .identifier := by
  cases h with
  | shorthand hk => exact ⟨_, _, rfl, hk⟩
  | keyed hk _ _ => exact ⟨_, _, rfl, hk⟩

/-! ## Trees that are derived have the shape of script trees -/

section
variable {P : Int → Prop}

def Literals (P : Int → Prop) (ts : List Token) : Prop :=
  ∀ t ∈ ts, t.kind = .number → ∀ n, Numeral.read? t.text = some n → P n

theorem Literals.append {ts us : List Token} :
    Literals P (ts ++ us) ↔ Literals P ts ∧ Literals P us := by
  simp [Literals, or_imp, forall_and]

theorem Literals.cons {t : Token} {ts : List Token} (h : Literals P (t :: ts)) : Literals P ts :=
  fun u hu => h u (List.mem_cons_of_mem _ hu)

theorem Level.operators_subset (l : Level) : l.operators ⊆ Node.operators := by
  cases l <;> simp [Level.operators, Node.operators]

mutual

theorem Derives.isExpression {l : Level} {ts : List Token} {n : Node} :
    Derives l ts n → Literals P ts → Node.IsExpression P n
  | .identifier _, _ => .identifier _ _
  | .number h hn, hP => .literal _ (hP _ (by simp) h _ hn)
  | .grouped _ h _, hP => h.isExpression (Literals.append.1 hP.cons).1
  | .lift h, hP => h.isExpression hP
  | .field h _ _, hP => .field _ _ _ (h.isExpression (Literals.append.1 hP).1)
  | .index h _ hp _, hP =>
    have hP := Literals.append.1 hP
    .index _ (h.isExpression hP.1) (hp.isExpression (Literals.append.1 hP.2.cons).1)
  | .call h _ ha _, hP =>
    have hP := Literals.append.1 hP
    .call _ (h.isExpression hP.1) (ha.isExpression (Literals.append.1 hP.2.cons).1)
  | .chain h _ ho hb, hP =>
    have hP := Literals.append.1 hP
    .binary _ (h.isExpression hP.1) (Level.operators_subset _ ho) (hb.isExpression hP.2.cons)
  | .object _ h _, hP => .object _ (h.isEntry (Literals.append.1 hP.cons).1)
  | .assignment h _ hv, hP =>
    have hP := Literals.append.1 hP
    .assignment _ (h.isExpression hP.1) (hv.isExpression hP.2.cons)

theorem DerivesArguments.isExpression {ts : List Token} {ns : List Node} :
    DerivesArguments ts ns → Literals P ts → ∀ n ∈ ns, Node.IsExpression P n
  | .none, _ => by simp
  | .some h, hP => h.isExpression hP

theorem DerivesItems.isExpression {ts : List Token} {ns : List Node} :
    DerivesItems ts ns → Literals P ts → ∀ n ∈ ns, Node.IsExpression P n
  | .last h, hP => by simpa using h.isExpression hP
  | .more h _ hs, hP => by
    have hP := Literals.append.1 hP
    have hn := h.isExpression hP.1
    have hns := hs.isExpression hP.2.cons
    simpa using ⟨hn, hns⟩

theorem DerivesEntries.isEntry {ts : List Token} {ps : List Node} :
    DerivesEntries ts ps → Literals P ts → ∀ p ∈ ps, Node.IsEntry P p
  | .none, _ => by simp
  | .last h, hP => by simpa using h.isEntry hP
  | .more h _ hs, hP => by
    have hP := Literals.append.1 hP
    have hp := h.isEntry hP.1
    have hps := hs.isEntry hP.2.cons
    simpa using ⟨hp, hps⟩

theorem DerivesEntry.isEntry {ts : List Token} {p : Node} :
    DerivesEntry ts p → Literals P ts → Node.IsEntry P p
  | .shorthand _, _ => .shorthand _ _
  | .keyed _ _ h, hP => .keyed _ _ (h.isExpression hP.cons.cons)

end

theorem DerivesStatement.isStatement {ts : List Token} {n : Node} (h : DerivesStatement ts n)
    (hP : Literals P ts) : Node.IsStatement P n := by
  cases h with
  | declaration => exact .declaration _ _
  | initialised _ _ _ h _ =>
    exact .initialised _ _ _ (h.isExpression (Literals.append.1 hP.cons.cons.cons).1)
  | expression h => exact .expression (h.isExpression hP)
  | ended h _ => exact .expression (h.isExpression (Literals.append.1 hP).1)

theorem DerivesBody.isStatement {ts : List Token} {ns : List Node} (h : DerivesBody ts ns)
    (hP : Literals P ts) : ∀ n ∈ ns, Node.IsStatement P n := by
  induction h with
  | nil => simp
  | cons hn _ ih =>
    have hP := Literals.append.1 hP
    simpa using ⟨hn.isStatement hP.1, ih hP.2⟩

end

end TemplateScript.Grammar
