import TemplateScript.Proofs.Derivation

/-!
# The published grammar

The grammar as it is given to the writers of scripts, rule by rule, with options and repetitions and
without trees. It differs from the derivations in one place: behind a dot stands a name that is in
no parentheses. What the arguments of a call are is left open there; here they are expressions with
commas between them.
-/

namespace TemplateScript.Grammar

inductive Rule where
  | statement
  | varDecl
  | expr
  | assignment
  | object
  | prop
  | additive
  | multiplicative
  | callMember
  | args
  | member
  | primary
  deriving DecidableEq, Repr

inductive Ebnf where
  | token (k : Token.Kind)
  | operator (text : String)
  | rule (r : Rule)
  | seq (a b : Ebnf)
  | alt (a b : Ebnf)
  | opt (a : Ebnf)
  | many (a : Ebnf)
  deriving DecidableEq, Repr

namespace Ebnf

instance : Append Ebnf := ⟨seq⟩

instance : OrOp Ebnf := ⟨alt⟩

def separated (a : Ebnf) : Ebnf := a ++ many (token .comma ++ a)

end Ebnf

open Ebnf in
def published : Rule → Ebnf
  | .statement => rule .varDecl ||| rule .expr ++ opt (token .semicolon)
  | .varDecl =>
    (token .letWord ||| token .constWord) ++ token .identifier
      ++ opt (token .assign ++ rule .expr) ++ token .semicolon
  | .expr => rule .assignment
  | .assignment => rule .object ++ opt (token .assign ++ rule .assignment)
  | .object =>
    token .openBrace ++ opt (separated (rule .prop) ++ opt (token .comma)) ++ token .closeBrace
      ||| rule .additive
  | .prop => token .identifier ++ opt (token .colon ++ rule .expr)
  | .additive =>
    rule .multiplicative ++ many ((operator "+" ||| operator "-") ++ rule .multiplicative)
  | .multiplicative =>
    rule .callMember
      ++ many ((operator "*" ||| operator "/" ||| operator "%") ++ rule .callMember)
  | .callMember => rule .member ++ many (token .openParen ++ opt (rule .args) ++ token .closeParen)
  | .args => separated (rule .expr)
  | .member =>
    rule .primary ++ many (token .dot ++ token .identifier
      ||| token .openBracket ++ rule .expr ++ token .closeBracket)
  | .primary =>
    token .number ||| token .identifier ||| token .openParen ++ rule .expr ++ token .closeParen

inductive Ebnf.Matches : Ebnf → List Token → Prop
  | token {k : Token.Kind} {t : Token} : t.kind = k → Matches (.token k) [t]
  | operator {text : String} {t : Token} : t.kind = .operator → t.text = text →
      Matches (.operator text) [t]
  | rule {r : Rule} {ts : List Token} : Matches (published r) ts → Matches (.rule r) ts
  | seq {a b : Ebnf} {ts us : List Token} : Matches a ts → Matches b us →
      Matches (.seq a b) (ts ++ us)
  | left {a b : Ebnf} {ts : List Token} : Matches a ts → Matches (.alt a b) ts
  | right {a b : Ebnf} {ts : List Token} : Matches b ts → Matches (.alt a b) ts
  | none {a : Ebnf} : Matches (.opt a) []
  | some {a : Ebnf} {ts : List Token} : Matches a ts → Matches (.opt a) ts
  | nil {a : Ebnf} : Matches (.many a) []
  | cons {a : Ebnf} {ts us : List Token} : Matches a ts → Matches (.many a) us →
      Matches (.many a) (ts ++ us)

/-! ## Dots -/

def DotsNamed : List Token → Prop
  | [] => True
  | [t] => t.kind ≠ .dot
  | t :: u :: ts => (t.kind = .dot → u.kind = .identifier) ∧ DotsNamed (u :: ts)

def NamesBare (ts : List Token) : Prop :=
  ∀ d p, [d, p] <:+: ts → d.kind = .dot → p.kind ≠ .openParen

theorem NamesBare.of_infix {ts us : List Token} (h : NamesBare us) (hi : ts <:+: us) :
    NamesBare ts :=
  fun d p hdp => h d p (hdp.trans hi)

theorem DotsNamed.append : ∀ {ts us : List Token}, DotsNamed ts → DotsNamed us →
    DotsNamed (ts ++ us)
  | [], _, _, hu => hu
  | [_], [], ht, _ => ht
  | [_], _ :: _, ht, hu => ⟨fun hd => absurd hd ht, hu⟩
  | _ :: _ :: _, _, ht, hu => ⟨ht.1, ht.2.append hu⟩

theorem DotsNamed.namesBare : ∀ {ts : List Token}, DotsNamed ts → NamesBare ts
  | [], _, d, p, hi, _ => by simp at hi
  | [t], _, d, p, hi, _ => by
    have := hi.length_le
    simp at this
  | t :: u :: ts, ht, d, p, hi, hd => by
    rcases List.infix_cons_iff.1 hi with hpre | hi
    · obtain ⟨rfl, hrest⟩ := List.cons_prefix_cons.1 hpre
      obtain ⟨rfl, -⟩ := List.cons_prefix_cons.1 hrest
      simp [ht.1 hd]
    · exact ht.2.namesBare d p hi hd

def Ebnf.namesDots : Ebnf → Bool
  | token k => k ≠ .dot
  | operator _ | rule _ => true
  | seq a b =>
    decide (a = token .dot ∧ b = token .identifier) || a.namesDots && b.namesDots
  | alt a b => a.namesDots && b.namesDots
  | opt a | many a => a.namesDots

theorem published_namesDots (r : Rule) : (published r).namesDots = true := by
  cases r <;> rfl

theorem Ebnf.Matches.dotsNamed {e : Ebnf} {ts : List Token} (h : e.Matches ts)
    (he : e.namesDots = true) : DotsNamed ts := by
  induction h with
  | token hk =>
    simp only [namesDots, decide_eq_true_eq] at he
    simpa [DotsNamed, hk] using he
  | operator hk _ => simp [DotsNamed, hk]
  | rule _ ih => exact ih (published_namesDots _)
  | @seq a b ts us ha hb iha ihb =>
    simp only [namesDots, Bool.or_eq_true, decide_eq_true_eq, Bool.and_eq_true] at he
    rcases he with ⟨rfl, rfl⟩ | ⟨hna, hnb⟩
    · cases ha
      cases hb
      rename_i hname
      exact ⟨fun _ => hname, by simp [DotsNamed, hname]⟩
    · exact (iha hna).append (ihb hnb)
  | left _ ih =>
    simp only [namesDots, Bool.and_eq_true] at he
    exact ih he.1
  | right _ ih =>
    simp only [namesDots, Bool.and_eq_true] at he
    exact ih he.2
  | none | nil => trivial
  | some _ ih => exact ih he
  | cons _ _ iha ihb => exact (iha he).append (ihb he)

end TemplateScript.Grammar
