import TemplateScript.Proofs.PublishedGrammar
import TemplateScript.Proofs.ReadBack

/-!
# Programs and the published grammar

The tokens of a program that is read are derived, all of them, and the published grammar stands for
them too if and only if no parenthesis opens right behind a dot.
-/

namespace TemplateScript

namespace Grammar

def Level.rule : Level → Rule
  | primary => .primary
  | member => .member
  | call => .callMember
  | multiplicative => .multiplicative
  | additive => .additive
  | object => .object
  | assignment => .assignment

namespace Ebnf.Matches

variable {a b : Ebnf} {ts us : List Token}

theorem seq_nil (ha : a.Matches ts) (hb : b.Matches []) : (Ebnf.seq a b).Matches ts := by
  simpa using Matches.seq ha hb

theorem seq_cons {t : Token} (ha : a.Matches [t]) (hb : b.Matches us) :
    (Ebnf.seq a b).Matches (t :: us) := .seq ha hb

theorem single (ha : a.Matches ts) : (Ebnf.many a).Matches ts := by
  simpa using Matches.cons ha .nil

theorem snoc (h : (Ebnf.many a).Matches ts) (ha : a.Matches us) :
    (Ebnf.many a).Matches (ts ++ us) := by
  generalize he : Ebnf.many a = e at h
  induction h with
  | nil =>
    cases he
    exact single ha
  | cons hb _ _ ih =>
    cases he
    rw [List.append_assoc]
    exact .cons hb (ih rfl)
  | _ => cases he

/-- One more step behind a first part and its steps. -/
theorem step (h : (Ebnf.seq a (.many b)).Matches ts) (hb : b.Matches us) :
    (Ebnf.seq a (.many b)).Matches (ts ++ us) := by
  cases h with
  | seq ha hs =>
    rw [List.append_assoc]
    exact .seq ha (hs.snoc hb)

theorem separated_cons {c : Token} (ha : a.Matches ts) (hc : c.kind = .comma)
    (h : a.separated.Matches us) : a.separated.Matches (ts ++ c :: us) := by
  cases h with
  | @seq _ _ first more hfirst hmore =>
    have hitem : (Ebnf.token .comma ++ a).Matches (c :: first) := .seq (.token hc) hfirst
    exact .seq ha (.cons hitem hmore)

theorem separated_single (ha : a.Matches ts) : a.separated.Matches ts := ha.seq_nil .nil

end Ebnf.Matches

/-! ## From derivations to the published grammar -/

/-- A name that does not begin with a parenthesis is an identifier and no more. -/
theorem Derives.name_eq {l : Level} {ts : List Token} {n : Node} : Derives l ts n →
    l = .primary → (∃ s x, n = .identifier s x) → (∀ t ∈ ts.head?, t.kind ≠ .openParen) →
    ∃ t, ts = [t] ∧ t.kind = .identifier
  | .identifier h, _, _, _ => ⟨_, rfl, h⟩
  | .grouped h _ _, _, _, ht => absurd h (ht _ rfl)
  | .lift h, hl, hn, ht => h.name_eq (congrArg Level.below hl) hn ht
  | .number .., _, hn, _ => by
    obtain ⟨s, x, hn⟩ := hn
    cases hn
  | .field .., hl, _, _ | .index .., hl, _, _ | .call .., hl, _, _ | .object .., hl, _, _
  | .assignment .., hl, _, _ => by cases hl
  | .chain .., _, hn, _ => by
    obtain ⟨s, x, hn⟩ := hn
    cases hn

section
variable {ts us : List Token}

theorem NamesBare.front (h : NamesBare (ts ++ us)) : NamesBare ts :=
  h.of_infix (List.prefix_append ts us).isInfix

theorem NamesBare.back (h : NamesBare (ts ++ us)) : NamesBare us :=
  h.of_infix (List.suffix_append ts us).isInfix

theorem NamesBare.tail {t : Token} (h : NamesBare (t :: us)) : NamesBare us :=
  h.of_infix (List.suffix_cons t us).isInfix

theorem Level.matches_lift {l : Level} (h : (Ebnf.rule l.below.rule).Matches ts) :
    (Ebnf.rule l.rule).Matches ts := by
  cases l
  case primary => exact h
  case object => exact .rule (.right h)
  case assignment => exact .rule (h.seq_nil .none)
  all_goals exact .rule (h.seq_nil .nil)

theorem operator_matches {l : Level} {t : Token} (ht : t.kind = .operator)
    (h : t.text ∈ l.operators) (hu : (Ebnf.rule l.below.rule).Matches us)
    (ha : (Ebnf.rule l.rule).Matches ts) : (Ebnf.rule l.rule).Matches (ts ++ t :: us) := by
  cases ha with
  | rule ha =>
    cases l
    case multiplicative =>
      simp only [Level.operators, List.mem_cons, List.not_mem_nil, or_false] at h
      refine .rule (ha.step (.seq_cons ?_ hu))
      rcases h with h | h | h
      · exact .left (.left (.operator ht h))
      · exact .left (.right (.operator ht h))
      · exact .right (.operator ht h)
    case additive =>
      simp only [Level.operators, List.mem_cons, List.not_mem_nil, or_false] at h
      refine .rule (ha.step (.seq_cons ?_ hu))
      rcases h with h | h
      · exact .left (.operator ht h)
      · exact .right (.operator ht h)
    all_goals simp [Level.operators] at h

theorem NamesBare.head {d : Token} (h : NamesBare (d :: us)) (hd : d.kind = .dot) :
    ∀ p ∈ us.head?, p.kind ≠ .openParen := by
  intro p hp
  obtain ⟨more, rfl⟩ := List.head?_eq_some_iff.1 hp
  exact h d p ⟨[], more, rfl⟩ hd

theorem enclosed_matches {a : Ebnf} {j k : Token.Kind} {o c : Token} (ho : o.kind = j)
    (h : a.Matches ts) (hc : c.kind = k) :
    (Ebnf.seq (.seq (.token j) a) (.token k)).Matches (o :: (ts ++ [c])) :=
  have hopen : (Ebnf.seq (.token j) a).Matches (o :: ts) := .seq_cons (.token ho) h
  hopen.seq (.token hc)

theorem field_matches {d t : Token} (h : (Ebnf.rule .member).Matches ts) (hd : d.kind = .dot)
    (ht : t.kind = .identifier) : (Ebnf.rule .member).Matches (ts ++ [d, t]) := by
  cases h with
  | rule h => exact .rule (h.step (.left (.seq_cons (.token hd) (.token ht))))

theorem index_matches {b c : Token} (h : (Ebnf.rule .member).Matches ts)
    (hb : b.kind = .openBracket) (hp : (Ebnf.rule .assignment).Matches us)
    (hc : c.kind = .closeBracket) : (Ebnf.rule .member).Matches (ts ++ b :: (us ++ [c])) := by
  cases h with
  | rule h => exact .rule (h.step (.right (enclosed_matches hb (.rule hp) hc)))

theorem call_matches {b c : Token} (h : (Ebnf.rule .callMember).Matches ts)
    (hb : b.kind = .openParen) (ha : (Ebnf.opt (.rule .args)).Matches us)
    (hc : c.kind = .closeParen) : (Ebnf.rule .callMember).Matches (ts ++ b :: (us ++ [c])) := by
  cases h with
  | rule h => exact .rule (h.step (enclosed_matches hb ha hc))

theorem assignment_matches {e : Token} (ht : (Ebnf.rule .object).Matches ts) (he : e.kind = .assign)
    (hv : (Ebnf.rule .assignment).Matches us) :
    (Ebnf.rule .assignment).Matches (ts ++ e :: us) :=
  .rule (.seq ht (.some (.seq_cons (.token he) hv)))

/-- Entries ahead of one more, with the comma that may follow the last. -/
theorem entries_cons {c : Token} (hp : (Ebnf.rule .prop).Matches ts) (hc : c.kind = .comma)
    (h : (Ebnf.opt ((Ebnf.rule .prop).separated ++ .opt (.token .comma))).Matches us) :
    ((Ebnf.rule .prop).separated ++ .opt (.token .comma)).Matches (ts ++ c :: us) := by
  cases h with
  | none => exact .seq hp.separated_single (.some (.token hc))
  | some h =>
    cases h with
    | @seq _ _ items last hitems hlast =>
      have hmore := hp.separated_cons hc hitems
      have hall := Ebnf.Matches.seq hmore hlast
      rw [List.append_assoc, List.cons_append] at hall
      exact hall

end

mutual

theorem Derives.matches {l : Level} {ts : List Token} {n : Node} :
    Derives l ts n → NamesBare ts → (Ebnf.rule l.rule).Matches ts
  | .identifier h, _ => .rule (.left (.right (.token h)))
  | .number h _, _ => .rule (.left (.left (.token h)))
  | .grouped ho h hc, hd =>
    .rule (.right (enclosed_matches ho (.rule (h.matches hd.tail.front)) hc))
  | .lift h, hd => Level.matches_lift (h.matches hd)
  | .field h hdot hx, hd => by
    obtain ⟨t, rfl, ht⟩ := hx.name_eq rfl ⟨_, _, rfl⟩ (hd.back.head hdot)
    exact field_matches (h.matches hd.front) hdot ht
  | .index h hb hp hc, hd =>
    index_matches (h.matches hd.front) hb (hp.matches hd.back.tail.front) hc
  | .call h hb ha hc, hd =>
    call_matches (h.matches hd.front) hb (ha.matches hd.back.tail.front) hc
  | .chain h ht ho hb, hd =>
    operator_matches ht ho (hb.matches hd.back.tail) (h.matches hd.front)
  | .object hb h hc, hd => .rule (.left (enclosed_matches hb (h.matches hd.tail.front) hc))
  | .assignment h he hv, hd =>
    assignment_matches (h.matches hd.front) he (hv.matches hd.back.tail)

theorem DerivesArguments.matches {ts : List Token} {ns : List Node} :
    DerivesArguments ts ns → NamesBare ts → (Ebnf.opt (.rule .args)).Matches ts
  | .none, _ => .none
  | .some h, hd => .some (.rule (h.matches hd))

theorem DerivesItems.matches {ts : List Token} {ns : List Node} :
    DerivesItems ts ns → NamesBare ts → (Ebnf.rule .expr).separated.Matches ts
  | .last h, hd => Ebnf.Matches.separated_single (.rule (h.matches hd))
  | .more h hc hs, hd =>
    Ebnf.Matches.separated_cons (.rule (h.matches hd.front)) hc (hs.matches hd.back.tail)

theorem DerivesEntries.matches {ts : List Token} {ps : List Node} :
    DerivesEntries ts ps → NamesBare ts →
      (Ebnf.opt ((Ebnf.rule .prop).separated ++ .opt (.token .comma))).Matches ts
  | .none, _ => .none
  | .last h, hd => .some ((h.matches hd).separated_single.seq_nil .none)
  | .more h hc hs, hd => .some (entries_cons (h.matches hd.front) hc (hs.matches hd.back.tail))

theorem DerivesEntry.matches {ts : List Token} {p : Node} :
    DerivesEntry ts p → NamesBare ts → (Ebnf.rule .prop).Matches ts
  | .shorthand hk, _ => .rule (.seq_nil (.token hk) .none)
  | .keyed hk hc h, hd =>
    .rule (.seq_cons (.token hk)
      (.some (.seq_cons (.token hc) (.rule (h.matches hd.tail.tail)))))

end

theorem DerivesStatement.matches {ts : List Token} {n : Node} (h : DerivesStatement ts n)
    (hd : NamesBare ts) : (Ebnf.rule .statement).Matches ts := by
  cases h with
  | @declaration k x s hk hx hs =>
    have hword : (Ebnf.alt (.token .letWord) (.token .constWord)).Matches [k] := .left (.token hk)
    have hnone : (Ebnf.opt (.seq (.token .assign) (.rule .expr))).Matches [] := .none
    have hdecl := ((hword.seq (.token hx)).seq hnone).seq (.token hs)
    exact .rule (.left (.rule hdecl))
  | @initialised k x e s us v hk hx he hv hs =>
    have hword : (Ebnf.alt (.token .letWord) (.token .constWord)).Matches [k] :=
      hk.elim (fun h => .left (.token h)) fun h => .right (.token h)
    have hexpr : (Ebnf.rule .expr).Matches us := .rule (hv.matches hd.tail.tail.tail.front)
    have hvalue : (Ebnf.opt (.seq (.token .assign) (.rule .expr))).Matches (e :: us) :=
      .some (.seq_cons (.token he) hexpr)
    have hdecl := ((hword.seq (.token hx)).seq hvalue).seq (.token hs)
    exact .rule (.left (.rule hdecl))
  | expression h => exact .rule (.right (.seq_nil (.rule (h.matches hd)) .none))
  | ended h hs => exact .rule (.right (.seq (.rule (h.matches hd.front)) (.some (.token hs))))

theorem DerivesBody.matches {ts : List Token} {ns : List Node} (h : DerivesBody ts ns)
    (hd : NamesBare ts) : (Ebnf.many (.rule .statement)).Matches ts := by
  induction h with
  | nil => exact .nil
  | cons hn _ ih => exact .cons (hn.matches hd.front) (ih hd.back)

end Grammar

/-! ## The tokens of a program -/

/-- The tokens between the first open tag and the first close tag behind it; without an open tag,
all but the last. -/
def programTokens (ts : List Token) : List Token :=
  if ts.any (·.kind = .openTag) then
    (ts.dropWhile (·.kind ≠ .openTag)).tail.takeWhile (·.kind ≠ .closeTag)
  else ts.dropLast

theorem programTokens_subset (ts : List Token) : programTokens ts ⊆ ts := by
  unfold programTokens
  split
  · intro t ht
    exact List.dropWhile_subset _ (List.mem_of_mem_tail (List.takeWhile_subset _ ht))
  · exact List.dropLast_subset _

namespace Cursor

theorem behind_openTag {ts : List Token} {i : Nat} (h : ts.findIdx? (·.kind = .openTag) = some i) :
    ts.any (·.kind = .openTag) = true ∧
      (ts.dropWhile (·.kind ≠ .openTag)).tail = ts.drop (i + 1) := by
  obtain ⟨hlt, htag, -⟩ := List.findIdx?_eq_some_iff_getElem.1 h
  obtain ⟨-, hopen⟩ := List.findIdx?_eq_some_iff_findIdx_eq.1 h
  refine ⟨List.any_eq_true.2 ⟨ts[i], List.getElem_mem hlt, htag⟩, ?_⟩
  rw [List.dropWhile_eq_drop_findIdx_not, List.tail_drop]
  simp [hopen]

theorem rest_of_region? {ts : List Token} {pos stop : Nat}
    (h : region? ts = some (pos, some stop)) : rest ⟨ts, pos, stop⟩ = programTokens ts := by
  obtain ⟨i, hi, hij⟩ := Option.map_eq_some_iff.1 h
  obtain ⟨rfl, hstop⟩ := Prod.mk.inj hij
  obtain ⟨j, hj, rfl⟩ := Option.map_eq_some_iff.1 hstop
  obtain ⟨hany, hbehind⟩ := behind_openTag hi
  obtain ⟨-, hclose⟩ := List.findIdx?_eq_some_iff_findIdx_eq.1 hj
  rw [programTokens, if_pos hany, hbehind, List.takeWhile_eq_take_findIdx_not, Cursor.rest,
    List.drop_take]
  simp [hclose]

theorem enter_rest {ts : List Token} {c : Cursor} (h : (ofTokens ts).enter = .ok c) :
    c.rest = programTokens ts := by
  unfold enter at h
  simp only [ofTokens] at h
  split at h
  · cases h
  split at h
  · cases h
  split at h
  · rename_i hnone
    cases h
    have hany : ts.any (·.kind = .openTag) = false := by
      simpa [region?] using hnone
    simp [Cursor.rest, programTokens, hany, List.dropLast_eq_take]
  · cases h
  · rename_i hregion
    cases h
    exact rest_of_region? hregion

end Cursor

namespace Node

theorem ofTokens_derives {ts : List Token} {n : Node} (h : ofTokens ts = .ok n) :
    ∃ s body, n = .program s body ∧ Grammar.DerivesBody (programTokens ts) body := by
  obtain ⟨c, stop, he, -, hprogram⟩ := ofTokens_ok h
  rw [Cursor.enter_rest he] at hprogram
  obtain ⟨-, body, rfl, hbody⟩ := Grammar.program_sound hprogram
  exact ⟨_, body, rfl, hbody⟩

end Node

/-- All tokens of a program that is read derive its statements, and they are statements of the
published grammar too if and only if no parenthesis opens right behind a dot. -/
theorem read_program_published {ts : List Token} {n : Node} (h : Node.ofTokens ts = .ok n) :
    (∃ s body, n = .program s body ∧ Grammar.DerivesBody (programTokens ts) body) ∧
      ((Grammar.Ebnf.many (.rule .statement)).Matches (programTokens ts) ↔
        Grammar.NamesBare (programTokens ts)) := by
  obtain ⟨s, body, rfl, hbody⟩ := Node.ofTokens_derives h
  refine ⟨⟨s, body, rfl, hbody⟩, fun hm => ?_, hbody.matches⟩
  have hdots : Grammar.DotsNamed (programTokens ts) := hm.dotsNamed rfl
  exact hdots.namesBare

def faceTokens (fs : List Face) : List Token := fs.map fun f => ⟨f.1, f.2, .point (.first none)⟩

/-- The tokens of `x<trans>a.b(c,d)</trans>`. -/
def bareFieldTokens : List Token :=
  faceTokens [(.identifier, "x"), (.openTag, "<trans>"), (.identifier, "a"), (.dot, "."),
    (.identifier, "b"), (.openParen, "("), (.identifier, "c"), (.comma, ","), (.identifier, "d"),
    (.closeParen, ")"), (.closeTag, "</trans>"), (.endMark, Token.endText)]

theorem bareField_published : (∃ n, Node.ofTokens bareFieldTokens = .ok n) ∧
    (Grammar.Ebnf.many (.rule .statement)).Matches (programTokens bareFieldTokens) := by
  have hdots : Grammar.DotsNamed (programTokens bareFieldTokens) := by
    simp [bareFieldTokens, faceTokens, programTokens, Grammar.DotsNamed]
  refine ⟨⟨_, rfl⟩, ?_⟩
  have hread : Node.ofTokens bareFieldTokens = .ok _ := rfl
  exact (read_program_published hread).2.2 hdots.namesBare

/-- The tokens of `a.(b)`. -/
def enclosedFieldTokens : List Token :=
  faceTokens [(.identifier, "a"), (.dot, "."), (.openParen, "("), (.identifier, "b"),
    (.closeParen, ")"), (.endMark, Token.endText)]

/-- A name in parentheses is read behind a dot, where the published grammar has none. -/
theorem enclosedField_unpublished : (∃ n, Node.ofTokens enclosedFieldTokens = .ok n) ∧
    ¬ (Grammar.Ebnf.many (.rule .statement)).Matches (programTokens enclosedFieldTokens) := by
  refine ⟨⟨_, rfl⟩, fun hm => ?_⟩
  have hdots : Grammar.DotsNamed (programTokens enclosedFieldTokens) := hm.dotsNamed rfl
  simp [enclosedFieldTokens, faceTokens, programTokens, Grammar.DotsNamed] at hdots

end TemplateScript
