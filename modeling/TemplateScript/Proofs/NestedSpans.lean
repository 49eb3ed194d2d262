import TemplateScript.Proofs.NodeSpans
import TemplateScript.Proofs.Positions

/-!
# Spans nest

The tokens of a program are strung along its text. Each node joins some spans that lie along them,
from the first to the last, and its parts are among these; so a node lies over its parts, and the
parts follow one another. Literals of objects and declarations also have their marks at both ends.
-/

namespace TemplateScript

structure Strung (ts : List Token) : Prop where
  nonempty : ∀ t ∈ ts, t.span.start.offset < t.span.stop.offset
  ordered : ts.Pairwise Token.Precedes

section
variable {ts us : List Token}

theorem Strung.sublist (h : Strung ts) (hus : us.Sublist ts) : Strung us :=
  ⟨fun t ht => h.nonempty t (hus.subset ht), h.ordered.sublist hus⟩

end

namespace Span

variable {ts us : List Token} {s t : Span} {ss rs : List Span}

def Within (s t : Span) : Prop := t.start.offset ≤ s.start.offset ∧ s.stop.offset ≤ t.stop.offset

def Ahead (s t : Span) : Prop := s.stop.offset ≤ t.start.offset

theorem Joins.nonempty (h : s.Joins ts) (hts : Strung ts) : s.start.offset < s.stop.offset := by
  obtain ⟨us, a, b, hus, ha, hb, rfl⟩ := h
  have hus := hts.sublist hus
  obtain ⟨vs, rfl⟩ := List.head?_eq_some_iff.1 ha
  have hfirst := hus.nonempty a List.mem_cons_self
  rcases List.mem_cons.1 (List.mem_of_getLast? hb) with rfl | hmem
  · exact hfirst
  · have hab : a.span.stop.offset ≤ b.span.start.offset :=
      (List.pairwise_cons.1 hus.ordered).1 b hmem
    have hlast := hus.nonempty b (List.mem_of_getLast? hb)
    exact Int.lt_trans hfirst (Int.lt_of_le_of_lt hab hlast)

theorem Joins.ahead (h : s.Joins ts) (h' : t.Joins us) (hts : Strung (ts ++ us)) : s.Ahead t := by
  obtain ⟨vs, a, b, hvs, -, hb, rfl⟩ := h
  obtain ⟨ws, c, d, hws, hc, -, rfl⟩ := h'
  exact (List.pairwise_append.1 hts.ordered).2.2 b (hvs.subset (List.mem_of_getLast? hb)) c
    (hws.subset (List.mem_of_head? hc))

inductive Along : List Token → List Span → Prop
  | nil (ts : List Token) : Along ts []
  | cons {ts us : List Token} {s : Span} {ss : List Span} : s.Joins ts → Along us ss →
      Along (ts ++ us) (s :: ss)

theorem Along.mono (h : Along ts ss) (hts : ts.Sublist us) : Along us ss := by
  induction h generalizing us with
  | nil => exact .nil us
  | cons hs _ ih =>
    obtain ⟨vs, ws, rfl, hvs, hws⟩ := List.append_sublist_iff.1 hts
    exact .cons (hs.mono hvs) (ih hws)

theorem Along.append (h : Along ts ss) (h' : Along us rs) : Along (ts ++ us) (ss ++ rs) := by
  induction h with
  | nil ts => exact h'.mono (List.sublist_append_right ts us)
  | cons hs _ ih =>
    rw [List.append_assoc]
    exact .cons hs ih

theorem Joins.along (h : s.Joins ts) : Along ts [s] := by
  have halong := Along.cons h (.nil [])
  rwa [List.append_nil] at halong

theorem along_token (t : Token) : Along [t] [t.span] := (joins_self t).along

theorem Along.joins (h : Along ts ss) : ∀ s ∈ ss, s.Joins ts := by
  induction h with
  | nil => simp
  | @cons ts us s ss hs _ ih =>
    refine List.forall_mem_cons.2 ⟨hs.mono (List.sublist_append_left ts us), fun t ht => ?_⟩
    exact (ih t ht).mono (List.sublist_append_right ts us)

theorem Along.ordered (h : Along ts ss) (hts : Strung ts) : ss.Pairwise Ahead := by
  induction h with
  | nil => exact .nil
  | @cons ts us s ss hs h ih =>
    refine List.pairwise_cons.2 ⟨fun t ht => hs.ahead (h.joins t ht) hts, ?_⟩
    exact ih (hts.sublist (List.sublist_append_right ts us))

/-- The span from the first to the last of some spans in order lies over all of them. -/
theorem Along.within (h : Along ts ss) (hts : Strung ts) {a b : Span} (ha : ss.head? = some a)
    (hb : ss.getLast? = some b) : ∀ s ∈ ss, s.Within (a.through b) := by
  have hne : ∀ s ∈ ss, s.start.offset < s.stop.offset := fun s hs => (h.joins s hs).nonempty hts
  have hord := h.ordered hts
  intro s hs
  have hfirst : a.start.offset ≤ s.start.offset := by
    obtain ⟨rs, rfl⟩ := List.head?_eq_some_iff.1 ha
    rcases List.mem_cons.1 hs with rfl | hmem
    · exact Int.le_refl _
    · have hahead : a.stop.offset ≤ s.start.offset := (List.pairwise_cons.1 hord).1 s hmem
      have hpos := hne a List.mem_cons_self
      omega
  have hlast : s.stop.offset ≤ b.stop.offset := by
    obtain ⟨rs, rfl⟩ := List.getLast?_eq_some_iff.1 hb
    rcases List.mem_append.1 hs with hmem | hmem
    · have hahead : s.stop.offset ≤ b.start.offset :=
        (List.pairwise_append.1 hord).2.2 s hmem b List.mem_cons_self
      have hpos := hne b (List.mem_append_right rs List.mem_cons_self)
      omega
    · obtain rfl := List.mem_singleton.1 hmem
      exact Int.le_refl _
  exact ⟨hfirst, hlast⟩

end Span

/-! ## Marks at both ends -/

inductive Balanced : List Token → Prop
  | nil : Balanced []
  | plain {t : Token} {ts : List Token} : t.kind ≠ .openBrace → t.kind ≠ .closeBrace →
      Balanced ts → Balanced (t :: ts)
  | braces {o c : Token} {ts us : List Token} : o.kind = .openBrace → Balanced ts →
      c.kind = .closeBrace → Balanced us → Balanced (o :: (ts ++ c :: us))

theorem Balanced.append {ts us : List Token} (h : Balanced ts) (h' : Balanced us) :
    Balanced (ts ++ us) := by
  induction h with
  | nil => exact h'
  | plain ho hc _ ih => exact .plain ho hc ih
  | braces ho hin hc _ _ ih =>
    rw [List.cons_append, List.append_assoc, List.cons_append]
    exact .braces ho hin hc ih

structure Whole (ts : List Token) : Prop where
  balanced : Balanced ts
  unended : ∀ t ∈ ts, t.kind ≠ .semicolon

namespace Whole

variable {ts us : List Token} {t : Token} {k : Token.Kind}

theorem nil : Whole [] := ⟨.nil, by simp⟩

theorem cons (hk : t.kind = k) (h : Whole ts)
    (hplain : k ≠ .openBrace ∧ k ≠ .closeBrace ∧ k ≠ .semicolon := by decide) :
    Whole (t :: ts) := by
  subst hk
  exact ⟨.plain hplain.1 hplain.2.1 h.balanced,
    List.forall_mem_cons.2 ⟨hplain.2.2, h.unended⟩⟩

theorem append (h : Whole ts) (h' : Whole us) : Whole (ts ++ us) :=
  ⟨h.balanced.append h'.balanced, List.forall_mem_append.2 ⟨h.unended, h'.unended⟩⟩

theorem braces {o c : Token} (ho : o.kind = .openBrace) (h : Whole ts) (hc : c.kind = .closeBrace) :
    Whole (o :: (ts ++ [c])) := by
  refine ⟨.braces ho h.balanced hc .nil, ?_⟩
  simpa [ho, hc, or_imp, forall_and] using h.unended

end Whole

namespace Grammar

mutual

theorem Derives.whole {l : Level} {ts : List Token} {n : Node} : Derives l ts n → Whole ts
  | .identifier hk => .cons hk .nil
  | .number hk _ => .cons hk .nil
  | .grouped ho h hc => .cons ho (h.whole.append (.cons hc .nil))
  | .lift h => h.whole
  | .field h hd hp => h.whole.append (.cons hd hp.whole)
  | .index h hb hp hc => h.whole.append (.cons hb (hp.whole.append (.cons hc .nil)))
  | .call h hb ha hc => h.whole.append (.cons hb (ha.whole.append (.cons hc .nil)))
  | .chain h ht _ hb => h.whole.append (.cons ht hb.whole)
  | .object hb h hc => .braces hb h.whole hc
  | .assignment h he hv => h.whole.append (.cons he hv.whole)

theorem DerivesArguments.whole {ts : List Token} {ns : List Node} :
    DerivesArguments ts ns → Whole ts
  | .none => .nil
  | .some h => h.whole

theorem DerivesItems.whole {ts : List Token} {ns : List Node} : DerivesItems ts ns → Whole ts
  | .last h => h.whole
  | .more h hc hs => h.whole.append (.cons hc hs.whole)

theorem DerivesEntries.whole {ts : List Token} {ps : List Node} : DerivesEntries ts ps → Whole ts
  | .none => .nil
  | .last h => h.whole
  | .more h hc hs => h.whole.append (.cons hc hs.whole)

theorem DerivesEntry.whole {ts : List Token} {p : Node} : DerivesEntry ts p → Whole ts
  | .shorthand hk => .cons hk .nil
  | .keyed hk hc h => .cons hk (.cons hc h.whole)

end

end Grammar

/-! ## Nodes -/

namespace Node

def partSpans (n : Node) : List Span := n.children.filterMap span

/-- A node is not empty and lies over its parts, which follow one another. -/
structure Nests (n : Node) : Prop where
  span : ∃ s, n.span = some s ∧ s.start.offset < s.stop.offset ∧ ∀ t ∈ n.partSpans, t.Within s
  ordered : n.partSpans.Pairwise Span.Ahead

def Marked (ts : List Token) : Node → Prop
  | identifier s x => ∃ t ∈ ts, t.kind = .identifier ∧ s = some t.span ∧ t.text = x
  | literal s v => ∃ t ∈ ts, t.kind = .number ∧ s = some t.span ∧
      ∃ k, Numeral.read? t.text = some k ∧ v = .int k
  | object s _ => ∃ o us c, o :: (us ++ [c]) <:+: ts ∧ o.kind = .openBrace ∧ c.kind = .closeBrace ∧
      Balanced us ∧ s = some (o.span.through c.span)
  | declaration s constant _ _ => ∃ k us e, k :: (us ++ [e]) <:+: ts ∧
      k.kind = (if constant then .constWord else .letWord) ∧ e.kind = .semicolon ∧
      (∀ u ∈ us, u.kind ≠ .semicolon) ∧ s = some (k.span.through e.span)
  | _ => True

structure Laid (ts : List Token) (n : Node) : Prop where
  nests : n.Nests
  marked : n.Marked ts

variable {ts us : List Token} {n : Node}

theorem Marked.mono (h : n.Marked us) (hi : us <:+: ts) : n.Marked ts := by
  cases n with
  | identifier s x =>
    obtain ⟨t, ht, h⟩ := h
    exact ⟨t, hi.subset ht, h⟩
  | literal s v =>
    obtain ⟨t, ht, h⟩ := h
    exact ⟨t, hi.subset ht, h⟩
  | object s ps =>
    obtain ⟨o, vs, c, hin, h⟩ := h
    exact ⟨o, vs, c, hin.trans hi, h⟩
  | declaration s constant x v =>
    obtain ⟨k, vs, e, hin, h⟩ := h
    exact ⟨k, vs, e, hin.trans hi, h⟩
  | _ => trivial

theorem laid_within (hts : Strung ts) (hi : us <:+: ts)
    (h : Strung us → ∀ m ∈ n.preorder, m.Laid us) : ∀ m ∈ n.preorder, m.Laid ts := by
  intro m hm
  obtain ⟨hnests, hmarked⟩ := h (hts.sublist hi.sublist) m hm
  exact ⟨hnests, hmarked.mono hi⟩

/-- A node that joins the first to the last of some spans, its parts being among them. -/
theorem laid_of_along {ss : List Span} {a b : Span} (hts : Strung ts) (hss : Span.Along ts ss)
    (hspan : n.span = some (a.through b)) (ha : ss.head? = some a) (hb : ss.getLast? = some b)
    (hparts : n.partSpans.Sublist ss) (hmarked : n.Marked ts)
    (hchildren : ∀ c ∈ n.children, ∀ m ∈ c.preorder, m.Laid ts) :
    ∀ m ∈ n.preorder, m.Laid ts := by
  have hwithin := hss.within hts ha hb
  have hfirst := hwithin a (List.mem_of_head? ha)
  have hpos := (hss.joins a (List.mem_of_head? ha)).nonempty hts
  have hnests : n.Nests := by
    refine ⟨⟨_, hspan, ?_, fun t ht => hwithin t (hparts.subset ht)⟩,
      (hss.ordered hts).sublist hparts⟩
    exact Int.lt_of_lt_of_le hpos hfirst.2
  exact forall_preorder ⟨hnests, hmarked⟩ hchildren

end Node

theorem Node.Spanned.along {ts us : List Token} {n : Node} {ns : List Node} (h : n.Spanned ts)
    (hns : Span.Along us (ns.filterMap Node.span)) :
    Span.Along (ts ++ us) ((n :: ns).filterMap Node.span) := by
  obtain ⟨s, hspan, hj⟩ := h.span
  rw [List.filterMap_cons_some hspan]
  exact .cons hj hns

theorem Node.Spanned.alone {ts : List Token} {n : Node} (h : n.Spanned ts) :
    Span.Along ts ([n].filterMap Node.span) := by
  have halong : Span.Along (ts ++ []) ([n].filterMap Node.span) := h.along (.nil [])
  rwa [List.append_nil] at halong

namespace Grammar

open Node

theorem DerivesItems.along {ts : List Token} {ns : List Node} :
    DerivesItems ts ns → Span.Along ts (ns.filterMap span)
  | .last h => h.spanned.alone
  | @DerivesItems.more c _ us _ _ h _ hs =>
    h.spanned.along (hs.along.mono (List.sublist_cons_self c us))

theorem DerivesArguments.along {ts : List Token} {ns : List Node} :
    DerivesArguments ts ns → Span.Along ts (ns.filterMap span)
  | .none => .nil []
  | .some h => h.along

theorem DerivesEntries.along {ts : List Token} {ps : List Node} :
    DerivesEntries ts ps → Span.Along ts (ps.filterMap span)
  | .none => .nil []
  | .last h => h.spanned.alone
  | @DerivesEntries.more c _ us _ _ h _ hs =>
    h.spanned.along (hs.along.mono (List.sublist_cons_self c us))

theorem DerivesBody.along {ts : List Token} {ns : List Node} :
    DerivesBody ts ns → Span.Along ts (ns.filterMap span)
  | .nil => .nil []
  | .cons h hs => h.spanned.along hs.along

-- Each rule names the spans that its node joins; the parts of the node are read off them.
mutual

theorem Derives.laid {l : Level} {ts : List Token} {n : Node} :
    Derives l ts n → Strung ts → ∀ m ∈ n.preorder, m.Laid ts
  | @Derives.identifier t hk, hts =>
    laid_of_along hts (Span.along_token t) rfl rfl rfl (by simp [partSpans, children])
      ⟨t, List.mem_singleton_self t, hk, rfl, rfl⟩ (by simp [children])
  | @Derives.number t n hk hn, hts =>
    laid_of_along hts (Span.along_token t) rfl rfl rfl (by simp [partSpans, children])
      ⟨t, List.mem_singleton_self t, hk, rfl, n, hn, rfl⟩ (by simp [children])
  | @Derives.grouped o c ts n _ h _, hts => laid_within hts ⟨[o], [c], rfl⟩ h.laid
  | .lift h, hts => h.laid hts
  | @Derives.field d ts us o s x h _ hx, hts => by
    obtain ⟨s₁, hs₁, hj₁⟩ := h.spanned.span
    obtain ⟨s₂, hs₂, hj₂⟩ := hx.spanned.span
    have halong : Span.Along (ts ++ d :: us) [s₁, s₂] :=
      .cons hj₁ (hj₂.along.mono (List.sublist_cons_self d us))
    have ho := laid_within hts (List.prefix_append ts _).isInfix h.laid
    have hx := laid_within hts ⟨ts ++ [d], [], by simp⟩ hx.laid
    exact laid_of_along hts halong (spanTo_span hs₁ hs₂) rfl rfl
      (by simp [partSpans, children, hs₁, hs₂]) trivial (by simpa [children] using ⟨ho, hx⟩)
  | @Derives.index b c ts us o p h _ hp _, hts => by
    obtain ⟨s₁, hs₁, hj₁⟩ := h.spanned.span
    obtain ⟨s₂, hs₂, hj₂⟩ := hp.spanned.span
    have halong : Span.Along (ts ++ b :: (us ++ [c])) [s₁, s₂, c.span] :=
      .cons hj₁ ((Span.Along.cons hj₂ (Span.along_token c)).mono (List.sublist_cons_self b _))
    have ho := laid_within hts (List.prefix_append ts _).isInfix h.laid
    have hp := laid_within hts ⟨ts ++ [b], [c], by simp⟩ hp.laid
    exact laid_of_along hts halong (spanTo_some hs₁) rfl rfl
      (by simp [partSpans, children, hs₁, hs₂]) trivial (by simpa [children] using ⟨ho, hp⟩)
  | @Derives.call b c ts us callee args h _ ha _, hts => by
    obtain ⟨s, hs, hj⟩ := h.spanned.span
    have halong : Span.Along (ts ++ b :: (us ++ [c])) (s :: (args.filterMap span ++ [c.span])) :=
      .cons hj ((ha.along.append (Span.along_token c)).mono (List.sublist_cons_self b _))
    have hcallee := laid_within hts (List.prefix_append ts _).isInfix h.laid
    have hargs := fun a hmem =>
      laid_within hts ⟨ts ++ [b], [c], by simp⟩ fun hus => ha.laid hus a hmem
    have hlast : (s :: (args.filterMap span ++ [c.span])).getLast? = some c.span := by
      rw [← List.cons_append, List.getLast?_concat]
    exact laid_of_along hts halong (spanTo_some hs) rfl hlast
      (by simp [partSpans, children, hs]) trivial (by simpa [children] using ⟨hcallee, hargs⟩)
  | @Derives.chain l t ts us a b h _ _ hb, hts => by
    obtain ⟨s₁, hs₁, hj₁⟩ := h.spanned.span
    obtain ⟨s₂, hs₂, hj₂⟩ := hb.spanned.span
    have halong : Span.Along (ts ++ t :: us) [s₁, s₂] :=
      .cons hj₁ (hj₂.along.mono (List.sublist_cons_self t us))
    have ha := laid_within hts (List.prefix_append ts _).isInfix h.laid
    have hb := laid_within hts ⟨ts ++ [t], [], by simp⟩ hb.laid
    exact laid_of_along hts halong (spanTo_span hs₁ hs₂) rfl rfl
      (by simp [partSpans, children, hs₁, hs₂]) trivial (by simpa [children] using ⟨ha, hb⟩)
  | @Derives.object b c ts ps hb h hc, hts => by
    have halong : Span.Along (b :: (ts ++ [c])) (b.span :: (ps.filterMap span ++ [c.span])) :=
      .cons (Span.joins_self b) (h.along.append (Span.along_token c))
    have hps := fun p hmem => laid_within hts ⟨[b], [c], rfl⟩ fun hts => h.laid hts p hmem
    have hlast : (b.span :: (ps.filterMap span ++ [c.span])).getLast? = some c.span := by
      rw [← List.cons_append, List.getLast?_concat]
    exact laid_of_along hts halong rfl rfl hlast (by simp [partSpans, children])
      ⟨b, ts, c, List.infix_rfl, hb, hc, h.whole.balanced, rfl⟩ hps
  | @Derives.assignment e ts us t v h _ hv, hts => by
    obtain ⟨s₁, hs₁, hj₁⟩ := h.spanned.span
    obtain ⟨s₂, hs₂, hj₂⟩ := hv.spanned.span
    have halong : Span.Along (ts ++ e :: us) [s₁, s₂] :=
      .cons hj₁ (hj₂.along.mono (List.sublist_cons_self e us))
    have ht := laid_within hts (List.prefix_append ts _).isInfix h.laid
    have hv := laid_within hts ⟨ts ++ [e], [], by simp⟩ hv.laid
    exact laid_of_along hts halong (spanTo_span hs₁ hs₂) rfl rfl
      (by simp [partSpans, children, hs₁, hs₂]) trivial (by simpa [children] using ⟨ht, hv⟩)

theorem DerivesArguments.laid {ts : List Token} {ns : List Node} :
    DerivesArguments ts ns → Strung ts → ∀ n ∈ ns, ∀ m ∈ n.preorder, m.Laid ts
  | .none, _ => by simp
  | .some h, hts => h.laid hts

theorem DerivesItems.laid {ts : List Token} {ns : List Node} :
    DerivesItems ts ns → Strung ts → ∀ n ∈ ns, ∀ m ∈ n.preorder, m.Laid ts
  | .last h, hts => by simpa using h.laid hts
  | @DerivesItems.more c ts us n ns h _ hs, hts => by
    have hn := laid_within hts (List.prefix_append ts _).isInfix h.laid
    have hns := fun m hmem =>
      laid_within hts ⟨ts ++ [c], [], by simp⟩ fun hus => hs.laid hus m hmem
    exact List.forall_mem_cons.2 ⟨hn, hns⟩

theorem DerivesEntries.laid {ts : List Token} {ps : List Node} :
    DerivesEntries ts ps → Strung ts → ∀ p ∈ ps, ∀ m ∈ p.preorder, m.Laid ts
  | .none, _ => by simp
  | .last h, hts => by simpa using h.laid hts
  | @DerivesEntries.more c ts us p ps h _ hs, hts => by
    have hp := laid_within hts (List.prefix_append ts _).isInfix h.laid
    have hps := fun q hmem =>
      laid_within hts ⟨ts ++ [c], [], by simp⟩ fun hus => hs.laid hus q hmem
    exact List.forall_mem_cons.2 ⟨hp, hps⟩

theorem DerivesEntry.laid {ts : List Token} {p : Node} :
    DerivesEntry ts p → Strung ts → ∀ m ∈ p.preorder, m.Laid ts
  | @DerivesEntry.shorthand k _, hts =>
    laid_of_along hts (Span.along_token k) rfl rfl rfl
      (by simp [partSpans, children, absent, span]) trivial (by simp [children, absent, preorder])
  | @DerivesEntry.keyed k c ts v _ _ h, hts => by
    obtain ⟨s, hs, hj⟩ := h.spanned.span
    have halong : Span.Along (k :: c :: ts) [k.span, s] :=
      .cons (Span.joins_self k) (hj.along.mono (List.sublist_cons_self c ts))
    have hv := laid_within hts ⟨[k, c], [], by simp⟩ h.laid
    have hspan : v.span.map k.span.through = some (k.span.through s) := by
      rw [hs, Option.map_some]
    exact laid_of_along hts halong hspan rfl rfl (by simp [partSpans, children, hs]) trivial
      (by simpa [children] using hv)

end

theorem DerivesStatement.laid {ts : List Token} {n : Node} (h : DerivesStatement ts n)
    (hts : Strung ts) : ∀ m ∈ n.preorder, m.Laid ts := by
  cases h with
  | @declaration k x s hk hx hs =>
    have halong : Span.Along [k, x, s] [k.span, s.span] :=
      .cons (Span.joins_self k) ((Span.along_token s).mono (List.sublist_cons_self x [s]))
    exact laid_of_along hts halong rfl rfl rfl (by simp [partSpans, children, absent, span])
      ⟨k, [x], s, List.infix_rfl, hk, hs, by simp [hx], rfl⟩ (by simp [children, absent, preorder])
  | @initialised k x e s us v hk hx he h hs =>
    obtain ⟨s', hs', hj⟩ := h.spanned.span
    have hinner : Span.Along (x :: e :: (us ++ [s])) [s', s.span] :=
      (Span.Along.cons hj (Span.along_token s)).mono
        ((List.sublist_cons_self e _).trans (List.sublist_cons_self x _))
    have halong : Span.Along (k :: x :: e :: (us ++ [s])) [k.span, s', s.span] :=
      .cons (Span.joins_self k) hinner
    have hword : k.kind = (if decide (k.kind = .constWord) then .constWord else .letWord) := by
      rcases hk with hk | hk <;> rw [hk] <;> rfl
    have hwhole : Whole (x :: e :: us) := .cons hx (.cons he h.whole)
    have hv := laid_within hts ⟨[k, x, e], [s], by simp⟩ h.laid
    exact laid_of_along hts halong rfl rfl rfl (by simp [partSpans, children, hs'])
      ⟨k, x :: e :: us, s, List.infix_rfl, hword, hs, hwhole.unended, rfl⟩
      (by simpa [children] using hv)
  | expression h => exact h.laid hts
  | ended h _ => exact laid_within hts (List.prefix_append _ _).isInfix h.laid

theorem DerivesBody.laid {ts : List Token} {ns : List Node} (h : DerivesBody ts ns)
    (hts : Strung ts) : ∀ n ∈ ns, ∀ m ∈ n.preorder, m.Laid ts := by
  induction h with
  | nil => simp
  | @cons ts us n ns hn _ ih =>
    have hhead := laid_within hts (List.prefix_append ts us).isInfix hn.laid
    have htail := fun m hmem =>
      laid_within hts (List.suffix_append ts us).isInfix fun hus => ih hus m hmem
    exact List.forall_mem_cons.2 ⟨hhead, htail⟩

theorem programSpan_through (start : Token) {n : Node} {ns : List Node}
    (h : ∀ m ∈ n :: ns, ∃ s, m.span = some s) : ∃ a b,
      programSpan start (n :: ns) = some (a.through b) ∧
      ((n :: ns).filterMap span).head? = some a ∧ ((n :: ns).filterMap span).getLast? = some b := by
  obtain ⟨a, ha⟩ := h n List.mem_cons_self
  obtain ⟨ms, m, hlast⟩ : ∃ ms m, n :: ns = ms ++ [m] :=
    ⟨_, _, (List.dropLast_concat_getLast (List.cons_ne_nil n ns)).symm⟩
  have hget : (n :: ns).getLast? = some m := by rw [hlast, List.getLast?_concat]
  obtain ⟨b, hb⟩ := h m (List.mem_of_getLast? hget)
  refine ⟨a, b, ?_, ?_, ?_⟩
  · rw [programSpan, List.head?_cons, hget]
    exact spanTo_span ha hb
  · rw [List.filterMap_cons_some ha, List.head?_cons]
  · rw [hlast, List.filterMap_append, List.filterMap_cons_some hb, List.filterMap_nil,
      List.getLast?_concat]

theorem DerivesBody.program_laid {ts : List Token} {n : Node} {ns : List Node}
    (h : DerivesBody ts (n :: ns)) (hts : Strung ts) (start : Token) :
    ∀ m ∈ (Node.program (programSpan start (n :: ns)) (n :: ns)).preorder, m.Laid ts := by
  have hspans : ∀ m ∈ n :: ns, ∃ s, m.span = some s := by
    intro m hm
    obtain ⟨s, hs, -⟩ := (h.spanned m hm).span
    exact ⟨s, hs⟩
  obtain ⟨a, b, hspan, ha, hb⟩ := programSpan_through start hspans
  exact laid_of_along hts h.along hspan ha hb (List.Sublist.refl _) trivial (h.laid hts)

end Grammar

end TemplateScript
