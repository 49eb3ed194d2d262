import TemplateScript.Proofs.Derivation

/-!
# Spans of trees

Every node that is derived from tokens has a span, which runs from the start of one of these tokens
to the end of it or of a later one.
-/

namespace TemplateScript

def Span.Joins (ts : List Token) (s : Span) : Prop :=
  ∃ (us : List Token) (a b : Token), us.Sublist ts ∧ us.head? = some a ∧ us.getLast? = some b ∧
    s = a.span.through b.span

namespace Span

variable {ts us : List Token} {s s' : Span}

theorem Joins.mono (h : s.Joins ts) (hts : ts.Sublist us) : s.Joins us := by
  obtain ⟨vs, a, b, hvs, ha, hb, rfl⟩ := h
  exact ⟨vs, a, b, hvs.trans hts, ha, hb, rfl⟩

theorem joins_token {t : Token} (ht : t ∈ ts) : t.span.Joins ts :=
  ⟨[t], t, t, List.singleton_sublist.2 ht, rfl, rfl, rfl⟩

theorem joins_self (t : Token) : t.span.Joins [t] := joins_token List.mem_cons_self

theorem joins_last (ts : List Token) (t : Token) : t.span.Joins (ts ++ [t]) :=
  (joins_self t).mono (List.sublist_append_right ts [t])

theorem Joins.through (h : s.Joins ts) (h' : s'.Joins us) : (s.through s').Joins (ts ++ us) := by
  obtain ⟨vs, a, b, hvs, ha, hb, rfl⟩ := h
  obtain ⟨ws, c, d, hws, hc, hd, rfl⟩ := h'
  refine ⟨vs ++ ws, a, d, hvs.append hws, ?_, ?_, rfl⟩
  · rw [List.head?_append, ha, Option.some_or]
  · rw [List.getLast?_append, hd, Option.some_or]

theorem Joins.across (h : s.Joins ts) (h' : s'.Joins us) (vs : List Token) :
    (s.through s').Joins (ts ++ (vs ++ us)) :=
  (h.through h').mono ((List.Sublist.refl ts).append (List.sublist_append_right vs us))

end Span

namespace Node

def SpansAre (T : Option Span → Prop) (n : Node) : Prop := ∀ m ∈ n.preorder, T m.span

def SpansJoin (ts : List Token) (n : Node) : Prop :=
  n.SpansAre fun span => ∃ s, span = some s ∧ s.Joins ts

structure Spanned (ts : List Token) (n : Node) : Prop where
  span : ∃ s, n.span = some s ∧ s.Joins ts
  parts : ∀ c ∈ n.children, c.SpansJoin ts

variable {ts us : List Token} {n : Node} {T : Option Span → Prop}

theorem SpansAre.child {c : Node} (h : n.SpansAre T) (hc : c ∈ n.children) : c.SpansAre T :=
  fun m hm => h m (preorder_subset hc hm)

theorem SpansJoin.mono (h : n.SpansJoin ts) (hts : ts.Sublist us) : n.SpansJoin us := by
  intro m hm
  obtain ⟨s, hs, hj⟩ := h m hm
  exact ⟨s, hs, hj.mono hts⟩

theorem Spanned.all (h : n.Spanned ts) : n.SpansJoin ts := forall_preorder h.span h.parts

theorem Spanned.mono (h : n.Spanned ts) (hts : ts.Sublist us) : n.Spanned us := by
  obtain ⟨s, hs, hj⟩ := h.span
  exact ⟨⟨s, hs, hj.mono hts⟩, fun c hc => (h.parts c hc).mono hts⟩

theorem spansJoin_absent (ts : List Token) : absent.SpansJoin ts := by
  intro m hm
  cases hm

theorem Spanned.cons (h : n.Spanned ts) (t : Token) : n.Spanned (t :: ts) :=
  h.mono (List.sublist_cons_self t ts)

theorem Spanned.left (h : n.Spanned ts) (us : List Token) : n.Spanned (ts ++ us) :=
  h.mono (List.sublist_append_left ts us)

theorem Spanned.right (h : n.Spanned us) (ts : List Token) : n.Spanned (ts ++ us) :=
  h.mono (List.sublist_append_right ts us)

end Node

namespace Grammar

open Node

theorem spanTo_some {n : Node} {s s' : Span} (h : n.span = some s) :
    spanTo n (some s') = some (s.through s') := by
  simp only [spanTo, h]

theorem spanTo_span {a b : Node} {s s' : Span} (ha : a.span = some s) (hb : b.span = some s') :
    spanTo a b.span = some (s.through s') := by
  rw [hb, spanTo_some ha]

theorem spanned_across {n : Node} {ts us : List Token} {s s' : Span} (vs : List Token)
    (hspan : n.span = some (s.through s')) (hs : s.Joins ts) (hs' : s'.Joins us)
    (hparts : ∀ c ∈ n.children, c.SpansJoin (ts ++ (vs ++ us))) : n.Spanned (ts ++ (vs ++ us)) :=
  ⟨⟨_, hspan, hs.across hs' vs⟩, hparts⟩

mutual

theorem Derives.spanned {l : Level} {ts : List Token} {n : Node} : Derives l ts n → n.Spanned ts
  | @Derives.identifier t _ =>
    ⟨⟨t.span, rfl, Span.joins_self t⟩, by simp [children]⟩
  | @Derives.number t _ _ _ =>
    ⟨⟨t.span, rfl, Span.joins_self t⟩, by simp [children]⟩
  | @Derives.grouped o c ts n _ h _ => (h.spanned.left [c]).cons o
  | .lift h => h.spanned
  | @Derives.field d ts us o s x h _ hp => by
    have hname := hp.spanned
    obtain ⟨s₁, hs₁, hj₁⟩ := h.spanned.span
    obtain ⟨s₂, hs₂, hj₂⟩ := hname.span
    have ho := (h.spanned.left (d :: us)).all
    have hx := ((hname.cons d).right ts).all
    exact spanned_across [d] (spanTo_span hs₁ hs₂) hj₁ hj₂ (by simpa [children] using ⟨ho, hx⟩)
  | @Derives.index b c ts us o p h _ hp _ => by
    obtain ⟨s, hs, hj⟩ := h.spanned.span
    have ho := (h.spanned.left (b :: (us ++ [c]))).all
    have hx := (((hp.spanned.left [c]).cons b).right ts).all
    exact spanned_across (b :: us) (spanTo_some hs) hj (Span.joins_self c)
      (by simpa [children] using ⟨ho, hx⟩)
  | @Derives.call b c ts us callee args h _ ha _ => by
    obtain ⟨s, hs, hj⟩ := h.spanned.span
    have hcallee := (h.spanned.left (b :: (us ++ [c]))).all
    have hall := ha.spanned
    have hargs := fun a hmem => ((((hall a hmem).left [c]).cons b).right ts).all
    exact spanned_across (b :: us) (spanTo_some hs) hj (Span.joins_self c)
      (by simpa [children] using ⟨hcallee, hargs⟩)
  | @Derives.chain l t ts us a b h _ _ hb => by
    obtain ⟨s₁, hs₁, hj₁⟩ := h.spanned.span
    obtain ⟨s₂, hs₂, hj₂⟩ := hb.spanned.span
    have hleft := (h.spanned.left (t :: us)).all
    have hright := ((hb.spanned.cons t).right ts).all
    exact spanned_across [t] (spanTo_span hs₁ hs₂) hj₁ hj₂
      (by simpa [children] using ⟨hleft, hright⟩)
  | @Derives.object b c ts ps _ h _ => by
    have hall := h.spanned
    exact spanned_across ts rfl (Span.joins_self b) (Span.joins_self c) fun p hp =>
      (((hall p hp).left [c]).cons b).all
  | @Derives.assignment e ts us t v h _ hv => by
    obtain ⟨s₁, hs₁, hj₁⟩ := h.spanned.span
    obtain ⟨s₂, hs₂, hj₂⟩ := hv.spanned.span
    have htarget := (h.spanned.left (e :: us)).all
    have hvalue := ((hv.spanned.cons e).right ts).all
    exact spanned_across [e] (spanTo_span hs₁ hs₂) hj₁ hj₂
      (by simpa [children] using ⟨htarget, hvalue⟩)

theorem DerivesArguments.spanned {ts : List Token} {ns : List Node} :
    DerivesArguments ts ns → ∀ n ∈ ns, n.Spanned ts
  | .none => by simp
  | .some h => h.spanned

theorem DerivesItems.spanned {ts : List Token} {ns : List Node} :
    DerivesItems ts ns → ∀ n ∈ ns, n.Spanned ts
  | .last h => by simpa using h.spanned
  | @DerivesItems.more c ts us n ns h _ hs => by
    have hn := h.spanned.left (c :: us)
    have hall := hs.spanned
    have hns := fun m hm => ((hall m hm).cons c).right ts
    exact List.forall_mem_cons.2 ⟨hn, hns⟩

theorem DerivesEntries.spanned {ts : List Token} {ps : List Node} :
    DerivesEntries ts ps → ∀ p ∈ ps, p.Spanned ts
  | .none => by simp
  | .last h => by simpa using h.spanned
  | @DerivesEntries.more c ts us p ps h _ hs => by
    have hp := h.spanned.left (c :: us)
    have hall := hs.spanned
    have hps := fun q hq => ((hall q hq).cons c).right ts
    exact List.forall_mem_cons.2 ⟨hp, hps⟩

theorem DerivesEntry.spanned {ts : List Token} {p : Node} : DerivesEntry ts p → p.Spanned ts
  | @DerivesEntry.shorthand k _ =>
    ⟨⟨k.span, rfl, Span.joins_self k⟩, by simp [children, spansJoin_absent]⟩
  | @DerivesEntry.keyed k c ts v _ _ h => by
    obtain ⟨s, hs, hj⟩ := h.spanned.span
    have hspan : (Node.property (v.span.map k.span.through) k.text v).span
        = some (k.span.through s) := by
      rw [hs]
      rfl
    exact spanned_across [c] hspan (Span.joins_self k) hj
      (by simpa [children] using ((h.spanned.cons c).cons k).all)

end

theorem DerivesStatement.spanned {ts : List Token} {n : Node} (h : DerivesStatement ts n) :
    n.Spanned ts := by
  cases h with
  | @declaration k x s =>
    exact spanned_across [x] rfl (Span.joins_self k) (Span.joins_self s)
      (by simp [children, spansJoin_absent])
  | @initialised k x e s ts v _ _ _ h _ =>
    have hv := (((h.spanned.left [s]).cons e).cons x).cons k
    exact spanned_across (x :: e :: ts) rfl (Span.joins_self k) (Span.joins_self s)
      (by simpa [children] using hv.all)
  | expression h => exact h.spanned
  | @ended s ts n h _ => exact h.spanned.left [s]

theorem DerivesBody.spanned {ts : List Token} {ns : List Node} (h : DerivesBody ts ns) :
    ∀ n ∈ ns, n.Spanned ts := by
  induction h with
  | nil => simp
  | @cons ts us n ns hn _ ih =>
    exact List.forall_mem_cons.2 ⟨hn.spanned.left us, fun m hm => (ih m hm).right ts⟩

/-- A program with statements joins its tokens from the first statement to the last. -/
theorem DerivesBody.programSpan_joins {ts : List Token} {n : Node} {ns : List Node}
    (h : DerivesBody ts (n :: ns)) (start : Token) :
    ∃ s, programSpan start (n :: ns) = some s ∧ s.Joins ts := by
  cases h with
  | @cons ts us _ _ hn hns =>
    obtain ⟨s, hspan, hjoins⟩ := hn.spanned.span
    rcases List.eq_nil_or_concat ns with rfl | ⟨ms, m, rfl⟩
    · refine ⟨s, ?_, hjoins.mono (List.sublist_append_left ts us)⟩
      exact spanTo_span hspan hspan
    · have hlast : m.Spanned us := hns.spanned m (by simp)
      obtain ⟨s', hspan', hjoins'⟩ := hlast.span
      refine ⟨s.through s', ?_, hjoins.through hjoins'⟩
      have hget : (n :: (ms ++ [m])).getLast? = some m := by
        rw [← List.cons_append, List.getLast?_concat]
      rw [List.concat_eq_append, programSpan, hget]
      exact spanTo_span hspan hspan'

end Grammar

end TemplateScript
