import TemplateScript.Proofs.NestedSpans
import TemplateScript.Proofs.RunPositions
import TemplateScript.Proofs.SpacedScan

/-!
# Trees over their text

What the spans of a tree go over in the source that it is read from. Names and numbers are there as
the tree has them, and no digit stands beside a number. The literals of objects and declarations go
from their first mark to the last, which is their own.
-/

namespace TemplateScript

structure Span.Cuts (s : Span) (text u w v : List Char) : Prop where
  text : text = u ++ (w ++ v)
  start : s.start.offset = u.length
  stop : s.stop.offset = (u.length + w.length : Nat)

structure DigitRun (u w v : List Char) : Prop where
  nonempty : w ≠ []
  digits : ∀ c ∈ w, Piece.isDigit c = true
  before : ∀ c ∈ u.getLast?, Piece.isDigit c = false
  behind : ∀ c ∈ v.head?, Piece.isDigit c = false

namespace Node

def Covers (text : List Char) : Node → Prop
  | identifier s x => ∃ p u v, s = some p ∧ p.Cuts text u x.toList v
  | literal s k => ∃ p u w v, s = some p ∧ p.Cuts text u w v ∧ DigitRun u w v ∧
      k = .int (Nat.ofDigitChars 10 w 0 : Nat)
  | object s _ => ∃ p u w v, s = some p ∧ p.Cuts text u ('{' :: (w ++ ['}'])) v
  | declaration s constant _ _ => ∃ p u w v, s = some p ∧
      p.Cuts text u ((if constant then "const" else "let").toList ++ (w ++ [';'])) v
  | _ => True

def IsEmptyProgram (n : Node) : Prop := ∃ s, n = program s []

end Node

/-! ## Where tokens stand -/

theorem Token.StandsAt.cuts {t : Token} {text u w v : List Char} (h : t.StandsAt u.length w v)
    (htext : text = u ++ (w ++ v)) : t.span.Cuts text u w v := ⟨htext, h.start, h.stop⟩

theorem Span.Cuts.through {s t : Span} {text u w v u' w' v' : List Char} (h : s.Cuts text u w v)
    (h' : t.Cuts text u' w' v') (hst : s.Ahead t) :
    ∃ mid, (s.through t).Cuts text u (w ++ (mid ++ w')) v' := by
  have hle : (u ++ w).length ≤ u'.length := by
    have hst : s.stop.offset ≤ t.start.offset := hst
    rw [h.stop, h'.start] at hst
    rw [List.length_append]
    omega
  have hfront : u ++ w <+: text := ⟨v, by rw [List.append_assoc, h.text]⟩
  obtain ⟨mid, rfl⟩ := List.prefix_of_prefix_length_le hfront ⟨w' ++ v', h'.text.symm⟩ hle
  refine ⟨mid, ?_, h.start, ?_⟩
  · simpa only [List.append_assoc] using h'.text
  · show t.stop.offset = _
    rw [h'.stop]
    simp only [List.length_append]
    omega

/-! ## Numbers -/

namespace Piece

variable {region : Region} {c : Char} {r : List Char}

theorem nextPlain_last {d : Char} (hd : d ∈ (nextPlain region c r).rest.head?)
    (hdigit : isDigit d = true) :
    ∀ e ∈ (nextPlain region c r).text.getLast?, isDigit e = false := by
  unfold nextPlain at hd ⊢
  cases hk : punctuation? c with
  | some k =>
    have hc : isDigit c = false := by
      by_contra hc
      rw [punctuation?_eq_none (p := isDigit) (by simpa using hc) (by decide)] at hk
      cases hk
    simpa using hc
  | none =>
    simp only [hk] at hd
    by_cases hc : isDigit c = true
    · simp only [hc, if_true] at hd
      have hrest := head_dropWhile _ d hd
      rw [hdigit] at hrest
      cases hrest
    have hsingle : ∀ e ∈ [c].getLast?, isDigit e = false := by simpa using hc
    by_cases ha : Text.isCased c = true
    · simp only [hc, ha, Bool.false_eq_true, if_false, if_true]
      exact fun e he => isDigit_of_isCased (mem_takeWhile e (List.mem_of_getLast? he))
    by_cases hl : isLayout c = true
    · simpa only [hc, ha, hl, Bool.false_eq_true, if_false, if_true] using hsingle
    by_cases hr : region = .ahead
    · simpa only [hc, ha, hl, hr, Bool.false_eq_true, if_false, if_true] using hsingle
    · simpa only [hc, ha, hl, hr, Bool.false_eq_true, if_false] using hsingle

/-- A piece that a digit stands behind does not end in one. -/
theorem next_last {d : Char} (hd : d ∈ (next region c r).rest.head?) (hdigit : isDigit d = true) :
    ∀ e ∈ (next region c r).text.getLast?, isDigit e = false := by
  have hfits := next_fits region c r
  have hends : ∀ {x : Char}, (next region c r).text.getLast? = some x → isDigit x = false →
      ∀ e ∈ (next region c r).text.getLast?, isDigit e = false := by
    rintro x hlast hx e he
    obtain rfl : e = x := Option.some.inj (he.symm.trans hlast)
    exact hx
  rcases next_cases region c r with (hp | ⟨slashFirst, closed, hp⟩) | ⟨-, hp, ht⟩ | ⟨-, hp, ht⟩ |
    hplain
  · rw [hp] at hfits
    obtain ⟨u, -, -, hrest⟩ := hfits
    rw [hrest d hd] at hdigit
    exact absurd hdigit (by decide)
  · rw [hp] at hfits
    cases closed with
    | true =>
      obtain ⟨u, hu, -⟩ := hfits
      have hlast : (next region c r).text.getLast? = some '/' := by
        rw [hu, ← List.cons_append, ← List.cons_append, List.getLast?_append]
        rfl
      exact hends hlast (by decide)
    | false =>
      obtain ⟨u, -, -, hrest⟩ := hfits
      rw [hrest] at hd
      cases hd
  · have hlast : (next region c r).text.getLast? = some '>' := by
      rw [ht]
      rfl
    exact hends hlast (by decide)
  · have hlast : (next region c r).text.getLast? = some '>' := by
      rw [ht]
      rfl
    exact hends hlast (by decide)
  · rw [hplain] at hd ⊢
    exact nextPlain_last hd hdigit

end Piece

def Token.IsRun (l : Location) (cs : List Char) (t : Token) : Prop :=
  ∃ u w v, cs = u ++ (w ++ v) ∧ t.span = ⟨l.after u, (l.after u).after w⟩ ∧
    t.text = String.ofList w ∧ DigitRun u w v

theorem Token.IsRun.behind {l : Location} {text rest : List Char} {t : Token}
    (h : t.IsRun (l.after text) rest)
    (hlast : ∀ d ∈ rest.head?, Piece.isDigit d = true →
      ∀ e ∈ text.getLast?, Piece.isDigit e = false) : t.IsRun l (text ++ rest) := by
  obtain ⟨u, w, v, rfl, hspan, htext, hrun⟩ := h
  refine ⟨text ++ u, w, v, by rw [List.append_assoc], ?_, htext,
    hrun.nonempty, hrun.digits, ?_, hrun.behind⟩
  · rw [Location.after_append]
    exact hspan
  · cases u with
    | nil =>
      obtain ⟨d, w, rfl⟩ := List.exists_cons_of_ne_nil hrun.nonempty
      rw [List.append_nil]
      exact hlast d rfl (hrun.digits d List.mem_cons_self)
    | cons e u =>
      have hsame : (text ++ e :: u).getLast? = (e :: u).getLast? := by
        rw [List.getLast?_append, List.getLast?_cons, Option.some_or]
      rw [hsame]
      exact hrun.before

theorem Scan.ofText_runs (line? : Int → Option String) (region : Region) (l : Location)
    (cs : List Char) :
    ∀ t ∈ (ofText line? region l cs).tokens, t.kind = .number → t.IsRun l cs := by
  induction region, cs using piece_induction generalizing l with
  | nil region =>
    rw [ofText_nil]
    intro t ht hk
    obtain rfl := List.mem_singleton.1 ht
    cases hk
  | unrecognized region c r h =>
    rw [ofText_unrecognized h]
    intro t ht hk
    simp only [abort, List.mem_cons, List.not_mem_nil, or_false] at ht
    rcases ht with rfl | rfl <;> cases hk
  | cons region c r h ih =>
    have hcut := Piece.next_of region c r
    rw [ofText_cons h, withPiece_tokens]
    intro t ht hk
    rw [← hcut.1]
    rcases List.mem_append.1 ht with ht | ht
    · have hfits := Piece.next_fits region c r
      rw [pieceTokens_kind ht, hk] at hfits ht
      obtain rfl := List.mem_singleton.1 ht
      obtain ⟨hdigits, hbehind⟩ := hfits.number rfl
      exact ⟨[], _, _, rfl, rfl, rfl, hcut.2, hdigits, by simp, hbehind⟩
    · exact (ih _ t ht hk).behind fun d hd hdigit => Piece.next_last hd hdigit

theorem scan_run {source : String} {file : Option String} {t : Token}
    (ht : t ∈ (scan source file).tokens) (hk : t.kind = .number) :
    ∃ u w v, t.span.Cuts source.toList u w v ∧ t.text = String.ofList w ∧ DigitRun u w v := by
  obtain ⟨u, w, v, htext, hspan, hw, hrun⟩ :=
    Scan.ofText_runs (Text.line? (sourceLines source)) .ahead (.first file) source.toList t ht hk
  have hzero : (Location.first file).offset = 0 := rfl
  refine ⟨u, w, v, ⟨htext, ?_, ?_⟩, hw, hrun⟩
  · rw [hspan, Scan.offset_after, hzero, Int.zero_add]
  · rw [hspan, Scan.offset_after, Scan.offset_after, hzero, Int.zero_add, Int.natCast_add]

/-! ## Trees -/

theorem Numeral.length_le_of_isDigit {cs : List Char} {n : Int} (hne : cs ≠ [])
    (hd : ∀ c ∈ cs, c.isDigit = true) (h : read? (String.ofList cs) = some n) :
    cs.length ≤ digitLimit := by
  by_contra hlen
  have hm : magnitude? cs = none := by
    rw [magnitude?, digits?_of_isDigit hne hd, Option.bind_some, List.length_map, if_neg hlen]
  unfold read? at h
  rw [String.toList_ofList, trim_of_isDigit hd] at h
  split at h
  · exact absurd (hd '-' (by simp)) (by decide)
  · exact absurd (hd '+' (by simp)) (by decide)
  · rw [hm] at h
    cases h

theorem infix_programTokens (ts : List Token) : programTokens ts <:+: ts := by
  unfold programTokens
  split
  · have hbehind := (List.tail_suffix _).trans (List.dropWhile_suffix (l := ts) (·.kind ≠ .openTag))
    exact (List.takeWhile_prefix _).isInfix.trans hbehind.isInfix
  · exact (List.dropLast_prefix ts).isInfix

section
variable {source : String} {file : Option String} {n : Node}

theorem scan_strung (source : String) (file : Option String) :
    ∃ ts e, (scan source file).tokens = ts ++ [e] ∧ Strung ts ∧
      ∀ t ∈ ts, ∃ u v, t.span.Cuts source.toList u t.text.toList v := by
  obtain ⟨ts, e, hts, -, hw⟩ := Scan.ofText_weaves (Text.line? (sourceLines source)) .ahead
    (.first file) source.toList 0 rfl
  have hlossless := hw.lossless
  refine ⟨ts, e, hts, ⟨fun t ht => (hlossless.inside t ht).2.1, hlossless.ordered⟩, fun t ht => ?_⟩
  obtain ⟨u, w, v, htext, hstands⟩ := hw.stands t ht
  rw [Nat.zero_add] at hstands
  refine ⟨u, v, ?_⟩
  rw [hstands.text, String.toList_ofList]
  exact hstands.cuts htext

theorem Evaluates.program (h : Evaluates source file n) : ∃ start body,
    n = .program (Grammar.programSpan start body) body ∧
    Grammar.DerivesBody (programTokens (scan source file).tokens) body ∧
    (programTokens (scan source file).tokens).Sublist (scan source file).tokens.dropLast := by
  obtain ⟨ha, h⟩ := h
  obtain ⟨last, hlast, hmark⟩ := scan_mark source file
  rw [ha] at hmark
  cases hstop : programStop? (scan source file).tokens with
  | none =>
    rw [Node.ofTokens_of_unclosed hlast hmark hstop] at h
    cases h
  | some stop =>
    rw [Node.ofTokens_of_stop hlast hmark hstop, Node.ofProgram] at h
    have hsub := (program_sublist hstop).reverse.tail.reverse
    rw [List.tail_reverse, List.tail_reverse, List.reverse_reverse, List.reverse_reverse,
      List.dropLast_concat] at hsub
    cases hr : (Grammar.program : Reader _) stop (programTokens (scan source file).tokens) with
    | mk r rest =>
      rw [hr] at h
      cases r with
      | error d => cases h
      | ok m =>
        cases h
        obtain ⟨-, body, hm, hbody⟩ := Grammar.program_sound hr
        exact ⟨_, body, hm, hbody, hsub⟩

end

/-! ## What nodes cover -/

section
variable {source : String} {file : Option String} {n : Node} {ts : List Token}
  (hts : Strung ts) (hscan : ts.Sublist (scan source file).tokens.dropLast)
include hscan

theorem scanned_cuts {t : Token} (ht : t ∈ ts) :
    t ∈ (scan source file).tokens ∧ ∃ u v, t.span.Cuts source.toList u t.text.toList v := by
  obtain ⟨us, e, hus, -, hcuts⟩ := scan_strung source file
  rw [hus, List.dropLast_concat] at hscan
  have hmem := hscan.subset ht
  refine ⟨?_, hcuts t hmem⟩
  rw [hus]
  exact List.mem_append_left _ hmem

include hts

/-- A span from one token to a later one begins and ends with their texts. -/
theorem scanned_through {a b : Token} {us : List Token} {x y : String}
    (hin : a :: (us ++ [b]) <:+: ts) (hx : a.kind.spelling? = some x)
    (hy : b.kind.spelling? = some y) : ∃ u w v,
      (a.span.through b.span).Cuts source.toList u (x.toList ++ (w ++ y.toList)) v := by
  obtain ⟨ha, u, v, hcut⟩ := scanned_cuts hscan (hin.subset List.mem_cons_self)
  obtain ⟨hb, u', v', hcut'⟩ := scanned_cuts hscan (hin.subset (a := b) (by simp))
  rw [scan_spelled source file a ha x hx] at hcut
  rw [scan_spelled source file b hb y hy] at hcut'
  have hahead : a.span.Ahead b.span :=
    (List.pairwise_cons.1 (hts.sublist hin.sublist).ordered).1 b (by simp)
  obtain ⟨w, hw⟩ := hcut.through hcut' hahead
  exact ⟨u, w, v', hw⟩

/-- What a node says of its tokens, it says of their text. -/
theorem Node.Marked.covers (h : n.Marked ts) : n.Covers source.toList := by
  cases n with
  | identifier s x =>
    obtain ⟨t, ht, -, rfl, rfl⟩ := h
    obtain ⟨-, u, v, hcut⟩ := scanned_cuts hscan ht
    exact ⟨t.span, u, v, rfl, hcut⟩
  | literal s k =>
    obtain ⟨t, ht, hk, rfl, n, hread, rfl⟩ := h
    have hmem := (scanned_cuts hscan ht).1
    obtain ⟨u, w, v, hcut, hw, hrun⟩ := scan_run hmem hk
    have hdigits := scan_digits source file t hmem hk
    rw [hw, String.toList_ofList] at hdigits
    rw [hw] at hread
    have hlen := Numeral.length_le_of_isDigit hrun.nonempty hdigits hread
    rw [Numeral.read?_of_isDigit hrun.nonempty hdigits hlen] at hread
    refine ⟨t.span, u, w, v, rfl, hcut, hrun, ?_⟩
    rw [Option.some.inj hread]
  | object s ps =>
    obtain ⟨o, vs, c, hin, ho, hc, -, rfl⟩ := h
    obtain ⟨u, w, v, hcut⟩ := scanned_through hts hscan hin (by rw [ho]; rfl) (by rw [hc]; rfl)
    exact ⟨_, u, w, v, rfl, hcut⟩
  | declaration s constant x value =>
    obtain ⟨k, vs, e, hin, hk, he, -, rfl⟩ := h
    have hword : k.kind.spelling? = some (if constant then "const" else "let") := by
      rw [hk]
      cases constant <;> rfl
    obtain ⟨u, w, v, hcut⟩ := scanned_through hts hscan hin hword (by rw [he]; rfl)
    exact ⟨_, u, w, v, rfl, hcut⟩
  | _ => trivial

end

/-- A node has a span, which is not empty unless there are no statements. The span lies over those of
the parts, which follow one another, and goes over the text that the node speaks of. -/
structure Node.LiesOver (n : Node) (ts : List Token) (text : List Char) : Prop where
  span : ∃ s, n.span = some s ∧ (¬ n.IsEmptyProgram → s.start.offset < s.stop.offset) ∧
    ∀ t ∈ n.partSpans, t.Within s
  ordered : n.partSpans.Pairwise Span.Ahead
  marked : n.Marked ts
  covers : n.Covers text

/-- Every node of the tree that is read from a source lies over the text that it was made of. -/
theorem spans_nest {source : String} {file : Option String} {n : Node}
    (h : Evaluates source file n) :
    ∀ m ∈ n.preorder, m.LiesOver (scan source file).tokens source.toList := by
  obtain ⟨start, body, rfl, hbody, hsub⟩ := h.program
  cases body with
  | nil =>
    intro m hm
    obtain rfl : m = _ := by simpa [Node.preorder, Node.preorders] using hm
    refine ⟨⟨_, rfl, fun hne => absurd ⟨_, rfl⟩ hne, ?_⟩, ?_, trivial, trivial⟩
    · simp [Node.partSpans, Node.children]
    · simp [Node.partSpans, Node.children]
  | cons k ks =>
    obtain ⟨ts, e, hts, hstrung, -⟩ := scan_strung source file
    have hstrung : Strung (programTokens (scan source file).tokens) := by
      rw [hts, List.dropLast_concat, ← hts] at hsub
      exact hstrung.sublist hsub
    intro m hm
    obtain ⟨⟨⟨s, hs, hpos, hparts⟩, hordered⟩, hmarked⟩ := hbody.program_laid hstrung start m hm
    exact ⟨⟨s, hs, fun _ => hpos, hparts⟩, hordered, hmarked.mono (infix_programTokens _),
      hmarked.covers hstrung hsub⟩

def nestedSource : String := "<trans>const o = \x7b a: (1 + b.c[2](x)), d \x7d; y = 3</trans>"

/-- Every kind of node that a reading gives stands in the tree. -/
theorem nestedSource_spans : ∃ n, Evaluates nestedSource none n ∧
    n.preorder.map Node.kindName =
      ["Program", "VarDeclaration", "ObjectLiteral", "Property", "BinaryExpr", "NumericLiteral",
        "CallExpr", "MemberExpr", "MemberExpr", "Identifier", "Identifier", "NumericLiteral",
        "Identifier", "Property", "AssignmentExpr", "Identifier", "NumericLiteral"] ∧
    ∀ m ∈ n.preorder, m.LiesOver (scan nestedSource none).tokens nestedSource.toList := by
  have hkinds : (Node.ofTokens (scan nestedSource none).tokens).toOption.map
      (·.preorder.map Node.kindName) =
      some ["Program", "VarDeclaration", "ObjectLiteral", "Property", "BinaryExpr",
        "NumericLiteral", "CallExpr", "MemberExpr", "MemberExpr", "Identifier", "Identifier",
        "NumericLiteral", "Identifier", "Property", "AssignmentExpr", "Identifier",
        "NumericLiteral"] := by decide +kernel
  obtain ⟨n, hn, hkinds⟩ := Option.map_eq_some_iff.1 hkinds
  have h : Evaluates nestedSource none n := ⟨by decide +kernel, eq_ok_of_toOption hn⟩
  exact ⟨n, h, hkinds, spans_nest h⟩

end TemplateScript
