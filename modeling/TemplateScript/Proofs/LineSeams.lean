import TemplateScript.Proofs.MovedScans
import TemplateScript.Proofs.Positions
import TemplateScript.Proofs.SpacedScan

/-!
# Scans line by line

A line feed ends every piece but a block comment, and no tag holds one. So a source is scanned to
what its parts on both sides of a line break are scanned to, the second part from the region on that
the first one ends in, unless the first part is given up or ends within a comment.
-/

namespace TemplateScript

/-! ## Lines of a joined text -/

namespace Text

def onFirst (c : Char) : List (List Char) → List (List Char)
  | [] => [[c]]
  | l :: ls => (c :: l) :: ls

variable {c : Char} {r : List Char}

theorem lines_cons (h : ∀ t, c = '\r' → r = '\n' :: t → False) :
    lines (c :: r) = if isLineBreak c then [] :: lines r else onFirst c (lines r) := by
  rw [lines]
  · rfl
  · exact h

theorem lines_newline (r : List Char) : lines ('\n' :: r) = [] :: lines r :=
  lines_cons fun t h => by cases h

theorem lines_return_newline (r : List Char) : lines ('\r' :: '\n' :: r) = [] :: lines r := by
  rw [lines]

theorem length_onFirst (c : Char) (ls : List (List Char)) :
    ls.length ≤ (onFirst c ls).length ∧ 0 < (onFirst c ls).length := by
  cases ls <;> simp [onFirst]

/-- One more character in front is one more line if it is a line feed. -/
theorem length_lines_cons (c : Char) (r : List Char) :
    0 < (lines (c :: r)).length ∧ (lines r).length + [c].count '\n' ≤ (lines (c :: r)).length := by
  by_cases hpair : c = '\r' ∧ r.head? = some '\n'
  · obtain ⟨rfl, hhead⟩ := hpair
    obtain ⟨t, rfl⟩ := List.head?_eq_some_iff.1 hhead
    rw [lines_return_newline, lines_newline]
    simp
  · rw [lines_cons fun t hc hr => hpair ⟨hc, by rw [hr]; rfl⟩]
    have hcount : [c].count '\n' ≤ 1 := List.count_le_length
    split
    · simpa using hcount
    · rename_i hbreak
      have hc : c ≠ '\n' := by
        rintro rfl
        exact hbreak (by decide)
      have hfirst := length_onFirst c (lines r)
      simpa [hc] using hfirst.symm

/-- The line that a character stands on is among the lines. -/
theorem count_lt_lines (u : List Char) (c : Char) (r : List Char) :
    u.count '\n' < (lines (u ++ c :: r)).length := by
  induction u with
  | nil => exact (length_lines_cons c r).1
  | cons d u ih =>
    have hstep := (length_lines_cons d (u ++ c :: r)).2
    have hcount : (d :: u).count '\n' = [d].count '\n' + u.count '\n' := by
      rw [← List.count_append, List.singleton_append]
    rw [List.cons_append]
    omega

theorem head_lines_break (h : isLineBreak c = true) (r : List Char) :
    ∃ ls, lines (c :: r) = [] :: ls := by
  by_cases hpair : c = '\r' ∧ r.head? = some '\n'
  · obtain ⟨rfl, hhead⟩ := hpair
    obtain ⟨t, rfl⟩ := List.head?_eq_some_iff.1 hhead
    exact ⟨_, lines_return_newline t⟩
  · rw [lines_cons fun t hc hr => hpair ⟨hc, by rw [hr]; rfl⟩, if_pos h]
    exact ⟨_, rfl⟩

theorem onFirst_prefix {ls ms : List (List Char)} (h : ls <+: ms) (hne : ls ≠ []) :
    onFirst c ls <+: onFirst c ms := by
  obtain ⟨ts, rfl⟩ := h
  obtain ⟨l, ls, rfl⟩ := List.exists_cons_of_ne_nil hne
  exact List.prefix_append ((c :: l) :: ls) ts

/-- A text that goes on behind a line break has the lines that it had. -/
theorem lines_prefix (b : List Char) : ∀ a : List Char, lines a <+: lines (a ++ '\n' :: b)
  | [] => List.nil_prefix
  | [c] => by
    by_cases hbreak : isLineBreak c = true
    · obtain ⟨ls, hls⟩ := head_lines_break hbreak ('\n' :: b)
      rw [lines_cons (r := []) (fun t _ h => nomatch h), if_pos hbreak, List.singleton_append, hls]
      exact List.prefix_append [[]] ls
    · have hno : ∀ (r t : List Char), c = '\r' → r = '\n' :: t → False := by
        rintro r t rfl -
        exact hbreak (by decide)
      rw [List.singleton_append, lines_cons (hno _), lines_cons (hno _), if_neg hbreak,
        if_neg hbreak, lines_newline]
      exact List.prefix_append [[c]] (lines b)
  | c :: d :: r => by
    have ih := lines_prefix b (d :: r)
    by_cases hpair : c = '\r' ∧ d = '\n'
    · obtain ⟨rfl, rfl⟩ := hpair
      rw [List.cons_append, List.cons_append, lines_return_newline, lines_return_newline]
      exact List.cons_prefix_cons.2 ⟨rfl, lines_prefix b r⟩
    · have hno : ∀ u t : List Char, c = '\r' → d :: u = '\n' :: t → False := fun u t hc hd =>
        hpair ⟨hc, (List.cons.inj hd).1⟩
      rw [List.cons_append, List.cons_append, lines_cons (hno r), lines_cons (hno _)]
      split
      · exact List.cons_prefix_cons.2 ⟨rfl, ih⟩
      · exact onFirst_prefix ih (List.length_pos_iff.1 (length_lines_cons d r).1)

end Text

/-- A character of a text stands on the same line with more text behind a line break. -/
theorem line?_sourceLines (file : Option String) (u r : List Char) (c : Char) (b : String) :
    Text.line? (sourceLines (String.ofList (u ++ c :: r) ++ "\n" ++ b))
        ((Location.first file).after u).line
      = Text.line? (sourceLines (String.ofList (u ++ c :: r))) ((Location.first file).after u).line := by
  have hcount := Text.count_lt_lines u c r
  obtain ⟨more, hmore⟩ := Text.lines_prefix b.toList (u ++ c :: r)
  have hjoined : (String.ofList (u ++ c :: r) ++ "\n" ++ b).toList
      = u ++ c :: r ++ '\n' :: b.toList := by simp
  have hindex : (1 + (u.count '\n' : Int) - 1).toNat = u.count '\n' := by omega
  have hfirst : 1 ≤ 1 + (u.count '\n' : Int) := by omega
  rw [Location.first_after, Text.line?, Text.line?, if_pos hfirst, if_pos hfirst, hindex,
    sourceLines, sourceLines, hjoined, ← hmore, String.toList_ofList, List.map_append,
    List.getElem?_append_left (by rwa [List.length_map])]

/-! ## Pieces in front of a line break -/

namespace Piece

theorem isPrefixOf_newline {t : List Char} (h : '\n' ∉ t) (w b : List Char) :
    t.isPrefixOf (w ++ '\n' :: b) = t.isPrefixOf w := by
  induction t generalizing w with
  | nil => rw [List.isPrefixOf_nil_left, List.isPrefixOf_nil_left]
  | cons d t ih =>
    have hd : d ≠ '\n' := fun heq => h (heq ▸ List.mem_cons_self)
    cases w with
    | nil => simp [List.isPrefixOf, hd]
    | cons c w => simp [List.isPrefixOf, ih fun ht => h (List.mem_cons_of_mem d ht)]

theorem endsRuns_newline (b : List Char) : EndsRuns ('\n' :: b) where
  digits := List.takeWhile_cons_of_neg (by decide)
  cased := List.takeWhile_cons_of_neg (by decide)
  line := List.takeWhile_cons_of_neg (by simp)

variable {region : Region} {c : Char} {r : List Char}

/-- What is at the front of a text is there with a line break behind the text, a comment that does not
end apart. -/
theorem next_newline (h : ∀ slashFirst, (next region c r).piece ≠ .blockComment slashFirst false)
    (b : List Char) : next region c (r ++ '\n' :: b) = (next region c r).append ('\n' :: b) := by
  refine next_append_of (fun d hd => ?_) (fun t ht => ?_) (Or.inr (Or.inr ⟨endsRuns_newline b, h⟩))
  · cases r with
    | nil =>
      simp only [List.mem_cons, List.not_mem_nil, or_false] at hd
      rcases hd with rfl | rfl <;> simp
    | cons e r => rfl
  · have hnewline : '\n' ∉ t := by
      simp only [List.mem_cons, List.not_mem_nil, or_false] at ht
      rcases ht with rfl | rfl <;> decide
    exact isPrefixOf_newline hnewline (c :: r) b

end Piece

/-! ## Scans of two parts -/

namespace Scan

def followedBy (s t : Scan) : Scan where
  tokens := s.tokens.dropLast ++ t.tokens
  region := t.region
  aborted := t.aborted
  journal := s.journal.append t.journal

theorem withWarnings_followedBy (ds : List Diagnostic) (s t : Scan) :
    (s.withWarnings ds).followedBy t = (s.followedBy t).withWarnings ds := by
  induction ds with
  | nil => rfl
  | cons d ds ih =>
    calc followedBy (withWarning d (s.withWarnings ds)) t
        = withWarning d ((s.withWarnings ds).followedBy t) := by
          simp only [followedBy, withWarning, Journal.reportFirst_append]
      _ = withWarning d ((s.followedBy t).withWarnings ds) := congrArg (withWarning d) ih

theorem withPiece_followedBy {s : Scan} (h : s.tokens ≠ []) (line? : Int → Option String)
    (l : Location) (p : Piece) (text : List Char) (t : Scan) :
    (s.withPiece line? l p text).followedBy t = (s.followedBy t).withPiece line? l p text := by
  cases p with
  | token kind => simp [withPiece, withToken, followedBy, List.dropLast_cons_of_ne_nil h]
  | blockComment slashFirst closed => exact withWarnings_followedBy _ s t
  | _ => rfl

theorem commentWarnings_unclosed (line? : Int → Option String) (l stop : Location)
    (slashFirst : Bool) : ∃ d ∈ commentWarnings line? l stop slashFirst false, d.code = "W002" :=
  ⟨_, List.mem_append_right _ (List.mem_singleton.2 rfl), rfl⟩

theorem mem_withPiece (line? : Int → Option String) (l : Location) (p : Piece) (text : List Char)
    {s : Scan} {d : Diagnostic} (hd : d ∈ s.journal.diagnostics) :
    d ∈ (s.withPiece line? l p text).journal.diagnostics := by
  cases p with
  | blockComment slashFirst closed =>
    rw [withPiece, withWarnings_diagnostics]
    exact List.mem_append_right _ hd
  | _ => exact hd

/-- A scan that comes to the end of its text marks it there. -/
theorem ofText_end (line? : Int → Option String) (region : Region) (l : Location)
    {cs : List Char} (hend : (ofText line? region l cs).aborted = false) :
    ∃ ts, (ofText line? region l cs).tokens = ts ++ [.endAt (l.after cs)] := by
  induction region, cs using piece_induction generalizing l with
  | nil region =>
    rw [ofText_nil]
    exact ⟨[], rfl⟩
  | unrecognized region c r h =>
    rw [ofText_unrecognized h] at hend
    cases hend
  | cons region c r h ih =>
    rw [ofText_cons h, withPiece_aborted] at hend
    obtain ⟨ts, hts⟩ := ih _ hend
    rw [ofText_cons h, withPiece_tokens, hts, ← Location.after_append, (Piece.next_of region c r).1,
      ← List.append_assoc]
    exact ⟨_, rfl⟩

/-- A text and one behind a line break are scanned one after the other. -/
theorem ofText_append_newline (line? : Int → Option String) (region : Region) (l : Location)
    {a : List Char} (hend : (ofText line? region l a).aborted = false)
    (hclosed : ∀ d ∈ (ofText line? region l a).journal.diagnostics, d.code ≠ "W002")
    (b : List Char) :
    ofText line? region l (a ++ '\n' :: b)
      = (ofText line? region l a).followedBy
          (ofText line? (ofText line? region l a).region (l.after (a ++ ['\n'])) b) := by
  induction region, a using piece_induction generalizing l with
  | nil region =>
    rw [List.nil_append, List.nil_append, ofText_nil, ofText_layout (by decide)]
    simp only [followedBy, atEnd, Journal.empty_append]
    rfl
  | unrecognized region c r h =>
    rw [ofText_unrecognized h] at hend
    cases hend
  | cons region c r h ih =>
    rw [ofText_cons h] at hend hclosed ⊢
    have hopen : ∀ slashFirst, (Piece.next region c r).piece ≠ .blockComment slashFirst false := by
      intro slashFirst hp
      rw [hp, withPiece, withWarnings_diagnostics] at hclosed
      obtain ⟨d, hd, hcode⟩ := commentWarnings_unclosed line? l
        (l.after (Piece.next region c r).text) slashFirst
      exact hclosed d (List.mem_append_left _ hd) hcode
    have hnext := Piece.next_newline hopen b
    have hp : (Piece.next region c (r ++ '\n' :: b)).piece ≠ .unrecognized := by
      rw [hnext]
      exact h
    have htext : (c :: r) ++ ['\n'] = (Piece.next region c r).text
        ++ ((Piece.next region c r).rest ++ ['\n']) := by
      rw [← List.append_assoc, (Piece.next_of region c r).1]
    rw [withPiece_aborted] at hend
    have hrest := ih _ hend fun d hd => hclosed d (mem_withPiece _ _ _ _ hd)
    have hne : (ofText line? (Piece.regionAfter region (Piece.next region c r).piece)
        (l.after (Piece.next region c r).text) (Piece.next region c r).rest).tokens ≠ [] := by
      obtain ⟨ts, hts⟩ := ofText_end _ _ _ hend
      rw [hts]
      simp
    rw [List.cons_append, ofText_cons hp, hnext, withPiece_region, htext, Location.after_append,
      withPiece_followedBy hne]
    exact congrArg (withPiece _ _ _ _) hrest

end Scan

/-! ## Sources -/

/-- The scan of a source that stands behind text in which the script region has come so far. -/
def scanBehind (region : Region) (source : String) (file : Option String) : Scan :=
  Scan.ofText (Text.line? (sourceLines source)) region (.first file) source.toList

structure Scan.Joins (line? : Int → Option String) (lines chars : Int) (s t joined : Scan) :
    Prop where
  tokens : ∃ ts l, s.tokens = ts ++ [.endAt l] ∧
    joined.tokens = ts ++ t.tokens.map (Token.moved lines chars)
  region : joined.region = t.region
  aborted : joined.aborted = t.aborted
  reports : joined.journal.diagnostics = s.journal.diagnostics
    ++ t.journal.diagnostics.map fun d => (d.moved lines chars).quoting line?

theorem Scan.MovedTo.joins {line? : Int → Option String} {lines chars : Int} {s s' t t' : Scan}
    (ht : t.MovedTo line? lines chars t') {ts : List Token} {l : Location}
    (hend : s.tokens = ts ++ [.endAt l]) (htokens : s'.tokens = s.tokens)
    (hreports : s'.journal.diagnostics = s.journal.diagnostics) :
    Joins line? lines chars s t (s'.followedBy t') where
  tokens := by
    refine ⟨ts, l, hend, ?_⟩
    rw [followedBy, htokens, hend, List.dropLast_concat, ht.tokens]
  region := ht.region
  aborted := ht.aborted
  reports := by rw [followedBy, Journal.append_diagnostics, hreports, ht.reports]

theorem Location.first_after_newline (file : Option String) (a : List Char) :
    (first file).after (a ++ ['\n']) = (first file).moved (1 + (a.count '\n' : Nat)) (a.length + 1) := by
  rw [first_after]
  simp [moved, first, Int.add_comm]

section
variable (a b : String) (file : Option String)

theorem quoting_joined {d : Diagnostic} (h : d ∈ (scan a file).journal.diagnostics) :
    d.quoting (Text.line? (sourceLines (a ++ "\n" ++ b))) = d := by
  obtain ⟨u, c, r, ha, hquote, hline⟩ := Scan.ofText_quotes _ .ahead (.first file) a.toList d h
  have ha : a = String.ofList (u ++ c :: r) := by rw [← ha, String.ofList_toList]
  obtain ⟨span, hspan, hstart⟩ := Option.map_eq_some_iff.1 hline
  have hsame := line?_sourceLines file u r c b
  rw [← ha, ← hstart] at hsame
  rw [← hquote, Diagnostic.quoting, Diagnostic.quoting, hspan, Option.bind_some, Option.bind_some,
    hsame]

/-- The text ahead of a line break is scanned to the same in the whole source. -/
theorem scan_in_joined : (scan a file).MovedTo (Text.line? (sourceLines (a ++ "\n" ++ b))) 0 0
    (Scan.ofText (Text.line? (sourceLines (a ++ "\n" ++ b))) .ahead (.first file) a.toList) := by
  have hmoved := Scan.ofText_moved (Text.line? (sourceLines a))
    (Text.line? (sourceLines (a ++ "\n" ++ b))) 0 0 .ahead (.first file) a.toList
  rwa [Location.moved_zero] at hmoved

/-- Scanning goes by lines: a source with a line break is scanned to what the source ahead of it is
scanned to, and then to what the source behind it is scanned to from the region on that the first one
ends in. -/
theorem scan_by_lines (hend : (scan a file).aborted = false)
    (hclosed : ∀ d ∈ (scan a file).journal.diagnostics, d.code ≠ "W002") :
    Scan.Joins (Text.line? (sourceLines (a ++ "\n" ++ b))) (1 + (a.toList.count '\n' : Nat))
      (a.length + 1) (scan a file) (scanBehind (scan a file).region b file)
      (scan (a ++ "\n" ++ b) file) := by
  have hfirst := scan_in_joined a b file
  have htokens : (Scan.ofText (Text.line? (sourceLines (a ++ "\n" ++ b))) .ahead (.first file)
      a.toList).tokens = (scan a file).tokens := by
    rw [hfirst.tokens]
    exact (List.map_congr_left fun t _ => Token.moved_zero t).trans (List.map_id _)
  have hreports : (Scan.ofText (Text.line? (sourceLines (a ++ "\n" ++ b))) .ahead (.first file)
      a.toList).journal.diagnostics = (scan a file).journal.diagnostics := by
    rw [hfirst.reports]
    refine (List.map_congr_left fun d hd => ?_).trans (List.map_id _)
    rw [Diagnostic.moved_zero]
    exact quoting_joined a b file hd
  have hsecond := Scan.ofText_moved (Text.line? (sourceLines b))
    (Text.line? (sourceLines (a ++ "\n" ++ b))) (1 + (a.toList.count '\n' : Nat)) (a.length + 1)
    (scan a file).region (.first file) b.toList
  have hscan := Scan.ofText_append_newline (Text.line? (sourceLines (a ++ "\n" ++ b))) .ahead
    (.first file) (hfirst.aborted.trans hend) (by rwa [hreports]) b.toList
  have hjoined : (a ++ "\n" ++ b).toList = a.toList ++ '\n' :: b.toList := by simp
  obtain ⟨ts, hts⟩ := Scan.ofText_end _ _ _ hend
  rw [← hjoined, hfirst.region, Location.first_after_newline, String.length_toList] at hscan
  rw [show scan (a ++ "\n" ++ b) file = _ from hscan]
  exact hsecond.joins hts htokens hreports

/-- A number, a slash and an opened region at the end of a line, an odd comment on the next one. -/
theorem slash_at_line_end :
    Scan.Joins (Text.line? (sourceLines "<trans>let a=1/\n/2 /*/ x */;$")) 1 16
      (scan "<trans>let a=1/" none) (scanBehind .inside "/2 /*/ x */;$" none)
      (scan "<trans>let a=1/\n/2 /*/ x */;$" none) := by
  have hregion : (scan "<trans>let a=1/" none).region = .inside := by decide +kernel
  have hjoins := scan_by_lines "<trans>let a=1/" "/2 /*/ x */;$" none (by decide +kernel)
    (by decide +kernel)
  rw [hregion] at hjoins
  exact hjoins

end

end TemplateScript
